import Bindery.Proofs.Parameters

/-!
# Reading signatures back

A signature in C determines the function, up to the types that have the same name in C: what it returns, and
its arguments with their names, in order, the arguments of callbacks included. Its parts are found at the
first parenthesis, at the last space, and at the commas outside parentheses.
-/

namespace Bindery

open Text Naming

/-- Two arguments have the same name and the same type in C. Callbacks have such arguments in turn. -/
inductive Argument.Alike (types : TypeMap) : Argument → Argument → Prop
  | scalar {name first second token : String} (hfirst : types.nameOf first .c = .ok token)
      (hsecond : types.nameOf second .c = .ok token) : Alike types (.scalar name first) (.scalar name second)
  | callback {name first second token : String} {args others : List Argument}
      (hfirst : types.nameOf first .c = .ok token) (hsecond : types.nameOf second .c = .ok token)
      (hlength : args.length = others.length)
      (hargs : ∀ pair ∈ args.zip others, Alike types pair.1 pair.2) :
      Alike types (.callback name first args) (.callback name second others)

namespace Signature

/-- The names of types in C have no parentheses and no commas. -/
def PlainTypes (types : TypeMap) : Prop :=
  ∀ type token, types.nameOf type .c = .ok token → '(' ∉ token.toList ∧ ')' ∉ token.toList ∧ ',' ∉ token.toList

section Cuts

variable {first second name other parameters others declarator : String} {c : Char}

theorem takeWhile_append_cons_self (front rest : List Char) :
    (front ++ c :: rest).takeWhile (· ≠ c) = front.takeWhile (· ≠ c) := by
  induction front with
  | nil => simp
  | cons d front ih =>
      rw [List.cons_append, List.takeWhile_cons, List.takeWhile_cons, ih]

theorem takeWhile_append_of_notMem {front : List Char} (h : c ∉ front) (rest : List Char) :
    (front ++ rest).takeWhile (· ≠ c) = front ++ rest.takeWhile (· ≠ c) := by
  refine List.takeWhile_append_of_pos fun d hd => ?_
  rw [decide_eq_true_iff]
  rintro rfl
  exact h hd

theorem append_cons_inj {front back rest behind : List Char} (hfront : c ∉ front) (hback : c ∉ back)
    (h : front ++ c :: rest = back ++ c :: behind) : front = back ∧ rest = behind := by
  have hcut := congrArg (List.takeWhile (· ≠ c)) h
  rw [takeWhile_append_of_notMem hfront, takeWhile_append_of_notMem hback, List.takeWhile_cons_of_neg (by simp),
    List.takeWhile_cons_of_neg (by simp), List.append_nil, List.append_nil] at hcut
  subst hcut
  simpa using h

/-- Whatever the declarator is, it starts at the same place: nothing before it has a parenthesis. -/
theorem declaration_inj (hfirst : '(' ∉ first.toList) (hsecond : '(' ∉ second.toList)
    (h : first ++ " " ++ declarator ++ "(" ++ parameters ++ ")"
      = second ++ " " ++ declarator ++ "(" ++ others ++ ")") : first = second ∧ parameters = others := by
  have hchars : first.toList ++ (' ' :: declarator.toList ++ '(' :: (parameters.toList ++ [')']))
      = second.toList ++ (' ' :: declarator.toList ++ '(' :: (others.toList ++ [')'])) := by
    simpa [String.toList_append] using congrArg String.toList h
  have hcut := congrArg (List.takeWhile (· ≠ '(')) hchars
  rw [takeWhile_append_of_notMem hfirst, takeWhile_append_of_notMem hsecond, takeWhile_append_cons_self,
    takeWhile_append_cons_self, List.append_cancel_right_eq] at hcut
  rw [hcut] at hchars
  have hrest := List.append_cancel_left (List.append_cancel_left hchars)
  simp only [List.cons.injEq, true_and, List.append_cancel_right_eq] at hrest
  exact ⟨String.toList_inj.mp hcut, String.toList_inj.mp hrest⟩

/-- The name of a callback ends at the first parenthesis that closes. -/
theorem pointer_inj (hfirst : '(' ∉ first.toList) (hsecond : '(' ∉ second.toList)
    (hname : ')' ∉ name.toList) (hother : ')' ∉ other.toList)
    (h : first ++ " (*" ++ name ++ ")(" ++ parameters ++ ")"
      = second ++ " (*" ++ other ++ ")(" ++ others ++ ")") :
    first = second ∧ name = other ∧ parameters = others := by
  have hchars : (first.toList ++ [' ']) ++ '(' :: '*' :: (name.toList ++ ')' :: '(' :: (parameters.toList ++ [')']))
      = (second.toList ++ [' ']) ++ '(' :: '*' :: (other.toList ++ ')' :: '(' :: (others.toList ++ [')'])) := by
    simpa [String.toList_append] using congrArg String.toList h
  obtain ⟨htoken, hrest⟩ := append_cons_inj (by simpa using hfirst) (by simpa using hsecond) hchars
  obtain ⟨hnames, hrest⟩ := append_cons_inj hname hother (List.cons.inj hrest).2
  simp only [List.cons.injEq, true_and, List.append_cancel_right_eq] at hrest htoken
  exact ⟨String.toList_inj.mp htoken, String.toList_inj.mp hnames, String.toList_inj.mp hrest⟩

/-- A name is what is behind the last space. -/
theorem named_inj (hname : ' ' ∉ name.toList) (hother : ' ' ∉ other.toList)
    (h : first ++ " " ++ name = second ++ " " ++ other) : first = second ∧ name = other := by
  have hchars : name.toList.reverse ++ ' ' :: first.toList.reverse
      = other.toList.reverse ++ ' ' :: second.toList.reverse := by
    simpa [String.toList_append] using congrArg (fun text : String => text.toList.reverse) h
  obtain ⟨hnames, htokens⟩ := append_cons_inj (by simpa using hname) (by simpa using hother) hchars
  exact ⟨String.toList_inj.mp (List.reverse_injective htokens),
    String.toList_inj.mp (List.reverse_injective hnames)⟩

/-- A callback has a parenthesis, a value has none. -/
theorem named_ne_pointer (hfirst : '(' ∉ first.toList) (hname : '(' ∉ name.toList) :
    first ++ " " ++ name ≠ second ++ " (*" ++ other ++ ")(" ++ parameters ++ ")" := by
  intro h
  have hmem : '(' ∈ (first ++ " " ++ name).toList := by
    rw [h]
    simp [String.toList_append]
  simp [String.toList_append, hfirst, hname] at hmem

end Cuts

section Read

variable {types : TypeMap} {arg other : Argument} {args others : List Argument} {owner owner' text : String}
  {texts : List String}

theorem not_mem_of_nominal {name : String} (h : Nominal name) :
    ' ' ∉ name.toList ∧ '(' ∉ name.toList ∧ ')' ∉ name.toList := by
  refine ⟨fun hmem => ?_, fun hmem => ?_, fun hmem => ?_⟩ <;> exact absurd (h _ hmem) (by decide)

theorem forall₂_alike {manner : Manner} (hargs : ∀ arg ∈ args, ∀ other text, other.Named →
      Written manner owner arg text → Written manner owner' other text → Argument.Alike types arg other)
    (hothers : ∀ other ∈ others, other.Named) (hfirst : List.Forall₂ (Written manner owner) args texts)
    (hsecond : List.Forall₂ (Written manner owner') others texts) :
    List.Forall₂ (Argument.Alike types) args others := by
  induction hfirst generalizing others with
  | nil =>
      cases hsecond
      exact .nil
  | cons htext _ ih =>
      cases hsecond with
      | cons htext' hrest' =>
          obtain ⟨harg, hrest⟩ := List.forall_mem_cons.mp hargs
          obtain ⟨hother, hothers⟩ := List.forall_mem_cons.mp hothers
          exact .cons (harg _ _ hother htext htext') (ih hrest hothers hrest')

theorem exists_of_written_scalar {name type : String}
    (h : Written (cManner types) owner (.scalar name type) text) :
    ∃ token, types.nameOf type .c = .ok token ∧ text = token ++ " " ++ name := by
  cases h with
  | scalar htext => exact exists_of_cParameter_scalar htext

theorem exists_of_written_callback {name type : String}
    (h : Written (cManner types) owner (.callback name type args) text) : ∃ token parameters,
      types.nameOf type .c = .ok token ∧ text = token ++ " (*" ++ name ++ ")(" ++ parameters ++ ")" ∧
        List.Forall₂ (Written (cManner types) (callbackName owner name)) args (entries parameters) := by
  cases h with
  | callback _ hentries hlength hargs =>
      obtain ⟨token, parameters, htoken, rfl, rfl⟩ := hentries
      exact ⟨token, parameters, htoken, rfl, List.forall₂_iff_zip.mpr ⟨hlength, fun hmem => hargs _ hmem⟩⟩

/-- Arguments with the same text are alike. -/
theorem alike_of_written (htypes : PlainTypes types) (harg : arg.Named) (hother : other.Named)
    (h : Written (cManner types) owner arg text) (h' : Written (cManner types) owner' other text) :
    Argument.Alike types arg other := by
  induction harg generalizing other owner owner' text with
  | scalar hname =>
      obtain ⟨token, htoken, rfl⟩ := exists_of_written_scalar h
      obtain ⟨hspace, hparenthesis, -⟩ := not_mem_of_nominal hname
      cases hother with
      | scalar hother =>
          obtain ⟨token', htoken', heq⟩ := exists_of_written_scalar h'
          obtain ⟨rfl, rfl⟩ := named_inj hspace (not_mem_of_nominal hother).1 heq
          exact .scalar htoken htoken'
      | callback hother _ =>
          obtain ⟨token', parameters, -, heq, -⟩ := exists_of_written_callback h'
          exact absurd heq (named_ne_pointer (htypes _ _ htoken).1 hparenthesis)
  | callback hname _ ih =>
      obtain ⟨token, parameters, htoken, rfl, hargs⟩ := exists_of_written_callback h
      cases hother with
      | scalar hother =>
          obtain ⟨token', htoken', heq⟩ := exists_of_written_scalar h'
          exact absurd heq.symm (named_ne_pointer (htypes _ _ htoken').1 (not_mem_of_nominal hother).2.1)
      | callback hother hnamed =>
          obtain ⟨token', parameters', htoken', heq, hothers⟩ := exists_of_written_callback h'
          obtain ⟨rfl, rfl, rfl⟩ := pointer_inj (htypes _ _ htoken).1 (htypes _ _ htoken').1
            (not_mem_of_nominal hname).2.2 (not_mem_of_nominal hother).2.2 heq
          -- the same parameters have the same entries
          have halike := forall₂_alike (fun arg harg other text hother hwritten hwritten' =>
            ih arg harg hother hwritten hwritten') hnamed hargs hothers
          obtain ⟨hlength, hpairs⟩ := List.forall₂_iff_zip.mp halike
          exact .callback htoken htoken' hlength fun pair hmem => hpairs hmem

/-- A signature in C has the parameters of the function as the entries of the list behind its declarator. -/
theorem exists_of_c {function : Function} {declarator : String} (htypes : PlainTypes types)
    (hnamed : ∀ arg ∈ function.args, arg.Named) (h : c types function declarator = .ok text) :
    ∃ token parameters, types.nameOf function.returnType .c = .ok token ∧
      text = token ++ " " ++ declarator ++ "(" ++ parameters ++ ")" ∧
      List.Forall₂ (Written (cManner types) "") function.args (entries parameters) := by
  obtain ⟨token, htoken, h⟩ := except_bind_eq_ok_iff.mp h
  obtain ⟨texts, htexts, h⟩ := except_bind_eq_ok_iff.mp h
  cases h
  have hentry : ∀ type token, types.nameOf type .c = .ok token → IsEntry token := by
    intro type token htoken
    obtain ⟨hopen, hclose, hcomma⟩ := htypes type token htoken
    refine isEntry_of_plain fun c hc => ⟨?_, ?_, ?_⟩ <;> rintro rfl <;> contradiction
  have howner : Nominal "" := by decide
  obtain ⟨hwritten, hlistable⟩ := (separates_cManner hentry).forall₂ hnamed howner (forall₂_cParameters htexts)
  refine ⟨token, join ", " texts, htoken, rfl, ?_⟩
  rwa [entries_join hlistable]

end Read

/-- Functions with the same signature in C are the same but for the names that types have elsewhere. -/
theorem c_determines {types : TypeMap} {first second : Function} {declarator text : String}
    (htypes : PlainTypes types) (hfirst : ∀ arg ∈ first.args, arg.Named)
    (hsecond : ∀ arg ∈ second.args, arg.Named) (h : c types first declarator = .ok text)
    (h' : c types second declarator = .ok text) :
    (∃ token, types.nameOf first.returnType .c = .ok token ∧ types.nameOf second.returnType .c = .ok token) ∧
      List.Forall₂ (Argument.Alike types) first.args second.args := by
  obtain ⟨token, parameters, htoken, rfl, hwritten⟩ := exists_of_c htypes hfirst h
  obtain ⟨token', parameters', htoken', heq, hwritten'⟩ := exists_of_c htypes hsecond h'
  obtain ⟨rfl, rfl⟩ := declaration_inj (htypes _ _ htoken).1 (htypes _ _ htoken').1 heq
  refine ⟨⟨token, htoken, htoken'⟩, ?_⟩
  exact forall₂_alike (fun arg harg other text hother hwritten hwritten' =>
    alike_of_written htypes (hfirst arg harg) hother hwritten hwritten') hsecond hwritten hwritten'

/-- A table in which two types have the same name in C. -/
def resultTypes : TypeMap :=
  [("int", ⟨some "int", some "int", some "int", some "c_int"⟩),
    ("result", ⟨some "int", some "Result", some "int", some "c_int"⟩),
    ("text", ⟨some "const char*", none, some "string", some "c_char_p"⟩)]

theorem c_determines_resultTypes :
    List.Forall₂ (Argument.Alike resultTypes)
      [.callback "fn" "result" [.callback "done" "int" [], .scalar "code" "int"], .scalar "name" "text"]
      [.callback "fn" "int" [.callback "done" "result" [], .scalar "code" "result"], .scalar "name" "text"] := by
  have htypes : PlainTypes resultTypes := by
    intro type token htoken
    obtain ⟨entry, hentry, hmem⟩ := TypeMap.exists_mem_texts_of_nameOf htoken
    have hplain : ∀ entry ∈ resultTypes, ∀ token ∈ entry.2.texts,
        '(' ∉ token.toList ∧ ')' ∉ token.toList ∧ ',' ∉ token.toList := by decide +kernel
    exact hplain entry hentry token hmem
  have hnamed (first second third : String) : ∀ arg ∈ [Argument.callback "fn" first
      [.callback "done" second [], .scalar "code" third], .scalar "name" "text"], arg.Named := by
    simp only [List.forall_mem_cons, List.not_mem_nil, false_imp_iff, implies_true, and_true]
    refine ⟨.callback (by decide) ?_, .scalar (by decide)⟩
    simp only [List.forall_mem_cons, List.not_mem_nil, false_imp_iff, implies_true, and_true]
    exact ⟨.callback (by decide) (by simp), .scalar (by decide)⟩
  have hfirst : c resultTypes ⟨"First", "int", [.callback "fn" "result" [.callback "done" "int" [],
      .scalar "code" "int"], .scalar "name" "text"]⟩ "(*)"
        = .ok "int (*)(int (*fn)(int (*done)(), int code), const char* name)" := rfl
  have hsecond : c resultTypes ⟨"Second", "result", [.callback "fn" "int" [.callback "done" "result" [],
      .scalar "code" "result"], .scalar "name" "text"]⟩ "(*)"
        = .ok "int (*)(int (*fn)(int (*done)(), int code), const char* name)" := rfl
  exact (c_determines htypes (hnamed _ _ _) (hnamed _ _ _) hfirst hsecond).2

end Signature

end Bindery
