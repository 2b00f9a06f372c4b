import Bindery.Proofs.Expressions
import Bindery.Proofs.Members
import Bindery.Render.Flags

/-!
# Lines of flags

What the lines that the targets emit for the flags of a set are read back as: each flag is declared once,
by its name and the tokens of its expression.
-/

namespace Bindery

open Text Naming

namespace Expression

variable {c : Char} {text before after word : List Char} {first second : List (List Char)}

/-- Words of code up to the comment behind it. -/
def uncommented (line : List (List Char)) : List (List Char) :=
  line.takeWhile fun word => !(['/', '/'].isPrefixOf word)

theorem uncommented_append (h : ∀ word ∈ first, word.head? ≠ some '/') :
    uncommented (first ++ second) = first ++ uncommented second := by
  refine List.takeWhile_append_of_pos fun word hword => ?_
  have hhead := h word hword
  cases word with
  | nil => rfl
  | cons c rest =>
      have hne : ('/' == c) = false := by
        rw [beq_eq_false_iff_ne]
        rintro rfl
        exact hhead rfl
      simp [List.isPrefixOf, hne]

theorem uncommented_of_forall (h : ∀ word ∈ first, word.head? ≠ some '/') : uncommented first = first := by
  have happend : uncommented (first ++ []) = first ++ uncommented [] := uncommented_append h
  rwa [List.append_nil, uncommented, uncommented, List.takeWhile_nil, List.append_nil] at happend

theorem uncommented_comment (hblanks : ∀ c ∈ before, isBlank c = true) :
    uncommented (codeWords (before ++ ('/' :: '/' :: text))) = [] := by
  have hmark : ∀ c ∈ ['/', '/'], isBlank c = false := by simp [isBlank]
  rw [codeWords_blanks_append hblanks]
  unfold codeWords
  obtain ⟨rest, others, hwords⟩ := exists_words_append (List.cons_ne_nil '/' ['/']) hmark
  exact (congrArg uncommented hwords).trans rfl

theorem head?_of_ofWord? {token : Token} (h : Token.ofWord? word = some token) :
    word.head? ≠ some '/' := by
  rcases word with - | ⟨c, rest⟩
  · simp
  · rintro ⟨⟩
    simp [Token.ofWord?, Identifier.isSpelled, Identifier.isStart] at h

theorem head?_of_tokens? {tokens : List Token} (h : tokens? text = some tokens) :
    ∀ word ∈ codeWords text, word.head? ≠ some '/' := by
  intro word hword
  rcases exists_of_mapM_option h word hword with ⟨token, htoken⟩
  exact head?_of_ofWord? htoken

theorem codeWords_append_blanks (h : ∀ c ∈ after, isBlank c = true) :
    codeWords (text ++ after) = codeWords text := by
  cases after with
  | nil => rw [List.append_nil]
  | cons c rest =>
      obtain ⟨hc, hrest⟩ := List.forall_mem_cons.mp h
      have hempty : codeWords (rest ++ []) = [] := codeWords_blanks_append hrest
      rw [List.append_nil] at hempty
      rw [codeWords_append_blank hc, hempty, List.append_nil]

/-- The name and the tokens of a macro definition. -/
def definition? (line : String) : Option (String × List Token) :=
  match uncommented (codeWords line.toList) with
  | directive :: name :: rest =>
      if directive = "#define".toList ∧ Identifier.isSpelled name then
        (rest.mapM Token.ofWord?).map (String.ofList name, ·)
      else none
  | _ => none

/-- The name and the tokens of the value of an enumerator, behind which a comma stands. -/
def enumerator? (line : String) : Option (String × List Token) :=
  match uncommented (codeWords line.toList) with
  | name :: sign :: rest =>
      if Identifier.isSpelled name ∧ sign = ['='] ∧ rest.getLast? = some [','] then
        (rest.dropLast.mapM Token.ofWord?).map (String.ofList name, ·)
      else none
  | _ => none

theorem head?_of_isSpelled (h : Identifier.isSpelled word = true) : word.head? ≠ some '/' := by
  intro hhead
  rcases word with - | ⟨c, rest⟩
  · cases h
  · cases hhead
    simp [Identifier.isSpelled, Identifier.isStart] at h

theorem definition?_line {define : Define} {tokens : List Token} (width : Nat)
    (hname : Identifier.isSpelled define.name.toList = true)
    (hvalue : tokens? define.value.toList = some tokens) :
    definition? (define.line width) = some (define.name, tokens) := by
  have hblank : isBlank ' ' = true := by decide
  have hplain := head?_of_tokens? hvalue
  have htokens : (codeWords define.value.toList).mapM Token.ofWord? = some tokens := hvalue
  have hread (line : String) (rest : List Char)
      (hline : line.toList = "#define".toList ++ ' ' :: (define.name.toList ++ ' ' :: rest))
      (hrest : uncommented (codeWords rest) = codeWords define.value.toList) :
      definition? line = some (define.name, tokens) := by
    have hdirective : codeWords "#define".toList = ["#define".toList] := by decide
    have hwords : codeWords line.toList
        = ["#define".toList, define.name.toList] ++ codeWords rest := by
      rw [hline, codeWords_append_blank hblank, codeWords_append_blank hblank, hdirective,
        codeWords_of_isSpelled hname]
      rfl
    have hfront : ∀ word ∈ ["#define".toList, define.name.toList], word.head? ≠ some '/' := by
      simp only [List.forall_mem_cons]
      exact ⟨by simp, head?_of_isSpelled hname, by simp⟩
    unfold definition?
    rw [hwords, uncommented_append hfront, hrest]
    simp [hname, htokens]
  rw [Define.line]
  split
  · refine hread _ define.value.toList ?_ (uncommented_of_forall hplain)
    simp [Define.directive, String.toList_append]
  · generalize hgap : List.replicate (width - define.directive.length) ' ' = gap
    have hgaps : ∀ c ∈ gap, isBlank c = true := by
      rw [← hgap]
      intro c hc
      rw [List.eq_of_mem_replicate hc]
      exact hblank
    refine hread _ ((define.value.toList ++ gap) ++ ' ' :: ([' '] ++ ('/' :: '/' :: ("/< ".toList
      ++ (singleLine define.help).toList)))) ?_ ?_
    · rw [padRight, hgap]
      simp [Define.directive, String.toList_append]
    · rw [codeWords_append_blank hblank, codeWords_append_blanks hgaps, uncommented_append hplain,
        uncommented_comment (by simpa using hblank), List.append_nil]

theorem enumerator?_line {front name expression : String} {tokens : List Token}
    (hfront : ∀ c ∈ front.toList, isBlank c = true) (hname : Identifier.isSpelled name.toList = true)
    (hvalue : tokens? expression.toList = some tokens) :
    enumerator? (front ++ name ++ " = " ++ expression ++ ",") = some (name, tokens) := by
  have hblank : isBlank ' ' = true := by decide
  have hline : (front ++ name ++ " = " ++ expression ++ ",").toList
      = front.toList ++ (name.toList ++ ' ' :: (['='] ++ ' ' :: (expression.toList ++ ',' :: []))) := by
    simp [String.toList_append]
  have hsign : codeWords ['='] = [['=']] := by decide
  have hwords : codeWords (front ++ name ++ " = " ++ expression ++ ",").toList
      = (name.toList :: ['='] :: codeWords expression.toList) ++ [[',']] := by
    rw [hline, codeWords_blanks_append hfront, codeWords_append_blank hblank,
      codeWords_of_isSpelled hname, codeWords_append_blank hblank, hsign,
      codeWords_append_punctuation rfl, codeWords_nil]
    rfl
  have hplain : ∀ word ∈ name.toList :: ['='] :: codeWords expression.toList, word.head? ≠ some '/' := by
    simp only [List.forall_mem_cons]
    exact ⟨head?_of_isSpelled hname, by simp, head?_of_tokens? hvalue⟩
  have hcomma : uncommented [[',']] = [[',']] := rfl
  have htokens : (codeWords expression.toList).mapM Token.ofWord? = some tokens := hvalue
  unfold enumerator?
  rw [hwords, uncommented_append hplain, hcomma]
  simp [hname, htokens]

/-- Trimming stops at the last character that is not blank. -/
theorem trimEnd_append_cons (hc : isBlank c = false) :
    trimEnd (before ++ c :: after) = before ++ c :: trimEnd after := by
  have hkept : (c :: before.reverse).dropWhile isBlank = c :: before.reverse :=
    List.dropWhile_cons_of_neg (by simp [hc])
  unfold trimEnd
  rw [List.reverse_append, List.reverse_cons, List.append_assoc, List.singleton_append,
    List.dropWhile_append, hkept]
  split
  next hempty =>
    rw [List.isEmpty_iff.mp hempty]
    simp
  next => simp

/-- A line with nothing but a comment declares no flag. -/
theorem enumerator?_comment (hblanks : ∀ c ∈ before, isBlank c = true) :
    enumerator? (String.ofList (before ++ ('/' :: '/' :: text))) = none := by
  unfold enumerator?
  rw [String.toList_ofList, uncommented_comment hblanks]

end Expression

open Expression

namespace Flag.Kind

variable {nameOf : String → String} {kind : Flag.Kind}

/-- The names of the flags that a flag combines. -/
def names : Flag.Kind → List String
  | .bit _ => []
  | .combine names => names

/-- The tokens of the expression of a flag, given the names of the flags it combines. -/
def tokens (nameOf : String → String) : Flag.Kind → List Token
  | .bit none => [.number 0]
  | .bit (some place) => [.number 1, .shift, .number place]
  | .combine names => disjunction (names.map nameOf)

/-- The tokens of the expression of a flag in C and C++, where all but a zero is in parentheses. -/
def groupedTokens (nameOf : String → String) (kind : Flag.Kind) : List Token :=
  if kind = .bit none then [.number 0] else .opening :: kind.tokens nameOf ++ [.closing]

theorem tokens?_zero : tokens? "0".toList = some [.number 0] := by decide

theorem tokens?_shift (place : Nat) :
    tokens? ("1 << ".toList ++ (toString place).toList) = some [.number 1, .shift, .number place] := by
  have hone : tokens? ['1'] = some [.number 1] := by decide
  have hsign : tokens? ['<', '<'] = some [.shift] := by decide
  have hline : "1 << ".toList ++ (toString place).toList
      = ['1'] ++ ' ' :: (['<', '<'] ++ ' ' :: (toString place).toList) := by simp
  rw [hline, tokens?_append_blank (by decide) hone
    (tokens?_append_blank (by decide) hsign (tokens?_number place))]
  rfl

theorem tokens?_combination {names : List String}
    (h : ∀ name ∈ names, Identifier.isSpelled (nameOf name).toList = true) :
    tokens? (join " | " (names.map nameOf)).toList = some (disjunction (names.map nameOf)) := by
  refine tokens?_disjunction fun name hname => ?_
  rcases List.mem_map.mp hname with ⟨flag, hflag, rfl⟩
  exact h flag hflag

theorem tokens?_expression (h : ∀ name ∈ kind.names, Identifier.isSpelled (nameOf name).toList = true) :
    tokens? (kind.expression nameOf).toList = some (kind.groupedTokens nameOf) := by
  cases kind with
  | bit bit? =>
      cases bit? with
      | none => exact tokens?_zero
      | some place =>
          have hline : (expression nameOf (.bit (some place))).toList
              = '(' :: ("1 << ".toList ++ (toString place).toList) ++ [')'] := by
            generalize hnumber : toString place = number
            simp [expression, hnumber, String.toList_append]
          rw [hline]
          exact tokens?_parentheses (tokens?_shift place)
  | combine names =>
      have hline : (expression nameOf (.combine names)).toList
          = '(' :: (join " | " (names.map nameOf)).toList ++ [')'] := by
        simp [expression, String.toList_append]
      rw [hline]
      exact tokens?_parentheses (tokens?_combination h)

theorem tokens?_csharpExpression
    (h : ∀ name ∈ kind.names, Identifier.isSpelled (pascalCase name).toList = true) :
    tokens? kind.csharpExpression.toList = some (kind.tokens pascalCase) := by
  cases kind with
  | bit bit? =>
      cases bit? with
      | none => exact tokens?_zero
      | some place =>
          have hline : (csharpExpression (.bit (some place))).toList
              = "1 << ".toList ++ (toString place).toList := by
            simp only [csharpExpression, String.toList_append]
          rw [hline]
          exact tokens?_shift place
  | combine names => exact tokens?_combination h

end Flag.Kind

namespace Identifier

theorem isPart_upper {c : Char} (h : isPart c = true) : ∀ d ∈ upper c, isPart d = true :=
  List.all_eq_true.mp (of_isNominal (P := fun c => isPart c = true → (upper c).all isPart = true)
    (by decide) (isNominal_of_isPart h) h)

theorem isPart_lower {c : Char} (h : isPart c = true) : ∀ d ∈ lower c, isPart d = true :=
  List.all_eq_true.mp (of_isNominal (P := fun c => isPart c = true → (lower c).all isPart = true)
    (by decide) (isNominal_of_isPart h) h)

theorem isSpelled_append {first rest : List Char} (hfirst : isSpelled first = true)
    (hrest : ∀ c ∈ rest, isPart c = true) : isSpelled (first ++ rest) = true := by
  cases first with
  | nil => cases hfirst
  | cons c others =>
      simp only [List.cons_append, isSpelled, List.all_append, Bool.and_eq_true, List.all_eq_true]
        at hfirst ⊢
      exact ⟨hfirst.1, hfirst.2, hrest⟩

theorem isSpelled_kName {name : String} (h : ∀ c ∈ name.toList, isPart c = true) :
    isSpelled (kName name).toList = true := by
  rw [kName, String.toList_append]
  exact isSpelled_append (by decide)
    (forall_mem_pascalCase (fun _ => isPart_upper) (fun _ => isPart_lower) fun c hc _ => h c hc)

end Identifier

theorem FlagSet.Sound.isSpelled_macroName {set : FlagSet} {name : String} (h : set.Sound)
    (hname : ∀ c ∈ name.toList, Identifier.isPart c = true) :
    Identifier.isSpelled (set.macroName name).toList = true := by
  have hprefix : ∀ c ∈ set.macroPrefix.toList, Identifier.isPart c = true := by
    unfold macroPrefix
    cases hgiven : set.macroPrefix? with
    | none =>
        exact forall_mem_constantCase (fun _ => Identifier.isPart_upper) (by decide)
          fun c hc _ => isPart_of_isSpelled h.name_valid.1 c hc
    | some given => exact isPart_of_isSpelled (h.prefix_valid given hgiven).1
  rw [macroName, String.toList_append, String.toList_append, String.toList_append]
  refine Identifier.isSpelled_append (Identifier.isSpelled_append (Identifier.isSpelled_append ?_ hprefix)
    ?_) hname
  · decide
  · exact List.all_eq_true.mp (by decide)

/-- A listing continues another one: what it has added stands behind the lines of that one. -/
def Listing.Continues (next listing : Listing) : Prop := listing.lines <+: next.lines

namespace Listing

variable {listing middle next : Listing}

theorem Continues.trans (hfirst : middle.Continues listing) (hsecond : next.Continues middle) :
    next.Continues listing :=
  List.IsPrefix.trans hfirst hsecond

theorem continues_line (listing : Listing) (text : String) : (listing.line text).Continues listing :=
  List.prefix_append _ _

theorem continues_blank (listing : Listing) : listing.blank.Continues listing :=
  List.prefix_append _ _

theorem continues_block {body : Listing → Listing} (header close : String)
    (hbody : ∀ inner : Listing, (body inner).Continues inner) :
    (listing.block header close body).Continues listing := by
  have hheader := continues_line listing header
  have hinner := hbody (listing.line header).deeper
  exact (hheader.trans hinner).trans (continues_line (body (listing.line header).deeper).shallower close)

theorem continues_each {α : Type} {body : Listing → α → Listing}
    (hbody : ∀ (inner : Listing) (item : α), (body inner item).Continues inner) (items : List α) :
    (listing.each items body).Continues listing := by
  induction items generalizing listing with
  | nil => exact List.prefix_refl _
  | cons item rest ih => exact (hbody listing item).trans ih

end Listing

/-- The groups of macros that blank lines separate. -/
def groups (lines : List String) : List (List String) := lines.splitOn ""

theorem separate_eq_intercalate : ∀ groups : List (List String), separate groups = [""].intercalate groups
  | [] => rfl
  | [last] => by simp [separate]
  | group :: next :: rest => by
    have hstep : separate (group :: next :: rest) = group ++ "" :: separate (next :: rest) := rfl
    rw [hstep, separate_eq_intercalate (next :: rest), List.intercalate_cons_cons, List.append_assoc,
      List.singleton_append]

theorem Define.line_ne_empty (width : Nat) (define : Define) : define.line width ≠ "" := by
  have hne (rest : String) : define.directive ++ rest ≠ "" := by
    intro hempty
    have hfirst := congrArg String.toList hempty
    simp [directive, String.toList_append] at hfirst
  rw [line]
  split
  · have hplain := hne ""
    rwa [String.append_empty] at hplain
  · rw [padRight, String.append_assoc, String.append_assoc]
    exact hne _

namespace FlagSet

variable {set : FlagSet} {listing : Listing}

theorem filterMap_definition?_lines (h : ∀ flag ∈ set.flags, ∀ name ∈ flag.name :: flag.kind.names,
      Identifier.isSpelled (set.macroName name).toList = true) :
    (Define.lines (set.flags.map set.define)).filterMap definition?
      = set.flags.map fun flag => (set.macroName flag.name, flag.kind.groupedTokens set.macroName) := by
  rw [Define.lines, List.map_map]
  apply filterMap_map_of_forall
  intro flag hflag
  obtain ⟨hname, hnames⟩ := List.forall_mem_cons.mp (h flag hflag)
  exact definition?_line _ hname (Flag.Kind.tokens?_expression hnames)

theorem groups_headerLines {interface : Interface} (hsome : interface.flagSets ≠ []) :
    groups (headerLines interface)
      = interface.flagSets.map fun set => Define.lines (set.flags.map set.define) := by
  unfold groups headerLines
  rw [separate_eq_intercalate, List.splitOn_intercalate _ _ (by simpa using hsome)]
  intro lines hlines hmem
  rcases List.mem_map.mp hlines with ⟨set, -, rfl⟩
  rcases List.mem_map.mp hmem with ⟨define, -, hempty⟩
  exact Define.line_ne_empty _ define hempty

/-- What the lines of a flag in C++ start with: a blank line, and the help text as comments. -/
def cppComments (flag : Flag) : List String :=
  "" :: (lines flag.help.toList).map fun line =>
    "  //!" ++ if line.isEmpty then "" else " " ++ String.ofList line

/-- The line that declares a flag in C++. -/
def cppDeclaration (flag : Flag) : String :=
  "  " ++ kName flag.name ++ " = " ++ flag.kind.expression kName ++ ","

theorem doc_eq (before : List String) (line : List Char) :
    Listing.doc ⟨.narrow, 1, before⟩ "//!" (String.ofList line)
      = ⟨.narrow, 1, before ++ ["  //!" ++ if line.isEmpty then "" else " " ++ String.ofList line]⟩ := by
  have hmargin (lines : List String) : Listing.margin ⟨.narrow, 1, lines⟩ = "  " := rfl
  unfold Listing.doc Listing.line
  rw [hmargin]
  rcases line with - | ⟨c, rest⟩
  · rfl
  · have hempty : (String.ofList (c :: rest)).isEmpty = false := by simp
    have htext : "  " ++ ("//!" ++ " " ++ String.ofList (c :: rest))
        = "  //!" ++ (" " ++ String.ofList (c :: rest)) :=
      String.toList_inj.mp (by simp [String.toList_append])
    simp only [hempty, htext, List.isEmpty_cons, Bool.false_eq_true, if_false]

theorem each_doc (before : List String) (help : List (List Char)) :
    Listing.each ⟨.narrow, 1, before⟩ (help.map String.ofList) (fun listing line => listing.doc "//!" line)
      = ⟨.narrow, 1, before ++ help.map fun line =>
        "  //!" ++ if line.isEmpty then "" else " " ++ String.ofList line⟩ := by
  induction help generalizing before with
  | nil => simp [Listing.each]
  | cons line rest ih =>
      simp only [Listing.each] at ih ⊢
      rw [List.map_cons, List.foldl_cons, doc_eq, ih, List.map_cons, List.append_assoc,
        List.singleton_append]

theorem cppFlag_eq (before : List String) (flag : Flag) :
    cppFlag ⟨.narrow, 0, before⟩ flag
      = ⟨.narrow, 0, before ++ (cppComments flag ++ [cppDeclaration flag])⟩ := by
  have hmargin (lines : List String) : Listing.margin ⟨.narrow, 1, lines⟩ = "  " := rfl
  have hblank : (Listing.blank ⟨.narrow, 0, before⟩).deeper = ⟨.narrow, 1, before ++ [""]⟩ := rfl
  have hdeclaration : "  " ++ (kName flag.name ++ " = " ++ flag.kind.expression kName ++ ",")
      = cppDeclaration flag := by
    simp only [cppDeclaration, String.append_assoc]
  unfold cppFlag Listing.line
  dsimp only
  rw [hblank, each_doc, hmargin, hdeclaration]
  simp [Listing.shallower, cppComments]

theorem each_cppFlag (flags : List Flag) (before : List String) :
    (Listing.each ⟨.narrow, 0, before⟩ flags cppFlag)
      = ⟨.narrow, 0, before ++ flags.flatMap fun flag => cppComments flag ++ [cppDeclaration flag]⟩ := by
  induction flags generalizing before with
  | nil => simp [Listing.each]
  | cons flag rest ih =>
      simp only [Listing.each] at ih ⊢
      rw [List.foldl_cons, cppFlag_eq, ih, List.flatMap_cons, List.append_assoc]

theorem continues_cppOperator (header body : String) : (cppOperator header body listing).Continues listing :=
  (Listing.continues_block _ _ fun inner => inner.continues_line body).trans (Listing.continues_blank _)

theorem continues_cppOperators (name : String) : (cppOperators name listing).Continues listing :=
  ((((continues_cppOperator _ _).trans (continues_cppOperator _ _)).trans
    (continues_cppOperator _ _)).trans (continues_cppOperator _ _)).trans (continues_cppOperator _ _)

theorem continues_cppListing (name flag : String) : (cppListing name flag listing).Continues listing :=
  listing.continues_blank.trans (Listing.continues_block _ _ fun inner =>
    (inner.continues_line _).trans (Listing.continues_line _ _))

theorem continues_cppText (set : FlagSet) (name : String) :
    (cppText set name listing).Continues listing := by
  refine (listing.continues_line "template <>").trans (Listing.continues_block _ _ fun inner => ?_)
  have hlisted := (inner.continues_line "std::string ss;").trans
    (Listing.continues_each (fun inner flag => continues_cppListing name flag) set.listedNames)
  exact (hlisted.trans (Listing.continues_blank _)).trans (Listing.continues_line _ _)

/-- The enumeration of a set in C++ ends with a line of its own, before the operators. -/
theorem exists_cppLines_eq (set : FlagSet) : ∃ operators, set.cppLines =
    (set.flags.flatMap fun flag => cppComments flag ++ [cppDeclaration flag]) ++ "\x7d;" :: operators := by
  have hmembers : ((Listing.empty .narrow).each set.flags cppFlag).line "\x7d;"
      = ⟨.narrow, 0, (set.flags.flatMap fun flag => cppComments flag ++ [cppDeclaration flag]) ++ ["\x7d;"]⟩ := by
    have heach := each_cppFlag set.flags []
    rw [List.nil_append] at heach
    exact congrArg (·.line "\x7d;") heach
  have hcontinues : Listing.Continues
      (cppText set (pascalCase set.name) (cppOperators (pascalCase set.name)
        (((Listing.empty .narrow).each set.flags cppFlag).line "\x7d;").blank)).blank
      (((Listing.empty .narrow).each set.flags cppFlag).line "\x7d;") :=
    ((((Listing.continues_blank _).trans (continues_cppOperators _)).trans (continues_cppText set _)).trans
      (Listing.continues_blank _))
  rw [hmembers] at hcontinues
  rcases hcontinues with ⟨operators, hoperators⟩
  refine ⟨operators, ?_⟩
  rw [List.append_assoc, List.singleton_append] at hoperators
  unfold cppLines
  dsimp only
  rw [hmembers, hoperators]

/-- The lines that the enumeration of a set has in C++, up to the line that ends it. -/
def enumeratorLines (lines : List String) : List String := lines.takeWhile (· ≠ "\x7d;")

theorem enumeratorLines_cppLines (set : FlagSet) : enumeratorLines set.cppLines
    = set.flags.flatMap fun flag => cppComments flag ++ [cppDeclaration flag] := by
  rcases set.exists_cppLines_eq with ⟨operators, hlines⟩
  have hinside : ∀ line ∈ set.flags.flatMap fun flag => cppComments flag ++ [cppDeclaration flag],
      decide (line ≠ "\x7d;") = true := by
    intro line hline
    rw [decide_eq_true_iff]
    rintro rfl
    rcases List.mem_flatMap.mp hline with ⟨flag, -, hmem⟩
    rcases List.mem_append.mp hmem with hcomment | hdeclaration
    · rcases List.mem_cons.mp hcomment with hblank | hhelp
      · simp at hblank
      · rcases List.mem_map.mp hhelp with ⟨help, -, heq⟩
        have hfirst := congrArg (fun text : String => text.toList.head?) heq
        simp [String.toList_append] at hfirst
    · have hfirst := congrArg (fun text : String => text.toList.head?) (List.mem_singleton.mp hdeclaration)
      simp [cppDeclaration, String.toList_append] at hfirst
  rw [enumeratorLines, hlines, List.takeWhile_append_of_pos hinside, List.takeWhile_cons_of_neg (by simp),
    List.append_nil]

theorem filterMap_enumerator?_cppComments (flag : Flag) :
    (cppComments flag).filterMap enumerator? = [] := by
  have hblank : enumerator? "" = none := by decide
  have hspaces : ∀ c ∈ [' ', ' '], isBlank c = true := by simp [isBlank]
  rw [cppComments, List.filterMap_cons_none hblank, List.filterMap_map, List.filterMap_eq_nil_iff]
  intro line _
  have hline : "  //!" ++ (if line.isEmpty then "" else " " ++ String.ofList line)
      = String.ofList ([' ', ' '] ++ ('/' :: '/' :: ('!' :: (if line.isEmpty then "" else
        " " ++ String.ofList line).toList))) :=
    String.toList_inj.mp (by simp [String.toList_append])
  rw [Function.comp_apply, hline]
  exact enumerator?_comment hspaces

theorem filterMap_enumerator?_cppLines (h : ∀ flag ∈ set.flags, ∀ name ∈ flag.name :: flag.kind.names,
      Identifier.isSpelled (kName name).toList = true) :
    (enumeratorLines set.cppLines).filterMap enumerator?
      = set.flags.map fun flag => (kName flag.name, flag.kind.groupedTokens kName) := by
  rw [enumeratorLines_cppLines]
  apply filterMap_flatMap_of_forall
  intro flag hflag
  obtain ⟨hname, hnames⟩ := List.forall_mem_cons.mp (h flag hflag)
  have hread : enumerator? (cppDeclaration flag)
      = some (kName flag.name, flag.kind.groupedTokens kName) :=
    enumerator?_line (List.all_eq_true.mp (by decide)) hname (Flag.Kind.tokens?_expression hnames)
  rw [List.filterMap_append, filterMap_enumerator?_cppComments, List.filterMap_cons_some hread,
    List.filterMap_nil, List.nil_append]

/-- Every line of a summary is a comment. -/
theorem filterMap_enumerator?_csharpSummary (help : String) :
    (csharpSummary help).filterMap enumerator? = [] := by
  have hspaces : ∀ c ∈ List.replicate 8 ' ', isBlank c = true :=
    fun c hc => List.eq_of_mem_replicate hc ▸ rfl
  have hcomment (text : List Char) :
      enumerator? (String.ofList (List.replicate 8 ' ' ++ ('/' :: '/' :: text))) = none :=
    enumerator?_comment hspaces
  have hfirst : "        /// <summary>" = String.ofList (List.replicate 8 ' ' ++ ('/' :: '/' ::
      "/ <summary>".toList)) := by decide
  have hlast : "        /// </summary>" = String.ofList (List.replicate 8 ' ' ++ ('/' :: '/' ::
      "/ </summary>".toList)) := by decide
  have hline (line : List Char) : trimEnd ("        /// ".toList ++ line)
      = List.replicate 8 ' ' ++ ('/' :: '/' :: trimEnd ('/' :: ' ' :: line)) := by
    have hsplit : "        /// ".toList ++ line
        = (List.replicate 8 ' ' ++ ['/']) ++ '/' :: ('/' :: ' ' :: line) := by simp
    rw [hsplit, trimEnd_append_cons (by decide), List.append_assoc, List.singleton_append]
  rw [List.filterMap_eq_nil_iff]
  intro line hmem
  unfold csharpSummary at hmem
  dsimp only at hmem
  split at hmem
  · rcases List.mem_append.mp hmem with hfront | hend
    · rcases List.mem_cons.mp hfront with rfl | hhelp
      · rw [hfirst, hcomment]
      · rcases List.mem_map.mp hhelp with ⟨text, -, rfl⟩
        rw [hline, hcomment]
    · rw [List.mem_singleton.mp hend, hlast, hcomment]
  · have htext : line = String.ofList (List.replicate 8 ' ' ++ ('/' :: '/' ::
        ("/ <summary>".toList ++ trimEnd help.toList ++ "</summary>".toList))) := by
      rw [List.mem_singleton.mp hmem]
      exact String.toList_inj.mp (by simp [String.toList_append])
    rw [htext, hcomment]

theorem filterMap_enumerator?_csharpLines (h : ∀ flag ∈ set.flags, ∀ name ∈ flag.name :: flag.kind.names,
      Identifier.isSpelled (pascalCase name).toList = true) :
    set.csharpLines.filterMap enumerator?
      = set.flags.map fun flag => (pascalCase flag.name, flag.kind.tokens pascalCase) := by
  have hblank : enumerator? "" = none := by decide
  unfold csharpLines
  rw [List.filterMap_append, List.filterMap_cons_none hblank, List.filterMap_nil, List.append_nil]
  apply filterMap_flatMap_of_forall
  intro flag hflag
  obtain ⟨hname, hnames⟩ := List.forall_mem_cons.mp (h flag hflag)
  have hread : enumerator? ("        " ++ pascalCase flag.name ++ " = " ++ flag.kind.csharpExpression
      ++ ",") = some (pascalCase flag.name, flag.kind.tokens pascalCase) :=
    enumerator?_line (List.all_eq_true.mp (by decide)) hname (Flag.Kind.tokens?_csharpExpression hnames)
  rw [List.cons_append, List.filterMap_cons_none hblank, List.filterMap_append,
    filterMap_enumerator?_csharpSummary, List.filterMap_cons_some hread, List.filterMap_nil, List.nil_append]

end FlagSet

end Bindery
