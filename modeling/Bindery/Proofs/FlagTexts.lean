import Bindery.Proofs.FlagValues
import Bindery.Proofs.Indentation

/-!
# Texts of flags

For each flag set the C++ bindings have a function that finds the text of a value. Its lines are read as
statements, which are run on integers of 32 bits: each flag that the value has is taken out of it and put
in front of the text, from the last flag to the first. The flag that is named like the text for no flags
is left out.
-/

namespace Bindery

open Text Naming Declaration

namespace FlagText

/-- A statement of the function that finds the text of a value in C++. -/
inductive Statement where
  /-- the text is empty at first -/
  | declare
  /-- what follows, up to the end of the group, is only for a value that masked is another one -/
  | test (mask wanted : String)
  /-- the bits of a flag are taken out of the value -/
  | clear (flag : String)
  /-- a text is put in front -/
  | prepend (text : String)
  | close
  /-- the text without the last three characters, or another one if it is empty -/
  | result (otherwise : String)
deriving DecidableEq, Repr

/-! ## Running -/

structure State where
  value : BitVec 32
  text : String
  /-- whether the statements up to the end of the group are passed over -/
  skips : Bool
deriving DecidableEq, Repr

section Run

variable (env : String → Option (BitVec 32))

/-- What a statement does, given the values of the names in it. Tests are not nested. -/
def State.step (state : State) : Statement → Option State
  | .declare => some { state with text := "" }
  | .test mask wanted => do
      if state.skips then none
      let mask ← env mask
      let wanted ← env wanted
      return { state with skips := decide (state.value &&& mask ≠ wanted) }
  | .clear flag => do
      let bits ← env flag
      return if state.skips then state else { state with value := state.value &&& ~~~bits }
  | .prepend text => some (if state.skips then state else { state with text := text ++ state.text })
  | .close => some { state with skips := false }
  | .result _ => none

def State.result (state : State) (otherwise : String) : String :=
  if state.text.isEmpty then otherwise
  else String.ofList (state.text.toList.take (state.text.toList.length - 3))

/-- The text that statements return. -/
def run (state : State) : List Statement → Option String
  | [] => none
  | .result otherwise :: _ => some (state.result otherwise)
  | statement :: rest => (state.step env statement).bind (run · rest)

end Run

/-! ## Reading -/

/-- A condition on the value: a flag, and the flag that the value masked with it is to be. -/
def condition? (set : String) (text : List Char) : Option Statement :=
  (between? (") == " ++ set ++ "::") "" (text.dropWhile (· ≠ ')'))).map fun wanted =>
    .test (String.ofList (text.takeWhile (· ≠ ')'))) wanted

/-- The statement that is written as a text, for the set with a name in C++. -/
def ofCode? (set : String) (code : List Char) : Option Statement :=
  if code = "std::string ss;".toList then some .declare
  else if code = "\x7d".toList then some .close
  else if "if (".toList <+: code then
    (between? ("if ((flags & " ++ set ++ "::") ") \x7b" code).bind fun text => condition? set text.toList
  else if "flags = ".toList <+: code then
    (between? ("flags = flags & ~" ++ set ++ "::") ";" code).map .clear
  else if "ss = ".toList <+: code then
    (between? "ss = std::string\x7b\"" "\"\x7d + ss;" code).map .prepend
  else (between? "return ss.empty() ? \"" "\" : ss.substr(0, ss.size() - 3);" code).map .result

/-- The statement of a line, whatever its margin is. -/
def statement? (set line : String) : Option Statement := ofCode? set (line.toList.dropWhile isBlank)

/-- The lines of the function for the set, between its header and the line that closes it. -/
def body? (set : String) (lines : List String) : Option (List String) :=
  match lines.dropWhile (· ≠ "template <>") with
  | _ :: header :: rest =>
      if header = "inline std::string to_string<" ++ set ++ ">(" ++ set ++ " flags) \x7b" then
        some (rest.takeWhile (· ≠ "\x7d"))
      else none
  | _ => none

/-- The text that the function in the lines of a set finds for a value. -/
def textOf? (set : String) (lines : List String) (value : BitVec 32) : Option String := do
  let enumerators ← Expression.valuesFrom Expression.checkedShift []
    ((FlagSet.enumeratorLines lines).filterMap Expression.enumerator?)
  let body ← body? set lines
  let statements ← (body.filter (· ≠ "")).mapM (statement? set)
  run (fun name => enumerators.lookup name) ⟨value, "", false⟩ statements

section Statements

variable {set flag margin code : String}

theorem statement?_indented (hmargin : AllBlank margin)
    (hcode : code.toList.head?.all (!isBlank ·) = true) :
    statement? set (margin ++ code) = ofCode? set code.toList := by
  rw [statement?, String.toList_append, List.dropWhile_append_of_pos hmargin]
  cases hchars : code.toList with
  | nil => rfl
  | cons c rest =>
      rw [hchars] at hcode
      rw [List.dropWhile_cons_of_neg (by simpa using hcode)]

/-- The name of a flag has no parenthesis, so the condition is cut behind it. -/
theorem condition?_eq (hflag : ')' ∉ flag.toList) :
    condition? set (flag ++ ((") == " ++ set ++ "::") ++ flag)).toList = some (.test flag flag) := by
  have hrest : ((") == " ++ set ++ "::") ++ flag).toList
      = ')' :: (" == " ++ set ++ "::" ++ flag).toList := by
    simp [String.toList_append]
  have hname : ∀ c ∈ flag.toList, decide (c ≠ ')') = true := by
    intro c hc
    rw [decide_eq_true_iff]
    rintro rfl
    exact hflag hc
  have hcut : (flag ++ ((") == " ++ set ++ "::") ++ flag)).toList.takeWhile (· ≠ ')')
      = flag.toList := by
    rw [String.toList_append, hrest, List.takeWhile_append_of_pos hname,
      List.takeWhile_cons_of_neg (by simp), List.append_nil]
  have hbehind : (flag ++ ((") == " ++ set ++ "::") ++ flag)).toList.dropWhile (· ≠ ')')
      = ((") == " ++ set ++ "::") ++ flag).toList := by
    rw [String.toList_append, List.dropWhile_append_of_pos hname, hrest,
      List.dropWhile_cons_of_neg (by simp)]
  rw [condition?, hcut, hbehind, between?_opening, String.ofList_toList]
  rfl

theorem ofCode?_test (hflag : ')' ∉ flag.toList) :
    ofCode? set
        ("if ((flags & " ++ (set ++ "::" ++ flag) ++ ") == " ++ (set ++ "::" ++ flag) ++ ") \x7b").toList
      = some (.test flag flag) := by
  have hsplit : "if ((flags & " ++ (set ++ "::" ++ flag) ++ ") == " ++ (set ++ "::" ++ flag) ++ ") \x7b"
      = ("if ((flags & " ++ set ++ "::") ++ (flag ++ ((") == " ++ set ++ "::") ++ flag)) ++ ") \x7b" := by
    simp [String.append_assoc]
  rw [ofCode?, if_neg (by simp [String.toList_append]), if_neg (by simp [String.toList_append]),
    if_pos (by simp [String.toList_append]), hsplit, between?_append]
  exact condition?_eq hflag

theorem ofCode?_clear (set flag : String) :
    ofCode? set ("flags = flags & ~" ++ (set ++ "::" ++ flag) ++ ";").toList = some (.clear flag) := by
  have hsplit : "flags = flags & ~" ++ (set ++ "::" ++ flag) ++ ";"
      = ("flags = flags & ~" ++ set ++ "::") ++ flag ++ ";" := by
    simp [String.append_assoc]
  rw [ofCode?, if_neg (by simp [String.toList_append]), if_neg (by simp [String.toList_append]),
    if_neg (by simp [String.toList_append]), if_pos (by simp [String.toList_append]), hsplit, between?_append]
  rfl

theorem ofCode?_prepend (set flag : String) :
    ofCode? set ("ss = std::string\x7b\"" ++ flag ++ " | \"\x7d + ss;").toList
      = some (.prepend (flag ++ " | ")) := by
  have hsplit : "ss = std::string\x7b\"" ++ flag ++ " | \"\x7d + ss;"
      = "ss = std::string\x7b\"" ++ (flag ++ " | ") ++ "\"\x7d + ss;" := by
    rw [← String.toList_inj]
    simp [String.toList_append]
  rw [ofCode?, if_neg (by simp [String.toList_append]), if_neg (by simp [String.toList_append]),
    if_neg (by simp [String.toList_append]), if_neg (by simp [String.toList_append]),
    if_pos (by simp [String.toList_append]), hsplit, between?_append]
  rfl

theorem ofCode?_result (set : String) :
    ofCode? set "return ss.empty() ? \"kNone\" : ss.substr(0, ss.size() - 3);".toList
      = some (.result "kNone") := by
  have hsplit : "return ss.empty() ? \"kNone\" : ss.substr(0, ss.size() - 3);"
      = "return ss.empty() ? \"" ++ "kNone" ++ "\" : ss.substr(0, ss.size() - 3);" := by decide
  rw [ofCode?, if_neg (by decide), if_neg (by decide), if_neg (by decide), if_neg (by decide),
    if_neg (by decide), hsplit, between?_append]
  rfl

end Statements

/-! ## Lines -/

/-- The lines that list one flag, if the value has it. -/
def listingLines (set flag : String) : List String :=
  [ "",
    "  " ++ ("if ((flags & " ++ (set ++ "::" ++ flag) ++ ") == " ++ (set ++ "::" ++ flag) ++ ") \x7b"),
    "    " ++ ("flags = flags & ~" ++ (set ++ "::" ++ flag) ++ ";"),
    "    " ++ ("ss = std::string\x7b\"" ++ flag ++ " | \"\x7d + ss;"),
    "  " ++ "\x7d" ]

def bodyLines (set : String) (flags : List String) : List String :=
  ("  " ++ "std::string ss;") :: flags.flatMap (listingLines set)
    ++ ["", "  " ++ "return ss.empty() ? \"kNone\" : ss.substr(0, ss.size() - 3);"]

/-- The statements that list one flag. -/
def listing (flag : String) : List Statement :=
  [.test flag flag, .clear flag, .prepend (flag ++ " | "), .close]

def program (flags : List String) : List Statement :=
  .declare :: flags.flatMap listing ++ [.result "kNone"]

theorem mapM_statement?_listingLines {set flag : String} (hflag : ')' ∉ flag.toList) :
    ((listingLines set flag).filter (· ≠ "")).mapM (statement? set) = some (listing flag) := by
  have hlines : (listingLines set flag).filter (· ≠ "") = (listingLines set flag).tail := by
    simp [listingLines]
  have htest : statement? set
      ("  " ++ ("if ((flags & " ++ (set ++ "::" ++ flag) ++ ") == " ++ (set ++ "::" ++ flag) ++ ") \x7b"))
        = some (.test flag flag) := by
    rw [statement?_indented (by decide) (by simp [String.toList_append, isBlank]), ofCode?_test hflag]
  have hclear : statement? set ("    " ++ ("flags = flags & ~" ++ (set ++ "::" ++ flag) ++ ";"))
      = some (.clear flag) := by
    rw [statement?_indented (by decide) (by simp [String.toList_append, isBlank]), ofCode?_clear]
  have hprepend : statement? set ("    " ++ ("ss = std::string\x7b\"" ++ flag ++ " | \"\x7d + ss;"))
      = some (.prepend (flag ++ " | ")) := by
    rw [statement?_indented (by decide) (by simp [String.toList_append, isBlank]), ofCode?_prepend]
  have hclose : statement? set ("  " ++ "\x7d") = some .close := by
    rw [statement?_indented (by decide) (by decide)]
    rfl
  rw [hlines, listingLines, List.tail_cons, List.mapM_cons, htest, List.mapM_cons, hclear,
    List.mapM_cons, hprepend, List.mapM_cons, hclose]
  rfl

theorem mapM_statement?_bodyLines {set : String} {flags : List String}
    (hflags : ∀ flag ∈ flags, ')' ∉ flag.toList) :
    ((bodyLines set flags).filter (· ≠ "")).mapM (statement? set) = some (program flags) := by
  have hlistings : ((flags.flatMap (listingLines set)).filter (· ≠ "")).mapM (statement? set)
      = some (flags.flatMap listing) := by
    induction flags with
    | nil => rfl
    | cons flag rest ih =>
        obtain ⟨hflag, hrest⟩ := List.forall_mem_cons.mp hflags
        rw [List.flatMap_cons, List.filter_append, List.mapM_append,
          mapM_statement?_listingLines hflag, ih hrest]
        rfl
  have hdeclare : statement? set ("  " ++ "std::string ss;") = some .declare := by
    rw [statement?_indented (by decide) (by decide)]
    rfl
  have hresult : statement? set ("  " ++ "return ss.empty() ? \"kNone\" : ss.substr(0, ss.size() - 3);")
      = some (.result "kNone") := by
    rw [statement?_indented (by decide) (by decide), ofCode?_result]
  have hlast : ["", "  " ++ "return ss.empty() ? \"kNone\" : ss.substr(0, ss.size() - 3);"].filter (· ≠ "")
      = ["  " ++ "return ss.empty() ? \"kNone\" : ss.substr(0, ss.size() - 3);"] := by decide
  rw [bodyLines, List.cons_append, List.filter_cons_of_pos (by decide), List.filter_append, hlast,
    List.mapM_cons, hdeclare, List.mapM_append, hlistings, List.mapM_cons, hresult]
  rfl

end FlagText

namespace FlagSet

open FlagText

variable {set : FlagSet} {name header body : String}

/-- The lines of a flag are indented. -/
theorem head?_of_mem_cppFlag {flags : List Flag} {line : String}
    (h : line ∈ flags.flatMap fun flag => cppComments flag ++ [cppDeclaration flag]) :
    line = "" ∨ line.toList.head? = some ' ' := by
  obtain ⟨flag, -, hmem⟩ := List.mem_flatMap.mp h
  rcases List.mem_append.mp hmem with hcomment | hdeclaration
  · rcases List.mem_cons.mp hcomment with rfl | hhelp
    · exact Or.inl rfl
    · obtain ⟨help, -, rfl⟩ := List.mem_map.mp hhelp
      exact Or.inr (by simp [String.toList_append])
  · rw [List.mem_singleton.mp hdeclaration]
    exact Or.inr (by simp [cppDeclaration, String.toList_append])

theorem head?_of_mem_bodyLines {name : String} {flags : List String} {line : String}
    (h : line ∈ bodyLines name flags) : line = "" ∨ line.toList.head? = some ' ' := by
  have hindented (text : String) : ("  " ++ text).toList.head? = some ' ' := by
    simp [String.toList_append]
  have hdeeper (text : String) : ("    " ++ text).toList.head? = some ' ' := by
    simp [String.toList_append]
  rcases List.mem_append.mp h with hfront | hlast
  · rcases List.mem_cons.mp hfront with rfl | hlisting
    · exact Or.inr (hindented _)
    · obtain ⟨flag, -, hmem⟩ := List.mem_flatMap.mp hlisting
      simp only [listingLines, List.mem_cons, List.not_mem_nil, or_false] at hmem
      rcases hmem with rfl | rfl | rfl | rfl | rfl
      · exact Or.inl rfl
      · exact Or.inr (hindented _)
      · exact Or.inr (hdeeper _)
      · exact Or.inr (hdeeper _)
      · exact Or.inr (hindented _)
  · simp only [List.mem_cons, List.not_mem_nil, or_false] at hlast
    rcases hlast with rfl | rfl
    · exact Or.inl rfl
    · exact Or.inr (hindented _)

theorem exists_cppOperator_eq (hheader : header.toList.head? = some 'i') (before : List String) :
    ∃ added, cppOperator header body ⟨.narrow, 0, before⟩ = ⟨.narrow, 0, before ++ added⟩ ∧
      "template <>" ∉ added := by
  have hfirst (text : String) (h : text.toList.head? ≠ some 't') : "template <>" ≠ text := by
    rintro rfl
    exact h (by decide)
  have hline (lines : List String) : Listing.line ⟨.narrow, 1, lines⟩ body
      = ⟨.narrow, 1, lines ++ ["  " ++ body]⟩ := rfl
  have hmargin : Indent.repeated .narrow 0 = "" := rfl
  refine ⟨["" ++ (header ++ " \x7b"), "  " ++ body, "" ++ "\x7d", ""], ?_, ?_⟩
  · rw [cppOperator, Listing.block_eq "\x7d" (hline _), hmargin]
    simp [Listing.blank]
  · simp only [List.mem_cons, List.not_mem_nil, or_false, not_or]
    refine ⟨hfirst _ ?_, hfirst _ ?_, by decide, by decide⟩
    · obtain ⟨rest, hrest⟩ := List.head?_eq_some_iff.mp hheader
      simp [String.toList_append, hrest]
    · simp [String.toList_append]

theorem exists_cppOperators_eq (name : String) (before : List String) :
    ∃ added, cppOperators name ⟨.narrow, 0, before⟩ = ⟨.narrow, 0, before ++ added⟩ ∧
      "template <>" ∉ added := by
  have hthen {header body : String} {listing : Listing} (hheader : header.toList.head? = some 'i')
      (h : ∃ added, listing = ⟨.narrow, 0, before ++ added⟩ ∧ "template <>" ∉ added) :
      ∃ added, cppOperator header body listing = ⟨.narrow, 0, before ++ added⟩ ∧
        "template <>" ∉ added := by
    obtain ⟨added, rfl, hadded⟩ := h
    obtain ⟨last, hlast, hnot⟩ := exists_cppOperator_eq hheader (before ++ added)
    exact ⟨added ++ last, by rw [hlast, List.append_assoc], by simp [hadded, hnot]⟩
  refine hthen ?_ (hthen ?_ (hthen ?_ (hthen ?_ (hthen ?_ ⟨[], by simp, by simp⟩)))) <;>
    simp [String.toList_append]

theorem cppListing_eq (name flag : String) (before : List String) :
    cppListing name flag ⟨.narrow, 1, before⟩ = ⟨.narrow, 1, before ++ listingLines name flag⟩ := by
  have hmargin : Indent.repeated .narrow 1 = "  " := rfl
  have hbody (lines : List String) : (Listing.line ⟨.narrow, 2, lines⟩
        ("flags = flags & ~" ++ (name ++ "::" ++ flag) ++ ";")).line
          ("ss = std::string\x7b\"" ++ flag ++ " | \"\x7d + ss;")
      = ⟨.narrow, 2, lines ++ ["    " ++ ("flags = flags & ~" ++ (name ++ "::" ++ flag) ++ ";"),
        "    " ++ ("ss = std::string\x7b\"" ++ flag ++ " | \"\x7d + ss;")]⟩ := by
    simp only [Listing.line, List.append_assoc]
    rfl
  have hblank : Listing.blank ⟨.narrow, 1, before⟩ = ⟨.narrow, 1, before ++ [""]⟩ := rfl
  unfold cppListing
  dsimp only
  rw [hblank, Listing.block_eq "\x7d" (hbody _), hmargin, List.append_assoc]
  rfl

theorem each_cppListing (name : String) (flags : List String) (before : List String) :
    Listing.each ⟨.narrow, 1, before⟩ flags (fun listing flag => cppListing name flag listing)
      = ⟨.narrow, 1, before ++ flags.flatMap (listingLines name)⟩ := by
  induction flags generalizing before with
  | nil => simp [Listing.each]
  | cons flag rest ih =>
      simp only [Listing.each] at ih ⊢
      rw [List.foldl_cons, cppListing_eq, ih, List.flatMap_cons, List.append_assoc]

theorem cppText_eq (set : FlagSet) (name : String) (before : List String) :
    cppText set name ⟨.narrow, 0, before⟩ = ⟨.narrow, 0, before ++ ("template <>" ::
      ("inline std::string to_string<" ++ name ++ ">(" ++ name ++ " flags) \x7b") ::
        bodyLines name set.listedNames ++ ["\x7d"])⟩ := by
  have hmargin : Indent.repeated .narrow 0 = "" := rfl
  have hline (text : String) (lines : List String) : Listing.line ⟨.narrow, 1, lines⟩ text
      = ⟨.narrow, 1, lines ++ ["  " ++ text]⟩ := rfl
  have hblank (lines : List String) : Listing.blank ⟨.narrow, 1, lines⟩
      = ⟨.narrow, 1, lines ++ [""]⟩ := rfl
  have hfirst : Listing.line ⟨.narrow, 0, before⟩ "template <>"
      = ⟨.narrow, 0, before ++ ["template <>"]⟩ := rfl
  have hbody (lines : List String) :
      ((((Listing.line ⟨.narrow, 1, lines⟩ "std::string ss;").each set.listedNames
        fun listing flag => cppListing name flag listing).blank).line
          "return ss.empty() ? \"kNone\" : ss.substr(0, ss.size() - 3);")
      = ⟨.narrow, 1, lines ++ bodyLines name set.listedNames⟩ := by
    rw [hline, each_cppListing, hblank, hline, bodyLines]
    simp
  unfold cppText
  dsimp only
  rw [hfirst, Listing.block_eq "\x7d" (hbody _), hmargin, String.empty_append, String.empty_append]
  simp

/-- The lines of a set in C++ end with the function that finds the text of a value. -/
theorem exists_cppLines_eq_text (set : FlagSet) : ∃ front, "template <>" ∉ front ∧
    set.cppLines = front ++ "template <>" ::
      ("inline std::string to_string<" ++ pascalCase set.name ++ ">(" ++ pascalCase set.name
          ++ " flags) \x7b") ::
        (bodyLines (pascalCase set.name) set.listedNames ++ ["\x7d", ""]) := by
  have hmembers : (((Listing.empty .narrow).each set.flags cppFlag).line "\x7d;").blank = ⟨.narrow, 0,
      (set.flags.flatMap fun flag => cppComments flag ++ [cppDeclaration flag]) ++ ["\x7d;", ""]⟩ := by
    have heach := each_cppFlag set.flags []
    rw [List.nil_append] at heach
    refine (congrArg (fun listing => (Listing.line listing "\x7d;").blank) heach).trans ?_
    simp only [Listing.line, Listing.blank, List.append_assoc]
    rfl
  obtain ⟨operators, hoperators, hnot⟩ := exists_cppOperators_eq (pascalCase set.name)
    ((set.flags.flatMap fun flag => cppComments flag ++ [cppDeclaration flag]) ++ ["\x7d;", ""])
  refine ⟨((set.flags.flatMap fun flag => cppComments flag ++ [cppDeclaration flag])
    ++ ["\x7d;", ""]) ++ operators, ?_, ?_⟩
  · have hflags : "template <>"
        ∉ set.flags.flatMap fun flag => cppComments flag ++ [cppDeclaration flag] :=
      fun hmem => absurd (head?_of_mem_cppFlag hmem) (by decide)
    simp [hflags, hnot]
  · unfold cppLines
    dsimp only
    rw [hmembers, hoperators, cppText_eq]
    simp [Listing.blank]

theorem body?_cppLines (set : FlagSet) : body? (pascalCase set.name) set.cppLines
    = some (bodyLines (pascalCase set.name) set.listedNames) := by
  obtain ⟨front, hfront, hlines⟩ := set.exists_cppLines_eq_text
  have hbefore : ∀ line ∈ front, decide (line ≠ "template <>") = true := by
    intro line hline
    rw [decide_eq_true_iff]
    rintro rfl
    exact hfront hline
  have hbody : ∀ line ∈ bodyLines (pascalCase set.name) set.listedNames,
      decide (line ≠ "\x7d") = true := by
    intro line hline
    rw [decide_eq_true_iff]
    rintro rfl
    exact absurd (head?_of_mem_bodyLines hline) (by decide)
  rw [body?, hlines, List.dropWhile_append_of_pos hbefore, List.dropWhile_cons_of_neg (by simp)]
  dsimp only
  rw [if_pos rfl, List.takeWhile_append_of_pos hbody, List.takeWhile_cons_of_neg (by simp),
    List.append_nil]

end FlagSet

end Bindery
