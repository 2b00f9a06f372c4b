import Bindery.Proofs.Combinations
import Bindery.Proofs.Literals
import Bindery.Proofs.Numbering

/-!
# Lines of members in Python

A member of an enumeration or of a flag set has one line in Python, with its help in a literal. The text of a
literal is read from what stands between its quotes, by the rules of Python for escapes; which characters a source
may hold at all is not a matter of literals. Whatever the help is, its words with single spaces between them are
read back.
-/

namespace Bindery

namespace Text

variable {text : List Char} {c : Char}

/-- The words of a text, which white space sets apart. -/
inductive Separated : List Char → List (List Char) → Prop
  | nil : Separated [] []
  | blank {c : Char} {text : List Char} {others : List (List Char)} (hc : isBlank c = true)
      (hrest : Separated text others) : Separated (c :: text) others
  | word {word text : List Char} {others : List (List Char)} (hsome : word ≠ [])
      (hword : ∀ c ∈ word, isBlank c = false) (hstop : ∀ c ∈ text.head?, isBlank c = true)
      (hrest : Separated text others) : Separated (word ++ text) (word :: others)

theorem Separated.words_eq {found : List (List Char)} (h : Separated text found) : words text = found := by
  induction h with
  | nil => rfl
  | blank hc _ ih => rw [words_cons hc, ih]
  | word hsome hword hstop _ ih => rw [words_append_of_head? hsome hword hstop, ih]

theorem exists_separated (text : List Char) : ∃ found, Separated text found := by
  induction hlength : text.length using Nat.strong_induction_on generalizing text with
  | _ length ih =>
      cases text with
      | nil => exact ⟨[], .nil⟩
      | cons c rest =>
          subst hlength
          by_cases hc : isBlank c = true
          · obtain ⟨found, hfound⟩ := ih rest.length (by simp) rest rfl
            exact ⟨found, .blank hc hfound⟩
          · -- the word goes up to the next blank
            have hword : ∀ d ∈ c :: rest.takeWhile (!isBlank ·), isBlank d = false := by
              refine List.forall_mem_cons.mpr ⟨Bool.eq_false_iff.mpr hc, fun d hd => ?_⟩
              simpa using List.mem_takeWhile_imp hd
            have hshorter : (rest.dropWhile (!isBlank ·)).length < (c :: rest).length :=
              Nat.lt_succ_of_le (List.length_dropWhile_le _ _)
            obtain ⟨found, hfound⟩ := ih _ hshorter _ rfl
            have hseparated := Separated.word (List.cons_ne_nil c _) hword (isBlank_of_mem_head?_dropWhile rest) hfound
            rw [List.cons_append, List.takeWhile_append_dropWhile] at hseparated
            exact ⟨_, hseparated⟩

theorem separated_words (text : List Char) : Separated text (words text) := by
  obtain ⟨found, hfound⟩ := exists_separated text
  rw [hfound.words_eq]
  exact hfound

theorem toList_singleLine (text : String) : (singleLine text).toList = [' '].intercalate (words text.toList) := by
  have hspace : " ".toList = [' '] := rfl
  rw [singleLine, join, String.toList_intercalate, hspace, List.map_map]
  simp [Function.comp_def]

/-- Whether a line ends with a character, by the rules of Unicode. -/
def isLineBreak (c : Char) : Bool :=
  let n := c.toNat
  (0x0a ≤ n && n ≤ 0x0d) || n = 0x85 || n = 0x2028 || n = 0x2029

theorem isBlank_of_isLineBreak (h : isLineBreak c = true) : isBlank c = true := by
  simp only [isLineBreak, Bool.or_eq_true, Bool.and_eq_true, decide_eq_true_eq] at h
  simp only [isBlank, Bool.or_eq_true, Bool.and_eq_true, decide_eq_true_eq]
  omega

/-- A text without the end of a line. -/
def OneLine (text : String) : Prop := ∀ c ∈ text.toList, isLineBreak c = false

instance (text : String) : Decidable (OneLine text) :=
  decidable_of_iff (text.toList.all (!isLineBreak ·) = true) (by simp [OneLine])

theorem OneLine.append {first second : String} (hfirst : OneLine first) (hsecond : OneLine second) :
    OneLine (first ++ second) := by
  rw [OneLine, String.toList_append, List.forall_mem_append]
  exact ⟨hfirst, hsecond⟩

theorem Nominal.oneLine {name : String} (h : Nominal name) : OneLine name := by
  intro c hc
  rw [Bool.eq_false_iff]
  intro hbreak
  have hblank := isBlank_of_isGraphic (h.graphic c hc)
  rw [isBlank_of_isLineBreak hbreak] at hblank
  cases hblank

theorem oneLine_singleLine (text : String) : OneLine (singleLine text) := by
  intro c hc
  rw [Bool.eq_false_iff]
  intro hbreak
  have hspace : c ≠ ' ' := by
    rintro rfl
    exact absurd hbreak (by decide)
  exact not_mem_singleLine (isBlank_of_isLineBreak hbreak) hspace text hc

end Text

open Text Naming

/-! ## Literals -/

namespace PythonLiteral

open Literal (digit?)

/-- Where a reader is between the quotes of a literal. -/
inductive State where
  | plain
  /-- behind a backslash -/
  | escape
  /-- behind octal digits of an escape: how many more may follow, and the number so far -/
  | octal (more number : Nat)
  /-- behind `\x`, `\u` or `\U` and its digits so far: how many are missing, and the number so far -/
  | coded (missing number : Nat)
deriving DecidableEq, Repr

/-- The character that a backslash and one more character stand for. -/
def simpleEscape? : Char → Option Char
  | '\\' => some '\\'
  | '\'' => some '\''
  | '"' => some '"'
  | 'a' => some '\x07'
  | 'b' => some '\x08'
  | 'f' => some '\x0c'
  | 'n' => some '\n'
  | 'r' => some '\r'
  | 't' => some '\t'
  | 'v' => some '\x0b'
  | _ => none

/-- The character with a number, which a surrogate is not. -/
def character? (number : Nat) : Option Char :=
  if number.isValidChar then some (Char.ofNat number) else none

/-- The step outside of escapes. A quote would end the literal, and no literal goes on behind the end of a line. -/
def plainStep (c : Char) : Option (List Char × State) :=
  if c = '\'' ∨ c = '\n' ∨ c = '\r' then none
  else if c = '\\' then some ([], .escape)
  else some ([c], .plain)

/-- The step behind a backslash, which stays where it starts no escape. Characters are not read by their names, nor
lines put together. -/
def escapeStep (c : Char) : Option (List Char × State) :=
  match simpleEscape? c, digit? 8 c with
  | some meant, _ => some ([meant], .plain)
  | none, some digit => some ([], .octal 2 digit)
  | none, none =>
      if c = 'x' then some ([], .coded 2 0)
      else if c = 'u' then some ([], .coded 4 0)
      else if c = 'U' then some ([], .coded 8 0)
      else if c = 'N' ∨ c = '\n' ∨ c = '\r' then none
      else some (['\\', c], .plain)

def State.step : State → Char → Option (List Char × State)
  | .plain, c => plainStep c
  | .escape, c => escapeStep c
  | .octal more number, c =>
      match more, digit? 8 c with
      | more + 1, some digit => some ([], .octal more (8 * number + digit))
      | _, _ => (plainStep c).map fun (written, next) => (Char.ofNat number :: written, next)
  | .coded missing number, c =>
      (digit? 16 c).bind fun digit =>
        if missing = 1 then (character? (16 * number + digit)).map fun meant => ([meant], .plain)
        else some ([], .coded (missing - 1) (16 * number + digit))

def State.finish : State → Option (List Char)
  | .plain => some []
  | .octal _ number => some [Char.ofNat number]
  | .escape | .coded _ _ => none

def scanner : Scanner State Char := ⟨State.step, State.finish⟩

/-- The text of a literal with the given characters between its single quotes. -/
def textOf? (inside : List Char) : Option (List Char) := scanner.run .plain inside

variable {text : List Char} {c : Char}

theorem step_plain (hquote : c ≠ '\'') (hbackslash : c ≠ '\\') (hfeed : c ≠ '\n') (hreturn : c ≠ '\r') :
    scanner.step .plain c = some ([c], .plain) := by
  change plainStep c = _
  simp [plainStep, hquote, hbackslash, hfeed, hreturn]

theorem reads_pythonChar (hfeed : c ≠ '\n') (hreturn : c ≠ '\r') :
    scanner.Reads .plain (pythonChar c) [c] .plain := by
  have hescape (meant : Char) (h : simpleEscape? meant = some meant) :
      scanner.Reads .plain ['\\', meant] [meant] .plain := by
    have hback : scanner.step .plain '\\' = some ([], .escape) := rfl
    have hsign : scanner.step .escape meant = some ([meant], .plain) := by
      change escapeStep meant = _
      simp [escapeStep, h]
    exact .cons hback (.single hsign)
  unfold pythonChar
  split
  · exact hescape _ rfl
  · exact hescape _ rfl
  next hbackslash hquote => exact .single (step_plain hquote hbackslash hfeed hreturn)

/-- A text with escapes for backslashes and quotes is read back, unless a line ends in it. -/
theorem reads_flatMap_pythonChar (h : ∀ c ∈ text, isLineBreak c = false) :
    scanner.Reads .plain (text.flatMap pythonChar) text .plain := by
  induction text with
  | nil => exact .nil _
  | cons c rest ih =>
      obtain ⟨hc, hrest⟩ := List.forall_mem_cons.mp h
      have hends {d : Char} (hd : isLineBreak d = true) : c ≠ d := by
        rintro rfl
        rw [hd] at hc
        cases hc
      exact (reads_pythonChar (hends (by decide)) (hends (by decide))).append (ih hrest)

theorem textOf?_flatMap_pythonChar (h : ∀ c ∈ text, isLineBreak c = false) :
    textOf? (text.flatMap pythonChar) = some text := by
  have hread : scanner.run .plain (text.flatMap pythonChar) = some (text ++ []) :=
    (reads_flatMap_pythonChar h).run_eq_some rfl
  rwa [List.append_nil] at hread

theorem quotesEscaped_flatMap_pythonChar (text : List Char) :
    quotesEscaped '\'' (text.flatMap pythonChar) = true := by
  refine quotesEscaped_flatMap (fun c => ?_) text
  unfold pythonChar
  split
  · exact .inl ⟨_, rfl⟩
  · exact .inl ⟨_, rfl⟩
  next hbackslash hquote => exact .inr ⟨rfl, hquote, hbackslash⟩

/-- Escapes end no line. -/
theorem isLineBreak_of_mem_flatMap_pythonChar (h : ∀ c ∈ text, isLineBreak c = false) :
    ∀ c ∈ text.flatMap pythonChar, isLineBreak c = false := by
  intro c hc
  obtain ⟨d, hd, hmem⟩ := List.mem_flatMap.mp hc
  unfold pythonChar at hmem
  split at hmem
  · rcases List.mem_pair.mp hmem with rfl | rfl
    · decide
    · decide
  · rcases List.mem_pair.mp hmem with rfl | rfl
    · decide
    · decide
  · rw [List.mem_singleton.mp hmem]
    exact h d hd

end PythonLiteral

/-! ## Lines -/

namespace Enumeration

open PythonLiteral

/-- A line is that of a member in Python: on one line, with its value and, in a literal, the words of its help with
single spaces between them. -/
def IsPythonMember (name : String) (value : Int) (help line : String) : Prop :=
  OneLine line ∧ ∃ inside found,
    line = "    " ++ name ++ " = " ++ toString value ++ ", '" ++ inside ++ "'" ∧
      quotesEscaped '\'' inside.toList = true ∧ textOf? inside.toList = some (singleLine help).toList ∧
      Separated help.toList found ∧ (singleLine help).toList = [' '].intercalate found

theorem isPythonMember_pythonMember {name : String} (hname : Nominal name) (value : Int) (help : String) :
    IsPythonMember name value help (pythonMember name value help) := by
  have hline : pythonMember name value help = "    " ++ name ++ " = " ++ toString value ++ ", '"
      ++ String.ofList ((singleLine help).toList.flatMap pythonChar) ++ "'" :=
    String.toList_inj.mp (by simp [pythonMember, pythonQuoted, String.toList_append])
  have hhelp := oneLine_singleLine help
  refine ⟨?_, _, _, hline, ?_, ?_, separated_words help.toList, toList_singleLine help⟩
  · have hinside : OneLine (String.ofList ((singleLine help).toList.flatMap pythonChar)) := by
      rw [OneLine, String.toList_ofList]
      exact isLineBreak_of_mem_flatMap_pythonChar hhelp
    have hfront : OneLine ("    " ++ name) := OneLine.append (by decide) hname.oneLine
    have hvalue : OneLine (toString value) := (nominal_toString_int value).oneLine
    rw [hline]
    exact ((((hfront.append (by decide)).append hvalue).append (by decide)).append hinside).append (by decide)
  · rw [String.toList_ofList]
    exact quotesEscaped_flatMap_pythonChar _
  · rw [String.toList_ofList]
    exact textOf?_flatMap_pythonChar hhelp

end Enumeration

namespace Interface

open Enumeration

variable {file source : String} {interface : Interface}

/-- Every member of an enumeration has its line in Python, in order, and so has every flag of a set whose
combinations are resolved. -/
theorem python_lines_exact (hload : load file source = .ok interface) :
    (∀ enumeration ∈ interface.enumerations, enumeration.values.map Prod.fst = enumeration.members ∧
      List.Forall₂ (fun line entry =>
          IsPythonMember (enumeration.constantName entry.1.name) entry.2 entry.1.help line)
        enumeration.pythonMembers enumeration.values) ∧
    ∀ set ∈ interface.flagSets, ∀ values, set.values = .ok values → values.map Prod.fst = set.flags ∧
      ∃ lines, set.pythonLines = .ok lines ∧
        List.Forall₂ (fun line entry => IsPythonMember (constantCase entry.1.name) entry.2 entry.1.help line)
          lines values := by
  obtain ⟨hsound, -⟩ := load_sound hload
  refine ⟨fun enumeration henumeration => ?_, fun set hset values hvalues => ?_⟩
  · have hnamed := (hsound.enumerations enumeration henumeration).named
    refine ⟨values_map_fst enumeration, ?_⟩
    rw [pythonMembers, List.forall₂_map_left_iff, List.forall₂_same]
    intro entry hentry
    exact isPythonMember_pythonMember (hnamed.constantName (hnamed.of_mem_values hentry)) entry.2 entry.1.help
  · have hflags := FlagSet.map_fst_of_valuesFrom hvalues
    refine ⟨hflags, values.map fun entry => pythonMember (constantCase entry.1.name) entry.2 entry.1.help,
      ?_, ?_⟩
    · rw [FlagSet.pythonLines, hvalues]
      rfl
    · rw [List.forall₂_map_left_iff, List.forall₂_same]
      intro entry hentry
      have hflag : entry.1 ∈ set.flags := by
        rw [← hflags]
        exact List.mem_map_of_mem hentry
      have hname := nominal_of_isValid ((hsound.flagSets set hset).flags entry.1 hflag).name_valid
      exact isPythonMember_pythonMember (nominal_constantCase hname) entry.2 entry.1.help

end Interface

namespace Sample

/-- A description whose helps have lines, tabs, quotes and backslashes at the end. -/
def unevenHelps : String :=
"copyright = \"\"

[version]
major = 1
minor = 2
patch = 3

[constants]

[functions]

[enums.level]
low = \"It's\\n\\tlow. \\\\\"

[flags.events.sent]
bit = 3
help = \"'Sent' \\u2028 \\\"once\\\"\\\\'\"

[type_mappings]
"

def low : Member := ⟨"low", "It's\n\tlow. \\", none⟩

def lowLevels : Enumeration := ⟨"level", .sequential, none, [low]⟩

def sent : Flag := ⟨"sent", "'Sent' \u2028 \"once\"\\'", .bit (some 3)⟩

def sentEvents : FlagSet := ⟨"events", none, [sent]⟩

set_option maxRecDepth 10000 in
theorem exists_unevenHelps : ∃ interface, Interface.load "core_api.toml" unevenHelps = .ok interface ∧
    interface.enumerations = [lowLevels] ∧ interface.flagSets = [sentEvents] :=
  Interface.exists_load_of_described String.toList_ofList (by decide)

end Sample

namespace Interface

open Enumeration

theorem python_lines_exact_uneven : ∃ interface, load "core_api.toml" Sample.unevenHelps = .ok interface ∧
    Sample.lowLevels ∈ interface.enumerations ∧ Sample.sentEvents ∈ interface.flagSets ∧
    Sample.sentEvents.values = .ok [(Sample.sent, 8)] ∧
    IsPythonMember "LOW" 0 Sample.low.help "    LOW = 0, 'It\\'s low. \\\\'" ∧
    IsPythonMember "SENT" 8 Sample.sent.help "    SENT = 8, '\\'Sent\\' \"once\"\\\\\\''" := by
  obtain ⟨interface, hload, henumerations, hflagSets⟩ := Sample.exists_unevenHelps
  have hlevels : Sample.lowLevels ∈ interface.enumerations := by simp [henumerations]
  have hevents : Sample.sentEvents ∈ interface.flagSets := by simp [hflagSets]
  have hvalues : Sample.sentEvents.values = .ok [(Sample.sent, 8)] := rfl
  obtain ⟨hmembers, hflags⟩ := python_lines_exact hload
  have hlow := (hmembers _ hlevels).2
  obtain ⟨-, lines, hlines, hsent⟩ := hflags _ hevents _ hvalues
  refine ⟨interface, hload, hlevels, hevents, hvalues, ?_, ?_⟩
  · have hname : Sample.lowLevels.constantName Sample.low.name = "LOW" := by decide
    have hline : Sample.lowLevels.pythonMembers = ["    LOW = 0, 'It\\'s low. \\\\'"] := by decide
    have hvalues : Sample.lowLevels.values = [(Sample.low, 0)] := by decide
    rw [hline, hvalues] at hlow
    rw [← hname]
    exact (List.forall₂_cons.mp hlow).1
  · have hname : constantCase Sample.sent.name = "SENT" := by decide
    have hline : Sample.sentEvents.pythonLines = .ok ["    SENT = 8, '\\'Sent\\' \"once\"\\\\\\''"] := by
      rw [FlagSet.pythonLines, hvalues]
      exact congrArg Except.ok (by decide)
    obtain rfl := Except.ok.inj (hlines.symm.trans hline)
    rw [← hname]
    exact (List.forall₂_cons.mp hsent).1

end Interface

end Bindery
