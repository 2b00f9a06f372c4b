import Bindery.Proofs.Json
import Bindery.Proofs.Numbering
import Bindery.Proofs.Rendering

/-!
# Initializers

The literals of a text are read back as the text, line by line where it has several, and the literal of a
list as a JSON text with the items of the list. Whatever a constant has for its value, its initializer is
valid C, but where a suffix for the type `long long` is appended to what is no number.
-/

namespace Bindery

open Text Naming

/-! ## Lines of literals -/

namespace Literal

variable {text : List Char} {literal : String}

theorem step_lineFeed (state : State) : scanner.step state '\n' = none := by
  cases state with
  | octal more number => cases more <;> rfl
  | hexadecimal number? => cases number? <;> rfl
  | plain | escape | universal => rfl

theorem run_eq_none (h : '\n' ∈ text) (state : State) : scanner.run state text = none := by
  induction text generalizing state with
  | nil => cases h
  | cons c rest ih =>
      cases hstep : scanner.step state c with
      | none => exact Scanner.run_cons_eq_none hstep
      | some written =>
          have hbreak : '\n' ≠ c := by
            rintro rfl
            rw [step_lineFeed] at hstep
            cases hstep
          rw [Scanner.run_cons hstep, ih (List.mem_of_ne_of_mem hbreak h), Option.map_none]

/-- What is read is a text between two quotes. -/
theorem exists_of_read? (h : read? literal = some text) :
    ∃ inside : String, literal = "\"" ++ inside ++ "\"" ∧ textOf? inside.toList = some text := by
  obtain ⟨inside, hinside, htext⟩ := Option.bind_eq_some_iff.mp h
  exact ⟨inside, String.toList_inj.mp (Declaration.eq_append_of_between? hinside), htext⟩

/-- A literal stands on one line. -/
theorem lineFeed_not_mem_of_read? (h : read? literal = some text) : '\n' ∉ literal.toList := by
  obtain ⟨inside, rfl, hinside⟩ := exists_of_read? h
  intro hmem
  have hbreak : '\n' ∈ inside.toList := by simpa [String.toList_append] using hmem
  rw [textOf?, run_eq_none hbreak] at hinside
  cases hinside

/-- A literal ends with its quote. -/
theorem read?_suffixed (text : String) : read? (text ++ "ll") = none := by
  cases h : read? (text ++ "ll") with
  | none => rfl
  | some written =>
      obtain ⟨inside, hliteral, -⟩ := exists_of_read? h
      have hletter : (text ++ "ll").toList.getLast? = some 'l' := by
        rw [String.toList_append, List.getLast?_append]
        rfl
      have hquote : ("\"" ++ inside ++ "\"").toList.getLast? = some '"' := by
        rw [String.toList_append, List.getLast?_append]
        rfl
      rw [hliteral, hquote] at hletter
      cases hletter

theorem read?_cQuotedLine {line : List Char} (h : '\n' ∉ line) :
    read? ("\"" ++ escape (String.ofList line) ++ "\\n\"") = some (line ++ ['\n']) := by
  have hliteral : "\"" ++ escape (String.ofList line) ++ "\\n\""
      = "\"" ++ (escape (String.ofList line) ++ "\\n") ++ "\"" :=
    String.toList_inj.mp (by simp [String.toList_append])
  have hback : scanner.step .plain '\\' = some ([], .escape) := rfl
  have hsign : scanner.step .escape 'n' = some (['\n'], .plain) := rfl
  have hbreak : scanner.Reads .plain ['\\', 'n'] ['\n'] .plain := .cons hback (.single hsign)
  have hread : scanner.run .plain (line.flatMap escapeChar ++ ['\\', 'n']) = some (line ++ ['\n'] ++ []) :=
    ((reads_flatMap_escapeChar h).append hbreak).run_eq_some rfl
  rw [hliteral, read?_quoted, textOf?, String.toList_append, escape, String.toList_ofList, String.toList_ofList]
  rwa [List.append_nil] at hread

theorem read?_of_mem_pieces {line : List Char} (h : line ∈ pieces (· = '\n') text) :
    read? ("\"" ++ escape (String.ofList line) ++ "\\n\"") = some (line ++ ['\n']) :=
  read?_cQuotedLine fun hmem => absurd (isBreak_eq_false_of_mem_pieces h hmem) (by decide)

/-- The texts of some literals, one after the other. -/
def concatenation? (literals : List String) : Option (List Char) := (literals.mapM read?).map List.flatten

theorem concatenation?_map {lines : List (List Char)} {literalOf : List Char → String}
    {textOf : List Char → List Char} (h : ∀ line ∈ lines, read? (literalOf line) = some (textOf line)) :
    concatenation? (lines.map literalOf) = some (lines.flatMap textOf) := by
  have hall : (lines.map literalOf).mapM read? = some (lines.map textOf) := by
    induction lines with
    | nil => rfl
    | cons line rest ih =>
        obtain ⟨hline, hrest⟩ := List.forall_mem_cons.mp h
        rw [List.map_cons, List.mapM_cons, hline, ih hrest]
        rfl
  rw [concatenation?, hall, Option.map_some, List.flatMap_def]

end Literal

/-- The pieces of a text, each with a line feed behind it again. -/
theorem flatMap_pieces (text : List Char) :
    (pieces (· = '\n') text).flatMap (· ++ ['\n']) = text ++ ['\n'] := by
  induction text with
  | nil => rfl
  | cons c rest ih =>
      by_cases hc : c = '\n'
      · rw [pieces, if_pos (decide_eq_true hc), List.flatMap_cons, ih, hc]
        rfl
      · rw [pieces, if_neg (by simpa using hc)]
        obtain ⟨first, others, hpieces⟩ := exists_pieces (· = '\n') rest
        rw [hpieces, List.flatMap_cons] at ih
        rw [hpieces, List.modifyHead_cons, List.flatMap_cons, List.cons_append, List.cons_append, ih,
          List.cons_append]

namespace Toml.Value

theorem lineFeed_not_mem_jsonChar (c : Char) : '\n' ∉ jsonChar c := by
  have hdigit : ∀ n < 16, '\n' ≠ hexDigit n := by decide
  unfold jsonChar
  split
  iterate 7 decide
  next hbreak _ _ =>
    split
    next hcontrol =>
      have hhigh := hdigit (c.toNat / 16) (by omega)
      have hlow := hdigit (c.toNat % 16) (by omega)
      simp [hhigh, hlow]
    next =>
      rw [List.mem_singleton]
      exact fun heq => hbreak heq.symm

theorem lineFeed_not_mem_jsonQuoted (text : String) : '\n' ∉ (jsonQuoted text).toList := by
  have hinside : '\n' ∉ text.toList.flatMap jsonChar := fun hmem => by
    obtain ⟨c, -, hc⟩ := List.mem_flatMap.mp hmem
    exact lineFeed_not_mem_jsonChar c hc
  simp [jsonQuoted, String.toList_append, hinside]

mutual

/-- The JSON text of a value is one line. -/
theorem lineFeed_not_mem_jsonText : ∀ value : Value, '\n' ∉ value.jsonText.toList
  | .string text => lineFeed_not_mem_jsonQuoted text
  | .integer value => fun hmem => absurd (nominal_toString_int value '\n' hmem) (by decide)
  | .float value => value.not_mem_jsonText (by decide) (by decide)
  | .boolean true => by decide
  | .boolean false => by decide
  | .datetime value => lineFeed_not_mem_jsonQuoted value.text
  | .array items => by
      have hinside : '\n' ∉ (join ", " (jsonItems items)).toList :=
        not_mem_join (by decide) (lineFeed_not_mem_jsonItems items)
      simp [jsonText, String.toList_append, hinside]
  | .table entries => by
      have hinside : '\n' ∉ (join ", " (jsonEntries entries)).toList :=
        not_mem_join (by decide) (lineFeed_not_mem_jsonEntries entries)
      simp [jsonText, String.toList_append, hinside]

theorem lineFeed_not_mem_jsonItems : ∀ items : List Value, ∀ text ∈ jsonItems items, '\n' ∉ text.toList
  | [], text, h => by cases h
  | item :: rest, text, h => by
      rcases List.mem_cons.mp h with rfl | hrest
      · exact lineFeed_not_mem_jsonText item
      · exact lineFeed_not_mem_jsonItems rest text hrest

theorem lineFeed_not_mem_jsonEntries : ∀ entries : List (String × Value),
    ∀ text ∈ jsonEntries entries, '\n' ∉ text.toList
  | [], text, h => by cases h
  | (key, item) :: rest, text, h => by
      rcases List.mem_cons.mp h with rfl | hrest
      · have hkey := lineFeed_not_mem_jsonQuoted key
        have hitem := lineFeed_not_mem_jsonText item
        simp [String.toList_append, hkey, hitem]
      · exact lineFeed_not_mem_jsonEntries rest text hrest

end

end Toml.Value

namespace Constant.Value

variable {type : String} {value : Constant.Value}

theorem literals_of_ne (h : type ≠ longLong) : value.literals type = value.plainLiterals := if_neg h

theorem plainLiterals_ne_nil (value : Constant.Value) : value.plainLiterals ≠ [] := by
  cases value with
  | lines text =>
      obtain ⟨first, rest, hpieces⟩ := exists_pieces (· = '\n') (trimEnd text.toList)
      rw [plainLiterals, hpieces]
      exact List.cons_ne_nil _ _
  | integer | float | line | list => exact List.cons_ne_nil _ _

theorem plainLiterals_line {text : String} (h : ¬ apiPrefix.toList <+: text.toList) :
    (Constant.Value.line text).plainLiterals = [cQuoted text] := by
  rw [plainLiterals, if_neg (by rwa [List.isPrefixOf_iff_prefix])]

theorem plainLiterals_list (items : List Toml.Value) :
    (Constant.Value.list items).plainLiterals = [cQuoted (Toml.Value.array items).jsonText] := rfl

theorem read?_of_mem_lines {text : String} {literal : String}
    (h : literal ∈ (Constant.Value.lines text).plainLiterals) : (Literal.read? literal).isSome := by
  obtain ⟨line, hline, rfl⟩ := List.mem_map.mp h
  rw [Literal.read?_of_mem_pieces hline]
  rfl

theorem concatenation?_lines (text : String) :
    Literal.concatenation? (Constant.Value.lines text).plainLiterals = some (trimEnd text.toList ++ ['\n']) := by
  rw [plainLiterals, Literal.concatenation?_map fun line hline => Literal.read?_of_mem_pieces hline, flatMap_pieces]

/-- A text is read back from its literal, and a text of several lines from its literals, each of which is on
one line, without the blanks at its end but with a line feed there. A list is read back from the JSON text
that its literal stands for. -/
theorem literals_read_back (htype : type ≠ longLong) :
    (∀ text : String, ¬ apiPrefix.toList <+: text.toList → '\n' ∉ text.toList →
      ∃ literal, (Constant.Value.line text).literals type = [literal] ∧
        Literal.read? literal = some text.toList) ∧
    (∀ text : String,
      (∀ literal ∈ (Constant.Value.lines text).literals type, '\n' ∉ literal.toList) ∧
      Literal.concatenation? ((Constant.Value.lines text).literals type)
        = some (trimEnd text.toList ++ ['\n'])) ∧
    ∀ (items : List Toml.Value) (values : List Json), Toml.Value.itemsJson? items = some values →
      ∃ literal inside, (Constant.Value.list items).literals type = [literal] ∧
        Literal.read? literal = some inside ∧ Json.read? inside = some (.array values) := by
  refine ⟨fun text hname hbreak => ?_, fun text => ?_, fun items values hvalues => ?_⟩
  · rw [literals_of_ne htype, plainLiterals_line hname]
    exact ⟨_, rfl, Literal.read?_cQuoted hbreak⟩
  · rw [literals_of_ne htype]
    refine ⟨fun literal hliteral => ?_, concatenation?_lines text⟩
    obtain ⟨written, hwritten⟩ := Option.isSome_iff_exists.mp (read?_of_mem_lines hliteral)
    exact Literal.lineFeed_not_mem_of_read? hwritten
  · have hjson : (Toml.Value.array items).json? = some (.array values) := by
      rw [Toml.Value.json?, hvalues, Option.map_some]
    rw [literals_of_ne htype, plainLiterals_list]
    exact ⟨_, _, rfl, Literal.read?_cQuoted (Toml.Value.array items).lineFeed_not_mem_jsonText,
      Toml.Value.read?_jsonText hjson⟩

/-- A text with quotes and a backslash, one of two lines and a list with a table in it. -/
theorem literals_read_back_nested : "const char*" ≠ longLong ∧
    (∃ literal, (Constant.Value.line "say \"hi\" \\").literals "const char*" = [literal] ∧
      Literal.read? literal = some "say \"hi\" \\".toList) ∧
    Literal.concatenation? ((Constant.Value.lines "a\tb \n c\n\n").literals "const char*")
      = some "a\tb \n c\n".toList ∧
    ∃ literal inside,
      (Constant.Value.list [.integer (-5), .array [.table [("k\"", .string "\t\x01"), ("a", .boolean true)]]]).literals
        "const char*" = [literal] ∧
      Literal.read? literal = some inside ∧
      Json.read? inside = some
        (.array [.number (-5) 0, .array [.object [("k\"", .string "\t\x01"), ("a", .boolean true)]]]) := by
  have htype : "const char*" ≠ longLong := by decide
  obtain ⟨hline, hlines, hlist⟩ := literals_read_back htype
  refine ⟨htype, hline _ (by decide) (by decide), ?_, hlist _ _ rfl⟩
  rw [(hlines "a\tb \n c\n\n").2]
  decide

/-! ## Valid initializers -/

/-- What may stand behind the equals sign of a constant: a whole number, with the suffix of its type, the
name that the value is, or literals and nothing else. -/
def IsInitializer (value : Constant.Value) (type : String) (literals : List String) : Prop :=
  (∃ number : Int, literals = [toString number ++ if type = longLong then "ll" else ""]) ∨
  (∃ name, value = .line name ∧ apiPrefix.toList <+: name.toList ∧ literals = [name]) ∨
  (literals ≠ [] ∧ ∀ literal ∈ literals, (Literal.read? literal).isSome)

/-- The characters of a whole number. -/
theorem eq_or_isDigit_of_mem_toString (number : Int) :
    ∀ c ∈ (toString number).toList, c = '-' ∨ c.isDigit = true := by
  have hdigit (magnitude : Nat) : ∀ c ∈ (toString magnitude).toList, c.isDigit = true := fun c hc =>
    Nat.isDigit_of_mem_toDigits (by decide) (by decide) (Nat.toList_repr ▸ hc)
  cases number with
  | ofNat magnitude => exact fun c hc => .inr (hdigit magnitude c hc)
  | negSucc magnitude =>
      intro c hc
      have hsign : toString (Int.negSucc magnitude) = "-" ++ toString (magnitude + 1) := rfl
      rw [hsign, String.toList_append, List.mem_append] at hc
      exact hc.imp List.mem_singleton.mp (hdigit _ c)

/-- A text with a character that no whole number has. -/
def IsWorded (text : String) : Prop := ∃ c ∈ text.toList, c ≠ '-' ∧ c.isDigit = false

theorem IsWorded.ne_toString {text : String} (h : IsWorded text) (number : Int) : text ≠ toString number := by
  rintro rfl
  obtain ⟨c, hc, hsign, hdigit⟩ := h
  rcases eq_or_isDigit_of_mem_toString number c hc with heq | htrue
  · exact hsign heq
  · rw [hdigit] at htrue
    cases htrue

theorem isWorded_quoted (inside closing : String) : IsWorded ("\"" ++ inside ++ closing) :=
  ⟨'"', by simp [String.toList_append], by decide, by decide⟩

theorem isWorded_of_prefix {text : String} (h : apiPrefix.toList <+: text.toList) : IsWorded text :=
  ⟨'_', h.subset (by decide), by decide, by decide⟩

/-- The last literal of a value that is no number is none either. -/
theorem exists_plainLiterals (hinteger : ∀ number, value ≠ .integer number)
    (hfloat : ∀ number, value ≠ .float number) :
    ∃ front last, value.plainLiterals = front ++ [last] ∧ IsWorded last := by
  cases value with
  | integer number => exact absurd rfl (hinteger number)
  | float number => exact absurd rfl (hfloat number)
  | line text =>
      refine ⟨[], _, rfl, ?_⟩
      split
      next hname => exact isWorded_of_prefix (List.isPrefixOf_iff_prefix.mp hname)
      next => exact isWorded_quoted _ _
  | lines text =>
      have hsome := plainLiterals_ne_nil (.lines text)
      obtain ⟨line, -, hlast⟩ := List.mem_map.mp (List.getLast_mem hsome)
      refine ⟨_, _, (List.dropLast_append_getLast hsome).symm, ?_⟩
      rw [← hlast]
      exact isWorded_quoted _ _
  | list items => exact ⟨[], _, rfl, isWorded_quoted _ _⟩

theorem literals_longLong {front : List String} {last : String} (h : value.plainLiterals = front ++ [last]) :
    value.literals longLong = front ++ [last ++ "ll"] := by
  have hlength : (front ++ [last]).length - 1 = front.length := by simp
  rw [literals, if_pos rfl, h, hlength, List.modify_eq_take_cons_drop (by simp)]
  simp

theorem not_isInitializer_longLong (hinteger : ∀ number, value ≠ .integer number)
    (hfloat : ∀ number, value ≠ .float number) : ¬ IsInitializer value longLong (value.literals longLong) := by
  obtain ⟨front, last, hplain, hworded⟩ := exists_plainLiterals hinteger hfloat
  rw [literals_longLong hplain]
  have hsingle {item other : String} (h : front ++ [item] = [other]) : item = other := by
    have hboth : front = [] ∧ item = other := by simpa [List.append_eq_singleton_iff] using h
    exact hboth.2
  rintro (⟨number, hnumber⟩ | ⟨name, rfl, hname, hsame⟩ | ⟨-, hread⟩)
  · rw [if_pos rfl] at hnumber
    exact hworded.ne_toString number (String.append_left_inj _ |>.mp (hsingle hnumber))
  · have hlast : last ++ "ll" = name := hsingle hsame
    have hname' : last = name := by
      rw [plainLiterals, if_pos (List.isPrefixOf_iff_prefix.mpr hname)] at hplain
      exact hsingle hplain.symm
    have hlength := congrArg String.length (hlast.trans hname'.symm)
    simp at hlength
  · have hlast := hread (last ++ "ll") (by simp)
    rw [Literal.read?_suffixed] at hlast
    cases hlast

theorem isInitializer_plainLiterals_iff (htype : type ≠ longLong) (hfloat : ∀ number, value ≠ .float number) :
    IsInitializer value type value.plainLiterals ↔
      ∀ text, value = .line text → apiPrefix.toList <+: text.toList ∨ '\n' ∉ text.toList := by
  cases value with
  | integer number =>
      refine iff_of_true (.inl ⟨number, ?_⟩) (fun text h => by cases h)
      rw [if_neg htype, String.append_empty]
      rfl
  | float number => exact absurd rfl (hfloat number)
  | line text =>
      by_cases hname : apiPrefix.toList <+: text.toList
      · refine iff_of_true (.inr (.inl ⟨text, rfl, hname, ?_⟩)) (fun _ h => by cases h; exact .inl hname)
        rw [plainLiterals, if_pos (List.isPrefixOf_iff_prefix.mpr hname)]
      · rw [plainLiterals_line hname]
        constructor
        · rintro (⟨number, hnumber⟩ | ⟨name, heq, hlead, -⟩ | ⟨-, hread⟩)
          · rw [if_neg htype, String.append_empty] at hnumber
            exact absurd (List.head_eq_of_cons_eq hnumber) ((isWorded_quoted _ _).ne_toString number)
          · cases heq
            exact absurd hlead hname
          · rintro _ ⟨⟩
            refine .inr fun hbreak => ?_
            have hsome := hread _ List.mem_cons_self
            rw [Literal.read?_cQuoted_eq_none hbreak] at hsome
            cases hsome
        · intro h
          have hbreak := (h text rfl).resolve_left hname
          refine .inr (.inr ⟨List.cons_ne_nil _ _, fun literal hliteral => ?_⟩)
          rw [List.mem_singleton.mp hliteral, Literal.read?_cQuoted hbreak]
          rfl
  | lines text =>
      have hsome : (Constant.Value.lines text).plainLiterals ≠ [] := plainLiterals_ne_nil _
      exact iff_of_true (.inr (.inr ⟨hsome, fun literal hliteral => read?_of_mem_lines hliteral⟩))
        (fun text h => by cases h)
  | list items =>
      refine iff_of_true (.inr (.inr ⟨List.cons_ne_nil _ _, fun literal hliteral => ?_⟩)) (fun text h => by cases h)
      rw [plainLiterals_list, List.mem_singleton] at hliteral
      rw [hliteral, Literal.read?_cQuoted (Toml.Value.array items).lineFeed_not_mem_jsonText]
      rfl

/-- The initializer of a value that is no floating-point number is valid exactly if a suffix is appended to
whole numbers only and no text has a line feed. -/
theorem isInitializer_literals_iff (hfloat : ∀ number, value ≠ .float number) (type : String) :
    IsInitializer value type (value.literals type) ↔
      (type = longLong → ∃ number, value = .integer number) ∧
      ∀ text, value = .line text → apiPrefix.toList <+: text.toList ∨ '\n' ∉ text.toList := by
  by_cases htype : type = longLong
  · subst htype
    by_cases hinteger : ∃ number, value = .integer number
    · obtain ⟨number, rfl⟩ := hinteger
      exact iff_of_true (.inl ⟨number, rfl⟩) ⟨fun _ => ⟨number, rfl⟩, fun text h => by cases h⟩
    · rw [not_exists] at hinteger
      exact iff_of_false (not_isInitializer_longLong hinteger hfloat)
        fun h => (h.1 rfl).elim hinteger
  · rw [literals_of_ne htype, isInitializer_plainLiterals_iff htype hfloat]
    exact (and_iff_right fun heq => absurd heq htype).symm

theorem isInitializer_literals_iff_negative :
    (∀ number, Constant.Value.integer (-3) ≠ .float number) ∧
      IsInitializer (.integer (-3)) longLong ((Constant.Value.integer (-3)).literals longLong) := by
  have hfloat (number : Binary64) : Constant.Value.integer (-3) ≠ .float number := fun h => by cases h
  exact ⟨hfloat, (isInitializer_literals_iff hfloat longLong).mpr
    ⟨fun _ => ⟨-3, rfl⟩, fun text h => by cases h⟩⟩

end Constant.Value

namespace Sample

/-- A description of a constant of type `long long` whose value is a name of the interface. -/
def longName : String :=
"copyright = \"\"

[version]
major = 1
minor = 2
patch = 3

[constants.VERBOSITY]
value = \"YOGI_VB_INFO\"
type = [\"long long\", \"long long\", \"long\", \"c_longlong\"]

[functions]

[enums]

[flags]

[type_mappings]
"

set_option maxRecDepth 10000 in
theorem exists_longName : ∃ (interface : Interface) (edits : Target → List Edit),
    Interface.load "core_api.toml" longName = .ok interface ∧
      (∀ target : Target, target.emitter.emit interface sources = .ok (edits target)) ∧
      interface.constants.mapM Constant.definition
        = .ok [["long long const kVerbosity = YOGI_VB_INFOll;"]] := by
  obtain ⟨interface, edits, hload, hemit, hdefined⟩ : ∃ (interface : Interface) (edits : Target → List Edit),
      Interface.load "core_api.toml" longName = .ok interface ∧
        (∀ target : Target, target.emitter.emit interface sources = .ok (edits target)) ∧
        (interface.constants.mapM Constant.definition).toOption
          = some [["long long const kVerbosity = YOGI_VB_INFOll;"]] :=
    exists_emitted_of_described String.toList_ofList (by decide)
  exact ⟨interface, edits, hload, hemit, except_toOption_eq_some_iff.mp hdefined⟩

end Sample

/-- A name of the interface gets the suffix too, and is another name then. -/
theorem Constant.Value.isInitializer_breaks : ∃ (interface : Interface) (edits : Target → List Edit),
    Interface.load "core_api.toml" Sample.longName = .ok interface ∧
      Target.core.emitter.emit interface Sample.sources = .ok (edits .core) ∧
      linesOf (edits .core) "yogi-core/src/api/constants.h" 0 = ["long long const kVerbosity = YOGI_VB_INFOll;"] ∧
      (Constant.Value.line "YOGI_VB_INFO").literals longLong = ["YOGI_VB_INFOll"] ∧
      ¬ IsInitializer (.line "YOGI_VB_INFO") longLong ((Constant.Value.line "YOGI_VB_INFO").literals longLong) := by
  obtain ⟨interface, edits, hload, hemit, hdefined⟩ := Sample.exists_longName
  obtain ⟨groups, -, hgroups, -, hlines, -⟩ := Target.core_constants (hemit .core)
  rw [hdefined] at hgroups
  cases hgroups
  exact ⟨interface, edits, hload, hemit .core, hlines, by decide,
    not_isInitializer_longLong (fun number h => by cases h) (fun number h => by cases h)⟩

end Bindery
