import Bindery.Proofs.JsonTokens
import Bindery.Render.Literal

/-!
# Values of JSON

The tokens of a JSON text are read as a value, with a stack of the arrays and objects that are still open.
Reading the tokens of a value gives the value back, and the JSON text of a value of the document has the
tokens of that value, with the entries of arrays and tables in their order.
-/

namespace Bindery

open Text

namespace Json

/-! ## Parsing -/

/-- An array or an object that is still open, and what it has before the value that is being read. -/
inductive Frame where
  | item (before : List Json)
  | entry (before : List (String × Json)) (key : String)

/-- What was read, and so what may come next. -/
inductive Progress where
  | valueDue (outer : List Frame)
  /-- behind the bracket that opens an array -/
  | arrayOpened (outer : List Frame)
  /-- behind the brace that opens an object -/
  | objectOpened (outer : List Frame)
  | keyDue (before : List (String × Json)) (outer : List Frame)
  | colonDue (before : List (String × Json)) (key : String) (outer : List Frame)
  /-- behind a whole value -/
  | whole (value : Json) (outer : List Frame)

def valueStep (outer : List Frame) : Token → Option Progress
  | .scalar value => some (.whole value outer)
  | .mark '[' => some (.arrayOpened outer)
  | .mark '\x7b' => some (.objectOpened outer)
  | .mark _ => none

def keyStep (before : List (String × Json)) (outer : List Frame) : Token → Option Progress
  | .scalar (.string key) => some (.colonDue before key outer)
  | _ => none

/-- The step behind a whole value: a comma goes on with the innermost array or object, and its end makes
that a whole value. -/
def wholeStep (value : Json) : List Frame → Token → Option Progress
  | .item before :: outer, .mark ',' => some (.valueDue (.item (before ++ [value]) :: outer))
  | .item before :: outer, .mark ']' => some (.whole (.array (before ++ [value])) outer)
  | .entry before key :: outer, .mark ',' => some (.keyDue (before ++ [(key, value)]) outer)
  | .entry before key :: outer, .mark '\x7d' => some (.whole (.object (before ++ [(key, value)])) outer)
  | _, _ => none

def Progress.step : Progress → Token → Option Progress
  | .valueDue outer, token => valueStep outer token
  | .arrayOpened outer, .mark ']' => some (.whole (.array []) outer)
  | .arrayOpened outer, token => valueStep (.item [] :: outer) token
  | .objectOpened outer, .mark '\x7d' => some (.whole (.object []) outer)
  | .objectOpened outer, token => keyStep [] outer token
  | .keyDue before outer, token => keyStep before outer token
  | .colonDue before key outer, .mark ':' => some (.valueDue (.entry before key :: outer))
  | .colonDue _ _ _, _ => none
  | .whole value outer, token => wholeStep value outer token

/-- What stands after some more tokens. -/
def Progress.run (start : Progress) (tokens : List Token) : Option Progress := tokens.foldlM Progress.step start

/-- The value that some tokens make up. -/
def parse? (tokens : List Token) : Option Json :=
  match (Progress.valueDue []).run tokens with
  | some (.whole value []) => some value
  | _ => none

/-- The value of a JSON text. -/
def read? (text : List Char) : Option Json := (tokens? text).bind parse?

/-! ## Tokens of a value -/

mutual

def tokens : Json → List Token
  | .array items => .mark '[' :: ([.mark ','].intercalate (itemTokens items) ++ [.mark ']'])
  | .object entries => .mark '\x7b' :: ([.mark ','].intercalate (entryTokens entries) ++ [.mark '\x7d'])
  | value => [.scalar value]

def itemTokens : List Json → List (List Token)
  | [] => []
  | item :: rest => item.tokens :: itemTokens rest

def entryTokens : List (String × Json) → List (List Token)
  | [] => []
  | (key, value) :: rest => (.scalar (.string key) :: .mark ':' :: value.tokens) :: entryTokens rest

end

variable {start middle next : Progress} {front back : List Token} {value : Json} {outer : List Frame}

theorem run_append (h : start.run front = some middle) : start.run (front ++ back) = middle.run back := by
  rw [Progress.run, List.foldlM_append, ← Progress.run, h]
  rfl

theorem run_cons {token : Token} (h : start.step token = some middle) :
    start.run (token :: back) = middle.run back := by
  rw [Progress.run, List.foldlM_cons, h]
  rfl

/-- A value may stand first in an array. -/
theorem run_arrayOpened (first : Json) (rest : List Json) (outer : List Frame) (back : List Token) :
    (Progress.arrayOpened outer).run ([.mark ','].intercalate (itemTokens (first :: rest)) ++ back)
      = (Progress.valueDue (.item [] :: outer)).run
          ([.mark ','].intercalate (itemTokens (first :: rest)) ++ back) := by
  cases rest <;> cases first <;> rfl

/-- A key may stand first in an object. -/
theorem run_objectOpened (first : String × Json) (rest : List (String × Json)) (outer : List Frame)
    (back : List Token) :
    (Progress.objectOpened outer).run ([.mark ','].intercalate (entryTokens (first :: rest)) ++ back)
      = (Progress.keyDue [] outer).run ([.mark ','].intercalate (entryTokens (first :: rest)) ++ back) := by
  cases rest <;> rfl

theorem run_entry {key : String} {before : List (String × Json)}
    (h : (Progress.valueDue (.entry before key :: outer)).run value.tokens
      = some (.whole value (.entry before key :: outer))) :
    (Progress.keyDue before outer).run (.scalar (.string key) :: .mark ':' :: value.tokens)
      = some (.whole value (.entry before key :: outer)) := by
  have hkey : (Progress.keyDue before outer).step (.scalar (.string key)) = some (.colonDue before key outer) :=
    rfl
  have hcolon : (Progress.colonDue before key outer).step (.mark ':')
      = some (.valueDue (.entry before key :: outer)) := rfl
  rw [run_cons hkey, run_cons hcolon, h]

mutual

/-- The tokens of a value are read as that value, whatever is open around it. -/
theorem run_tokens : ∀ (value : Json) (outer : List Frame),
    (Progress.valueDue outer).run value.tokens = some (.whole value outer)
  | .null, _ => rfl
  | .boolean _, _ => rfl
  | .number _ _, _ => rfl
  | .string _, _ => rfl
  | .array items, outer => by
      have hopen : (Progress.valueDue outer).step (.mark '[') = some (.arrayOpened outer) := rfl
      have hitems := run_itemTokens items [] outer
      rw [tokens, run_cons hopen]
      cases items with
      | nil => rfl
      | cons first rest =>
          rw [run_arrayOpened]
          exact hitems (List.cons_ne_nil _ _)
  | .object entries, outer => by
      have hopen : (Progress.valueDue outer).step (.mark '\x7b') = some (.objectOpened outer) := rfl
      have hentries := run_entryTokens entries [] outer
      rw [tokens, run_cons hopen]
      cases entries with
      | nil => rfl
      | cons first rest =>
          rw [run_objectOpened]
          exact hentries (List.cons_ne_nil _ _)

theorem run_itemTokens : ∀ (items before : List Json) (outer : List Frame), items ≠ [] →
    (Progress.valueDue (.item before :: outer)).run
      ([.mark ','].intercalate (itemTokens items) ++ [.mark ']'])
      = some (.whole (.array (before ++ items)) outer)
  | [], _, _, hsome => absurd rfl hsome
  | [item], before, outer, _ => by
      rw [itemTokens, itemTokens, List.intercalate_singleton, run_append (run_tokens item _)]
      rfl
  | first :: second :: others, before, outer, _ => by
      have hcomma : (Progress.whole first (.item before :: outer)).step (.mark ',')
          = some (.valueDue (.item (before ++ [first]) :: outer)) := rfl
      have hrest := run_itemTokens (second :: others) (before ++ [first]) outer (List.cons_ne_nil _ _)
      rw [itemTokens] at hrest
      rw [itemTokens, itemTokens, List.intercalate_cons_cons, List.append_assoc, List.append_assoc,
        run_append (run_tokens first _), List.singleton_append, run_cons hcomma, hrest, List.append_assoc,
        List.singleton_append]

theorem run_entryTokens : ∀ (entries before : List (String × Json)) (outer : List Frame), entries ≠ [] →
    (Progress.keyDue before outer).run
      ([.mark ','].intercalate (entryTokens entries) ++ [.mark '\x7d'])
      = some (.whole (.object (before ++ entries)) outer)
  | [], _, _, hsome => absurd rfl hsome
  | [(key, value)], before, outer, _ => by
      rw [entryTokens, entryTokens, List.intercalate_singleton, run_append (run_entry (run_tokens value _))]
      rfl
  | (key, value) :: (secondKey, second) :: others, before, outer, _ => by
      have hcomma : (Progress.whole value (.entry before key :: outer)).step (.mark ',')
          = some (.keyDue (before ++ [(key, value)]) outer) := rfl
      have hrest := run_entryTokens ((secondKey, second) :: others) (before ++ [(key, value)]) outer
        (List.cons_ne_nil _ _)
      rw [entryTokens] at hrest
      rw [entryTokens, entryTokens, List.intercalate_cons_cons, List.append_assoc, List.append_assoc,
        run_append (run_entry (run_tokens value _)), List.singleton_append, run_cons hcomma, hrest,
        List.append_assoc, List.singleton_append]

end

theorem parse?_tokens (value : Json) : parse? value.tokens = some value := by
  rw [parse?, run_tokens]

/-! ## Texts with those tokens -/

theorem lexes_brackets {text : List Char} {tokens : List Token} (opening closing : Char)
    (hopening : scanner.Reads .between [opening] [.mark opening] .between)
    (hclosing : scanner.Reads .between [closing] [.mark closing] .between) (hends : isWordPart closing = false)
    (h : Lexes text tokens) :
    Lexes (opening :: (text ++ [closing])) (.mark opening :: (tokens ++ [.mark closing])) := by
  have hafter : EndsWord [closing] := fun c hc => by cases hc; exact hends
  exact (h.append (lexes_of_reads hclosing) (by simp) hafter).after hopening

theorem lexes_intercalate {texts : List (List Char)} {tokens : List (List Token)}
    (h : List.Forall₂ Lexes texts tokens) :
    Lexes (", ".toList.intercalate texts) ([.mark ','].intercalate tokens) := by
  have hmark : scanner.step .between ',' = some ([.mark ','], .between) := rfl
  have hspace : scanner.step .between ' ' = some ([], .between) := rfl
  have hcomma : scanner.Reads .between ", ".toList [.mark ','] .between := .cons hmark (.single hspace)
  have hends (back : List Char) : EndsWord (", ".toList ++ back) := fun c hc => by
    cases hc
    decide
  induction h with
  | nil => exact lexes_of_reads (.nil _)
  | @cons first firstTokens rest restTokens hfirst hrest ih =>
      cases hrest with
      | nil =>
          rw [List.intercalate_singleton, List.intercalate_singleton]
          exact hfirst
      | cons hsecond hothers =>
          rw [List.intercalate_cons_cons, List.intercalate_cons_cons, List.append_assoc, List.append_assoc]
          exact hfirst.append (ih.after hcomma) (by simp) (hends _)

end Json

/-! ## Values of the document -/

namespace Toml.Value

open Json

mutual

/-- What the JSON text of a value without floating-point numbers stands for. -/
def json? : Value → Option Json
  | .string text => some (.string text)
  | .integer value => some (.number value 0)
  | .float _ => none
  | .boolean value => some (.boolean value)
  | .datetime value => some (.string value.text)
  | .array items => (itemsJson? items).map .array
  | .table entries => (entriesJson? entries).map .object

def itemsJson? : List Value → Option (List Json)
  | [] => some []
  | item :: rest => do
      let value ← item.json?
      return value :: (← itemsJson? rest)

def entriesJson? : List (String × Value) → Option (List (String × Json))
  | [] => some []
  | (key, item) :: rest => do
      let value ← item.json?
      return (key, value) :: (← entriesJson? rest)

end

mutual

theorem lexes_jsonText : ∀ (value : Value) {json : Json}, value.json? = some json →
    Lexes value.jsonText.toList json.tokens
  | .string text, _, h => by
      cases h
      exact lexes_of_reads (reads_jsonQuoted text)
  | .integer value, _, h => by
      cases h
      exact lexes_toString value
  | .float _, _, h => by cases h
  | .boolean true, _, h => by
      cases h
      exact lexes_word (by decide) (List.all_eq_true.mp (by decide)) rfl
  | .boolean false, _, h => by
      cases h
      exact lexes_word (by decide) (List.all_eq_true.mp (by decide)) rfl
  | .datetime value, _, h => by
      cases h
      exact lexes_of_reads (reads_jsonQuoted value.text)
  | .array items, _, h => by
      obtain ⟨values, hvalues, rfl⟩ := Option.map_eq_some_iff.mp h
      have hinside := lexes_intercalate (forall₂_lexes_jsonItems items hvalues)
      have hall := lexes_brackets '[' ']' (.single rfl) (.single rfl) (by decide) hinside
      simpa [jsonText, join, tokens] using hall
  | .table entries, _, h => by
      obtain ⟨values, hvalues, rfl⟩ := Option.map_eq_some_iff.mp h
      have hinside := lexes_intercalate (forall₂_lexes_jsonEntries entries hvalues)
      have hall := lexes_brackets '\x7b' '\x7d' (.single rfl) (.single rfl) (by decide) hinside
      simpa [jsonText, join, tokens] using hall

theorem forall₂_lexes_jsonItems : ∀ (items : List Value) {values : List Json}, itemsJson? items = some values →
    List.Forall₂ Lexes ((jsonItems items).map String.toList) (itemTokens values)
  | [], _, h => by
      cases h
      exact .nil
  | item :: rest, _, h => by
      obtain ⟨value, hvalue, h⟩ := Option.bind_eq_some_iff.mp h
      obtain ⟨values, hvalues, h⟩ := Option.bind_eq_some_iff.mp h
      cases h
      exact .cons (lexes_jsonText item hvalue) (forall₂_lexes_jsonItems rest hvalues)

theorem forall₂_lexes_jsonEntries : ∀ (entries : List (String × Value)) {values : List (String × Json)},
    entriesJson? entries = some values →
    List.Forall₂ Lexes ((jsonEntries entries).map String.toList) (entryTokens values)
  | [], _, h => by
      cases h
      exact .nil
  | (key, item) :: rest, _, h => by
      obtain ⟨value, hvalue, h⟩ := Option.bind_eq_some_iff.mp h
      obtain ⟨values, hvalues, h⟩ := Option.bind_eq_some_iff.mp h
      cases h
      have hmark : scanner.step .between ':' = some ([.mark ':'], .between) := rfl
      have hspace : scanner.step .between ' ' = some ([], .between) := rfl
      have hcolon : scanner.Reads .between ": ".toList [.mark ':'] .between := .cons hmark (.single hspace)
      have hentry := (lexes_jsonText item hvalue).after ((reads_jsonQuoted key).append hcolon)
      rw [← String.toList_append, ← String.toList_append] at hentry
      exact .cons hentry (forall₂_lexes_jsonEntries rest hvalues)

end

theorem read?_jsonText {value : Value} {json : Json} (h : value.json? = some json) :
    Json.read? value.jsonText.toList = some json := by
  rw [Json.read?, (lexes_jsonText value h).tokens?_eq, Option.bind_some, parse?_tokens]

end Toml.Value

end Bindery
