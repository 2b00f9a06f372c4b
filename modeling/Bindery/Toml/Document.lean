import Bindery.Toml.Lexeme
import Bindery.Toml.Node

/-!
# Documents

A document is read as a list of statements, the headers of tables and the values of keys, and these
are put together to one table. Lists and tables within values are nested to a limited depth.
-/

namespace Bindery.Toml

/-- How deep lists and tables may be nested in a value, and how many parts a key may have. -/
def nestingLimit : Nat := 80

/-- Whether a text can be a key without quotes. -/
def isBareKey (text : List Char) : Bool :=
  text.all fun c => c.isAlphanum || c = '_' || c = '-'

/-- Reads the parts of a key, which dots separate; blanks may stand between them. -/
def readKey (needsPart : Bool) : List Lexeme → Option (List String × List Lexeme)
  | .blank _ :: rest => readKey needsPart rest
  | .quoted text :: rest =>
      if needsPart then (readKey false rest).map fun (parts, rest) => (text :: parts, rest)
      else none
  | .bare text :: rest =>
      if needsPart && isBareKey text then
        (readKey false rest).map fun (parts, rest) => (String.ofList text :: parts, rest)
      else none
  | .dot :: rest => if needsPart then none else readKey true rest
  | lexemes => if needsPart then none else some ([], lexemes)

/-- Reads a key: the parts before its last one, and the last one. -/
def readKeyPath? (lexemes : List Lexeme) : Option (List String × String × List Lexeme) := do
  let (parts, rest) ← readKey true lexemes
  let last ← parts.getLast?
  if parts.length ≤ nestingLimit then some (parts.dropLast, last, rest) else none

/-- What follows a blank, if there is one. -/
def skipBlank : List Lexeme → List Lexeme
  | .blank _ :: rest => rest
  | lexemes => lexemes

def skipLayout : List Lexeme → List Lexeme
  | .blank _ :: rest => skipLayout rest
  | .newline :: rest => skipLayout rest
  | lexemes => lexemes

/-- The text of the bare runs and dots at the start, and what follows. -/
def readBareText : List Lexeme → List Char × List Lexeme
  | .bare text :: rest =>
      let (others, rest) := readBareText rest
      (text ++ others, rest)
  | .dot :: rest =>
      let (others, rest) := readBareText rest
      ('.' :: others, rest)
  | lexemes => ([], lexemes)

/-- Reads a value without quotes. A single space may stand between a date and a time. -/
def readUnquoted? (lexemes : List Lexeme) : Option (Value × List Lexeme) :=
  let (text, rest) := readBareText lexemes
  match readDate? text, rest with
  | some (_, []), .blank 1 :: .bare time :: following =>
      let (others, rest) := readBareText (.bare time :: following)
      (readScalar? (text ++ ' ' :: others)).map (·, rest)
  | _, _ => (readScalar? text).map (·, rest)

mutual

/-- Reads a value. The budget bounds the number of steps, `depth` the nesting that is left. -/
def readValue : (budget depth : Nat) → List Lexeme → Option (Value × List Lexeme)
  | 0, _, _ => none
  | _, _, .quoted text :: rest => some (.string text, rest)
  | _, _, .multiline text :: rest => some (.string text, rest)
  | budget + 1, depth + 1, .openBracket :: rest =>
      (readItems budget depth rest).map fun (items, rest) => (.array items, rest)
  | budget + 1, depth + 1, .openBrace :: rest =>
      (readEntries budget depth [] rest).map fun (entries, rest) =>
        (.table (entryValues entries), rest)
  | _, _, lexemes => readUnquoted? lexemes

/-- Reads the items of a list up to its closing bracket. -/
def readItems : (budget depth : Nat) → List Lexeme → Option (List Value × List Lexeme)
  | 0, _, _ => none
  | budget + 1, depth, lexemes =>
      match skipLayout lexemes with
      | .closeBracket :: rest => some ([], rest)
      | lexemes => do
          let (item, rest) ← readValue budget depth lexemes
          match skipLayout rest with
          | .closeBracket :: rest => some ([item], rest)
          | .comma :: rest =>
              (readItems budget depth rest).map fun (items, rest) => (item :: items, rest)
          | _ => none

/-- Reads the entries of a table up to its closing brace and adds them to those given. -/
def readEntries : (budget depth : Nat) → Entries → List Lexeme → Option (Entries × List Lexeme)
  | 0, _, _, _ => none
  | budget + 1, depth, entries, lexemes =>
      match skipLayout lexemes with
      | .closeBrace :: rest => some (entries, rest)
      | lexemes => do
          let (path, key, rest) ← readKeyPath? lexemes
          match rest with
          | .equals :: rest =>
              let (value, rest) ← readValue budget depth (skipBlank rest)
              let entries ← addValue path key value entries
              match skipLayout rest with
              | .closeBrace :: rest => some (entries, rest)
              | .comma :: rest => readEntries budget depth entries rest
              | _ => none
          | _ => none

end

/-- One statement of a document. -/
inductive Statement where
  /-- the header of a table, or of one more table of a list -/
  | header (listed : Bool) (path : List String) (key : String)
  /-- the value of a key -/
  | entry (path : List String) (key : String) (value : Value)

def readStatement? (lexemes : List Lexeme) : Option (Statement × List Lexeme) :=
  match lexemes with
  | .openBracket :: .openBracket :: rest => do
      match ← readKeyPath? rest with
      | (path, key, .closeBracket :: .closeBracket :: rest) => some (.header true path key, rest)
      | _ => none
  | .openBracket :: rest => do
      match ← readKeyPath? rest with
      | (path, key, .closeBracket :: rest) => some (.header false path key, rest)
      | _ => none
  | _ => do
      match ← readKeyPath? lexemes with
      | (path, key, .equals :: rest) =>
          -- two steps for each lexeme are enough
          let (value, rest) ← readValue (2 * rest.length + 2) nestingLimit (skipBlank rest)
          some (.entry path key value, rest)
      | _ => none

/-- The statements of a document, each on a line of its own. Each takes at least one lexeme, which
`budget` counts. -/
def statementsWithin : (budget : Nat) → List Lexeme → Option (List Statement)
  | 0, lexemes => if (skipLayout lexemes).isEmpty then some [] else none
  | budget + 1, lexemes =>
      match skipLayout lexemes with
      | [] => some []
      | lexemes => do
          let (statement, rest) ← readStatement? lexemes
          match skipBlank rest with
          | [] => some [statement]
          | .newline :: rest => (statementsWithin budget rest).map (statement :: ·)
          | _ => none

/-- A document under construction: its entries, and the path of the table that was headed last. -/
structure Draft where
  entries : Entries
  current : List String

def Draft.add (draft : Draft) : Statement → Option Draft
  | .header false path key => do
      some ⟨← addTable path key draft.entries, path ++ [key]⟩
  | .header true path key => do
      some ⟨← addListedTable path key draft.entries, path ++ [key]⟩
  | .entry path key value => do
      let enter (_ : Origin) (entries : Entries) : Option Entries :=
        addValue path key value entries
      some { draft with entries := ← within false enter draft.current .headed draft.entries }

/-- The table that a document describes, if it is well-formed. -/
def read? (text : String) : Option Table := do
  let lexemes ← lexemes text.toList
  let statements ← statementsWithin lexemes.length lexemes
  let draft ← statements.foldlM Draft.add ⟨[], []⟩
  some (entryValues draft.entries)

end Bindery.Toml
