import Bindery.Toml.Number

/-!
# Lexemes of a document

The text of a document is read as a list of lexemes: punctuation, blanks, line breaks, quoted texts
and bare runs of other characters. Comments are checked and left out.
-/

namespace Bindery.Toml

/-- One piece of a document's text. -/
inductive Lexeme where
  | newline
  | blank (spaces : Nat)
  | comma
  | dot
  | equals
  | openBracket
  | closeBracket
  | openBrace
  | closeBrace
  /-- a text quoted on one line -/
  | quoted (text : String)
  /-- a text quoted over several lines -/
  | multiline (text : String)
  | bare (text : List Char)
deriving DecidableEq, Repr

/-- A text read so far and the characters that follow it. -/
abbrev Reading := Option (List Char × List Char)

/-- Puts characters in front of what was read. -/
def Reading.prepend (chars : List Char) (reading : Reading) : Reading :=
  reading.map fun (text, rest) => (chars ++ text, rest)

/-- Whether a character may stand in a comment or within quotes. -/
def isPlain (c : Char) : Bool := c = '\t' || (0x20 ≤ c.toNat && c.toNat ≠ 0x7f)

/-- The character with a code, unless the code belongs to none. -/
def charOfCode? (code : Nat) : Option Char :=
  if code.isValidChar then some (Char.ofNat code) else none

/-- The character whose code is spelled by hexadecimal digits. -/
def charOfHex? (digits : List Char) : Option Char :=
  if digits.all (isDigitOf 16) then charOfCode? (valueOf 16 digits) else none

/-- The character that one letter behind a backslash stands for. -/
def escaped? : Char → Option Char
  | 'b' => some '\x08'
  | 't' => some '\t'
  | 'n' => some '\n'
  | 'f' => some '\x0c'
  | 'r' => some '\r'
  | 'e' => some '\x1b'
  | '"' => some '"'
  | '\\' => some '\\'
  | _ => none

/-- Reads up to the double quote that ends a text on one line. -/
def readBasic : List Char → Reading
  | '"' :: rest => some ([], rest)
  | '\\' :: 'x' :: a :: b :: rest =>
      (charOfHex? [a, b]).bind fun c => (readBasic rest).prepend [c]
  | '\\' :: 'u' :: a :: b :: c :: d :: rest =>
      (charOfHex? [a, b, c, d]).bind fun c => (readBasic rest).prepend [c]
  | '\\' :: 'U' :: a :: b :: c :: d :: e :: f :: g :: h :: rest =>
      (charOfHex? [a, b, c, d, e, f, g, h]).bind fun c => (readBasic rest).prepend [c]
  | '\\' :: c :: rest => (escaped? c).bind fun c => (readBasic rest).prepend [c]
  | c :: rest => if isPlain c && c ≠ '\\' then (readBasic rest).prepend [c] else none
  | [] => none

/-- Reads up to the single quote that ends a text on one line. -/
def readLiteral : List Char → Reading
  | [] => none
  | c :: rest =>
      if c = '\'' then some ([], rest)
      else if isPlain c then (readLiteral rest).prepend [c]
      else none

/-- Whether only blanks stand before the end of the line. -/
def blankToLineEnd (text : List Char) : Bool :=
  match text.dropWhile fun c => c = ' ' || c = '\t' with
  | '\n' :: _ | '\r' :: '\n' :: _ => true
  | _ => false

/-- Reads up to the three double quotes that end a text over several lines; one or two quotes before
them belong to the text. While `folding`, blanks and line breaks are skipped. -/
def readMultiBasic (folding : Bool) : List Char → Reading
  | '"' :: '"' :: '"' :: '"' :: '"' :: rest => some (['"', '"'], rest)
  | '"' :: '"' :: '"' :: '"' :: rest => some (['"'], rest)
  | '"' :: '"' :: '"' :: rest => some ([], rest)
  | '\r' :: '\n' :: rest =>
      if folding then readMultiBasic true rest
      else (readMultiBasic false rest).prepend ['\r', '\n']
  | '\\' :: 'x' :: a :: b :: rest =>
      (charOfHex? [a, b]).bind fun c => (readMultiBasic false rest).prepend [c]
  | '\\' :: 'u' :: a :: b :: c :: d :: rest =>
      (charOfHex? [a, b, c, d]).bind fun c => (readMultiBasic false rest).prepend [c]
  | '\\' :: 'U' :: a :: b :: c :: d :: e :: f :: g :: h :: rest =>
      (charOfHex? [a, b, c, d, e, f, g, h]).bind fun c => (readMultiBasic false rest).prepend [c]
  | '\\' :: c :: rest =>
      match escaped? c with
      | some c => (readMultiBasic false rest).prepend [c]
      | none => if blankToLineEnd (c :: rest) then readMultiBasic true rest else none
  | c :: rest =>
      if folding && (c = ' ' || c = '\t' || c = '\n') then readMultiBasic true rest
      else if (isPlain c || c = '\n') && c ≠ '\\' then (readMultiBasic false rest).prepend [c]
      else none
  | [] => none

/-- Reads up to the three single quotes that end a text over several lines; one or two quotes before
them belong to the text. -/
def readMultiLiteral : List Char → Reading
  | '\'' :: '\'' :: '\'' :: '\'' :: '\'' :: rest => some (['\'', '\''], rest)
  | '\'' :: '\'' :: '\'' :: '\'' :: rest => some (['\''], rest)
  | '\'' :: '\'' :: '\'' :: rest => some ([], rest)
  | '\r' :: '\n' :: rest => (readMultiLiteral rest).prepend ['\r', '\n']
  | c :: rest =>
      if isPlain c || c = '\n' then (readMultiLiteral rest).prepend [c] else none
  | [] => none

/-- A text over several lines does not have the line break right behind its opening quotes. -/
def skipFirstBreak : List Char → List Char
  | '\n' :: rest => rest
  | '\r' :: '\n' :: rest => rest
  | text => text

/-- The text behind a comment, which runs to the end of the line. -/
def skipComment? (text : List Char) : Option (List Char) :=
  let body := text.takeWhile (· ≠ '\n')
  let rest := text.dropWhile (· ≠ '\n')
  let checked := if rest.isEmpty then body else Text.dropCarriageReturn body
  if checked.all isPlain then some rest else none

/-- Whether a character belongs to a bare run. -/
def isBare (c : Char) : Bool := c ∉ ['.', '=', ',', '[', ']', '{', '}', ' ', '\t', '\n', '\r', '#',
  '"', '\'']

/-- The first lexeme of a text that is not empty and starts with no comment, and what follows. -/
def readLexeme : List Char → Option (Lexeme × List Char)
  | '\n' :: rest => some (.newline, rest)
  | '\r' :: '\n' :: rest => some (.newline, rest)
  | ',' :: rest => some (.comma, rest)
  | '.' :: rest => some (.dot, rest)
  | '=' :: rest => some (.equals, rest)
  | '[' :: rest => some (.openBracket, rest)
  | ']' :: rest => some (.closeBracket, rest)
  | '{' :: rest => some (.openBrace, rest)
  | '}' :: rest => some (.closeBrace, rest)
  | '"' :: '"' :: '"' :: rest =>
      (readMultiBasic false (skipFirstBreak rest)).map fun (text, rest) =>
        (.multiline (String.ofList text), rest)
  | '\'' :: '\'' :: '\'' :: rest =>
      (readMultiLiteral (skipFirstBreak rest)).map fun (text, rest) =>
        (.multiline (String.ofList text), rest)
  | '"' :: rest => (readBasic rest).map fun (text, rest) => (.quoted (String.ofList text), rest)
  | '\'' :: rest => (readLiteral rest).map fun (text, rest) => (.quoted (String.ofList text), rest)
  | text =>
      -- only one space may stand between a date and a time, so it is kept apart from longer blanks
      let blanks := text.takeWhile fun c => c = ' ' || c = '\t'
      let run := text.takeWhile isBare
      if !blanks.isEmpty then
        some (.blank (if blanks = [' '] then 1 else 2), text.drop blanks.length)
      else if !run.isEmpty then some (.bare run, text.drop run.length)
      else none

/-- The lexemes of a text; each takes at least one of its characters, which `budget` counts. -/
def lexemesWithin : (budget : Nat) → List Char → Option (List Lexeme)
  | _, [] => some []
  | 0, _ :: _ => none
  | budget + 1, '#' :: rest => (skipComment? rest).bind (lexemesWithin budget)
  | budget + 1, text => do
      let (lexeme, rest) ← readLexeme text
      let others ← lexemesWithin budget rest
      some (lexeme :: others)

/-- The lexemes of a document, which a byte order mark may precede. -/
def lexemes (text : List Char) : Option (List Lexeme) :=
  match text with
  | '\ufeff' :: rest => lexemesWithin rest.length rest
  | _ => lexemesWithin text.length text

end Bindery.Toml
