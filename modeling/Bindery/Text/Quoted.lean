import Bindery.Text.Search

/-!
# Quoted text

The forms in which a text stands between quotes: in a C literal, in a Python literal and in JSON.
-/

namespace Bindery.Text

/-- One character inside a C string literal: a backslash, a double quote and a tab are escaped. -/
def escapeChar : Char → List Char
  | '\\' => ['\\', '\\']
  | '"' => ['\\', '"']
  | '\t' => ['\\', 't']
  | c => [c]

/-- A text as it stands between the quotes of a C string literal. -/
def escape (text : String) : String := String.ofList (text.toList.flatMap escapeChar)

def cQuoted (text : String) : String := "\"" ++ escape text ++ "\""

def pythonChar : Char → List Char
  | '\\' => ['\\', '\\']
  | '\'' => ['\\', '\'']
  | c => [c]

def pythonQuoted (text : String) : String :=
  "'" ++ String.ofList (text.toList.flatMap pythonChar) ++ "'"

def hexDigit (n : Nat) : Char :=
  if n < 10 then Char.ofNat (n + 0x30) else Char.ofNat (n - 10 + 0x61)

/-- One character inside a JSON string: quotes, backslashes and control characters are escaped. -/
def jsonChar (c : Char) : List Char :=
  match c with
  | '"' => ['\\', '"']
  | '\\' => ['\\', '\\']
  | '\x08' => ['\\', 'b']
  | '\x0c' => ['\\', 'f']
  | '\n' => ['\\', 'n']
  | '\r' => ['\\', 'r']
  | '\t' => ['\\', 't']
  | c =>
      if c.toNat < 0x20 then
        ['\\', 'u', '0', '0', hexDigit (c.toNat / 16), hexDigit (c.toNat % 16)]
      else [c]

def jsonQuoted (text : String) : String :=
  "\"" ++ String.ofList (text.toList.flatMap jsonChar) ++ "\""

end Bindery.Text
