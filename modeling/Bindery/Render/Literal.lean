import Bindery.Decimal.Shortest
import Bindery.Interface.Constant
import Bindery.Naming
import Bindery.Text.Blank
import Bindery.Text.Quoted

/-!
# Literals

How the value of a constant is written in C. A list is written as the JSON text of its items, within
one string literal.
-/

namespace Bindery

open Text

/-- The JSON text of a floating-point number: its shortest digits, written out between `10 ^ -5` and
`10 ^ 16` with at least one digit behind the point, and with an exponent elsewhere. -/
def Binary64.jsonText (x : Binary64) : String :=
  if x.isNaN || x.isInfinite then "null"
  else
    let sign := if x.isNegative then "-" else ""
    if x.magnitudeBits = 0 then sign ++ "0.0"
    else
      let decimal := x.shortest
      let digits := (toString decimal.digits).toList
      -- the power of ten that the first digit counts
      let order := decimal.exponent + (digits.length : Int) - 1
      let zeros (count : Int) : List Char := List.replicate count.toNat '0'
      let number : List Char :=
        if -5 ≤ order && order ≤ 15 then
          if order < 0 then ['0', '.'] ++ zeros (-order - 1) ++ digits
          else
            let whole := digits.take (order.toNat + 1)
            let fraction := digits.drop (order.toNat + 1)
            whole ++ zeros (order + 1 - digits.length) ++ ['.']
              ++ if fraction.isEmpty then ['0'] else fraction
        else
          digits.take 1 ++ (if digits.length = 1 then [] else '.' :: digits.drop 1)
            ++ ['e', if order < 0 then '-' else '+'] ++ (toString order.natAbs).toList
      sign ++ String.ofList number

namespace Toml.Value

mutual

def jsonText : Value → String
  | .string text => jsonQuoted text
  | .integer value => toString value
  | .float value => value.jsonText
  | .boolean value => if value then "true" else "false"
  | .datetime value => jsonQuoted value.text
  | .array items => "[" ++ join ", " (jsonItems items) ++ "]"
  | .table entries => "\x7b" ++ join ", " (jsonEntries entries) ++ "\x7d"

def jsonItems : List Value → List String
  | [] => []
  | item :: rest => item.jsonText :: jsonItems rest

/-- The JSON texts of the entries of a table. -/
def jsonEntries : List (String × Value) → List String
  | [] => []
  | (key, value) :: rest => (jsonQuoted key ++ ": " ++ value.jsonText) :: jsonEntries rest

end

end Toml.Value

namespace Constant.Value

def longLong : String := "long long"

/-- The literals of a value without a suffix. A text with line feeds has one literal for each of its
lines; a text that starts like a name of the interface is that name. -/
def plainLiterals : Constant.Value → List String
  | .integer value => [toString value]
  | .float value => [value.wholeText]
  | .line text =>
      [if Naming.apiPrefix.toList.isPrefixOf text.toList then text else cQuoted text]
  | .lines text =>
      (pieces (· = '\n') (trimEnd text.toList)).map fun line =>
        "\"" ++ escape (String.ofList line) ++ "\\n\""
  | .list items => [cQuoted ("[" ++ join ", " (Toml.Value.jsonItems items) ++ "]")]

/-- The literals of a value of a type, to be written one after the other. -/
def literals (value : Constant.Value) (type : String) : List String :=
  let parts := value.plainLiterals
  if type = longLong then parts.modify (parts.length - 1) (· ++ "ll") else parts

end Constant.Value

end Bindery
