import Bindery.Text.Search

/-!
# Blank characters

A character is blank when it has the Unicode property `White_Space`. Trimming removes blank
characters at the ends of a text; its words are the runs of other characters.
-/

namespace Bindery.Text

/-- The property `White_Space`. -/
def isBlank (c : Char) : Bool :=
  let n := c.toNat
  (0x09 ≤ n && n ≤ 0x0d) || n = 0x20 || n = 0x85 || n = 0xa0 || n = 0x1680
    || (0x2000 ≤ n && n ≤ 0x200a) || n = 0x2028 || n = 0x2029 || n = 0x202f || n = 0x205f
    || n = 0x3000

/-- The text without the blank characters at its start. -/
def trimStart (text : List Char) : List Char := text.dropWhile isBlank

/-- The text without the blank characters at its end. -/
def trimEnd (text : List Char) : List Char := (text.reverse.dropWhile isBlank).reverse

/-- The text without the blank characters at its ends. -/
def trim (text : List Char) : List Char := trimEnd (trimStart text)

/-- Whether nothing is left of the text when it is trimmed. -/
def isBlankText (text : String) : Bool := text.toList.all isBlank

/-- The runs of characters that are not blank. -/
def words (text : List Char) : List (List Char) :=
  (pieces isBlank text).filter fun word => !word.isEmpty

/-- The words of a text with single spaces between them. -/
def singleLine (text : String) : String :=
  join " " ((words text.toList).map String.ofList)

end Bindery.Text
