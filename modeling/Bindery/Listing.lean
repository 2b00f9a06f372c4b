import Bindery.Text.Search

/-!
# Listings

Lines of code that are put together one after the other, each indented by the level at which it is
added. Blank lines are not indented.
-/

namespace Bindery

/-- How a level of indentation is written. -/
inductive Indent where
  | spaces (width : Nat)
  | tab
deriving DecidableEq, Repr

namespace Indent

def narrow : Indent := .spaces 2

def wide : Indent := .spaces 4

/-- The text of one level: two, four or eight spaces, or a tab. Other widths count as four. -/
def text : Indent → String
  | .spaces width =>
      if width = 2 then "  "
      else if width = 8 then "        "
      else "    "
  | .tab => "\t"

end Indent

/-- Lines put together so far, and the level at which the next one is added. -/
structure Listing where
  indent : Indent
  level : Nat
  lines : List String
deriving Repr

namespace Listing

def empty (indent : Indent) : Listing := ⟨indent, 0, []⟩

/-- The text before a line at the current level. -/
def margin (listing : Listing) : String :=
  Text.join "" (List.replicate listing.level listing.indent.text)

def line (listing : Listing) (text : String) : Listing :=
  { listing with lines := listing.lines ++ [listing.margin ++ text] }

def addLines (listing : Listing) (texts : List String) : Listing :=
  texts.foldl line listing

def blank (listing : Listing) : Listing :=
  { listing with lines := listing.lines ++ [""] }

def atLevel (listing : Listing) (level : Nat) : Listing := { listing with level }

def deeper (listing : Listing) : Listing := { listing with level := listing.level + 1 }

/-- Goes one level back, but not beyond the outermost. -/
def shallower (listing : Listing) : Listing := { listing with level := listing.level - 1 }

/-- Adds lines one level deeper, between a line that opens and one that closes. -/
def block (listing : Listing) (header close : String) (body : Listing → Listing) : Listing :=
  (body (listing.line header).deeper).shallower.line close

/-- Adds a comment line; the mark stands alone when there is no text. -/
def doc (listing : Listing) (mark text : String) : Listing :=
  if text.isEmpty then listing.line mark else listing.line (mark ++ " " ++ text)

def when (listing : Listing) (condition : Bool) (body : Listing → Listing) : Listing :=
  if condition then body listing else listing

def each {α : Type} (listing : Listing) (items : List α) (body : Listing → α → Listing) : Listing :=
  items.foldl body listing

/-- Adds lines for each item, unless that fails for one of them. -/
def tryEach {α ε : Type} (listing : Listing) (items : List α)
    (body : Listing → α → Except ε Listing) : Except ε Listing :=
  items.foldlM body listing

/-- The text of a listing, each line ended by a line feed. -/
def text (listing : Listing) : String :=
  Text.join "" (listing.lines.map (· ++ "\n"))

end Listing

end Bindery
