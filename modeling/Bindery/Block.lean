import Bindery.Checkout.Error
import Bindery.Text.Search

/-!
# Blocks

A block is what stands between the line with a begin marker and the next line with an end marker.
The lines with the markers may hold any other text and are never changed. A text is laid out as the
blocks found in it from the start, each with the text that leads up to its body, and a rest; putting
the layout together again gives back the text.
-/

namespace Bindery

open Text

/-- What a line that opens a block contains. -/
def beginMarker : List Char := ":CODEGEN_BEGIN:".toList

/-- What a line that closes a block contains. -/
def endMarker : List Char := ":CODEGEN_END:".toList

/-- A block with the text around it. -/
structure Block where
  /-- everything since the end of the block before, with the whole line that opens this one -/
  opening : List Char
  /-- the lines of the block -/
  body : List Char
  /-- the line that closes the block, up to the end of its marker -/
  closing : List Char
deriving DecidableEq, Repr

namespace Block

/-- The block with all the text around it. -/
def text (block : Block) : List Char := block.opening ++ block.body ++ block.closing

/-- A body made of lines, each ended by a line feed. -/
def bodyOfLines (lines : List String) : List Char :=
  lines.flatMap fun line => line.toList ++ ['\n']

/-- What is found in a text when it is searched for a block. -/
inductive Scan where
  /-- there is no complete pair of markers -/
  | nothing
  /-- after `lead` a block opens, and another one opens before an end marker -/
  | unclosed (lead : List Char)
  /-- the first block, and the text behind it -/
  | found (block : Block) (rest : List Char)
deriving DecidableEq, Repr

/-- Searches a text for its first block. -/
def scan (text : List Char) : Scan :=
  match cut? beginMarker text with
  | none => .nothing
  | some (lead, marked) =>
      -- the body starts on the line behind the marker
      match marked.dropWhile (· ≠ '\n') with
      | [] => .nothing
      | _ :: inner =>
          match cut? endMarker inner with
          | none => .nothing
          | some (covered, marked') =>
              -- the end marker is that of a block that opens further down
              if occurs beginMarker covered then .unclosed lead
              else
                let (body, edge) := splitLastLine covered
                .found
                  { opening := lead ++ marked.takeWhile (· ≠ '\n') ++ ['\n']
                    body := body
                    closing := edge ++ endMarker }
                  (marked'.drop endMarker.length)

/-- What follows a block is shorter than the text in which the block was found. -/
theorem length_lt_of_scan_eq_found {text rest : List Char} {block : Block}
    (h : scan text = .found block rest) : rest.length < text.length := by
  unfold scan at h
  split at h
  · cases h
  next lead marked hlead =>
    split at h
    · cases h
    next c inner hinner =>
      split at h
      · cases h
      next covered marked' hcovered =>
        split at h
        · cases h
        · simp only [Scan.found.injEq] at h
          have houter := length_of_cut?_eq_some hlead
          have hinside := length_of_cut?_eq_some hcovered
          have hline : (c :: inner).length ≤ marked.length := by
            rw [← hinner]
            exact (List.dropWhile_sublist _).length_le
          rw [← h.2, List.length_drop]
          simp only [List.length_cons] at hline
          omega

end Block

/-- A text taken apart into its blocks. -/
structure Layout where
  blocks : List Block
  /-- the text behind the last block -/
  rest : List Char
  /-- if a block opens in the rest without being closed: the text of the rest before it -/
  unclosed : Option (List Char)
deriving DecidableEq, Repr

namespace Layout

def ofText (text : List Char) : Layout :=
  match h : Block.scan text with
  | .nothing => ⟨[], text, none⟩
  | .unclosed lead => ⟨[], text, some lead⟩
  | .found block rest =>
      have : rest.length < text.length := Block.length_lt_of_scan_eq_found h
      let layout := ofText rest
      { layout with blocks := block :: layout.blocks }
termination_by text.length

def text (layout : Layout) : List Char :=
  layout.blocks.flatMap Block.text ++ layout.rest

/-- The number of the line on which a block opens that is not closed. -/
def unclosedLine? (layout : Layout) : Option Nat :=
  layout.unclosed.map fun lead =>
    (layout.blocks.flatMap Block.text ++ lead).count '\n' + 1

/-- The layout with the body of one block replaced. -/
def setBody (layout : Layout) (index : Nat) (body : List Char) : Layout :=
  { layout with blocks := layout.blocks.modify index fun block => { block with body := body } }

end Layout

namespace Block

def count (text : String) : Nat := (Layout.ofText text.toList).blocks.length

/-- The text with the body of one block, counted from zero, replaced by lines. The path is only
named in the error. -/
def splice (path : Path) (text : String) (index : Nat) (lines : List String) :
    Except FileError String :=
  let layout := Layout.ofText text.toList
  if index < layout.blocks.length then
    .ok (String.ofList (layout.setBody index (bodyOfLines lines)).text)
  else
    match layout.unclosedLine? with
    | some line => .error (.unclosedBlock path layout.blocks.length line)
    | none => .error (.noSuchBlock path index layout.blocks.length)

/-- The text after several blocks are replaced, one after the other. -/
def spliceAll (path : Path) (text : String) (blocks : List (Nat × List String)) :
    Except FileError String :=
  blocks.foldlM (fun text (index, lines) => splice path text index lines) text

end Block

end Bindery
