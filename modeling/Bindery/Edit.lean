import Bindery.Path

/-!
# Edits

An edit gives a block of a file its new lines. Edits of one file are put into one group.
-/

namespace Bindery

/-- The new lines of one block. -/
structure Edit where
  path : Path
  block : Nat
  lines : List String
deriving DecidableEq, Repr

/-- The edits of one file. -/
structure FileEdits where
  path : Path
  blocks : List (Nat × List String)
deriving DecidableEq, Repr

namespace FileEdits

/-- The groups with an edit put to those of its file; a new file comes last. -/
def add (edit : Edit) : List FileEdits → List FileEdits
  | [] => [⟨edit.path, [(edit.block, edit.lines)]⟩]
  | group :: rest =>
      if group.path.same edit.path then
        { group with blocks := group.blocks ++ [(edit.block, edit.lines)] } :: rest
      else group :: add edit rest

/-- The edits of each file: files in the order in which they are first named, with that spelling, and
the edits of each in their order. -/
def ofEdits (edits : List Edit) : List FileEdits :=
  edits.foldl (fun groups edit => add edit groups) []

end FileEdits

end Bindery
