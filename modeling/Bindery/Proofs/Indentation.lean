import Bindery.Listing
import Bindery.Proofs.Words

/-!
# Indentation

A listing is put together by a program of calls that add lines, some of them between the header and the close
of a block. Whatever the program, it leaves the level of the listing as it was, and indents each line it adds by
the level it started at and the number of blocks around the line.
-/

namespace Bindery

open Text

/-- The text of several levels of indentation. -/
def Indent.repeated (indent : Indent) : Nat → String
  | 0 => ""
  | level + 1 => indent.text ++ indent.repeated level

namespace Listing

theorem margin_eq_repeated (listing : Listing) : listing.margin = listing.indent.repeated listing.level := by
  obtain ⟨indent, level, lines⟩ := listing
  rw [← String.toList_inj, margin, toList_join_empty]
  induction level with
  | zero => rfl
  | succ level ih => rw [List.replicate_succ, List.flatMap_cons, ih, Indent.repeated, String.toList_append]

theorem text_eq_ofList (listing : Listing) :
    listing.text = String.ofList (listing.lines.flatMap fun line => line.toList ++ ['\n']) := by
  rw [← String.toList_inj, text, toList_join_empty, String.toList_ofList, List.flatMap_map]
  simp only [String.toList_append]
  rfl

/-! ## What calls add -/

/-- A function on listings adds lines at a level of indentation, and does nothing else. -/
def Adds (indent : Indent) (level : Nat) (steps : Listing → Listing) (added : List String) : Prop :=
  ∀ lines, steps ⟨indent, level, lines⟩ = ⟨indent, level, lines ++ added⟩

section Adds

variable {α β ε : Type} {indent : Indent} {level : Nat} {added others : List String} {steps body : Listing → Listing}

theorem adds_id : Adds indent level (fun listing => listing) [] := by
  intro lines
  rw [List.append_nil]

theorem adds_line (text : String) :
    Adds indent level (fun listing => listing.line text) [indent.repeated level ++ text] := by
  intro lines
  have hmargin := margin_eq_repeated ⟨indent, level, lines⟩
  simp only [line, hmargin]

theorem adds_blank : Adds indent level blank [""] := fun _ => rfl

theorem Adds.comp (hfirst : Adds indent level steps added) (hsecond : Adds indent level body others) :
    Adds indent level (fun listing => body (steps listing)) (added ++ others) := by
  intro lines
  calc body (steps ⟨indent, level, lines⟩)
      = body ⟨indent, level, lines ++ added⟩ := congrArg body (hfirst lines)
    _ = ⟨indent, level, lines ++ added ++ others⟩ := hsecond _
    _ = ⟨indent, level, lines ++ (added ++ others)⟩ := by rw [List.append_assoc]

theorem adds_addLines (texts : List String) : Adds indent level (fun listing => listing.addLines texts)
    (texts.map (indent.repeated level ++ ·)) := by
  induction texts with
  | nil => exact adds_id
  | cons text rest ih => exact (adds_line text).comp ih

/-- The text of a comment line behind its margin. -/
def commentText (mark text : String) : String := if text.isEmpty then mark else mark ++ " " ++ text

theorem adds_doc (mark text : String) : Adds indent level (fun listing => listing.doc mark text)
    [indent.repeated level ++ commentText mark text] := by
  unfold doc commentText
  split
  · exact adds_line mark
  · exact adds_line _

theorem Adds.when (condition : Bool) (h : Adds indent level body added) :
    Adds indent level (fun listing => listing.when condition body) (if condition then added else []) := by
  cases condition with
  | false => exact adds_id
  | true => exact h

theorem Adds.each {body : Listing → α → Listing} {added : α → List String}
    (h : ∀ item, Adds indent level (fun listing => body listing item) (added item)) (items : List α) :
    Adds indent level (fun listing => listing.each items body) (items.flatMap added) := by
  induction items with
  | nil => exact adds_id
  | cons item rest ih => exact (h item).comp ih

/-- Behind the body of a block the level is not the outermost, so it goes back to what it was. -/
theorem block_eq {lines : List String} {header : String} (close : String)
    (hbody : body ⟨indent, level + 1, lines ++ [indent.repeated level ++ header]⟩ =
      ⟨indent, level + 1, (lines ++ [indent.repeated level ++ header]) ++ added⟩) :
    block ⟨indent, level, lines⟩ header close body = ⟨indent, level,
      lines ++ ((indent.repeated level ++ header) :: added ++ [indent.repeated level ++ close])⟩ := by
  let opened := lines ++ [indent.repeated level ++ header]
  have hheader : (line ⟨indent, level, lines⟩ header).deeper = ⟨indent, level + 1, opened⟩ :=
    congrArg deeper (adds_line header lines)
  calc (body (line ⟨indent, level, lines⟩ header).deeper).shallower.line close
      = (shallower ⟨indent, level + 1, opened ++ added⟩).line close := by rw [hheader, hbody]
    _ = ⟨indent, level, opened ++ added ++ [indent.repeated level ++ close]⟩ := adds_line close _
    _ = _ := by simp [opened]

theorem Adds.block (header close : String) (h : Adds indent (level + 1) body added) :
    Adds indent level (fun listing => listing.block header close body)
      ((indent.repeated level ++ header) :: added ++ [indent.repeated level ++ close]) :=
  fun _ => block_eq close (h _)

/-- A loop with steps that may fail is one over what is made of the items, unless of one of them nothing is
made. -/
theorem tryEach_eq_map (listing : Listing) (items : List α) (make : α → Except ε β) (body : Listing → β → Listing) :
    (listing.tryEach items fun inner item => (make item).map (body inner)) =
      (items.mapM make).map fun made => listing.each made body := by
  induction items generalizing listing with
  | nil => rfl
  | cons item rest ih =>
      rw [tryEach, List.foldlM_cons, List.mapM_cons]
      cases make item with
      | error problem => rfl
      | ok made =>
          have hrest : rest.foldlM (fun inner item => (make item).map (body inner)) (body listing made) =
              (rest.mapM make).map fun others => (body listing made).each others body := ih _
          change rest.foldlM _ (body listing made) = _
          rw [hrest]
          cases rest.mapM make <;> rfl

end Adds

/-! ## Programs -/

/-- Calls that put a listing together, none of which sets the level. -/
inductive Program : Type 1 where
  | done
  | line (text : String)
  | lines (texts : List String)
  | blank
  | doc (mark text : String)
  | when (condition : Bool) (body : Program)
  | each {α : Type} (items : List α) (body : α → Program)
  /-- a loop that fails with the first item of which nothing is made; the program then goes on with the
  listing as it was before the loop -/
  | tryEach {α β ε : Type} (items : List α) (make : α → Except ε β) (body : β → Program) (otherwise : ε → Program)
  | block (header close : String) (body : Program)
  | followedBy (first second : Program)

namespace Program

def run : Program → Listing → Listing
  | .done, listing => listing
  | .line text, listing => listing.line text
  | .lines texts, listing => listing.addLines texts
  | .blank, listing => listing.blank
  | .doc mark text, listing => listing.doc mark text
  | .when condition body, listing => listing.when condition body.run
  | .each items body, listing => listing.each items fun inner item => (body item).run inner
  | .tryEach items make body otherwise, listing =>
      match listing.tryEach items fun inner item => (make item).map fun made => (body made).run inner with
      | .ok next => next
      | .error problem => (otherwise problem).run listing
  | .block header close body, listing => listing.block header close body.run
  | .followedBy first second, listing => second.run (first.run listing)

/-- A line that a program adds. -/
inductive Entry where
  | blank
  /-- a text, and the number of blocks around it -/
  | indented (blocks : Nat) (text : String)
deriving DecidableEq, Repr

/-- The line of an entry, in a listing that starts at a level. -/
def Entry.written (indent : Indent) (level : Nat) : Entry → String
  | .blank => ""
  | .indented blocks text => indent.repeated (level + blocks) ++ text

/-- The lines that a program adds, when it stands in a number of blocks. -/
def entries : Program → Nat → List Entry
  | .done, _ => []
  | .line text, blocks => [.indented blocks text]
  | .lines texts, blocks => texts.map (.indented blocks)
  | .blank, _ => [.blank]
  | .doc mark text, blocks => [.indented blocks (commentText mark text)]
  | .when condition body, blocks => if condition then body.entries blocks else []
  | .each items body, blocks => items.flatMap fun item => (body item).entries blocks
  | .tryEach items make body otherwise, blocks =>
      match items.mapM make with
      | .ok made => made.flatMap fun result => (body result).entries blocks
      | .error problem => (otherwise problem).entries blocks
  | .block header close body, blocks => .indented blocks header :: body.entries (blocks + 1) ++ [.indented blocks close]
  | .followedBy first second, blocks => first.entries blocks ++ second.entries blocks

/-- In a number of blocks, a program adds its lines and keeps the level. -/
theorem adds_run (program : Program) (indent : Indent) (level blocks : Nat) :
    Adds indent (level + blocks) program.run ((program.entries blocks).map (Entry.written indent level)) := by
  induction program generalizing blocks with
  | done => exact adds_id
  | line text => exact adds_line text
  | lines texts =>
      rw [entries, List.map_map]
      exact adds_addLines texts
  | blank => exact adds_blank
  | doc mark text => exact adds_doc mark text
  | when condition body ih =>
      have hadds := Adds.when condition (ih blocks)
      rw [entries]
      cases condition <;> exact hadds
  | each items body ih =>
      rw [entries, List.map_flatMap]
      exact Adds.each (fun item => ih item blocks) items
  | tryEach items make body otherwise ihbody ihotherwise =>
      intro lines
      rw [run, tryEach_eq_map, entries]
      cases items.mapM make with
      | error problem => exact ihotherwise problem blocks lines
      | ok made =>
          have hadds := Adds.each (fun result => ihbody result blocks) made lines
          rw [← List.map_flatMap] at hadds
          exact hadds
  | block header close body ih =>
      rw [entries, List.map_append, List.map_cons]
      exact Adds.block header close (ih (blocks + 1))
  | followedBy first second ihfirst ihsecond =>
      rw [entries, List.map_append]
      exact (ihfirst blocks).comp (ihsecond blocks)

/-- Whatever a program adds to a listing, level and indentation stay, be its loops such that end or such that fail.
Each line is blank, or a text indented by the level and once more for every block around it. The text of the
listing is that of its lines, each ended by a line feed. -/
theorem run_indents (program : Program) (listing : Listing) :
    (program.run listing).level = listing.level ∧ (program.run listing).indent = listing.indent ∧
      (program.run listing).lines =
        listing.lines ++ (program.entries 0).map (Entry.written listing.indent listing.level) ∧
      (program.run listing).text =
        String.ofList ((program.run listing).lines.flatMap fun line => line.toList ++ ['\n']) := by
  have hrun : program.run listing = ⟨listing.indent, listing.level,
      listing.lines ++ (program.entries 0).map (Entry.written listing.indent listing.level)⟩ :=
    program.adds_run listing.indent listing.level 0 listing.lines
  refine ⟨?_, ?_, ?_, text_eq_ofList _⟩ <;> rw [hrun]

/-- A loop within a block, in a listing that starts at the first level. -/
example :
    (run (.block "switch (x) \x7b" "\x7d" (.each ["a", "b"] fun name =>
        .followedBy (.block name ";" (.doc "//" name)) .blank)) ⟨.tab, 1, []⟩).lines =
      ["\tswitch (x) \x7b", "\t\ta", "\t\t\t// a", "\t\t;", "", "\t\tb", "\t\t\t// b", "\t\t;", "",
        "\t\x7d"] := by
  decide

end Program

end Listing

end Bindery
