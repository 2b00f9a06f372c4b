import Bindery.Proofs.Applying
import Bindery.Proofs.Changes
import Bindery.Proofs.Edits
import Bindery.Proofs.Splice

/-!
# Interleaved edits

Edits of several files may come in any order, and a block may come more than once. Carried out file by
file, with each file written once, they have the same effect as one at a time: what becomes of a file
depends only on its own edits, and grouping keeps their order.
-/

namespace Bindery

open Checkout

namespace Path

variable {path other : Path}

theorem same_comm (path other : Path) : path.same other = other.same path :=
  decide_eq_decide.mpr eq_comm

/-- Texts that are the same path lead to the same place. -/
theorem location_eq_of_same (h : path.same other) : path.location = other.location := by
  rw [location, same_iff.mp h, location]

end Path

/-- A further item is left out if one that is like it came before. -/
theorem eraseDupsBy_append_singleton {α : Type} (alike : α → α → Bool) (items : List α) (item : α) :
    (items ++ [item]).eraseDupsBy alike =
      if (items.eraseDupsBy alike).any (alike item) then items.eraseDupsBy alike
      else items.eraseDupsBy alike ++ [item] := by
  let keep (kept : List α) (item : α) : List α := if kept.any (alike item) then kept else item :: kept
  have hfold (items kept : List α) :
      List.eraseDupsBy.loop alike items kept = (items.foldl keep kept).reverse := by
    induction items generalizing kept with
    | nil => rfl
    | cons first rest ih =>
        rw [List.eraseDupsBy.loop, List.foldl_cons]
        split
        next hany => rw [ih, show keep kept first = kept from if_pos hany]
        next hany =>
          have hnew : keep kept first = first :: kept := if_neg (ne_true_of_eq_false hany)
          rw [ih, hnew]
  rw [List.eraseDupsBy, List.eraseDupsBy, hfold, hfold, List.foldl_append, List.any_reverse]
  simp only [List.foldl_cons, List.foldl_nil, keep]
  split
  next => rfl
  next => rw [List.reverse_cons]

namespace Block

variable {path other : Path} {text result : String} {index : Nat} {lines : List String}
  {blocks : List (Nat × List String)}

theorem spliceAll_cons :
    spliceAll path text ((index, lines) :: blocks) = .ok result ↔
      ∃ middle, splice path text index lines = .ok middle ∧ spliceAll path middle blocks = .ok result := by
  rw [spliceAll, List.foldlM_cons, except_bind_eq_ok_iff]
  rfl

/-- The path is only named in the error. -/
theorem splice_eq_ok_iff_of_path :
    splice path text index lines = .ok result ↔ splice other text index lines = .ok result := by
  rw [splice_eq_ok_iff, splice_eq_ok_iff]

end Block

/-- The revision that an edit calls for by itself. -/
def Edit.revision (edit : Edit) : Revision where
  path := edit.path
  change := Work.finished Finisher.identity edit.path [(edit.block, edit.lines)]

/-- An edit, under the parts of its path. -/
def Edit.placed (edit : Edit) : List Path.Part × Nat × List String :=
  (edit.path.parts, edit.block, edit.lines)

namespace FileEdits

variable {edits : List Edit} {edit : Edit} {groups : List FileEdits} {location : Location}

/-- The revision that the edits of a file call for together. -/
def ownRevision (group : FileEdits) : Revision where
  path := group.path
  change := Work.finished Finisher.identity group.path group.blocks

/-- The edits of a group, each under the parts of the path. -/
def placed (group : FileEdits) : List (List Path.Part × Nat × List String) :=
  group.blocks.map fun block => (group.path.parts, block)

theorem ofEdits_append_singleton (edits : List Edit) (edit : Edit) :
    ofEdits (edits ++ [edit]) = add edit (ofEdits edits) := by
  rw [ofEdits, List.foldl_append]
  rfl

theorem map_path_add (edit : Edit) (groups : List FileEdits) :
    (add edit groups).map FileEdits.path =
      if (groups.map FileEdits.path).any edit.path.same then groups.map FileEdits.path
      else groups.map FileEdits.path ++ [edit.path] := by
  induction groups with
  | nil => rfl
  | cons first rest ih =>
      rw [add, List.map_cons, List.any_cons, Path.same_comm edit.path first.path]
      by_cases hsame : first.path.same edit.path
      · simp [hsame]
      · simp only [hsame, Bool.false_eq_true, if_false, List.map_cons, ih, Bool.false_or]
        split <;> rfl

/-- Files come in the order in which they are first named, each with the first spelling of its path. -/
theorem map_path_ofEdits (edits : List Edit) :
    (ofEdits edits).map FileEdits.path = (edits.map Edit.path).eraseDupsBy Path.same := by
  induction edits using List.reverseRecOn with
  | nil => rfl
  | append_singleton edits edit ih =>
      rw [ofEdits_append_singleton, map_path_add, ih, List.map_append, List.map_singleton,
        eraseDupsBy_append_singleton]

theorem placed_add (edit : Edit) (groups : List FileEdits) :
    ((add edit groups).flatMap placed).Perm (groups.flatMap placed ++ [edit.placed]) := by
  induction groups with
  | nil => exact .refl _
  | cons first rest ih =>
      rw [add]
      split
      next hsame =>
        have hplaced : placed { first with blocks := first.blocks ++ [(edit.block, edit.lines)] } =
            first.placed ++ [edit.placed] := by
          rw [placed, List.map_append, placed, Edit.placed, ← Path.same_iff.mp hsame]
          rfl
        rw [List.flatMap_cons, List.flatMap_cons, hplaced, List.append_assoc, List.append_assoc]
        exact List.perm_append_comm.append_left first.placed
      next =>
        rw [List.flatMap_cons, List.flatMap_cons, List.append_assoc]
        exact ih.append_left first.placed

/-- The groups have the edits that there are, each once. -/
theorem placed_ofEdits (edits : List Edit) :
    ((ofEdits edits).flatMap placed).Perm (edits.map Edit.placed) := by
  induction edits using List.reverseRecOn with
  | nil => exact .refl _
  | append_singleton edits edit ih =>
      rw [ofEdits_append_singleton, List.map_append, List.map_singleton]
      exact (placed_add edit (ofEdits edits)).trans (ih.append_right _)

/-- Paths of edits that are not the same name different files. -/
def NamesApart (edits : List Edit) : Prop :=
  ∀ edit ∈ edits, ∀ other ∈ edits, edit.path.location = other.path.location → edit.path.same other.path

theorem NamesApart.nodup_locations (h : NamesApart edits) :
    (((ofEdits edits).map ownRevision).map Revision.location).Nodup := by
  have hgrouped := grouped_ofEdits edits
  have hdistinct := List.pairwise_map.mp hgrouped.distinct
  rw [List.map_map, List.Nodup, List.pairwise_map]
  apply hdistinct.imp_of_mem
  intro first second hfirst hsecond hdifferent hsame
  obtain ⟨edit, hedit, hpath⟩ := hgrouped.named first hfirst
  obtain ⟨other, hother, hpath'⟩ := hgrouped.named second hsecond
  refine hdifferent ?_
  rw [← hpath, ← hpath']
  apply h edit hedit other hother
  rw [hpath, hpath']
  exact hsame

/-- What edits make of a file one after the other, its own edits make of it together. -/
theorem textAt_map_revision {path : Path}
    (hfile : ∀ edit ∈ edits, edit.path.location = path.location ↔ path.same edit.path)
    {text new : String} :
    Revision.textAt path.location (edits.map Edit.revision) text = .ok new ↔
      Block.spliceAll path text (blocksAt path edits) = .ok new := by
  induction edits generalizing text with
  | nil => exact Iff.rfl
  | cons edit rest ih =>
      obtain ⟨hedit, hrest⟩ := List.forall_mem_cons.mp hfile
      have hlocation : edit.revision.location = edit.path.location := rfl
      rw [List.map_cons, Revision.textAt_cons, Revision.changeAt, hlocation, except_bind_eq_ok_iff]
      by_cases hsame : path.same edit.path
      · have hblocks : blocksAt path (edit :: rest) = (edit.block, edit.lines) :: blocksAt path rest := by
          simp [blocksAt, hsame]
        have hchange (middle : String) : edit.revision.change text = .ok middle ↔
            Block.splice path text edit.block edit.lines = .ok middle := by
          have hone : edit.revision.change text =
              Block.spliceAll edit.path text [(edit.block, edit.lines)] :=
            Work.finished_identity _ _ _
          have hpath : Block.splice path text edit.block edit.lines = .ok middle ↔
              Block.splice edit.path text edit.block edit.lines = .ok middle :=
            Block.splice_eq_ok_iff_of_path
          rw [hone, Block.spliceAll_cons, hpath]
          simp [Block.spliceAll, pure, Except.pure]
        rw [if_pos (hedit.mpr hsame), hblocks, Block.spliceAll_cons]
        simp only [hchange, ih hrest]
      · have hblocks : blocksAt path (edit :: rest) = blocksAt path rest := by
          simp [blocksAt, hsame]
        rw [if_neg (mt hedit.mp hsame), hblocks]
        simp only [Except.ok.injEq, exists_eq_left', ih hrest]

/-- A file has the same text after its edits, whether they are carried out one after the other or
together. -/
theorem NamesApart.textAfter?_eq (h : NamesApart edits) (before : Checkout) (location : Location) :
    Revision.textAfter? before ((ofEdits edits).map ownRevision) location =
      Revision.textAfter? before (edits.map Edit.revision) location := by
  have hgrouped := grouped_ofEdits edits
  apply Option.ext
  intro new
  rw [Revision.textAfter?_eq_some_iff, Revision.textAfter?_eq_some_iff]
  apply exists_congr
  intro text
  apply and_congr_right
  intro _
  by_cases hgroup : ∃ group ∈ ofEdits edits, group.path.location = location
  · obtain ⟨group, hmem, rfl⟩ := hgroup
    obtain ⟨first, hfirst, hpath⟩ := hgrouped.named group hmem
    have hfile : ∀ edit ∈ edits,
        edit.path.location = group.path.location ↔ group.path.same edit.path := by
      intro edit hedit
      refine ⟨fun heq => ?_, fun hsame => (Path.location_eq_of_same hsame).symm⟩
      rw [← hpath] at heq ⊢
      exact h first hfirst edit hedit heq.symm
    have htogether : Revision.textAt group.path.location ((ofEdits edits).map ownRevision) text =
        group.ownRevision.change text :=
      Revision.textAt_of_mem (List.mem_map_of_mem hmem) h.nodup_locations text
    have hchange : group.ownRevision.change text =
        Block.spliceAll group.path text (blocksAt group.path edits) := by
      rw [← hgrouped.blocks group hmem]
      exact Work.finished_identity _ _ _
    rw [textAt_map_revision hfile, htogether, hchange]
  -- a file without a group has no edits
  · have hgroups : ∀ revision ∈ (ofEdits edits).map ownRevision, revision.location ≠ location := by
      intro revision hrevision heq
      obtain ⟨group, hmem, rfl⟩ := List.mem_map.mp hrevision
      exact hgroup ⟨group, hmem, heq⟩
    have hedits : ∀ revision ∈ edits.map Edit.revision, revision.location ≠ location := by
      intro revision hrevision heq
      obtain ⟨edit, hedit, rfl⟩ := List.mem_map.mp hrevision
      obtain ⟨group, hmem, hsame⟩ := hgrouped.covered edit hedit
      exact hgroup ⟨group, hmem, (Path.location_eq_of_same hsame).trans heq⟩
    rw [Revision.textAt_of_forall_ne hgroups, Revision.textAt_of_forall_ne hedits]

end FileEdits

namespace Work

variable {before after : Checkout} {α : Type}

/-- Items call for revisions that can be made one after the other exactly if making them succeeds. -/
theorem exists_mapM_revise_iff {toRevision : α → Revision} {items : List α} :
    (∃ changes, (items.mapM fun item => revise (toRevision item) .write).run before = .ok changes after) ↔
      Revised (items.map toRevision) before after := by
  induction items generalizing before with
  | nil =>
      rw [List.mapM_nil, List.map_nil]
      simp only [pure_eq_ok_iff]
      constructor
      · rintro ⟨_, -, rfl⟩
        exact .nil before
      · intro h
        cases h
        exact ⟨[], rfl, rfl⟩
  | cons item rest ih =>
      rw [List.mapM_cons, List.map_cons, ← List.singleton_append, Revised.append_iff]
      constructor
      · rintro ⟨changes, h⟩
        obtain ⟨change, middle, hfirst, h⟩ := bind_eq_ok_iff.mp h
        obtain ⟨others, last, hothers, h⟩ := bind_eq_ok_iff.mp h
        obtain ⟨-, rfl⟩ := pure_eq_ok_iff.mp h
        exact ⟨middle, (revise_eq_ok_iff.mp hfirst).1, ih.mp ⟨others, hothers⟩⟩
      · rintro ⟨middle, hfirst, hrest⟩
        obtain ⟨others, hothers⟩ := ih.mpr hrest
        let change := (toRevision item).changeAfter before []
        refine ⟨change :: others, bind_eq_ok_iff.mpr ?_⟩
        refine ⟨change, middle, revise_eq_ok_iff.mpr ⟨hfirst, rfl⟩, bind_eq_ok_iff.mpr ?_⟩
        exact ⟨others, after, hothers, pure_eq_ok_iff.mpr ⟨rfl, rfl⟩⟩

end Work

namespace FileEdits

variable {edits : List Edit}

/-- Grouping keeps the order in which files are first named and the order of the edits of each file, and
neither loses nor repeats an edit. When the edits can be carried out one at a time, the groups can be
carried out one file at a time, and that leaves the same files and folders. -/
theorem ofEdits_keeps_outcome (before : Checkout) (happart : NamesApart edits) :
    (ofEdits edits).map FileEdits.path = (edits.map Edit.path).eraseDupsBy Path.same
      ∧ (∀ group ∈ ofEdits edits, group.blocks = blocksAt group.path edits)
      ∧ ((ofEdits edits).flatMap placed).Perm (edits.map Edit.placed)
      ∧ ∀ changes after,
          (edits.mapM fun edit =>
            Work.replaceBlock edit.path edit.lines edit.block Finisher.identity).run before =
              .ok changes after →
          ∃ changes', ((ofEdits edits).mapM fun group =>
            Work.applyBlocks group.path group.blocks Finisher.identity .write).run before =
              .ok changes' after := by
  refine ⟨map_path_ofEdits edits, (grouped_ofEdits edits).blocks, placed_ofEdits edits, ?_⟩
  intro changes after hrun
  have hrevised : Revised (edits.map Edit.revision) before after :=
    Work.exists_mapM_revise_iff.mp ⟨changes, hrun⟩
  have hgroups : Revised ((ofEdits edits).map ownRevision) before after := by
    refine hrevised.of_textAfter? ?_ (happart.textAfter?_eq before)
    intro revision hrevision
    obtain ⟨group, hgroup, rfl⟩ := List.mem_map.mp hrevision
    obtain ⟨edit, hedit, hpath⟩ := (grouped_ofEdits edits).named group hgroup
    exact ⟨edit.revision, List.mem_map_of_mem hedit, congrArg Path.location hpath⟩
  exact Work.exists_mapM_revise_iff.mpr hgroups

/-- The edits of one file are carried out in their order, though another file comes between them and the
path is spelled in another way. -/
theorem ofEdits_keeps_outcome_interleaved :
    let edits : List Edit :=
      [⟨⟨"src/a.h"⟩, 0, ["old"]⟩, ⟨⟨"b.h"⟩, 0, ["two"]⟩, ⟨⟨"src//a.h"⟩, 0, ["new"]⟩]
    NamesApart edits ∧ (ofEdits edits).map FileEdits.path = [⟨"src/a.h"⟩, ⟨"b.h"⟩]
      ∧ ∃ before changes after,
        (edits.mapM fun edit =>
            Work.replaceBlock edit.path edit.lines edit.block Finisher.identity).run before =
          .ok changes after
        ∧ after.content? ["src", "a.h"] =
            some (.text ":CODEGEN_BEGIN:\nnew\n:CODEGEN_END:")
        ∧ ∃ changes', ((ofEdits edits).mapM fun group =>
            Work.applyBlocks group.path group.blocks Finisher.identity .write).run before =
          .ok changes' after := by
  intro edits
  let before : Checkout :=
    { files := [(["src", "a.h"], .text ":CODEGEN_BEGIN:\n:CODEGEN_END:"),
        (["b.h"], .text ":CODEGEN_BEGIN:\n:CODEGEN_END:")]
      folders := []
      isTree := ⟨by decide, by decide, by decide, by simp, by decide⟩ }
  have happart : NamesApart edits := by
    unfold NamesApart
    decide
  have hany : (match (edits.mapM fun edit =>
      Work.replaceBlock edit.path edit.lines edit.block Finisher.identity).run before with
    | .ok _ after => decide (after.content? ["src", "a.h"] = some
        (.text ":CODEGEN_BEGIN:\nnew\n:CODEGEN_END:"))
    | .error _ _ => false) = true := by decide +kernel
  obtain ⟨hpaths, -, -, hgroups⟩ := ofEdits_keeps_outcome before happart
  split at hany
  next changes after hrun =>
    refine ⟨happart, hpaths.trans (by decide), before, changes, after, hrun, of_decide_eq_true hany, ?_⟩
    exact hgroups changes after hrun
  next => cases hany

end FileEdits

end Bindery
