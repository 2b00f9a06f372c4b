import Bindery.Edit
import Mathlib.Data.List.Induction

/-!
# Grouping edits

Edits are put into one group for each file. A group has all edits of its file, in their order, and no
two groups are for the same file.
-/

namespace Bindery

namespace Path

theorem same_iff {path other : Path} : path.same other ↔ path.parts = other.parts :=
  decide_eq_true_iff

end Path

namespace FileEdits

variable {edit : Edit} {edits : List Edit} {group : FileEdits} {groups : List FileEdits}

/-- The blocks that edits give new lines in the file at a path, with these lines. -/
def blocksAt (path : Path) (edits : List Edit) : List (Nat × List String) :=
  (edits.filter fun edit => path.same edit.path).map fun edit => (edit.block, edit.lines)

theorem blocksAt_append_singleton (path : Path) (edits : List Edit) (edit : Edit) :
    blocksAt path (edits ++ [edit]) =
      if path.same edit.path then blocksAt path edits ++ [(edit.block, edit.lines)]
      else blocksAt path edits := by
  by_cases hsame : path.same edit.path <;> simp [hsame, blocksAt]

theorem exists_edit_of_mem_blocksAt {path : Path} {block : Nat × List String}
    (h : block ∈ blocksAt path edits) : ∃ edit ∈ edits, (edit.block, edit.lines) = block := by
  obtain ⟨edit, hedit, hblock⟩ := List.mem_map.mp h
  exact ⟨edit, (List.mem_filter.mp hedit).1, hblock⟩

/-- The group with an edit put to it if it is for the edit's file. -/
def extend (edit : Edit) (group : FileEdits) : FileEdits :=
  if group.path.same edit.path then
    { group with blocks := group.blocks ++ [(edit.block, edit.lines)] }
  else group

@[simp]
theorem path_extend (edit : Edit) (group : FileEdits) : (extend edit group).path = group.path := by
  unfold extend
  split <;> rfl

theorem map_extend_of_forall_not_same (h : ∀ group ∈ groups, ¬ group.path.same edit.path) :
    groups.map (extend edit) = groups := by
  refine (List.map_congr_left fun group hgroup => ?_).trans (List.map_id groups)
  rw [extend, if_neg (h group hgroup), id]

theorem add_of_forall_not_same (h : ∀ group ∈ groups, ¬ group.path.same edit.path) :
    add edit groups = groups ++ [⟨edit.path, [(edit.block, edit.lines)]⟩] := by
  induction groups with
  | nil => rfl
  | cons first rest ih =>
      rw [add, if_neg (h first List.mem_cons_self), List.cons_append,
        ih fun group hgroup => h group (List.mem_cons_of_mem _ hgroup)]

/-- No two groups are for the same file. -/
def Distinct (groups : List FileEdits) : Prop :=
  (groups.map FileEdits.path).Pairwise fun path other => ¬ path.same other

theorem add_of_exists_same (hdistinct : Distinct groups)
    (h : ∃ group ∈ groups, group.path.same edit.path) :
    add edit groups = groups.map (extend edit) := by
  induction groups with
  | nil => simp at h
  | cons first rest ih =>
      obtain ⟨hfirst, hrest⟩ := List.pairwise_cons.mp hdistinct
      rw [List.map_cons]
      by_cases hsame : first.path.same edit.path
      · have hothers : ∀ group ∈ rest, ¬ group.path.same edit.path := by
          intro group hgroup hgroup'
          refine hfirst group.path (List.mem_map_of_mem hgroup) (Path.same_iff.mpr ?_)
          exact (Path.same_iff.mp hsame).trans (Path.same_iff.mp hgroup').symm
        rw [add, if_pos hsame, extend, if_pos hsame, map_extend_of_forall_not_same hothers]
      · obtain ⟨group, hgroup, hgroup'⟩ := h
        have hin : group ∈ rest :=
          (List.mem_cons.mp hgroup).resolve_left fun heq => hsame (heq ▸ hgroup')
        rw [add, if_neg hsame, extend, if_neg hsame, ih hrest ⟨group, hin, hgroup'⟩]

/-- The groups of some edits. -/
structure Grouped (edits : List Edit) (groups : List FileEdits) : Prop where
  distinct : Distinct groups
  blocks : ∀ group ∈ groups, group.blocks = blocksAt group.path edits
  covered : ∀ edit ∈ edits, ∃ group ∈ groups, group.path.same edit.path
  named : ∀ group ∈ groups, ∃ edit ∈ edits, edit.path = group.path

theorem Grouped.append_new (h : Grouped edits groups)
    (hnone : ∀ group ∈ groups, ¬ group.path.same edit.path) :
    Grouped (edits ++ [edit]) (groups ++ [⟨edit.path, [(edit.block, edit.lines)]⟩]) where
  distinct := by
    rw [Distinct, List.map_append, List.pairwise_append]
    refine ⟨h.distinct, List.pairwise_singleton _ _, ?_⟩
    simpa using hnone
  blocks := by
    intro group hgroup
    rw [blocksAt_append_singleton]
    rcases List.mem_append.mp hgroup with hold | hnew
    · rw [if_neg (hnone group hold), h.blocks group hold]
    · obtain rfl := List.mem_singleton.mp hnew
      -- an earlier edit of the file would have made a group
      have hfirst : ∀ other ∈ edits, ¬ edit.path.same other.path := by
        intro other hother hsame
        obtain ⟨group, hgroup, hgroup'⟩ := h.covered other hother
        refine hnone group hgroup (Path.same_iff.mpr ?_)
        exact (Path.same_iff.mp hgroup').trans (Path.same_iff.mp hsame).symm
      rw [if_pos (Path.same_iff.mpr rfl), blocksAt, List.filter_eq_nil_iff.mpr hfirst]
      rfl
  covered := by
    intro other hother
    rcases List.mem_append.mp hother with hold | hnew
    · obtain ⟨group, hgroup, hsame⟩ := h.covered other hold
      exact ⟨group, List.mem_append_left _ hgroup, hsame⟩
    · rw [List.mem_singleton.mp hnew]
      exact ⟨_, List.mem_append_right _ (List.mem_singleton_self _), Path.same_iff.mpr rfl⟩
  named := by
    intro group hgroup
    rcases List.mem_append.mp hgroup with hold | hnew
    · obtain ⟨other, hother, hpath⟩ := h.named group hold
      exact ⟨other, List.mem_append_left _ hother, hpath⟩
    · rw [List.mem_singleton.mp hnew]
      exact ⟨edit, List.mem_append_right _ (List.mem_singleton_self _), rfl⟩

theorem Grouped.append_old (h : Grouped edits groups)
    (hsome : ∃ group ∈ groups, group.path.same edit.path) :
    Grouped (edits ++ [edit]) (groups.map (extend edit)) where
  distinct := by
    have hpaths : (groups.map (extend edit)).map FileEdits.path = groups.map FileEdits.path := by
      rw [List.map_map]
      exact List.map_congr_left fun group _ => path_extend edit group
    rw [Distinct, hpaths]
    exact h.distinct
  blocks := by
    intro group hgroup
    obtain ⟨old, hold, rfl⟩ := List.mem_map.mp hgroup
    rw [path_extend, blocksAt_append_singleton, ← h.blocks old hold, extend]
    split <;> rfl
  covered := by
    intro other hother
    have hcovered : ∃ group ∈ groups, group.path.same other.path := by
      rcases List.mem_append.mp hother with hold | hnew
      · exact h.covered other hold
      · rwa [List.mem_singleton.mp hnew]
    obtain ⟨group, hgroup, hsame⟩ := hcovered
    exact ⟨_, List.mem_map_of_mem hgroup, by rwa [path_extend]⟩
  named := by
    intro group hgroup
    obtain ⟨old, hold, rfl⟩ := List.mem_map.mp hgroup
    obtain ⟨other, hother, hpath⟩ := h.named old hold
    exact ⟨other, List.mem_append_left _ hother, hpath.trans (path_extend edit old).symm⟩

theorem grouped_ofEdits (edits : List Edit) : Grouped edits (ofEdits edits) := by
  induction edits using List.reverseRecOn with
  | nil => exact ⟨.nil, by simp [ofEdits], by simp, by simp [ofEdits]⟩
  | append_singleton edits edit ih =>
      have hstep : ofEdits (edits ++ [edit]) = add edit (ofEdits edits) := by
        rw [ofEdits, List.foldl_append]
        rfl
      rw [hstep]
      by_cases hsome : ∃ group ∈ ofEdits edits, group.path.same edit.path
      · rw [add_of_exists_same ih.distinct hsome]
        exact ih.append_old hsome
      · have hnone : ∀ group ∈ ofEdits edits, ¬ group.path.same edit.path :=
          fun group hgroup hsame => hsome ⟨group, hgroup, hsame⟩
        rw [add_of_forall_not_same hnone]
        exact ih.append_new hnone

end FileEdits

end Bindery
