import Bindery.Proofs.Header

/-!
# The files below a folder

A walk through a folder finds every file below it, at any depth, that has one of the extensions. It yields
each once, in the order of their locations: the names are compared from the left, and a name by the code
points of its characters.
-/

namespace Bindery

namespace Location

/-- A location comes before another: it is on the way to it, or its name comes first where the two part. -/
def Precedes : Location → Location → Prop :=
  List.Lex fun name other => List.Lex (fun c d : Char => c.toNat < d.toNat) name.toList other.toList

variable {location middle other : Location}

-- the order of the core library, as in the definition of the order of files
attribute [local instance (2000)] List.instLE List.decidableLE String.instLT String.decidableLT

theorem before_iff : Header.before location other ↔ Precedes location other ∨ location = other := by
  rw [Header.before, decide_eq_true_eq, List.le_iff_lt_or_eq]
  rfl

theorem before_trans (h : Header.before location middle) (h' : Header.before middle other) :
    Header.before location other := by
  simp only [Header.before, decide_eq_true_eq] at h h' ⊢
  exact List.le_trans h h'

theorem before_total (location other : Location) : Header.before location other || Header.before other location := by
  simp only [Header.before, decide_eq_true_eq, Bool.or_eq_true]
  exact List.le_total location other

theorem Precedes.asymm (h : Precedes location other) : ¬ Precedes other location := by
  refine List.lex_asymm ?_ h
  intro name name' hname
  exact List.lex_asymm (fun hchar => Nat.lt_asymm hchar) hname

theorem Precedes.ne (h : Precedes location other) : location ≠ other := by
  rintro rfl
  exact h.asymm h

/-- Below the same folder, the names that lead on from it decide. -/
theorem Precedes.append_left (h : Precedes location other) (folder : Location) :
    Precedes (folder ++ location) (folder ++ other) := by
  induction folder with
  | nil => exact h
  | cons name rest ih => exact .cons ih

end Location

namespace Header

variable {checkout : Checkout} {folder path : Path} {extensions : List String} {names : Location}

/-- Paths are those of the files below a folder that have one of the extensions, in order. -/
structure Walk (checkout : Checkout) (folder : Path) (extensions : List String) (paths : List Path) : Prop where
  /-- each path leads to such a file, and is written as the names that lead on from the folder -/
  sound : ∀ path ∈ paths, path.hasExtension extensions ∧ ∃ names ≠ [], path = folder.join (Text.join "/" names) ∧
    path.location = folder.location ++ names ∧ checkout.isFile path.location
  /-- a path leads to each such file, however many names lead to it -/
  complete : ∀ names ≠ [], checkout.isFile (folder.location ++ names) →
    (folder.join (Text.join "/" names)).hasExtension extensions → folder.join (Text.join "/" names) ∈ paths
  ordered : (paths.map Path.location).Pairwise Location.Precedes

namespace Walk

variable {paths : List Path}

theorem nodup (h : Walk checkout folder extensions paths) : (paths.map Path.location).Nodup :=
  h.ordered.imp Location.Precedes.ne

theorem isFile (h : Walk checkout folder extensions paths) (hmem : path ∈ paths) :
    checkout.isFile path.location := by
  obtain ⟨-, names, -, -, -, hfile⟩ := h.sound path hmem
  exact hfile

/-- A walk finds the same paths, in the same order, each time. -/
theorem eq {paths' : List Path} (h : Walk checkout folder extensions paths)
    (h' : Walk checkout folder extensions paths') : paths = paths' := by
  have hsubset {first second : List Path} (hfirst : Walk checkout folder extensions first)
      (hsecond : Walk checkout folder extensions second) : ∀ path ∈ first, path ∈ second := by
    intro path hmem
    obtain ⟨hextension, names, hsome, rfl, hlocation, hfile⟩ := hfirst.sound path hmem
    exact hsecond.complete names hsome (hlocation ▸ hfile) hextension
  have hperm : paths.Perm paths' :=
    (List.perm_ext_iff_of_nodup h.nodup.of_map h'.nodup.of_map).mpr fun path =>
      ⟨hsubset h h' path, hsubset h' h path⟩
  refine hperm.eq_of_pairwise ?_ (List.pairwise_map.mp h.ordered) (List.pairwise_map.mp h'.ordered)
  exact fun _ _ _ _ hprecedes hfollows => absurd hfollows hprecedes.asymm

end Walk

theorem mem_below_iff_isFile :
    names ∈ checkout.below folder.location ↔ names ≠ [] ∧ checkout.isFile (folder.location ++ names) := by
  rw [Checkout.mem_below_iff, Checkout.isFile_iff]

theorem location_join_of_mem_below (h : names ∈ checkout.below folder.location) :
    (folder.join (Text.join "/" names)).location = folder.location ++ names :=
  Path.location_join_of_isNamed folder (checkout.isTree.named _ (Checkout.mem_below_iff.mp h).2)

/-- The files below a folder are sorted, and none is listed twice. -/
theorem pairwise_precedes_mergeSort (checkout : Checkout) (location : Location) :
    ((checkout.below location).mergeSort before).Pairwise Location.Precedes := by
  have hsorted : ((checkout.below location).mergeSort before).Pairwise fun names others => before names others :=
    @List.pairwise_mergeSort _ before (fun _ _ _ => Location.before_trans) Location.before_total _
  have hnodup : ((checkout.below location).mergeSort before).Nodup :=
    (List.mergeSort_perm _ before).nodup_iff.mpr (Checkout.nodup_below checkout location)
  refine (hsorted.and hnodup).imp fun h => ?_
  exact (Location.before_iff.mp h.1).resolve_right h.2

/-- The files of which headers are renewed are those that a walk finds. -/
theorem walk_filesBelow (checkout : Checkout) (folder : Path) (extensions : List String) :
    Walk checkout folder extensions (filesBelow checkout folder folder.location extensions) where
  sound path hmem := by
    obtain ⟨hpath, hextension⟩ := List.mem_filter.mp hmem
    obtain ⟨names, hnames, rfl⟩ := List.mem_map.mp hpath
    have hbelow : names ∈ checkout.below folder.location := List.mem_mergeSort.mp hnames
    have hlocation := location_join_of_mem_below hbelow
    obtain ⟨hsome, hfile⟩ := mem_below_iff_isFile.mp hbelow
    exact ⟨hextension, names, hsome, rfl, hlocation, hlocation ▸ hfile⟩
  complete names hsome hfile hextension := by
    have hbelow : names ∈ checkout.below folder.location := mem_below_iff_isFile.mpr ⟨hsome, hfile⟩
    exact List.mem_filter.mpr ⟨List.mem_map_of_mem (List.mem_mergeSort.mpr hbelow), hextension⟩
  ordered := by
    have hlocations : (((checkout.below folder.location).mergeSort before).map fun names =>
        folder.join (Text.join "/" names)).map Path.location =
          ((checkout.below folder.location).mergeSort before).map (folder.location ++ ·) := by
      rw [List.map_map]
      exact List.map_congr_left fun names hnames => location_join_of_mem_below (List.mem_mergeSort.mp hnames)
    have hall := (pairwise_precedes_mergeSort checkout folder.location).map (folder.location ++ ·)
      fun _ _ h => h.append_left folder.location
    rw [← hlocations] at hall
    exact hall.sublist (List.filter_sublist.map Path.location)

end Header

end Bindery
