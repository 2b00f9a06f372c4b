import Bindery.Proofs.Additions
import Bindery.Proofs.Scaffold

/-!
# Scaffolding a target

The scaffolds of a target can be written to a checkout in which nothing of the target is there yet. The
emitter of a target that reads nothing but schemas then yields the edits that it yielded before.
-/

namespace Bindery

open Checkout Generation Text

/-- Nothing stands in the way to a folder, nor in its place. -/
theorem Checkout.not_prefix_of_isFolder {checkout : Checkout} {folder : Location}
    (h : checkout.isFolder folder) : ∀ file ∈ checkout.files.map Prod.fst, ¬ file <+: folder := by
  intro file hfile hleads
  simp only [isFolder, Bool.or_eq_true, List.isEmpty_iff, List.any_eq_true,
    List.isPrefixOf_iff_prefix, Bool.and_eq_true, decide_eq_true_eq] at h
  rcases h with (rfl | ⟨other, hother, hbelow⟩) | ⟨⟨other, content⟩, hother, hbelow, hne⟩
  · exact checkout.isTree.nil_not_mem (List.prefix_nil.mp hleads ▸ hfile)
  · exact checkout.isTree.not_prefix_folder file hfile other hother (hleads.trans hbelow)
  · have hin : other ∈ checkout.files.map Prod.fst := List.mem_map.mpr ⟨_, hother, rfl⟩
    have heq := checkout.isTree.eq_of_prefix file hfile other hin (hleads.trans hbelow)
    exact hne (hbelow.eq_of_length_le (heq ▸ hleads.length_le))

namespace Target

variable {target : Target} {root : Path} {before after : Checkout} {interface : Interface}
  {edits : List Edit}

/-- The targets of which the emitters read no file of theirs but schemas. -/
def standalone : List Target := [core, dotnet, python]

/-- Where the schemas lie that the core library embeds. -/
def schemaNames : List String := Path.names CoreLibrary.schemaFolder

theorem schemaNames_eq : schemaNames = ["yogi-core", "src", "schemas"] := by decide

/-- Where the root of a checkout lies. -/
theorem location_dot : (⟨"."⟩ : Path).location = [] := by decide

/-- A checkout of which the root has nothing below it; for the core library, nothing but schemas in their
folder. -/
structure Bare (root : Path) (target : Target) (checkout : Checkout) : Prop where
  isFolder : checkout.isFolder root.location
  files : ∀ names, root.location ++ names ∈ checkout.files.map Prod.fst →
    target = .core ∧ ∃ name, names = schemaNames ++ [name] ∧ ".schema.json".toList <:+ name.toList
  folders : ∀ names, root.location ++ names ∈ checkout.folders →
    names = [] ∨ target = .core ∧ names <+: schemaNames

theorem bare_empty (target : Target) : Bare ⟨"."⟩ target Checkout.empty := by
  refine ⟨?_, ?_, ?_⟩
  · rw [location_dot]
    rfl
  · intro names hnames
    cases hnames
  · intro names hnames
    cases hnames

/-- Where the files of a target lie. -/
def locations (root : Path) (target : Target) : List Location :=
  target.emitter.files.map fun file => (root.join file).location

/-- No file of a target lies below another one. -/
theorem eq_of_names_prefix {file other : String} (h : file ∈ target.emitter.files)
    (h' : other ∈ target.emitter.files) (hleads : Path.names file <+: Path.names other) :
    Path.names file = Path.names other := by
  obtain ⟨folders, name, hnames, hname, -⟩ := exists_folders_name h
  obtain ⟨folders', name', hnames', -, hfolders'⟩ := exists_folders_name h'
  rw [hnames'] at hleads ⊢
  rcases List.prefix_concat_iff.mp hleads with hsame | hwithin
  · exact hsame
  · have hfolder := hfolders' name (hwithin.subset (by simp [hnames]))
    omega

/-- No file of a target is on the way to the schemas. -/
theorem not_names_prefix_schemaNames {file : String} (h : file ∈ target.emitter.files) :
    ¬ Path.names file <+: schemaNames := by
  obtain ⟨folders, name, hnames, hname, -⟩ := exists_folders_name h
  have hnone : ∀ folder ∈ schemaNames, folder.toList.count '.' = 0 := by decide
  intro hleads
  have hfolder := hnone name (hleads.subset (by simp [hnames]))
  omega

/-- No file of a target has the name of a schema. -/
theorem not_mem_names_of_schema {file name : String} (h : file ∈ target.emitter.files)
    (hname : ".schema.json".toList <:+ name.toList) : name ∉ Path.names file := by
  obtain ⟨folders, last, hnames, hlast, hfolders⟩ := exists_folders_name h
  have hdots : 2 ≤ name.toList.count '.' := hname.sublist.count_le '.'
  rw [hnames, List.mem_append, List.mem_singleton]
  rintro (hfolder | rfl)
  · have hnone := hfolders name hfolder
    omega
  · omega

/-- The core library has a file in the folder of the schemas. -/
theorem exists_edit_schemas {sources : Sources} (h : core.emitter.emit interface sources = .ok edits) :
    ∃ lines, (⟨⟨CoreLibrary.schemaFolder ++ "/schemas.h"⟩, 0, lines⟩ : Edit) ∈ edits := by
  obtain ⟨schemas, -, hsheets⟩ := except_bind_eq_ok_iff.mp h
  have hsheet : Sheet.single (CoreLibrary.schemaFolder ++ "/schemas.h") (Schema.declarations schemas) ∈
      CoreLibrary.sheets interface schemas := by
    simp [CoreLibrary.sheets]
  exact ⟨_, Sheet.mem_allEdits hsheets hsheet rfl (List.mem_singleton_self _)⟩

/-- What leads to a place below a folder, or lies below that place, is itself below the folder when it does
not lead to it. -/
theorem exists_eq_append_of_comparable {folder rest other : Location} (hfolder : ¬ other <+: folder)
    (h : other <+: folder ++ rest ∨ folder ++ rest <+: other) : ∃ names, other = folder ++ names := by
  rcases h with habove | hbelow
  · rcases List.prefix_or_prefix_of_prefix habove (List.prefix_append _ _) with hup | ⟨names, hnames⟩
    · exact absurd hup hfolder
    · exact ⟨names, hnames.symm⟩
  · obtain ⟨names, hnames⟩ := hbelow
    exact ⟨rest ++ names, by rw [← hnames, List.append_assoc]⟩

namespace Bare

/-- There is room for the files of a target where nothing of it is there. -/
theorem room (h : Bare root target before) : before.Room (target.locations root) := by
  have hfree := Checkout.not_prefix_of_isFolder h.isFolder
  constructor
  · intro location hlocation
    obtain ⟨file, hfile, rfl⟩ := List.mem_map.mp hlocation
    obtain ⟨rest, hrest⟩ := exists_names_eq hfile
    simp [location_of_mem_files hfile, hrest]
  · intro location hlocation
    obtain ⟨file, hfile, rfl⟩ := List.mem_map.mp hlocation
    exact Path.isNamed_location _
  · intro location hlocation other hother hleads
    obtain ⟨file, hfile, rfl⟩ := List.mem_map.mp hlocation
    obtain ⟨file', hfile', rfl⟩ := List.mem_map.mp hother
    rw [location_of_mem_files hfile, location_of_mem_files hfile', List.prefix_append_right_inj]
      at hleads
    rw [location_of_mem_files hfile, location_of_mem_files hfile',
      eq_of_names_prefix hfile hfile' hleads]
  · intro location hlocation other hother hcomparable
    obtain ⟨file, hfile, rfl⟩ := List.mem_map.mp hlocation
    rw [location_of_mem_files hfile] at hcomparable
    -- a file in the way lies below the root, so it is a schema
    obtain ⟨names, rfl⟩ := exists_eq_append_of_comparable (hfree other hother) hcomparable
    obtain ⟨rfl, name, rfl, hname⟩ := h.files names hother
    have hnot := not_mem_names_of_schema hfile hname
    rw [List.prefix_append_right_inj, List.prefix_append_right_inj, List.prefix_concat_iff] at hcomparable
    rcases hcomparable with habove | hsame | hbelow
    · exact absurd (habove.subset (by simp)) hnot
    · exact absurd (by simp [hsame]) hnot
    · exact absurd hbelow (not_names_prefix_schemaNames hfile)
  · intro location hlocation folder hfolder hleads
    obtain ⟨file, hfile, rfl⟩ := List.mem_map.mp hlocation
    obtain ⟨rest, rfl⟩ := hleads
    obtain ⟨names, hnames⟩ := exists_names_eq hfile
    rw [location_of_mem_files hfile, List.append_assoc] at hfolder
    rcases h.folders _ hfolder with hnil | ⟨rfl, hwithin⟩
    · simp [hnames] at hnil
    · exact not_names_prefix_schemaNames hfile ((List.prefix_append _ _).trans hwithin)

/-- No file of a target is there. -/
theorem isFile_eq_false (h : Bare root target before) {file : String} (hfile : file ∈ target.emitter.files) :
    before.isFile (root.join file).location = false := by
  rw [← Bool.not_eq_true, isFile_iff, location_of_mem_files hfile]
  intro hmem
  obtain ⟨-, name, hnames, hname⟩ := h.files _ hmem
  exact not_mem_names_of_schema hfile hname (by simp [hnames])

end Bare

section Scaffolded

variable (hbare : Bare root target before) (hemit : target.emitter.emit interface ⟨before, root⟩ = .ok edits)
include hbare hemit

/-- The scaffolds of a target can be written where nothing of it is there. -/
theorem exists_scaffolded :
    ∃ after, (Scaffold.writeAll root target.emitter interface).run before = .ok () after
      ∧ Scaffold.Written root edits edits before after := by
  have hmem : ∀ edit ∈ edits, (root.join edit.path.text).location ∈ target.locations root := by
    intro edit hedit
    obtain ⟨file, hfile, hpath⟩ := path_of_mem_edits hemit hedit
    rw [hpath]
    exact List.mem_map_of_mem hfile
  obtain ⟨after, hrun, hwritten⟩ := Scaffold.exists_writeEdits hbare.room hmem
  refine ⟨after, ?_, hwritten⟩
  unfold Scaffold.writeAll
  rw [Work.run_get_bind, hemit]
  exact hrun

variable (hwritten : Scaffold.Written root edits edits before after)
include hwritten

/-- The files with edits hold their scaffolds. -/
theorem content?_of_written {edit : Edit} (hedit : edit ∈ edits) :
    after.content? (root.join edit.path.text).location =
      some (.text (Scaffold.text (root.join edit.path.text) (Scaffold.blocksNeeded edits edit))) := by
  obtain ⟨file, hfile, hpath⟩ := path_of_mem_edits hemit hedit
  have hnew : before.isFile (root.join edit.path.text).location = false := by
    rw [hpath]
    exact hbare.isFile_eq_false hfile
  obtain ⟨other, hother, hlocation, hcontent⟩ :=
    hwritten.content?_eq (hwritten.covered edit hedit) hnew
  obtain ⟨file', hfile', hpath'⟩ := path_of_mem_edits hemit hother
  have hsame : other.path = edit.path := by
    rw [hpath, hpath'] at hlocation ⊢
    rw [eq_of_location_eq root hfile' hfile hlocation]
  rw [hcontent, hsame, Scaffold.blocksNeeded, hsame, Scaffold.blocksNeeded]

end Scaffolded

section Written

variable (hwritten : Scaffold.Written root edits edits before after)
include hwritten

/-- The folders that lead to the schemas of the core library are there. -/
theorem isFolder_of_written_core (hemit : core.emitter.emit interface ⟨before, root⟩ = .ok edits)
    {names : List String} (hnames : names <+: schemaNames) : after.isFolder (root.location ++ names) := by
  obtain ⟨lines, hedit⟩ := exists_edit_schemas hemit
  have hlocation : (root.join (CoreLibrary.schemaFolder ++ "/" ++ "schemas.h")).location =
      root.location ++ ["yogi-core", "src", "schemas", "schemas.h"] :=
    CoreLibrary.location_schema (by decide)
  have hpath : CoreLibrary.schemaFolder ++ "/" ++ "schemas.h" = CoreLibrary.schemaFolder ++ "/schemas.h" := by
    rw [← String.toList_inj]
    simp
  have hfile : after.isFile (root.location ++ ["yogi-core", "src", "schemas", "schemas.h"]) := by
    have hcovered := hwritten.covered _ hedit
    rwa [← hlocation, hpath]
  obtain ⟨others, hothers⟩ := hnames
  have hbelow : after.isFile (root.location ++ names ++ (others ++ ["schemas.h"])) := by
    rwa [List.append_assoc, ← List.append_assoc names, hothers, schemaNames_eq]
  exact Checkout.isFolder_of_isFile hbelow (by simp)

/-- The folders in which headers are maintained can be entered. -/
theorem entered_of_written (htarget : target ∈ standalone)
    (hemit : target.emitter.emit interface ⟨before, root⟩ = .ok edits) :
    Entered after root target.emitter.headerFolders := by
  have hcases : target = .core ∨ target.emitter.headerFolders = [] := by
    rcases List.mem_cons.mp htarget with rfl | hother
    · exact Or.inl rfl
    · exact Or.inr (by rcases List.mem_pair.mp hother with rfl | rfl <;> rfl)
  rcases hcases with rfl | hnone
  · intro folder hfolder
    obtain rfl := eq_folder_of_mem_headerFolders hfolder
    have hlocation := location_folder core root
    have hnames : [core.folder] <+: schemaNames := by decide
    have hisFolder := isFolder_of_written_core hwritten hemit hnames
    rw [← hlocation] at hisFolder
    refine (Checkout.folderAt_eq_ok_iff ?_).mpr hisFolder
    simp [hlocation]
  · simp [Entered, hnone]

/-- The schemas are the same as before. -/
theorem schemas_of_written (hemit : core.emitter.emit interface ⟨before, root⟩ = .ok edits) :
    CoreLibrary.schemas ⟨after, root⟩ = CoreLibrary.schemas ⟨before, root⟩ := by
  obtain ⟨added, hadded, hentries⟩ := hwritten.files
  have hlocation := CoreLibrary.location_schemaFolder root
  have hfolder : after.isFolder (root.join CoreLibrary.schemaFolder).location := by
    rw [hlocation, ← schemaNames_eq]
    exact isFolder_of_written_core hwritten hemit (List.prefix_refl _)
  have hread : Sources.readFiles ⟨after, root⟩ CoreLibrary.schemaFolder ".schema.json" =
      Sources.readFiles ⟨before, root⟩ CoreLibrary.schemaFolder ".schema.json" := by
    refine Sources.readFiles_of_append hadded (by simp [hlocation]) hfolder ?_ ?_
    -- what was written are files of the target, and none of them is a schema
    · intro name hname hending
      obtain ⟨file, hfile, hsame⟩ := List.mem_map.mp hname
      obtain ⟨edit, hedit, rfl⟩ := hentries file hfile
      obtain ⟨path, hpath, heq⟩ := path_of_mem_edits hemit hedit
      change (root.join edit.path.text).location = _ at hsame
      rw [heq, location_of_mem_files hpath, hlocation, List.append_assoc, List.append_cancel_left_eq]
        at hsame
      exact not_mem_names_of_schema hpath hending (by simp [hsame])
    · intro name hname
      rw [CoreLibrary.location_schema (CoreLibrary.isFileName_of_mem_below hname), hlocation,
        List.append_assoc]
      rfl
  rw [CoreLibrary.schemas, hread, CoreLibrary.schemas]

/-- The emitter yields the edits that it yielded before. -/
theorem emit_of_written (htarget : target ∈ standalone)
    (hemit : target.emitter.emit interface ⟨before, root⟩ = .ok edits) :
    target.emitter.emit interface ⟨after, root⟩ = .ok edits := by
  rcases List.mem_cons.mp htarget with rfl | hother
  · rw [← hemit]
    change (CoreLibrary.schemas ⟨after, root⟩ >>= fun schemas =>
      Sheet.allEdits (CoreLibrary.sheets interface schemas)) = _
    rw [schemas_of_written hwritten hemit]
    rfl
  · rcases List.mem_pair.mp hother with rfl | rfl
    · exact hemit
    · exact hemit

end Written

end Target

end Bindery
