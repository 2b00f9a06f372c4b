/-!
# Trees of files

A location is the list of names that leads to a file or folder from the top. Files and folders make a
tree when each file has a name and a place of its own and nothing lies below a file; adding and leaving
out locations keeps that.
-/

namespace Bindery

/-- The names that lead from the top of a checkout to a file or folder. -/
abbrev Location := List String

/-- Whether a text can name a file or folder: it has no slash, and is neither empty nor one of the dots
that stand for a folder itself and for the one above. -/
def isFileName (name : String) : Bool :=
  name ≠ "" && name ≠ "." && name ≠ ".." && !name.toList.contains '/'

/-- Whether a path can lead to a location: it consists of names, behind the steps that lead out of the
checkout. -/
def Location.isNamed : Location → Bool
  | "/" :: names => names.all isFileName
  | location => (location.dropWhile (· = "..")).all isFileName

/-- The locations of files and of folders make a tree. -/
structure IsTree (files folders : List Location) : Prop where
  nodup : files.Nodup
  /-- the top is no file -/
  nil_not_mem : [] ∉ files
  named : ∀ file ∈ files, file.isNamed
  /-- no folder lies below a file or takes its place -/
  not_prefix_folder : ∀ file ∈ files, ∀ folder ∈ folders, ¬ file <+: folder
  /-- no file lies below another one -/
  eq_of_prefix : ∀ file ∈ files, ∀ other ∈ files, file <+: other → file = other

namespace IsTree

theorem nil : IsTree [] [] := ⟨by simp, by simp, by simp, by simp, by simp⟩

/-- Some locations of a tree make a tree. -/
theorem sublist {files folders files' folders' : List Location} (h : IsTree files folders)
    (hfiles : files'.Sublist files) (hfolders : folders'.Sublist folders) :
    IsTree files' folders' where
  nodup := hfiles.nodup h.nodup
  nil_not_mem hmem := h.nil_not_mem (hfiles.subset hmem)
  named file hfile := h.named file (hfiles.subset hfile)
  not_prefix_folder file hfile folder hfolder :=
    h.not_prefix_folder file (hfiles.subset hfile) folder (hfolders.subset hfolder)
  eq_of_prefix file hfile other hother :=
    h.eq_of_prefix file (hfiles.subset hfile) other (hfiles.subset hother)

/-- A folder can be added that lies below no file and takes no file's place. -/
theorem append_folder {files folders : List Location} {location : Location}
    (h : IsTree files folders) (habove : ∀ file ∈ files, ¬ file <+: location) :
    IsTree files (folders ++ [location]) where
  nodup := h.nodup
  nil_not_mem := h.nil_not_mem
  named := h.named
  not_prefix_folder file hfile folder hfolder := by
    rcases List.mem_append.mp hfolder with hold | hnew
    · exact h.not_prefix_folder file hfile folder hold
    · rw [List.mem_singleton.mp hnew]
      exact habove file hfile
  eq_of_prefix := h.eq_of_prefix

/-- A file with a name can be added that lies below no file and has nothing below it. -/
theorem append_file {files folders : List Location} {location : Location}
    (h : IsTree files folders) (hne : location ≠ []) (hnamed : location.isNamed)
    (hfolders : ∀ folder ∈ folders, ¬ location <+: folder)
    (habove : ∀ file ∈ files, ¬ file <+: location)
    (hbelow : ∀ file ∈ files, ¬ location <+: file) :
    IsTree (files ++ [location]) folders where
  nodup := by
    refine List.nodup_append.mpr ⟨h.nodup, by simp, ?_⟩
    rintro file hfile other hother rfl
    rw [List.mem_singleton.mp hother] at hfile
    exact habove location hfile (List.prefix_refl location)
  nil_not_mem hmem := by
    rcases List.mem_append.mp hmem with hold | hnew
    · exact h.nil_not_mem hold
    · exact hne (List.mem_singleton.mp hnew).symm
  named file hfile := by
    rcases List.mem_append.mp hfile with hold | hnew
    · exact h.named file hold
    · rwa [List.mem_singleton.mp hnew]
  not_prefix_folder file hfile folder hfolder := by
    rcases List.mem_append.mp hfile with hold | hnew
    · exact h.not_prefix_folder file hold folder hfolder
    · rw [List.mem_singleton.mp hnew]
      exact hfolders folder hfolder
  eq_of_prefix file hfile other hother hprefix := by
    rcases List.mem_append.mp hfile with hold | hnew <;>
      rcases List.mem_append.mp hother with hold' | hnew'
    · exact h.eq_of_prefix file hold other hold' hprefix
    · exact absurd (List.mem_singleton.mp hnew' ▸ hprefix) (habove file hold)
    · exact absurd (List.mem_singleton.mp hnew ▸ hprefix) (hbelow other hold')
    · rw [List.mem_singleton.mp hnew, List.mem_singleton.mp hnew']

end IsTree

end Bindery
