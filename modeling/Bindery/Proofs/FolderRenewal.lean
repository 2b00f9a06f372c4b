import Bindery.Proofs.LeadingComments
import Bindery.Proofs.Reports
import Bindery.Proofs.Walk

/-!
# Renewing a folder

The headers of the files that a walk finds are renewed one after the other, until a file refuses. Such a file
is not UTF-8, or no comment leads its text. The files in front of it are renewed then, and all others are as
they were.
-/

namespace Bindery

open Checkout Text

namespace Header

variable {checkout before middle after : Checkout} {header copyright text new : String} {path folder : Path}
  {paths front rest : List Path} {mode : Mode} {extensions : List String} {error : FileError}

/-- A text is led by no comment if no closing mark stands behind the mark that opens it. -/
theorem not_leads_of_not_infix {content : String} {tail : List Char} (h : content.toList = opening ++ tail)
    (hnot : ¬ closing <:+: tail) (body rest : String) : ¬ Leads body rest content := by
  intro hleads
  rw [hleads.toList_eq, List.append_cancel_left_eq] at h
  exact hnot (h ▸ ⟨body.toList, rest.toList, List.append_assoc _ _ _⟩)

/-- The header of a text that a comment leads can be renewed. -/
theorem Leads.exists_renew?_eq_some {body rest content : String} (h : Leads body rest content) (header : String) :
    ∃ new, renew? header content = some new := by
  by_cases hslash : "/".toList <+: body.toList
  · rw [renew?_of_toList_eq h.toList_eq, if_pos (hslash.trans (List.prefix_append _ _))]
    exact ⟨_, rfl⟩
  · exact ⟨_, h.renew?_eq_some hslash⟩

/-- What keeps the header of a file from being renewed, and the error that reports it. -/
inductive Refuses (checkout : Checkout) (path : Path) : FileError → Prop
  /-- the file is not UTF-8 -/
  | notText {bytes : List UInt8} (hcontent : checkout.content? path.location = some (.binary bytes)) :
      Refuses checkout path (.access path .notText)
  /-- no comment leads the text; where the text starts with `/*/`, this is not noticed -/
  | noHeader {text : String} (hcontent : checkout.content? path.location = some (.text text))
      (hleads : ∀ body rest, ¬ Leads body rest text) (hslash : ¬ "/*/".toList <+: text.toList) :
      Refuses checkout path (.noHeader path)

/-- A file holds a text that has a new one once its header is renewed. -/
structure RenewsTo (checkout : Checkout) (header : String) (path : Path) (text new : String) : Prop where
  content : checkout.content? path.location = some (.text text)
  renew : renew? header text = some new

theorem RenewsTo.eq_of_renewsTo {text' new' : String} (h : RenewsTo checkout header path text new)
    (h' : RenewsTo checkout header path text' new') : new = new' := by
  have htext : text = text' := Content.text.inj (Option.some.inj (h.content.symm.trans h'.content))
  exact Option.some.inj (h.renew.symm.trans (htext ▸ h'.renew))

theorem applies_renewal_iff :
    (renewal header path).Applies checkout ↔ ∃ text new, RenewsTo checkout header path text new := by
  constructor
  · rintro ⟨text, new, hcontent, hchange⟩
    exact ⟨text, new, hcontent, renewal_change_eq_ok_iff.mp hchange⟩
  · rintro ⟨text, new, hcontent, hrenew⟩
    exact ⟨text, new, hcontent, renewal_change_eq_ok_iff.mpr hrenew⟩

namespace Refuses

theorem of_content? (h : Refuses before path error)
    (hcontent : after.content? path.location = before.content? path.location) : Refuses after path error := by
  cases h with
  | notText hbinary => exact .notText (hcontent.trans hbinary)
  | noHeader htext hleads hslash => exact .noHeader (hcontent.trans htext) hleads hslash

/-- There is one error that reports it. -/
theorem eq {error' : FileError} (h : Refuses checkout path error) (h' : Refuses checkout path error') :
    error = error' := by
  cases h with
  | notText hbinary =>
      cases h' with
      | notText => rfl
      | noHeader htext =>
          rw [hbinary] at htext
          cases htext
  | noHeader htext =>
      cases h' with
      | notText hbinary =>
          rw [hbinary] at htext
          cases htext
      | noHeader => rfl

theorem not_applies (h : Refuses checkout path error) : ¬ (renewal header path).Applies checkout := by
  rw [applies_renewal_iff]
  rintro ⟨text, new, hcontent, hrenew⟩
  cases h with
  | notText hbinary =>
      rw [hcontent] at hbinary
      cases hbinary
  | noHeader htext hleads hslash =>
      rw [hcontent, Option.some.injEq, Content.text.injEq] at htext
      subst htext
      rw [(renew?_eq_none_iff hleads).mpr hslash] at hrenew
      cases hrenew

/-- A file that refuses is not changed. -/
theorem renewFile_eq_error (h : Refuses checkout path error) :
    (renewFile header mode path).run checkout = .error error checkout := by
  cases h with
  | notText hbinary =>
      have hempty : ¬ path.isEmpty := by
        intro hempty
        rw [Path.location_eq_nil_of_isEmpty hempty] at hbinary
        have hnone := content?_eq_none_iff.mpr checkout.isTree.nil_not_mem
        rw [hbinary] at hnone
        cases hnone
      have hread : checkout.read path = .error .notText := by
        unfold Checkout.read
        rw [if_neg hempty, readAt, hbinary]
      have hfails : (Work.readFile path).run checkout = .error (.access path .notText) checkout := by
        rw [Work.readFile, Work.run_get_bind, hread]
        rfl
      exact Work.bind_eq_error_iff.mpr (Or.inl hfails)
  | noHeader htext hleads hslash =>
      have hnone : renew? header _ = none := (renew?_eq_none_iff hleads).mpr hslash
      refine Work.bind_eq_error_iff.mpr (Or.inr ⟨_, checkout, Work.readFile_eq_ok_iff.mpr ⟨htext, rfl⟩, ?_⟩)
      rw [hnone]
      rfl

end Refuses

/-- The header of a file can be renewed unless the file refuses. -/
theorem applies_renewal_iff_not_refuses (hfile : checkout.isFile path.location) :
    (renewal header path).Applies checkout ↔ ∀ error, ¬ Refuses checkout path error := by
  refine ⟨fun happlies error hrefuses => hrefuses.not_applies happlies, fun h => ?_⟩
  obtain ⟨content, hcontent⟩ := Option.isSome_iff_exists.mp hfile
  cases content with
  | binary bytes => exact absurd (.notText hcontent) (h _)
  | text text =>
      cases hrenew : renew? header text with
      | some new => exact applies_renewal_iff.mpr ⟨text, new, hcontent, hrenew⟩
      | none =>
          have hleads : ∀ body rest, ¬ Leads body rest text := by
            intro body rest hleads
            obtain ⟨new, hnew⟩ := hleads.exists_renew?_eq_some header
            rw [hrenew] at hnew
            cases hnew
          exact absurd (.noHeader hcontent hleads ((renew?_eq_none_iff hleads).mp hrenew)) (h _)

/-- Either no file refuses, or one is the first to do so. -/
theorem exists_first_refuses (checkout : Checkout) (paths : List Path) :
    (∀ path ∈ paths, ∀ error, ¬ Refuses checkout path error) ∨
      ∃ front path rest error, paths = front ++ path :: rest ∧
        (∀ other ∈ front, ∀ error, ¬ Refuses checkout other error) ∧ Refuses checkout path error := by
  induction paths with
  | nil => exact Or.inl (by simp)
  | cons first others ih =>
      by_cases hfirst : ∃ error, Refuses checkout first error
      · obtain ⟨error, hrefuses⟩ := hfirst
        exact Or.inr ⟨[], first, others, error, rfl, by simp, hrefuses⟩
      · rw [not_exists] at hfirst
        rcases ih with hnone | ⟨front, path, rest, error, rfl, hfront, hrefuses⟩
        · exact Or.inl (List.forall_mem_cons.mpr ⟨hfirst, hnone⟩)
        · exact Or.inr ⟨first :: front, path, rest, error, rfl, List.forall_mem_cons.mpr ⟨hfirst, hfront⟩, hrefuses⟩

/-- Files have the text that renewing their headers makes of theirs, unless the run is a dry one; all others are as
they were. -/
structure Renewed (mode : Mode) (header : String) (paths : List Path) (before after : Checkout) : Prop where
  sameTree : SameTree before after
  texts : ∀ path ∈ paths, ∃ text new, RenewsTo before header path text new ∧
    after.content? path.location = some (.text (match mode with | .write => new | .dryRun => text))
  frame : ∀ location, location ∉ paths.map Path.location → after.content? location = before.content? location

theorem renewed_of_performed (hnodup : (paths.map Path.location).Nodup)
    (h : Performed mode (paths.map (renewal header)) before after) : Renewed mode header paths before after := by
  have hnodup : ((paths.map (renewal header)).map Revision.location).Nodup := by rwa [List.map_map]
  refine ⟨h.sameTree, fun path hpath => ?_, fun location hlocation => ?_⟩
  · have hmem : renewal header path ∈ paths.map (renewal header) := List.mem_map_of_mem hpath
    cases mode with
    | write =>
        obtain ⟨text, htext⟩ := Revised.exists_text h hmem
        obtain ⟨new, hnew, hafter⟩ := Revised.textAt_eq_ok h htext
        rw [Revision.textAt_of_mem hmem hnodup] at hnew
        exact ⟨text, new, ⟨htext, renewal_change_eq_ok_iff.mp hnew⟩, hafter⟩
    | dryRun =>
        obtain ⟨happlies, rfl⟩ := h
        obtain ⟨text, new, hrenews⟩ := applies_renewal_iff.mp (happlies _ hmem)
        exact ⟨text, new, hrenews, hrenews.content⟩
  · apply h.content?_of_forall_ne
    intro revision hrevision heq
    obtain ⟨path, hpath, rfl⟩ := List.mem_map.mp hrevision
    exact hlocation (heq ▸ List.mem_map_of_mem hpath)

/-- The files whose headers are not as they would be renewed. -/
def outdated (checkout : Checkout) (header : String) (paths : List Path) : List Path :=
  paths.filter fun path => (renewal header path).changeAfter checkout [] = .written

theorem mem_outdated_iff (hmem : path ∈ paths) (h : RenewsTo checkout header path text new) :
    path ∈ outdated checkout header paths ↔ text ≠ new := by
  have hchange : (renewal header path).changeAfter checkout [] = if text = new then .unchanged else .written :=
    Revision.changeAfter_of_textAfter? (Revision.textAfter?_eq_some_iff.mpr ⟨text, h.content, rfl⟩)
      (renewal_change_eq_ok_iff.mpr h.renew)
  rw [outdated, List.mem_filter, and_iff_right hmem, hchange]
  split
  next heq => simp [heq]
  next hne => simp [hne]

/-- Files none of which refuses are renewed, and those that were outdated are reported. -/
theorem exists_renewFiles_eq_ok (header : String) (mode : Mode) (hnodup : (paths.map Path.location).Nodup)
    (hfiles : ∀ path ∈ paths, before.isFile path.location)
    (h : ∀ path ∈ paths, ∀ error, ¬ Refuses before path error) :
    ∃ after, (renewFiles header mode paths).run before = .ok (outdated before header paths) after ∧
      Renewed mode header paths before after := by
  have hlocations : ((paths.map (renewal header)).map Revision.location).Nodup := by rwa [List.map_map]
  have happlies : ∀ revision ∈ paths.map (renewal header), revision.Applies before := by
    intro revision hrevision
    obtain ⟨path, hpath, rfl⟩ := List.mem_map.mp hrevision
    exact (applies_renewal_iff_not_refuses (hfiles path hpath)).mpr (h path hpath)
  obtain ⟨after, hafter⟩ : ∃ after, Performed mode (paths.map (renewal header)) before after :=
    Performed.exists_of_applies hlocations happlies
  refine ⟨after, ?_, renewed_of_performed hnodup hafter⟩
  rw [renewFiles_eq_map, Work.map_reviseEach_eq_ok_iff hlocations]
  refine ⟨hafter, ?_⟩
  rw [outdated, List.filter_map, List.map_map]
  simp [Function.comp_def]

/-- When files were renewed and the next one fails, the files behind it are not looked at. -/
theorem renewFiles_append_eq_error {changed : List Path}
    (hfront : (renewFiles header mode front).run before = .ok changed middle)
    (hpath : (renewFile header mode path).run middle = .error error after) :
    (renewFiles header mode (front ++ path :: rest)).run before = .error error after := by
  induction front generalizing before changed with
  | nil =>
      obtain ⟨rfl, rfl⟩ := Work.pure_eq_ok_iff.mp hfront
      exact Work.bind_eq_error_iff.mpr (Or.inl hpath)
  | cons first others ih =>
      obtain ⟨change, between, hfirst, hbehind⟩ := Work.bind_eq_ok_iff.mp hfront
      obtain ⟨changed, last, hothers, hlast⟩ := Work.bind_eq_ok_iff.mp hbehind
      obtain ⟨-, rfl⟩ := Work.pure_eq_ok_iff.mp hlast
      refine Work.bind_eq_error_iff.mpr (Or.inr ⟨change, between, hfirst, ?_⟩)
      exact Work.bind_eq_error_iff.mpr (Or.inl (ih hothers))

theorem run_renewFolder (hfolder : before.folderAt folder = .ok folder.location) (copyright : String)
    (extensions : List String) (mode : Mode) :
    (renewFolder folder copyright extensions mode).run before =
      (renewFiles (comment copyright) mode (filesBelow before folder folder.location extensions)).run before := by
  rw [renewFolder, Work.run_get_bind, hfolder]

/-- Renewing a folder goes through the files that a walk finds, in their order. If none of them refuses, each is
renewed, and those are yielded of which the text changes. Otherwise it fails as the first that refuses does; the
files in front of that one are renewed, and it and those behind it are as they were. -/
theorem folder_renewal_outcome (hfolder : before.folderAt folder = .ok folder.location) (copyright : String)
    (extensions : List String) (mode : Mode) :
    ∃ paths, Walk before folder extensions paths ∧
      (((∀ path ∈ paths, ∀ error, ¬ Refuses before path error) ∧
          ∃ changed after, (renewFolder folder copyright extensions mode).run before = .ok changed after ∧
            Renewed mode (comment copyright) paths before after ∧ changed.Sublist paths ∧
            ∀ path ∈ paths, ∀ text new, RenewsTo before (comment copyright) path text new →
              (path ∈ changed ↔ text ≠ new)) ∨
        ∃ front path rest error after, paths = front ++ path :: rest ∧
          (∀ other ∈ front, ∀ error, ¬ Refuses before other error) ∧ Refuses before path error ∧
          (renewFolder folder copyright extensions mode).run before = .error error after ∧
          Renewed mode (comment copyright) front before after ∧
          ∀ other ∈ path :: rest, after.content? other.location = before.content? other.location) := by
  have hwalk := walk_filesBelow before folder extensions
  have hrun := run_renewFolder hfolder copyright extensions mode
  refine ⟨_, hwalk, ?_⟩
  rcases exists_first_refuses before (filesBelow before folder folder.location extensions) with
    hnone | ⟨front, path, rest, error, hpaths, hfront, hrefuses⟩
  · obtain ⟨after, hok, hrenewed⟩ :=
      exists_renewFiles_eq_ok (comment copyright) mode hwalk.nodup (fun _ => hwalk.isFile) hnone
    refine Or.inl ⟨hnone, _, after, hrun.trans hok, hrenewed, List.filter_sublist, ?_⟩
    exact fun path hpath text new => mem_outdated_iff hpath
  · rw [hpaths] at hwalk hrun ⊢
    obtain ⟨hnodup, -, hapart⟩ := List.nodup_append.mp (List.map_append ▸ hwalk.nodup)
    have hbehind : ∀ other ∈ path :: rest, other.location ∉ front.map Path.location :=
      fun other hother hmem => hapart _ hmem _ (List.mem_map_of_mem hother) rfl
    have hfiles : ∀ other ∈ front, before.isFile other.location :=
      fun other hother => hwalk.isFile (List.mem_append_left _ hother)
    obtain ⟨after, hok, hrenewed⟩ := exists_renewFiles_eq_ok (comment copyright) mode hnodup hfiles hfront
    -- the file that refuses is not one of those in front, so it does so when it is reached
    have hlast : Refuses after path error :=
      hrefuses.of_content? (hrenewed.frame _ (hbehind path List.mem_cons_self))
    refine Or.inr ⟨front, path, rest, error, after, rfl, hfront, hrefuses, ?_, hrenewed, ?_⟩
    · exact hrun.trans (renewFiles_append_eq_error hok hlast.renewFile_eq_error)
    · exact fun other hother => hrenewed.frame _ (hbehind other hother)

end Header

namespace Sample

open Header

theorem isTree_headers : IsTree [["src", "a.h"], ["src", "b.h"], ["src", "c.h"]] [] :=
  ⟨by decide, by decide, by decide, by simp, by decide⟩

/-- A file that holds a text, between two files with headers that can be renewed. -/
def headers (text : String) : Checkout where
  files :=
    [ (["src", "a.h"], .text "/* old */\nint a;\n"),
      (["src", "b.h"], .text text),
      (["src", "c.h"], .text "/* old */\nint c;\n") ]
  folders := []
  isTree := isTree_headers

variable (text : String)

theorem folderAt_headers : (headers text).folderAt ⟨"src"⟩ = .ok (Path.location ⟨"src"⟩) := rfl

theorem filesBelow_headers :
    filesBelow (headers text) ⟨"src"⟩ (Path.location ⟨"src"⟩) ["h"] = [⟨"src/a.h"⟩, ⟨"src/b.h"⟩, ⟨"src/c.h"⟩] := by
  have hbelow : (headers text).below (Path.location ⟨"src"⟩) = [["a.h"], ["b.h"], ["c.h"]] := rfl
  rw [filesBelow, hbelow, List.mergeSort_of_pairwise (by decide)]
  decide

theorem walk_headers : Walk (headers text) ⟨"src"⟩ ["h"] [⟨"src/a.h"⟩, ⟨"src/b.h"⟩, ⟨"src/c.h"⟩] := by
  have hwalk := walk_filesBelow (headers text) ⟨"src"⟩ ["h"]
  rwa [filesBelow_headers] at hwalk

theorem applies_headers : ∀ path ∈ [⟨"src/a.h"⟩, ⟨"src/c.h"⟩],
    (renewal (comment "New") path).Applies (headers text) := by
  have ha : RenewsTo (headers text) (comment "New") ⟨"src/a.h"⟩ "/* old */\nint a;\n" "/*\n * New\n */\nint a;\n" :=
    ⟨rfl, by decide +kernel⟩
  have hc : RenewsTo (headers text) (comment "New") ⟨"src/c.h"⟩ "/* old */\nint c;\n" "/*\n * New\n */\nint c;\n" :=
    ⟨rfl, by decide +kernel⟩
  simp only [List.forall_mem_cons, applies_renewal_iff]
  exact ⟨⟨_, _, ha⟩, ⟨_, _, hc⟩, by simp⟩

end Sample

namespace Header

/-- Of three files the second refuses, so that only the first is renewed. -/
theorem folder_renewal_outcome_open :
    (Sample.headers "/* open").folderAt ⟨"src"⟩ = .ok (Path.location ⟨"src"⟩) ∧
      Walk (Sample.headers "/* open") ⟨"src"⟩ ["h"] [⟨"src/a.h"⟩, ⟨"src/b.h"⟩, ⟨"src/c.h"⟩] ∧
      ∃ after, (renewFolder ⟨"src"⟩ "New" ["h"] .write).run (Sample.headers "/* open") =
          .error (.noHeader ⟨"src/b.h"⟩) after ∧
        Renewed .write (comment "New") [⟨"src/a.h"⟩] (Sample.headers "/* open") after := by
  have hfolder := Sample.folderAt_headers "/* open"
  have hsample := Sample.walk_headers "/* open"
  have hleads : ∀ body rest, ¬ Leads body rest "/* open" :=
    not_leads_of_not_infix (by decide) (cut?_eq_none_iff.mp (by decide : cut? closing " open".toList = none))
  have hopen : Refuses (Sample.headers "/* open") ⟨"src/b.h"⟩ (.noHeader ⟨"src/b.h"⟩) :=
    .noHeader rfl hleads (by decide)
  refine ⟨hfolder, hsample, ?_⟩
  obtain ⟨paths, hwalk, ⟨hnone, -⟩ | ⟨front, path, rest, error, after, rfl, hfront, hrefuses, hrun, hrenewed, -⟩⟩ :=
    folder_renewal_outcome hfolder "New" ["h"] .write
  · rw [hwalk.eq hsample] at hnone
    exact absurd hopen (hnone _ (by simp) _)
  · have hpaths := hwalk.eq hsample
    -- the file in front of the one that refuses does not refuse itself
    cases front with
    | nil =>
        obtain ⟨rfl, -⟩ := List.cons.inj hpaths
        exact absurd (Sample.applies_headers _ _ (by simp)) hrefuses.not_applies
    | cons first others =>
        obtain ⟨rfl, hothers⟩ := List.cons.inj hpaths
        cases others with
        | nil =>
            obtain ⟨rfl, -⟩ := List.cons.inj hothers
            obtain rfl := hrefuses.eq hopen
            exact ⟨after, hrun, hrenewed⟩
        | cons second more =>
            obtain ⟨rfl, -⟩ := List.cons.inj hothers
            exact absurd hopen (hfront _ (by simp) _)

/-- A text that starts with `/*/` and no comment leads is renewed like the others, and what stood there becomes
code. -/
theorem folder_renewal_overlooks :
    (∀ body rest, ¬ Leads body rest "/*/ old\nint b;\n") ∧
      ∃ after, (renewFolder ⟨"src"⟩ "New" ["h"] .write).run (Sample.headers "/*/ old\nint b;\n") =
          .ok [⟨"src/a.h"⟩, ⟨"src/b.h"⟩, ⟨"src/c.h"⟩] after ∧
        after.content? ["src", "b.h"] = some (.text "/*\n * New\n */ old\nint b;\n") := by
  have hleads : ∀ body rest, ¬ Leads body rest "/*/ old\nint b;\n" :=
    not_leads_of_not_infix (by decide) (cut?_eq_none_iff.mp (by decide : cut? closing "/ old\nint b;\n".toList = none))
  have hb : RenewsTo (Sample.headers "/*/ old\nint b;\n") (comment "New") ⟨"src/b.h"⟩ "/*/ old\nint b;\n"
      "/*\n * New\n */ old\nint b;\n" := ⟨rfl, by decide +kernel⟩
  have hwalk := Sample.walk_headers "/*/ old\nint b;\n"
  have hrefuses : ∀ path ∈ [⟨"src/a.h"⟩, ⟨"src/b.h"⟩, ⟨"src/c.h"⟩], ∀ error,
      ¬ Refuses (Sample.headers "/*/ old\nint b;\n") path error := by
    intro path hpath error hrefuses
    have happlies : (renewal (comment "New") path).Applies (Sample.headers "/*/ old\nint b;\n") := by
      by_cases hsecond : path = ⟨"src/b.h"⟩
      · rw [hsecond]
        exact applies_renewal_iff.mpr ⟨_, _, hb⟩
      · exact Sample.applies_headers _ path (by simpa [hsecond] using hpath)
    exact hrefuses.not_applies happlies
  obtain ⟨after, hrun, hrenewed⟩ :=
    exists_renewFiles_eq_ok (comment "New") .write hwalk.nodup (fun _ => hwalk.isFile) hrefuses
  have houtdated : outdated (Sample.headers "/*/ old\nint b;\n") (comment "New")
      [⟨"src/a.h"⟩, ⟨"src/b.h"⟩, ⟨"src/c.h"⟩] = [⟨"src/a.h"⟩, ⟨"src/b.h"⟩, ⟨"src/c.h"⟩] := by
    decide +kernel
  obtain ⟨text, new, hrenews, hafter⟩ := hrenewed.texts ⟨"src/b.h"⟩ (by simp)
  refine ⟨hleads, after, ?_, ?_⟩
  · rw [run_renewFolder (Sample.folderAt_headers _), Sample.filesBelow_headers, hrun, houtdated]
  · rw [hb.eq_of_renewsTo hrenews]
    exact hafter

end Header

end Bindery
