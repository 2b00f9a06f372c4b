import Bindery.Header
import Bindery.Proofs.Path
import Bindery.Proofs.Revision
import Bindery.Proofs.Splice

/-!
# Renewing headers

The comment made of a copyright text holds no pattern that the text does not hold. So the mark that ends
the comment is found where the comment ends, a header that was renewed is not changed by renewing it
again, and new bodies of blocks leave it alone.
-/

namespace Bindery

open Text

namespace Text

theorem prefix_trimEnd (text : List Char) : trimEnd text <+: text := by
  rw [← List.reverse_suffix, trimEnd, List.reverse_reverse]
  exact List.dropWhile_suffix _

theorem infix_trim (text : List Char) : trim text <:+: text :=
  (prefix_trimEnd _).isInfix.trans (List.dropWhile_suffix _).isInfix

/-- A line of a text is a part of it. -/
theorem infix_of_mem_lines {text line : List Char} (h : line ∈ lines text) : line <:+: text := by
  have hclosed : ∀ line ∈ (pieces (· = '\n') text).dropLast.map dropCarriageReturn,
      line <:+: text := by
    intro line hline
    obtain ⟨piece, hpiece, rfl⟩ := List.mem_map.mp hline
    have hinfix := infix_of_mem_pieces (List.dropLast_subset _ hpiece)
    rw [dropCarriageReturn]
    split
    · exact (List.dropLast_prefix piece).isInfix.trans hinfix
    · exact hinfix
  simp only [lines] at h
  split at h
  · exact hclosed line h
  · exact hclosed line h
  next last _ hlast =>
    rcases List.mem_append.mp h with hfront | hend
    · exact hclosed line hfront
    · rw [List.mem_singleton.mp hend]
      exact infix_of_mem_pieces (List.mem_of_getLast? hlast)

end Text

namespace Header

variable {pattern : List Char} {copyright header content new : String}

theorem space_not_mem_closing : ' ' ∉ closing := by decide

/-- A pattern that is neither in the copyright text nor in the frame of the comment is not in the
comment. -/
theorem not_infix_comment (hspace : ' ' ∉ pattern) (hnewline : '\n' ∉ pattern)
    (hopening : ¬ pattern <:+: opening) (hstar : ¬ pattern <:+: " *".toList)
    (htext : ¬ pattern <:+: copyright.toList) : ¬ pattern <:+: (comment copyright).toList := by
  have hnil : ¬ pattern <:+: [] := by
    rw [List.infix_nil]
    rintro rfl
    exact hopening List.nil_infix
  have hline : ∀ line ∈ lines (trim copyright.toList), ¬ pattern <:+: trimEnd (" * ".toList ++ line) := by
    intro line hline hinfix
    have hwhole : pattern <:+: " *".toList ++ ' ' :: line := hinfix.trans (prefix_trimEnd _).isInfix
    rcases (infix_append_cons_iff hspace).mp hwhole with hmark | hrest
    · exact hstar hmark
    · exact htext ((hrest.trans (infix_of_mem_lines hline)).trans (infix_trim _))
  -- the lines are separated by line feeds, so no occurrence spans two of them
  have hlines : ∀ texts ⊆ lines (trim copyright.toList), ¬ pattern <:+: texts.flatMap commentLine := by
    intro texts htexts
    induction texts with
    | nil => exact hnil
    | cons line rest ih =>
        have hrest := ih fun other hother => htexts (List.mem_cons_of_mem _ hother)
        rw [List.flatMap_cons, commentLine, List.append_assoc, List.singleton_append,
          infix_append_cons_iff hnewline]
        exact not_or.mpr ⟨hline line (htexts List.mem_cons_self), hrest⟩
  have hcomment : (comment copyright).toList =
      opening ++ '\n' :: ((lines (trim copyright.toList)).flatMap commentLine ++ ' ' :: []) := by
    simp [comment]
  rw [hcomment, infix_append_cons_iff hnewline, infix_append_cons_iff hspace]
  exact not_or.mpr ⟨hopening, not_or.mpr ⟨hlines _ (List.Subset.refl _), hnil⟩⟩

theorem exists_comment_eq (copyright : String) :
    ∃ front, (comment copyright).toList = opening ++ front ++ [' '] := by
  refine ⟨'\n' :: (lines (trim copyright.toList)).flatMap commentLine, ?_⟩
  simp [comment]

/-- A renewed text starts with the whole comment. -/
theorem prefix_of_renew?_eq_some (h : renew? header content = some new) :
    header.toList ++ closing <+: new.toList := by
  unfold renew? at h
  split at h
  next =>
    obtain ⟨⟨before, after⟩, hcut, rfl⟩ := Option.map_eq_some_iff.mp h
    obtain ⟨-, hclosing, -⟩ := cut?_eq_some_iff.mp hcut
    rw [String.toList_append, String.toList_ofList, List.prefix_append_right_inj]
    exact hclosing
  next => cases h

/-- Renewing the header of a text that starts with the comment changes nothing. -/
theorem renew?_eq_self (hclosing : ¬ closing <:+: copyright.toList)
    (h : (comment copyright).toList ++ closing <+: content.toList) :
    renew? (comment copyright) content = some content := by
  obtain ⟨front, hfront⟩ := exists_comment_eq copyright
  obtain ⟨rest, hrest⟩ := h
  have hlast : (comment copyright).toList.getLast? = some ' ' := by
    rw [hfront, List.getLast?_concat]
  have hnot : ¬ closing <:+: (comment copyright).toList :=
    not_infix_comment (by decide) (by decide) (by decide) (by decide) hclosing
  -- the blank in front of the mark keeps an occurrence from starting in the comment
  have hcut := cut?_append_of_getLast? space_not_mem_closing hlast hnot rest
  have hstart : opening.isPrefixOf content.toList := by
    rw [List.isPrefixOf_iff_prefix, ← hrest, hfront]
    simp
  rw [renew?, if_pos hstart, ← hrest, hcut, Option.map_some, Option.some.injEq, ← String.toList_inj,
    ← hrest, String.toList_append, String.toList_ofList, List.append_assoc]

/-- The comment and the mark that ends it hold no begin marker, when the copyright text holds none. -/
theorem not_infix_comment_append_closing (hbegin : ¬ beginMarker <:+: copyright.toList) :
    ¬ beginMarker <:+: (comment copyright).toList ++ closing := by
  have hcomment : ¬ beginMarker <:+: (comment copyright).toList :=
    not_infix_comment (by decide) (by decide) (by decide) (by decide) hbegin
  obtain ⟨front, hfront⟩ := exists_comment_eq copyright
  rw [hfront] at hcomment ⊢
  rw [List.append_assoc, List.singleton_append, infix_append_cons_iff (by decide)]
  refine not_or.mpr ⟨fun hinfix => hcomment ?_, by decide⟩
  exact hinfix.trans (List.prefix_append _ _).isInfix

/-- The revision that renews the header of a file. -/
def renewal (header : String) (path : Path) : Revision where
  path := path
  change content :=
    match renew? header content with
    | some new => .ok new
    | none => .error (.noHeader path)

theorem renewal_change_eq_ok_iff {path : Path} :
    (renewal header path).change content = .ok new ↔ renew? header content = some new := by
  cases hrenew : renew? header content <;> simp [renewal, hrenew]

/-- The revisions that renew the headers of the files below a folder. -/
def renewals (checkout : Checkout) (folder : Path) (copyright : String) (extensions : List String) :
    List Revision :=
  (filesBelow checkout folder folder.location extensions).map (renewal (comment copyright))

variable {checkout before after : Checkout} {mode : Mode} {folder : Path} {extensions : List String}

theorem renewals_of_sameTree (h : Checkout.SameTree before after) :
    renewals after folder copyright extensions = renewals before folder copyright extensions := by
  rw [renewals, filesBelow, h.below, renewals, filesBelow]

theorem renewFile_eq_revise (path : Path) :
    renewFile header mode path = Work.revise (renewal header path) mode := by
  unfold renewFile Work.revise
  congr 1
  funext content
  cases hrenew : renew? header content <;> simp only [renewal, hrenew] <;> rfl

theorem renewFiles_eq_map (header : String) (paths : List Path) :
    renewFiles header mode paths =
      (fun results => (results.filter fun result => result.2 = .written).map Prod.fst) <$>
        Work.reviseEach (renewal header) mode paths := by
  induction paths with
  | nil => rfl
  | cons path rest ih =>
      rw [renewFiles, renewFile_eq_revise, ih, Work.reviseEach, map_bind]
      congr
      funext change
      rw [bind_map_left, map_bind]
      congr
      funext others
      cases change <;> simp

/-- Renewing a folder renews the files below it one after the other. -/
theorem renewFolder_eq_ok_iff {changed : List Path} :
    (renewFolder folder copyright extensions mode).run before = .ok changed after ↔
      before.folderAt folder = .ok folder.location ∧
        (renewFiles (comment copyright) mode
          (filesBelow before folder folder.location extensions)).run before = .ok changed after := by
  rw [renewFolder, Work.bind_eq_ok_iff]
  constructor
  · rintro ⟨checkout, middle, hget, h⟩
    cases hget
    split at h
    · cases h
    next location hlocation =>
      obtain rfl := Checkout.folderAt_eq_ok hlocation
      exact ⟨hlocation, h⟩
  · rintro ⟨hlocation, h⟩
    refine ⟨before, before, rfl, ?_⟩
    rw [hlocation]
    exact h

theorem carriesOut_renewFolder (folder : Path) (copyright : String) (extensions : List String)
    (before : Checkout) :
    Work.CarriesOut (renewFolder folder copyright extensions .write)
      (renewals before folder copyright extensions) before := by
  apply Work.CarriesOut.get_bind
  cases hfolder : before.folderAt folder with
  | error failure => exact Work.carriesOut_throw _ _ before
  | ok location =>
      obtain rfl := Checkout.folderAt_eq_ok hfolder
      dsimp only
      rw [renewFiles_eq_map]
      exact (Work.carriesOut_reviseEach _ _ before).map _

theorem renewFolder_of_settled (hfolder : checkout.folderAt folder = .ok folder.location)
    (h : ∀ revision ∈ renewals checkout folder copyright extensions, revision.Settled checkout) :
    (renewFolder folder copyright extensions mode).run checkout = .ok [] checkout := by
  rw [renewFolder_eq_ok_iff, renewFiles_eq_map, Work.map_eq_ok_iff]
  refine ⟨hfolder, _, Work.reviseEach_of_settled (fun path hpath => ?_) mode, by simp⟩
  exact h _ (List.mem_map_of_mem hpath)

section Locations

variable {base location : Location} {name : String}

/-- The names that lead to a file below a named folder are names of files. -/
theorem all_isFileName_of_mem_below (hfolder : folder.location = base ++ [name])
    (hname : isFileName name) {names : Location} (h : names ∈ checkout.below folder.location) :
    names.all isFileName := by
  obtain ⟨-, hfile⟩ := Checkout.mem_below_iff.mp h
  have hnamed := checkout.isTree.named _ hfile
  rw [hfolder, List.append_assoc] at hnamed
  exact Location.all_isFileName_of_isNamed hname hnamed

/-- The files below a named folder are those that lie there and have one of the extensions. -/
theorem mem_locations_filesBelow_iff (hfolder : folder.location = base ++ [name])
    (hname : isFileName name) :
    location ∈ (filesBelow checkout folder folder.location extensions).map Path.location ↔
      location ∈ checkout.files.map Prod.fst ∧
        ∃ between last, location = folder.location ++ between ++ [last]
          ∧ Path.hasExtension extensions ⟨last⟩ := by
  simp only [filesBelow, List.mem_map, List.mem_filter, List.mem_mergeSort]
  constructor
  · rintro ⟨path, ⟨⟨names, hbelow, rfl⟩, hextension⟩, rfl⟩
    have hnames := all_isFileName_of_mem_below hfolder hname hbelow
    obtain ⟨hne, hfile⟩ := Checkout.mem_below_iff.mp hbelow
    rw [Path.location_join_names folder hnames]
    refine ⟨List.mem_map.mp hfile, ?_⟩
    rcases List.eq_nil_or_concat names with hnil | ⟨between, last, rfl⟩
    · exact absurd hnil hne
    · rw [List.concat_eq_append] at hnames hextension ⊢
      rw [Path.hasExtension_join folder hnames] at hextension
      exact ⟨between, last, (List.append_assoc _ _ _).symm, hextension⟩
  · rintro ⟨hfile, between, last, rfl, hextension⟩
    have hbelow : between ++ [last] ∈ checkout.below folder.location := by
      refine Checkout.mem_below_iff.mpr ⟨by simp, ?_⟩
      rw [← List.append_assoc]
      exact List.mem_map.mpr hfile
    have hnames := all_isFileName_of_mem_below hfolder hname hbelow
    refine ⟨_, ⟨⟨_, hbelow, rfl⟩, ?_⟩, ?_⟩
    · rwa [Path.hasExtension_join folder hnames]
    · rw [Path.location_join_names folder hnames, List.append_assoc]

end Locations

end Header

end Bindery
