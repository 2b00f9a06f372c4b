import Bindery.Proofs.CodeLines
import Bindery.Proofs.FlagLines
import Bindery.Proofs.FreeTexts
import Bindery.Proofs.MemberLines
import Bindery.Proofs.Numbering
import Mathlib.Data.List.Chain

/-!
# Comments of the public header

The header defines a macro for each constant, member and flag, with what it is for in a comment before or
behind it. The definitions are all the code there is exactly if the comment of each constant has no code and
ends its line, and no comment that a backslash ends stands before another definition.
-/

namespace Bindery

open Text Naming Code

/-! ## Definitions -/

theorem lineFeed_not_mem_singleLine (text : String) : '\n' ∉ (singleLine text).toList :=
  not_mem_singleLine (by decide) (by decide) text

namespace Define

variable {define : Define}

/-- A definition that can stand on a line of its own. -/
structure IsPlain (define : Define) : Prop where
  name : Nominal define.name
  lineFeed_not_mem : '\n' ∉ define.value.toList
  slash_not_mem : '/' ∉ define.value.toList
  last : ∃ c, define.value.toList.getLast? = some c ∧ c ≠ ' ' ∧ c ≠ '\\'

theorem IsPlain.isDirective (h : define.IsPlain) : IsDirective define.directive.toList := by
  have hname {c : Char} (hc : isNominal c = false) : c ∉ define.name.toList := fun hmem => by
    rw [h.name c hmem] at hc
    cases hc
  have hbreak := hname (c := '\n') (by decide)
  have hslash := hname (c := '/') (by decide)
  refine ⟨?_, ?_, ?_, ?_⟩
  · simp [directive, String.toList_append, hbreak, h.lineFeed_not_mem]
  · simp [directive, String.toList_append, hslash, h.slash_not_mem]
  · simp [directive, String.toList_append]
  · obtain ⟨c, hc, hends⟩ := h.last
    rw [directive, String.toList_append, List.getLast?_append, hc]
    intro d hd
    cases hd
    exact hends

theorem isPlain_of_nominal (hname : Nominal define.name) (hvalue : Nominal define.value)
    (hsome : define.value.toList ≠ []) : define.IsPlain where
  name := hname
  lineFeed_not_mem hmem := absurd (hvalue '\n' hmem) (by decide)
  slash_not_mem hmem := absurd (hvalue '/' hmem) (by decide)
  last := by
    have hlast := hvalue _ (List.getLast_mem hsome)
    refine ⟨_, List.getLast?_eq_some_getLast hsome, fun heq => ?_, fun heq => ?_⟩ <;>
    · rw [heq] at hlast
      revert hlast
      decide

/-- A definition stands alone or before a comment, with spaces between them. -/
theorem toList_line (define : Define) (width : Nat) : (define.line width).toList = define.directive.toList ∨
    ∃ count text, '\n' ∉ text ∧
      (define.line width).toList = define.directive.toList ++ List.replicate count ' ' ++ '/' :: '/' :: text := by
  rw [line]
  split
  · exact .inl rfl
  · refine .inr ⟨width - define.directive.length + 2, "/< ".toList ++ (singleLine define.help).toList, ?_, ?_⟩
    · simp [lineFeed_not_mem_singleLine]
    · simp [padRight, String.toList_append, List.replicate_succ']

theorem code?_line (h : IsDirective define.directive.toList) (width : Nat) :
    code? (define.line width).toList = some define.directive.toList := by
  rcases define.toList_line width with hline | ⟨count, text, -, hline⟩
  · rw [hline, h.code?_eq]
  · have hfront : '/' ∉ define.directive.toList ++ List.replicate count ' ' := by simp [h.slash_not_mem]
    have hcode : code (define.line width).toList = define.directive.toList := by
      rw [hline, code, beforeComment_of_not_mem hfront, beforeComment, List.append_nil, List.rdropWhile,
        List.reverse_append, List.dropWhile_append_of_pos (by simp), ← List.rdropWhile,
        List.rdropWhile_eq_self_iff]
      intro hsome
      simpa using (h.last _ (List.getLast?_eq_some_getLast hsome)).1
    rw [code?, hcode, if_neg h.ne_nil]

theorem isRow_line (h : IsDirective define.directive.toList) (width : Nat) :
    IsRow (define.line width).toList := by
  rcases define.toList_line width with hline | ⟨count, text, htext, hline⟩
  · rw [hline]
    exact ⟨h.lineFeed_not_mem, fun hopen => by rw [h.isOpen] at hopen; cases hopen⟩
  · rw [hline]
    exact ⟨by simp [h.lineFeed_not_mem, htext],
      fun _ => ⟨define.directive.toList ++ List.replicate count ' ', text, by simp⟩⟩

end Define

theorem mem_separate {row : String} {groups : List (List String)} (h : row ∈ separate groups) :
    row = "" ∨ ∃ group ∈ groups, row ∈ group := by
  induction groups with
  | nil => cases h
  | cons group rest ih =>
      cases rest with
      | nil => exact .inr ⟨group, List.mem_cons_self, h⟩
      | cons next others =>
          rcases List.mem_append.mp (h : row ∈ group ++ "" :: separate (next :: others)) with hgroup | hrest
          · exact .inr ⟨group, List.mem_cons_self, hgroup⟩
          · rcases List.mem_cons.mp hrest with hblank | hrest
            · exact .inl hblank
            · exact (ih hrest).imp_right fun ⟨other, hother, hrow⟩ => ⟨other, List.mem_cons_of_mem _ hother, hrow⟩

namespace Define

variable {groups : List (List Define)}

/-- The code of groups of definitions. -/
theorem filterMap_code?_separate (h : ∀ group ∈ groups, ∀ define ∈ group, IsDirective define.directive.toList) :
    ((separate (groups.map lines)).map String.toList).filterMap code?
      = groups.flatten.map fun define => define.directive.toList := by
  have hblank : (code? ∘ String.toList) "" = none := rfl
  rw [List.filterMap_map, filterMap_separate hblank, List.flatMap_map, List.map_flatten, ← List.flatMap_def]
  refine List.flatMap_congr fun group hgroup => ?_
  apply filterMap_map_of_forall
  intro define hdefine
  rw [Function.comp_apply]
  exact code?_line (h group hgroup define hdefine) _

/-- Each row of groups of definitions is blank or has code. -/
theorem isRow_of_mem_separate {row : String}
    (h : ∀ group ∈ groups, ∀ define ∈ group, IsDirective define.directive.toList)
    (hrow : row ∈ separate (groups.map lines)) : IsRow row.toList ∧ (code? row.toList = none ↔ row = "") := by
  obtain rfl | ⟨group, hgroup, hrow⟩ := mem_separate hrow
  · have hempty : "".toList = [] := rfl
    rw [hempty]
    exact ⟨⟨List.not_mem_nil, fun hopen => by cases hopen⟩, iff_of_true rfl rfl⟩
  · obtain ⟨defines, hdefines, rfl⟩ := List.mem_map.mp hgroup
    obtain ⟨define, hdefine, rfl⟩ := List.mem_map.mp hrow
    have hdirective := h defines hdefines define hdefine
    have hcode : code? (line (columnWidth (defines.map directive)) define).toList ≠ none := by
      rw [code?_line hdirective]
      simp
    exact ⟨isRow_line hdirective _, iff_of_false hcode (line_ne_empty _ define)⟩

end Define

/-! ## Comments of constants -/

namespace Constant

variable {constant : Constant}

/-- The comment before the definition of a constant. -/
def comment (constant : Constant) : String :=
  if constant.help.isEmpty then "//!" else "//! " ++ constant.help

def define (constant : Constant) (id : Nat) : Define := ⟨constant.macroName, toString id, constant.help⟩

/-- The lines of a constant in the header. -/
def idRows (entry : Constant × Nat) : List String :=
  (if 1 < entry.2 then [""] else []) ++ [entry.1.comment, (entry.1.define entry.2).directive]

theorem lines_addId {listing : Listing} (entry : Constant × Nat) (hlevel : listing.level = 0) :
    (addId listing entry).lines = listing.lines ++ idRows entry := by
  have hmargin (lines : List String) : Listing.margin { listing with lines } = "" := by
    simp [Listing.margin, hlevel, join]
  unfold addId idRows comment define Define.directive Listing.when Listing.doc
  generalize toString entry.2 = id
  by_cases hfirst : 1 < entry.2 <;> by_cases hhelp : entry.1.help.isEmpty <;>
    simp [Listing.line, Listing.blank, hmargin, hfirst, hhelp]

theorem lines_each_addId (entries : List (Constant × Nat)) {listing : Listing} (hlevel : listing.level = 0) :
    (listing.each entries addId).lines = listing.lines ++ entries.flatMap idRows := by
  induction entries generalizing listing with
  | nil => simp [Listing.each]
  | cons entry rest ih =>
      have hnext : (addId listing entry).level = 0 := (level_addId listing entry).trans hlevel
      have hrest := ih hnext
      rw [Listing.each] at hrest
      rw [Listing.each, List.foldl_cons, hrest, lines_addId entry hlevel, List.flatMap_cons, List.append_assoc]

theorem idLines_eq (interface : Interface) : idLines interface = (interface.constants.zipIdx 1).flatMap idRows := by
  have hlevel : (Listing.empty .narrow).level = 0 := rfl
  rw [idLines_eq_each, lines_each_addId (interface.constants.zipIdx 1) hlevel]
  rfl

/-- The text of a constant in the header, from its comment to its definition. -/
def idText (entry : Constant × Nat) : List Char :=
  entry.1.comment.toList ++ '\n' :: (entry.1.define entry.2).directive.toList

theorem isOpen_idText {entry : Constant × Nat} (h : IsDirective (entry.1.define entry.2).directive.toList) :
    isOpen (idText entry) = false := by
  rw [idText, isOpen_append (by simp), isOpen_cons h.ne_nil, h.isOpen]

/-- The text of a constant is read by itself, whatever its comment says. -/
theorem codeLines_idRows_append {entry : Constant × Nat} (rows : List (List Char))
    (h : IsDirective (entry.1.define entry.2).directive.toList) :
    codeLines (['\n'].intercalate ((idRows entry).map String.toList ++ rows))
      = codeLines (idText entry) ++ codeLines (['\n'].intercalate rows) := by
  have htext : ['\n'].intercalate (entry.1.comment.toList :: (entry.1.define entry.2).directive.toList :: rows)
      = ['\n'].intercalate (idText entry :: rows) := by
    cases rows with
    | nil => simp [idText, List.intercalate_cons_cons]
    | cons row rest => simp [idText, List.intercalate_cons_cons]
  have hread : codeLines (['\n'].intercalate
      (entry.1.comment.toList :: (entry.1.define entry.2).directive.toList :: rows))
      = codeLines (idText entry) ++ codeLines (['\n'].intercalate rows) := by
    rw [htext, codeLines_intercalate_cons (isOpen_idText h)]
  by_cases hfirst : 1 < entry.2
  · have hrows : (idRows entry).map String.toList ++ rows
        = [] :: entry.1.comment.toList :: (entry.1.define entry.2).directive.toList :: rows := by
      simp [idRows, hfirst]
    rw [hrows, codeLines_intercalate_cons rfl, hread]
    rfl
  · have hrows : (idRows entry).map String.toList ++ rows
        = entry.1.comment.toList :: (entry.1.define entry.2).directive.toList :: rows := by
      simp [idRows, hfirst]
    rw [hrows, hread]

theorem codeLines_idRows {entries : List (Constant × Nat)} (rows : List (List Char))
    (h : ∀ entry ∈ entries, IsDirective (entry.1.define entry.2).directive.toList) :
    codeLines (['\n'].intercalate ((entries.flatMap idRows).map String.toList ++ rows))
      = (entries.flatMap fun entry => codeLines (idText entry)) ++ codeLines (['\n'].intercalate rows) := by
  induction entries with
  | nil => rfl
  | cons entry rest ih =>
      obtain ⟨hentry, hrest⟩ := List.forall_mem_cons.mp h
      rw [List.flatMap_cons, List.map_append, List.append_assoc, codeLines_idRows_append _ hentry, ih hrest,
        List.flatMap_cons, List.append_assoc]

end Constant

/-! ## The header -/

theorem Constant.isPlain_define {constant : Constant} (h : Nominal constant.name) (id : Nat) :
    (constant.define id).IsPlain :=
  Define.isPlain_of_nominal (nominal_macroName h) (nominal_toString_nat id) (toString_nat_ne_empty id)

theorem Enumeration.Named.isPlain_define {enumeration : Enumeration} (h : enumeration.Named)
    {entry : Member × Int} (hentry : entry ∈ enumeration.values) :
    (enumeration.define entry.1 entry.2).IsPlain :=
  Define.isPlain_of_nominal (h.macroName (h.of_mem_values hentry) entry.2) (nominal_toString_int entry.2)
    (toString_int_ne_empty entry.2)

theorem Flag.Kind.not_mem_expression {kind : Flag.Kind} {nameOf : String → String} {c : Char}
    (hsign : c ∉ "(1 <|)".toList) (hdigits : ∀ position : Nat, c ∉ (toString position).toList)
    (hnames : ∀ name ∈ kind.names, c ∉ (nameOf name).toList) : c ∉ (kind.expression nameOf).toList := by
  have hsigns : c ≠ '(' ∧ c ≠ '1' ∧ c ≠ ' ' ∧ c ≠ '<' ∧ c ≠ '|' ∧ c ≠ ')' := by simpa [or_imp] using hsign
  obtain ⟨hopen, hone, hspace, hless, hbar, hclose⟩ := hsigns
  rcases kind with (- | position) | names
  · exact hdigits 0
  · have hposition := hdigits position
    rw [expression]
    generalize toString position = number at hposition ⊢
    simp [String.toList_append, hopen, hone, hspace, hless, hclose, hposition]
  · have hinside : c ∉ (join " | " (names.map nameOf)).toList := by
      refine not_mem_join (by simp [hspace, hbar]) fun part hpart => ?_
      obtain ⟨name, hname, rfl⟩ := List.mem_map.mp hpart
      exact hnames name hname
    rw [expression]
    simp [String.toList_append, hopen, hclose, hinside]

theorem Flag.Kind.getLast?_expression (kind : Flag.Kind) (nameOf : String → String) :
    ∃ c, (kind.expression nameOf).toList.getLast? = some c ∧ c ≠ ' ' ∧ c ≠ '\\' := by
  rcases kind with (- | position) | names
  · refine ⟨'0', ?_, by decide⟩
    rw [expression]
    rfl
  · refine ⟨')', ?_, by decide⟩
    rw [expression, String.toList_append, List.getLast?_append]
    rfl
  · refine ⟨')', ?_, by decide⟩
    rw [expression, String.toList_append, List.getLast?_append]
    rfl

/-- A flag is defined on one line without a comment in it, when the names that it combines have none. -/
theorem FlagSet.isPlain_define {set : FlagSet} {flag : Flag} (hlead : Nominal set.macroPrefix)
    (hname : Nominal flag.name)
    (hcombined : ∀ name ∈ flag.kind.names, '/' ∉ name.toList ∧ '\n' ∉ name.toList) :
    (set.define flag).IsPlain := by
  have hfront : Nominal (apiPrefix ++ set.macroPrefix ++ "_") :=
    nominal_append.mpr ⟨nominal_append.mpr ⟨by decide, hlead⟩, by decide⟩
  have hvalue (c : Char) (hc : isNominal c = false) (hsign : c ∉ "(1 <|)".toList)
      (hnames : ∀ name ∈ flag.kind.names, c ∉ name.toList) :
      c ∉ (flag.kind.expression set.macroName).toList := by
    have hno {text : String} (h : Nominal text) : c ∉ text.toList := fun hmem => by
      rw [h c hmem] at hc
      cases hc
    refine Flag.Kind.not_mem_expression hsign (fun position => hno (nominal_toString_nat position))
      fun name hname => ?_
    rw [macroName, String.toList_append, List.mem_append, not_or]
    exact ⟨hno hfront, hnames name hname⟩
  exact {
    name := nominal_append.mpr ⟨hfront, hname⟩
    lineFeed_not_mem := hvalue '\n' (by decide) (by decide) fun name hname => (hcombined name hname).2
    slash_not_mem := hvalue '/' (by decide) (by decide) fun name hname => (hcombined name hname).1
    last := flag.kind.getLast?_expression set.macroName }

theorem length_flatMap_le {α β : Type} {items : List α} {read : α → List β}
    (hread : ∀ item ∈ items, (read item).length ≤ 1) : (items.flatMap read).length ≤ items.length := by
  induction items with
  | nil => simp
  | cons item rest ih =>
      obtain ⟨hitem, hrest⟩ := List.forall_mem_cons.mp hread
      have hle := ih hrest
      rw [List.flatMap_cons, List.length_append, List.length_cons]
      omega

/-- When each item gives one result at most, the results are those expected exactly if each item gives its
own. -/
theorem flatMap_append_eq_iff {α β : Type} {items : List α} {read : α → List β} {expected : α → β}
    {back all : List β} (hread : ∀ item ∈ items, (read item).length ≤ 1) (hback : back.length ≤ all.length) :
    items.flatMap read ++ back = items.map expected ++ all ↔
      (∀ item ∈ items, read item = [expected item]) ∧ back = all := by
  induction items with
  | nil => simp
  | cons item rest ih =>
      obtain ⟨hitem, hrest⟩ := List.forall_mem_cons.mp hread
      rw [List.flatMap_cons, List.map_cons, List.append_assoc, List.forall_mem_cons, and_assoc]
      constructor
      · intro heq
        cases hfirst : read item with
        | nil =>
            have hlength := congrArg List.length heq
            have hle := length_flatMap_le hrest
            simp only [hfirst, List.nil_append, List.length_append, List.length_cons, List.length_map] at hlength
            omega
        | cons first others =>
            have hothers : others = [] := by
              rw [hfirst] at hitem
              exact List.eq_nil_of_length_eq_zero (by simpa using hitem)
            rw [hfirst, hothers, List.singleton_append, List.cons_append] at heq
            obtain ⟨rfl, htail⟩ := List.cons.inj heq
            exact ⟨by rw [hothers], (ih hrest).mp htail⟩
      · rintro ⟨hfirst, hothers⟩
        rw [hfirst, (ih hrest).mpr hothers]
        rfl

namespace Interface

variable {file source : String} {interface : Interface} {sources : Sources} {edits : List Edit}

def memberDefines (interface : Interface) : List (List Define) :=
  interface.enumerations.map fun enumeration =>
    enumeration.values.map fun entry => enumeration.define entry.1 entry.2

def flagDefines (interface : Interface) : List (List Define) :=
  interface.flagSets.map fun set => set.flags.map set.define

/-- The definitions in the header: those of the constants, of the members and of the flags, in order. -/
def headerDefines (interface : Interface) : List Define :=
  ((interface.constants.zipIdx 1).map fun entry => entry.1.define entry.2)
    ++ (interface.memberDefines.flatten ++ interface.flagDefines.flatten)

/-- The text of the blocks of the header that define macros. -/
def headerText (edits : List Edit) : String :=
  join "\n" (linesOf edits "yogi-core/include/yogi_core.h" 1
    ++ linesOf edits "yogi-core/include/yogi_core.h" 2 ++ linesOf edits "yogi-core/include/yogi_core.h" 3)

theorem forall_mem_zipIdx {P : Constant → Prop} {constants : List Constant} {start : Nat} :
    (∀ entry ∈ constants.zipIdx start, P entry.1) ↔ ∀ constant ∈ constants, P constant := by
  constructor
  · intro h constant hconstant
    rw [← List.zipIdx_map_fst start constants] at hconstant
    obtain ⟨entry, hentry, rfl⟩ := List.mem_map.mp hconstant
    exact h entry hentry
  · exact fun h entry hentry => h entry.1 (List.fst_mem_of_mem_zipIdx hentry)

theorem isDirective_of_mem_constants (hsound : interface.Sound) :
    ∀ entry ∈ interface.constants.zipIdx 1, IsDirective (entry.1.define entry.2).directive.toList := by
  intro entry hentry
  have hconstant := hsound.constants entry.1 (List.fst_mem_of_mem_zipIdx hentry)
  exact (Constant.isPlain_define (nominal_of_isValid hconstant.name_valid) entry.2).isDirective

theorem isDirective_of_mem_memberDefines (hsound : interface.Sound) :
    ∀ group ∈ interface.memberDefines, ∀ define ∈ group, IsDirective define.directive.toList := by
  intro group hgroup define hdefine
  obtain ⟨enumeration, henumeration, rfl⟩ := List.mem_map.mp hgroup
  obtain ⟨entry, hentry, rfl⟩ := List.mem_map.mp hdefine
  exact ((hsound.enumerations enumeration henumeration).named.isPlain_define hentry).isDirective

/-- The names of combined flags go into the header as they are. -/
def CombinesPlainly (interface : Interface) : Prop :=
  ∀ set ∈ interface.flagSets, ∀ flag ∈ set.flags, ∀ name ∈ flag.kind.names,
    '/' ∉ name.toList ∧ '\n' ∉ name.toList

theorem isDirective_of_mem_flagDefines (hsound : interface.Sound) (hcombined : interface.CombinesPlainly) :
    ∀ group ∈ interface.flagDefines, ∀ define ∈ group, IsDirective define.directive.toList := by
  intro group hgroup define hdefine
  obtain ⟨set, hset, rfl⟩ := List.mem_map.mp hgroup
  obtain ⟨flag, hflag, rfl⟩ := List.mem_map.mp hdefine
  have hsound := hsound.flagSets set hset
  exact (FlagSet.isPlain_define hsound.nominal_macroPrefix (nominal_of_isValid (hsound.flags flag hflag).name_valid)
    (hcombined set hset flag hflag)).isDirective

/-- The rows of the header behind the definitions of constants. -/
def headerRows (interface : Interface) : List String :=
  separate (interface.memberDefines.map Define.lines) ++ separate (interface.flagDefines.map Define.lines)

theorem isRow_of_mem_headerRows (hsound : interface.Sound) (hcombined : interface.CombinesPlainly) :
    ∀ row ∈ interface.headerRows, IsRow row.toList ∧ (code? row.toList = none ↔ row = "") := by
  intro row hrow
  rcases List.mem_append.mp hrow with hmembers | hflags
  · exact Define.isRow_of_mem_separate (isDirective_of_mem_memberDefines hsound) hmembers
  · exact Define.isRow_of_mem_separate (isDirective_of_mem_flagDefines hsound hcombined) hflags

theorem map_headerDefines (hsound : interface.Sound) (hcombined : interface.CombinesPlainly) :
    interface.headerDefines.map (fun define => define.directive.toList)
      = (interface.constants.zipIdx 1).map (fun entry => (entry.1.define entry.2).directive.toList)
        ++ (interface.headerRows.map String.toList).filterMap code? := by
  rw [headerRows, List.map_append, List.filterMap_append,
    Define.filterMap_code?_separate (isDirective_of_mem_memberDefines hsound),
    Define.filterMap_code?_separate (isDirective_of_mem_flagDefines hsound hcombined), headerDefines,
    List.map_append, List.map_append, List.map_map]
  rfl

theorem lines_headerRows (hemit : Target.core.emitter.emit interface sources = .ok edits) :
    linesOf edits "yogi-core/include/yogi_core.h" 2 ++ linesOf edits "yogi-core/include/yogi_core.h" 3
      = interface.headerRows := by
  obtain ⟨-, hmembers, hflags⟩ := Target.core_header hemit
  rw [hmembers, hflags, headerRows, memberDefines, flagDefines, List.map_map, List.map_map]
  rfl

/-- What is read of the header: the text of each constant by itself, then the rows that no open row stands
before. -/
theorem codeLines_headerText (hsound : interface.Sound) (hcombined : interface.CombinesPlainly)
    (hemit : Target.core.emitter.emit interface sources = .ok edits) :
    codeLines (headerText edits).toList
      = ((interface.constants.zipIdx 1).flatMap fun entry => codeLines (Constant.idText entry))
        ++ surviving false (interface.headerRows.map String.toList) := by
  have htext : (headerText edits).toList = ['\n'].intercalate
      (((interface.constants.zipIdx 1).flatMap Constant.idRows).map String.toList
        ++ interface.headerRows.map String.toList) := by
    rw [headerText, join, String.toList_intercalate, List.append_assoc, lines_headerRows hemit,
      (Target.core_header hemit).1, Constant.idLines_eq, List.map_append]
    rfl
  have hrows : ∀ row ∈ interface.headerRows.map String.toList, IsRow row :=
    List.forall_mem_map.mpr fun row hrow => (isRow_of_mem_headerRows hsound hcombined row hrow).1
  rw [htext, Constant.codeLines_idRows _ (isDirective_of_mem_constants hsound), (codeLines_rows hrows).1]

/-- When no comment of a constant has code, none of the definitions is lost exactly if these comments end
their lines and no open row stands before a definition. -/
theorem codeLines_headerText_eq_iff (hsound : interface.Sound) (hcombined : interface.CombinesPlainly)
    (hemit : Target.core.emitter.emit interface sources = .ok edits)
    (hempty : ∀ constant ∈ interface.constants, codeLines (constant.comment.toList ++ ['\n']) = []) :
    codeLines (headerText edits).toList = interface.headerDefines.map (fun define => define.directive.toList) ↔
      (∀ constant ∈ interface.constants, EndsLine (spliced (constant.comment.toList ++ ['\n']))) ∧
        interface.headerRows.IsChain fun row next => isOpen row.toList = true → next = "" := by
  have hbehind : ∀ entry ∈ interface.constants.zipIdx 1, (codeLines (Constant.idText entry)).length ≤ 1 ∧
      (codeLines (Constant.idText entry) = [(entry.1.define entry.2).directive.toList] ↔
        EndsLine (spliced (entry.1.comment.toList ++ ['\n']))) := fun entry hentry =>
    codeLines_behind (hempty entry.1 (List.fst_mem_of_mem_zipIdx hentry))
      (isDirective_of_mem_constants hsound entry hentry)
  have hconstants : (∀ entry ∈ interface.constants.zipIdx 1,
      codeLines (Constant.idText entry) = [(entry.1.define entry.2).directive.toList]) ↔
      ∀ constant ∈ interface.constants, EndsLine (spliced (constant.comment.toList ++ ['\n'])) := by
    rw [← forall_mem_zipIdx]
    exact forall₂_congr fun entry hentry => (hbehind entry hentry).2
  have hrows : (interface.headerRows.map String.toList).IsChain (fun row next =>
      isOpen row = true → code? next = none) ↔
      interface.headerRows.IsChain fun row next => isOpen row.toList = true → next = "" := by
    rw [List.isChain_map]
    refine List.IsChain.iff_of_mem_imp fun row next _ hnext => ?_
    rw [(isRow_of_mem_headerRows hsound hcombined next hnext).2]
  rw [codeLines_headerText hsound hcombined hemit, map_headerDefines hsound hcombined,
    flatMap_append_eq_iff (fun entry hentry => (hbehind entry hentry).1) (sublist_surviving _ _).length_le,
    surviving_eq_iff, hconstants, hrows]
  simp

/-- The definitions are all the code in the header, and no comment of a constant has any, exactly if each of
these comments has none and ends its line, and a line that a backslash ends stands only before blank ones. -/
theorem header_keeps_defines_iff (hload : load file source = .ok interface)
    (hemit : Target.core.emitter.emit interface sources = .ok edits) (hcombined : interface.CombinesPlainly) :
    (codeLines (headerText edits).toList = interface.headerDefines.map (fun define => define.directive.toList) ∧
      ∀ constant ∈ interface.constants, codeLines (constant.comment.toList ++ ['\n']) = []) ↔
    (∀ constant ∈ interface.constants, codeLines (constant.comment.toList ++ ['\n']) = [] ∧
        EndsLine (spliced (constant.comment.toList ++ ['\n']))) ∧
      (linesOf edits "yogi-core/include/yogi_core.h" 2 ++ linesOf edits "yogi-core/include/yogi_core.h" 3).IsChain
        fun line next => isOpen line.toList = true → next = "" := by
  obtain ⟨hsound, -⟩ := load_sound hload
  rw [lines_headerRows hemit]
  constructor
  · rintro ⟨hcode, hempty⟩
    obtain ⟨hends, hrows⟩ := (codeLines_headerText_eq_iff hsound hcombined hemit hempty).mp hcode
    exact ⟨fun constant hconstant => ⟨hempty constant hconstant, hends constant hconstant⟩, hrows⟩
  · rintro ⟨hcomments, hrows⟩
    have hempty := fun constant hconstant => (hcomments constant hconstant).1
    refine ⟨(codeLines_headerText_eq_iff hsound hcombined hemit hempty).mpr ⟨?_, hrows⟩, hempty⟩
    exact fun constant hconstant => (hcomments constant hconstant).2

end Interface

namespace Sample

/-- A description of a constant with a text of two lines that a backslash joins, and of a member whose text a
backslash ends. -/
def joinedComments : String :=
"copyright = \"\"

[version]
major = 1
minor = 2
patch = 3

[constants.PORT]
value = 1
type = [\"int\", \"int\", \"int\", \"c_int\"]
help = \"From C:\\\\\\nroot\"

[functions]

[enums.mode]
Open = \"in C:\\\\\"

[enums.state]
Idle = \"\"

[flags.events]
Sent = \x7b bit = 0 \x7d
All = \x7b combine = [\"Sent\"], help = \"all\" \x7d

[type_mappings]
"

def joinedRows : List String :=
  ["#define YOGI_MODE_Open 0  ///< in C:\\", "", "#define YOGI_STATE_Idle 0", "#define YOGI_EVENTS_Sent (1 << 0)",
    "#define YOGI_EVENTS_All (YOGI_EVENTS_Sent)  ///< all"]

def joinedSet : FlagSet :=
  ⟨"events", none, [⟨"Sent", "", .bit (some 0)⟩, ⟨"All", "all", .combine ["Sent"]⟩]⟩

set_option maxRecDepth 10000 in
theorem exists_joinedComments : ∃ (interface : Interface) (edits : Target → List Edit),
    Interface.load "core_api.toml" joinedComments = .ok interface ∧
      (∀ target : Target, target.emitter.emit interface sources = .ok (edits target)) ∧
      interface.constants.map Constant.comment = ["//! From C:\\\nroot"] ∧
      interface.headerRows = joinedRows ∧ interface.flagSets = [joinedSet] :=
  exists_emitted_of_described String.toList_ofList (by decide)

end Sample

/-- The lines of a comment that a backslash joins are one comment, and what a backslash ends is before a blank
line. -/
theorem Interface.header_keeps_defines_iff_joined : ∃ (interface : Interface) (edits : Target → List Edit),
    load "core_api.toml" Sample.joinedComments = .ok interface ∧
      Target.core.emitter.emit interface Sample.sources = .ok (edits .core) ∧ interface.CombinesPlainly ∧
      codeLines (headerText (edits .core)).toList
        = interface.headerDefines.map fun define => define.directive.toList := by
  obtain ⟨interface, edits, hload, hemit, hcomments, hrows, hsets⟩ := Sample.exists_joinedComments
  have hcombined : interface.CombinesPlainly := by
    rw [CombinesPlainly, hsets]
    decide
  refine ⟨interface, edits, hload, hemit .core, hcombined, ?_⟩
  refine ((header_keeps_defines_iff hload (hemit .core) hcombined).mpr ⟨fun constant hconstant => ?_, ?_⟩).1
  · have hcomment := List.mem_map_of_mem (f := Constant.comment) hconstant
    rw [hcomments, List.mem_singleton] at hcomment
    rw [hcomment]
    exact ⟨rfl, .inr rfl⟩
  · rw [lines_headerRows (hemit .core), hrows]
    decide

namespace Sample

/-- A description of a constant with a text of two lines. -/
def brokenComment : String :=
"copyright = \"\"

[version]
major = 1
minor = 2
patch = 3

[constants.PORT]
value = 1
type = [\"int\", \"int\", \"int\", \"c_int\"]
help = \"one\\ntwo\"

[functions]

[enums]

[flags]

[type_mappings]
"

set_option maxRecDepth 10000 in
theorem exists_brokenComment : ∃ (interface : Interface) (edits : Target → List Edit),
    Interface.load "core_api.toml" brokenComment = .ok interface ∧
      (∀ target : Target, target.emitter.emit interface sources = .ok (edits target)) ∧
      Constant.idLines interface = ["//! one\ntwo", "#define YOGI_CONST_PORT 1"] ∧
      interface.enumerations = [] ∧ interface.flagSets = [] ∧
      interface.headerDefines.map Define.directive = ["#define YOGI_CONST_PORT 1"] :=
  exists_emitted_of_described String.toList_ofList (by decide)

end Sample

/-- The second line of a constant's text is outside of the comment. -/
theorem Interface.header_leaks_second_line : ∃ (interface : Interface) (edits : Target → List Edit),
    load "core_api.toml" Sample.brokenComment = .ok interface ∧
      Target.core.emitter.emit interface Sample.sources = .ok (edits .core) ∧
      interface.headerDefines.map Define.directive = ["#define YOGI_CONST_PORT 1"] ∧
      codeLines (headerText (edits .core)).toList = ["two".toList, "#define YOGI_CONST_PORT 1".toList] := by
  obtain ⟨interface, edits, hload, hemit, hids, hmembers, hsets, hdefines⟩ := Sample.exists_brokenComment
  refine ⟨interface, edits, hload, hemit .core, hdefines, ?_⟩
  obtain ⟨hidLines, henumerations, hflags⟩ := Target.core_header (hemit .core)
  rw [headerText, hidLines, henumerations, hflags, hids, Enumeration.headerLines, FlagSet.headerLines, hmembers,
    hsets]
  rfl

end Bindery
