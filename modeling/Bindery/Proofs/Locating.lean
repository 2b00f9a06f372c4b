import Bindery.Proofs.Leading

/-!
# Locating a block

Counting the blocks of a text and locating one of them agree, also where they stop. A block is located
exactly if it is counted. Behind the counted blocks either no line that opens a block is followed by an
end marker, or the next block to open does so a second time before it is closed; the error says which,
and on which line. What stands behind a block has no part in locating it.
-/

namespace Bindery

open Text

namespace Text

/-- A pattern is found no later than where it is known to stand. -/
theorem exists_cut?_append_eq_some {pattern rest : List Char} (lead : List Char)
    (h : pattern <+: rest) :
    ∃ before after, cut? pattern (lead ++ rest) = some (before, after) ∧ before <+: lead := by
  induction lead with
  | nil =>
      refine ⟨[], rest, cut?_eq_some_iff.mpr ⟨rfl, h, trivial⟩, List.nil_prefix⟩
  | cons c lead ih =>
      rw [List.cons_append, cut?]
      split
      · exact ⟨[], _, rfl, List.nil_prefix⟩
      · obtain ⟨before, after, hcut, hbefore⟩ := ih
        refine ⟨c :: before, after, ?_, List.cons_prefix_cons.mpr ⟨rfl, hbefore⟩⟩
        rw [hcut, Option.map_some]

/-- The first line feed of a text stands no later than any other. -/
theorem exists_dropWhile_append_newline (line rest : List Char) :
    ∃ behind, (line ++ '\n' :: rest).dropWhile (· ≠ '\n') = '\n' :: behind ∧ rest <:+ behind := by
  induction line with
  | nil => exact ⟨rest, rfl, List.suffix_refl rest⟩
  | cons c line ih =>
      by_cases hc : c = '\n'
      · subst hc
        exact ⟨line ++ '\n' :: rest, rfl, (List.suffix_cons _ _).trans (List.suffix_append _ _)⟩
      · obtain ⟨behind, hbehind, hsuffix⟩ := ih
        refine ⟨behind, ?_, hsuffix⟩
        rw [List.cons_append, List.dropWhile_cons_of_pos (by simpa using hc), hbehind]

end Text

namespace Block

/-- A text made of complete blocks, each from the end of the one before. -/
def Row (n : Nat) (front : List Char) : Prop :=
  ∃ blocks : List Block, blocks.length = n ∧ (∀ block ∈ blocks, block.Complete)
    ∧ front = blocks.flatMap Block.text

/-- A line of the text holds a begin marker, and an end marker stands behind that line. -/
def Opens (text : List Char) : Prop :=
  ∃ lead line inner, text = lead ++ line ++ '\n' :: inner ∧ beginMarker <+: line ∧ '\n' ∉ line
    ∧ endMarker <:+: inner

/-- The first begin marker of the text stands behind `lead`, and another one between its line and the
next end marker. -/
inductive Reopens (lead : List Char) : List Char → Prop
  | intro (line inner rest : List Char) (hopen : beginMarker <+: line) (hline : '\n' ∉ line)
      (hlead : NoneStarts beginMarker lead line) (hclose : NoneStarts endMarker inner endMarker)
      (hagain : beginMarker <:+: inner) :
      Reopens lead (lead ++ line ++ '\n' :: (inner ++ endMarker ++ rest))

theorem Reopens.opens {lead text : List Char} (h : Reopens lead text) : Opens text := by
  obtain ⟨line, inner, rest, hopen, hline, -, -, -⟩ := h
  exact ⟨lead, line, _, rfl, hopen, hline, inner, rest, rfl⟩

/-- The search stops at a block that opens twice, and at nothing else. -/
theorem scan_eq_unclosed_iff {text lead : List Char} :
    scan text = .unclosed lead ↔ Reopens lead text := by
  constructor
  · intro h
    have hsome : scan text ≠ .nothing := by simp [h]
    obtain ⟨before, line, inner, rest, hmarks, rfl⟩ := exists_marks_of_scan_ne_nothing hsome
    rw [scan_of_marks hmarks] at h
    split at h
    next hagain =>
      obtain rfl := Scan.unclosed.inj h
      rw [← List.append_assoc, ← List.append_assoc inner]
      exact .intro line inner rest hmarks.opens hmarks.oneLine hmarks.first hmarks.closes (occurs_iff.mp hagain)
    next => cases h
  · rintro ⟨line, inner, rest, hopen, hline, hlead, hclose, hagain⟩
    have hmarks : Marks lead line inner := ⟨hopen, hline, hlead, hclose⟩
    rw [List.append_assoc, List.append_assoc, scan_of_marks hmarks, if_pos (occurs_iff.mpr hagain)]

/-- The search finds nothing exactly where no line that opens a block is followed by an end marker. -/
theorem scan_eq_nothing_iff {text : List Char} : scan text = .nothing ↔ ¬ Opens text := by
  constructor
  · rintro hscan ⟨lead, line, inner, rfl, hopen, -, hinner⟩
    have hmarked : beginMarker <+: line ++ '\n' :: inner := hopen.trans (List.prefix_append _ _)
    rw [List.append_assoc] at hscan
    obtain ⟨before, marked, hcut, ⟨gap, rfl⟩⟩ := exists_cut?_append_eq_some lead hmarked
    -- the line of the first begin marker ends no later than the line given, so the end marker that
    -- stands behind the one stands behind the other
    obtain ⟨covered, hcovered, hsuffix⟩ := exists_dropWhile_append_newline (gap ++ line) inner
    have hbehind : marked = gap ++ line ++ '\n' :: inner := by
      simpa using append_of_cut?_eq_some hcut
    have hend : cut? endMarker covered ≠ none :=
      fun hnone => cut?_eq_none_iff.mp hnone (hinner.trans hsuffix.isInfix)
    rw [scan, hcut, hbehind] at hscan
    simp only [hcovered] at hscan
    split at hscan
    next hnone => exact hend hnone
    next => split at hscan <;> cases hscan
  · intro hnot
    cases hscan : scan text with
    | nothing => rfl
    | unclosed lead => exact absurd (scan_eq_unclosed_iff.mp hscan).opens hnot
    | found block rest =>
        obtain ⟨⟨lead, line, body, edge, hopen, hline, -, -, -, -, -⟩, rfl⟩ :=
          scan_eq_found_iff.mp hscan
        refine absurd ⟨lead, line, body ++ edge ++ endMarker ++ rest, ?_, hopen, hline, ?_⟩ hnot
        · simp [Block.text]
        · exact ⟨body ++ edge, rest, rfl⟩

end Block

namespace Layout

theorem modify_append {blocks more : List Block} {index : Nat} (h : index < blocks.length)
    (change : Block → Block) :
    (blocks ++ more).modify index change = blocks.modify index change ++ more := by
  induction blocks generalizing index with
  | nil => simp at h
  | cons block blocks ih =>
      cases index with
      | zero => rfl
      | succ index =>
          have hstep := ih (Nat.lt_of_succ_lt_succ h)
          simpa [List.modify_succ_cons] using hstep

/-- Complete blocks in front of a text are the first ones of its layout. -/
theorem ofText_flatMap_append {blocks : List Block} (h : ∀ block ∈ blocks, block.Complete)
    (text : List Char) :
    ofText (blocks.flatMap Block.text ++ text) =
      { ofText text with blocks := blocks ++ (ofText text).blocks } := by
  induction blocks with
  | nil => rfl
  | cons block blocks ih =>
      have hscan : Block.scan ((block :: blocks).flatMap Block.text ++ text) =
          .found block (blocks.flatMap Block.text ++ text) :=
        Block.scan_eq_found_iff.mpr ⟨h block List.mem_cons_self, by simp⟩
      rw [ofText_of_found hscan, ih fun other hmem => h other (List.mem_cons_of_mem _ hmem)]
      rfl

end Layout

namespace Block

variable {path : Path} {index : Nat} {lines : List String}

/-- A row of blocks stands in front of a text for every number up to the number of its blocks. -/
theorem exists_row_iff {n : Nat} {text : String} :
    (∃ front rest, text.toList = front ++ rest ∧ Row n front) ↔ n ≤ count text := by
  constructor
  · rintro ⟨front, rest, htext, blocks, rfl, hcomplete, rfl⟩
    rw [count, htext, Layout.ofText_flatMap_append hcomplete, List.length_append]
    exact Nat.le_add_right _ _
  · intro hle
    let blocks := (Layout.ofText text.toList).blocks
    refine ⟨(blocks.take n).flatMap Block.text,
      (blocks.drop n).flatMap Block.text ++ (Layout.ofText text.toList).rest, ?_,
      blocks.take n, List.length_take_of_le hle, ?_, rfl⟩
    · rw [← List.append_assoc, ← List.flatMap_append, List.take_append_drop]
      exact (Layout.text_ofText _).symm
    · intro block hmem
      exact (Layout.wellFormed_ofText _).complete block (List.mem_of_mem_take hmem)

/-- Where the blocks counted come to an end, what stands behind them decides the error. -/
theorem splice_eq_error {text : String} {front rest : List Char} (htext : text.toList = front ++ rest)
    (hrow : Row (count text) front) (hindex : count text ≤ index) :
    (¬ Opens rest → splice path text index lines = .error (.noSuchBlock path index (count text)))
      ∧ (Opens rest → ∃ lead, Reopens lead rest ∧ splice path text index lines =
          .error (.unclosedBlock path (count text) ((front ++ lead).count '\n' + 1))) := by
  obtain ⟨blocks, hlength, hcomplete, rfl⟩ := hrow
  have hlayout := Layout.ofText_flatMap_append hcomplete rest
  rw [← htext] at hlayout
  -- the row has all the blocks that are counted, so none is left behind it
  have hnone : (Layout.ofText rest).blocks = [] := by
    rw [count, hlayout, List.length_append] at hlength
    exact List.length_eq_zero_iff.mp (by omega)
  have hblocks : (Layout.ofText text.toList).blocks = blocks := by
    rw [hlayout, hnone, List.append_nil]
  have hline : (Layout.ofText text.toList).unclosedLine? = (Layout.ofText rest).unclosed.map
      fun lead => (blocks.flatMap Block.text ++ lead).count '\n' + 1 := by
    rw [Layout.unclosedLine?, hblocks, hlayout]
  have hge : ¬ index < (Layout.ofText text.toList).blocks.length := Nat.not_lt.mpr hindex
  cases hscan : scan rest with
  | nothing =>
      refine ⟨fun _ => ?_, fun hopens => absurd hopens (scan_eq_nothing_iff.mp hscan)⟩
      rw [Layout.ofText_of_nothing hscan, Option.map_none] at hline
      rw [splice, if_neg hge, hline, count]
  | unclosed lead =>
      have hreopens := scan_eq_unclosed_iff.mp hscan
      refine ⟨fun hnot => absurd hreopens.opens hnot, fun _ => ⟨lead, hreopens, ?_⟩⟩
      rw [Layout.ofText_of_unclosed hscan, Option.map_some] at hline
      rw [splice, if_neg hge, hline, count]
  | found block behind => simp [Layout.ofText_of_found hscan] at hnone

/-- A splice of a block in a row is the same whatever stands behind the row. -/
theorem exists_splice_row_append {front : List Char} (hrow : Row (index + 1) front) :
    ∃ new, ∀ rest, splice path (String.ofList (front ++ rest)) index lines =
      .ok (String.ofList (new ++ rest)) := by
  obtain ⟨blocks, hlength, hcomplete, rfl⟩ := hrow
  have hindex : index < blocks.length := by omega
  refine ⟨(blocks.modify index fun block => { block with body := bodyOfLines lines }).flatMap
    Block.text, fun rest => splice_eq_ok_iff.mpr ⟨?_, ?_⟩⟩
  · rw [count, String.toList_ofList, Layout.ofText_flatMap_append hcomplete, List.length_append]
    exact Nat.lt_of_lt_of_le hindex (Nat.le_add_right _ _)
  · rw [spliced, String.toList_ofList, Layout.ofText_flatMap_append hcomplete, Layout.setBody,
      Layout.text, Layout.modify_append hindex, List.flatMap_append, List.append_assoc]
    exact congrArg _ (congrArg _ (Layout.text_ofText rest).symm)

/-- Locating and counting agree. The blocks counted stand in a row in front of the text, and a row of
`n` stands there for every `n` up to their number, but for no greater one. A block is spliced exactly
if it is counted. Otherwise the error tells what stands behind the row: either no line opens a block
and has an end marker behind it, or a block opens there and again before its end marker, and the line
is that of the first begin marker. What stands behind the block spliced is kept, whatever it is. -/
theorem splice_outcome (path : Path) (text : String) :
    (∀ n, (∃ front rest, text.toList = front ++ rest ∧ Row n front) ↔ n ≤ count text)
      ∧ (∀ index lines,
          (∃ result, splice path text index lines = .ok result) ↔ index < count text)
      ∧ (∃ front rest, text.toList = front ++ rest ∧ Row (count text) front
          ∧ ∀ index lines, count text ≤ index →
            (¬ Opens rest →
                splice path text index lines = .error (.noSuchBlock path index (count text)))
              ∧ (Opens rest → ∃ lead, Reopens lead rest ∧ splice path text index lines =
                  .error (.unclosedBlock path (count text) ((front ++ lead).count '\n' + 1))))
      ∧ ∀ index lines front rest, text.toList = front ++ rest → Row (index + 1) front →
          ∃ new, splice path text index lines = .ok (String.ofList (new ++ rest))
            ∧ ∀ other, splice path (String.ofList (front ++ other)) index lines =
                .ok (String.ofList (new ++ other)) := by
  refine ⟨fun n => exists_row_iff, fun index lines => ?_, ?_, ?_⟩
  · simp [splice_eq_ok_iff]
  · obtain ⟨front, rest, htext, hrow⟩ := exists_row_iff.mpr (Nat.le_refl (count text))
    exact ⟨front, rest, htext, hrow, fun index lines => splice_eq_error htext hrow⟩
  · intro index lines front rest htext hrow
    obtain ⟨new, hnew⟩ : ∃ new, ∀ rest, splice path (String.ofList (front ++ rest)) index lines =
        .ok (String.ofList (new ++ rest)) := exists_splice_row_append hrow
    refine ⟨new, ?_, hnew⟩
    rw [← hnew rest, ← htext, String.ofList_toList]

end Block

end Bindery
