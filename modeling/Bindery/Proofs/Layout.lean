import Bindery.Block
import Bindery.Proofs.Search
import Mathlib.Data.List.TakeWhile

/-!
# The blocks of a text

What the search for blocks finds, stated without a search. A block is complete when its begin marker
is the first one and its end marker the first behind the line that opens it; whether it is depends on
the block alone, not on what follows. A text and its layout determine each other.
-/

namespace Bindery

open Text

namespace Text

theorem forall_ne_newline {text : List Char} (h : '\n' ∉ text) :
    ∀ c ∈ text, decide (c ≠ '\n') = true := by
  intro c hc
  refine decide_eq_true fun heq => h ?_
  rwa [← heq]

/-- A text is empty or ends with a line feed. -/
def EndsLine (text : List Char) : Prop := text = [] ∨ text.getLast? = some '\n'

/-- Every text is divided behind its last line feed. -/
theorem exists_endsLine_append (text : List Char) :
    ∃ front last, text = front ++ last ∧ EndsLine front ∧ '\n' ∉ last := by
  let isOther : Char → Bool := fun c => c ≠ '\n'
  have htext : text = (text.reverse.dropWhile isOther).reverse
      ++ (text.reverse.takeWhile isOther).reverse := by
    rw [← List.reverse_append, List.takeWhile_append_dropWhile, List.reverse_reverse]
  refine ⟨_, _, htext, ?_, ?_⟩
  · have hhead := List.head?_dropWhile_not isOther text.reverse
    rw [EndsLine, List.getLast?_reverse, List.reverse_eq_nil_iff]
    cases hdrop : text.reverse.dropWhile isOther with
    | nil => exact Or.inl rfl
    | cons c rest =>
        rw [hdrop] at hhead
        exact Or.inr (by simpa [isOther] using hhead)
  · intro hmem
    have hother := List.mem_takeWhile_imp (List.mem_reverse.mp hmem)
    simp [isOther] at hother

/-- A text is divided behind its last line feed. -/
theorem splitLastLine_append {front last : List Char} (hfront : EndsLine front)
    (hlast : '\n' ∉ last) : splitLastLine (front ++ last) = (front, last) := by
  have hothers := forall_ne_newline (mt List.mem_reverse.mp hlast)
  have hstop : front.reverse.takeWhile (fun c => decide (c ≠ '\n')) = [] := by
    rcases hfront with rfl | hend
    · rfl
    · obtain ⟨start, rfl⟩ := List.getLast?_eq_some_iff.mp hend
      simp
  have htake : (front ++ last).reverse.takeWhile (fun c => decide (c ≠ '\n')) = last.reverse := by
    rw [List.reverse_append, List.takeWhile_append_of_pos hothers, hstop, List.append_nil]
  simp only [splitLastLine, htake, List.reverse_reverse, List.length_append,
    Nat.add_sub_cancel, List.take_left]

/-- What is found from the first line feed on starts with it. -/
theorem exists_line_of_dropWhile_eq_cons {text rest : List Char} {c : Char}
    (h : text.dropWhile (· ≠ '\n') = c :: rest) :
    ∃ line, '\n' ∉ line ∧ text = line ++ '\n' :: rest := by
  have hstop : c = '\n' := by
    have hhead := List.head?_dropWhile_not (· ≠ '\n') text
    rw [h] at hhead
    simpa using hhead
  subst hstop
  refine ⟨text.takeWhile (· ≠ '\n'), fun hmem => ?_, ?_⟩
  · have hother := List.mem_takeWhile_imp hmem
    simp at hother
  · rw [← h, List.takeWhile_append_dropWhile]

theorem takeWhile_append_newline {line rest : List Char} (hline : '\n' ∉ line) :
    (line ++ '\n' :: rest).takeWhile (· ≠ '\n') = line := by
  rw [List.takeWhile_append_of_pos (forall_ne_newline hline)]
  simp

theorem dropWhile_append_newline {line rest : List Char} (hline : '\n' ∉ line) :
    (line ++ '\n' :: rest).dropWhile (· ≠ '\n') = '\n' :: rest := by
  rw [List.dropWhile_append_of_pos (forall_ne_newline hline)]
  simp

end Text

theorem newline_not_mem_beginMarker : '\n' ∉ beginMarker := by decide

theorem newline_not_mem_endMarker : '\n' ∉ endMarker := by decide

namespace Block

/-- A block with one begin marker, in the last line before its body, and one end marker. `line` is the
line that opens it from the marker on, and `edge` the line that closes it up to the marker. -/
inductive Complete : Block → Prop
  | intro (lead line body edge : List Char) (hopen : beginMarker <+: line) (hline : '\n' ∉ line)
      (hlead : NoneStarts beginMarker lead line) (hbody : EndsLine body) (hedge : '\n' ∉ edge)
      (hclose : NoneStarts endMarker (body ++ edge) endMarker)
      (hnested : ¬ beginMarker <:+: body ++ edge) :
      Complete ⟨lead ++ line ++ ['\n'], body, edge ++ endMarker⟩

/-- The markers of a text: the first begin marker stands behind `lead`, at the start of `line`, and the first
end marker behind the line feed that ends this line and `inner`. -/
structure Marks (lead line inner : List Char) : Prop where
  opens : beginMarker <+: line
  oneLine : '\n' ∉ line
  first : NoneStarts beginMarker lead line
  closes : NoneStarts endMarker inner endMarker

/-- The search decides on what it finds by what stands between the markers. -/
theorem scan_of_marks {lead line inner : List Char} (h : Marks lead line inner) (rest : List Char) :
    scan (lead ++ (line ++ '\n' :: (inner ++ (endMarker ++ rest)))) =
      if occurs beginMarker inner then .unclosed lead
      else
        let (body, edge) := splitLastLine inner
        .found ⟨lead ++ line ++ ['\n'], body, edge ++ endMarker⟩ rest := by
  have hlead : cut? beginMarker (lead ++ (line ++ '\n' :: (inner ++ (endMarker ++ rest)))) =
      some (lead, line ++ '\n' :: (inner ++ (endMarker ++ rest))) :=
    cut?_eq_some_iff.mpr ⟨rfl, h.opens.trans (List.prefix_append _ _),
      (noneStarts_append_right h.opens.length_le).mpr h.first⟩
  have hclose : cut? endMarker (inner ++ (endMarker ++ rest)) = some (inner, endMarker ++ rest) :=
    cut?_eq_some_iff.mpr ⟨rfl, List.prefix_append _ _,
      (noneStarts_append_right (Nat.le_refl _)).mpr h.closes⟩
  rw [scan, hlead]
  simp only [dropWhile_append_newline h.oneLine, takeWhile_append_newline h.oneLine, hclose, List.drop_left]

/-- The search finds nothing in a text without the markers. -/
theorem exists_marks_of_scan_ne_nothing {text : List Char} (h : scan text ≠ .nothing) :
    ∃ lead line inner rest, Marks lead line inner ∧
      text = lead ++ (line ++ '\n' :: (inner ++ (endMarker ++ rest))) := by
  unfold scan at h
  split at h
  · exact absurd rfl h
  next lead marked hlead =>
    split at h
    · exact absurd rfl h
    next c inner hinner =>
      split at h
      · exact absurd rfl h
      next covered marked' hcovered =>
        -- whether an occurrence starts in front of a marker is decided by the marker alone, so the text
        -- behind the markers drops out of both conditions
        obtain ⟨rfl, hopen, hfirst⟩ := cut?_eq_some_iff.mp hlead
        obtain ⟨rfl, ⟨rest, rfl⟩, hclose⟩ := cut?_eq_some_iff.mp hcovered
        obtain ⟨line, hline, rfl⟩ := exists_line_of_dropWhile_eq_cons hinner
        have hstart := prefix_of_prefix_append_cons newline_not_mem_beginMarker hopen
        rw [noneStarts_append_right hstart.length_le] at hfirst
        rw [noneStarts_append_right (Nat.le_refl _)] at hclose
        exact ⟨lead, line, covered, rest, ⟨hstart, hline, hfirst, hclose⟩, rfl⟩

/-- The search finds a complete block at the start of a text, and nothing else. -/
theorem scan_eq_found_iff {text rest : List Char} {block : Block} :
    scan text = .found block rest ↔ block.Complete ∧ text = block.text ++ rest := by
  constructor
  · intro h
    have hsome : scan text ≠ .nothing := by simp [h]
    obtain ⟨lead, line, inner, behind, hmarks, rfl⟩ := exists_marks_of_scan_ne_nothing hsome
    rw [scan_of_marks hmarks] at h
    split at h
    · cases h
    next hnested =>
      obtain ⟨body, edge, rfl, hbody, hedge⟩ := exists_endsLine_append inner
      rw [splitLastLine_append hbody hedge, Scan.found.injEq] at h
      obtain ⟨rfl, rfl⟩ := h
      rw [occurs_iff] at hnested
      refine ⟨.intro lead line body edge hmarks.opens hmarks.oneLine hmarks.first hbody hedge hmarks.closes
        hnested, ?_⟩
      simp [Block.text]
  · rintro ⟨⟨lead, line, body, edge, hopen, hline, hlead, hbody, hedge, hclose, hnested⟩, rfl⟩
    have hmarks : Marks lead line (body ++ edge) := ⟨hopen, hline, hlead, hclose⟩
    have htext : Block.text ⟨lead ++ line ++ ['\n'], body, edge ++ endMarker⟩ ++ rest =
        lead ++ (line ++ '\n' :: (body ++ edge ++ (endMarker ++ rest))) := by
      simp [Block.text]
    rw [htext, scan_of_marks hmarks, if_neg (mt occurs_iff.mp hnested), splitLastLine_append hbody hedge]

/-- A text holds neither marker. -/
def Unmarked (text : List Char) : Prop := ¬ beginMarker <:+: text ∧ ¬ endMarker <:+: text

instance (text : List Char) : Decidable (Unmarked text) :=
  decidable_of_iff (occurs beginMarker text = false ∧ occurs endMarker text = false) <| by
    rw [← Bool.not_eq_true, ← Bool.not_eq_true, occurs_iff, occurs_iff, Unmarked]

/-- Another body of whole lines without a marker leaves a block complete. -/
theorem Complete.setBody {block : Block} {body : List Char} (h : block.Complete)
    (hends : EndsLine body) (hunmarked : Unmarked body) : Complete { block with body := body } := by
  obtain ⟨lead, line, old, edge, hopen, hline, hlead, -, hedge, hclose, hnested⟩ := h
  rw [noneStarts_append] at hclose
  refine .intro lead line body edge hopen hline hlead hends hedge ?_ ?_
  · rw [noneStarts_append]
    exact ⟨noneStarts_of_getLast? newline_not_mem_endMarker hends hunmarked.2, hclose.2⟩
  -- a begin marker stands in the new body or in the last line, as the body ends with a line feed
  · intro hinfix
    have hedge' : ¬ beginMarker <:+: edge := fun h => hnested (h.trans (List.suffix_append _ _).isInfix)
    rcases hends with rfl | hends
    · exact hedge' hinfix
    · obtain ⟨front, rfl⟩ := List.getLast?_eq_some_iff.mp hends
      rw [List.append_assoc, List.singleton_append,
        infix_append_cons_iff newline_not_mem_beginMarker] at hinfix
      rcases hinfix with hfront | hedge
      · exact hunmarked.1 (hfront.trans (List.prefix_append _ _).isInfix)
      · exact hedge' hedge

/-- A text that starts a block and holds no begin marker ends before the block's body. -/
theorem Complete.prefix_opening {block : Block} {lead rest : List Char} (h : block.Complete)
    (hlead : lead <+: block.text ++ rest) (hnot : ¬ beginMarker <:+: lead) :
    lead <+: block.opening := by
  have hopening : block.opening <+: block.text ++ rest :=
    ⟨block.body ++ block.closing ++ rest, by simp [Block.text]⟩
  obtain ⟨front, line, body, edge, ⟨tail, rfl⟩, -, -, -, -, -, -⟩ := h
  have hmarked : front ++ beginMarker <+: front ++ (beginMarker ++ tail) ++ ['\n'] :=
    ⟨tail ++ ['\n'], by simp⟩
  have hwhole := hmarked.trans hopening
  -- either the lead ends within the marker at the latest, or it holds the marker
  rcases Nat.le_total lead.length (front ++ beginMarker).length with hle | hge
  · exact (List.prefix_of_prefix_length_le hlead hwhole hle).trans hmarked
  · have hinside := List.prefix_of_prefix_length_le hwhole hlead hge
    exact absurd ((List.suffix_append front beginMarker).isInfix.trans hinside.isInfix) hnot

/-- Lines without a marker make a body without a marker. -/
theorem unmarked_bodyOfLines {lines : List String} (h : ∀ line ∈ lines, Unmarked line.toList) :
    Unmarked (bodyOfLines lines) := by
  induction lines with
  | nil => exact ⟨by decide, by decide⟩
  | cons line rest ih =>
      have hrest := ih fun other hother => h other (List.mem_cons_of_mem _ hother)
      have hline := h line List.mem_cons_self
      have hbody : bodyOfLines (line :: rest) = line.toList ++ '\n' :: bodyOfLines rest := by
        simp [bodyOfLines]
      rw [hbody, Unmarked, infix_append_cons_iff newline_not_mem_beginMarker,
        infix_append_cons_iff newline_not_mem_endMarker]
      exact ⟨not_or.mpr ⟨hline.1, hrest.1⟩, not_or.mpr ⟨hline.2, hrest.2⟩⟩

theorem endsLine_bodyOfLines (lines : List String) : EndsLine (bodyOfLines lines) := by
  rcases List.eq_nil_or_concat lines with rfl | ⟨front, last, rfl⟩
  · exact Or.inl rfl
  · exact Or.inr (by simp [bodyOfLines])

end Block

namespace Layout

/-- A layout as the search gives it: its blocks are complete, and the rest has no block. -/
structure WellFormed (layout : Layout) : Prop where
  complete : ∀ block ∈ layout.blocks, block.Complete
  rest : (Block.scan layout.rest = .nothing ∧ layout.unclosed = none)
    ∨ ∃ lead, Block.scan layout.rest = .unclosed lead ∧ layout.unclosed = some lead

theorem wellFormed_ofText (text : List Char) : (ofText text).WellFormed := by
  fun_induction ofText text with
  | case1 text hscan => exact ⟨by simp, Or.inl ⟨hscan, rfl⟩⟩
  | case2 text lead hscan => exact ⟨by simp, Or.inr ⟨lead, hscan, rfl⟩⟩
  | case3 text block rest hscan _ layout ih =>
      refine ⟨?_, ih.rest⟩
      intro other hmem
      rcases List.mem_cons.mp hmem with rfl | htail
      · exact (Block.scan_eq_found_iff.mp hscan).1
      · exact ih.complete other htail

/-- The layout of a text keeps every character. -/
theorem text_ofText (source : List Char) : (ofText source).text = source := by
  fun_induction ofText source with
  | case1 source hscan => rfl
  | case2 source lead hscan => rfl
  | case3 source block rest hscan _ layout ih =>
      rw [(Block.scan_eq_found_iff.mp hscan).2, ← ih]
      simp [text, layout]

/-- The layout of a text that starts with a block. -/
theorem ofText_of_found {text rest : List Char} {block : Block}
    (h : Block.scan text = .found block rest) :
    ofText text = { ofText rest with blocks := block :: (ofText rest).blocks } := by
  rw [ofText]
  split <;> rename_i hscan
  · cases h.symm.trans hscan
  · cases h.symm.trans hscan
  · cases h.symm.trans hscan
    rfl

/-- The search finds the blocks of a layout again in its text. -/
theorem ofText_text {layout : Layout} (h : layout.WellFormed) : ofText layout.text = layout := by
  obtain ⟨blocks, rest, unclosed⟩ := layout
  induction blocks with
  | nil =>
      change ofText rest = _
      rw [ofText]
      rcases h.rest with ⟨hscan, hunclosed⟩ | ⟨lead, hscan, hunclosed⟩ <;>
        split <;> rename_i hscan' <;> cases hscan.symm.trans hscan'
      · exact congrArg _ hunclosed.symm
      · exact congrArg _ hunclosed.symm
  | cons block blocks ih =>
      have hrest : ofText (text ⟨blocks, rest, unclosed⟩) = ⟨blocks, rest, unclosed⟩ :=
        ih ⟨fun other hmem => h.complete other (List.mem_cons_of_mem _ hmem), h.rest⟩
      have hscan : Block.scan (text ⟨block :: blocks, rest, unclosed⟩) =
          .found block (text ⟨blocks, rest, unclosed⟩) := by
        refine Block.scan_eq_found_iff.mpr ⟨h.complete block List.mem_cons_self, ?_⟩
        simp [text]
      rw [ofText_of_found hscan, hrest]

/-- A text has exactly one layout. -/
theorem ofText_eq_iff {text : List Char} {layout : Layout} :
    ofText text = layout ↔ layout.WellFormed ∧ layout.text = text := by
  constructor
  · rintro rfl
    exact ⟨wellFormed_ofText text, text_ofText text⟩
  · rintro ⟨hformed, rfl⟩
    exact ofText_text hformed

end Layout

end Bindery
