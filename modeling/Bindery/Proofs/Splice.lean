import Bindery.Proofs.Layout
import Bindery.Proofs.Outcome

/-!
# Splicing blocks

Replacing the body of a block by lines without a marker changes that body and nothing else, and the
search finds the same blocks again. So a splice overwrites an earlier one of the same block, splices of
different blocks can be exchanged, and several splices amount to new bodies in one layout.
-/

namespace Bindery

open Text

namespace Layout

/-- The body of the block at an index. -/
def body? (layout : Layout) (index : Nat) : Option (List Char) :=
  layout.blocks[index]?.map Block.body

/-- The text up to the body of the block at an index, the body, and the text behind it. -/
def around? (layout : Layout) (index : Nat) : Option (List Char × List Char × List Char) :=
  layout.blocks[index]?.map fun block =>
    ((layout.blocks.take index).flatMap Block.text ++ block.opening, block.body,
      block.closing ++ (layout.blocks.drop (index + 1)).flatMap Block.text ++ layout.rest)

/-- The layout after several bodies are replaced by lines, one after the other. -/
def setBodies (layout : Layout) (edits : List (Nat × List String)) : Layout :=
  edits.foldl (fun layout edit => layout.setBody edit.1 (Block.bodyOfLines edit.2)) layout

variable {layout : Layout} {index : Nat} {body : List Char}

theorem WellFormed.setBody (h : layout.WellFormed) (hends : EndsLine body)
    (hunmarked : Block.Unmarked body) : (layout.setBody index body).WellFormed := by
  refine ⟨fun block hmem => ?_, h.rest⟩
  obtain ⟨place, hplace⟩ := List.mem_iff_getElem?.mp hmem
  simp only [Layout.setBody, List.getElem?_modify] at hplace
  obtain ⟨old, hold, heq⟩ := Option.map_eq_some_iff.mp hplace
  have hcomplete := h.complete old (List.mem_of_getElem? hold)
  split at heq
  · rw [← heq]
    exact hcomplete.setBody hends hunmarked
  · rwa [← heq]

/-- Only the body of the block at the index changes. -/
theorem body?_setBody (other : Nat) :
    (layout.setBody index body).body? other =
      (layout.body? other).map fun old => if index = other then body else old := by
  rw [body?, setBody, List.getElem?_modify, body?]
  cases layout.blocks[other]? with
  | none => rfl
  | some block => by_cases h : index = other <;> simp [h]

/-- The text around the body of a block is kept when the body is replaced. -/
theorem around?_setBody {before old behind : List Char}
    (h : layout.around? index = some (before, old, behind)) :
    (layout.setBody index body).around? index = some (before, body, behind) := by
  obtain ⟨block, hblock, heq⟩ := Option.map_eq_some_iff.mp h
  simp only [Prod.mk.injEq] at heq
  obtain ⟨rfl, rfl, rfl⟩ := heq
  have htake (change : Block → Block) :
      (layout.blocks.take index).modify index change = layout.blocks.take index :=
    List.modify_eq_self (List.length_take_le _ _)
  simp [around?, setBody, hblock, List.take_modify, List.drop_modify_of_lt, htake]

/-- A text is what stands before the body of a block, the body, and what stands behind it. -/
theorem append_of_around?_eq_some {before old behind : List Char}
    (h : layout.around? index = some (before, old, behind)) :
    layout.text = before ++ old ++ behind := by
  obtain ⟨block, hblock, heq⟩ := Option.map_eq_some_iff.mp h
  simp only [Prod.mk.injEq] at heq
  obtain ⟨rfl, rfl, rfl⟩ := heq
  obtain ⟨hlt, rfl⟩ := List.getElem?_eq_some_iff.mp hblock
  have hblocks : layout.blocks = layout.blocks.take index ++
      layout.blocks[index] :: layout.blocks.drop (index + 1) := by
    rw [← List.drop_eq_getElem_cons hlt, List.take_append_drop]
  calc layout.text
      = (layout.blocks.take index ++ layout.blocks[index] ::
          layout.blocks.drop (index + 1)).flatMap Block.text ++ layout.rest := by
        rw [← hblocks, Layout.text]
    _ = _ := by
        simp only [List.flatMap_append, List.flatMap_cons, Block.text, List.append_assoc]

theorem setBody_setBody (body' : List Char) :
    (layout.setBody index body).setBody index body' = layout.setBody index body' := by
  simp [setBody, List.modify_modify_eq, Function.comp_def]

theorem setBody_comm {other : Nat} (body' : List Char) (hne : index ≠ other) :
    (layout.setBody index body).setBody other body' =
      (layout.setBody other body').setBody index body := by
  simp [setBody, List.modify_modify_ne _ _ _ hne]

variable {edits : List (Nat × List String)}

theorem WellFormed.setBodies (h : layout.WellFormed)
    (hlines : ∀ edit ∈ edits, ∀ line ∈ edit.2, Block.Unmarked line.toList) :
    (layout.setBodies edits).WellFormed := by
  induction edits generalizing layout with
  | nil => exact h
  | cons edit rest ih =>
      have hedit := hlines edit List.mem_cons_self
      exact ih (h.setBody (Block.endsLine_bodyOfLines edit.2) (Block.unmarked_bodyOfLines hedit))
        fun other hother => hlines other (List.mem_cons_of_mem _ hother)

theorem setBodies_setBody_of_forall_ne (h : ∀ edit ∈ edits, edit.1 ≠ index) :
    (layout.setBody index body).setBodies edits = (layout.setBodies edits).setBody index body := by
  induction edits generalizing layout with
  | nil => rfl
  | cons edit rest ih =>
      have hne := h edit List.mem_cons_self
      have hrest := fun other hother => h other (List.mem_cons_of_mem _ hother)
      calc ((layout.setBody index body).setBody edit.1 _).setBodies rest
          = ((layout.setBody edit.1 _).setBody index body).setBodies rest := by
            rw [setBody_comm _ hne.symm]
        _ = _ := ih hrest

theorem setBodies_setBody_of_mem (h : ∃ edit ∈ edits, edit.1 = index) :
    (layout.setBody index body).setBodies edits = layout.setBodies edits := by
  induction edits generalizing layout with
  | nil => simp at h
  | cons edit rest ih =>
      by_cases heq : edit.1 = index
      · change ((layout.setBody index body).setBody edit.1 _).setBodies rest = _
        rw [heq, setBody_setBody, ← heq]
        rfl
      · obtain ⟨other, hmem, hother⟩ := h
        have hrest : other ∈ rest :=
          (List.mem_cons.mp hmem).resolve_left fun hsame => heq (hsame ▸ hother)
        change ((layout.setBody index body).setBody edit.1 _).setBodies rest = _
        rw [setBody_comm _ (Ne.symm heq)]
        exact ih ⟨other, hrest, hother⟩

/-- Several new bodies set a second time change nothing. -/
theorem setBodies_setBodies :
    (layout.setBodies edits).setBodies edits = layout.setBodies edits := by
  induction edits generalizing layout with
  | nil => rfl
  | cons edit rest ih =>
      change (((layout.setBody edit.1 _).setBodies rest).setBody edit.1 _).setBodies rest =
        (layout.setBody edit.1 _).setBodies rest
      by_cases h : ∃ other ∈ rest, other.1 = edit.1
      · rw [setBodies_setBody_of_mem h, ih]
      · have hne : ∀ other ∈ rest, other.1 ≠ edit.1 := fun other hmem heq => h ⟨other, hmem, heq⟩
        rw [← setBodies_setBody_of_forall_ne hne, setBody_setBody, ih]

/-- What new bodies change of a layout: the bodies named, by the lines given. -/
structure Respliced (edits : List (Nat × List String)) (layout after : Layout) : Prop where
  rest : after.rest = layout.rest
  frames : after.blocks.map (fun block => (block.opening, block.closing)) =
    layout.blocks.map fun block => (block.opening, block.closing)
  replaced : ∀ edit ∈ edits, after.body? edit.1 = some (edit.2.flatMap fun line => line.toList ++ ['\n'])
  kept : ∀ index, (∀ edit ∈ edits, edit.1 ≠ index) → after.body? index = layout.body? index

theorem frames_setBody :
    (layout.setBody index body).blocks.map (fun block => (block.opening, block.closing)) =
      layout.blocks.map fun block => (block.opening, block.closing) := by
  refine List.ext_getElem? fun place => ?_
  rw [List.getElem?_map, List.getElem?_map, setBody, List.getElem?_modify]
  cases layout.blocks[place]? with
  | none => rfl
  | some block => by_cases h : index = place <;> simp [h]

theorem rest_setBodies : (layout.setBodies edits).rest = layout.rest := by
  induction edits generalizing layout with
  | nil => rfl
  | cons edit rest ih => exact ih

theorem frames_setBodies (layout : Layout) (edits : List (Nat × List String)) :
    (layout.setBodies edits).blocks.map (fun block => (block.opening, block.closing)) =
      layout.blocks.map fun block => (block.opening, block.closing) := by
  induction edits generalizing layout with
  | nil => rfl
  | cons edit rest ih => exact (ih _).trans frames_setBody

/-- The start of a text stays when it holds no begin marker. -/
theorem WellFormed.prefix_setBodies (h : layout.WellFormed) {lead : List Char}
    (hlead : lead <+: layout.text) (hnot : ¬ beginMarker <:+: lead) :
    lead <+: (layout.setBodies edits).text := by
  have hframes := frames_setBodies layout edits
  have hrest : (layout.setBodies edits).rest = layout.rest := rest_setBodies
  cases hblocks : layout.blocks with
  | nil =>
      have hnone : (layout.setBodies edits).blocks = [] := by
        rw [hblocks, List.map_nil, List.map_eq_nil_iff] at hframes
        exact hframes
      rw [text, hnone, hrest]
      rw [text, hblocks] at hlead
      exact hlead
  | cons block blocks =>
      rw [hblocks, List.map_cons, List.map_eq_cons_iff] at hframes
      obtain ⟨first, others, hafter, hframe, -⟩ := hframes
      have hopening : first.opening = block.opening := (Prod.mk.inj hframe).1
      rw [text, hblocks, List.flatMap_cons, List.append_assoc] at hlead
      have hcomplete := h.complete block (hblocks ▸ List.mem_cons_self)
      have hstart := hcomplete.prefix_opening hlead hnot
      rw [text, hafter, List.flatMap_cons, Block.text, hopening]
      simp only [List.append_assoc]
      exact hstart.trans (List.prefix_append _ _)

/-- Lines set into different blocks replace their bodies and nothing else. -/
theorem respliced_setBodies (hindices : ∀ edit ∈ edits, edit.1 < layout.blocks.length)
    (hnodup : (edits.map Prod.fst).Nodup) : Respliced edits layout (layout.setBodies edits) := by
  induction edits generalizing layout with
  | nil => exact ⟨rfl, rfl, by simp, fun _ _ => rfl⟩
  | cons edit rest ih =>
      obtain ⟨hnot, hnodup⟩ := List.nodup_cons.mp hnodup
      let middle := layout.setBody edit.1 (Block.bodyOfLines edit.2)
      have hlength : middle.blocks.length = layout.blocks.length := List.length_modify _ _ _
      have hrest : Respliced rest middle (middle.setBodies rest) := by
        refine ih (fun other hother => ?_) hnodup
        rw [hlength]
        exact hindices other (List.mem_cons_of_mem _ hother)
      have hne : ∀ other ∈ rest, other.1 ≠ edit.1 := fun other hmem heq =>
        hnot (List.mem_map.mpr ⟨other, hmem, heq⟩)
      refine ⟨hrest.rest, hrest.frames.trans frames_setBody, ?_, ?_⟩
      · intro other hmem
        rcases List.mem_cons.mp hmem with rfl | htail
        · have hlt := hindices other List.mem_cons_self
          refine (hrest.kept other.1 hne).trans ?_
          rw [body?_setBody, body?, List.getElem?_eq_getElem hlt]
          simp [Block.bodyOfLines]
        · exact hrest.replaced other htail
      · intro index hindex
        have hother := hindex edit List.mem_cons_self
        refine (hrest.kept index fun other hmem => hindex other (List.mem_cons_of_mem _ hmem)).trans ?_
        rw [body?_setBody]
        simp [hother]

end Layout

namespace Block

variable {path : Path} {text result : String} {index : Nat} {lines : List String}

/-- The text with the body of a block replaced by lines. -/
def spliced (text : String) (index : Nat) (lines : List String) : String :=
  String.ofList ((Layout.ofText text.toList).setBody index (bodyOfLines lines)).text

/-- A splice succeeds exactly if the text has the block. -/
theorem splice_eq_ok_iff :
    splice path text index lines = .ok result ↔
      index < count text ∧ result = spliced text index lines := by
  simp only [splice, count, spliced]
  split
  next hlt => simp [hlt, eq_comm]
  next hge =>
    constructor
    · intro h
      split at h <;> cases h
    · rintro ⟨hlt, -⟩
      exact absurd hlt hge

theorem splice_eq_ok (hindex : index < count text) :
    splice path text index lines = .ok (spliced text index lines) :=
  splice_eq_ok_iff.mpr ⟨hindex, rfl⟩

/-- The search finds the same blocks in a spliced text, one of them with its new body. -/
theorem ofText_spliced (hlines : ∀ line ∈ lines, Unmarked line.toList) :
    Layout.ofText (spliced text index lines).toList =
      (Layout.ofText text.toList).setBody index (bodyOfLines lines) := by
  rw [spliced, String.toList_ofList]
  exact Layout.ofText_text ((Layout.wellFormed_ofText _).setBody (endsLine_bodyOfLines lines)
    (unmarked_bodyOfLines hlines))

theorem count_spliced (hlines : ∀ line ∈ lines, Unmarked line.toList) :
    count (spliced text index lines) = count text := by
  rw [count, ofText_spliced hlines, Layout.setBody, List.length_modify, count]

/-- A splice overwrites an earlier one of the same block. -/
theorem spliced_spliced (hlines : ∀ line ∈ lines, Unmarked line.toList) (again : List String) :
    spliced (spliced text index lines) index again = spliced text index again := by
  rw [spliced, ofText_spliced hlines, Layout.setBody_setBody, spliced]

/-- Splices of two blocks can be exchanged. -/
theorem spliced_comm {other : Nat} {others : List String} (hne : other ≠ index)
    (hlines : ∀ line ∈ lines, Unmarked line.toList)
    (hothers : ∀ line ∈ others, Unmarked line.toList) :
    spliced (spliced text index lines) other others =
      spliced (spliced text other others) index lines := by
  rw [spliced, ofText_spliced hlines, spliced, ofText_spliced hothers,
    Layout.setBody_comm _ hne]

/-- Splicing lines without a marker into a block gives that block the lines, each ended by a line feed, as
its body, and keeps the number of blocks, the other bodies and all text around the body. Splicing the block
again forgets the first lines, and the order of splices of two blocks does not matter. -/
theorem splice_laws (path : Path) (hindex : index < count text)
    (hlines : ∀ line ∈ lines, Unmarked line.toList) :
    ∃ result before old behind, splice path text index lines = .ok result
      ∧ count result = count text
      ∧ (Layout.ofText text.toList).around? index = some (before, old, behind)
      ∧ (Layout.ofText result.toList).around? index =
        some (before, lines.flatMap fun line => line.toList ++ ['\n'], behind)
      ∧ text.toList = before ++ old ++ behind
      ∧ result.toList = before ++ (lines.flatMap fun line => line.toList ++ ['\n']) ++ behind
      ∧ (∀ other, other ≠ index →
          (Layout.ofText result.toList).body? other = (Layout.ofText text.toList).body? other)
      ∧ (∀ again, ∃ final, splice path result index again = .ok final
          ∧ splice path text index again = .ok final)
      ∧ ∀ other others, other ≠ index → other < count text →
          (∀ line ∈ others, Unmarked line.toList) →
          ∃ middle final, splice path result other others = .ok final
            ∧ splice path text other others = .ok middle
            ∧ splice path middle index lines = .ok final := by
  obtain ⟨⟨before, old, behind⟩, haround⟩ :
      ∃ parts, (Layout.ofText text.toList).around? index = some parts := by
    rw [Layout.around?, List.getElem?_eq_getElem hindex]
    exact ⟨_, rfl⟩
  have hspliced : (Layout.ofText (spliced text index lines).toList).around? index =
      some (before, lines.flatMap fun line => line.toList ++ ['\n'], behind) := by
    rw [ofText_spliced hlines]
    exact Layout.around?_setBody haround
  have hcount : count (spliced text index lines) = count text := count_spliced hlines
  refine ⟨spliced text index lines, before, old, behind, splice_eq_ok hindex, hcount, haround,
    hspliced, ?_, ?_, ?_, ?_, ?_⟩
  · rw [← Layout.append_of_around?_eq_some haround, Layout.text_ofText]
  · rw [← Layout.append_of_around?_eq_some hspliced, Layout.text_ofText]
  · intro other hne
    rw [ofText_spliced hlines, Layout.body?_setBody]
    simp [hne.symm]
  · intro again
    refine ⟨spliced text index again, ?_, splice_eq_ok hindex⟩
    rw [splice_eq_ok (by rwa [hcount]), spliced_spliced hlines]
  · intro other others hne hother hothers
    have hindex' : index < count (spliced text other others) := by rwa [count_spliced hothers]
    refine ⟨spliced text other others, spliced (spliced text other others) index lines, ?_,
      splice_eq_ok hother, splice_eq_ok hindex'⟩
    rw [splice_eq_ok (by rwa [hcount]), spliced_comm hne hlines hothers]

/-- A begin marker behind an end marker on one line opens the second block. -/
theorem splice_laws_shared_line :
    let text := "/*:CODEGEN_BEGIN: :CODEGEN_END:\n:CODEGEN_END: :CODEGEN_BEGIN:\nold\n:CODEGEN_END:*/"
    1 < count text ∧ (∀ line ∈ ["", "new"], Unmarked line.toList) ∧
      ∃ result, splice ⟨"file.h"⟩ text 1 ["", "new"] = .ok result ∧ count result = count text
        ∧ splice ⟨"file.h"⟩ result 1 ["new"] = splice ⟨"file.h"⟩ text 1 ["new"] := by
  intro text
  have hcount : 1 < count text := by
    have hfirst : scan text.toList =
        .found ⟨"/*:CODEGEN_BEGIN: :CODEGEN_END:\n".toList, [], endMarker⟩
          " :CODEGEN_BEGIN:\nold\n:CODEGEN_END:*/".toList := by decide
    have hsecond : scan " :CODEGEN_BEGIN:\nold\n:CODEGEN_END:*/".toList =
        .found ⟨" :CODEGEN_BEGIN:\n".toList, "old\n".toList, endMarker⟩ "*/".toList := by decide
    rw [count, Layout.ofText_of_found hfirst, Layout.ofText_of_found hsecond]
    simp
  have hlines : ∀ line ∈ ["", "new"], Unmarked line.toList := by decide
  obtain ⟨result, _, _, _, hresult, hsame, _, _, _, _, _, hagain, _⟩ :=
    splice_laws ⟨"file.h"⟩ hcount hlines
  obtain ⟨final, hfinal, hfinal'⟩ := hagain ["new"]
  exact ⟨hcount, hlines, result, hresult, hsame, hfinal.trans hfinal'.symm⟩

/-- Splicing several blocks succeeds exactly if the text has them all, and sets their bodies in its
layout. -/
theorem spliceAll_eq_ok_iff {edits : List (Nat × List String)}
    (hlines : ∀ edit ∈ edits, ∀ line ∈ edit.2, Unmarked line.toList) :
    spliceAll path text edits = .ok result ↔
      (∀ edit ∈ edits, edit.1 < count text) ∧
        result.toList = ((Layout.ofText text.toList).setBodies edits).text := by
  induction edits generalizing text with
  | nil =>
      simp only [spliceAll, Layout.setBodies, List.foldl_nil, Layout.text_ofText]
      simp [pure, Except.pure, String.toList_inj, eq_comm]
  | cons edit rest ih =>
      have hedit := hlines edit List.mem_cons_self
      have hrest := fun other hother => hlines other (List.mem_cons_of_mem _ hother)
      have hstep : spliceAll path text (edit :: rest) = .ok result ↔
          edit.1 < count text ∧ spliceAll path (spliced text edit.1 edit.2) rest = .ok result := by
        rw [spliceAll, List.foldlM_cons, except_bind_eq_ok_iff]
        simp only [splice_eq_ok_iff, and_assoc, exists_and_left, exists_eq_left]
        rfl
      rw [hstep, ih hrest, count_spliced hedit, ofText_spliced hedit, List.forall_mem_cons, and_assoc]
      rfl

/-- Several blocks can be spliced exactly if the text has them all. -/
theorem exists_spliceAll_eq_ok_iff {edits : List (Nat × List String)}
    (hlines : ∀ edit ∈ edits, ∀ line ∈ edit.2, Unmarked line.toList) :
    (∃ result, spliceAll path text edits = .ok result) ↔ ∀ edit ∈ edits, edit.1 < count text := by
  simp only [spliceAll_eq_ok_iff hlines, exists_and_left]
  exact and_iff_left ⟨_, String.toList_ofList⟩

/-- After several splices the search finds the blocks of the text with their new bodies. -/
theorem ofText_of_spliceAll_eq_ok {edits : List (Nat × List String)}
    (hlines : ∀ edit ∈ edits, ∀ line ∈ edit.2, Unmarked line.toList)
    (h : spliceAll path text edits = .ok result) :
    Layout.ofText result.toList = (Layout.ofText text.toList).setBodies edits := by
  rw [((spliceAll_eq_ok_iff hlines).mp h).2]
  exact Layout.ofText_text ((Layout.wellFormed_ofText _).setBodies hlines)

theorem respliced_of_spliceAll_eq_ok {edits : List (Nat × List String)}
    (hlines : ∀ edit ∈ edits, ∀ line ∈ edit.2, Unmarked line.toList)
    (hnodup : (edits.map Prod.fst).Nodup) (h : spliceAll path text edits = .ok result) :
    Layout.Respliced edits (Layout.ofText text.toList) (Layout.ofText result.toList) := by
  rw [ofText_of_spliceAll_eq_ok hlines h]
  exact Layout.respliced_setBodies ((spliceAll_eq_ok_iff hlines).mp h).1 hnodup

/-- Splicing the same lines into the same blocks again changes nothing. -/
theorem spliceAll_of_spliceAll_eq_ok {edits : List (Nat × List String)}
    (hlines : ∀ edit ∈ edits, ∀ line ∈ edit.2, Unmarked line.toList)
    (h : spliceAll path text edits = .ok result) : spliceAll path result edits = .ok result := by
  have hlayout := ofText_of_spliceAll_eq_ok hlines h
  obtain ⟨hindices, hresult⟩ := (spliceAll_eq_ok_iff hlines).mp h
  refine (spliceAll_eq_ok_iff hlines).mpr ⟨fun edit hedit => ?_, ?_⟩
  -- new bodies keep the number of blocks, so every index is still one of a block
  · have hframes := congrArg List.length
      (Layout.frames_setBodies (Layout.ofText text.toList) edits)
    rw [List.length_map, List.length_map] at hframes
    rw [count, hlayout, hframes]
    exact hindices edit hedit
  · rw [hlayout, Layout.setBodies_setBodies, hresult]

end Block

end Bindery
