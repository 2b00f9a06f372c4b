import Bindery.Proofs.Splice
import Bindery.Scaffold

/-!
# Reading blocks back

A block is read back by skipping as many end markers as its index says. That finds the blocks that a
splice finds where no end marker stands in front of a body; one that does is taken for the end of a
block when blocks are skipped, and for that of its own block when it stands in the opening line.
-/

namespace Bindery

open Text

namespace Text

/-- A text is cut where the pattern follows a part in which none starts. -/
theorem cut?_append_pattern {pattern before : List Char} (h : NoneStarts pattern before pattern)
    (rest : List Char) : cut? pattern (before ++ (pattern ++ rest)) = some (before, pattern ++ rest) :=
  cut?_eq_some_iff.mpr ⟨rfl, List.prefix_append _ _, (noneStarts_append_right (Nat.le_refl _)).mpr h⟩

end Text

namespace Block

/-- No end marker stands in front of the body. -/
def Plain (block : Block) : Prop := ¬ endMarker <:+: block.opening

variable {block : Block}

/-- The first end marker of a complete block is the one that closes it. -/
theorem Complete.cut?_endMarker (h : block.Complete) (hplain : block.Plain) (rest : List Char) :
    ∃ before, cut? endMarker (block.text ++ rest) = some (before, endMarker ++ rest) := by
  obtain ⟨lead, line, body, edge, hopen, hline, hlead, hbody, hedge, hclose, hnested⟩ := h
  have hopening : NoneStarts endMarker (lead ++ line ++ ['\n']) (body ++ edge ++ endMarker) :=
    noneStarts_of_getLast? newline_not_mem_endMarker (Or.inr (by simp)) hplain
  have hwhole := cut?_append_pattern (noneStarts_append.mpr ⟨hopening, hclose⟩) rest
  refine ⟨_, Eq.trans ?_ hwhole⟩
  simp [text]

theorem skipBlocks_flatMap {blocks : List Block}
    (h : ∀ block ∈ blocks, block.Complete ∧ block.Plain) (rest : List Char) :
    skipBlocks blocks.length (blocks.flatMap text ++ rest) = some rest := by
  induction blocks with
  | nil => rfl
  | cons block blocks ih =>
      obtain ⟨⟨hcomplete, hplain⟩, hblocks⟩ := List.forall_mem_cons.mp h
      obtain ⟨before, hcut⟩ := hcomplete.cut?_endMarker hplain (blocks.flatMap text ++ rest)
      rw [List.flatMap_cons, List.append_assoc, List.length_cons, skipBlocks, cutOut?, hcut,
        Option.map_some]
      simp only [List.drop_left]
      exact ih hblocks

/-- Between its markers, a complete block has its body. -/
theorem Complete.cut?_markers (h : block.Complete) (hplain : block.Plain) (rest : List Char) :
    ∃ before marked covered, cut? beginMarker (block.text ++ rest) = some (before, marked)
      ∧ cut? endMarker marked = some (covered, endMarker ++ rest)
      ∧ linesBetween? covered = some block.body := by
  obtain ⟨lead, line, body, edge, hopen, hline, hlead, hbody, hedge, hclose, hnested⟩ := h
  refine ⟨lead, line ++ '\n' :: (body ++ edge ++ (endMarker ++ rest)), line ++ '\n' :: (body ++ edge),
    ?_, ?_, ?_⟩
  · refine cut?_eq_some_iff.mpr ⟨by simp [text], hopen.trans (List.prefix_append _ _), ?_⟩
    exact (noneStarts_append_right hopen.length_le).mpr hlead
  · have hline' : ¬ endMarker <:+: line ++ ['\n'] :=
      fun hpart => hplain (hpart.trans ⟨lead, [], by simp⟩)
    have hopening : NoneStarts endMarker (line ++ ['\n']) (body ++ edge ++ endMarker) :=
      noneStarts_of_getLast? newline_not_mem_endMarker (Or.inr (by simp)) hline'
    have hwhole := cut?_append_pattern (noneStarts_append.mpr ⟨hopening, hclose⟩) rest
    simpa using hwhole
  · rw [linesBetween?, dropWhile_append_newline hline]
    exact congrArg (fun split => some split.1) (splitLastLine_append hbody hedge)

variable {checkout : Checkout} {path : Path} {content : String} {index : Nat} {body : List Char}

/-- The body of a block is read back when no end marker stands in front of a body of its file. -/
theorem readBody_eq_ok (hread : checkout.read path = .ok content)
    (hplain : ∀ block ∈ (Layout.ofText content.toList).blocks, block.Plain)
    (hbody : (Layout.ofText content.toList).body? index = some body) :
    readBody checkout path index = .ok (String.ofList body) := by
  let layout := Layout.ofText content.toList
  obtain ⟨block, hblock, rfl⟩ := Option.map_eq_some_iff.mp hbody
  obtain ⟨hindex, hget⟩ := List.getElem?_eq_some_iff.mp hblock
  have hcomplete : ∀ block ∈ layout.blocks, block.Complete := (Layout.wellFormed_ofText _).complete
  have hmem : block ∈ layout.blocks := List.mem_of_getElem? hblock
  let behind := (layout.blocks.drop (index + 1)).flatMap text ++ layout.rest
  have htext : content.toList = (layout.blocks.take index).flatMap text ++ (block.text ++ behind) := by
    have hblocks : layout.blocks = layout.blocks.take index ++
        block :: layout.blocks.drop (index + 1) := by
      rw [← hget, ← List.drop_eq_getElem_cons hindex, List.take_append_drop]
    calc content.toList = layout.text := (Layout.text_ofText _).symm
      _ = (layout.blocks.take index ++ block :: layout.blocks.drop (index + 1)).flatMap text
          ++ layout.rest := by rw [← hblocks, Layout.text]
      _ = _ := by simp [behind]
  have hskip : skipBlocks index content.toList = some (block.text ++ behind) := by
    have hfront : ∀ block ∈ layout.blocks.take index, block.Complete ∧ block.Plain :=
      fun other hother => ⟨hcomplete other (List.mem_of_mem_take hother),
        hplain other (List.mem_of_mem_take hother)⟩
    have hlength : (layout.blocks.take index).length = index :=
      List.length_take_of_le (Nat.le_of_lt hindex)
    have hskipped := skipBlocks_flatMap hfront (block.text ++ behind)
    rwa [hlength, ← htext] at hskipped
  obtain ⟨before, marked, covered, hbegin, hend, hlines⟩ :=
    (hcomplete block hmem).cut?_markers (hplain block hmem) behind
  have hmarked : (skipBlocks index content.toList).bind (cut? beginMarker) = some (before, marked) := by
    rw [hskip, Option.bind_some, hbegin]
  rw [readBody, hread]
  simp only [Except.mapError, bind, Except.bind, hmarked, hend, hlines]

end Block

end Bindery
