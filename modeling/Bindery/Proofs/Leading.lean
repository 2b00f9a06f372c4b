import Bindery.Proofs.Header

/-!
# Texts in front of the blocks

The search for blocks passes over a text in which none opens. So a text in front of the blocks has no part
in whether new lines can be set into them, nor in whether these change anything. The comment at the start
of a file is such a text, when it holds no marker.
-/

namespace Bindery

open Text

/-- No block opens in a text, whatever follows it. -/
structure Unopened (lead : List Char) : Prop where
  noneStarts : ∀ rest, NoneStarts beginMarker lead rest

variable {lead : List Char}

theorem unopened_nil : Unopened [] := ⟨fun _ => trivial⟩

/-- No block opens in a comment without a begin marker, nor in the mark that ends it. -/
theorem unopened_append_closing {comment : List Char} (h : ¬ beginMarker <:+: comment) :
    Unopened (comment ++ Header.closing) := by
  have hclosing : Header.closing = ['*', '/'] := by decide
  have hnot : ¬ beginMarker <:+: comment ++ Header.closing := by
    rw [hclosing, infix_append_cons_iff (by decide)]
    exact not_or.mpr ⟨h, by decide⟩
  constructor
  intro rest
  have hslash : '/' ∉ beginMarker := by decide
  apply noneStarts_of_getLast? hslash _ hnot
  exact Or.inr (by simp [hclosing])

namespace Block

/-- What a search finds when a text without blocks stands in front. -/
def Scan.behind (lead : List Char) : Scan → Scan
  | .nothing => .nothing
  | .unclosed before => .unclosed (lead ++ before)
  | .found block rest => .found { block with opening := lead ++ block.opening } rest

theorem scan_append (hlead : Unopened lead) (text : List Char) :
    scan (lead ++ text) = (scan text).behind lead := by
  unfold scan
  rw [cut?_append_of_noneStarts (hlead.noneStarts text)]
  cases cut? beginMarker text with
  | none => rfl
  | some parts =>
      obtain ⟨before, marked⟩ := parts
      simp only [Option.map_some]
      cases marked.dropWhile (· ≠ '\n') with
      | nil => rfl
      | cons c inner =>
          dsimp only
          cases hcut : cut? endMarker inner with
          | none => rfl
          | some covered =>
              dsimp only
              by_cases hnested : occurs beginMarker covered.1
              · rw [if_pos hnested, if_pos hnested]
                rfl
              · rw [if_neg hnested, if_neg hnested]
                simp [Scan.behind]

end Block

namespace Layout

/-- The layout of a text with a text without blocks in front. -/
def behind (lead : List Char) (layout : Layout) : Layout :=
  match layout.blocks with
  | [] => ⟨[], lead ++ layout.rest, layout.unclosed.map (lead ++ ·)⟩
  | block :: blocks =>
      { layout with blocks := { block with opening := lead ++ block.opening } :: blocks }

theorem ofText_of_nothing {text : List Char} (h : Block.scan text = .nothing) :
    ofText text = ⟨[], text, none⟩ := by
  rw [ofText]
  split <;> rename_i hscan
  · rfl
  · cases h.symm.trans hscan
  · cases h.symm.trans hscan

theorem ofText_of_unclosed {text before : List Char} (h : Block.scan text = .unclosed before) :
    ofText text = ⟨[], text, some before⟩ := by
  rw [ofText]
  split <;> rename_i hscan
  · cases h.symm.trans hscan
  · cases h.symm.trans hscan
    rfl
  · cases h.symm.trans hscan

theorem ofText_append (hlead : Unopened lead) (text : List Char) :
    ofText (lead ++ text) = (ofText text).behind lead := by
  have hscan := Block.scan_append hlead text
  cases h : Block.scan text with
  | nothing =>
      rw [h] at hscan
      rw [ofText_of_nothing hscan, ofText_of_nothing h]
      rfl
  | unclosed before =>
      rw [h] at hscan
      rw [ofText_of_unclosed hscan, ofText_of_unclosed h]
      rfl
  | found block rest =>
      rw [h] at hscan
      rw [ofText_of_found hscan, ofText_of_found h]
      rfl

theorem length_blocks_behind (layout : Layout) :
    (layout.behind lead).blocks.length = layout.blocks.length := by
  obtain ⟨blocks, rest, unclosed⟩ := layout
  cases blocks <;> rfl

theorem setBody_behind (layout : Layout) (index : Nat) (body : List Char) :
    (layout.behind lead).setBody index body = (layout.setBody index body).behind lead := by
  obtain ⟨blocks, rest, unclosed⟩ := layout
  cases blocks with
  | nil => simp [behind, setBody]
  | cons block blocks => cases index <;> simp [behind, setBody]

theorem text_behind (layout : Layout) : (layout.behind lead).text = lead ++ layout.text := by
  obtain ⟨blocks, rest, unclosed⟩ := layout
  cases blocks with
  | nil => rfl
  | cons block blocks => simp [behind, text, Block.text]

end Layout

namespace Block

variable {path : Path} {front text other result : String} {blocks : List (Nat × List String)}

/-- A text in front of the blocks is kept by a splice, and does not matter to it. -/
theorem splice_append (hfront : Unopened front.toList) {index : Nat} {lines : List String} :
    splice path (front ++ text) index lines = .ok result ↔
      ∃ final, splice path text index lines = .ok final ∧ result = front ++ final := by
  have hcount : count (front ++ text) = count text := by
    rw [count, String.toList_append, Layout.ofText_append hfront, Layout.length_blocks_behind, count]
  have hspliced : spliced (front ++ text) index lines = front ++ spliced text index lines := by
    rw [← String.toList_inj, spliced, spliced, String.toList_append, String.toList_ofList,
      String.toList_append, String.toList_ofList, Layout.ofText_append hfront, Layout.setBody_behind,
      Layout.text_behind]
  simp only [splice_eq_ok_iff, hcount, hspliced]
  constructor
  · rintro ⟨hindex, rfl⟩
    exact ⟨_, ⟨hindex, rfl⟩, rfl⟩
  · rintro ⟨_, ⟨hindex, rfl⟩, rfl⟩
    exact ⟨hindex, rfl⟩

theorem spliceAll_append (hfront : Unopened front.toList) :
    spliceAll path (front ++ text) blocks = .ok result ↔
      ∃ final, spliceAll path text blocks = .ok final ∧ result = front ++ final := by
  induction blocks generalizing text with
  | nil =>
      constructor
      · intro h
        exact ⟨text, rfl, (Except.ok.inj h).symm⟩
      · rintro ⟨final, h, rfl⟩
        rw [← Except.ok.inj h]
        rfl
  | cons block rest ih =>
      have hstep (source : String) : spliceAll path source (block :: rest) =
          splice path source block.1 block.2 >>= fun next => spliceAll path next rest :=
        List.foldlM_cons
      rw [hstep, except_bind_eq_ok_iff, hstep]
      constructor
      · rintro ⟨_, hmiddle, h⟩
        obtain ⟨next, hnext, rfl⟩ := (splice_append hfront).mp hmiddle
        obtain ⟨final, hfinal, rfl⟩ := ih.mp h
        exact ⟨final, except_bind_eq_ok_iff.mpr ⟨next, hnext, hfinal⟩, rfl⟩
      · rintro ⟨final, h, rfl⟩
        obtain ⟨next, hnext, hfinal⟩ := except_bind_eq_ok_iff.mp h
        exact ⟨front ++ next, (splice_append hfront).mpr ⟨next, hnext, rfl⟩,
          ih.mpr ⟨final, hfinal, rfl⟩⟩

/-- Two texts are the same behind texts in which no block opens. -/
def SameBehind (text other : String) : Prop :=
  ∃ front front' rest, text = front ++ rest ∧ other = front' ++ rest
    ∧ Unopened front.toList ∧ Unopened front'.toList

theorem SameBehind.refl (text : String) : SameBehind text text :=
  ⟨"", "", text, String.empty_append.symm, String.empty_append.symm, unopened_nil, unopened_nil⟩

theorem SameBehind.symm (h : SameBehind text other) : SameBehind other text := by
  obtain ⟨front, front', rest, htext, hother, hfront, hfront'⟩ := h
  exact ⟨front', front, rest, hother, htext, hfront', hfront⟩

/-- Texts that are the same behind texts in which no block opens can be spliced alike, and both change
or none does. -/
theorem SameBehind.spliceAll_eq_ok (h : SameBehind text other)
    (hresult : spliceAll path text blocks = .ok result) :
    ∃ result', spliceAll path other blocks = .ok result' ∧ (result' = other ↔ result = text) := by
  obtain ⟨front, front', rest, rfl, rfl, hfront, hfront'⟩ := h
  obtain ⟨final, hfinal, rfl⟩ := (spliceAll_append hfront).mp hresult
  refine ⟨front' ++ final, (spliceAll_append hfront').mpr ⟨final, hfinal, rfl⟩, ?_⟩
  rw [String.append_right_inj, String.append_right_inj]

end Block

namespace Header

variable {copyright text renewed : String}

/-- The comment at the start of a text, up to the mark that ends it. -/
def leading? (text : String) : Option (List Char) :=
  if opening.isPrefixOf text.toList then (cut? closing text.toList).map Prod.fst else none

/-- A renewed text is the old one behind the comment, when neither comment holds a begin marker. -/
theorem sameBehind_of_renew?_eq_some (hcopyright : ¬ beginMarker <:+: copyright.toList)
    (hleading : ∀ comment, leading? text = some comment → ¬ beginMarker <:+: comment)
    (h : renew? (comment copyright) text = some renewed) : Block.SameBehind text renewed := by
  unfold renew? at h
  split at h
  next hopening =>
    obtain ⟨⟨old, behind⟩, hcut, rfl⟩ := Option.map_eq_some_iff.mp h
    obtain ⟨htext, ⟨rest, rfl⟩, -⟩ := cut?_eq_some_iff.mp hcut
    have hold : ¬ beginMarker <:+: old := by
      apply hleading
      rw [leading?, if_pos hopening, hcut]
      rfl
    have hnew : ¬ beginMarker <:+: (comment copyright).toList :=
      not_infix_comment (by decide) (by decide) (by decide) (by decide) hcopyright
    refine ⟨String.ofList (old ++ closing), comment copyright ++ String.ofList closing,
      String.ofList rest, ?_, ?_, ?_, ?_⟩
    · rw [← String.toList_inj, htext]
      simp
    · rw [← String.toList_inj]
      simp
    · rw [String.toList_ofList]
      exact unopened_append_closing hold
    · have hends : (comment copyright ++ String.ofList closing).toList =
          (comment copyright).toList ++ closing := by
        rw [String.toList_append, String.toList_ofList]
      rw [hends]
      exact unopened_append_closing hnew
  next => cases h

end Header

end Bindery
