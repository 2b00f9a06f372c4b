import Bindery.Proofs.Locating
import Bindery.Proofs.Spans

/-!
# Offsets of blocks

The search for blocks as it is carried out on the bytes of a text: it keeps an offset, takes slices of the
text and looks for the next marker or line feed in them, and for the last line feed in front of an end
marker. A slice between offsets that are out of order, behind the end of the text or within a character
is refused. The search never takes such a slice. It finds the blocks of the text, each behind the one
before, and comes to an end behind the last.
-/

namespace Bindery

open Text

namespace Text

/-! ## Slices -/

/-- The text up to an offset in bytes, and the text from there on. There is none where the offset lies
behind the end of the text or within a character. -/
def cutAt? : Nat → List Char → Option (List Char × List Char)
  | 0, text => some ([], text)
  | _ + 1, [] => none
  | offset + 1, c :: rest =>
      if c.utf8Size ≤ offset + 1 then
        (cutAt? (offset + 1 - c.utf8Size) rest).map fun parts => (c :: parts.1, parts.2)
      else none

def upTo? (offset : Nat) (text : List Char) : Option (List Char) := (cutAt? offset text).map Prod.fst

def from? (offset : Nat) (text : List Char) : Option (List Char) := (cutAt? offset text).map Prod.snd

/-- The text from one offset up to another, which must not lie in front of it. -/
def slice? (first last : Nat) (text : List Char) : Option (List Char) :=
  (upTo? last text).bind (from? first)

/-- The number of bytes in front of the first occurrence of a pattern. -/
def offset? (pattern text : List Char) : Option Nat := (cut? pattern text).map fun parts => utf8Length parts.1

/-- The number of bytes in front of the last occurrence of a character. -/
def lastOffset? (c : Char) : List Char → Option Nat
  | [] => none
  | d :: rest =>
      match lastOffset? c rest with
      | some skipped => some (d.utf8Size + skipped)
      | none => if d = c then some 0 else none

/-- The number of bytes in front of the last line, which starts behind the last line feed. -/
def lastLineOffset (text : List Char) : Nat :=
  match lastOffset? '\n' text with
  | none => 0
  | some skipped => skipped + 1

variable {first last offset : Nat} {text before after : List Char}

theorem cutAt?_eq_some_iff :
    cutAt? offset text = some (before, after) ↔ text = before ++ after ∧ utf8Length before = offset := by
  fun_induction cutAt? offset text generalizing before with
  | case1 text =>
      simp only [Option.some.injEq, Prod.mk.injEq]
      constructor
      · rintro ⟨rfl, rfl⟩
        exact ⟨rfl, rfl⟩
      · rintro ⟨htext, hbefore⟩
        obtain rfl := eq_nil_of_utf8Length_eq_zero hbefore
        exact ⟨rfl, htext⟩
  | case2 offset =>
      constructor
      · intro h
        cases h
      · rintro ⟨htext, hbefore⟩
        rw [(List.append_eq_nil_iff.mp htext.symm).1] at hbefore
        cases hbefore
  | case3 offset c rest hfits ih =>
      simp only [Option.map_eq_some_iff, Prod.mk.injEq]
      constructor
      · rintro ⟨⟨front, back⟩, hcut, rfl, rfl⟩
        obtain ⟨rfl, hfront⟩ := ih.mp hcut
        refine ⟨rfl, ?_⟩
        rw [utf8Length_cons, hfront]
        omega
      · rintro ⟨htext, hbefore⟩
        cases before with
        | nil => cases hbefore
        | cons d front =>
            obtain ⟨rfl, rfl⟩ := List.cons.inj htext
            rw [utf8Length_cons] at hbefore
            exact ⟨(front, after), ih.mpr ⟨rfl, by omega⟩, rfl, rfl⟩
  | case4 offset c rest hwide =>
      constructor
      · intro h
        cases h
      · rintro ⟨htext, hbefore⟩
        cases before with
        | nil => cases hbefore
        | cons d front =>
            obtain ⟨rfl, -⟩ := List.cons.inj htext
            rw [utf8Length_cons] at hbefore
            omega

/-- An offset within a character is refused. -/
example : cutAt? 1 ['é'] = none := by decide

theorem upTo?_append (before after : List Char) : upTo? (utf8Length before) (before ++ after) = some before := by
  rw [upTo?, cutAt?_eq_some_iff.mpr ⟨rfl, rfl⟩, Option.map_some]

theorem from?_append (before after : List Char) : from? (utf8Length before) (before ++ after) = some after := by
  rw [from?, cutAt?_eq_some_iff.mpr ⟨rfl, rfl⟩, Option.map_some]

theorem slice?_append (before middle after : List Char) :
    slice? (utf8Length before) (utf8Length (before ++ middle)) (before ++ middle ++ after) = some middle := by
  rw [slice?, upTo?_append, Option.bind_some, from?_append]

theorem lastOffset?_eq_none {c : Char} (h : c ∉ text) : lastOffset? c text = none := by
  induction text with
  | nil => rfl
  | cons d rest ih =>
      rw [List.mem_cons, not_or] at h
      rw [lastOffset?, ih h.2]
      exact if_neg (Ne.symm h.1)

theorem lastOffset?_append_cons {c : Char} (h : c ∉ after) :
    lastOffset? c (before ++ c :: after) = some (utf8Length before) := by
  induction before with
  | nil => simp [lastOffset?, lastOffset?_eq_none h, utf8Length]
  | cons d rest ih => rw [List.cons_append, lastOffset?, ih, utf8Length_cons]

theorem lastLineOffset_append (hbefore : EndsLine before) (hafter : '\n' ∉ after) :
    lastLineOffset (before ++ after) = utf8Length before := by
  rw [lastLineOffset]
  rcases hbefore with rfl | hlast
  · rw [List.nil_append, lastOffset?_eq_none hafter]
    rfl
  · obtain ⟨front, rfl⟩ := List.getLast?_eq_some_iff.mp hlast
    rw [List.append_assoc, List.singleton_append, lastOffset?_append_cons hafter, utf8Length_append]
    rfl

/-- A text is divided at the first occurrence of a character. -/
theorem cut?_singleton_append {c : Char} (h : c ∉ before) (after : List Char) :
    cut? [c] (before ++ c :: after) = some (before, c :: after) := by
  have hnot : ¬ [c] <:+: before := fun hoccurs => h (hoccurs.subset List.mem_cons_self)
  exact cut?_append_of_not_infix List.not_mem_nil hnot after

theorem cut?_singleton_eq_none {c : Char} (h : c ∉ text) : cut? [c] text = none :=
  cut?_eq_none_iff.mpr fun hoccurs => h (hoccurs.subset List.mem_cons_self)

end Text

/-! ## The search -/

namespace Block

/-- Where a block stands in a text, in bytes: where its body starts and stops, and where the search for the
next block goes on. -/
structure Offsets where
  start : Nat
  stop : Nat
  next : Nat
deriving DecidableEq, Repr

/-- What a search by offsets comes upon. -/
inductive Finding where
  | nothing
  /-- a block opens on a line and is not closed before another one opens -/
  | unclosed (line : Nat)
  | found (offsets : Offsets)
deriving DecidableEq, Repr

/-- Searches for the end of a block whose begin marker and whose body start at given offsets. -/
def seekEnd? (text : List Char) (opens start : Nat) : Option Finding := do
  let inner ← from? start text
  match offset? endMarker inner with
  | none => return .nothing
  | some skipped =>
      let closes := start + skipped
      let covered ← slice? start closes text
      if occurs beginMarker covered then
        let before ← upTo? opens text
        return .unclosed (before.count '\n' + 1)
      else
        -- the last line feed is searched from the start of the whole text
        let before ← upTo? closes text
        return .found ⟨start, lastLineOffset before, closes + utf8Length endMarker⟩

/-- Searches a text from an offset on for its next block. There is no answer if the search takes a slice
that is refused. -/
def seek? (text : List Char) (cursor : Nat) : Option Finding := do
  let ahead ← from? cursor text
  match offset? beginMarker ahead with
  | none => return .nothing
  | some skipped =>
      let opens := cursor + skipped
      let marked ← from? opens text
      match offset? ['\n'] marked with
      | none => return .nothing
      | some skipped => seekEnd? text opens (opens + skipped + 1)

/-- The offsets of a block behind a number of bytes. -/
def offsets (block : Block) (cursor : Nat) : Offsets where
  start := cursor + utf8Length block.opening
  stop := cursor + utf8Length (block.opening ++ block.body)
  next := cursor + utf8Length block.text

/-- What a search by offsets comes upon where a search of the text behind `front` ends so. -/
def Scan.finding (front : List Char) : Scan → Finding
  | .nothing => .nothing
  | .unclosed lead => .unclosed ((front ++ lead).count '\n' + 1)
  | .found block _ => .found (block.offsets (utf8Length front))

/-- Where a block ends, and whether another one opens before, is found behind the line that opens it. -/
theorem seekEnd?_append {front lead line : List Char} (inner : List Char) :
    seekEnd? (front ++ (lead ++ (line ++ '\n' :: inner))) (utf8Length (front ++ lead))
        (utf8Length (front ++ lead ++ line ++ ['\n'])) =
      some (match cut? endMarker inner with
        | none => .nothing
        | some (covered, _) =>
            if occurs beginMarker covered then .unclosed ((front ++ lead).count '\n' + 1)
            else
              let (body, edge) := splitLastLine covered
              .found (offsets ⟨lead ++ line ++ ['\n'], body, edge ++ endMarker⟩ (utf8Length front))) := by
  let opened := front ++ lead ++ line ++ ['\n']
  have htext : front ++ (lead ++ (line ++ '\n' :: inner)) = opened ++ inner := by simp [opened]
  rw [seekEnd?, htext, from?_append]
  cases hclose : cut? endMarker inner with
  | none => simp [offset?, hclose]
  | some parts =>
      obtain ⟨covered, rest⟩ := parts
      obtain rfl := append_of_cut?_eq_some hclose
      have hcloses : utf8Length opened + utf8Length covered = utf8Length (opened ++ covered) :=
        (utf8Length_append ..).symm
      have hbefore : upTo? (utf8Length (front ++ lead)) (opened ++ (covered ++ rest)) = some (front ++ lead) := by
        simp only [opened, List.append_assoc (front ++ lead)]
        exact upTo?_append _ _
      simp only [offset?, hclose, Option.map_some, Option.bind_eq_bind, Option.bind_some, hbefore]
      rw [hcloses, ← List.append_assoc, slice?_append, upTo?_append]
      simp only [Option.bind_some]
      split
      · rfl
      · obtain ⟨body, edge, rfl, hbody, hedge⟩ := exists_endsLine_append covered
        have hends : EndsLine (opened ++ body) := by
          rcases hbody with rfl | hlast
          · exact Or.inr (by simp [opened])
          · exact Or.inr (by simp [hlast])
        rw [splitLastLine_append hbody hedge, ← List.append_assoc, lastLineOffset_append hends hedge]
        simp only [opened, offsets, text, utf8Length_append, Nat.add_assoc]
        rfl

/-- The search by offsets takes no slice that is refused, and finds what a search of the text ahead finds. -/
theorem seek?_append (front text : List Char) :
    seek? (front ++ text) (utf8Length front) = some ((scan text).finding front) := by
  rw [seek?, from?_append, scan]
  cases hlead : cut? beginMarker text with
  | none => simp [offset?, hlead, Scan.finding]
  | some parts =>
      obtain ⟨lead, marked⟩ := parts
      obtain rfl := append_of_cut?_eq_some hlead
      have hopens : utf8Length front + utf8Length lead = utf8Length (front ++ lead) := (utf8Length_append ..).symm
      have hmarked : from? (utf8Length (front ++ lead)) (front ++ (lead ++ marked)) = some marked := by
        rw [← List.append_assoc, from?_append]
      simp only [offset?, hlead, Option.map_some, Option.bind_eq_bind, Option.bind_some, hopens, hmarked]
      cases hdrop : marked.dropWhile (· ≠ '\n') with
      | nil =>
          have hline : '\n' ∉ marked := fun hmem => by simpa using List.dropWhile_eq_nil_iff.mp hdrop _ hmem
          simp [cut?_singleton_eq_none hline, Scan.finding]
      | cons c inner =>
          obtain ⟨line, hline, rfl⟩ := exists_line_of_dropWhile_eq_cons hdrop
          have hstart : utf8Length (front ++ lead) + utf8Length line + 1 =
              utf8Length (front ++ lead ++ line ++ ['\n']) := by
            rw [utf8Length_append _ ['\n'], utf8Length_append (front ++ lead)]
            rfl
          simp only [cut?_singleton_append hline, Option.map_some, hstart, seekEnd?_append,
            takeWhile_append_newline hline]
          cases cut? endMarker inner with
          | none => rfl
          | some parts =>
              dsimp only
              split <;> rfl

/-- Offsets count bytes, of which a letter with an accent has two. -/
example : seek? "é :CODEGEN_BEGIN: ô\nü\n:CODEGEN_END:".toList 0 = some (.found ⟨22, 25, 38⟩) := by decide

/-! ## The blocks on the way -/

/-- The offsets of the blocks that the search comes upon from a cursor on, when it goes on behind each of
them until it finds no further one. -/
inductive Visits (text : List Char) : Nat → List Offsets → Prop
  | nothing {cursor : Nat} (hseek : seek? text cursor = some .nothing) : Visits text cursor []
  | unclosed {cursor line : Nat} (hseek : seek? text cursor = some (.unclosed line)) : Visits text cursor []
  | found {cursor : Nat} {offsets : Offsets} {rest : List Offsets} (hseek : seek? text cursor = some (.found offsets))
      (hrest : Visits text offsets.next rest) : Visits text cursor (offsets :: rest)

theorem Visits.unique {text : List Char} {cursor : Nat} {visited other : List Offsets}
    (h : Visits text cursor visited) (hother : Visits text cursor other) : other = visited := by
  induction h generalizing other with
  | nothing hseek =>
      cases hother with
      | nothing => rfl
      | unclosed => rfl
      | found hfound => cases hseek.symm.trans hfound
  | unclosed hseek =>
      cases hother with
      | nothing => rfl
      | unclosed => rfl
      | found hfound => cases hseek.symm.trans hfound
  | found hseek _ ih =>
      cases hother with
      | nothing hnothing => cases hseek.symm.trans hnothing
      | unclosed hunclosed => cases hseek.symm.trans hunclosed
      | found hfound hrest =>
          cases hseek.symm.trans hfound
          rw [ih hrest]

/-- The offsets of blocks that stand in a row behind a number of bytes. -/
def offsetsFrom (cursor : Nat) : List Block → List Offsets
  | [] => []
  | block :: rest => block.offsets cursor :: offsetsFrom (cursor + utf8Length block.text) rest

/-- The search by offsets comes upon the blocks of the layout and ends behind the last of them. -/
theorem visits_append (front text : List Char) :
    Visits (front ++ text) (utf8Length front) (offsetsFrom (utf8Length front) (Layout.ofText text).blocks) := by
  fun_induction Layout.ofText text generalizing front with
  | case1 text hscan => exact .nothing (by rw [seek?_append, hscan, Scan.finding])
  | case2 text lead hscan => exact .unclosed (by rw [seek?_append, hscan, Scan.finding])
  | case3 text block rest hscan _ layout ih =>
      have hfound := seek?_append front text
      rw [hscan] at hfound
      refine .found hfound ?_
      have hrest := ih (front ++ block.text)
      rw [List.append_assoc, ← (scan_eq_found_iff.mp hscan).2, utf8Length_append] at hrest
      exact hrest

theorem length_offsetsFrom (cursor : Nat) (blocks : List Block) :
    (offsetsFrom cursor blocks).length = blocks.length := by
  induction blocks generalizing cursor with
  | nil => rfl
  | cons block rest ih => rw [offsetsFrom, List.length_cons, ih, List.length_cons]

theorem getElem?_offsetsFrom (cursor : Nat) (blocks : List Block) (index : Nat) :
    (offsetsFrom cursor blocks)[index]? = blocks[index]?.map fun block =>
      block.offsets (cursor + utf8Length ((blocks.take index).flatMap Block.text)) := by
  induction blocks generalizing cursor index with
  | nil => rfl
  | cons block rest ih =>
      cases index with
      | zero => rfl
      | succ index =>
          rw [offsetsFrom, List.getElem?_cons_succ, ih, List.getElem?_cons_succ, List.take_succ_cons,
            List.flatMap_cons, utf8Length_append, Nat.add_assoc]

/-- A complete block opens with a begin marker, so its body does not start where the search for it does. -/
theorem Complete.lt_start {block : Block} (h : block.Complete) (cursor : Nat) :
    cursor < (block.offsets cursor).start := by
  obtain ⟨lead, line, body, edge, -, -, -, -, -, -, -⟩ := h
  have hfeed : utf8Length ['\n'] = 1 := rfl
  simp only [offsets, utf8Length_append, hfeed]
  omega

theorem lt_start_of_mem_offsetsFrom {cursor : Nat} {blocks : List Block} {offsets : Offsets}
    (h : ∀ block ∈ blocks, block.Complete) (hmem : offsets ∈ offsetsFrom cursor blocks) :
    cursor < offsets.start := by
  induction blocks generalizing cursor with
  | nil => cases hmem
  | cons block rest ih =>
      obtain ⟨hblock, hrest⟩ := List.forall_mem_cons.mp h
      rcases List.mem_cons.mp hmem with rfl | hmem
      · exact hblock.lt_start cursor
      · exact Nat.lt_of_le_of_lt (Nat.le_add_right ..) (ih hrest hmem)

theorem pairwise_offsetsFrom {blocks : List Block} (h : ∀ block ∈ blocks, block.Complete) (cursor : Nat) :
    (offsetsFrom cursor blocks).Pairwise fun earlier later => earlier.next < later.start := by
  induction blocks generalizing cursor with
  | nil => exact .nil
  | cons block rest ih =>
      have hrest := (List.forall_mem_cons.mp h).2
      exact .cons (fun later hlater => lt_start_of_mem_offsetsFrom hrest hlater) (ih hrest _)

/-- The body of a complete block is empty or whole lines, and holds no marker. -/
theorem Complete.unmarked_body {block : Block} (h : block.Complete) :
    Unmarked block.body ∧ EndsLine block.body := by
  obtain ⟨lead, line, body, edge, -, -, -, hbody, -, hclose, hnested⟩ := h
  have hend : endMarker = ':' :: "CODEGEN_END:".toList := by decide
  have hunclosed : ¬ endMarker <:+: body ++ edge := by
    rw [hend] at hclose ⊢
    exact not_infix_of_noneStarts hclose
  have hpart : body <:+: body ++ edge := (List.prefix_append _ _).isInfix
  exact ⟨⟨fun hoccurs => hnested (hoccurs.trans hpart), fun hoccurs => hunclosed (hoccurs.trans hpart)⟩, hbody⟩

/-- Offsets that lie in order between characters of a text, with the body of a block between the first two. -/
structure Offsets.WellFormed (offsets : Offsets) (text : String) : Prop where
  start_le_stop : offsets.start ≤ offsets.stop
  stop_le_next : offsets.stop ≤ offsets.next
  next_le : offsets.next ≤ text.utf8ByteSize
  isValid_start : (⟨offsets.start⟩ : String.Pos.Raw).IsValid text
  isValid_stop : (⟨offsets.stop⟩ : String.Pos.Raw).IsValid text
  isValid_next : (⟨offsets.next⟩ : String.Pos.Raw).IsValid text
  body : ∃ body, slice? offsets.start offsets.stop text.toList = some body ∧ Unmarked body ∧ EndsLine body

/-- The text with the body between two offsets replaced by lines, put together from slices. -/
def splicedAt? (offsets : Offsets) (lines : List String) (text : List Char) : Option (List Char) := do
  let before ← upTo? offsets.start text
  let behind ← from? offsets.stop text
  return before ++ (lines.flatMap fun line => line.toList ++ ['\n']) ++ behind

/-- The offsets of a block of a layout are those of its parts. -/
theorem exists_around {layout : Layout} {index : Nat} {offsets : Offsets}
    (h : (offsetsFrom 0 layout.blocks)[index]? = some offsets) :
    ∃ block before behind, layout.blocks[index]? = some block ∧
      layout.around? index = some (before, block.body, block.closing ++ behind) ∧
      offsets = ⟨utf8Length before, utf8Length (before ++ block.body),
        utf8Length (before ++ block.body ++ block.closing)⟩ := by
  rw [getElem?_offsetsFrom] at h
  obtain ⟨block, hblock, rfl⟩ := Option.map_eq_some_iff.mp h
  refine ⟨block, (layout.blocks.take index).flatMap Block.text ++ block.opening,
    (layout.blocks.drop (index + 1)).flatMap Block.text ++ layout.rest, hblock, ?_, ?_⟩
  · rw [Layout.around?, hblock, Option.map_some, List.append_assoc]
  · simp only [Block.offsets, Block.text, utf8Length_append, Nat.zero_add, Nat.add_assoc]

theorem wellFormed_of_mem_offsetsFrom {text : String} {offsets : Offsets}
    (h : offsets ∈ offsetsFrom 0 (Layout.ofText text.toList).blocks) : offsets.WellFormed text := by
  obtain ⟨index, hindex⟩ := List.mem_iff_getElem?.mp h
  obtain ⟨block, before, behind, hblock, haround, rfl⟩ := exists_around hindex
  have htext := Layout.append_of_around?_eq_some haround
  rw [Layout.text_ofText] at htext
  have hcomplete := (Layout.wellFormed_ofText text.toList).complete block (List.mem_of_getElem? hblock)
  have hbody : text.toList = before ++ block.body ++ (block.closing ++ behind) := htext
  have hclosing : text.toList = before ++ block.body ++ block.closing ++ behind := by
    rw [hbody, List.append_assoc (before ++ block.body)]
  have hbefore : text.toList = before ++ (block.body ++ (block.closing ++ behind)) := by
    rw [hbody, List.append_assoc]
  refine ⟨?_, ?_, ?_, isValid_utf8Length hbefore, isValid_utf8Length hbody, isValid_utf8Length hclosing,
    block.body, ?_, hcomplete.unmarked_body⟩
  · rw [utf8Length_append]
    exact Nat.le_add_right ..
  · rw [utf8Length_append (before ++ block.body)]
    exact Nat.le_add_right ..
  · rw [← utf8Length_toList, hclosing, utf8Length_append _ behind]
    exact Nat.le_add_right ..
  · rw [hbody]
    exact slice?_append _ _ _

/-- Between the offsets of a block stands its body, and a splice puts together the slices around it. -/
theorem exists_splicedAt? {text : String} {index : Nat} {offsets : Offsets}
    (h : (offsetsFrom 0 (Layout.ofText text.toList).blocks)[index]? = some offsets) :
    slice? offsets.start offsets.stop text.toList = (Layout.ofText text.toList).body? index ∧
      ∀ path lines, ∃ result, splicedAt? offsets lines text.toList = some result ∧
        splice path text index lines = .ok (String.ofList result) := by
  have hindex : index < count text := by
    have hlt := (List.getElem?_eq_some_iff.mp h).1
    rwa [length_offsetsFrom] at hlt
  obtain ⟨block, before, behind, hblock, haround, rfl⟩ := exists_around h
  have htext := Layout.append_of_around?_eq_some haround
  rw [Layout.text_ofText] at htext
  refine ⟨?_, fun path lines => ?_⟩
  · rw [Layout.body?, hblock, htext]
    exact slice?_append _ _ _
  · have hresult : ((Layout.ofText text.toList).setBody index (bodyOfLines lines)).text =
        before ++ (lines.flatMap fun line => line.toList ++ ['\n']) ++ (block.closing ++ behind) :=
      Layout.append_of_around?_eq_some (Layout.around?_setBody haround)
    have hbefore : upTo? (utf8Length before) text.toList = some before := by
      rw [htext, List.append_assoc, upTo?_append]
    have hbehind : from? (utf8Length (before ++ block.body)) text.toList = some (block.closing ++ behind) := by
      rw [htext, from?_append]
    refine ⟨before ++ (lines.flatMap fun line => line.toList ++ ['\n']) ++ (block.closing ++ behind), ?_, ?_⟩
    · rw [splicedAt?, hbefore, hbehind]
      rfl
    · rw [splice_eq_ok hindex, spliced, hresult]

/-- The search by offsets, started at zero and then behind each block, takes no slice that is refused, and ends
after it has come upon every block once. The offsets of a block lie in order between characters of the text and
behind those of the blocks before it. Its body stands between them; it is empty or whole lines, and holds no
marker. A splice puts together the slices of the text around the body. -/
theorem offsets_of_visits (text : String) :
    ∃ visited, Visits text.toList 0 visited ∧ (∀ other, Visits text.toList 0 other → other = visited) ∧
      visited.length = count text ∧
      visited.Pairwise (fun earlier later => earlier.next < later.start) ∧
      (∀ offsets ∈ visited, offsets.WellFormed text) ∧
      ∀ index offsets, visited[index]? = some offsets →
        slice? offsets.start offsets.stop text.toList = (Layout.ofText text.toList).body? index ∧
          ∀ path lines, ∃ result, splicedAt? offsets lines text.toList = some result ∧
            splice path text index lines = .ok (String.ofList result) := by
  have hcomplete := (Layout.wellFormed_ofText text.toList).complete
  have hvisits : Visits text.toList 0 (offsetsFrom 0 (Layout.ofText text.toList).blocks) :=
    visits_append [] text.toList
  exact ⟨_, hvisits, fun other => hvisits.unique, length_offsetsFrom _ _, pairwise_offsetsFrom hcomplete 0,
    fun offsets => wellFormed_of_mem_offsetsFrom, fun index offsets => exists_splicedAt?⟩

end Block

end Bindery
