import Bindery.Interface.Place
import Bindery.Proofs.Search
import Mathlib.Order.Bounds.Image
import Mathlib.Order.Lattice.Nat

/-!
# Spans of names

The spans of diagnostics are counted in bytes, while names are searched character by character. A place is
reached by entering one section after the other; it stands between two characters of the source, and never in
front of the places on the way. A name is found exactly if it stands behind the place, and the span covers just
the name: where it stands as a header or key, if it does, and else where it stands first.
-/

namespace Bindery

open Text

/-! ## Bytes -/

section Bytes

theorem utf8Length_cons (c : Char) (text : List Char) : utf8Length (c :: text) = c.utf8Size + utf8Length text :=
  rfl

theorem utf8Length_append (front back : List Char) :
    utf8Length (front ++ back) = utf8Length front + utf8Length back := by
  induction front with
  | nil => simp [utf8Length]
  | cons c rest ih => rw [List.cons_append, utf8Length_cons, ih, utf8Length_cons, Nat.add_assoc]

theorem utf8ByteSize_ofList (text : List Char) : (String.ofList text).utf8ByteSize = utf8Length text := by
  induction text with
  | nil => rfl
  | cons c rest ih =>
      rw [String.ofList_cons, String.utf8ByteSize_append, String.utf8ByteSize_singleton, ih, utf8Length_cons]

theorem utf8Length_toList (text : String) : utf8Length text.toList = text.utf8ByteSize := by
  rw [← utf8ByteSize_ofList, String.ofList_toList]

theorem eq_nil_of_utf8Length_eq_zero {text : List Char} (h : utf8Length text = 0) : text = [] := by
  cases text with
  | nil => rfl
  | cons c rest =>
      have hpos := Char.utf8Size_pos c
      rw [utf8Length_cons] at h
      omega

/-- Wherever a text is divided, the number of bytes in front is a position of it. -/
theorem isValid_utf8Length {text : String} {front back : List Char} (h : text.toList = front ++ back) :
    (⟨utf8Length front⟩ : String.Pos.Raw).IsValid text := by
  rw [String.Pos.Raw.isValid_iff_exists_append]
  refine ⟨.ofList front, .ofList back, ?_, ?_⟩
  · rw [← String.ofList_append, ← h, String.ofList_toList]
  · rw [String.Pos.Raw.ext_iff, String.byteIdx_rawEndPos, utf8ByteSize_ofList]

/-- Of two ways to divide a text, the one with fewer bytes in front comes first. -/
theorem exists_append_of_utf8Length_le {front back front' back' : List Char} (h : front ++ back = front' ++ back')
    (hle : utf8Length front ≤ utf8Length front') : ∃ middle, front' = front ++ middle ∧ back = middle ++ back' := by
  rcases List.append_eq_append_iff.mp h with ⟨middle, hfront, hback⟩ | ⟨middle, hfront, hback⟩
  · exact ⟨middle, hfront, hback⟩
  · rw [hfront, utf8Length_append] at hle
    have hmiddle : utf8Length middle = 0 := by omega
    obtain rfl := eq_nil_of_utf8Length_eq_zero hmiddle
    exact ⟨[], by simpa using hfront.symm, by simpa using hback.symm⟩

end Bytes

/-! ## Where names stand -/

namespace Text

variable {pattern name text : List Char} {position : Nat}

/-- The numbers of characters in front of the occurrences of a pattern. -/
def occurrences (pattern text : List Char) : Set Nat :=
  {position | position ≤ text.length ∧ pattern <+: text.drop position}

theorem mem_occurrences_iff :
    position ∈ occurrences pattern text ↔
      ∃ before after, text = before ++ (pattern ++ after) ∧ before.length = position := by
  constructor
  · rintro ⟨hle, after, hafter⟩
    exact ⟨text.take position, after, by rw [hafter, List.take_append_drop], List.length_take_of_le hle⟩
  · rintro ⟨before, after, rfl, rfl⟩
    exact ⟨by simp, by simp⟩

theorem nonempty_occurrences_iff : (occurrences pattern text).Nonempty ↔ pattern <:+: text := by
  constructor
  · rintro ⟨position, hposition⟩
    obtain ⟨before, after, rfl, -⟩ := mem_occurrences_iff.mp hposition
    exact ⟨before, after, by simp⟩
  · rintro ⟨before, after, rfl⟩
    exact ⟨before.length, mem_occurrences_iff.mpr ⟨before, after, by simp, rfl⟩⟩

theorem position?_eq_none_iff : position? pattern text = none ↔ ¬ pattern <:+: text := by
  rw [position?, Option.map_eq_none_iff, cut?_eq_none_iff]

/-- Where no occurrence starts there is none. -/
theorem length_le_of_mem_occurrences {before after : List Char} (hnone : NoneStarts pattern before after)
    (h : position ∈ occurrences pattern (before ++ after)) : before.length ≤ position := by
  induction before generalizing position with
  | nil => exact Nat.zero_le _
  | cons c rest ih =>
      obtain ⟨hle, hprefix⟩ := h
      cases position with
      | zero => exact absurd hprefix hnone.1
      | succ position => exact Nat.succ_le_succ (ih hnone.2 ⟨Nat.le_of_succ_le_succ hle, hprefix⟩)

/-- A search finds the first occurrence. -/
theorem isLeast_of_position? (h : position? pattern text = some position) :
    IsLeast (occurrences pattern text) position := by
  obtain ⟨⟨before, after⟩, hcut, rfl⟩ := Option.map_eq_some_iff.mp h
  obtain ⟨rfl, ⟨rest, rfl⟩, hnone⟩ := cut?_eq_some_iff.mp hcut
  exact ⟨mem_occurrences_iff.mpr ⟨before, rest, rfl, rfl⟩, fun _ => length_le_of_mem_occurrences hnone⟩

theorem position?_eq_some_iff :
    position? pattern text = some position ↔ IsLeast (occurrences pattern text) position := by
  refine ⟨isLeast_of_position?, fun h => ?_⟩
  cases hposition : position? pattern text with
  | none => exact absurd (nonempty_occurrences_iff.mp h.nonempty) (position?_eq_none_iff.mp hposition)
  | some other => rw [(isLeast_of_position? hposition).unique h]

end Text

/-- What stands in front of a name and behind it where the name is a header or a key. -/
def headingForms : List (String × String) :=
  [(".", "]"), (".", "."), ("\n", " ="), ("\"", "\" ="), ("\x7b ", " ="), (", ", " ="), ("[", "]")]

theorem namePatterns_eq (name : List Char) :
    namePatterns name = headingForms.map fun form => (form.1.toList ++ name ++ form.2.toList, form.1.length) := rfl

/-- Where a name stands in the first occurrences of the forms of headers and keys. -/
def headingPositions (name text : List Char) : Set Nat :=
  {position | ∃ form ∈ headingForms, ∃ first,
    IsLeast (occurrences (form.1.toList ++ name ++ form.2.toList) text) first ∧ position = first + form.1.length}

section NamePosition

variable {name text : List Char} {position : Nat}

theorem mem_occurrences_of_mem_headingPositions (h : position ∈ headingPositions name text) :
    position ∈ occurrences name text := by
  obtain ⟨form, -, first, hfirst, rfl⟩ := h
  obtain ⟨before, after, htext, rfl⟩ := mem_occurrences_iff.mp hfirst.1
  exact mem_occurrences_iff.mpr ⟨before ++ form.1.toList, form.2.toList ++ after, by simp [htext],
    by simp [← String.length_toList]⟩

theorem mem_filterMap_namePatterns_iff :
    position ∈ ((namePatterns name).filterMap fun (pattern, lead) => (position? pattern text).map (· + lead)) ↔
      position ∈ headingPositions name text := by
  rw [namePatterns_eq, List.filterMap_map]
  simp only [List.mem_filterMap, Function.comp_apply, Option.map_eq_some_iff, position?_eq_some_iff]
  constructor
  · rintro ⟨form, hform, first, hfirst, rfl⟩
    exact ⟨form, hform, first, hfirst, rfl⟩
  · rintro ⟨form, hform, first, hfirst, rfl⟩
    exact ⟨form, hform, first, hfirst, rfl⟩

/-- A name is searched as a header or key first, and then as it is. -/
theorem namePosition?_eq_some_iff :
    namePosition? name text = some position ↔
      IsLeast (headingPositions name text) position ∨
        headingPositions name text = ∅ ∧ IsLeast (occurrences name text) position := by
  have hmem := @mem_filterMap_namePatterns_iff name text
  rw [namePosition?]
  generalize (namePatterns name).filterMap _ = found at hmem
  have hset : headingPositions name text = {position | position ∈ found} := Set.ext fun _ => hmem.symm
  cases hmin : found.min? with
  | none =>
      obtain rfl := List.min?_eq_none_iff.mp hmin
      have hempty : headingPositions name text = ∅ := by simp [hset]
      have hleast : ¬ IsLeast (∅ : Set Nat) position := fun h => h.1
      simp only [hempty, hleast, position?_eq_some_iff, true_and, false_or]
  | some least =>
      have hleast : IsLeast (headingPositions name text) least := by
        rw [hset]
        exact List.min?_eq_some_iff.mp hmin
      have hne : headingPositions name text ≠ ∅ := hleast.nonempty.ne_empty
      simp only [Option.some.injEq, hne, false_and, or_false]
      exact ⟨fun h => h ▸ hleast, hleast.unique⟩

theorem mem_occurrences_of_namePosition? (h : namePosition? name text = some position) :
    position ∈ occurrences name text := by
  rcases namePosition?_eq_some_iff.mp h with hleast | ⟨-, hleast⟩
  · exact mem_occurrences_of_mem_headingPositions hleast.1
  · exact hleast.1

/-- The search for a name misses no occurrence. -/
theorem isSome_namePosition?_iff : (namePosition? name text).isSome ↔ (occurrences name text).Nonempty := by
  constructor
  · intro h
    obtain ⟨position, hposition⟩ := Option.isSome_iff_exists.mp h
    exact ⟨position, mem_occurrences_of_namePosition? hposition⟩
  · intro h
    by_contra hnone
    rw [Option.not_isSome_iff_eq_none, namePosition?] at hnone
    split at hnone
    · cases hnone
    · exact position?_eq_none_iff.mp hnone (nonempty_occurrences_iff.mp h)

end NamePosition

/-! ## Where texts stand, counted in bytes -/

/-- A text stands in a source behind a number of bytes. -/
def StandsAt (source text : String) (offset : Nat) : Prop :=
  ∃ before after, source = before ++ text ++ after ∧ before.utf8ByteSize = offset

/-- The numbers of bytes in front of the occurrences of a text from an anchor on. -/
def occurrencesFrom (anchor : Nat) (source text : String) : Set Nat :=
  {offset | anchor ≤ offset ∧ StandsAt source text offset}

/-- Where a name stands in the first occurrences from an anchor on of the forms of headers and keys. -/
def headingsFrom (anchor : Nat) (source name : String) : Set Nat :=
  {offset | ∃ form ∈ headingForms, ∃ first,
    IsLeast (occurrencesFrom anchor source (form.1 ++ name ++ form.2)) first ∧ offset = first + form.1.utf8ByteSize}

/-- The bytes of a source that a span covers. -/
def Span.bytes (span : Span) (source : String) : ByteArray :=
  source.toByteArray.extract span.offset (span.offset + span.length)

section StandsAt

variable {source text : String} {offset : Nat}

theorem StandsAt.add_le (h : StandsAt source text offset) : offset + text.utf8ByteSize ≤ source.utf8ByteSize := by
  obtain ⟨before, after, rfl, rfl⟩ := h
  simp only [String.utf8ByteSize_append]
  omega

theorem StandsAt.bytes_eq (h : StandsAt source text offset) :
    Span.bytes ⟨offset, text.utf8ByteSize⟩ source = text.toByteArray := by
  obtain ⟨before, after, rfl, rfl⟩ := h
  have hsource : (before ++ text ++ after).toByteArray =
      before.toByteArray ++ (text.toByteArray ++ after.toByteArray) := by
    rw [String.append_assoc, String.toByteArray_append, String.toByteArray_append]
  have hskip := @ByteArray.extract_append_size_add before.toByteArray (text.toByteArray ++ after.toByteArray) 0
    text.toByteArray.size
  rw [Span.bytes, hsource]
  exact hskip.trans (ByteArray.extract_append_eq_left rfl)

end StandsAt

namespace Place

variable {source : String} {place : Place} {skipped : Nat}

/-- The place is a spot of the source. -/
def Within (place : Place) (source : String) : Prop :=
  ∃ front, source.toList = front ++ place.text ∧ place.offset = utf8Length front

/-- The number of bytes in front of a character behind the place. -/
def offsetBehind (place : Place) (skipped : Nat) : Nat :=
  place.offset + utf8Length (place.text.take skipped)

theorem span?_eq_map (place : Place) (name : String) :
    place.span? name =
      (namePosition? name.toList place.text).map fun skipped => ⟨place.offsetBehind skipped, name.utf8ByteSize⟩ :=
  rfl

theorem monotone_offsetBehind (place : Place) : Monotone place.offsetBehind := by
  intro fewer more hle
  have htake : place.text.take more = place.text.take fewer ++ (place.text.drop fewer).take (more - fewer) := by
    rw [← List.take_add, Nat.add_sub_cancel' hle]
  rw [offsetBehind, offsetBehind, htake, utf8Length_append]
  omega

theorem le_offsetBehind (place : Place) (skipped : Nat) : place.offset ≤ place.offsetBehind skipped :=
  Nat.le_add_right ..

theorem Within.start (file source : String) : (start file source).Within source :=
  ⟨[], rfl, rfl⟩

theorem Within.isValid (h : place.Within source) : (⟨place.offset⟩ : String.Pos.Raw).IsValid source := by
  obtain ⟨front, hsource, hoffset⟩ := h
  rw [hoffset]
  exact isValid_utf8Length hsource

/-- Entering a section stays within the source. -/
theorem Within.enter (h : place.Within source) (key : String) : (place.enter key).Within source := by
  obtain ⟨front, hsource, hoffset⟩ := h
  refine ⟨front ++ place.text.take ((place.position? key).getD 0), ?_, ?_⟩
  · rw [List.append_assoc, hsource]
    exact congrArg (front ++ ·) (List.take_append_drop ..).symm
  · rw [utf8Length_append, ← hoffset]
    rfl

/-- The place that is reached by entering sections one after the other. -/
def descend (file source : String) (keys : List String) : Place :=
  keys.foldl enter (.start file source)

theorem Within.foldl_enter (h : place.Within source) (keys : List String) :
    (keys.foldl Place.enter place).Within source := by
  induction keys generalizing place with
  | nil => exact h
  | cons key rest ih => exact ih (h.enter key)

theorem offset_le_offset_foldl_enter (place : Place) (keys : List String) :
    place.offset ≤ (keys.foldl enter place).offset := by
  induction keys generalizing place with
  | nil => exact Nat.le_refl _
  | cons key rest ih => exact Nat.le_trans (place.le_offsetBehind _) (ih (place.enter key))

theorem within_descend (file source : String) (keys : List String) : (descend file source keys).Within source :=
  (Within.start file source).foldl_enter keys

/-- On the way to a section no place lies behind the one it leads to. -/
theorem offset_descend_mono (file source : String) {earlier keys : List String} (h : earlier <+: keys) :
    (descend file source earlier).offset ≤ (descend file source keys).offset := by
  obtain ⟨later, rfl⟩ := h
  rw [descend, descend, List.foldl_append]
  exact offset_le_offset_foldl_enter ..

/-- Behind a place, counting characters and counting bytes finds the same occurrences. -/
theorem Within.image_occurrences (h : place.Within source) (text : List Char) :
    place.offsetBehind '' occurrences text place.text = occurrencesFrom place.offset source (.ofList text) := by
  obtain ⟨front, hsource, hoffset⟩ := h
  ext offset
  constructor
  · rintro ⟨skipped, hskipped, rfl⟩
    obtain ⟨before, after, htext, rfl⟩ := mem_occurrences_iff.mp hskipped
    refine ⟨place.le_offsetBehind _, .ofList (front ++ before), .ofList after, ?_, ?_⟩
    · rw [← String.ofList_append, ← String.ofList_append, List.append_assoc, List.append_assoc, ← htext, ← hsource,
        String.ofList_toList]
    · rw [utf8ByteSize_ofList, utf8Length_append, offsetBehind, hoffset, htext, List.take_left]
  · rintro ⟨hle, before, after, hbefore, rfl⟩
    have hsplit : front ++ place.text = before.toList ++ (text ++ after.toList) := by
      rw [← hsource, hbefore]
      simp
    rw [hoffset, ← utf8Length_toList] at hle
    -- what stands in front of the place has no more bytes, so the occurrence lies behind the place
    obtain ⟨middle, hfront, hmiddle⟩ := exists_append_of_utf8Length_le hsplit hle
    refine ⟨middle.length, mem_occurrences_iff.mpr ⟨middle, after.toList, hmiddle, rfl⟩, ?_⟩
    rw [offsetBehind, hmiddle, List.take_left, hoffset, ← utf8Length_append, ← hfront, utf8Length_toList]

theorem Within.image_occurrences_toList (h : place.Within source) (text : String) :
    place.offsetBehind '' occurrences text.toList place.text = occurrencesFrom place.offset source text := by
  rw [h.image_occurrences, String.ofList_toList]

/-- In a heading, the name stands behind the bytes of what is in front of it. -/
theorem offsetBehind_add_length {name : List Char} {form : String × String} {first : Nat}
    (hfirst : first ∈ occurrences (form.1.toList ++ name ++ form.2.toList) place.text) :
    place.offsetBehind (first + form.1.length) = place.offsetBehind first + form.1.utf8ByteSize := by
  obtain ⟨before, after, htext, rfl⟩ := mem_occurrences_iff.mp hfirst
  have htake : place.text.take (before.length + form.1.length) = before ++ form.1.toList := by
    rw [htext, List.take_length_add_append]
    simp [← String.length_toList]
  have hbefore : place.text.take before.length = before := by rw [htext, List.take_left]
  rw [offsetBehind, offsetBehind, htake, hbefore, utf8Length_append, utf8Length_toList, Nat.add_assoc]

theorem Within.image_headingPositions (h : place.Within source) (name : String) :
    place.offsetBehind '' headingPositions name.toList place.text = headingsFrom place.offset source name := by
  have htoList (form : String × String) :
      (form.1 ++ name ++ form.2).toList = form.1.toList ++ name.toList ++ form.2.toList := by
    rw [String.toList_append, String.toList_append]
  ext offset
  constructor
  · rintro ⟨_, ⟨form, hform, first, hfirst, rfl⟩, rfl⟩
    refine ⟨form, hform, _, ?_, offsetBehind_add_length hfirst.1⟩
    rw [← h.image_occurrences_toList, htoList]
    exact place.monotone_offsetBehind.map_isLeast hfirst
  · rintro ⟨form, hform, least, hleast, rfl⟩
    rw [← h.image_occurrences_toList, htoList] at hleast
    have hfirst := isLeast_csInf (Set.image_nonempty.mp hleast.nonempty)
    refine ⟨_, ⟨form, hform, _, hfirst, rfl⟩, ?_⟩
    rw [offsetBehind_add_length hfirst.1, (place.monotone_offsetBehind.map_isLeast hfirst).unique hleast]

theorem Within.headingsFrom_subset (h : place.Within source) (name : String) :
    headingsFrom place.offset source name ⊆ occurrencesFrom place.offset source name := by
  rw [← h.image_headingPositions, ← h.image_occurrences_toList]
  exact Set.image_mono fun _ => mem_occurrences_of_mem_headingPositions

/-- A name has a span exactly if it stands behind the place. -/
theorem Within.isSome_span?_iff (h : place.Within source) (name : String) :
    (place.span? name).isSome ↔ (occurrencesFrom place.offset source name).Nonempty := by
  rw [span?_eq_map, Option.isSome_map, isSome_namePosition?_iff, ← h.image_occurrences_toList, Set.image_nonempty]

/-- A span starts where the name stands as a header or key, or, if it does not, where it stands first. -/
theorem Within.isLeast_of_span? (h : place.Within source) {name : String} {span : Span}
    (hspan : place.span? name = some span) :
    IsLeast (headingsFrom place.offset source name) span.offset ∨
      headingsFrom place.offset source name = ∅ ∧
        IsLeast (occurrencesFrom place.offset source name) span.offset := by
  rw [span?_eq_map] at hspan
  obtain ⟨skipped, hskipped, rfl⟩ := Option.map_eq_some_iff.mp hspan
  rw [← h.image_headingPositions, ← h.image_occurrences_toList, Set.image_eq_empty]
  refine (namePosition?_eq_some_iff.mp hskipped).imp ?_ (And.imp_right ?_)
  · apply place.monotone_offsetBehind.map_isLeast
  · apply place.monotone_offsetBehind.map_isLeast

theorem Within.mem_occurrencesFrom_of_span? (h : place.Within source) {name : String} {span : Span}
    (hspan : place.span? name = some span) : span.offset ∈ occurrencesFrom place.offset source name := by
  rcases h.isLeast_of_span? hspan with hleast | ⟨-, hleast⟩
  · exact h.headingsFrom_subset name hleast.1
  · exact hleast.1

theorem length_of_span? {name : String} {span : Span} (hspan : place.span? name = some span) :
    span.length = name.utf8ByteSize := by
  rw [span?_eq_map] at hspan
  obtain ⟨skipped, -, rfl⟩ := Option.map_eq_some_iff.mp hspan
  rfl

/-- The spans found behind the place of a section point at names: the place lies between two characters of the
source, and not in front of a place on the way. A name has a span exactly if it occurs from there on, and the
span covers just the name. If some form of a header or key occurs from there on, the span is the leftmost spot of
the name in the first occurrences of these forms. -/
theorem spans_point_at_names (file source : String) (keys : List String) (name : String) :
    let place := descend file source keys
    (place.offset ≤ source.utf8ByteSize ∧ (⟨place.offset⟩ : String.Pos.Raw).IsValid source ∧
        ∀ earlier, earlier <+: keys → (descend file source earlier).offset ≤ place.offset) ∧
      ((place.span? name).isSome ↔ ∃ offset, place.offset ≤ offset ∧ StandsAt source name offset) ∧
      (∀ span, place.span? name = some span →
        place.offset ≤ span.offset ∧ span.offset + span.length ≤ source.utf8ByteSize ∧
          span.bytes source = name.toByteArray) ∧
      ((∃ form ∈ headingForms, (occurrencesFrom place.offset source (form.1 ++ name ++ form.2)).Nonempty) →
        ∃ span, place.span? name = some span ∧ IsLeast (headingsFrom place.offset source name) span.offset) := by
  intro place
  have hwithin : place.Within source := within_descend file source keys
  refine ⟨⟨hwithin.isValid.le_rawEndPos, hwithin.isValid, fun _ => offset_descend_mono file source⟩,
    hwithin.isSome_span?_iff name, ?_, ?_⟩
  · intro span hspan
    obtain ⟨hle, hstands⟩ := hwithin.mem_occurrencesFrom_of_span? hspan
    have hlength := length_of_span? hspan
    refine ⟨hle, ?_, ?_⟩
    · rw [hlength]
      exact hstands.add_le
    · rw [← hstands.bytes_eq, ← hlength]
  · rintro ⟨form, hform, hoccurs⟩
    -- a heading holds the name, so the name is found, and then a heading is preferred
    have hheading : (headingsFrom place.offset source name).Nonempty :=
      ⟨_, form, hform, _, isLeast_csInf hoccurs, rfl⟩
    have hsome := (hwithin.isSome_span?_iff name).mpr (hheading.mono (hwithin.headingsFrom_subset name))
    obtain ⟨span, hspan⟩ := Option.isSome_iff_exists.mp hsome
    rcases hwithin.isLeast_of_span? hspan with hleast | ⟨hempty, -⟩
    · exact ⟨span, hspan, hleast⟩
    · exact absurd hempty hheading.ne_empty

/-- Two sections with the same key. -/
def repeatedKey : String := "[flags.a]\nX = \x7b bit = 0 \x7d\n[flags.b]\nX = \x7b bit = 1 \x7d\n"

/-- In the second section, the span of the key is not that of the same key in front of it. -/
theorem spans_point_at_names_repeated :
    (descend "core_api.toml" repeatedKey ["flags", "b"]).span? "X" = some ⟨36, 1⟩ ∧
      (⟨36, 1⟩ : Span).bytes repeatedKey = "X".toByteArray ∧ IsLeast (headingsFrom 33 repeatedKey "X") 36 := by
  have hspan : (descend "core_api.toml" repeatedKey ["flags", "b"]).span? "X" = some ⟨36, 1⟩ := by decide +kernel
  have hoffset : (descend "core_api.toml" repeatedKey ["flags", "b"]).offset = 33 := by decide +kernel
  have hkey : StandsAt repeatedKey "\nX =" 35 :=
    ⟨"[flags.a]\nX = \x7b bit = 0 \x7d\n[flags.b]", " \x7b bit = 1 \x7d\n", by decide +kernel, by decide +kernel⟩
  obtain ⟨-, -, hcovers, hheading⟩ := spans_point_at_names "core_api.toml" repeatedKey ["flags", "b"] "X"
  rw [hoffset] at hheading
  obtain ⟨span, hsome, hleast⟩ :=
    hheading ⟨("\n", " ="), by decide, 35, by decide, hkey⟩
  obtain rfl : (⟨36, 1⟩ : Span) = span := Option.some.inj (hspan.symm.trans hsome)
  exact ⟨hspan, (hcovers _ hspan).2.2, hleast⟩

end Place

end Bindery
