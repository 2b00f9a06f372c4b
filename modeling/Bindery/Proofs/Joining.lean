import Bindery.Listing
import Bindery.Proofs.Header
import Bindery.Proofs.Markers
import Bindery.Proofs.Words
import Bindery.Text.Quoted

/-!
# Lines without markers

A line of generated code is put together from fixed texts, names, and texts that are free. No marker
arises where they meet when a fixed text or a name comes first, or when a fence comes behind a free text.
Quoting, padding and putting on one line keep texts without markers, and so does adding them to a listing.
-/

namespace Bindery

open Text Naming

namespace Block

variable {text first second : String} {texts others : List String} {chars : List Char}

/-- A part of a text that has no underscore has no marker. -/
theorem unmarked_of_underscore_not_mem {text : List Char} (h : '_' ∉ text) : Unmarked text :=
  ⟨fun hbegin => h (hbegin.subset (by decide)), fun hend => h (hend.subset (by decide))⟩

/-- No marker starts in a text and goes on behind it. -/
def Closed (text : String) : Prop := ∀ rest, Unmarked rest → Unmarked (text.toList ++ rest)

theorem Closed.unmarked (h : Closed text) : Unmarked text.toList := by
  have hnil := h [] (unmarked_of_not_mem List.not_mem_nil)
  rwa [List.append_nil] at hnil

theorem Closed.append (h : Closed first) (h' : Closed second) : Closed (first ++ second) := by
  intro rest hrest
  rw [String.toList_append, List.append_assoc]
  exact h _ (h' rest hrest)

/-- A free text can follow a text in which no marker starts. -/
theorem Closed.free (h : Closed first) (h' : Unmarked second.toList) :
    Unmarked (first ++ second).toList := by
  rw [String.toList_append]
  exact h _ h'

theorem closed_of_not_mem (h : ':' ∉ text.toList) : Closed text :=
  fun _ hrest => (unmarked_append_left h).mpr hrest

theorem closed_literal (h : isClosed chars) : Closed (String.ofList chars) := by
  intro rest hrest
  rw [String.toList_ofList]
  exact (unmarked_append_closed h).mpr hrest

theorem Closed.literal (h : Closed first) (h' : isClosed chars) :
    Closed (first ++ String.ofList chars) :=
  h.append (closed_literal h')

/-- A fixed text at the end of a line may end with a colon. -/
theorem unmarked_literal (h : isClosed (chars ++ [' '])) :
    Unmarked (String.ofList chars).toList := by
  rw [String.toList_ofList]
  have hspace : Unmarked (chars ++ [' '] ++ []) :=
    (unmarked_append_closed h).mpr (unmarked_of_not_mem List.not_mem_nil)
  rw [List.append_nil] at hspace
  exact hspace.of_infix (List.prefix_append _ _).isInfix

theorem colon_not_mem_of_nominal (h : Nominal text) : ':' ∉ text.toList :=
  fun hmem => absurd (h ':' hmem) (by decide)

theorem closed_of_nominal (h : Nominal text) : Closed text :=
  closed_of_not_mem (colon_not_mem_of_nominal h)

theorem Closed.name (h : Closed first) (h' : Nominal second) : Closed (first ++ second) :=
  h.append (closed_of_nominal h')

/-- Behind a fence no marker goes on that starts in a free text. -/
theorem Unmarked.fence (h : Unmarked first.toList) (h' : decide (Fence chars)) :
    Closed (first ++ String.ofList chars) := by
  intro rest hrest
  rw [String.toList_append, String.toList_ofList, List.append_assoc]
  exact (unmarked_append_fence (of_decide_eq_true h')).mpr ⟨h, hrest⟩

/-- A name can follow a fixed text that ends with a colon when it does not start as a marker goes on. -/
theorem closed_scoped {name : String} {c : Char} (hname : name.toList.head? = some c)
    (hcolon : ':' ∉ name.toList) (h : isClosed (chars ++ [c])) :
    Closed (String.ofList chars ++ name) := by
  obtain ⟨rest, hrest⟩ := List.head?_eq_some_iff.mp hname
  rw [hrest, List.mem_cons, not_or] at hcolon
  intro behind hbehind
  have hparts : (String.ofList chars ++ name).toList ++ behind = chars ++ [c] ++ (rest ++ behind) := by
    simp [String.toList_append, hrest]
  rw [hparts]
  exact (unmarked_append_closed h).mpr ((unmarked_append_left hcolon.2).mpr hbehind)

/-- Such a fixed text can follow a free text when a space comes first. -/
theorem Unmarked.scoped {name : String} {c : Char} (h : Unmarked first.toList)
    (hname : name.toList.head? = some c) (hcolon : ':' ∉ name.toList)
    (h' : isClosed (chars ++ [c])) :
    Closed (first ++ String.ofList (' ' :: chars) ++ name) := by
  intro rest hrest
  have hparts : (first ++ String.ofList (' ' :: chars) ++ name).toList ++ rest
      = first.toList ++ ' ' :: ((String.ofList chars ++ name).toList ++ rest) := by
    simp [String.toList_append]
  rw [hparts, unmarked_append_cons (by decide)]
  exact ⟨h, closed_scoped hname hcolon h' rest hrest⟩

/-- Texts of which none has a marker. -/
def AllUnmarked (texts : List String) : Prop := ∀ text ∈ texts, Unmarked text.toList

instance (texts : List String) : Decidable (AllUnmarked texts) :=
  inferInstanceAs (Decidable (∀ text ∈ texts, Unmarked text.toList))

theorem AllUnmarked.nil : AllUnmarked [] := List.forall_mem_nil _

theorem AllUnmarked.cons (h : Unmarked text.toList) (h' : AllUnmarked texts) : AllUnmarked (text :: texts) :=
  List.forall_mem_cons.mpr ⟨h, h'⟩

theorem AllUnmarked.append (h : AllUnmarked texts) (h' : AllUnmarked others) : AllUnmarked (texts ++ others) :=
  List.forall_mem_append.mpr ⟨h, h'⟩

theorem allUnmarked_append : AllUnmarked (texts ++ others) ↔ AllUnmarked texts ∧ AllUnmarked others :=
  List.forall_mem_append

theorem allUnmarked_flatten {groups : List (List String)} (h : ∀ group ∈ groups, AllUnmarked group) :
    AllUnmarked groups.flatten := by
  intro text htext
  obtain ⟨group, hgroup, hmem⟩ := List.mem_flatten.mp htext
  exact h group hgroup text hmem

theorem AllUnmarked.modify {f : String → String} (h : AllUnmarked texts) (index : Nat)
    (hf : ∀ text, Unmarked text.toList → Unmarked (f text).toList) : AllUnmarked (texts.modify index f) := by
  intro text htext
  obtain ⟨place, hplace⟩ := List.mem_iff_getElem?.mp htext
  rw [List.getElem?_modify] at hplace
  obtain ⟨old, hold, rfl⟩ := Option.map_eq_some_iff.mp hplace
  have hmem := h old (List.mem_of_getElem? hold)
  by_cases hindex : index = place
  · rw [if_pos hindex]
    exact hf old hmem
  · rw [if_neg hindex]
    exact hmem

section Map

variable {α : Type} {items : List α}

theorem allUnmarked_map {f : α → String} :
    AllUnmarked (items.map f) ↔ ∀ item ∈ items, Unmarked (f item).toList :=
  List.forall_mem_map

theorem allUnmarked_flatMap {f : α → List String} :
    AllUnmarked (items.flatMap f) ↔ ∀ item ∈ items, AllUnmarked (f item) := by
  simp only [AllUnmarked, List.mem_flatMap, forall_exists_index, and_imp]
  exact ⟨fun h item hitem text htext => h text item hitem htext,
    fun h text item hitem htext => h item hitem text htext⟩

end Map

end Block

namespace Text

open Block

variable {text : String}

theorem colon_not_mem_replicate_space (count : Nat) : ':' ∉ List.replicate count ' ' := by
  intro hmem
  exact absurd (List.eq_of_mem_replicate hmem) (by decide)

theorem closed_spaces (count : Nat) : Closed (String.ofList (List.replicate count ' ')) := by
  refine closed_of_not_mem ?_
  rw [String.toList_ofList]
  exact colon_not_mem_replicate_space count

theorem unmarked_padRight (width : Nat) (h : Unmarked text.toList) :
    Unmarked (padRight width text).toList := by
  rw [padRight, String.toList_append, String.toList_ofList]
  exact (unmarked_append_right (colon_not_mem_replicate_space _)).mpr h

theorem closed_padRight (width : Nat) (h : Closed text) : Closed (padRight width text) :=
  h.append (closed_spaces _)

theorem closed_padLeft (width : Nat) (h : Closed text) : Closed (padLeft width text) :=
  (closed_spaces _).append h

theorem colon_not_mem_padRight (width : Nat) (h : ':' ∉ text.toList) : ':' ∉ (padRight width text).toList := by
  rw [padRight, String.toList_append, String.toList_ofList, List.mem_append, not_or]
  exact ⟨h, colon_not_mem_replicate_space _⟩

theorem unmarked_singleLine (h : Unmarked text.toList) : Unmarked (singleLine text).toList := by
  refine unmarked_join (by decide) fun part hpart => ?_
  obtain ⟨word, hword, rfl⟩ := List.mem_map.mp hpart
  rw [String.toList_ofList]
  exact h.of_infix (infix_of_mem_pieces (List.mem_filter.mp hword).1)

theorem unmarked_escape (h : Unmarked text.toList) : Unmarked (escape text).toList := by
  rw [escape, String.toList_ofList]
  refine unmarked_flatMap (fun c => ?_) h
  unfold escapeChar
  split
  · exact .inr (by decide)
  · exact .inr (by decide)
  · exact .inr (by decide)
  · exact .inl rfl

theorem closed_cQuoted (h : Unmarked text.toList) : Closed (cQuoted text) :=
  ((closed_literal rfl).free (unmarked_escape h)).fence rfl

theorem closed_pythonQuoted (h : Unmarked text.toList) : Closed (pythonQuoted text) := by
  refine ((closed_literal rfl).free ?_).fence rfl
  rw [String.toList_ofList]
  refine unmarked_flatMap (fun c => ?_) h
  unfold pythonChar
  split
  · exact .inr (by decide)
  · exact .inr (by decide)
  · exact .inl rfl

theorem hexDigit_ne_colon {n : Nat} (h : n < 16) : hexDigit n ≠ ':' := by
  have hall : ∀ n < 16, hexDigit n ≠ ':' := by decide
  exact hall n h

theorem closed_jsonQuoted (h : Unmarked text.toList) : Closed (jsonQuoted text) := by
  refine ((closed_literal rfl).free ?_).fence rfl
  rw [String.toList_ofList]
  refine unmarked_flatMap (fun c => ?_) h
  unfold jsonChar
  split
  iterate 7 exact .inr (by decide)
  split
  next hcontrol =>
    refine .inr ⟨?_, '\\', List.mem_cons_self, by decide⟩
    have hhigh := hexDigit_ne_colon (n := c.toNat / 16) (by omega)
    have hlow := hexDigit_ne_colon (n := c.toNat % 16) (by omega)
    simp [hhigh.symm, hlow.symm]
  next => exact .inl rfl

/-- The lines of a text have no marker when the text has none. -/
theorem unmarked_of_mem_lines {text line : List Char} (h : Unmarked text) (hline : line ∈ lines text) :
    Unmarked line :=
  h.of_infix (infix_of_mem_lines hline)

end Text

namespace Listing

open Block

variable {listing : Listing} {text : String}

/-- A listing in which no line has a marker. -/
def Unmarked (listing : Listing) : Prop := AllUnmarked listing.lines

theorem unmarked_empty (indent : Indent) : (empty indent).Unmarked := AllUnmarked.nil

theorem colon_not_mem_margin (listing : Listing) : ':' ∉ listing.margin.toList := by
  rw [margin, toList_join_empty, List.mem_flatMap]
  rintro ⟨text, htext, hcolon⟩
  rw [List.eq_of_mem_replicate htext] at hcolon
  revert hcolon
  unfold Indent.text
  split
  · split
    · decide
    · split <;> decide
  · decide

theorem Unmarked.line (h : listing.Unmarked) (htext : Block.Unmarked text.toList) :
    (listing.line text).Unmarked := by
  refine AllUnmarked.append h (.cons ?_ .nil)
  exact (closed_of_not_mem listing.colon_not_mem_margin).free htext

theorem Unmarked.blank (h : listing.Unmarked) : listing.blank.Unmarked :=
  AllUnmarked.append h (.cons (unmarked_of_not_mem List.not_mem_nil) .nil)

theorem Unmarked.deeper (h : listing.Unmarked) : listing.deeper.Unmarked := h

theorem Unmarked.shallower (h : listing.Unmarked) : listing.shallower.Unmarked := h

theorem Unmarked.block {header close : String} {body : Listing → Listing} (h : listing.Unmarked)
    (hheader : Block.Unmarked header.toList) (hclose : Block.Unmarked close.toList)
    (hbody : ∀ inner : Listing, inner.Unmarked → (body inner).Unmarked) :
    (listing.block header close body).Unmarked :=
  (hbody _ (h.line hheader).deeper).shallower.line hclose

theorem Unmarked.doc {mark : String} (h : listing.Unmarked) (hmark : ':' ∉ mark.toList)
    (htext : Block.Unmarked text.toList) : (listing.doc mark text).Unmarked := by
  have hclosed := closed_of_not_mem hmark
  unfold Listing.doc
  split
  · exact h.line hclosed.unmarked
  · exact h.line ((hclosed.literal rfl).free htext)

theorem Unmarked.when {body : Listing → Listing} (h : listing.Unmarked) (condition : Bool)
    (hbody : ∀ inner : Listing, inner.Unmarked → (body inner).Unmarked) :
    (listing.when condition body).Unmarked := by
  cases condition with
  | false => exact h
  | true => exact hbody listing h

theorem Unmarked.each {α : Type} {items : List α} {body : Listing → α → Listing} (h : listing.Unmarked)
    (hbody : ∀ item ∈ items, ∀ inner : Listing, inner.Unmarked → (body inner item).Unmarked) :
    (listing.each items body).Unmarked := by
  induction items generalizing listing with
  | nil => exact h
  | cons item rest ih =>
      obtain ⟨hitem, hrest⟩ := List.forall_mem_cons.mp hbody
      exact ih (hitem listing h) hrest

theorem Unmarked.tryEach {α ε : Type} {items : List α} {body : Listing → α → Except ε Listing}
    {result : Listing} (h : listing.Unmarked)
    (hbody : ∀ item ∈ items, ∀ inner next : Listing, inner.Unmarked → body inner item = .ok next →
      next.Unmarked)
    (heach : listing.tryEach items body = .ok result) : result.Unmarked := by
  induction items generalizing listing with
  | nil =>
      cases heach
      exact h
  | cons item rest ih =>
      obtain ⟨hitem, hrest⟩ := List.forall_mem_cons.mp hbody
      rw [Listing.tryEach, List.foldlM_cons] at heach
      obtain ⟨next, hnext, heach⟩ := except_bind_eq_ok_iff.mp heach
      exact ih (hitem listing next h hnext) hrest heach

end Listing

end Bindery
