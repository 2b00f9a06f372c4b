import Bindery.Proofs.Outcome
import Bindery.Proofs.Words

/-!
# Entries of lists

A list in generated code is cut at the commas outside parentheses, as its reader does. The texts of which
it was made come back, whatever they have in parentheses.
-/

namespace Bindery.Text

/-- How many parentheses are open behind a character. One that closes must have been opened. -/
def nest (depth : Nat) (c : Char) : Option Nat :=
  if c = '(' then some (depth + 1)
  else if c = ')' then (if depth = 0 then none else some (depth - 1))
  else some depth

/-- Likewise, where a comma must be inside of parentheses. -/
def enter (depth : Nat) (c : Char) : Option Nat :=
  if c = ',' ∧ depth = 0 then none else nest depth c

/-- Every parenthesis of a text is closed in it, and none is closed that was not opened. -/
def Balanced (text : String) : Prop := text.toList.foldlM nest 0 = some 0

/-- A balanced text without a comma outside of parentheses. -/
def IsEntry (text : String) : Prop := text.toList.foldlM enter 0 = some 0

/-- A text that can be one of several in a list. -/
structure Listable (text : String) : Prop where
  entry : IsEntry text
  nonempty : text ≠ ""

instance (text : String) : Decidable (Balanced text) :=
  inferInstanceAs (Decidable (text.toList.foldlM nest 0 = some 0))

instance (text : String) : Decidable (IsEntry text) :=
  inferInstanceAs (Decidable (text.toList.foldlM enter 0 = some 0))

/-- The parts of a text between the commas outside of parentheses. -/
def partsFrom : (depth : Nat) → List Char → List (List Char)
  | _, [] => [[]]
  | depth, c :: rest =>
      if c = ',' ∧ depth = 0 then [] :: partsFrom 0 rest
      else (partsFrom ((nest depth c).getD 0) rest).modifyHead (c :: ·)

/-- An entry without the space that stands behind the comma. -/
def dropSpace (part : List Char) : List Char := if part.head? = some ' ' then part.tail else part

/-- The entries of a list: its parts between the commas outside of parentheses. An empty text has none. -/
def entries (text : String) : List String :=
  if text = "" then []
  else
    match partsFrom 0 text.toList with
    | [] => []
    | first :: others => (first :: others.map dropSpace).map String.ofList

section Depth

variable {depth depth' : Nat} {c : Char} {text rest : List Char}

theorem enter_eq_some (h : enter depth c = some depth') :
    nest depth c = some depth' ∧ ¬(c = ',' ∧ depth = 0) := by
  unfold enter at h
  split at h
  · cases h
  next hcomma => exact ⟨h, hcomma⟩

/-- Inside of parentheses a comma is as good as any character. -/
theorem enter_succ (h : nest depth c = some depth') : enter (depth + 1) c = some (depth' + 1) := by
  rw [enter, if_neg (by omega)]
  unfold nest at *
  by_cases hopen : c = '('
  · simp_all
  · by_cases hclose : c = ')'
    · cases depth with
      | zero => simp [hclose] at h
      | succ outer => simp_all
    · simp_all

theorem foldlM_enter_succ (h : text.foldlM nest depth = some depth') :
    text.foldlM enter (depth + 1) = some (depth' + 1) := by
  induction text generalizing depth with
  | nil =>
      cases h
      rfl
  | cons c rest ih =>
      obtain ⟨next, hnext, hrest⟩ := Option.bind_eq_some_iff.mp h
      exact Option.bind_eq_some_iff.mpr ⟨next + 1, enter_succ hnext, ih hrest⟩

theorem foldlM_nest_of_enter (h : text.foldlM enter depth = some depth') :
    text.foldlM nest depth = some depth' := by
  induction text generalizing depth with
  | nil => exact h
  | cons c rest ih =>
      obtain ⟨next, hnext, hrest⟩ := Option.bind_eq_some_iff.mp h
      exact Option.bind_eq_some_iff.mpr ⟨next, (enter_eq_some hnext).1, ih hrest⟩

theorem foldlM_enter_of_nest (hcomma : ',' ∉ text) (h : text.foldlM nest depth = some depth') :
    text.foldlM enter depth = some depth' := by
  induction text generalizing depth with
  | nil => exact h
  | cons c rest ih =>
      obtain ⟨next, hnext, hrest⟩ := Option.bind_eq_some_iff.mp h
      rw [List.mem_cons, not_or] at hcomma
      refine Option.bind_eq_some_iff.mpr ⟨next, ?_, ih hcomma.2 hrest⟩
      rw [enter, if_neg fun hboth => hcomma.1 hboth.1.symm, hnext]

/-- A front part without a comma outside of parentheses belongs to the first part. -/
theorem partsFrom_append (h : text.foldlM enter depth = some depth') :
    partsFrom depth (text ++ rest) = (partsFrom depth' rest).modifyHead (text ++ ·) := by
  induction text generalizing depth with
  | nil =>
      cases h
      cases hparts : partsFrom depth' rest <;> simp [hparts]
  | cons c others ih =>
      obtain ⟨next, hnext, hothers⟩ := Option.bind_eq_some_iff.mp h
      obtain ⟨hnest, hcomma⟩ := enter_eq_some hnext
      rw [List.cons_append, partsFrom, if_neg hcomma, hnest, Option.getD_some, ih hothers,
        List.modifyHead_modifyHead]
      rfl

end Depth

section Entry

variable {text first second : String} {texts : List String}

theorem IsEntry.balanced (h : IsEntry text) : Balanced text := foldlM_nest_of_enter h

theorem Balanced.isEntry (h : Balanced text) (hcomma : ',' ∉ text.toList) : IsEntry text :=
  foldlM_enter_of_nest hcomma h

theorem Balanced.append (h : Balanced first) (h' : Balanced second) : Balanced (first ++ second) := by
  unfold Balanced at *
  rw [String.toList_append, List.foldlM_append, h]
  exact h'

theorem IsEntry.append (h : IsEntry first) (h' : IsEntry second) : IsEntry (first ++ second) := by
  unfold IsEntry at *
  rw [String.toList_append, List.foldlM_append, h]
  exact h'

/-- Any balanced text in parentheses can be in an entry. -/
theorem Balanced.parenthesized (h : Balanced text) : IsEntry ("(" ++ text ++ ")") := by
  have hinside : text.toList.foldlM enter 1 = some 1 := foldlM_enter_succ h
  have hopened : ("(" ++ text).toList.foldlM enter 0 = some 1 := by
    rw [String.toList_append, List.foldlM_append]
    exact hinside
  unfold IsEntry
  rw [String.toList_append, List.foldlM_append, hopened]
  rfl

theorem isEntry_of_plain (h : ∀ c ∈ text.toList, c ≠ ',' ∧ c ≠ '(' ∧ c ≠ ')') : IsEntry text := by
  unfold IsEntry
  generalize text.toList = chars at h
  induction chars with
  | nil => rfl
  | cons c rest ih =>
      obtain ⟨⟨hcomma, hopen, hclose⟩, hrest⟩ := List.forall_mem_cons.mp h
      have hstep : enter 0 c = some 0 := by simp [enter, nest, hcomma, hopen, hclose]
      rw [List.foldlM_cons, hstep]
      exact ih hrest

theorem isEntry_of_nominal (h : Nominal text) : IsEntry text := by
  refine isEntry_of_plain fun c hc => ?_
  refine ⟨?_, ?_, ?_⟩ <;> rintro rfl <;> exact absurd (h _ hc) (by decide)

/-- Entries with separators between them are balanced. -/
theorem balanced_join (h : ∀ text ∈ texts, Listable text) : Balanced (join ", " texts) := by
  induction texts with
  | nil => rfl
  | cons first rest ih =>
      obtain ⟨hfirst, hrest⟩ := List.forall_mem_cons.mp h
      cases rest with
      | nil => simpa [join] using hfirst.entry.balanced
      | cons second others =>
          have hjoin : join ", " (first :: second :: others) = first ++ ", " ++ join ", " (second :: others) := by
            rw [← String.toList_inj]
            simp [join, String.toList_append, String.toList_intercalate]
          rw [hjoin]
          exact (hfirst.entry.balanced.append (by decide)).append (ih hrest)

theorem partsFrom_join (h : ∀ text ∈ first :: texts, Listable text) :
    partsFrom 0 (join ", " (first :: texts)).toList
      = first.toList :: texts.map fun text => ' ' :: text.toList := by
  rw [join, String.toList_intercalate]
  induction texts generalizing first with
  | nil =>
      have hfirst : first.toList.foldlM enter 0 = some 0 := (h first List.mem_cons_self).entry
      have hparts : partsFrom 0 (first.toList ++ []) = (partsFrom 0 []).modifyHead (first.toList ++ ·) :=
        partsFrom_append hfirst
      simpa [partsFrom] using hparts
  | cons second others ih =>
      obtain ⟨hfirst, hrest⟩ := List.forall_mem_cons.mp h
      have hjoin : ", ".toList.intercalate ((first :: second :: others).map String.toList)
          = first.toList ++ ',' :: ([' '] ++ ", ".toList.intercalate ((second :: others).map String.toList)) := by
        rw [List.map_cons, List.map_cons, List.intercalate_cons_cons, List.append_assoc]
        rfl
      have hspace : [' '].foldlM enter 0 = some 0 := rfl
      rw [hjoin, partsFrom_append hfirst.entry, partsFrom, if_pos ⟨rfl, rfl⟩, partsFrom_append hspace, ih hrest]
      simp

/-- A list has the entries of which it was made. -/
theorem entries_join (h : ∀ text ∈ texts, Listable text) : entries (join ", " texts) = texts := by
  cases texts with
  | nil => rfl
  | cons first rest =>
      have hsome : join ", " (first :: rest) ≠ "" := by
        intro hempty
        have hparts := partsFrom_join h
        rw [hempty] at hparts
        simp only [String.toList_empty, partsFrom, List.cons.injEq] at hparts
        exact (h first List.mem_cons_self).nonempty (String.toList_eq_nil_iff.mp hparts.1.symm)
      rw [entries, if_neg hsome, partsFrom_join h]
      simp [dropSpace, Function.comp_def]

end Entry

end Bindery.Text
