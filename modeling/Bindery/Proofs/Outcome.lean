import Bindery.Checkout.Update
import Mathlib.Data.List.Forall2

/-!
# Outcomes

How results that can fail, and work on a checkout, are taken apart where they are put together.
-/

namespace Bindery

variable {ε ε' α β : Type}

theorem except_bind_eq_ok_iff {x : Except ε α} {f : α → Except ε β} {b : β} :
    x >>= f = .ok b ↔ ∃ a, x = .ok a ∧ f a = .ok b := by
  cases x with
  | error error =>
      constructor
      · intro h
        cases h
      · rintro ⟨a, ha, -⟩
        cases ha
  | ok a =>
      constructor
      · exact fun h => ⟨a, rfl, h⟩
      · rintro ⟨a', ha, h⟩
        cases ha
        exact h

theorem except_bind_eq_error_iff {x : Except ε α} {f : α → Except ε β} {error : ε} :
    x >>= f = .error error ↔ x = .error error ∨ ∃ a, x = .ok a ∧ f a = .error error := by
  cases x with
  | error first =>
      constructor
      · intro h
        cases h
        exact Or.inl rfl
      · rintro (h | ⟨a, ha, -⟩)
        · cases h
          rfl
        · cases ha
  | ok a =>
      constructor
      · exact fun h => Or.inr ⟨a, rfl, h⟩
      · rintro (h | ⟨a', ha, h⟩)
        · cases h
        · cases ha
          exact h

theorem except_mapError_eq_ok_iff {x : Except ε α} {f : ε → ε'} {a : α} :
    x.mapError f = .ok a ↔ x = .ok a := by
  cases x <;> simp [Except.mapError]

theorem except_toOption_eq_some_iff {x : Except ε α} {a : α} : x.toOption = some a ↔ x = .ok a := by
  cases x <;> simp [Except.toOption]

/-- A result is a value, not an error. -/
def Succeeds (x : Except ε α) : Prop := ∃ a, x = .ok a

theorem succeeds_ok (a : α) : Succeeds (.ok a : Except ε α) := ⟨a, rfl⟩

theorem succeeds_bind {x : Except ε α} {f : α → Except ε β} (hx : Succeeds x)
    (hf : ∀ a, Succeeds (f a)) : Succeeds (x >>= f) := by
  obtain ⟨a, rfl⟩ := hx
  exact hf a

theorem succeeds_mapM {f : α → Except ε β} {items : List α} (h : ∀ item ∈ items, Succeeds (f item)) :
    Succeeds (items.mapM f) := by
  induction items with
  | nil => exact succeeds_ok []
  | cons item rest ih =>
      obtain ⟨hitem, hrest⟩ := List.forall_mem_cons.mp h
      rw [List.mapM_cons]
      exact succeeds_bind hitem fun b => succeeds_bind (ih hrest) fun others => succeeds_ok _

theorem succeeds_of_mapM {f : α → Except ε β} {items : List α} (h : Succeeds (items.mapM f)) :
    ∀ item ∈ items, Succeeds (f item) := by
  induction items with
  | nil => simp
  | cons item rest ih =>
      obtain ⟨results, h⟩ := h
      rw [List.mapM_cons] at h
      obtain ⟨first, hfirst, h⟩ := except_bind_eq_ok_iff.mp h
      obtain ⟨others, hothers, -⟩ := except_bind_eq_ok_iff.mp h
      exact List.forall_mem_cons.mpr ⟨⟨first, hfirst⟩, ih ⟨others, hothers⟩⟩

/-- What a function makes of a list is what it makes of the items, where that is known of each of them. -/
theorem mapM_eq_ok_iff {f : α → Except ε β} {R : β → α → Prop} {items : List α}
    {results : List β} (h : ∀ item ∈ items, ∀ result, f item = .ok result ↔ R result item) :
    items.mapM f = .ok results ↔ List.Forall₂ R results items := by
  induction items generalizing results with
  | nil =>
      rw [List.forall₂_nil_right_iff, List.mapM_nil]
      exact ⟨fun h => (Except.ok.inj h).symm, fun h => congrArg Except.ok h.symm⟩
  | cons item rest ih =>
      obtain ⟨hitem, hrest⟩ := List.forall_mem_cons.mp h
      rw [List.mapM_cons, except_bind_eq_ok_iff, List.forall₂_cons_right_iff]
      constructor
      · rintro ⟨first, hfirst, hresults⟩
        obtain ⟨others, hothers, heq⟩ := except_bind_eq_ok_iff.mp hresults
        cases heq
        exact ⟨first, others, (hitem first).mp hfirst, (ih hrest).mp hothers, rfl⟩
      · rintro ⟨first, others, hfirst, hothers, rfl⟩
        exact ⟨first, (hitem first).mpr hfirst,
          except_bind_eq_ok_iff.mpr ⟨others, (ih hrest).mpr hothers, rfl⟩⟩

/-- What a function makes of a list it makes of the items, one after the other. -/
theorem forall₂_of_mapM {f : α → Except ε β} {items : List α} {results : List β}
    (h : items.mapM f = .ok results) :
    List.Forall₂ (fun result item => f item = .ok result) results items :=
  (mapM_eq_ok_iff fun _ _ _ => Iff.rfl).mp h

theorem forall_mem_of_mapM {P : β → Prop} {f : α → Except ε β} {items : List α} {results : List β}
    (h : items.mapM f = .ok results) (hitem : ∀ item ∈ items, ∀ result, f item = .ok result → P result) :
    ∀ result ∈ results, P result := by
  have hresults := forall₂_of_mapM h
  clear h
  induction hresults with
  | nil => simp
  | cons hresult _ ih =>
      obtain ⟨hfirst, hrest⟩ := List.forall_mem_cons.mp hitem
      exact List.forall_mem_cons.mpr ⟨hfirst _ hresult, ih hrest⟩

theorem exists_getElem?_of_mapM {f : α → Except ε β} {items : List α} {results : List β} {index : Nat}
    {item : α} (h : items.mapM f = .ok results) (hitem : items[index]? = some item) :
    ∃ result, results[index]? = some result ∧ f item = .ok result := by
  induction items generalizing results index with
  | nil => cases hitem
  | cons first rest ih =>
      rw [List.mapM_cons] at h
      rcases except_bind_eq_ok_iff.mp h with ⟨result, hresult, h⟩
      rcases except_bind_eq_ok_iff.mp h with ⟨others, hothers, h⟩
      cases h
      cases index with
      | zero =>
          cases hitem
          exact ⟨result, rfl, hresult⟩
      | succ index =>
          simp only [List.getElem?_cons_succ] at hitem ⊢
          exact ih hothers hitem

/-- What is read back from the results of a function on a list follows from the items. -/
theorem map_eq_map_of_mapM {γ : Type} {f : α → Except ε β} {items : List α} {results : List β}
    {read : β → γ} {expected : α → γ} (h : items.mapM f = .ok results)
    (hread : ∀ item ∈ items, ∀ result, f item = .ok result → read result = expected item) :
    results.map read = items.map expected := by
  induction items generalizing results with
  | nil =>
      cases h
      rfl
  | cons item rest ih =>
      rw [List.mapM_cons] at h
      obtain ⟨first, hfirst, h⟩ := except_bind_eq_ok_iff.mp h
      obtain ⟨others, hothers, h⟩ := except_bind_eq_ok_iff.mp h
      cases h
      obtain ⟨hitem, hrest⟩ := List.forall_mem_cons.mp hread
      rw [List.map_cons, List.map_cons, hitem first hfirst, ih hothers hrest]

theorem forall₂_of_mapM_option {f : α → Option β} {items : List α} {results : List β}
    (h : items.mapM f = some results) :
    List.Forall₂ (fun result item => item ∈ items ∧ f item = some result) results items := by
  induction items generalizing results with
  | nil =>
      cases h
      exact .nil
  | cons item rest ih =>
      rw [List.mapM_cons] at h
      obtain ⟨first, hfirst, h⟩ := Option.bind_eq_some_iff.mp h
      obtain ⟨others, hothers, h⟩ := Option.bind_eq_some_iff.mp h
      cases h
      refine .cons ⟨List.mem_cons_self, hfirst⟩ ((ih hothers).imp ?_)
      exact fun result other hother => ⟨List.mem_cons_of_mem _ hother.1, hother.2⟩

theorem exists_of_mapM_option {f : α → Option β} {items : List α} {results : List β}
    (h : items.mapM f = some results) : ∀ item ∈ items, ∃ result, f item = some result := by
  induction items generalizing results with
  | nil => simp
  | cons item rest ih =>
      rw [List.mapM_cons] at h
      obtain ⟨first, hfirst, h⟩ := Option.bind_eq_some_iff.mp h
      obtain ⟨others, hothers, -⟩ := Option.bind_eq_some_iff.mp h
      exact List.forall_mem_cons.mpr ⟨⟨first, hfirst⟩, ih hothers⟩

theorem forall₂_trans {γ : Type} {R : α → β → Prop} {S : β → γ → Prop} {T : α → γ → Prop}
    {first : List α} {second : List β} {third : List γ} (hr : List.Forall₂ R first second)
    (hs : List.Forall₂ S second third) (h : ∀ a b c, R a b → S b c → T a c) :
    List.Forall₂ T first third := by
  induction hr generalizing third with
  | nil =>
      cases hs
      exact .nil
  | cons hab _ ih =>
      cases hs with
      | cons hbc hrest => exact .cons (h _ _ _ hab hbc) (ih hrest)

/-- When a function fails on a list, it fails on an item. -/
theorem exists_mem_eq_error_of_mapM {f : α → Except ε β} {items : List α} {error : ε}
    (h : items.mapM f = .error error) : ∃ item ∈ items, f item = .error error := by
  induction items with
  | nil => cases h
  | cons item rest ih =>
      rw [List.mapM_cons] at h
      cases hitem : f item with
      | error first =>
          rw [hitem] at h
          cases h
          exact ⟨item, List.mem_cons_self, hitem⟩
      | ok first =>
          rw [hitem] at h
          cases hrest : rest.mapM f with
          | error last =>
              rw [hrest] at h
              cases h
              obtain ⟨other, hother, heq⟩ := ih hrest
              exact ⟨other, List.mem_cons_of_mem _ hother, heq⟩
          | ok others =>
              rw [hrest] at h
              cases h

/-- A computation fails in its first step when the rest of it always succeeds. -/
theorem eq_error_of_bind_eq_error {x : Except ε α} {f : α → Except ε β} {error : ε}
    (hf : ∀ a, Succeeds (f a)) (h : x >>= f = .error error) : x = .error error := by
  cases x with
  | error first =>
      cases h
      rfl
  | ok a =>
      obtain ⟨b, hb⟩ := hf a
      have hok : f a = .error error := h
      rw [hb] at hok
      cases hok

theorem succeeds_foldlM {f : β → α → Except ε β} {items : List α}
    (h : ∀ item ∈ items, ∀ state, Succeeds (f state item)) (state : β) :
    Succeeds (items.foldlM f state) := by
  induction items generalizing state with
  | nil => exact succeeds_ok state
  | cons item rest ih =>
      obtain ⟨hitem, hrest⟩ := List.forall_mem_cons.mp h
      rw [List.foldlM_cons]
      exact succeeds_bind (hitem state) (ih hrest)

/-- A fold fails where the first of its steps fails. -/
theorem foldlM_eq_error_iff {f : β → α → Except ε β} {items : List α} {start : β} {error : ε} :
    items.foldlM f start = .error error ↔
      ∃ done item rest state, items = done ++ item :: rest ∧ done.foldlM f start = .ok state
        ∧ f state item = .error error := by
  constructor
  · intro h
    induction items generalizing start with
    | nil => cases h
    | cons item rest ih =>
        rw [List.foldlM_cons, except_bind_eq_error_iff] at h
        rcases h with hitem | ⟨next, hnext, h⟩
        · exact ⟨[], item, rest, start, rfl, rfl, hitem⟩
        · obtain ⟨done, other, back, state, rfl, hdone, hother⟩ := ih h
          refine ⟨item :: done, other, back, state, rfl, ?_, hother⟩
          rw [List.foldlM_cons, hnext]
          exact hdone
  · rintro ⟨done, item, rest, state, rfl, hdone, hitem⟩
    rw [List.foldlM_append, hdone]
    change List.foldlM f state (item :: rest) = .error error
    rw [List.foldlM_cons, hitem]
    rfl

/-- A check of each item passes only if it passes for every item. -/
theorem succeeds_of_forM {f : α → Except ε PUnit} {items : List α} (h : Succeeds (items.forM f)) :
    ∀ item ∈ items, Succeeds (f item) := by
  induction items with
  | nil => simp
  | cons item rest ih =>
      obtain ⟨⟨⟩, hall⟩ := h
      change (f item >>= fun _ => rest.forM f) = _ at hall
      obtain ⟨⟨⟩, hitem, hrest⟩ := except_bind_eq_ok_iff.mp hall
      exact List.forall_mem_cons.mpr ⟨⟨_, hitem⟩, ih ⟨_, hrest⟩⟩

theorem succeeds_forM {f : α → Except ε PUnit} {items : List α} (h : ∀ item ∈ items, Succeeds (f item)) :
    Succeeds (items.forM f) := by
  induction items with
  | nil => exact succeeds_ok _
  | cons item rest ih =>
      obtain ⟨hitem, hrest⟩ := List.forall_mem_cons.mp h
      change Succeeds (f item >>= fun _ => rest.forM f)
      exact succeeds_bind hitem fun _ => ih hrest

/-- A check of each item fails with the first item for which it fails. -/
theorem forM_eq_error_iff {f : α → Except ε PUnit} {items : List α} {error : ε} :
    items.forM f = .error error ↔
      ∃ before item after, items = before ++ item :: after ∧ (∀ earlier ∈ before, Succeeds (f earlier)) ∧
        f item = .error error := by
  constructor
  · intro h
    induction items with
    | nil => cases h
    | cons first rest ih =>
        change (f first >>= fun _ => rest.forM f) = _ at h
        rcases except_bind_eq_error_iff.mp h with hfirst | ⟨done, hfirst, h⟩
        · exact ⟨[], first, rest, rfl, by simp, hfirst⟩
        · obtain ⟨before, item, after, rfl, hbefore, hitem⟩ := ih h
          exact ⟨first :: before, item, after, rfl, List.forall_mem_cons.mpr ⟨⟨done, hfirst⟩, hbefore⟩, hitem⟩
  · rintro ⟨before, item, after, rfl, hbefore, hitem⟩
    induction before with
    | nil =>
        change (f item >>= fun _ => after.forM f) = _
        exact except_bind_eq_error_iff.mpr (Or.inl hitem)
    | cons first rest ih =>
        obtain ⟨⟨done, hfirst⟩, hrest⟩ := List.forall_mem_cons.mp hbefore
        change (f first >>= fun _ => (rest ++ item :: after).forM f) = _
        exact except_bind_eq_error_iff.mpr (Or.inr ⟨done, hfirst, ih hrest⟩)

theorem succeeds_discard {x : Except ε α} : Succeeds (discard x) ↔ Succeeds x := by
  constructor
  · rintro ⟨⟨⟩, h⟩
    cases x with
    | error error => cases h
    | ok a => exact succeeds_ok a
  · rintro ⟨a, rfl⟩
    exact succeeds_ok ()

theorem discard_eq_error_iff {x : Except ε α} {error : ε} : discard x = .error error ↔ x = .error error := by
  cases x with
  | error first =>
      change Except.error first = Except.error error ↔ _
      simp
  | ok a =>
      change Except.ok () = Except.error error ↔ _
      simp

namespace Work

variable {before after : Checkout}

theorem bind_eq_ok_iff {x : Work ε α} {f : α → Work ε β} {b : β} :
    (x >>= f).run before = .ok b after ↔
      ∃ a middle, x.run before = .ok a middle ∧ (f a).run middle = .ok b after := by
  rw [EStateM.run_bind]
  cases x.run before with
  | error error middle =>
      constructor
      · intro h
        cases h
      · rintro ⟨a, middle, ha, -⟩
        cases ha
  | ok a middle =>
      constructor
      · exact fun h => ⟨a, middle, rfl, h⟩
      · rintro ⟨a', middle', ha, h⟩
        cases ha
        exact h

theorem bind_eq_error_iff {x : Work ε α} {f : α → Work ε β} {error : ε} :
    (x >>= f).run before = .error error after ↔
      x.run before = .error error after
        ∨ ∃ a middle, x.run before = .ok a middle ∧ (f a).run middle = .error error after := by
  rw [EStateM.run_bind]
  cases x.run before with
  | error first middle => simp
  | ok a middle =>
      constructor
      · exact fun h => Or.inr ⟨a, middle, rfl, h⟩
      · rintro (h | ⟨a', middle', ha, h⟩)
        · cases h
        · cases ha
          exact h

theorem pure_eq_ok_iff {a b : α} :
    (pure a : Work ε α).run before = .ok b after ↔ a = b ∧ before = after := by
  rw [EStateM.run_pure]
  simp

theorem map_eq_ok_iff {x : Work ε α} {f : α → β} {b : β} :
    (f <$> x).run before = .ok b after ↔ ∃ a, x.run before = .ok a after ∧ f a = b := by
  rw [map_eq_pure_bind, bind_eq_ok_iff]
  simp only [pure_eq_ok_iff]
  constructor
  · rintro ⟨a, middle, ha, rfl, rfl⟩
    exact ⟨a, ha, rfl⟩
  · rintro ⟨a, ha, rfl⟩
    exact ⟨a, after, ha, rfl, rfl⟩

theorem run_get_bind {f : Checkout → Work ε β} :
    (get >>= f).run before = (f before).run before := by
  rw [EStateM.run_bind, EStateM.run_get]

theorem ofExcept_eq_ok_iff {x : Except ε α} {a : α} :
    (ofExcept x).run before = .ok a after ↔ x = .ok a ∧ before = after := by
  cases x with
  | error error =>
      constructor
      · intro h
        cases h
      · rintro ⟨h, -⟩
        cases h
  | ok value => simp [ofExcept]

theorem adaptExcept_eq_ok_iff {x : Work ε α} {f : ε → ε'} {a : α} :
    (EStateM.adaptExcept f x).run before = .ok a after ↔ x.run before = .ok a after := by
  unfold EStateM.adaptExcept EStateM.run
  cases h : x before <;> simp [h]

theorem ofExcept_eq_error_iff {x : Except ε α} {error : ε} :
    (ofExcept x).run before = .error error after ↔ x = .error error ∧ before = after := by
  cases x with
  | error first =>
      change EStateM.Result.error first before = _ ↔ _
      simp
  | ok value =>
      constructor
      · intro h
        cases h
      · rintro ⟨h, -⟩
        cases h

theorem adaptExcept_eq_error_iff {x : Work ε α} {f : ε → ε'} {error : ε'} :
    (EStateM.adaptExcept f x).run before = .error error after ↔
      ∃ cause, x.run before = .error cause after ∧ f cause = error := by
  unfold EStateM.adaptExcept EStateM.run
  cases h : x before with
  | ok value middle => simp [h]
  | error cause middle =>
      simp only [h, EStateM.Result.error.injEq]
      constructor
      · rintro ⟨rfl, rfl⟩
        exact ⟨cause, ⟨rfl, rfl⟩, rfl⟩
      · rintro ⟨_, ⟨rfl, rfl⟩, rfl⟩
        exact ⟨rfl, rfl⟩

end Work

end Bindery
