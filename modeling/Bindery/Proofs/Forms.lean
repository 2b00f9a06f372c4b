import Bindery.Proofs.Members

/-!
# Forms of a table of members

The members of an enumeration or flag set are written as one table, or in an extended form: as a table of
members beside fields that say more about the whole. Fields are read in the order of the document. As no
key stands twice, the order has no part in what is read: every field has to be known and to hold what it
should, and what is read is what stands at each key.
-/

namespace Bindery

open Toml

theorem exists_of_forall₂_of_mem {α β : Type} {R : β → α → Prop} {items : List α} {results : List β} {item : α}
    (h : List.Forall₂ R results items) (hitem : item ∈ items) : ∃ result ∈ results, R result item := by
  induction h with
  | nil => cases hitem
  | cons hfirst _ ih =>
      rcases List.mem_cons.mp hitem with rfl | hrest
      · exact ⟨_, List.mem_cons_self, hfirst⟩
      · obtain ⟨result, hresult, hrelated⟩ := ih hrest
        exact ⟨result, List.mem_cons_of_mem _ hresult, hrelated⟩

namespace Toml

variable {α σ : Type} {table : Table} {key : String} {value value' : Value} {write : α → Value}

/-- What a table gives at a key, when each thing that may stand there is written in one way: nothing, if
the table has no such key. -/
def Gives (table : Table) (key : String) (write : α → Value) : Option α → Prop
  | none => key ∉ keys table
  | some item => (key, write item) ∈ table

theorem mem_keys_of_mem (h : (key, value) ∈ table) : key ∈ keys table := List.mem_map_of_mem h

theorem exists_of_mem_keys (h : key ∈ keys table) : ∃ value, (key, value) ∈ table := by
  obtain ⟨⟨other, value⟩, hmem, rfl⟩ := List.mem_map.mp h
  exact ⟨value, hmem⟩

/-- At a key stands one value. -/
theorem eq_of_mem_table (hnodup : (keys table).Nodup) (h : (key, value) ∈ table)
    (h' : (key, value') ∈ table) : value = value' :=
  congrArg Prod.snd (List.inj_on_of_nodup_map hnodup h h' rfl)

theorem lookup_eq_some_iff (hnodup : (keys table).Nodup) :
    table.lookup key = some value ↔ (key, value) ∈ table := by
  refine ⟨mem_of_lookup, fun h => ?_⟩
  have hlookup : (table.map fun entry => (entry.1, entry.2)).lookup key = some value :=
    lookup_map_of_mem hnodup h
  simpa using hlookup

namespace Gives

variable {item? item'? : Option α}

/-- A value that stands at a key is the written form of something. -/
theorem exists_eq (hnodup : (keys table).Nodup) (h : Gives table key write item?)
    (hmem : (key, value) ∈ table) : ∃ item ∈ item?, value = write item := by
  cases item? with
  | none => exact absurd (mem_keys_of_mem hmem) h
  | some item => exact ⟨item, rfl, eq_of_mem_table hnodup hmem h⟩

/-- A table gives one thing at a key. -/
theorem unique (hwrite : Function.Injective write) (hnodup : (keys table).Nodup)
    (h : Gives table key write item?) (h' : Gives table key write item'?) : item? = item'? := by
  cases item? with
  | none =>
      cases item'? with
      | none => rfl
      | some item => exact absurd (mem_keys_of_mem h') h
  | some item =>
      cases item'? with
      | none => exact absurd (mem_keys_of_mem h) h'
      | some item' => rw [hwrite (eq_of_mem_table hnodup h h')]

end Gives

/-- The entries of a table are read into slots, one after the other. -/
structure ReadsEach (read : σ → Table → Except LoadError σ) : Prop where
  nil : ∀ slots, read slots [] = .ok slots
  cons : ∀ slots entry rest,
    read slots (entry :: rest) = read slots [entry] >>= fun slots => read slots rest

namespace ReadsEach

variable {read : σ → Table → Except LoadError σ} {before after : σ}

/-- A table is read if each entry can be, whatever the slots hold. -/
theorem succeeds (h : ReadsEach read) (hentry : ∀ entry ∈ table, ∀ slots, Succeeds (read slots [entry])) :
    Succeeds (read before table) := by
  induction table generalizing before with
  | nil =>
      rw [h.nil]
      exact succeeds_ok before
  | cons entry rest ih =>
      obtain ⟨hfirst, hrest⟩ := List.forall_mem_cons.mp hentry
      rw [h.cons]
      exact succeeds_bind (hfirst before) fun slots => ih hrest

theorem exists_of_mem (h : ReadsEach read) (hread : read before table = .ok after) :
    ∀ entry ∈ table, ∃ slots next, read slots [entry] = .ok next := by
  induction table generalizing before with
  | nil => simp
  | cons entry rest ih =>
      rw [h.cons] at hread
      obtain ⟨middle, hfirst, hrest⟩ := except_bind_eq_ok_iff.mp hread
      exact List.forall_mem_cons.mpr ⟨⟨before, middle, hfirst⟩, ih hrest⟩

/-- A slot that is filled at one key and left alone at all others holds in the end what the table gives at
that key, or what it held before. -/
theorem exists_gives {β : Type} (h : ReadsEach read) (key : String) (write : α → Value) (slot : σ → β)
    (fill : α → β)
    (hfills : ∀ slots value next, read slots [(key, value)] = .ok next →
      ∃ item, value = write item ∧ slot next = fill item)
    (hkeeps : ∀ slots other value next, other ≠ key → read slots [(other, value)] = .ok next →
      slot next = slot slots)
    (hnodup : (keys table).Nodup) (hread : read before table = .ok after) :
    ∃ item?, Gives table key write item? ∧ slot after = (item?.map fill).getD (slot before) := by
  induction table generalizing before with
  | nil =>
      rw [h.nil] at hread
      cases hread
      exact ⟨none, by simp [Gives, keys], rfl⟩
  | cons entry rest ih =>
      obtain ⟨other, value⟩ := entry
      obtain ⟨hnot, hrest⟩ := List.nodup_cons.mp hnodup
      rw [h.cons] at hread
      obtain ⟨middle, hfirst, hread⟩ := except_bind_eq_ok_iff.mp hread
      obtain ⟨item?, hgives, hslot⟩ := ih hrest hread
      by_cases hkey : other = key
      · subst hkey
        obtain ⟨item, rfl, hfill⟩ := hfills _ _ _ hfirst
        -- the key does not come back, so the slot stays as it was filled
        cases item? with
        | none => exact ⟨some item, List.mem_cons_self, hslot.trans hfill⟩
        | some _ => exact absurd (mem_keys_of_mem hgives) hnot
      · rw [hkeeps _ _ _ _ hkey hfirst] at hslot
        refine ⟨item?, ?_, hslot⟩
        cases item? with
        | none => exact List.not_mem_cons_of_ne_of_not_mem (Ne.symm hkey) hgives
        | some item => exact List.mem_cons_of_mem _ hgives

/-- A slot that is empty before holds in the end what the table gives at its key. -/
theorem gives (h : ReadsEach read) (slot : σ → Option α)
    (hfills : ∀ slots value next, read slots [(key, value)] = .ok next →
      ∃ item, value = write item ∧ slot next = some item)
    (hkeeps : ∀ slots other value next, other ≠ key → read slots [(other, value)] = .ok next →
      slot next = slot slots)
    (hnodup : (keys table).Nodup) (hempty : slot before = none) (hread : read before table = .ok after) :
    Gives table key write (slot after) := by
  obtain ⟨item?, hgives, hslot⟩ := h.exists_gives key write slot some hfills hkeeps hnodup hread
  rw [hempty] at hslot
  have hsame : slot after = item? := by cases item? <;> exact hslot
  rwa [hsame]

end ReadsEach

end Toml

variable {place : Place} {owner : String} {isMember : Value → Bool} {table members : Table}

/-- A table has a table of members, all of whose values look like members. -/
def ListsMembers (isMember : Value → Bool) (table members : Table) : Prop :=
  ("members", .table members) ∈ table ∧ ∀ entry ∈ members, isMember entry.2 = true

theorem listsMembers_iff (hnodup : (keys table).Nodup) :
    ListsMembers isMember table members ↔
      (table.lookup "members").bind Value.asTable? = some members ∧
        members.all fun (_, value) => isMember value := by
  rw [ListsMembers, Option.bind_eq_some_iff, List.all_eq_true]
  refine and_congr_left fun _ => ⟨fun h => ⟨_, (lookup_eq_some_iff hnodup).mpr h, rfl⟩, ?_⟩
  rintro ⟨value, hvalue, htable⟩
  obtain rfl := Value.eq_of_asTable? htable
  exact mem_of_lookup hvalue

namespace Extension

variable {extension : Extension} {entries : Table}

/-- What the fields of the extended form say besides the members. -/
structure WrittenIn (extension : Extension) (table : Table) : Prop where
  known : ∀ key ∈ keys table, key = "members" ∨ key = "prefix" ∨ key = "numbering"
  macroPrefix : Gives table "prefix" Value.string extension.macroPrefix?
  numbering : Gives table "numbering" Value.string extension.numbering?

theorem WrittenIn.unique {other : Extension} (hnodup : (keys table).Nodup) (h : extension.WrittenIn table)
    (h' : other.WrittenIn table) : extension = other := by
  have hstring : Function.Injective Value.string := fun _ _ => Value.string.inj
  cases extension
  cases other
  congr
  · exact h.macroPrefix.unique hstring hnodup h'.macroPrefix
  · exact h.numbering.unique hstring hnodup h'.numbering

/-- What one field may be, and what it changes. -/
theorem ofFields_singleton_iff {key : String} {value : Value} {after : Extension} :
    ofFields place owner extension [(key, value)] = .ok after ↔
      key = "members" ∧ after = extension ∨
        ∃ text, value = .string text ∧ (key = "prefix" ∧ after = { extension with macroPrefix? := some text } ∨
          key = "numbering" ∧ after = { extension with numbering? := some text }) := by
  rw [ofFields]
  by_cases hmembers : key = "members"
  · simp [hmembers, ofFields, eq_comm]
  by_cases hstart : key = "prefix"
  · cases value <;> simp [hstart, ofFields, Value.asString?, eq_comm]
  by_cases hnumbering : key = "numbering"
  · cases value <;> simp [hnumbering, ofFields, Value.asString?, eq_comm]
  · simp [hmembers, hstart, hnumbering]

theorem readsEach_ofFields (place : Place) (owner : String) : ReadsEach (ofFields place owner) where
  nil _ := rfl
  cons extension entry rest := by
    obtain ⟨key, value⟩ := entry
    rw [ofFields, ofFields]
    split
    · rfl
    · split
      · cases value.asString? with
        | none => rfl
        | some text =>
            dsimp only
            split <;> rfl
      · rfl

/-- What is read from the fields of the extended form is what they say. -/
theorem writtenIn_of_ofFields (hnodup : (keys table).Nodup)
    (h : ofFields place owner ⟨none, none⟩ table = .ok extension) : extension.WrittenIn table := by
  have hreads := readsEach_ofFields place owner
  constructor
  · intro key hkey
    obtain ⟨value, hmem⟩ := exists_of_mem_keys hkey
    obtain ⟨slots, next, hread⟩ := hreads.exists_of_mem h _ hmem
    rcases ofFields_singleton_iff.mp hread with ⟨hmembers, -⟩ | ⟨-, -, ⟨hstart, -⟩ | ⟨hnumbering, -⟩⟩
    · exact Or.inl hmembers
    · exact Or.inr (Or.inl hstart)
    · exact Or.inr (Or.inr hnumbering)
  · refine hreads.gives macroPrefix? ?_ ?_ hnodup rfl h
    · intro slots value next hread
      obtain ⟨text, hvalue, rfl⟩ :
          ∃ text, value = .string text ∧ next = { slots with macroPrefix? := some text } := by
        simpa using ofFields_singleton_iff.mp hread
      exact ⟨text, hvalue, rfl⟩
    · intro slots other value next hother hread
      rcases ofFields_singleton_iff.mp hread with ⟨-, rfl⟩ | ⟨text, -, ⟨hkey, -⟩ | ⟨-, rfl⟩⟩
      · rfl
      · exact absurd hkey hother
      · rfl
  · refine hreads.gives numbering? ?_ ?_ hnodup rfl h
    · intro slots value next hread
      obtain ⟨text, hvalue, rfl⟩ :
          ∃ text, value = .string text ∧ next = { slots with numbering? := some text } := by
        simpa using ofFields_singleton_iff.mp hread
      exact ⟨text, hvalue, rfl⟩
    · intro slots other value next hother hread
      rcases ofFields_singleton_iff.mp hread with ⟨-, rfl⟩ | ⟨text, -, ⟨-, rfl⟩ | ⟨hkey, -⟩⟩
      · rfl
      · rfl
      · exact absurd hkey hother

theorem WrittenIn.succeeds (hnodup : (keys table).Nodup) (h : extension.WrittenIn table) :
    Succeeds (ofFields place owner ⟨none, none⟩ table) := by
  refine (readsEach_ofFields place owner).succeeds fun entry hmem slots => ?_
  obtain ⟨key, value⟩ := entry
  rcases h.known key (mem_keys_of_mem hmem) with rfl | rfl | rfl
  · exact ⟨slots, ofFields_singleton_iff.mpr (by simp)⟩
  · obtain ⟨text, -, rfl⟩ := h.macroPrefix.exists_eq hnodup hmem
    exact ⟨{ slots with macroPrefix? := some text }, ofFields_singleton_iff.mpr (by simp)⟩
  · obtain ⟨text, -, rfl⟩ := h.numbering.exists_eq hnodup hmem
    exact ⟨{ slots with numbering? := some text }, ofFields_singleton_iff.mpr (by simp)⟩

/-- The fields of the extended form are read exactly if they are known and texts; the order has no part
in what is read. -/
theorem ofFields_eq_ok_iff (hnodup : (keys table).Nodup) :
    ofFields place owner ⟨none, none⟩ table = .ok extension ↔ extension.WrittenIn table := by
  refine ⟨writtenIn_of_ofFields hnodup, fun h => ?_⟩
  obtain ⟨read, hread⟩ := h.succeeds hnodup
  rw [hread, (writtenIn_of_ofFields hnodup hread).unique hnodup h]

/-- A table is split in the one form or the other: it is the table of the members itself, or it lists
them and says more beside them. -/
theorem split_eq_ok_iff (hnodup : (keys table).Nodup) :
    split place owner isMember table = .ok (extension, entries) ↔
      (∀ members, ¬ ListsMembers isMember table members) ∧ extension = ⟨none, none⟩ ∧ entries = table ∨
        ListsMembers isMember table entries ∧ extension.WrittenIn table := by
  simp only [listsMembers_iff hnodup, split]
  cases (table.lookup "members").bind Value.asTable? with
  | none =>
      simp only [reduceCtorEq, false_and, not_false_eq_true, implies_true, true_and, or_false,
        Except.ok.injEq, Prod.mk.injEq]
      exact and_congr eq_comm eq_comm
  | some members =>
      dsimp only
      by_cases hall : members.all fun entry => isMember entry.2
      · rw [if_pos hall, except_bind_eq_ok_iff]
        simp only [ofFields_eq_ok_iff hnodup, Option.some.injEq, Except.ok.injEq, Prod.mk.injEq]
        constructor
        · rintro ⟨_, hwritten, rfl, rfl⟩
          exact Or.inr ⟨⟨rfl, hall⟩, hwritten⟩
        · rintro (⟨hplain, -⟩ | ⟨⟨rfl, -⟩, hwritten⟩)
          · exact absurd ⟨rfl, hall⟩ (hplain members)
          · exact ⟨extension, hwritten, rfl, rfl⟩
      · rw [if_neg hall]
        simp only [Option.some.injEq, Except.ok.injEq, Prod.mk.injEq]
        constructor
        · rintro ⟨rfl, rfl⟩
          refine Or.inl ⟨?_, rfl, rfl⟩
          rintro _ ⟨rfl, hmembers⟩
          exact hall hmembers
        · rintro (⟨-, rfl, rfl⟩ | ⟨⟨rfl, hmembers⟩, -⟩)
          · exact ⟨rfl, rfl⟩
          · exact absurd hmembers hall

end Extension

theorem checkMacroPrefix_eq_ok_iff {kind : String} {macroPrefix? : Option String} :
    checkMacroPrefix place kind macroPrefix? = .ok () ↔
      ∀ macroPrefix ∈ macroPrefix?, Identifier.IsValid macroPrefix := by
  refine ⟨valid_of_checkMacroPrefix, fun h => ?_⟩
  cases macroPrefix? with
  | none => rfl
  | some macroPrefix => exact Place.checkName_eq_ok_iff.mpr (h macroPrefix rfl)

end Bindery
