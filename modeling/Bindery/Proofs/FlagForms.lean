import Bindery.Proofs.Forms

/-!
# Forms of a flag set

Which tables are accepted as flag sets, and what is read from them. A flag is defined by a table of fields
under its name, of which exactly one says what the flag stands for. A set is written in one of two forms.
No definition of a flag is a table of tables, so a set that is written as the table of its flags is never
taken for the other form, also when one of its flags is called `members`.
-/

namespace Bindery

open Toml

namespace Flag

/-- A bit as it is written in the field of a flag. -/
def bitValue : Option Nat → Value
  | some bit => .integer bit
  | none => .string "none"

/-- Names of flags as they are written in the field of a flag. -/
def namesValue (names : List String) : Value := .array (names.map Value.string)

/-- What the fields of a flag say that it stands for. -/
inductive Kind.GivenBy (fields : Table) : Kind → Prop
  | bit {bit? : Option Nat} (hrange : ∀ bit ∈ bit?, bit ≤ 62) (hbit : ("bit", bitValue bit?) ∈ fields)
      (hcombine : "combine" ∉ keys fields) : GivenBy fields (.bit bit?)
  | combine {names : List String} (hbit : "bit" ∉ keys fields)
      (hcombine : ("combine", namesValue names) ∈ fields) : GivenBy fields (.combine names)

/-- A flag is defined by an entry: its name is an identifier, and its fields are known, hold what they
should and say in one way what the flag stands for. -/
inductive DefinedBy : Flag → String × Value → Prop
  | intro {name : String} {fields : Table} {help? : Option String} {kind : Kind}
      (hname : Identifier.IsValid name)
      (hknown : ∀ key ∈ keys fields, key = "help" ∨ key = "bit" ∨ key = "combine")
      (hhelp : Gives fields "help" Value.string help?) (hkind : kind.GivenBy fields) :
      DefinedBy ⟨name, help?.getD "", kind⟩ (name, .table fields)

theorem bitValue_injective : Function.Injective bitValue := by
  intro bit? bit?' h
  cases bit? <;> cases bit?' <;> simp_all [bitValue]

theorem namesValue_injective : Function.Injective namesValue := by
  intro names names' h
  exact List.map_injective_iff.mpr (fun _ _ => Value.string.inj) (Value.array.inj h)

theorem bit?_eq_some_iff {value : Value} {bit? : Option Nat} :
    Flag.bit? value = some bit? ↔ value = bitValue bit? ∧ ∀ bit ∈ bit?, bit ≤ 62 := by
  have hmax : (maxBit : Int) = 62 := rfl
  cases value with
  | string text =>
      cases bit? <;> simp [Flag.bit?, bitValue]
  | integer number =>
      cases bit? with
      | none => simp [Flag.bit?, bitValue]
      | some bit =>
          simp only [Flag.bit?, bitValue, hmax]
          simp
          omega
  | float _ | boolean _ | datetime _ | array _ | table _ => cases bit? <;> simp [Flag.bit?, bitValue]

theorem names?_eq_some_iff {value : Value} {names : List String} :
    names? value = some names ↔ value = namesValue names := by
  refine ⟨names?_eq_some, ?_⟩
  rintro rfl
  simp only [names?, namesValue, Value.asArray?, Option.bind_some]
  induction names with
  | nil => rfl
  | cons name rest ih => simp [List.mapM_cons, Value.asString?, ih]

end Flag

namespace FlagFields

variable {place : Place} {set flag : String} {table : Table} {fields : FlagFields}

/-- What the slots for the fields of a flag hold when a table is read. -/
structure WrittenIn (fields : FlagFields) (table : Table) : Prop where
  known : ∀ key ∈ keys table, key = "help" ∨ key = "bit" ∨ key = "combine"
  help : ∃ help?, Gives table "help" Value.string help? ∧ fields.help = help?.getD ""
  bit : Gives table "bit" Flag.bitValue fields.bit?
  names : Gives table "combine" Flag.namesValue fields.names?
  bit_le : ∀ bit, fields.bit? = some (some bit) → bit ≤ 62

theorem WrittenIn.unique {other : FlagFields} (hnodup : (keys table).Nodup) (h : fields.WrittenIn table)
    (h' : other.WrittenIn table) : fields = other := by
  obtain ⟨help?, hgives, hhelp⟩ := h.help
  obtain ⟨help?', hgives', hhelp'⟩ := h'.help
  obtain rfl := hgives.unique (fun _ _ => Value.string.inj) hnodup hgives'
  cases fields
  cases other
  congr
  · exact hhelp.trans hhelp'.symm
  · exact h.bit.unique Flag.bitValue_injective hnodup h'.bit
  · exact h.names.unique Flag.namesValue_injective hnodup h'.names

/-- What one field may be, and what it changes. -/
theorem ofEntries_singleton_iff {key : String} {value : Value} {after : FlagFields} :
    ofEntries place set flag fields [(key, value)] = .ok after ↔
      (∃ help, key = "help" ∧ value = .string help ∧ after = { fields with help }) ∨
        (∃ bit?, key = "bit" ∧ value = Flag.bitValue bit? ∧ (∀ bit ∈ bit?, bit ≤ 62) ∧
          after = { fields with bit? := some bit? }) ∨
        ∃ names, key = "combine" ∧ value = Flag.namesValue names ∧
          after = { fields with names? := some names } := by
  rw [ofEntries]
  by_cases hhelp : key = "help"
  · cases value <;> simp [hhelp, ofEntries, Value.asString?, eq_comm]
  by_cases hbit : key = "bit"
  · simp only [hbit, ← and_assoc, ← Flag.bit?_eq_some_iff]
    cases Flag.bit? value <;> simp [ofEntries, eq_comm]
  by_cases hcombine : key = "combine"
  · simp only [hcombine, ← Flag.names?_eq_some_iff]
    cases Flag.names? value <;> simp [ofEntries, eq_comm]
  · simp [hhelp, hbit, hcombine]

theorem readsEach_ofEntries (place : Place) (set flag : String) : ReadsEach (ofEntries place set flag) where
  nil _ := rfl
  cons fields entry rest := by
    obtain ⟨key, value⟩ := entry
    rw [ofEntries, ofEntries]
    split
    · cases value.asString? <;> rfl
    split
    · cases Flag.bit? value <;> rfl
    split
    · cases Flag.names? value <;> rfl
    · rfl

/-- What is read from the fields of a flag is what they say. -/
theorem writtenIn_of_ofEntries (hnodup : (keys table).Nodup)
    (h : ofEntries place set flag ⟨"", none, none⟩ table = .ok fields) : fields.WrittenIn table := by
  have hreads := readsEach_ofEntries place set flag
  constructor
  · intro key hkey
    obtain ⟨value, hmem⟩ := exists_of_mem_keys hkey
    obtain ⟨slots, next, hread⟩ := hreads.exists_of_mem h _ hmem
    exact (ofEntries_singleton_iff.mp hread).imp (fun ⟨_, hkey, _⟩ => hkey)
      (Or.imp (fun ⟨_, hkey, _⟩ => hkey) fun ⟨_, hkey, _⟩ => hkey)
  · have hgives := hreads.exists_gives "help" Value.string help id ?_ ?_ hnodup h
    · simpa using hgives
    · intro slots value next hread
      obtain ⟨text, hvalue, rfl⟩ : ∃ text, value = .string text ∧ next = { slots with help := text } := by
        simpa using ofEntries_singleton_iff.mp hread
      exact ⟨text, hvalue, rfl⟩
    · intro slots other value next hother hread
      rcases ofEntries_singleton_iff.mp hread with ⟨_, hkey, -⟩ | ⟨_, -, -, -, rfl⟩ | ⟨_, -, -, rfl⟩
      · exact absurd hkey hother
      · rfl
      · rfl
  · refine hreads.gives FlagFields.bit? ?_ ?_ hnodup rfl h
    · intro slots value next hread
      obtain ⟨bit?, hvalue, -, rfl⟩ : ∃ bit?, value = Flag.bitValue bit? ∧ (∀ bit ∈ bit?, bit ≤ 62) ∧
          next = { slots with bit? := some bit? } := by
        simpa using ofEntries_singleton_iff.mp hread
      exact ⟨bit?, hvalue, rfl⟩
    · intro slots other value next hother hread
      rcases ofEntries_singleton_iff.mp hread with ⟨_, -, -, rfl⟩ | ⟨_, hkey, -⟩ | ⟨_, -, -, rfl⟩
      · rfl
      · exact absurd hkey hother
      · rfl
  · refine hreads.gives FlagFields.names? ?_ ?_ hnodup rfl h
    · intro slots value next hread
      obtain ⟨names, hvalue, rfl⟩ :
          ∃ names, value = Flag.namesValue names ∧ next = { slots with names? := some names } := by
        simpa using ofEntries_singleton_iff.mp hread
      exact ⟨names, hvalue, rfl⟩
    · intro slots other value next hother hread
      rcases ofEntries_singleton_iff.mp hread with ⟨_, -, -, rfl⟩ | ⟨_, -, -, -, rfl⟩ | ⟨_, hkey, -⟩
      · rfl
      · rfl
      · exact absurd hkey hother
  · exact bit_le_of_ofEntries (by simp) h

theorem WrittenIn.succeeds (hnodup : (keys table).Nodup) (h : fields.WrittenIn table) :
    Succeeds (ofEntries place set flag ⟨"", none, none⟩ table) := by
  refine (readsEach_ofEntries place set flag).succeeds fun entry hmem slots => ?_
  obtain ⟨key, value⟩ := entry
  rcases h.known key (mem_keys_of_mem hmem) with rfl | rfl | rfl
  · obtain ⟨help?, hgives, -⟩ := h.help
    obtain ⟨help, -, rfl⟩ := hgives.exists_eq hnodup hmem
    exact ⟨{ slots with help }, ofEntries_singleton_iff.mpr (by simp)⟩
  · obtain ⟨bit?, hbit, rfl⟩ := h.bit.exists_eq hnodup hmem
    have hrange : ∀ bit ∈ bit?, bit ≤ 62 := by
      rintro bit rfl
      exact h.bit_le bit hbit
    exact ⟨{ slots with bit? := some bit? }, ofEntries_singleton_iff.mpr (by simpa using hrange)⟩
  · obtain ⟨names, -, rfl⟩ := h.names.exists_eq hnodup hmem
    exact ⟨{ slots with names? := some names }, ofEntries_singleton_iff.mpr (by simp)⟩

/-- The fields of a flag are read exactly if each of them is known and holds what it should; the order has
no part in what is read. -/
theorem ofEntries_eq_ok_iff (hnodup : (keys table).Nodup) :
    ofEntries place set flag ⟨"", none, none⟩ table = .ok fields ↔ fields.WrittenIn table := by
  refine ⟨writtenIn_of_ofEntries hnodup, fun h => ?_⟩
  obtain ⟨read, hread⟩ := h.succeeds hnodup
  rw [hread, (writtenIn_of_ofEntries hnodup hread).unique hnodup h]

end FlagFields

namespace Flag

variable {place : Place} {set name : String} {value : Value} {flag : Flag}

theorem definedBy_of_ofEntry (hvalue : value.Distinct) (h : ofEntry place set name value = .ok flag) :
    flag.DefinedBy (name, value) := by
  rw [ofEntry, except_bind_eq_ok_iff] at h
  obtain ⟨⟨⟩, hname, h⟩ := h
  have hvalid := Place.checkName_eq_ok_iff.mp hname
  cases htable : value.asTable? with
  | none =>
    rw [htable] at h
    cases h
  | some table =>
    rw [htable] at h
    obtain rfl := Value.eq_of_asTable? htable
    obtain ⟨fields, hfields, h⟩ := except_bind_eq_ok_iff.mp h
    have hwritten := (FlagFields.ofEntries_eq_ok_iff hvalue.nodup).mp hfields
    obtain ⟨help?, hhelp, hsame⟩ := hwritten.help
    have hbit := hwritten.bit
    have hcombine := hwritten.names
    split at h
    next bit? hsome hnone =>
      cases h
      rw [hsome] at hbit
      rw [hnone] at hcombine
      rw [hsame]
      refine .intro hvalid hwritten.known hhelp (.bit ?_ hbit hcombine)
      rintro bit rfl
      exact hwritten.bit_le bit hsome
    next names hnone hsome =>
      cases h
      rw [hnone] at hbit
      rw [hsome] at hcombine
      rw [hsame]
      exact .intro hvalid hwritten.known hhelp (.combine hbit hcombine)
    next => cases h

theorem DefinedBy.ofEntry_eq_ok (hvalue : value.Distinct) (h : flag.DefinedBy (name, value)) :
    ofEntry place set name value = .ok flag := by
  obtain ⟨hvalid, hknown, hhelp, hkind⟩ := h
  refine except_bind_eq_ok_iff.mpr ⟨(), Place.checkName_eq_ok_iff.mpr hvalid, ?_⟩
  cases hkind with
  | @bit bit? hrange hbit hcombine =>
      have hwritten : FlagFields.WrittenIn ⟨_, some bit?, none⟩ _ :=
        ⟨hknown, ⟨_, hhelp, rfl⟩, hbit, hcombine, by simpa using hrange⟩
      exact except_bind_eq_ok_iff.mpr ⟨_, (FlagFields.ofEntries_eq_ok_iff hvalue.nodup).mpr hwritten, rfl⟩
  | combine hbit hcombine =>
      have hwritten : FlagFields.WrittenIn ⟨_, none, some _⟩ _ :=
        ⟨hknown, ⟨_, hhelp, rfl⟩, hbit, hcombine, by simp⟩
      exact except_bind_eq_ok_iff.mpr ⟨_, (FlagFields.ofEntries_eq_ok_iff hvalue.nodup).mpr hwritten, rfl⟩

/-- What is read as a flag is exactly what the entry defines. -/
theorem ofEntry_eq_ok_iff (hvalue : value.Distinct) :
    ofEntry place set name value = .ok flag ↔ flag.DefinedBy (name, value) :=
  ⟨definedBy_of_ofEntry hvalue, fun h => h.ofEntry_eq_ok hvalue⟩

/-- No definition of a flag is a table of tables: one of its fields says what the flag stands for, and it
is no table. -/
theorem DefinedBy.exists_not_isTable {fields : Table} (h : flag.DefinedBy (name, .table fields)) :
    ∃ entry ∈ fields, entry.2.asTable? = none := by
  cases h with
  | intro _ _ _ hkind =>
      cases hkind with
      | @bit bit? _ hbit _ => exact ⟨_, hbit, by cases bit? <;> rfl⟩
      | combine _ hcombine => exact ⟨_, hcombine, rfl⟩

end Flag

namespace FlagSet

variable {place : Place} {name : String} {table : Table} {set : FlagSet} {flags : List Flag}

/-- The two forms in which a flag set may be written. -/
inductive WrittenIn (name : String) (table : Table) : FlagSet → Prop
  | plain {flags : List Flag} (hform : ∀ members, ¬ ListsMembers (·.asTable?.isSome) table members)
      (hflags : List.Forall₂ Flag.DefinedBy flags table) : WrittenIn name table ⟨name, none, flags⟩
  | extended {members : Table} {macroPrefix? : Option String} {flags : List Flag}
      (hform : ListsMembers (·.asTable?.isSome) table members)
      (hknown : ∀ key ∈ keys table, key = "members" ∨ key = "prefix")
      (hstart : Gives table "prefix" Value.string macroPrefix?)
      (hvalid : ∀ macroPrefix ∈ macroPrefix?, Identifier.IsValid macroPrefix)
      (hflags : List.Forall₂ Flag.DefinedBy flags members) : WrittenIn name table ⟨name, macroPrefix?, flags⟩

/-- The steps by which a flag set is read. -/
theorem ofTable_eq_ok_iff :
    ofTable place name table = .ok set ↔
      Identifier.IsValid name ∧ ∃ extension entries flags,
        Extension.split (place.enter name) name (·.asTable?.isSome) table = .ok (extension, entries) ∧
          extension.numbering? = none ∧
          (∀ macroPrefix ∈ extension.macroPrefix?, Identifier.IsValid macroPrefix) ∧
          entries.mapM (fun (flag, value) => Flag.ofEntry (place.enter name) name flag value) = .ok flags ∧
          set = ⟨name, extension.macroPrefix?, flags⟩ := by
  constructor
  · intro h
    obtain ⟨⟨⟩, hname, h⟩ := except_bind_eq_ok_iff.mp h
    obtain ⟨⟨extension, entries⟩, hsplit, h⟩ := except_bind_eq_ok_iff.mp h
    dsimp only at h
    split at h
    · cases h
    next hnumbering =>
      obtain ⟨⟨⟩, hstart, h⟩ := except_bind_eq_ok_iff.mp h
      obtain ⟨flags, hflags, h⟩ := except_bind_eq_ok_iff.mp h
      cases h
      exact ⟨Place.checkName_eq_ok_iff.mp hname, extension, entries, flags, hsplit, by simpa using hnumbering,
        checkMacroPrefix_eq_ok_iff.mp hstart, hflags, rfl⟩
  · rintro ⟨hname, extension, entries, flags, hsplit, hnumbering, hstart, hflags, rfl⟩
    refine except_bind_eq_ok_iff.mpr ⟨(), Place.checkName_eq_ok_iff.mpr hname,
      except_bind_eq_ok_iff.mpr ⟨(extension, entries), hsplit, ?_⟩⟩
    dsimp only
    rw [hnumbering]
    exact except_bind_eq_ok_iff.mpr ⟨(), checkMacroPrefix_eq_ok_iff.mpr hstart,
      except_bind_eq_ok_iff.mpr ⟨flags, hflags, rfl⟩⟩

theorem flags_eq_ok_iff (htable : Value.Distinct (.table table)) :
    table.mapM (fun (flag, value) => Flag.ofEntry place name flag value) = .ok flags ↔
      List.Forall₂ Flag.DefinedBy flags table :=
  mapM_eq_ok_iff fun entry hentry _ => Flag.ofEntry_eq_ok_iff (htable.entries entry hentry)

/-- A set that is written as the table of its flags is not taken for the extended form. -/
theorem not_listsMembers_of_forall₂ (hflags : List.Forall₂ Flag.DefinedBy flags table) (members : Table) :
    ¬ ListsMembers (·.asTable?.isSome) table members := by
  rintro ⟨hmem, hall⟩
  obtain ⟨flag, -, hflag⟩ := exists_of_forall₂_of_mem hflags hmem
  obtain ⟨entry, hentry, hnone⟩ := hflag.exists_not_isTable
  have hsome : entry.2.asTable?.isSome := hall entry hentry
  rw [hnone] at hsome
  cases hsome

/-- What is read as a flag set is exactly what is written in one of the two forms. -/
theorem ofTable_eq_ok_iff_writtenIn (hname : Identifier.IsValid name) (htable : Value.Distinct (.table table)) :
    ofTable place name table = .ok set ↔ WrittenIn name table set := by
  rw [ofTable_eq_ok_iff]
  constructor
  · rintro ⟨-, extension, entries, flags, hsplit, hnumbering, hvalid, hflags, rfl⟩
    rcases (Extension.split_eq_ok_iff htable.nodup).mp hsplit with ⟨hform, rfl, rfl⟩ | ⟨hform, hwritten⟩
    · exact .plain hform ((flags_eq_ok_iff htable).mp hflags)
    · have hflags := (flags_eq_ok_iff (htable.entries _ hform.1)).mp hflags
      have habsent := hwritten.numbering
      rw [hnumbering] at habsent
      refine .extended hform (fun key hkey => ?_) hwritten.macroPrefix hvalid hflags
      rcases hwritten.known key hkey with hmembers | hstart | rfl
      · exact Or.inl hmembers
      · exact Or.inr hstart
      · exact absurd hkey habsent
  · intro h
    cases h with
    | @plain flags hform hflags =>
        exact ⟨hname, ⟨none, none⟩, table, flags,
          (Extension.split_eq_ok_iff htable.nodup).mpr (Or.inl ⟨hform, rfl, rfl⟩), rfl, by simp,
          (flags_eq_ok_iff htable).mpr hflags, rfl⟩
    | @extended members macroPrefix? flags hform hknown hstart hvalid hflags =>
        have hwritten : Extension.WrittenIn ⟨macroPrefix?, none⟩ table := by
          refine ⟨fun key hkey => (hknown key hkey).imp_right Or.inl, hstart, fun hkey => ?_⟩
          rcases hknown _ hkey with hsame | hsame <;> simp at hsame
        exact ⟨hname, ⟨macroPrefix?, none⟩, members, flags,
          (Extension.split_eq_ok_iff htable.nodup).mpr (Or.inr ⟨hform, hwritten⟩), rfl, hvalid,
          (flags_eq_ok_iff (htable.entries _ hform.1)).mpr hflags, rfl⟩

/-- A table is accepted as a flag set exactly if it is written in one of the two forms, and what is read
is what is written. A table of definitions of flags is always taken as such, whatever the flags are
called. -/
theorem flagTable_accepted_iff (place : Place) {name : String} {table : Table} (hname : Identifier.IsValid name)
    (htable : Value.Distinct (.table table)) :
    (∀ set, ofTable place name table = .ok set ↔ WrittenIn name table set) ∧
      ∀ flags, List.Forall₂ Flag.DefinedBy flags table →
        ofTable place name table = .ok ⟨name, none, flags⟩ := by
  refine ⟨fun set => ofTable_eq_ok_iff_writtenIn hname htable, fun flags hflags => ?_⟩
  rw [ofTable_eq_ok_iff_writtenIn hname htable]
  exact .plain (not_listsMembers_of_forall₂ hflags) hflags

end FlagSet

/-- A set of which one flag is called `members`. -/
def accessTable : Table :=
  [ ("None", .table [("bit", .string "none")]),
    ("Read", .table [("bit", .integer 0), ("help", .string "may read")]),
    ("members", .table [("help", .string "may do all"), ("combine", .array [.string "Read"])]) ]

theorem distinct_accessTable : Value.Distinct (.table accessTable) := by
  refine .table (by decide) ?_
  simp only [accessTable, List.forall_mem_cons, List.not_mem_nil, false_implies, implies_true, and_true]
  refine ⟨.table (by decide) ?_, .table (by decide) ?_, .table (by decide) ?_⟩
  · simpa using .plain rfl rfl
  · simpa using ⟨.plain rfl rfl, .plain rfl rfl⟩
  · simpa using ⟨.plain rfl rfl, .array (by simpa using .plain rfl rfl)⟩

theorem FlagSet.flagTable_accepted_iff_access :
    Identifier.IsValid "access" ∧ Value.Distinct (.table accessTable) ∧
      FlagSet.ofTable (.start "core_api.toml" "") "access" accessTable = .ok
        ⟨"access", none, [⟨"None", "", .bit none⟩, ⟨"Read", "may read", .bit (some 0)⟩,
          ⟨"members", "may do all", .combine ["Read"]⟩]⟩ := by
  have hname : Identifier.IsValid "access" := ⟨by decide, by decide⟩
  refine ⟨hname, distinct_accessTable, (FlagSet.flagTable_accepted_iff _ hname distinct_accessTable).2 _
    (.cons ?_ (.cons ?_ (.cons ?_ .nil)))⟩
  · exact @Flag.DefinedBy.intro "None" _ none _ ⟨by decide, by decide⟩ (by simp [keys]) (by simp [Gives, keys])
      (.bit (by simp) (by simp [Flag.bitValue]) (by simp [keys]))
  · exact @Flag.DefinedBy.intro "Read" _ (some "may read") _ ⟨by decide, by decide⟩ (by simp [keys])
      (by simp [Gives]) (.bit (by simp) (by simp [Flag.bitValue]) (by simp [keys]))
  · exact @Flag.DefinedBy.intro "members" _ (some "may do all") _ ⟨by decide, by decide⟩ (by simp [keys])
      (by simp [Gives]) (.combine (by simp [keys]) (by simp [Flag.namesValue]))

end Bindery
