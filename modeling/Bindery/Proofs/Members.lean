import Bindery.Proofs.Signatures
import Mathlib.Data.List.Induction
import Mathlib.Data.Nat.Digits.Defs

/-!
# Members of a description

What holds of every enumeration and flag set that the loader lets through, in either of the two forms
they may be written in: the names of the members are unique and stand in the order of the document, and
they are identifiers, or the numbers that their keys spell.
-/

namespace Bindery

open Text Toml

namespace Toml

theorem Value.eq_of_asTable? {value : Value} {entries : Table} (h : value.asTable? = some entries) :
    value = .table entries := by
  cases value with
  | table others =>
      cases h
      rfl
  | _ => cases h

theorem Value.eq_of_asArray? {value : Value} {items : List Value} (h : value.asArray? = some items) :
    value = .array items := by
  cases value with
  | array others =>
      cases h
      rfl
  | _ => cases h

theorem Value.eq_of_asString? {value : Value} {text : String} (h : value.asString? = some text) :
    value = .string text := by
  cases value with
  | string other =>
      cases h
      rfl
  | _ => cases h

/-- The number that digits of base ten spell. -/
def decimal (digits : List Char) : Nat :=
  Nat.ofDigits 10 (digits.reverse.map fun c => c.toNat - '0'.toNat)

/-- A text spells a whole number: it consists of digits, behind a sign or without one. -/
inductive Spells : List Char → Int → Prop
  | unsigned {digits : List Char} (hsome : digits ≠ []) (hdigits : ∀ c ∈ digits, c.isDigit = true) :
      Spells digits (decimal digits)
  | positive {digits : List Char} (hsome : digits ≠ []) (hdigits : ∀ c ∈ digits, c.isDigit = true) :
      Spells ('+' :: digits) (decimal digits)
  | negative {digits : List Char} (hsome : digits ≠ []) (hdigits : ∀ c ∈ digits, c.isDigit = true) :
      Spells ('-' :: digits) (-decimal digits)

theorem valueOf_eq_decimal {digits : List Char} (hdigits : ∀ c ∈ digits, c.isDigit = true) :
    valueOf 10 digits = decimal digits := by
  induction digits using List.reverseRecOn with
  | nil => rfl
  | append_singleton digits c ih =>
      obtain ⟨hfront, hlast⟩ := List.forall_mem_append.mp hdigits
      have hc : c.isDigit = true := hlast c (List.mem_singleton_self c)
      calc valueOf 10 (digits ++ [c])
          = 10 * valueOf 10 digits + (hexValue? c).getD 0 := by simp [valueOf]
        _ = 10 * decimal digits + (c.toNat - '0'.toNat) := by rw [ih hfront]; simp [hexValue?, hc]
        _ = decimal (digits ++ [c]) := by simp [decimal, Nat.ofDigits_cons, Nat.add_comm]

theorem splitSign_of_isDigit {digits : List Char} (hdigits : ∀ c ∈ digits, c.isDigit = true) :
    splitSign digits = (false, digits) := by
  unfold splitSign
  split
  next => exact absurd (hdigits _ List.mem_cons_self) (by decide)
  next => exact absurd (hdigits _ List.mem_cons_self) (by decide)
  next => rfl

theorem spells_of_readKeyInteger? {text : List Char} {value : Int}
    (h : readKeyInteger? text = some value) : Spells text value := by
  unfold readKeyInteger? at h
  generalize hsplit : splitSign text = parts at h
  obtain ⟨sign, digits⟩ := parts
  dsimp only at h
  split at h
  next hspelled =>
    simp only [Bool.and_eq_true, Bool.not_eq_true', List.isEmpty_eq_false_iff, List.all_eq_true]
      at hspelled
    obtain ⟨hsome, hdigits⟩ := hspelled
    rw [valueOf_eq_decimal hdigits] at h
    split at h
    · cases h
      unfold splitSign at hsplit
      split at hsplit <;> cases hsplit
      · exact .negative hsome hdigits
      · exact .positive hsome hdigits
      · exact .unsigned hsome hdigits
    · cases h
  next => cases h

end Toml

/-- The entries of the members of an enumeration or flag set: those of its table of members, if it has
one and they all look like members, or else its own. -/
def memberEntries (isMember : Value → Bool) (table : Table) : Table :=
  match (table.lookup "members").bind Value.asTable? with
  | some members => if members.all fun entry => isMember entry.2 then members else table
  | none => table

theorem distinct_memberEntries {isMember : Value → Bool} {table : Table}
    (htable : Value.Distinct (.table table)) :
    Value.Distinct (.table (memberEntries isMember table)) := by
  unfold memberEntries
  split
  next members hmembers =>
    obtain ⟨value, hvalue, hentries⟩ := Option.bind_eq_some_iff.mp hmembers
    obtain rfl := Value.eq_of_asTable? hentries
    split
    · exact htable.entries _ (mem_of_lookup hvalue)
    · exact htable
  next => exact htable

theorem Extension.entries_of_split {place : Place} {owner : String} {isMember : Value → Bool}
    {table entries : Table} {extension : Extension}
    (h : split place owner isMember table = .ok (extension, entries)) :
    entries = memberEntries isMember table := by
  unfold split at h
  unfold memberEntries
  cases hmembers : (table.lookup "members").bind Value.asTable? with
  | none =>
      rw [hmembers] at h
      cases h
      rfl
  | some members =>
      rw [hmembers] at h
      dsimp only at h ⊢
      split at h
      next hall =>
        obtain ⟨read, -, h⟩ := except_bind_eq_ok_iff.mp h
        cases h
        rw [if_pos hall]
      next hall =>
        cases h
        rw [if_neg hall]

theorem map_eq_keys_iff {α β : Type} {name : α → String} {items : List α}
    {entries : List (String × β)} :
    items.map name = keys entries ↔
      List.Forall₂ (fun item entry => name item = entry.1) items entries := by
  rw [keys, ← List.forall₂_eq_eq_eq, List.forall₂_map_left_iff, List.forall₂_map_right_iff]

theorem valid_of_checkMacroPrefix {place : Place} {kind : String} {macroPrefix? : Option String}
    (h : checkMacroPrefix place kind macroPrefix? = .ok ()) :
    ∀ macroPrefix ∈ macroPrefix?, Identifier.IsValid macroPrefix := by
  rintro macroPrefix rfl
  exact Place.checkName_eq_ok_iff.mp h

/-- What holds of a member by itself, given the numbering of its enumeration. -/
structure Member.Sound (numbering : Numbering) (member : Member) : Prop where
  keyed : member.value?.isSome ↔ numbering = .explicitKeyed
  spelled : ∀ value ∈ member.value?, Spells member.name.toList value
  name_valid : member.value? = none → Identifier.IsValid member.name

theorem Member.of_ofEntry {place : Place} {enumeration name : String} {numbering : Numbering}
    {value : Value} {member : Member}
    (h : ofEntry place enumeration numbering name value = .ok member) :
    member.Sound numbering ∧ member.name = name := by
  unfold ofEntry at h
  split at h
  · cases h
  split at h
  next hkeyed =>
    split at h
    next number hnumber =>
      cases h
      refine ⟨⟨by simp [hkeyed], ?_, by simp⟩, rfl⟩
      intro value hvalue
      cases hvalue
      exact spells_of_readKeyInteger? hnumber
    next => cases h
  next hkeyed =>
    obtain ⟨⟨⟩, hname, h⟩ := except_bind_eq_ok_iff.mp h
    cases h
    exact ⟨⟨by simp [hkeyed], by simp, fun _ => Place.checkName_eq_ok_iff.mp hname⟩, rfl⟩

/-- What holds of an enumeration by itself. -/
structure Enumeration.Sound (enumeration : Enumeration) : Prop where
  name_valid : Identifier.IsValid enumeration.name
  prefix_valid : ∀ macroPrefix ∈ enumeration.macroPrefix?, Identifier.IsValid macroPrefix
  members : ∀ member ∈ enumeration.members, member.Sound enumeration.numbering
  member_names_nodup : (enumeration.members.map Member.name).Nodup

/-- The members of an enumeration stand in the order of the document. -/
def Enumeration.InOrder (enumeration : Enumeration) (table : Table) : Prop :=
  enumeration.members.map Member.name = keys (memberEntries (·.asString?.isSome) table)

theorem Enumeration.of_ofTable {place : Place} {name : String} {table : Table}
    {enumeration : Enumeration} (htable : Value.Distinct (.table table))
    (h : ofTable place name table = .ok enumeration) :
    enumeration.name = name ∧ enumeration.Sound ∧ enumeration.InOrder table := by
  obtain ⟨⟨⟩, hname, h⟩ := except_bind_eq_ok_iff.mp h
  obtain ⟨⟨extension, entries⟩, hsplit, h⟩ := except_bind_eq_ok_iff.mp h
  obtain ⟨⟨⟩, hprefix, h⟩ := except_bind_eq_ok_iff.mp h
  obtain ⟨numbering, -, h⟩ := except_bind_eq_ok_iff.mp h
  obtain ⟨members, hmembers, h⟩ := except_bind_eq_ok_iff.mp h
  cases h
  obtain rfl := Extension.entries_of_split hsplit
  obtain ⟨hsound, hnames⟩ := (List.forall₂_and_left _ _).mp
    ((forall₂_of_mapM hmembers).imp fun member entry hentry => Member.of_ofEntry hentry)
  have horder := map_eq_keys_iff.mpr hnames
  refine ⟨rfl, ⟨Place.checkName_eq_ok_iff.mp hname, valid_of_checkMacroPrefix hprefix, hsound, ?_⟩,
    horder⟩
  rw [horder]
  exact (distinct_memberEntries htable).nodup

/-- What holds of a flag by itself. -/
structure Flag.Sound (flag : Flag) : Prop where
  name_valid : Identifier.IsValid flag.name
  bit_le : ∀ bit, flag.kind = .bit (some bit) → bit ≤ 62

/-- A flag that combines others names them in the order of the document. -/
def Flag.InOrder (flag : Flag) (value : Value) : Prop :=
  ∀ names, flag.kind = .combine names →
    ∃ entries, value = .table entries ∧ ("combine", .array (names.map Value.string)) ∈ entries

theorem Flag.bit?_le {value : Value} {bit : Nat} (h : bit? value = some (some bit)) : bit ≤ 62 := by
  unfold bit? at h
  split at h
  · split at h <;> cases h
  · split at h
    next number hrange =>
      obtain rfl : number.toNat = bit := by simpa using h
      simp only [Bool.and_eq_true, decide_eq_true_eq] at hrange
      have hmax : (maxBit : Int) = 62 := rfl
      omega
    next => cases h
  · cases h

theorem Flag.names?_eq_some {value : Value} {names : List String} (h : names? value = some names) :
    value = .array (names.map Value.string) := by
  obtain ⟨items, hitems, h⟩ := Option.bind_eq_some_iff.mp h
  obtain rfl := Value.eq_of_asArray? hitems
  have hstring : List.Forall₂ (fun name item => Value.string name = item) names items :=
    (forall₂_of_mapM_option h).imp fun name item hitem => (Value.eq_of_asString? hitem.2).symm
  rw [← List.forall₂_map_left_iff, List.forall₂_eq_eq_eq] at hstring
  rw [hstring]

namespace FlagFields

variable {place : Place} {set flag : String} {entries : Table} {fields result : FlagFields}

theorem bit_le_of_ofEntries (hfields : ∀ bit, fields.bit? = some (some bit) → bit ≤ 62)
    (h : ofEntries place set flag fields entries = .ok result) :
    ∀ bit, result.bit? = some (some bit) → bit ≤ 62 := by
  induction entries generalizing fields with
  | nil =>
      cases h
      exact hfields
  | cons entry rest ih =>
      obtain ⟨key, value⟩ := entry
      unfold ofEntries at h
      split at h
      · split at h
        · refine ih ?_ h
          exact hfields
        · cases h
      split at h
      · split at h
        next bit? hbit =>
          refine ih ?_ h
          rintro bit hsome
          cases hsome
          exact Flag.bit?_le hbit
        next => cases h
      split at h
      · split at h
        · refine ih ?_ h
          exact hfields
        · cases h
      · cases h

theorem mem_of_ofEntries {names : List String}
    (h : ofEntries place set flag fields entries = .ok result) (hnames : result.names? = some names) :
    fields.names? = some names ∨ ("combine", .array (names.map Value.string)) ∈ entries := by
  induction entries generalizing fields with
  | nil =>
      cases h
      exact Or.inl hnames
  | cons entry rest ih =>
      obtain ⟨key, value⟩ := entry
      unfold ofEntries at h
      split at h
      · split at h
        · exact (ih h).imp_right (List.mem_cons_of_mem _)
        · cases h
      split at h
      · split at h
        · exact (ih h).imp_right (List.mem_cons_of_mem _)
        · cases h
      split at h
      next hkey =>
        split at h
        next others hothers =>
          refine Or.inr ?_
          rcases ih h with hsame | hrest
          · cases hsame
            rw [hkey, Flag.names?_eq_some hothers]
            exact List.mem_cons_self
          · exact List.mem_cons_of_mem _ hrest
        next => cases h
      next => cases h

end FlagFields

theorem Flag.of_ofEntry {place : Place} {set name : String} {value : Value} {flag : Flag}
    (h : ofEntry place set name value = .ok flag) :
    flag.Sound ∧ flag.name = name ∧ flag.InOrder value := by
  obtain ⟨⟨⟩, hname, h⟩ := except_bind_eq_ok_iff.mp h
  have hvalid := Place.checkName_eq_ok_iff.mp hname
  split at h
  · cases h
  next table htable =>
    obtain ⟨fields, hfields, h⟩ := except_bind_eq_ok_iff.mp h
    split at h
    next bit hbit _ =>
      cases h
      refine ⟨⟨hvalid, ?_⟩, rfl, by simp [Flag.InOrder]⟩
      intro number hnumber
      cases hnumber
      exact FlagFields.bit_le_of_ofEntries (by simp) hfields number hbit
    next names _ hnames =>
      cases h
      refine ⟨⟨hvalid, by simp⟩, rfl, ?_⟩
      intro others hothers
      cases hothers
      exact ⟨table, Value.eq_of_asTable? htable, (FlagFields.mem_of_ofEntries hfields hnames).resolve_left (by simp)⟩
    next => cases h

/-- What holds of a flag set by itself. -/
structure FlagSet.Sound (set : FlagSet) : Prop where
  name_valid : Identifier.IsValid set.name
  prefix_valid : ∀ macroPrefix ∈ set.macroPrefix?, Identifier.IsValid macroPrefix
  flags : ∀ flag ∈ set.flags, flag.Sound
  flag_names_nodup : (set.flags.map Flag.name).Nodup

/-- The flags of a set stand in the order of the document. -/
def FlagSet.InOrder (set : FlagSet) (table : Table) : Prop :=
  List.Forall₂ (fun flag entry => flag.name = entry.1 ∧ flag.InOrder entry.2) set.flags
    (memberEntries (·.asTable?.isSome) table)

theorem FlagSet.of_ofTable {place : Place} {name : String} {table : Table} {set : FlagSet}
    (htable : Value.Distinct (.table table)) (h : ofTable place name table = .ok set) :
    set.name = name ∧ set.Sound ∧ set.InOrder table := by
  obtain ⟨⟨⟩, hname, h⟩ := except_bind_eq_ok_iff.mp h
  obtain ⟨⟨extension, entries⟩, hsplit, h⟩ := except_bind_eq_ok_iff.mp h
  dsimp only at h
  split at h
  · cases h
  obtain ⟨⟨⟩, hprefix, h⟩ := except_bind_eq_ok_iff.mp h
  obtain ⟨flags, hflags, h⟩ := except_bind_eq_ok_iff.mp h
  cases h
  obtain rfl := Extension.entries_of_split hsplit
  obtain ⟨hsound, horder⟩ := (List.forall₂_and_left _ _).mp
    ((forall₂_of_mapM hflags).imp fun flag entry hentry => Flag.of_ofEntry hentry)
  have hnames := map_eq_keys_iff.mpr (horder.imp fun flag entry hentry => hentry.1)
  refine ⟨rfl, ⟨Place.checkName_eq_ok_iff.mp hname, valid_of_checkMacroPrefix hprefix, hsound, ?_⟩,
    horder⟩
  rw [hnames]
  exact (distinct_memberEntries htable).nodup

end Bindery
