import Bindery.Proofs.Forms

/-!
# Forms of an enumeration

Which tables are accepted as enumerations, and what is read from them. The numbering is the one that is
named, or else the one that goes with the name of the enumeration; it decides whether the keys of the
members are identifiers or numbers. In a table that is not of the extended form every key is that of a
member, also `prefix`, `numbering` and `members`.
-/

namespace Bindery

open Toml

-- powers are those of the core library, whatever else is imported
attribute [local instance (2000)] instPowNat

namespace Toml

theorem fitsInt64_iff {value : Int} :
    fitsInt64 value = true ↔ Int64.minValue.toInt ≤ value ∧ value ≤ Int64.maxValue.toInt := by
  have hmin : Int64.minValue.toInt = -2 ^ (63 : Nat) := by decide
  have hmax : Int64.maxValue.toInt = 2 ^ (63 : Nat) - 1 := by decide
  rw [fitsInt64, Bool.and_eq_true, decide_eq_true_eq, decide_eq_true_eq, hmin, hmax]
  exact and_congr_right fun _ => Int.le_sub_one_iff.symm

/-- A key is read as a number exactly if it spells one that 64 bits hold. -/
theorem readKeyInteger?_eq_some_iff {text : List Char} {value : Int} :
    readKeyInteger? text = some value ↔
      Spells text value ∧ Int64.minValue.toInt ≤ value ∧ value ≤ Int64.maxValue.toInt := by
  rw [← fitsInt64_iff]
  constructor
  · intro h
    refine ⟨spells_of_readKeyInteger? h, ?_⟩
    unfold readKeyInteger? at h
    dsimp only at h
    split at h
    · split at h
      next hfits =>
        cases h
        exact hfits
      next => cases h
    · cases h
  · rintro ⟨hspells, hfits⟩
    have hread {negative : Bool} {digits : List Char} (hsplit : splitSign text = (negative, digits))
        (hsome : digits ≠ []) (hdigits : ∀ c ∈ digits, c.isDigit = true)
        (hvalue : value = signed negative (decimal digits)) : readKeyInteger? text = some value := by
      rw [hvalue] at hfits ⊢
      simpa [readKeyInteger?, hsplit, hsome, valueOf_eq_decimal hdigits, hfits] using hdigits
    cases hspells with
    | unsigned hsome hdigits => exact hread (splitSign_of_isDigit hdigits) hsome hdigits rfl
    | positive hsome hdigits => exact hread rfl hsome hdigits rfl
    | negative hsome hdigits => exact hread rfl hsome hdigits rfl

end Toml

namespace Numbering

/-- The numberings with the names that they go by in a description. -/
inductive IsNamed : Numbering → String → Prop
  | sequential : IsNamed .sequential "sequential"
  | zeroAndDescending : IsNamed .zeroAndDescending "zero_and_descending"
  | minusOneAscending : IsNamed .minusOneAscending "minus_one_ascending"
  | explicitKeyed : IsNamed .explicitKeyed "explicit_keyed"

/-- The numbering that goes with the name of an enumeration: three names have one of their own. -/
inductive GoesWith : Numbering → String → Prop
  | errorCode : GoesWith .zeroAndDescending "error_code"
  | verbosity : GoesWith .minusOneAscending "verbosity"
  | httpStatus : GoesWith .explicitKeyed "http_status"
  | other {enumeration : String} (hother : enumeration ∉ ["error_code", "verbosity", "http_status"]) :
      GoesWith .sequential enumeration

/-- The numbering of an enumeration is the one that is named, if one is, and else the one that goes with
its name. -/
inductive ChosenFor (enumeration : String) (numbering : Numbering) : Option String → Prop
  | named {text : String} (htext : numbering.IsNamed text) : ChosenFor enumeration numbering (some text)
  | unnamed (hname : numbering.GoesWith enumeration) : ChosenFor enumeration numbering none

theorem ofText?_eq_some_iff {text : String} {numbering : Numbering} :
    ofText? text = some numbering ↔ numbering.IsNamed text := by
  constructor
  · intro h
    have htext : numbering.text = text := by simpa using List.find?_some h
    rw [← htext]
    cases numbering with
    | sequential => exact .sequential
    | zeroAndDescending => exact .zeroAndDescending
    | minusOneAscending => exact .minusOneAscending
    | explicitKeyed => exact .explicitKeyed
  · rintro ⟨⟩ <;> decide

theorem ofEnumeration_eq_iff {enumeration : String} {numbering : Numbering} :
    ofEnumeration enumeration = numbering ↔ numbering.GoesWith enumeration := by
  constructor
  · rintro rfl
    unfold ofEnumeration
    split
    next hname => exact hname ▸ .errorCode
    next herror =>
      split
      next hname => exact hname ▸ .verbosity
      next hverbosity =>
        split
        next hname => exact hname ▸ .httpStatus
        next hstatus => exact .other (by simp [herror, hverbosity, hstatus])
  · intro h
    cases h with
    | errorCode | verbosity | httpStatus => decide
    | other hother =>
        simp only [List.mem_cons, List.not_mem_nil, or_false, not_or] at hother
        simp [ofEnumeration, hother]

theorem choose_eq_ok_iff {place : Place} {enumeration : String} {text? : Option String}
    {numbering : Numbering} :
    choose place enumeration text? = .ok numbering ↔ numbering.ChosenFor enumeration text? := by
  cases text? with
  | none =>
      rw [choose, Except.ok.injEq, ofEnumeration_eq_iff]
      constructor
      · exact .unnamed
      · intro h
        cases h with
        | unnamed hname => exact hname
  | some text =>
      constructor
      · intro h
        cases hnamed : ofText? text with
        | none =>
            rw [choose, hnamed] at h
            cases h
        | some named =>
            rw [choose, hnamed] at h
            cases h
            exact .named (ofText?_eq_some_iff.mp hnamed)
      · intro h
        cases h with
        | named htext => rw [choose, ofText?_eq_some_iff.mpr htext]

end Numbering

/-- A member is defined by an entry: its key is an identifier, or spells a number of 64 bits if the members
are keyed by their numbers, and the value is what the member is for. -/
inductive Member.DefinedBy (numbering : Numbering) : Member → String × Value → Prop
  | named {name help : String} (hnumbering : numbering ≠ .explicitKeyed) (hname : Identifier.IsValid name) :
      DefinedBy numbering ⟨name, help, none⟩ (name, .string help)
  | keyed {key help : String} {value : Int} (hnumbering : numbering = .explicitKeyed)
      (hkey : Spells key.toList value) (hlow : Int64.minValue.toInt ≤ value)
      (hhigh : value ≤ Int64.maxValue.toInt) :
      DefinedBy numbering ⟨key, help, some value⟩ (key, .string help)

theorem Member.DefinedBy.entry_eq {numbering : Numbering} {member : Member} {entry : String × Value}
    (h : member.DefinedBy numbering entry) : (member.name, Value.string member.help) = entry := by
  cases h <;> rfl

theorem Member.ofEntry_eq_ok_iff {place : Place} {enumeration name : String} {numbering : Numbering}
    {value : Value} {member : Member} :
    ofEntry place enumeration numbering name value = .ok member ↔
      member.DefinedBy numbering (name, value) := by
  constructor
  · intro h
    cases value with
    | string help =>
        by_cases hkeyed : numbering = .explicitKeyed
        · simp only [ofEntry, Value.asString?, if_pos hkeyed] at h
          split at h
          next number hnumber =>
            cases h
            obtain ⟨hspells, hlow, hhigh⟩ := readKeyInteger?_eq_some_iff.mp hnumber
            exact .keyed hkeyed hspells hlow hhigh
          next => cases h
        · simp only [ofEntry, Value.asString?, if_neg hkeyed] at h
          obtain ⟨⟨⟩, hname, heq⟩ := except_bind_eq_ok_iff.mp h
          cases heq
          exact .named hkeyed (Place.checkName_eq_ok_iff.mp hname)
    | _ => cases h
  · intro h
    cases h with
    | named hnumbering hname =>
        simp only [ofEntry, Value.asString?, if_neg hnumbering]
        exact except_bind_eq_ok_iff.mpr ⟨(), Place.checkName_eq_ok_iff.mpr hname, rfl⟩
    | keyed hnumbering hkey hlow hhigh =>
        simp only [ofEntry, Value.asString?, if_pos hnumbering,
          readKeyInteger?_eq_some_iff.mpr ⟨hkey, hlow, hhigh⟩]

namespace Enumeration

variable {place : Place} {name : String} {table : Table} {enumeration : Enumeration}

/-- The two forms in which an enumeration may be written. -/
inductive WrittenIn (name : String) (table : Table) : Enumeration → Prop
  | plain {numbering : Numbering} {members : List Member}
      (hform : ∀ members, ¬ ListsMembers (·.asString?.isSome) table members) (hnumbering : numbering.GoesWith name)
      (hmembers : List.Forall₂ (Member.DefinedBy numbering) members table) :
      WrittenIn name table ⟨name, numbering, none, members⟩
  | extended {entries : Table} {macroPrefix? text? : Option String} {numbering : Numbering}
      {members : List Member} (hform : ListsMembers (·.asString?.isSome) table entries)
      (hknown : ∀ key ∈ keys table, key = "members" ∨ key = "prefix" ∨ key = "numbering")
      (hstart : Gives table "prefix" Value.string macroPrefix?)
      (hvalid : ∀ macroPrefix ∈ macroPrefix?, Identifier.IsValid macroPrefix)
      (htext : Gives table "numbering" Value.string text?) (hnumbering : numbering.ChosenFor name text?)
      (hmembers : List.Forall₂ (Member.DefinedBy numbering) members entries) :
      WrittenIn name table ⟨name, numbering, macroPrefix?, members⟩

/-- The steps by which an enumeration is read. -/
theorem ofTable_eq_ok_iff :
    ofTable place name table = .ok enumeration ↔
      Identifier.IsValid name ∧ ∃ extension entries numbering members,
        Extension.split (place.enter name) name (·.asString?.isSome) table = .ok (extension, entries) ∧
          (∀ macroPrefix ∈ extension.macroPrefix?, Identifier.IsValid macroPrefix) ∧
          numbering.ChosenFor name extension.numbering? ∧
          entries.mapM (fun (member, value) => Member.ofEntry (place.enter name) name numbering member value)
            = .ok members ∧
          enumeration = ⟨name, numbering, extension.macroPrefix?, members⟩ := by
  constructor
  · intro h
    obtain ⟨⟨⟩, hname, h⟩ := except_bind_eq_ok_iff.mp h
    obtain ⟨⟨extension, entries⟩, hsplit, h⟩ := except_bind_eq_ok_iff.mp h
    obtain ⟨⟨⟩, hstart, h⟩ := except_bind_eq_ok_iff.mp h
    obtain ⟨numbering, hnumbering, h⟩ := except_bind_eq_ok_iff.mp h
    obtain ⟨members, hmembers, h⟩ := except_bind_eq_ok_iff.mp h
    cases h
    exact ⟨Place.checkName_eq_ok_iff.mp hname, extension, entries, numbering, members, hsplit,
      checkMacroPrefix_eq_ok_iff.mp hstart, Numbering.choose_eq_ok_iff.mp hnumbering, hmembers, rfl⟩
  · rintro ⟨hname, extension, entries, numbering, members, hsplit, hstart, hnumbering, hmembers, rfl⟩
    exact except_bind_eq_ok_iff.mpr ⟨(), Place.checkName_eq_ok_iff.mpr hname,
      except_bind_eq_ok_iff.mpr ⟨(extension, entries), hsplit,
      except_bind_eq_ok_iff.mpr ⟨(), checkMacroPrefix_eq_ok_iff.mpr hstart,
      except_bind_eq_ok_iff.mpr ⟨numbering, Numbering.choose_eq_ok_iff.mpr hnumbering,
      except_bind_eq_ok_iff.mpr ⟨members, hmembers, rfl⟩⟩⟩⟩⟩

theorem members_eq_ok_iff {numbering : Numbering} {members : List Member} :
    table.mapM (fun (member, value) => Member.ofEntry place name numbering member value) = .ok members ↔
      List.Forall₂ (Member.DefinedBy numbering) members table :=
  mapM_eq_ok_iff fun _ _ _ => Member.ofEntry_eq_ok_iff

/-- What is read as an enumeration is exactly what is written in one of the two forms. -/
theorem ofTable_eq_ok_iff_writtenIn (hname : Identifier.IsValid name) (hnodup : (keys table).Nodup) :
    ofTable place name table = .ok enumeration ↔ WrittenIn name table enumeration := by
  rw [ofTable_eq_ok_iff]
  constructor
  · rintro ⟨-, extension, entries, numbering, members, hsplit, hvalid, hnumbering, hmembers, rfl⟩
    rw [members_eq_ok_iff] at hmembers
    rcases (Extension.split_eq_ok_iff hnodup).mp hsplit with ⟨hform, rfl, rfl⟩ | ⟨hform, hwritten⟩
    · cases hnumbering with
      | unnamed hname => exact .plain hform hname hmembers
    · exact .extended hform hwritten.known hwritten.macroPrefix hvalid hwritten.numbering hnumbering hmembers
  · intro h
    cases h with
    | @plain numbering members hform hnumbering hmembers =>
        exact ⟨hname, ⟨none, none⟩, table, numbering, members,
          (Extension.split_eq_ok_iff hnodup).mpr (Or.inl ⟨hform, rfl, rfl⟩), by simp, .unnamed hnumbering,
          members_eq_ok_iff.mpr hmembers, rfl⟩
    | @extended entries macroPrefix? text? numbering members hform hknown hstart hvalid htext hnumbering
        hmembers =>
        exact ⟨hname, ⟨macroPrefix?, text?⟩, entries, numbering, members,
          (Extension.split_eq_ok_iff hnodup).mpr (Or.inr ⟨hform, hknown, hstart, htext⟩), hvalid, hnumbering,
          members_eq_ok_iff.mpr hmembers, rfl⟩

/-- A table is accepted as an enumeration exactly if it is written in one of the two forms, and what is
read is what is written. In the plain form each entry is that of a member, whatever its key. -/
theorem memberTable_accepted_iff (place : Place) {name : String} {table : Table} (hname : Identifier.IsValid name)
    (hnodup : (keys table).Nodup) :
    (∀ enumeration, ofTable place name table = .ok enumeration ↔ WrittenIn name table enumeration) ∧
      ∀ enumeration, ofTable place name table = .ok enumeration →
        (∀ members, ¬ ListsMembers (·.asString?.isSome) table members) →
          enumeration.members.map (fun member => (member.name, Value.string member.help)) = table := by
  refine ⟨fun enumeration => ofTable_eq_ok_iff_writtenIn hname hnodup, fun enumeration h hplain => ?_⟩
  cases (ofTable_eq_ok_iff_writtenIn hname hnodup).mp h with
  | plain _ _ hmembers =>
      rw [← List.forall₂_eq_eq_eq, List.forall₂_map_left_iff]
      exact hmembers.imp fun _ _ hmember => hmember.entry_eq
  | extended hform => exact absurd hform (hplain _)

end Enumeration

/-- An enumeration that is keyed because of its name. -/
def statusTable : Table := [("200", .string "found"), ("-1", .string "not sent")]

/-- An enumeration that is keyed because it says so, with a key that has a sign and a zero in front. -/
def signalTable : Table :=
  [ ("members", .table [("+08", .string "suspend"), ("-1", .string "none")]),
    ("numbering", .string "explicit_keyed") ]

theorem Enumeration.memberTable_accepted_iff_keyed :
    (Identifier.IsValid "http_status" ∧ (keys statusTable).Nodup ∧
        Enumeration.ofTable (.start "core_api.toml" "") "http_status" statusTable = .ok
          ⟨"http_status", .explicitKeyed, none, [⟨"200", "found", some 200⟩, ⟨"-1", "not sent", some (-1)⟩]⟩) ∧
      Identifier.IsValid "signal" ∧ (keys signalTable).Nodup ∧
        Enumeration.ofTable (.start "core_api.toml" "") "signal" signalTable = .ok
          ⟨"signal", .explicitKeyed, none, [⟨"+08", "suspend", some 8⟩, ⟨"-1", "none", some (-1)⟩]⟩ := by
  have hdefined {key help : String} {value : Int} (hkey : Spells key.toList value)
      (hlow : Int64.minValue.toInt ≤ value) (hhigh : value ≤ Int64.maxValue.toInt) :
      Member.DefinedBy .explicitKeyed ⟨key, help, some value⟩ (key, .string help) := .keyed rfl hkey hlow hhigh
  have hfound : Spells "200".toList 200 :=
    @Spells.unsigned "200".toList (by decide) (List.all_eq_true.mp (by decide))
  have height : Spells "+08".toList 8 :=
    @Spells.positive "08".toList (by decide) (List.all_eq_true.mp (by decide))
  have hone : Spells "-1".toList (-1) :=
    @Spells.negative "1".toList (by decide) (List.all_eq_true.mp (by decide))
  constructor
  · have hname : Identifier.IsValid "http_status" := ⟨by decide, by decide⟩
    have hnodup : (keys statusTable).Nodup := by decide
    have hplain : ∀ members, ¬ ListsMembers (·.asString?.isSome) statusTable members :=
      fun _ hmembers => by simpa [statusTable] using hmembers.1
    refine ⟨hname, hnodup, ((Enumeration.memberTable_accepted_iff _ hname hnodup).1 _).mpr ?_⟩
    exact .plain hplain .httpStatus (.cons (hdefined hfound (by decide) (by decide))
      (.cons (hdefined hone (by decide) (by decide)) .nil))
  · have hname : Identifier.IsValid "signal" := ⟨by decide, by decide⟩
    have hnodup : (keys signalTable).Nodup := by decide
    have hmembers : ListsMembers (·.asString?.isSome) signalTable
        [("+08", .string "suspend"), ("-1", .string "none")] :=
      ⟨by simp [signalTable], by simp [Value.asString?]⟩
    refine ⟨hname, hnodup, ((Enumeration.memberTable_accepted_iff _ hname hnodup).1 _).mpr ?_⟩
    exact @Enumeration.WrittenIn.extended "signal" signalTable _ none (some "explicit_keyed") _ _ hmembers
      (by simp [signalTable, keys]) (by simp [Gives, signalTable, keys]) (by simp) (by simp [Gives, signalTable])
      (.named .explicitKeyed) (.cons (hdefined height (by decide) (by decide))
        (.cons (hdefined hone (by decide) (by decide)) .nil))

end Bindery
