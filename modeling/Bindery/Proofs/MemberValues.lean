import Bindery.Proofs.ErrorTexts

/-!
# Values of members

The members of an enumeration have different values, whatever its numbering, unless it is numbered by its keys
and two of them spell one number: that they differ as texts is all that the loader sees to.
-/

namespace Bindery

open Text Naming Declaration

namespace Toml

/-- The whole number that a text spells as a sign and digits, without what makes no difference to it: a plus
sign, zeros in front, and the sign of zero. -/
def numeral (text : List Char) : Bool × List Char :=
  let (negative, digits) := splitSign text
  let digits := digits.dropWhile (· = '0')
  (negative && !digits.isEmpty, digits)

/-- Digits without a zero in front. -/
structure Leading (digits : List Char) : Prop where
  isDigit : ∀ c ∈ digits, c.isDigit = true
  head?_ne : digits.head? ≠ some '0'

section Decimal

variable {digits first second text other : List Char} {value number : Int}

theorem decimal_cons (c : Char) (digits : List Char) :
    decimal (c :: digits) = decimal digits + 10 ^ digits.length * (c.toNat - '0'.toNat) := by
  simp [decimal, Nat.ofDigits_append]

/-- Zeros in front make no difference. -/
theorem decimal_dropWhile (digits : List Char) : decimal (digits.dropWhile (· = '0')) = decimal digits := by
  induction digits with
  | nil => rfl
  | cons c rest ih =>
      by_cases hzero : c = '0'
      · rw [List.dropWhile_cons_of_pos (by simpa using hzero), ih, decimal_cons, hzero]
        simp
      · rw [List.dropWhile_cons_of_neg (by simpa using hzero)]

theorem leading_dropWhile (h : ∀ c ∈ digits, c.isDigit = true) : Leading (digits.dropWhile (· = '0')) where
  isDigit c hc := h c ((List.dropWhile_sublist _).subset hc)
  head?_ne hhead := by
    have hstop := List.head?_dropWhile_not (· = '0') digits
    rw [hhead] at hstop
    simp at hstop

theorem toNat_of_isDigit {c : Char} (h : c.isDigit = true) : '0'.toNat ≤ c.toNat ∧ c.toNat ≤ '9'.toNat := by
  simpa [Char.isDigit, UInt32.le_iff_toNat_le] using h

/-- Digits without a zero in front are those of their number. -/
theorem Leading.digits_decimal (h : Leading digits) :
    Nat.digits 10 (decimal digits) = digits.reverse.map fun c => c.toNat - '0'.toNat := by
  refine Nat.digits_ofDigits 10 (by decide) _ ?_ ?_
  · intro place hplace
    obtain ⟨c, hc, rfl⟩ := List.mem_map.mp hplace
    have hrange := toNat_of_isDigit (h.isDigit c (List.mem_reverse.mp hc))
    have hnine : '9'.toNat = 57 := rfl
    have hzero : '0'.toNat = 48 := rfl
    omega
  · intro hsome hlast
    cases digits with
    | nil => simp at hsome
    | cons c rest =>
        have hrange := toNat_of_isDigit (h.isDigit c List.mem_cons_self)
        have hc : c = '0' := by
          refine Char.toNat_inj.mp (Nat.le_antisymm ?_ hrange.1)
          simpa [Nat.sub_eq_zero_iff_le] using hlast
        exact h.head?_ne (by rw [hc]; rfl)

theorem Leading.eq_of_decimal_eq (h : Leading first) (h' : Leading second) (heq : decimal first = decimal second) :
    first = second := by
  have hplaces := congrArg (Nat.digits 10) heq
  rw [h.digits_decimal, h'.digits_decimal, List.map_reverse, List.map_reverse, List.reverse_inj] at hplaces
  -- a digit can be told from its place value
  have hback {digits : List Char} (hdigits : ∀ c ∈ digits, c.isDigit = true) :
      (digits.map fun c => c.toNat - '0'.toNat).map (fun place => Char.ofNat (place + '0'.toNat)) = digits := by
    calc _ = digits.map id := by
            rw [List.map_map]
            refine List.map_congr_left fun c hc => ?_
            rw [Function.comp_apply, Nat.sub_add_cancel (toNat_of_isDigit (hdigits c hc)).1, Char.ofNat_toNat]
            rfl
      _ = digits := List.map_id digits
  rw [← hback h.isDigit, hplaces, hback h'.isDigit]

theorem Leading.decimal_eq_zero_iff (h : Leading digits) : decimal digits = 0 ↔ digits = [] := by
  constructor
  · intro hzero
    exact h.eq_of_decimal_eq ⟨by simp, by simp⟩ (by rw [hzero]; rfl)
  · rintro rfl
    rfl

/-- A text spells the number that its numeral is. -/
theorem Spells.eq_signed (h : Spells text value) :
    Leading (numeral text).2 ∧ ((numeral text).1 = true → (numeral text).2 ≠ []) ∧
      value = signed (numeral text).1 (decimal (numeral text).2) := by
  cases h with
  | @unsigned digits _ hdigits =>
      rw [numeral, splitSign_of_isDigit hdigits]
      refine ⟨leading_dropWhile hdigits, by simp, ?_⟩
      simp [signed, decimal_dropWhile]
  | @positive digits hsome hdigits =>
      refine ⟨leading_dropWhile hdigits, by simp [numeral, splitSign], ?_⟩
      simp [numeral, splitSign, signed, decimal_dropWhile]
  | @negative digits hsome hdigits =>
      have hleading := leading_dropWhile hdigits
      have hdecimal := decimal_dropWhile digits
      simp only [numeral, splitSign]
      generalize digits.dropWhile (· = '0') = places at hleading hdecimal
      refine ⟨hleading, by cases places <;> simp, ?_⟩
      cases places with
      | nil =>
        rw [← hdecimal]
        rfl
      | cons c rest => rw [← hdecimal]; rfl

theorem numeral_eq_iff (h : Spells text value) (h' : Spells other number) :
    numeral text = numeral other ↔ value = number := by
  obtain ⟨hleading, hsome, rfl⟩ := h.eq_signed
  obtain ⟨hleading', hsome', rfl⟩ := h'.eq_signed
  generalize numeral text = first at *
  generalize numeral other = second at *
  obtain ⟨negative, digits⟩ := first
  obtain ⟨negative', digits'⟩ := second
  dsimp only at *
  constructor
  · intro heq
    cases heq
    rfl
  · intro heq
    -- a sign stands before a number that is not zero
    have hzero : negative = true → decimal digits ≠ 0 :=
      fun hnegative heq => hsome hnegative (hleading.decimal_eq_zero_iff.mp heq)
    have hzero' : negative' = true → decimal digits' ≠ 0 :=
      fun hnegative heq => hsome' hnegative (hleading'.decimal_eq_zero_iff.mp heq)
    have hsame : negative = negative' ∧ decimal digits = decimal digits' := by
      generalize decimal digits = size at heq hzero
      generalize decimal digits' = size' at heq hzero'
      cases negative <;> cases negative' <;> simp [signed] at heq hzero hzero' ⊢ <;> omega
    rw [hsame.1, hleading.eq_of_decimal_eq hleading' hsame.2]

end Decimal
end Toml
namespace Enumeration

variable {enumeration : Enumeration} {interface : Interface}

/-- No two keys of an enumeration that is numbered by its keys spell one number. -/
def KeysDiffer (enumeration : Enumeration) : Prop :=
  enumeration.numbering = .explicitKeyed →
    (enumeration.members.map fun member => Toml.numeral member.name.toList).Nodup

/-- Values that follow from the places of the members are different when places are told apart. -/
theorem nodup_values_of_places (place : Nat → Int) (hplace : place.Injective)
    (h : ∀ position member, enumeration.valueAt position member = place position) :
    (enumeration.values.map Prod.snd).Nodup := by
  have hvalues : enumeration.values.map Prod.snd = (enumeration.members.zipIdx.map Prod.snd).map place := by
    rw [values, List.map_map, List.map_map]
    exact List.map_congr_left fun entry _ => h entry.2 entry.1
  rw [hvalues, List.zipIdx_map_snd]
  exact List.Nodup.map hplace List.nodup_range'

/-- The values that keys spell are different when the keys are so as numerals. -/
theorem Sound.nodup_map_snd_values_of_keyed (h : enumeration.Sound) (hkeyed : enumeration.numbering = .explicitKeyed) :
    (enumeration.values.map Prod.snd).Nodup ↔
      (enumeration.members.map fun member => Toml.numeral member.name.toList).Nodup := by
  have hspelled : ∀ member ∈ enumeration.members,
      ∃ value, member.value? = some value ∧ Toml.Spells member.name.toList value := by
    intro member hmember
    have hsound := h.members member hmember
    obtain ⟨value, hvalue⟩ := Option.isSome_iff_exists.mp (hsound.keyed.mpr hkeyed)
    exact ⟨value, hvalue, hsound.spelled value hvalue⟩
  have hvalues : enumeration.values.map Prod.snd = enumeration.members.map fun member => member.value?.getD 0 := by
    have hentry : ∀ entry ∈ enumeration.members.zipIdx,
        enumeration.valueAt entry.2 entry.1 = entry.1.value?.getD 0 := by
      intro entry hentry
      obtain ⟨value, hvalue, -⟩ := hspelled entry.1 (List.fst_mem_of_mem_zipIdx hentry)
      simp [valueAt, hkeyed, hvalue]
    calc enumeration.values.map Prod.snd
        = enumeration.members.zipIdx.map fun entry => enumeration.valueAt entry.2 entry.1 := by
          rw [values, List.map_map]
          rfl
      _ = enumeration.members.zipIdx.map fun entry => entry.1.value?.getD 0 := List.map_congr_left hentry
      _ = (enumeration.members.zipIdx.map Prod.fst).map fun member => member.value?.getD 0 := by
          rw [List.map_map]
          rfl
      _ = enumeration.members.map fun member => member.value?.getD 0 := by rw [List.zipIdx_map_fst]
  have hmembers : enumeration.members.Nodup := .of_map _ h.member_names_nodup
  rw [hvalues, List.nodup_map_iff_inj_on hmembers, List.nodup_map_iff_inj_on hmembers]
  refine forall₂_congr fun first hfirst => forall₂_congr fun second hsecond => imp_congr_left ?_
  obtain ⟨value, hvalue, hspells⟩ := hspelled first hfirst
  obtain ⟨number, hnumber, hspells'⟩ := hspelled second hsecond
  rw [hvalue, hnumber, Toml.numeral_eq_iff hspells hspells']
  rfl

/-- The values of members are different unless two keys spell one number. -/
theorem Sound.nodup_map_snd_values_iff (h : enumeration.Sound) :
    (enumeration.values.map Prod.snd).Nodup ↔ enumeration.KeysDiffer := by
  unfold KeysDiffer
  have hother {numbering : Numbering} (hnumbering : enumeration.numbering = numbering)
      (hne : numbering ≠ .explicitKeyed) : (enumeration.numbering = .explicitKeyed →
        (enumeration.members.map fun member => Toml.numeral member.name.toList).Nodup) :=
    fun hkeyed => absurd (hnumbering.symm.trans hkeyed) hne
  cases hnumbering : enumeration.numbering with
  | sequential =>
      refine iff_of_true (nodup_values_of_places (fun position => position) Int.ofNat_injective ?_) nofun
      intro position member
      rw [valueAt, hnumbering]
  | zeroAndDescending =>
      refine iff_of_true (nodup_values_of_places (fun position => -(position : Int)) ?_ ?_) nofun
      · exact neg_injective.comp Int.ofNat_injective
      · intro position member
        rw [valueAt, hnumbering]
  | minusOneAscending =>
      refine iff_of_true (nodup_values_of_places (fun position => (position : Int) - 1) ?_ ?_) nofun
      · exact (sub_left_injective (b := (1 : Int))).comp Int.ofNat_injective
      · intro position member
        rw [valueAt, hnumbering]
  | explicitKeyed => exact (h.nodup_map_snd_values_of_keyed hnumbering).trans (by simp)

/-! ## Cases -/

/-- The values of the cases of a switch, where names with values are known. -/
def caseValues (known : List (String × Int)) (cases : List String) : List (Option Int) :=
  cases.map fun line => (label? line).bind fun name => known.lookup name

/-- When the cases are labelled with the known names in order, their values are different exactly if names and
values are. -/
theorem nodup_caseValues_iff {known : List (String × Int)} {cases : List String}
    (h : cases.map label? = known.map fun entry => some entry.1) :
    (caseValues known cases).Nodup ↔ (known.map Prod.fst).Nodup ∧ (known.map Prod.snd).Nodup := by
  have hcases : caseValues known cases = (known.map Prod.fst).map fun name => known.lookup name := by
    calc caseValues known cases = (cases.map label?).map (·.bind fun name => known.lookup name) := by
          rw [List.map_map]
          rfl
      _ = _ := by
          rw [h, List.map_map, List.map_map]
          rfl
  have hread (hnames : (known.map Prod.fst).Nodup) :
      (known.map Prod.fst).map (fun name => known.lookup name) = (known.map Prod.snd).map some := by
    rw [List.map_map, List.map_map]
    refine List.map_congr_left fun entry hentry => ?_
    have hlookup : (known.map fun entry => (entry.1, entry.2)).lookup entry.1 = some entry.2 :=
      lookup_map_of_mem hnames hentry
    rwa [List.map_id'] at hlookup
  have hsome : Function.Injective (some : Int → Option Int) := Option.some_injective Int
  rw [hcases]
  constructor
  · intro hnodup
    have hnames := hnodup.of_map
    rw [hread hnames, List.nodup_map_iff hsome] at hnodup
    exact ⟨hnames, hnodup⟩
  · rintro ⟨hnames, hvalues⟩
    rw [hread hnames]
    exact hvalues.map hsome

/-- The macros of the members with their values. -/
def macros (enumeration : Enumeration) : List (String × Int) :=
  enumeration.values.map fun entry => (enumeration.macroName entry.1.name entry.2, entry.2)

/-- The members as C++ refers to them, with their values. -/
def cppEnumerators (enumeration : Enumeration) : List (String × Int) :=
  enumeration.values.map fun entry => (pascalCase enumeration.name ++ "::" ++ kName entry.1.name, entry.2)

theorem Named.map_label?_errorCases (h : enumeration.Named)
    (hcodes : interface.enumeration? errorCodes = some enumeration) :
    (errorCases interface).map label? = enumeration.macros.map fun entry => some entry.1 := by
  rw [errorCases_eq hcodes, macros, List.map_map, List.map_map]
  refine List.map_congr_left fun entry hentry => ?_
  have hname := (h.macroName (h.of_mem_values hentry) entry.2).graphic
  simp only [Function.comp_apply]
  generalize enumeration.macroName entry.1.name entry.2 = name at hname ⊢
  have hline : errorCase name (escape entry.1.help)
      = "    " ++ "case " ++ name ++ ":" ++ (" return \"" ++ (escape entry.1.help ++ "\";")) :=
    String.toList_inj.mp (by simp [errorCase, String.toList_append])
  rw [hline]
  exact label?_case (by decide) hname (blankFirst_of_ne (by simp) (by decide))

theorem Named.map_label?_cppCases (h : enumeration.Named) (hname : Nominal enumeration.name) :
    enumeration.cppCases.map label? = enumeration.cppEnumerators.map fun entry => some entry.1 := by
  unfold cppCases cppEnumerators
  generalize columnWidth (enumeration.members.map fun member => kName member.name) + 1 = width
  rw [← values_map_fst, List.map_map, List.map_map, List.map_map]
  refine List.map_congr_left fun entry hentry => ?_
  have hlabel : Graphic (pascalCase enumeration.name ++ "::" ++ kName entry.1.name) :=
    graphic_append.mpr ⟨graphic_append.mpr ⟨(nominal_pascalCase hname).graphic, by decide⟩,
      (nominal_kName (h.of_mem_values hentry)).graphic⟩
  simp only [Function.comp_apply]
  generalize kName entry.1.name = name at hlabel ⊢
  unfold padRight
  generalize hgap : String.ofList (List.replicate (width - (name ++ ":").length) ' ') = gap
  have hline : "  case " ++ pascalCase enumeration.name ++ "::" ++ (name ++ ":" ++ gap) ++ " return \"" ++ name
        ++ "\";"
      = "  " ++ "case " ++ (pascalCase enumeration.name ++ "::" ++ name) ++ ":"
        ++ (gap ++ (" return \"" ++ (name ++ "\";"))) :=
    String.toList_inj.mp (by simp [String.toList_append])
  rw [hline]
  exact label?_case (by decide) hlabel ((hgap ▸ allBlank_replicate _).blankFirst_append
    (blankFirst_of_ne (by simp) (by decide)))

end Enumeration

namespace Interface

open Enumeration

variable {file source : String} {interface : Interface} {enumeration : Enumeration}

/-- The members of an enumeration have different values unless it is numbered by its keys and two of them spell
one number. The switches over the members have a case for each of them, and no two of the same value unless the
values are the same or two members go by one name. -/
theorem member_values_nodup_iff (hload : load file source = .ok interface)
    (hmem : enumeration ∈ interface.enumerations) :
    ((enumeration.values.map Prod.snd).Nodup ↔ enumeration.KeysDiffer) ∧
      ((caseValues enumeration.cppEnumerators enumeration.cppCases).Nodup ↔
        (enumeration.members.map fun member => kName member.name).Nodup ∧ enumeration.KeysDiffer) ∧
      (interface.enumeration? errorCodes = some enumeration →
        ((caseValues enumeration.macros (errorCases interface)).Nodup ↔
          (enumeration.macros.map Prod.fst).Nodup ∧ enumeration.KeysDiffer)) := by
  have hsound := (load_sound hload).1.enumerations enumeration hmem
  have hvalues := hsound.nodup_map_snd_values_iff
  refine ⟨hvalues, ?_, fun hcodes => ?_⟩
  · have hlabels := hsound.named.map_label?_cppCases (nominal_of_isValid hsound.name_valid)
    have hsnd : enumeration.cppEnumerators.map Prod.snd = enumeration.values.map Prod.snd := by
      rw [cppEnumerators, List.map_map]
      rfl
    have hfst : enumeration.cppEnumerators.map Prod.fst = (enumeration.members.map fun member =>
        kName member.name).map fun name => pascalCase enumeration.name ++ "::" ++ name := by
      rw [cppEnumerators, ← values_map_fst, List.map_map, List.map_map, List.map_map]
      rfl
    rw [nodup_caseValues_iff hlabels, hsnd, hvalues, hfst, List.nodup_map_iff]
    intro first second heq
    simpa [← String.toList_inj, String.toList_append] using heq
  · have hsnd : enumeration.macros.map Prod.snd = enumeration.values.map Prod.snd := by
      rw [macros, List.map_map]
      rfl
    rw [nodup_caseValues_iff (hsound.named.map_label?_errorCases hcodes), hsnd, hvalues]

end Interface

namespace Sample

/-- A description with keys that spell one number, and with keys that do not. -/
def keyedMembers : String :=
"copyright = \"\"

[version]
major = 1
minor = 2
patch = 3

[constants]

[functions]

[enums.http_status]
200 = \"Found.\"
0200 = \"Found again.\"

[enums.level]
numbering = \"explicit_keyed\"

[enums.level.members]
10 = \"high\"
\"+1\" = \"low\"
-0 = \"none\"
-1 = \"below\"

[flags]

[type_mappings]
"

def status : Enumeration :=
  ⟨"http_status", .explicitKeyed, none, [⟨"200", "Found.", some 200⟩, ⟨"0200", "Found again.", some 200⟩]⟩

def level : Enumeration :=
  ⟨"level", .explicitKeyed, none, [⟨"10", "high", some 10⟩, ⟨"+1", "low", some 1⟩, ⟨"-0", "none", some 0⟩,
    ⟨"-1", "below", some (-1)⟩]⟩

set_option maxRecDepth 10000 in
theorem exists_keyedMembers : ∃ interface, Interface.load "core_api.toml" keyedMembers = .ok interface ∧
    interface.enumerations = [status, level] :=
  Interface.exists_load_of_described String.toList_ofList (by decide)

end Sample

namespace Interface

open Enumeration

/-- Keys with a sign and a zero are told apart, and so are their cases. -/
theorem member_values_nodup_iff_level : ∃ interface, load "core_api.toml" Sample.keyedMembers = .ok interface ∧
    Sample.level ∈ interface.enumerations ∧ (Sample.level.values.map Prod.snd).Nodup ∧
      (caseValues Sample.level.cppEnumerators Sample.level.cppCases).Nodup := by
  obtain ⟨interface, hload, henumerations⟩ := Sample.exists_keyedMembers
  have hmem : Sample.level ∈ interface.enumerations := by simp [henumerations]
  have hdiffer : Sample.level.KeysDiffer := fun _ => by decide
  obtain ⟨hvalues, hcases, -⟩ := member_values_nodup_iff hload hmem
  exact ⟨interface, hload, hmem, hvalues.mpr hdiffer, hcases.mpr ⟨by decide, hdiffer⟩⟩

/-- Two keys that differ by a zero in front have one value, and so have their cases. -/
theorem member_values_doubled : ∃ interface, load "core_api.toml" Sample.keyedMembers = .ok interface ∧
    Sample.status ∈ interface.enumerations ∧ Sample.status.values.map Prod.snd = [200, 200] ∧
      ¬ (Sample.status.values.map Prod.snd).Nodup ∧
      caseValues Sample.status.cppEnumerators Sample.status.cppCases = [some 200, some 200] := by
  obtain ⟨interface, hload, henumerations⟩ := Sample.exists_keyedMembers
  refine ⟨interface, hload, by simp [henumerations], by decide, by decide, ?_⟩
  decide

end Interface

end Bindery
