import Bindery.Proofs.FlagTexts

/-!
# Decomposition into flags

The text that C++ finds for a value lists flags that make it up. It does so for every value that flags
make up, and has the text for no flags for zero alone, exactly if the flags without bits are named like
that text, and a single bit that is named so has another name as well.
-/

namespace Bindery

open Text Naming

namespace FlagText

def bits (entry : Flag × Nat) : BitVec 32 := .ofNat 32 entry.2

/-- The flags that a value has, tried one after the other, where each that it has is taken out of it. -/
def listed (value : BitVec 32) : List (Flag × Nat) → List (Flag × Nat)
  | [] => []
  | entry :: rest =>
      if value &&& bits entry = bits entry then entry :: listed (value &&& ~~~bits entry) rest
      else listed value rest

/-- What is left of the value then. -/
def remainder (value : BitVec 32) : List (Flag × Nat) → BitVec 32
  | [] => value
  | entry :: rest =>
      if value &&& bits entry = bits entry then remainder (value &&& ~~~bits entry) rest
      else remainder value rest

/-- The names of flags, each with a separator behind it. -/
def spelled (entries : List (Flag × Nat)) : String :=
  entries.foldr (fun entry text => kName entry.1.name ++ " | " ++ text) ""

/-- The text for flags. -/
def textFor (entries : List (Flag × Nat)) : String :=
  if entries.isEmpty then "kNone" else join " | " (entries.map fun entry => kName entry.1.name)

theorem spelled_append (first second : List (Flag × Nat)) :
    spelled (first ++ second) = spelled first ++ spelled second := by
  induction first with
  | nil => simp [spelled]
  | cons entry rest ih =>
      simp only [spelled, List.cons_append, List.foldr_cons, String.append_assoc] at ih ⊢
      rw [ih]

theorem spelled_eq {entries : List (Flag × Nat)} (hsome : entries ≠ []) :
    spelled entries = join " | " (entries.map fun entry => kName entry.1.name) ++ " | " := by
  induction entries with
  | nil => exact absurd rfl hsome
  | cons entry rest ih =>
      cases rest with
      | nil => simp [spelled, join]
      | cons next others =>
          have hrest := ih (List.cons_ne_nil next others)
          rw [join, List.map_cons] at hrest
          rw [join, List.map_cons, List.map_cons, String.intercalate_cons_cons, String.append_assoc,
            ← hrest]
          simp [spelled, String.append_assoc]

/-- The separator behind the last name is taken off. -/
theorem result_spelled (value : BitVec 32) (entries : List (Flag × Nat)) :
    State.result ⟨value, spelled entries, false⟩ "kNone" = textFor entries := by
  cases entries with
  | nil => rfl
  | cons entry rest =>
      have hlength : (" | " : String).toList.length = 3 := by decide
      rw [State.result, textFor, spelled_eq (List.cons_ne_nil entry rest)]
      generalize join " | " ((entry :: rest).map fun entry => kName entry.1.name) = text
      rw [if_neg (by simp), if_neg (by simp), String.toList_append, List.length_append, hlength,
        Nat.add_sub_cancel, List.take_left, String.ofList_toList]

section Run

variable {env : String → Option (BitVec 32)} {value : BitVec 32} {text : String} {entry : Flag × Nat}
  {entries : List (Flag × Nat)} {rest : List Statement}

/-- One flag is listed and taken out of the value, or the value does not have it. -/
theorem run_listing (henv : env (kName entry.1.name) = some (bits entry)) :
    run env ⟨value, text, false⟩ (listing (kName entry.1.name) ++ rest)
      = if value &&& bits entry = bits entry then
          run env ⟨value &&& ~~~bits entry, kName entry.1.name ++ " | " ++ text, false⟩ rest
        else run env ⟨value, text, false⟩ rest := by
  by_cases hhas : value &&& bits entry = bits entry
  · simp [listing, run, State.step, henv, hhas]
  · simp [listing, run, State.step, henv, hhas]

theorem run_listings (henv : ∀ entry ∈ entries, env (kName entry.1.name) = some (bits entry)) :
    run env ⟨value, text, false⟩ ((entries.map fun entry => kName entry.1.name).flatMap listing ++ rest)
      = run env ⟨remainder value entries, spelled (listed value entries).reverse ++ text, false⟩ rest := by
  induction entries generalizing value text with
  | nil => simp [remainder, listed, spelled]
  | cons entry others ih =>
      obtain ⟨hentry, hothers⟩ := List.forall_mem_cons.mp henv
      rw [List.map_cons, List.flatMap_cons, List.append_assoc, run_listing hentry, remainder, listed]
      split
      · rw [ih hothers, List.reverse_cons, spelled_append]
        simp [spelled, String.append_assoc]
      · rw [ih hothers]

/-- The text for a value is that for the flags that are listed. -/
theorem run_program (henv : ∀ entry ∈ entries, env (kName entry.1.name) = some (bits entry)) :
    run env ⟨value, "", false⟩ (program (entries.map fun entry => kName entry.1.name))
      = some (textFor (listed value entries).reverse) := by
  have hdeclare (rest : List Statement) :
      run env ⟨value, "", false⟩ (.declare :: rest) = run env ⟨value, "", false⟩ rest := rfl
  rw [program, List.cons_append, hdeclare, run_listings henv, String.append_empty, run, result_spelled]

end Run

/-! ## Bits -/

/-- All bits of flags. -/
def total (entries : List (Flag × Nat)) : Nat :=
  entries.foldr (fun entry number => entry.2 ||| number) 0

section Bits

variable {value mask : BitVec 32} {entry : Flag × Nat} {entries : List (Flag × Nat)} {bit : Nat}

theorem testBit_total :
    (total entries).testBit bit = true ↔ ∃ entry ∈ entries, entry.2.testBit bit = true := by
  induction entries with
  | nil => simp [total]
  | cons entry rest ih =>
      rw [total, List.foldr_cons, Nat.testBit_or, Bool.or_eq_true, List.exists_mem_cons_iff]
      exact or_congr_right ih

theorem total_lt {width : Nat} (h : ∀ entry ∈ entries, entry.2 < 2 ^ width) :
    total entries < 2 ^ width := by
  induction entries with
  | nil => exact Nat.two_pow_pos width
  | cons entry rest ih =>
      obtain ⟨hentry, hrest⟩ := List.forall_mem_cons.mp h
      exact Nat.or_lt_two_pow hentry (ih hrest)

theorem and_eq_right_iff :
    value &&& mask = mask ↔ ∀ bit, mask.getLsbD bit = true → value.getLsbD bit = true := by
  constructor
  · intro h bit hbit
    rw [← h, BitVec.getLsbD_and, Bool.and_eq_true] at hbit
    exact hbit.1
  · intro h
    apply BitVec.eq_of_getLsbD_eq
    intro bit _
    rw [BitVec.getLsbD_and]
    cases hbit : mask.getLsbD bit with
    | false => simp
    | true => simp [h bit hbit]

theorem listed_sublist : (listed value entries).Sublist entries := by
  induction entries generalizing value with
  | nil => exact .slnil
  | cons entry rest ih =>
      rw [listed]
      split
      · exact ih.cons_cons entry
      · exact ih.cons entry

/-- What is left over has no bits that the value does not have. -/
theorem getLsbD_of_remainder (h : (remainder value entries).getLsbD bit = true) :
    value.getLsbD bit = true := by
  induction entries generalizing value with
  | nil => exact h
  | cons entry rest ih =>
      rw [remainder] at h
      split at h
      · have hbit := ih h
        rw [BitVec.getLsbD_and, Bool.and_eq_true] at hbit
        exact hbit.1
      · exact ih h

/-- The flags that are listed and what is left over make up the value. -/
theorem total_or_remainder :
    BitVec.ofNat 32 (total (listed value entries)) ||| remainder value entries = value := by
  induction entries generalizing value with
  | nil => simp [listed, total, remainder]
  | cons entry rest ih =>
      rw [listed, remainder]
      split
      next hhas =>
        have hcleared : bits entry ||| (value &&& ~~~bits entry) = value := by
          apply BitVec.eq_of_getLsbD_eq
          intro bit hlt
          have hbit := and_eq_right_iff.mp hhas bit
          rw [BitVec.getLsbD_or, BitVec.getLsbD_and, BitVec.getLsbD_not]
          cases hmask : (bits entry).getLsbD bit with
          | false => simp [hlt]
          | true => simp [hbit hmask]
        have hrest := @ih (value &&& ~~~bits entry)
        rw [total, List.foldr_cons, BitVec.ofNat_or, BitVec.or_assoc]
        change bits entry ||| (BitVec.ofNat 32 (total _) ||| _) = value
        rw [hrest, hcleared]
      next => exact ih

/-- No flag with bits is among what is left over, for it would have been listed. -/
theorem not_has_remainder (hmem : entry ∈ entries) (hbit : (bits entry).getLsbD bit = true) :
    remainder value entries &&& bits entry ≠ bits entry := by
  intro hhas
  have hbits := and_eq_right_iff.mp hhas
  clear hhas
  induction entries generalizing value with
  | nil => cases hmem
  | cons first rest ih =>
      rw [remainder] at hbits
      rcases List.mem_cons.mp hmem with rfl | hrest
      · split at hbits
        · have hcleared := getLsbD_of_remainder (hbits bit hbit)
          simp [hbit] at hcleared
        next hnot =>
          exact hnot (and_eq_right_iff.mpr fun bit hbit => getLsbD_of_remainder (hbits bit hbit))
      · split at hbits <;> exact ih hrest hbits

theorem getLsbD_bits (hlt : bit < 32) : (bits entry).getLsbD bit = entry.2.testBit bit := by
  rw [bits, BitVec.getLsbD_ofNat, decide_eq_true hlt, Bool.true_and]

/-- The flags that are listed make up the value, if each of its bits is a flag by itself. -/
theorem total_listed (hbits : ∀ bit, value.getLsbD bit = true → ∃ entry ∈ entries, entry.2 = 2 ^ bit) :
    BitVec.ofNat 32 (total (listed value entries)) = value := by
  have hnone : remainder value entries = 0#32 := by
    apply BitVec.eq_of_getLsbD_eq
    intro bit hlt
    rw [BitVec.getLsbD_zero, Bool.eq_false_iff]
    intro hleft
    obtain ⟨entry, hentry, hvalue⟩ := hbits bit (getLsbD_of_remainder hleft)
    have hown (other : Nat) (hother : other < 32) : (bits entry).getLsbD other = true ↔ other = bit := by
      rw [getLsbD_bits hother, hvalue, Nat.testBit_two_pow, decide_eq_true_iff, eq_comm]
    have hhas : remainder value entries &&& bits entry = bits entry := by
      refine and_eq_right_iff.mpr fun other hother => ?_
      rw [(hown other (BitVec.lt_of_getLsbD hother)).mp hother]
      exact hleft
    exact not_has_remainder hentry ((hown bit hlt).mpr rfl) hhas
  have hwhole := @total_or_remainder value entries
  rwa [hnone, BitVec.or_zero] at hwhole

theorem has_of_mem_listed (h : entry ∈ listed value entries) : value &&& bits entry = bits entry := by
  induction entries generalizing value with
  | nil => simp [listed] at h
  | cons first rest ih =>
      rw [listed] at h
      split at h
      next hhas =>
        rcases List.mem_cons.mp h with rfl | hrest
        · exact hhas
        · refine and_eq_right_iff.mpr fun bit hbit => ?_
          have hboth := and_eq_right_iff.mp (ih hrest) bit hbit
          rw [BitVec.getLsbD_and, Bool.and_eq_true] at hboth
          exact hboth.1
      next => exact ih h

/-- A flag with bits that is listed for a value of one bit has this bit and no other. -/
theorem eq_two_pow_of_mem_listed (h : entry ∈ listed (.ofNat 32 (2 ^ bit)) entries)
    (hlt : entry.2 < 2 ^ 32) (hnonzero : entry.2 ≠ 0) : entry.2 = 2 ^ bit := by
  have hwithin (place : Nat) (hplace : entry.2.testBit place = true) : place = bit := by
    have hnarrow : place < 32 := by
      by_contra hge
      have hsmall : entry.2 < 2 ^ place := hlt.trans_le (Nat.pow_le_pow_right (by decide) (by omega))
      rw [Nat.testBit_lt_two_pow hsmall] at hplace
      cases hplace
    rw [← getLsbD_bits hnarrow] at hplace
    have hbit := and_eq_right_iff.mp (has_of_mem_listed h) place hplace
    rw [BitVec.getLsbD_ofNat, Nat.testBit_two_pow] at hbit
    simpa [hnarrow, eq_comm] using hbit
  obtain ⟨place, hplace⟩ := Nat.exists_testBit_of_ne_zero hnonzero
  refine Nat.eq_of_testBit_eq fun another => ?_
  rw [Bool.eq_iff_iff, Nat.testBit_two_pow, decide_eq_true_iff]
  constructor
  · exact fun hset => (hwithin another hset).symm
  · rintro rfl
    rwa [← hwithin place hplace]

/-- Every value has a flag without bits. -/
theorem mem_listed_of_bits_eq_zero (hmem : entry ∈ entries) (hzero : bits entry = 0) :
    entry ∈ listed value entries := by
  induction entries generalizing value with
  | nil => cases hmem
  | cons first rest ih =>
      rw [listed]
      rcases List.mem_cons.mp hmem with rfl | hrest
      · rw [if_pos (by simp [hzero])]
        exact List.mem_cons_self
      · split
        · exact List.mem_cons_of_mem _ (ih hrest)
        · exact ih hrest

theorem total_reverse (entries : List (Flag × Nat)) : total entries.reverse = total entries := by
  apply Nat.eq_of_testBit_eq
  intro bit
  rw [Bool.eq_iff_iff, testBit_total, testBit_total]
  simp

theorem eq_zero_of_total_eq_zero (h : total entries = 0) : ∀ entry ∈ entries, entry.2 = 0 := by
  intro entry hentry
  apply Nat.eq_of_testBit_eq
  intro bit
  have hbit : ¬ (total entries).testBit bit = true := by simp [h]
  rw [testBit_total, not_exists] at hbit
  simpa [hentry] using hbit entry

/-- A name of a flag is no text for no flags, and neither are several names. -/
theorem textFor_eq_none_iff (hnames : ∀ entry ∈ entries, kName entry.1.name ≠ "kNone") :
    textFor entries = "kNone" ↔ entries = [] := by
  constructor
  · intro h
    rcases entries with - | ⟨entry, - | ⟨next, rest⟩⟩
    · rfl
    · exact absurd (by simpa [textFor, join] using h) (hnames entry List.mem_cons_self)
    · have hblank : ' ' ∈ (textFor (entry :: next :: rest)).toList := by
        simp [textFor, join, String.intercalate_cons_cons, String.toList_append]
      rw [h] at hblank
      exact absurd hblank (by decide)
  · rintro rfl
    rfl

end Bits

end FlagText

/-! ## Values -/

/-- Declarations that have values are expressions, each of them. -/
theorem Expression.exists_evaluate_of_valuesFrom {shift : ShiftRule}
    {known entries : List (String × BitVec 32)} {declarations : List (String × List Token)}
    (h : valuesFrom shift known declarations = some entries) :
    ∀ declaration ∈ declarations, ∃ env value, evaluate shift env declaration.2 = some value := by
  induction declarations generalizing known entries with
  | nil => simp
  | cons declaration rest ih =>
      rw [valuesFrom] at h
      obtain ⟨value, hvalue, h⟩ := Option.bind_eq_some_iff.mp h
      obtain ⟨others, hothers, -⟩ := Option.bind_eq_some_iff.mp h
      exact List.forall_mem_cons.mpr ⟨⟨_, value, hvalue⟩, ih hothers⟩

namespace FlagSet

open Expression FlagText

variable {set : FlagSet} {values : List (Flag × Nat)}

/-- The flags that the text of a value can list, in the order in which they are tried. -/
def candidates (values : List (Flag × Nat)) : List (Flag × Nat) :=
  (values.filter fun entry => kName entry.1.name ≠ "kNone").reverse

/-- The text of every value lists flags that make it up: there are no expressions without a value, a flag
without bits is named like the text for no flags, and no bit stands by itself only in a flag that is. -/
structure Spellable (set : FlagSet) (values : List (Flag × Nat)) : Prop where
  combines : ∀ flag ∈ set.flags, flag.kind ≠ .combine []
  zero : ∀ entry ∈ values, entry.2 = 0 → kName entry.1.name = "kNone"
  single : ∀ entry ∈ values, kName entry.1.name = "kNone" → ∀ bit, entry.1.kind = .bit (some bit) →
    ∃ other ∈ values, kName other.1.name ≠ "kNone" ∧ other.2 = 2 ^ bit

theorem mem_candidates {entry : Flag × Nat} :
    entry ∈ candidates values ↔ entry ∈ values ∧ kName entry.1.name ≠ "kNone" := by
  simp [candidates]

section Values

variable (hsound : set.Sound) (hvalues : set.values = .ok values)
  (hbits : ∀ flag ∈ set.flags, ∀ bit, flag.kind = .bit (some bit) → bit ≤ 30)
include hsound hvalues

theorem testBit_iff_reaches : ∀ entry ∈ values, ∀ bit,
    entry.2.testBit bit = true ↔ entry.1.Reaches set.flags bit :=
  ((known_nil set.flags).of_valuesFrom hsound.flag_names_nodup refersBack_nil
    (List.nil_append set.flags).symm hvalues).2

/-- A flag of one bit has the value of that bit. -/
theorem value_of_bit {entry : Flag × Nat} {bit : Nat} (hmem : entry ∈ values)
    (hkind : entry.1.kind = .bit (some bit)) : entry.2 = 2 ^ bit := by
  apply Nat.eq_of_testBit_eq
  intro other
  rw [Bool.eq_iff_iff, testBit_iff_reaches hsound hvalues entry hmem, Flag.reaches_iff, hkind,
    Nat.testBit_two_pow, decide_eq_true_iff]
  simp [Flag.Combines, hkind, Flag.Kind.names]

/-- Each bit of a value is that of a flag by itself, which the text can list. -/
theorem Spellable.exists_candidate (h : set.Spellable values) {entry : Flag × Nat} {bit : Nat}
    (hmem : entry ∈ values) (hbit : entry.2.testBit bit = true) :
    ∃ other ∈ candidates values, other.2 = 2 ^ bit := by
  have hflags := map_fst_of_valuesFrom hvalues
  have hflag : entry.1 ∈ set.flags := hflags ▸ List.mem_map_of_mem hmem
  have hreaches := (testBit_iff_reaches hsound hvalues entry hmem bit).mp hbit
  obtain ⟨flag, hown, hkind⟩ := hreaches.exists_mem hflag
  rw [← hflags] at hown
  obtain ⟨other, hother, rfl⟩ := List.mem_map.mp hown
  by_cases hname : kName other.1.name = "kNone"
  · obtain ⟨another, hanother, hlisted, hvalue⟩ := h.single other hother hname bit hkind
    exact ⟨another, mem_candidates.mpr ⟨hanother, hlisted⟩, hvalue⟩
  · exact ⟨other, mem_candidates.mpr ⟨hother, hname⟩, value_of_bit hsound hvalues hother hkind⟩

/-- The lines of a set in which a flag combines nothing are no code, so that no text is found. -/
theorem combines_of_textOf? {value : BitVec 32} {text : String}
    (h : textOf? (pascalCase set.name) set.cppLines value = some text) :
    ∀ flag ∈ set.flags, flag.kind ≠ .combine [] := by
  intro flag hflag hkind
  have hparts := hsound.isPart_names hvalues
  obtain ⟨entries, hentries, -⟩ := Option.bind_eq_some_iff.mp h
  rw [filterMap_enumerator?_cppLines fun flag hflag name hname =>
    Identifier.isSpelled_kName (hparts flag hflag name hname)] at hentries
  obtain ⟨env, value, hvalue⟩ := exists_evaluate_of_valuesFrom hentries _ (List.mem_map_of_mem hflag)
  rw [hkind] at hvalue
  exact absurd (evaluate_empty_parentheses.symm.trans hvalue) (by simp)

include hbits

theorem value_lt : ∀ entry ∈ values, entry.2 < 2 ^ 31 := by
  intro entry hentry
  have hflag : entry.1 ∈ set.flags := map_fst_of_valuesFrom hvalues ▸ List.mem_map_of_mem hentry
  exact lt_of_testBit_iff hflag hbits (testBit_iff_reaches hsound hvalues entry hentry)

/-- The enumerators have the values of the flags when all flags are narrow. -/
theorem valuesFrom_cppLines (hdistinct : (set.flags.map fun flag => kName flag.name).Nodup)
    (hnarrow : set.Narrow) :
    Expression.valuesFrom checkedShift [] ((enumeratorLines set.cppLines).filterMap enumerator?)
      = some (values.map fun entry => (kName entry.1.name, bits entry)) := by
  have hpascal : (set.flags.map fun flag => pascalCase flag.name).Nodup := by
    refine List.Nodup.of_map ("k" ++ ·) ?_
    rwa [List.map_map]
  have hnumbers := (values_cpp_iff hsound hpascal hvalues).mpr hnarrow
  obtain ⟨entries, hentries, hsame⟩ := Option.map_eq_some_iff.mp hnumbers
  have hinjective : Function.Injective fun entry : String × BitVec 32 => (entry.1, entry.2.toInt) := by
    rintro ⟨first, value⟩ ⟨second, other⟩ heq
    simp only [Prod.mk.injEq, BitVec.toInt_inj] at heq
    exact Prod.ext heq.1 heq.2
  have hvalue : numbers (values.map fun entry => (kName entry.1.name, bits entry))
      = values.map fun entry => (kName entry.1.name, (entry.2 : Int)) := by
    rw [numbers, List.map_map]
    refine List.map_congr_left fun entry hentry => ?_
    rw [Function.comp_apply, bits, toInt_ofNat (value_lt hsound hvalues hbits entry hentry)]
  rw [hentries, List.map_injective_iff.mpr hinjective (hsame.trans hvalue.symm)]

/-- The text for a value is that for the candidates that are listed. -/
theorem textOf?_cppLines (hdistinct : (set.flags.map fun flag => kName flag.name).Nodup)
    (hnarrow : set.Narrow) (value : BitVec 32) : textOf? (pascalCase set.name) set.cppLines value
      = some (textFor (listed value (candidates values)).reverse) := by
  have hflags := map_fst_of_valuesFrom hvalues
  have hlisted : set.listedNames = (candidates values).map fun entry => kName entry.1.name := by
    rw [listedNames, candidates, List.map_reverse, ← hflags, List.map_map, List.filter_map]
    rfl
  have hnames : ∀ flag ∈ set.listedNames, ')' ∉ flag.toList := by
    intro name hname hmem
    obtain ⟨entry, hentry, rfl⟩ := List.mem_map.mp (hlisted ▸ hname)
    have hflag : entry.1 ∈ set.flags := hflags ▸ List.mem_map_of_mem (mem_candidates.mp hentry).1
    have hnominal := nominal_kName (nominal_of_isValid (hsound.flags entry.1 hflag).name_valid)
    exact absurd (hnominal ')' hmem) (by decide)
  have hnodup : (values.map fun entry => kName entry.1.name).Nodup := by
    rwa [← hflags, List.map_map] at hdistinct
  have hstatements := @mapM_statement?_bodyLines (pascalCase set.name) _ hnames
  refine Option.bind_eq_some_iff.mpr ⟨_, valuesFrom_cppLines hsound hvalues hbits hdistinct hnarrow,
    Option.bind_eq_some_iff.mpr ⟨_, body?_cppLines set, Option.bind_eq_some_iff.mpr ⟨_, hstatements, ?_⟩⟩⟩
  rw [hlisted]
  exact run_program fun entry hentry => lookup_map_of_mem hnodup (mem_candidates.mp hentry).1

end Values

/-- The bits stay below the sign, and no flag combines nothing. -/
theorem narrow_of_combines (hbits : ∀ flag ∈ set.flags, ∀ bit, flag.kind = .bit (some bit) → bit ≤ 30)
    (h : ∀ flag ∈ set.flags, flag.kind ≠ .combine []) : set.Narrow := by
  intro flag hflag
  cases hkind : flag.kind with
  | bit bit? =>
      cases bit? with
      | none => trivial
      | some bit => exact hbits flag hflag bit hkind
  | combine names =>
      rintro rfl
      exact h flag hflag hkind

/-- A text tells a value: it is that for flags of the set with bits, which make up the value, and it is
the text for no flags only when the value is zero. -/
structure Tells (values : List (Flag × Nat)) (value : Nat) (text : String)
    (flags : List (Flag × Nat)) : Prop where
  sublist : flags.Sublist values
  text_eq : text = textFor flags
  total_eq : total flags = value
  nonzero : ∀ entry ∈ flags, entry.2 ≠ 0
  none_iff : text = "kNone" ↔ value = 0

section Decomposition

variable (hsound : set.Sound) (hvalues : set.values = .ok values)
  (hbits : ∀ flag ∈ set.flags, ∀ bit, flag.kind = .bit (some bit) → bit ≤ 30)
  (hdistinct : (set.flags.map fun flag => kName flag.name).Nodup)
include hsound hvalues hbits

/-- The flags that are listed make up a value that flags make up. -/
theorem Spellable.tells (h : set.Spellable values) {chosen : List (Flag × Nat)}
    (hchosen : chosen ⊆ values) :
    Tells values (total chosen)
      (textFor (listed (.ofNat 32 (total chosen)) (candidates values)).reverse)
      (listed (.ofNat 32 (total chosen)) (candidates values)).reverse := by
  generalize hflags : (listed (.ofNat 32 (total chosen)) (candidates values)).reverse = flags
  have hlt := value_lt hsound hvalues hbits
  have hsublist : flags.Sublist (values.filter fun entry => kName entry.1.name ≠ "kNone") := by
    rw [← hflags, ← List.reverse_reverse (values.filter _)]
    exact listed_sublist.reverse
  have hmem : ∀ entry ∈ flags, entry ∈ values ∧ kName entry.1.name ≠ "kNone" := by
    intro entry hentry
    simpa using hsublist.subset hentry
  have htotal : total flags = total chosen := by
    have hsame : BitVec.ofNat 32 (total flags) = BitVec.ofNat 32 (total chosen) := by
      rw [← hflags, total_reverse]
      refine total_listed fun bit hbit => ?_
      rw [BitVec.getLsbD_ofNat, Bool.and_eq_true, testBit_total] at hbit
      obtain ⟨entry, hentry, hset⟩ := hbit.2
      exact h.exists_candidate hsound hvalues (hchosen hentry) hset
    have hfirst := total_lt fun entry hentry => hlt entry (hmem entry hentry).1
    have hsecond := total_lt fun entry hentry => hlt entry (hchosen hentry)
    have hnumbers := congrArg BitVec.toNat hsame
    rwa [BitVec.toNat_ofNat, BitVec.toNat_ofNat, Nat.mod_eq_of_lt (by omega),
      Nat.mod_eq_of_lt (by omega)] at hnumbers
  have hnonzero : ∀ entry ∈ flags, entry.2 ≠ 0 := fun entry hentry hzero =>
    (hmem entry hentry).2 (h.zero entry (hmem entry hentry).1 hzero)
  refine ⟨hsublist.trans List.filter_sublist, rfl, htotal, hnonzero, ?_⟩
  rw [textFor_eq_none_iff fun entry hentry => (hmem entry hentry).2, ← htotal]
  constructor
  · rintro rfl
    rfl
  · intro hzero
    refine List.eq_nil_iff_forall_not_mem.mpr fun entry hentry => ?_
    exact hnonzero entry hentry (eq_zero_of_total_eq_zero hzero entry hentry)

include hdistinct

/-- Where the text for no flags tells zero and no other value, the set is spellable. -/
theorem spellable_of_texts (h : ∀ chosen ⊆ values, ∃ text,
      textOf? (pascalCase set.name) set.cppLines (.ofNat 32 (total chosen)) = some text ∧
        (text = "kNone" ↔ total chosen = 0)) : set.Spellable values := by
  obtain ⟨text, htext, -⟩ := h [] (List.nil_subset values)
  have hcombines := combines_of_textOf? hsound hvalues htext
  have hlisted : ∀ chosen ⊆ values, listed (.ofNat 32 (total chosen)) (candidates values) = [] ↔
      total chosen = 0 := by
    intro chosen hchosen
    obtain ⟨text, htext, hnone⟩ := h chosen hchosen
    rw [textOf?_cppLines hsound hvalues hbits hdistinct (narrow_of_combines hbits hcombines)] at htext
    cases htext
    rw [← hnone, textFor_eq_none_iff, List.reverse_eq_nil_iff]
    intro entry hentry
    exact (mem_candidates.mp (listed_sublist.subset (List.mem_reverse.mp hentry))).2
  have hzero : ∀ entry ∈ values, entry.2 = 0 → kName entry.1.name = "kNone" := by
    intro entry hentry hvalue
    by_contra hname
    have hnil := (hlisted [] (List.nil_subset values)).mpr rfl
    have hmem : entry ∈ listed (.ofNat 32 (total [])) (candidates values) :=
      mem_listed_of_bits_eq_zero (mem_candidates.mpr ⟨hentry, hname⟩) (by simp [bits, hvalue])
    rw [hnil] at hmem
    cases hmem
  refine ⟨hcombines, hzero, fun entry hentry hname bit hkind => ?_⟩
  have hvalue := value_of_bit hsound hvalues hentry hkind
  have hflag : entry.1 ∈ set.flags := map_fst_of_valuesFrom hvalues ▸ List.mem_map_of_mem hentry
  have hle : bit ≤ 30 := hbits entry.1 hflag bit hkind
  have hsingle : total [entry] = 2 ^ bit := by simp [total, hvalue]
  have hsome : listed (.ofNat 32 (2 ^ bit)) (candidates values) ≠ [] := by
    rw [← hsingle]
    intro hnil
    rw [hlisted [entry] (by simpa using hentry), hsingle] at hnil
    exact absurd hnil (by simp)
  obtain ⟨other, hother⟩ := List.exists_mem_of_ne_nil _ hsome
  obtain ⟨hmem, hplain⟩ := mem_candidates.mp (listed_sublist.subset hother)
  have hlt : other.2 < 2 ^ 32 := (value_lt hsound hvalues hbits other hmem).trans (by decide)
  exact ⟨other, hmem, hplain, eq_two_pow_of_mem_listed hother hlt fun hnone => hplain (hzero other hmem hnone)⟩

end Decomposition

end FlagSet

namespace Interface

open FlagText

variable {file source : String} {interface : Interface}

/-- The text that the code of a set has for a value lists flags that make it up, whichever flags the
value is made of, exactly if the set is spellable. -/
theorem flag_texts_tell_iff {index : Nat} {set : FlagSet} {values : List (Flag × Nat)}
    (sources : Sources) (hload : load file source = .ok interface) (hset : interface.flagSets[index]? = some set)
    (hvalues : set.values = .ok values)
    (hbits : ∀ flag ∈ set.flags, ∀ bit, flag.kind = .bit (some bit) → bit ≤ 30)
    (hdistinct : (set.flags.map fun flag => kName flag.name).Nodup) :
    (∀ edits, Target.cpp.emitter.emit interface sources = .ok edits →
      linesOf edits "yogi-cpp/include/yogi/enums.h" (2 * interface.enumerations.length + index)
        = set.cppLines) ∧
    ((∀ chosen ⊆ values, ∃ text flags,
      textOf? (pascalCase set.name) set.cppLines (.ofNat 32 (total chosen)) = some text ∧
        FlagSet.Tells values (total chosen) text flags) ↔ set.Spellable values) := by
  have hsound := (load_sound hload).1.flagSets set (List.mem_of_getElem? hset)
  refine ⟨fun edits hemit => ?_, fun h => ?_, fun h chosen hchosen => ?_⟩
  · rw [Target.cpp_enumerations hemit, FlagSet.getElem?_cppBlocks hset, Option.getD_some]
  · refine FlagSet.spellable_of_texts hsound hvalues hbits hdistinct fun chosen hchosen => ?_
    obtain ⟨text, flags, htext, htells⟩ := h chosen hchosen
    exact ⟨text, htext, htells.none_iff⟩
  · have hnarrow := FlagSet.narrow_of_combines hbits h.combines
    exact ⟨_, _, FlagSet.textOf?_cppLines hsound hvalues hbits hdistinct hnarrow _,
      h.tells hsound hvalues hbits hchosen⟩

/-- All flags of the described set have bits, and names other than that for no flags. -/
theorem flag_texts_tell_iff_described : ∃ (interface : Interface) (values : List (Flag × Nat)),
    load "core_api.toml" Sample.description = .ok interface ∧
      interface.flagSets[0]? = some Sample.events ∧
      Sample.events.values = .ok values ∧
      ∀ chosen ⊆ values, ∃ text flags,
        textOf? "Events" Sample.events.cppLines (.ofNat 32 (total chosen)) = some text ∧
          FlagSet.Tells values (total chosen) text flags := by
  obtain ⟨interface, edits, hload, -, hsets⟩ := Sample.exists_emitted
  have hset : interface.flagSets[0]? = some Sample.events := by
    rw [hsets]
    rfl
  have hvalues : Sample.events.values = .ok [(⟨"sent", "", .bit (some 0)⟩, 1),
      (⟨"received", "", .bit (some 1)⟩, 2), (⟨"all", "", .combine ["sent", "received"]⟩, 3)] := rfl
  have hbits : ∀ flag ∈ Sample.events.flags, ∀ bit, flag.kind = .bit (some bit) → bit ≤ 30 := by
    simp [Sample.events]
  have hdistinct : (Sample.events.flags.map fun flag => kName flag.name).Nodup := by decide
  have hspellable : Sample.events.Spellable [(⟨"sent", "", .bit (some 0)⟩, 1),
      (⟨"received", "", .bit (some 1)⟩, 2), (⟨"all", "", .combine ["sent", "received"]⟩, 3)] := by
    refine ⟨by simp [Sample.events], by simp, fun entry hentry hname => absurd hname ?_⟩
    revert entry
    decide
  exact ⟨interface, _, hload, hset, hvalues,
    (flag_texts_tell_iff Sample.sources hload hset hvalues hbits hdistinct).2.mpr hspellable⟩

end Interface

namespace Sample

/-- A description with a flag that has no bits and another name than that for no flags. -/
def idleFlags : String :=
"copyright = \"\"

[version]
major = 1
minor = 2
patch = 3

[constants]

[functions]

[enums]

[flags.state]
Idle = \x7b bit = \"none\" \x7d
Busy = \x7b bit = 0 \x7d

[type_mappings]
"

def state : FlagSet := ⟨"state", none, [⟨"Idle", "", .bit none⟩, ⟨"Busy", "", .bit (some 0)⟩]⟩

set_option maxRecDepth 10000 in
theorem exists_idleFlags : ∃ (interface : Interface) (edits : Target → List Edit),
    Interface.load "core_api.toml" idleFlags = .ok interface ∧
      (∀ target : Target, target.emitter.emit interface sources = .ok (edits target)) ∧
      interface.enumerations = [] ∧ interface.flagSets = [state] :=
  exists_emitted_of_described String.toList_ofList (by decide)

end Sample

/-- A flag without bits is listed for every value, as its name is not that for no flags. -/
theorem Interface.flag_texts_list_idle : ∃ (interface : Interface) (edits : Target → List Edit),
    load "core_api.toml" Sample.idleFlags = .ok interface ∧
      Target.cpp.emitter.emit interface Sample.sources = .ok (edits .cpp) ∧
      interface.flagSets = [Sample.state] ∧
      linesOf (edits .cpp) "yogi-cpp/include/yogi/enums.h" 0 = Sample.state.cppLines ∧
      Sample.state.values = .ok [(⟨"Idle", "", .bit none⟩, 0), (⟨"Busy", "", .bit (some 0)⟩, 1)] ∧
      FlagText.textOf? "State" Sample.state.cppLines 0 = some "kIdle" ∧
      FlagText.textOf? "State" Sample.state.cppLines 1 = some "kIdle | kBusy" := by
  obtain ⟨interface, edits, hload, hemit, henumerations, hsets⟩ := Sample.exists_idleFlags
  have hset : interface.flagSets[0]? = some Sample.state := by
    rw [hsets]
    rfl
  have hlines : linesOf (edits .cpp) "yogi-cpp/include/yogi/enums.h" 0 = Sample.state.cppLines := by
    have hblock := FlagSet.getElem?_cppBlocks hset
    rw [henumerations] at hblock
    rw [Target.cpp_enumerations (hemit .cpp)]
    exact congrArg (Option.getD · []) hblock
  have hvalues : Sample.state.values
      = .ok [(⟨"Idle", "", .bit none⟩, 0), (⟨"Busy", "", .bit (some 0)⟩, 1)] := rfl
  have hsound := (load_sound hload).1.flagSets Sample.state (by simp [hsets])
  have hbits : ∀ flag ∈ Sample.state.flags, ∀ bit, flag.kind = .bit (some bit) → bit ≤ 30 := by
    simp [Sample.state]
  have hdistinct : (Sample.state.flags.map fun flag => kName flag.name).Nodup := by decide
  have hnarrow := FlagSet.narrow_of_combines hbits (by simp [Sample.state])
  have htext := FlagSet.textOf?_cppLines hsound hvalues hbits hdistinct hnarrow
  exact ⟨interface, edits, hload, hemit .cpp, hsets, hlines, hvalues, (htext 0).trans (by decide),
    (htext 1).trans (by decide)⟩

end Bindery
