import Bindery.Proofs.FlagLines
import Mathlib.Logic.Relation

/-!
# Combinations of flags

A flag set has values exactly if its combinations name only flags that come before them. The value of a
flag then has the bits of all flags that it reaches through combinations of combinations, and no others.
Otherwise the error names the first flag that refers elsewhere, with the first name of that kind.
-/

namespace Bindery

namespace Flag

variable {flags : List Flag} {flag : Flag} {bit : Nat}

/-- A flag combines another one of the flags. -/
def Combines (flags : List Flag) (flag other : Flag) : Prop :=
  other ∈ flags ∧ other.name ∈ flag.kind.names

/-- A flag leads to one that stands for the bit, by way of any number of combinations. -/
def Reaches (flags : List Flag) (flag : Flag) (bit : Nat) : Prop :=
  ∃ other, Relation.ReflTransGen (Combines flags) flag other ∧ other.kind = .bit (some bit)

theorem reaches_iff : flag.Reaches flags bit ↔
    flag.kind = .bit (some bit) ∨ ∃ other, Combines flags flag other ∧ other.Reaches flags bit := by
  constructor
  · rintro ⟨target, hpath, hbit⟩
    rcases Relation.ReflTransGen.cases_head hpath with rfl | ⟨next, hstep, hrest⟩
    · exact Or.inl hbit
    · exact Or.inr ⟨next, hstep, target, hrest, hbit⟩
  · rintro (hbit | ⟨next, hstep, target, hrest, hbit⟩)
    · exact ⟨flag, .refl, hbit⟩
    · exact ⟨target, .head hstep hrest, hbit⟩

/-- What a flag of the set reaches is the bit of a flag of the set. -/
theorem Reaches.exists_mem (h : flag.Reaches flags bit) (hflag : flag ∈ flags) :
    ∃ other ∈ flags, other.kind = .bit (some bit) := by
  rcases h with ⟨target, hpath, hbit⟩
  rcases Relation.ReflTransGen.cases_tail hpath with rfl | ⟨last, -, hstep⟩
  · exact ⟨target, hflag, hbit⟩
  · exact ⟨target, hstep.1, hbit⟩

end Flag

namespace FlagSet

/-- Every combination names only flags that come before it. -/
def RefersBack (flags : List Flag) : Prop :=
  ∀ front flag back, flags = front ++ flag :: back → flag.kind.names ⊆ front.map Flag.name

/-- The flag is the first whose combination names one that does not come before it, and that name is the
first such in the combination. -/
def FirstUnresolved (flags : List Flag) (flag : Flag) (reference : String) : Prop :=
  ∃ front back names others, flags = front ++ flag :: back ∧ RefersBack front ∧
    flag.kind.names = names ++ reference :: others ∧
    names ⊆ front.map Flag.name ∧ reference ∉ front.map Flag.name

theorem refersBack_append_singleton {front : List Flag} {flag : Flag} :
    RefersBack (front ++ [flag]) ↔ RefersBack front ∧ flag.kind.names ⊆ front.map Flag.name := by
  constructor
  · intro h
    refine ⟨fun before other behind heq => ?_, h front flag [] rfl⟩
    refine h before other (behind ++ [flag]) ?_
    rw [heq, List.append_assoc, List.cons_append]
  · rintro ⟨hfront, hflag⟩ before other behind heq
    rcases List.eq_nil_or_concat behind with rfl | ⟨rest, last, rfl⟩
    · rcases List.append_inj' heq rfl with ⟨rfl, hsame⟩
      rw [← List.singleton_inj.mp hsame]
      exact hflag
    · rw [List.concat_eq_append, ← List.cons_append, ← List.append_assoc] at heq
      exact hfront before other rest (List.append_inj' heq rfl).1

/-- Where combinations refer back, there is no first that does not. -/
theorem RefersBack.not_firstUnresolved {flags : List Flag} {flag : Flag} {reference : String}
    (h : RefersBack flags) : ¬FirstUnresolved flags flag reference := by
  rintro ⟨front, back, names, others, hflags, -, hnames, -, hunknown⟩
  refine hunknown (h front flag back hflags ?_)
  simp [hnames]

section Combine

variable {known : List (String × Nat)} {set flag : String}

theorem combine_cons_eq_ok {name : String} {rest : List String} {total : Nat}
    (h : combine set flag known (name :: rest) = .ok total) :
    ∃ value others, known.lookup name = some value ∧ combine set flag known rest = .ok others ∧
      total = value ||| others := by
  rw [combine] at h
  split at h
  next value hvalue =>
    cases hrest : combine set flag known rest with
    | error error =>
        rw [hrest] at h
        cases h
    | ok others =>
        rw [hrest] at h
        cases h
        exact ⟨value, others, hvalue, rfl, rfl⟩
  next => cases h

/-- A combination that has a value names known flags only. -/
theorem exists_lookup_of_combine {names : List String} {total : Nat}
    (h : combine set flag known names = .ok total) :
    ∀ name ∈ names, ∃ value, known.lookup name = some value := by
  induction names generalizing total with
  | nil => simp
  | cons name rest ih =>
      rcases combine_cons_eq_ok h with ⟨value, others, hvalue, hrest, -⟩
      exact List.forall_mem_cons.mpr ⟨⟨value, hvalue⟩, ih hrest⟩

/-- A combination has the bits of the flags that it names. -/
theorem testBit_of_combine {names : List String} {total bit : Nat}
    (h : combine set flag known names = .ok total) : total.testBit bit = true ↔
      ∃ name ∈ names, ∃ value, known.lookup name = some value ∧ value.testBit bit = true := by
  induction names generalizing total with
  | nil =>
      cases h
      simp
  | cons name rest ih =>
      rcases combine_cons_eq_ok h with ⟨value, others, hvalue, hrest, rfl⟩
      simp [Nat.testBit_or, hvalue, ih hrest]

/-- A combination fails at the first name that no known flag has. -/
theorem combine_eq_error {names : List String} {error : EmitError}
    (h : combine set flag known names = .error error) : ∃ before reference after,
      names = before ++ reference :: after ∧ (∀ name ∈ before, ∃ value, known.lookup name = some value) ∧
        known.lookup reference = none ∧ error = .unresolvedFlag set flag reference := by
  induction names with
  | nil => cases h
  | cons name rest ih =>
      rw [combine] at h
      split at h
      next value hvalue =>
        cases hrest : combine set flag known rest with
        | ok others =>
            rw [hrest] at h
            cases h
        | error first =>
            rw [hrest] at h
            cases h
            rcases ih hrest with ⟨before, reference, after, rfl, hbefore, hreference, rfl⟩
            exact ⟨name :: before, reference, after, rfl, List.forall_mem_cons.mpr ⟨⟨value, hvalue⟩, hbefore⟩,
              hreference, rfl⟩
      next hnone =>
        cases h
        exact ⟨[], name, rest, rfl, by simp, hnone, rfl⟩

end Combine

section Values

variable {flags front : List Flag} {known : List (String × Nat)} {set : String} {flag : Flag} {value : Nat}

theorem map_fst_of_valuesFrom {values : List (Flag × Nat)}
    (h : valuesFrom set known flags = .ok values) : values.map Prod.fst = flags := by
  induction flags generalizing known values with
  | nil =>
      cases h
      rfl
  | cons flag rest ih =>
      rcases except_bind_eq_ok_iff.mp h with ⟨value, -, hrest⟩
      rcases except_bind_eq_ok_iff.mp hrest with ⟨others, hothers, heq⟩
      cases heq
      rw [List.map_cons, ih hothers]

/-- The flags in front have values, which have the bits that the flags reach. -/
structure Known (flags front : List Flag) (known : List (String × Nat)) : Prop where
  values : ∀ name value, known.lookup name = some value → ∃ flag ∈ front, flag.name = name ∧
    ∀ bit, value.testBit bit = true ↔ flag.Reaches flags bit
  flags : ∀ flag ∈ front, ∃ value, known.lookup flag.name = some value

theorem Known.exists_lookup_iff (hknown : Known flags front known) {name : String} :
    (∃ value, known.lookup name = some value) ↔ name ∈ front.map Flag.name := by
  rw [List.mem_map]
  constructor
  · rintro ⟨value, hvalue⟩
    rcases hknown.values name value hvalue with ⟨flag, hflag, hname, -⟩
    exact ⟨flag, hflag, hname⟩
  · rintro ⟨flag, hflag, rfl⟩
    exact hknown.flags flag hflag

/-- The next flag reaches what its value has, if its combination names the flags in front. -/
theorem Known.testBit_valueOf (hknown : Known flags front known) (hnames : (flags.map Flag.name).Nodup)
    (hfront : front ⊆ flags) (h : valueOf set known flag = .ok value) (bit : Nat) :
    value.testBit bit = true ↔ flag.Reaches flags bit := by
  rw [Flag.reaches_iff]
  rcases flag with ⟨name, help, (- | place) | names⟩
  · cases h
    simp [Flag.Combines, Flag.Kind.names]
  · cases h
    simp [Flag.Combines, Flag.Kind.names, Nat.testBit_two_pow, eq_comm]
  · rw [testBit_of_combine h]
    constructor
    · rintro ⟨reference, hreference, part, hlookup, hbit⟩
      rcases hknown.values reference part hlookup with ⟨other, hother, rfl, hpart⟩
      exact Or.inr ⟨other, ⟨hfront hother, hreference⟩, (hpart bit).mp hbit⟩
    · rintro (hkind | ⟨other, ⟨hother, hreference⟩, hreaches⟩)
      · cases hkind
      · -- the name that is looked up belongs to one flag only
        rcases exists_lookup_of_combine h _ hreference with ⟨part, hlookup⟩
        rcases hknown.values _ part hlookup with ⟨found, hfound, hname, hpart⟩
        have hsame : found = other := List.inj_on_of_nodup_map hnames (hfront hfound) hother hname
        exact ⟨other.name, hreference, part, hlookup, (hpart bit).mpr (hsame ▸ hreaches)⟩

theorem Known.names_subset (hknown : Known flags front known) (h : valueOf set known flag = .ok value) :
    flag.kind.names ⊆ front.map Flag.name := by
  rcases flag with ⟨name, help, bit? | names⟩
  · exact List.nil_subset _
  · exact fun reference hreference =>
      hknown.exists_lookup_iff.mp (exists_lookup_of_combine h reference hreference)

theorem Known.valueOf_eq_error {error : EmitError} (hknown : Known flags front known)
    (h : valueOf set known flag = .error error) : ∃ reference, error = .unresolvedFlag set flag.name reference ∧
      ∃ names others, flag.kind.names = names ++ reference :: others ∧ names ⊆ front.map Flag.name ∧
        reference ∉ front.map Flag.name := by
  rcases flag with ⟨name, help, (- | place) | names⟩
  · cases h
  · cases h
  · rcases combine_eq_error h with ⟨before, reference, after, hsplit, hbefore, hunknown, herror⟩
    refine ⟨reference, herror, before, after, hsplit, fun name hname => ?_, fun hreference => ?_⟩
    · exact hknown.exists_lookup_iff.mp (hbefore name hname)
    · rcases hknown.exists_lookup_iff.mpr hreference with ⟨value, hvalue⟩
      rw [hunknown] at hvalue
      cases hvalue

/-- With the value of the next flag, one more is known. -/
theorem Known.append (hknown : Known flags front known) (hnames : (flags.map Flag.name).Nodup)
    (hfront : front ⊆ flags) (h : valueOf set known flag = .ok value) :
    Known flags (front ++ [flag]) ((flag.name, value) :: known) := by
  constructor
  · intro name part hlookup
    rw [List.lookup_cons] at hlookup
    split at hlookup
    next heq =>
      cases hlookup
      exact ⟨flag, by simp, (beq_iff_eq.mp heq).symm, hknown.testBit_valueOf hnames hfront h⟩
    next =>
      rcases hknown.values name part hlookup with ⟨found, hfound, hrest⟩
      exact ⟨found, List.mem_append_left _ hfound, hrest⟩
  · intro other hother
    rw [List.lookup_cons]
    split
    next => exact ⟨value, rfl⟩
    next hne =>
      rcases List.mem_append.mp hother with hother | hother
      · exact hknown.flags other hother
      · rw [List.mem_singleton.mp hother] at hne
        simp at hne

theorem Known.of_valuesFrom {rest : List Flag} {values : List (Flag × Nat)} (hknown : Known flags front known)
    (hnames : (flags.map Flag.name).Nodup) (hback : RefersBack front) (hflags : flags = front ++ rest)
    (h : valuesFrom set known rest = .ok values) :
    RefersBack flags ∧
      ∀ entry ∈ values, ∀ bit, entry.2.testBit bit = true ↔ entry.1.Reaches flags bit := by
  induction rest generalizing front known values with
  | nil =>
      cases h
      rw [List.append_nil] at hflags
      exact ⟨hflags ▸ hback, by simp⟩
  | cons flag rest ih =>
      rcases except_bind_eq_ok_iff.mp h with ⟨value, hvalue, hrest⟩
      rcases except_bind_eq_ok_iff.mp hrest with ⟨others, hothers, heq⟩
      cases heq
      have hfront : front ⊆ flags := hflags ▸ List.subset_append_left front _
      have hnext := refersBack_append_singleton.mpr ⟨hback, hknown.names_subset hvalue⟩
      have hsplit : flags = (front ++ [flag]) ++ rest := by simp [hflags]
      rcases ih (hknown.append hnames hfront hvalue) hnext hsplit hothers with ⟨hall, hbits⟩
      refine ⟨hall, List.forall_mem_cons.mpr ⟨?_, hbits⟩⟩
      exact hknown.testBit_valueOf hnames hfront hvalue

theorem Known.valuesFrom_eq_error {rest : List Flag} {error : EmitError} (hknown : Known flags front known)
    (hnames : (flags.map Flag.name).Nodup) (hback : RefersBack front) (hflags : flags = front ++ rest)
    (h : valuesFrom set known rest = .error error) : ∃ flag reference,
      error = .unresolvedFlag set flag.name reference ∧ FirstUnresolved flags flag reference := by
  induction rest generalizing front known with
  | nil => cases h
  | cons flag rest ih =>
      rcases except_bind_eq_error_iff.mp h with hvalue | ⟨value, hvalue, hrest⟩
      · rcases hknown.valueOf_eq_error hvalue with ⟨reference, herror, names, others, hsplit⟩
        exact ⟨flag, reference, herror, front, rest, names, others, hflags, hback, hsplit⟩
      · have hfront : front ⊆ flags := hflags ▸ List.subset_append_left front _
        have hnext := refersBack_append_singleton.mpr ⟨hback, hknown.names_subset hvalue⟩
        have hsplit : flags = (front ++ [flag]) ++ rest := by simp [hflags]
        refine ih (hknown.append hnames hfront hvalue) hnext hsplit ?_
        rcases except_bind_eq_error_iff.mp hrest with hothers | ⟨others, -, hdone⟩
        · exact hothers
        · cases hdone

theorem known_nil (flags : List Flag) : Known flags [] [] := by
  constructor <;> simp

theorem refersBack_nil : RefersBack [] := by
  intro front flag back heq
  simp at heq

/-- A number has as many bits as the highest that a flag of the set may have. -/
theorem lt_of_testBit_iff {bound : Nat} (hflag : flag ∈ flags)
    (hbits : ∀ flag ∈ flags, ∀ bit, flag.kind = .bit (some bit) → bit ≤ bound)
    (h : ∀ bit, value.testBit bit = true ↔ flag.Reaches flags bit) : value < 2 ^ (bound + 1) := by
  apply Nat.lt_pow_two_of_testBit
  intro bit hbit
  rw [Bool.eq_false_iff]
  intro hset
  rcases ((h bit).mp hset).exists_mem hflag with ⟨other, hother, hkind⟩
  have hle := hbits other hother bit hkind
  omega

end Values

/-- The values of a set are exact: there are some if and only if combinations refer back, they are those
of all flags in order, with the bits that each flag reaches, and an error is about the first name that does
not refer back. -/
theorem values_exact (set : FlagSet) (hnames : (set.flags.map Flag.name).Nodup)
    (hbits : ∀ flag ∈ set.flags, ∀ bit, flag.kind = .bit (some bit) → bit ≤ maxBit) :
    ((∃ values, set.values = .ok values) ↔ RefersBack set.flags) ∧
    (∀ values, set.values = .ok values → values.map Prod.fst = set.flags ∧
      ∀ entry ∈ values, entry.2 < 2 ^ 63 ∧
        ∀ bit, entry.2.testBit bit = true ↔ entry.1.Reaches set.flags bit) ∧
    ∀ error, set.values = .error error → ∃ flag reference,
      error = .unresolvedFlag set.name flag.name reference ∧ FirstUnresolved set.flags flag reference := by
  have hknown := known_nil set.flags
  have hsome {values : List (Flag × Nat)} (h : set.values = .ok values) :=
    hknown.of_valuesFrom hnames refersBack_nil (List.nil_append set.flags).symm h
  have hnone {error : EmitError} (h : set.values = .error error) :=
    hknown.valuesFrom_eq_error hnames refersBack_nil (List.nil_append set.flags).symm h
  refine ⟨⟨?_, fun hback => ?_⟩, fun values h => ?_, fun error h => hnone h⟩
  · rintro ⟨values, h⟩
    exact (hsome h).1
  · cases h : set.values with
    | ok values => exact ⟨values, rfl⟩
    | error error =>
        rcases hnone h with ⟨flag, reference, -, hfirst⟩
        exact absurd hfirst hback.not_firstUnresolved
  · have hfst := map_fst_of_valuesFrom h
    have hreached := (hsome h).2
    refine ⟨hfst, fun entry hentry => ⟨?_, hreached entry hentry⟩⟩
    have hflag : entry.1 ∈ set.flags := by
      rw [← hfst]
      exact List.mem_map_of_mem hentry
    exact lt_of_testBit_iff hflag hbits (hreached entry hentry)

/-- A set with a flag that has no bit, the highest one, and a combination of a combination. -/
def permissions : FlagSet where
  name := "permissions"
  macroPrefix? := none
  flags := [
    ⟨"NONE", "", .bit none⟩, ⟨"READ", "", .bit (some 0)⟩, ⟨"OWN", "", .bit (some 62)⟩,
    ⟨"EDIT", "", .combine ["READ", "OWN"]⟩, ⟨"ALL", "", .combine ["EDIT", "NONE", "READ"]⟩]

theorem values_exact_permissions :
    permissions.values = .ok (permissions.flags.zip [0, 1, 2 ^ 62, 2 ^ 62 + 1, 2 ^ 62 + 1]) ∧
      RefersBack permissions.flags ∧
      Flag.Reaches permissions.flags ⟨"ALL", "", .combine ["EDIT", "NONE", "READ"]⟩ 62 := by
  have hnames : (permissions.flags.map Flag.name).Nodup := by decide
  have hbits : ∀ flag ∈ permissions.flags, ∀ bit, flag.kind = .bit (some bit) → bit ≤ maxBit := by
    simp [permissions, maxBit]
  have hvalues : permissions.values = .ok (permissions.flags.zip [0, 1, 2 ^ 62, 2 ^ 62 + 1, 2 ^ 62 + 1]) := rfl
  rcases values_exact permissions hnames hbits with ⟨hsome, hexact, -⟩
  refine ⟨hvalues, hsome.mp ⟨_, hvalues⟩, ?_⟩
  have hall := (hexact _ hvalues).2 (permissions.flags[4], 2 ^ 62 + 1) (by simp [permissions])
  exact (hall.2 62).mp (by decide)

end FlagSet

end Bindery
