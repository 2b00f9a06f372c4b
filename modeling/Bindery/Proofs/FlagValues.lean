import Bindery.Proofs.Combinations
import Bindery.Proofs.Numbering

/-!
# Values of flags

The expressions that C, C++ and C# have for the flags of a set, evaluated on integers of 32 bits one after
the other, have the values of the flags exactly if no flag has the sign bit or one beyond it, and none
combines nothing at all. Python has the values themselves.
-/

namespace Bindery

open Text Naming Declaration

namespace Expression

/-- The values of declarations, each evaluated with the values of those before it. -/
def valuesFrom (shift : ShiftRule) (known : List (String × BitVec 32)) :
    List (String × List Token) → Option (List (String × BitVec 32))
  | [] => some []
  | (name, tokens) :: rest => do
      let value ← evaluate shift (fun name => known.lookup name) tokens
      let others ← valuesFrom shift ((name, value) :: known) rest
      return (name, value) :: others

def numbers (entries : List (String × BitVec 32)) : List (String × Int) :=
  entries.map fun entry => (entry.1, entry.2.toInt)

/-- The names of declarations with their values as numbers. -/
def values (shift : ShiftRule) (declarations : List (String × List Token)) :
    Option (List (String × Int)) :=
  (valuesFrom shift [] declarations).map numbers

theorem map_valuesFrom_cons_eq_iff {shift : ShiftRule} {known : List (String × BitVec 32)} {name : String}
    {tokens : List Token} {rest : List (String × List Token)} {number : Int} {others : List (String × Int)} :
    (valuesFrom shift known ((name, tokens) :: rest)).map numbers = some ((name, number) :: others) ↔
      ∃ bits, evaluate shift (fun name => known.lookup name) tokens = some bits ∧ bits.toInt = number ∧
        (valuesFrom shift ((name, bits) :: known) rest).map numbers = some others := by
  rw [valuesFrom]
  cases evaluate shift (fun name => known.lookup name) tokens with
  | none => simp
  | some bits =>
      cases hrest : valuesFrom shift ((name, bits) :: known) rest with
      | none => simp [hrest]
      | some entries => simp [hrest, numbers]

/-- A rule shifts a one by as many places as there are below the sign bit. -/
def ShiftRule.ShiftsOne (shift : ShiftRule) : Prop :=
  ∀ place ≤ 30, shift 1 (.ofNat 32 place) = some (.ofNat 32 (2 ^ place))

theorem shiftsOne_checkedShift : ShiftRule.ShiftsOne checkedShift := by
  have hall : ∀ place < 31, checkedShift 1 (.ofNat 32 place) = some (.ofNat 32 (2 ^ place)) := by
    decide
  exact fun place hplace => hall place (by omega)

theorem shiftsOne_maskedShift : ShiftRule.ShiftsOne maskedShift := by
  have hall : ∀ place < 31, maskedShift 1 (.ofNat 32 place) = some (.ofNat 32 (2 ^ place)) := by
    decide
  exact fun place hplace => hall place (by omega)

theorem toInt_ofNat {value : Nat} (h : value < 2 ^ 31) : (BitVec.ofNat 32 value).toInt = value := by
  rw [BitVec.toInt_ofNat', Int.bmod_eq_of_le] <;> omega

end Expression

open Expression

/-- A flag whose expression has a value of 32 bits: one bit below the sign, or at least one other flag. -/
def Flag.Kind.Narrow : Flag.Kind → Prop
  | .bit none => True
  | .bit (some place) => place ≤ 30
  | .combine names => names ≠ []

def FlagSet.Narrow (set : FlagSet) : Prop := ∀ flag ∈ set.flags, flag.kind.Narrow

namespace FlagSet

variable {nameOf : String → String} {known : List (String × Nat)} {set flag : String}

/-- The flags that a combination names have values, and the combination has all bits of them. -/
theorem exists_values_of_combine {names : List String} {total : Nat}
    (h : combine set flag known names = .ok total) : ∃ values : List Nat,
      List.Forall₂ (fun name value => known.lookup name = some value) names values ∧
        ∀ bits : BitVec 32, (values.map (BitVec.ofNat 32)).foldl (· ||| ·) bits
          = bits ||| BitVec.ofNat 32 total := by
  induction names generalizing total with
  | nil =>
      cases h
      exact ⟨[], .nil, fun bits => by simp⟩
  | cons name rest ih =>
      rcases combine_cons_eq_ok h with ⟨value, others, hvalue, hrest, rfl⟩
      rcases ih hrest with ⟨values, hvalues, hfold⟩
      refine ⟨value :: values, .cons hvalue hvalues, fun bits => ?_⟩
      rw [List.map_cons, List.foldl_cons, hfold, BitVec.ofNat_or, BitVec.or_assoc]

theorem combine_lt {names : List String} {total : Nat} (hknown : ∀ entry ∈ known, entry.2 < 2 ^ 31)
    (h : combine set flag known names = .ok total) : total < 2 ^ 31 := by
  induction names generalizing total with
  | nil =>
      cases h
      decide
  | cons name rest ih =>
      rcases combine_cons_eq_ok h with ⟨value, others, hvalue, hrest, rfl⟩
      exact Nat.or_lt_two_pow (hknown _ (mem_of_lookup hvalue)) (ih hrest)

variable {flag : Flag} {value : Nat}

theorem valueOf_lt (hnarrow : flag.kind.Narrow) (hknown : ∀ entry ∈ known, entry.2 < 2 ^ 31)
    (h : valueOf set known flag = .ok value) : value < 2 ^ 31 := by
  unfold valueOf at h
  split at h
  next =>
    cases h
    decide
  next place hkind =>
    rw [hkind] at hnarrow
    cases h
    have hplace : place ≤ 30 := hnarrow
    exact Nat.pow_lt_pow_right (by decide) (by omega)
  next => exact combine_lt hknown h

/-- The names of flags, with their values, as a target has them. -/
def rendered (nameOf : String → String) (known : List (String × Nat)) : List (String × BitVec 32) :=
  known.map fun entry => (nameOf entry.1, .ofNat 32 entry.2)

theorem lookup_rendered {name : String} {names : List String}
    (hdistinct : ∀ first ∈ names, ∀ second ∈ names, nameOf first = nameOf second → first = second)
    (hnames : known.map Prod.fst ⊆ names) (h : known.lookup name = some value) :
    (rendered nameOf known).lookup (nameOf name) = some (.ofNat 32 value) := by
  have hname : name ∈ names := hnames (List.mem_map_of_mem (mem_of_lookup h))
  induction known with
  | nil => cases h
  | cons entry rest ih =>
      rcases entry with ⟨first, firstValue⟩
      rw [List.map_cons, List.cons_subset] at hnames
      rw [List.lookup_cons] at h
      rw [rendered, List.map_cons, List.lookup_cons]
      by_cases heq : name = first
      · subst heq
        simp only [beq_self_eq_true] at h ⊢
        cases h
        rfl
      · have hne : (name == first) = false := beq_eq_false_iff_ne.mpr heq
        have hne' : (nameOf name == nameOf first) = false :=
          beq_eq_false_iff_ne.mpr fun hsame => heq (hdistinct name hname first hnames.1 hsame)
        simp only [hne, hne'] at h ⊢
        exact ih hnames.2 h

section Evaluation

variable {shift : ShiftRule} {env : String → Option (BitVec 32)}

/-- The expression of a narrow flag has the value of the flag. -/
theorem evaluate_tokens (hshift : shift.ShiftsOne) (hnarrow : flag.kind.Narrow)
    (henv : ∀ name value, known.lookup name = some value → env (nameOf name) = some (.ofNat 32 value))
    (h : valueOf set known flag = .ok value) :
    evaluate shift env (flag.kind.tokens nameOf) = some (.ofNat 32 value) := by
  rcases flag with ⟨name, help, (- | place) | names⟩
  · cases h
    exact evaluate_zero
  · cases h
    have hplace : place ≤ 30 := hnarrow
    exact evaluate_shift (by omega) (hshift place hplace)
  · have hsome : names ≠ [] := hnarrow
    rcases exists_values_of_combine h with ⟨values, hvalues, hfold⟩
    have hrendered : List.Forall₂ (fun name value => env name = some value) (names.map nameOf)
        (values.map (BitVec.ofNat 32)) := by
      rw [List.forall₂_map_left_iff, List.forall₂_map_right_iff]
      exact hvalues.imp fun name value hlookup => henv name value hlookup
    have hzero : (0 : BitVec 32) ||| .ofNat 32 value = .ofNat 32 value := BitVec.zero_or
    have hnames : names.map nameOf ≠ [] := by simpa using hsome
    rw [Flag.Kind.tokens, evaluate_disjunction hrendered hnames, hfold, hzero]

theorem evaluate_groupedTokens (hshift : shift.ShiftsOne) (hnarrow : flag.kind.Narrow)
    (henv : ∀ name value, known.lookup name = some value → env (nameOf name) = some (.ofNat 32 value))
    (h : valueOf set known flag = .ok value) :
    evaluate shift env (flag.kind.groupedTokens nameOf) = some (.ofNat 32 value) := by
  have htokens := evaluate_tokens hshift hnarrow henv h
  unfold Flag.Kind.groupedTokens
  split
  next hkind =>
    rw [hkind] at htokens
    exact htokens
  next => exact evaluate_parentheses htokens

/-- Where the flags that have values are known by their names in a target, so is every narrow one. -/
theorem evaluate_rendered {tokens : List Token} {names : List String} (hshift : shift.ShiftsOne)
    (htokens : tokens = flag.kind.tokens nameOf ∨ tokens = flag.kind.groupedTokens nameOf)
    (hdistinct : ∀ first ∈ names, ∀ second ∈ names, nameOf first = nameOf second → first = second)
    (hknown : known.map Prod.fst ⊆ names) (hnarrow : flag.kind.Narrow)
    (h : valueOf set known flag = .ok value) :
    evaluate shift (fun name => (rendered nameOf known).lookup name) tokens = some (.ofNat 32 value) := by
  have henv : ∀ name value, known.lookup name = some value →
      (rendered nameOf known).lookup (nameOf name) = some (.ofNat 32 value) :=
    fun name value hlookup => lookup_rendered hdistinct hknown hlookup
  rcases htokens with rfl | rfl
  · exact evaluate_tokens hshift hnarrow henv h
  · exact evaluate_groupedTokens hshift hnarrow henv h

/-- No other flag has an expression with its value: it does not fit, or nothing is combined. -/
theorem narrow_of_toInt_eq {tokens : List Token} {bits : BitVec 32}
    (htokens : tokens = flag.kind.tokens nameOf ∨ tokens = flag.kind.groupedTokens nameOf)
    (h : valueOf set known flag = .ok value) (hevaluate : evaluate shift env tokens = some bits)
    (heq : bits.toInt = value) : flag.kind.Narrow := by
  unfold valueOf at h
  split at h
  next hkind =>
    rw [hkind]
    trivial
  next place hkind =>
    rw [hkind]
    cases h
    have hlt : bits.toInt < 2 ^ 31 := BitVec.toInt_lt
    rw [heq] at hlt
    have hpow : 2 ^ place < 2 ^ 31 := by exact_mod_cast hlt
    have hplace : place < 31 := (Nat.pow_lt_pow_iff_right (by decide)).mp hpow
    change place ≤ 30
    omega
  next names hkind =>
    rw [hkind] at htokens ⊢
    rintro rfl
    rcases htokens with rfl | rfl
    · exact absurd hevaluate (by simp [Flag.Kind.tokens, disjunction, evaluate_nil])
    · exact absurd hevaluate (by
        simp [Flag.Kind.groupedTokens, Flag.Kind.tokens, disjunction, evaluate_empty_parentheses])

/-- A target has the values of flags exactly if each of them is narrow. -/
theorem map_valuesFrom_eq_iff {tokensOf : Flag.Kind → List Token} {names : List String} {flags : List Flag}
    {values : List (Flag × Nat)} (hshift : shift.ShiftsOne)
    (htokens : tokensOf = Flag.Kind.tokens nameOf ∨ tokensOf = Flag.Kind.groupedTokens nameOf)
    (hdistinct : ∀ first ∈ names, ∀ second ∈ names, nameOf first = nameOf second → first = second)
    (hflags : flags.map Flag.name ⊆ names) (hknown : known.map Prod.fst ⊆ names)
    (hlt : ∀ entry ∈ known, entry.2 < 2 ^ 31) (h : valuesFrom set known flags = .ok values) :
    (Expression.valuesFrom shift (rendered nameOf known)
        (flags.map fun flag => (nameOf flag.name, tokensOf flag.kind))).map numbers
      = some (values.map fun entry => (nameOf entry.1.name, (entry.2 : Int)))
    ↔ ∀ flag ∈ flags, flag.kind.Narrow := by
  induction flags generalizing known values with
  | nil =>
      cases h
      simp [Expression.valuesFrom, numbers]
  | cons flag rest ih =>
      rw [List.map_cons, List.cons_subset] at hflags
      rcases except_bind_eq_ok_iff.mp h with ⟨value, hvalue, hrest⟩
      rcases except_bind_eq_ok_iff.mp hrest with ⟨others, hothers, heq⟩
      cases heq
      have hforms : tokensOf flag.kind = flag.kind.tokens nameOf ∨
          tokensOf flag.kind = flag.kind.groupedTokens nameOf :=
        htokens.imp (congrFun · flag.kind) (congrFun · flag.kind)
      have hevaluate (hnarrow : flag.kind.Narrow) :=
        evaluate_rendered hshift hforms hdistinct hknown hnarrow hvalue
      have hnext (hnarrow : flag.kind.Narrow) := by
        have hnames : ((flag.name, value) :: known).map Prod.fst ⊆ names :=
          List.cons_subset.mpr ⟨hflags.1, hknown⟩
        have hbound : ∀ entry ∈ (flag.name, value) :: known, entry.2 < 2 ^ 31 :=
          List.forall_mem_cons.mpr ⟨valueOf_lt hnarrow hlt hvalue, hlt⟩
        exact ih hflags.2 hnames hbound hothers
      rw [List.map_cons, List.map_cons, map_valuesFrom_cons_eq_iff, List.forall_mem_cons]
      constructor
      · rintro ⟨bits, hbits, hnumber, hothers⟩
        have hnarrow := narrow_of_toInt_eq hforms hvalue hbits hnumber
        rw [hevaluate hnarrow] at hbits
        cases hbits
        exact ⟨hnarrow, (hnext hnarrow).mp hothers⟩
      · rintro ⟨hnarrow, hall⟩
        exact ⟨.ofNat 32 value, hevaluate hnarrow, toInt_ofNat (valueOf_lt hnarrow hlt hvalue),
          (hnext hnarrow).mpr hall⟩

end Evaluation

/-- A combination names flags of its set. -/
theorem names_subset_of_valuesFrom {names : List String} {flags : List Flag} {values : List (Flag × Nat)}
    (hflags : flags.map Flag.name ⊆ names) (hknown : known.map Prod.fst ⊆ names)
    (h : valuesFrom set known flags = .ok values) : ∀ flag ∈ flags, flag.kind.names ⊆ names := by
  induction flags generalizing known values with
  | nil => simp
  | cons flag rest ih =>
      rw [List.map_cons, List.cons_subset] at hflags
      rcases except_bind_eq_ok_iff.mp h with ⟨value, hvalue, hrest⟩
      rcases except_bind_eq_ok_iff.mp hrest with ⟨others, hothers, -⟩
      have hnext : ((flag.name, value) :: known).map Prod.fst ⊆ names :=
        List.cons_subset.mpr ⟨hflags.1, hknown⟩
      refine List.forall_mem_cons.mpr ⟨?_, ih hflags.2 hnext hothers⟩
      intro name hname
      unfold Flag.Kind.names at hname
      unfold valueOf at hvalue
      split at hname
      next => cases hname
      next combined hkind =>
        rw [hkind] at hvalue
        rcases exists_lookup_of_combine hvalue name hname with ⟨value, hfound⟩
        exact hknown (List.mem_map_of_mem (mem_of_lookup hfound))

end FlagSet

namespace FlagSet

variable {set : FlagSet} {values : List (Flag × Nat)}

theorem Sound.isPart_names (hsound : set.Sound) (h : set.values = .ok values) :
    ∀ flag ∈ set.flags, ∀ name ∈ flag.name :: flag.kind.names, ∀ c ∈ name.toList,
      Identifier.isPart c = true := by
  have hvalid : ∀ name ∈ set.flags.map Flag.name, ∀ c ∈ name.toList, Identifier.isPart c = true := by
    intro name hname
    rcases List.mem_map.mp hname with ⟨flag, hflag, rfl⟩
    exact isPart_of_isSpelled (hsound.flags flag hflag).name_valid.1
  intro flag hflag name hname
  have hcombined := names_subset_of_valuesFrom (List.Subset.refl _) (List.nil_subset _) h flag hflag
  rcases List.mem_cons.mp hname with rfl | hname
  · exact hvalid flag.name (List.mem_map_of_mem hflag)
  · exact hvalid name (hcombined hname)

theorem map_values_eq_iff {shift : ShiftRule} {nameOf : String → String}
    {tokensOf : Flag.Kind → List Token} (hshift : shift.ShiftsOne)
    (htokens : tokensOf = Flag.Kind.tokens nameOf ∨ tokensOf = Flag.Kind.groupedTokens nameOf)
    (hdistinct : (set.flags.map fun flag => nameOf flag.name).Nodup) (h : set.values = .ok values) :
    Expression.values shift (set.flags.map fun flag => (nameOf flag.name, tokensOf flag.kind))
      = some (values.map fun entry => (nameOf entry.1.name, (entry.2 : Int))) ↔ set.Narrow := by
  have hinjective : ∀ first ∈ set.flags.map Flag.name, ∀ second ∈ set.flags.map Flag.name,
      nameOf first = nameOf second → first = second := by
    have hnodup : ((set.flags.map Flag.name).map nameOf).Nodup := by rwa [List.map_map]
    intro first hfirst second hsecond
    exact List.inj_on_of_nodup_map hnodup hfirst hsecond
  exact map_valuesFrom_eq_iff hshift htokens hinjective (List.Subset.refl _) (List.nil_subset _) (by simp) h

theorem append_injective (front : String) : Function.Injective (front ++ ·) := by
  intro first second h
  have hlist := congrArg String.toList h
  simp only [String.toList_append, List.append_cancel_left_eq] at hlist
  exact String.toList_inj.mp hlist

/-- The macros of a set in the header. -/
theorem values_header_iff (hsound : set.Sound) (h : set.values = .ok values) :
    Expression.values checkedShift ((Define.lines (set.flags.map set.define)).filterMap definition?)
      = some (values.map fun entry => (set.macroName entry.1.name, (entry.2 : Int))) ↔ set.Narrow := by
  have hparts := hsound.isPart_names h
  have hdistinct : (set.flags.map fun flag => set.macroName flag.name).Nodup := by
    have hmacros := hsound.flag_names_nodup.map (append_injective (apiPrefix ++ set.macroPrefix ++ "_"))
    rwa [List.map_map] at hmacros
  rw [filterMap_definition?_lines fun flag hflag name hname =>
    hsound.isSpelled_macroName (hparts flag hflag name hname)]
  exact map_values_eq_iff shiftsOne_checkedShift (Or.inr rfl) hdistinct h

/-- The enumerators of a set in C++. -/
theorem values_cpp_iff (hsound : set.Sound)
    (hdistinct : (set.flags.map fun flag => pascalCase flag.name).Nodup) (h : set.values = .ok values) :
    Expression.values checkedShift ((enumeratorLines set.cppLines).filterMap enumerator?)
      = some (values.map fun entry => (kName entry.1.name, (entry.2 : Int))) ↔ set.Narrow := by
  have hparts := hsound.isPart_names h
  have hdistinct' : (set.flags.map fun flag => kName flag.name).Nodup := by
    have hnames := hdistinct.map (append_injective "k")
    rwa [List.map_map] at hnames
  rw [filterMap_enumerator?_cppLines fun flag hflag name hname =>
    Identifier.isSpelled_kName (hparts flag hflag name hname)]
  exact map_values_eq_iff shiftsOne_checkedShift (Or.inr rfl) hdistinct' h

/-- The enumerators of a set in C#. -/
theorem values_csharp_iff (hdistinct : (set.flags.map fun flag => pascalCase flag.name).Nodup)
    (hspelled : ∀ flag ∈ set.flags, Identifier.isSpelled (pascalCase flag.name).toList = true)
    (h : set.values = .ok values) :
    Expression.values maskedShift (set.csharpLines.filterMap enumerator?)
      = some (values.map fun entry => (pascalCase entry.1.name, (entry.2 : Int))) ↔ set.Narrow := by
  have hnames : ∀ flag ∈ set.flags, ∀ name ∈ flag.name :: flag.kind.names,
      Identifier.isSpelled (pascalCase name).toList = true := by
    have hall : ∀ name ∈ set.flags.map Flag.name, Identifier.isSpelled (pascalCase name).toList = true := by
      intro name hname
      rcases List.mem_map.mp hname with ⟨flag, hflag, rfl⟩
      exact hspelled flag hflag
    intro flag hflag name hname
    have hcombined := names_subset_of_valuesFrom (List.Subset.refl _) (List.nil_subset _) h flag hflag
    rcases List.mem_cons.mp hname with rfl | hname
    · exact hspelled flag hflag
    · exact hall name (hcombined hname)
  rw [filterMap_enumerator?_csharpLines hnames]
  exact map_values_eq_iff shiftsOne_maskedShift (Or.inl rfl) hdistinct h

/-- What the files of the targets make of the flags of the set at a position, given their values. Python has
the values. The expressions of the other targets have them exactly if the set is narrow; in C++ and C# the
names of the flags must not clash, and in C# they must be identifiers. -/
structure Agree (interface : Interface) (sources : Sources) (index : Nat) (set : FlagSet)
    (values : List (Flag × Nat)) : Prop where
  flags : values.map Prod.fst = set.flags
  python : ∀ edits, Target.python.emitter.emit interface sources = .ok edits →
    (linesOf edits "yogi-python/yogi/_enums.py" (interface.enumerations.length + index)).map member?
      = values.map fun entry => some (constantCase entry.1.name, toString (entry.2 : Int))
  header : ∀ edits, Target.core.emitter.emit interface sources = .ok edits →
    (Expression.values checkedShift (((groups (linesOf edits
        "yogi-core/include/yogi_core.h" 3))[index]?.getD []).filterMap definition?)
      = some (values.map fun entry => (set.macroName entry.1.name, (entry.2 : Int))) ↔ set.Narrow)
  cpp : (set.flags.map fun flag => pascalCase flag.name).Nodup →
    ∀ edits, Target.cpp.emitter.emit interface sources = .ok edits →
    (Expression.values checkedShift ((enumeratorLines (linesOf edits "yogi-cpp/include/yogi/enums.h"
        (2 * interface.enumerations.length + index))).filterMap enumerator?)
      = some (values.map fun entry => (kName entry.1.name, (entry.2 : Int))) ↔ set.Narrow)
  dotnet : (set.flags.map fun flag => pascalCase flag.name).Nodup →
    (∀ flag ∈ set.flags, Identifier.isSpelled (pascalCase flag.name).toList = true) →
    ∀ edits, Target.dotnet.emitter.emit interface sources = .ok edits →
    (Expression.values maskedShift ((linesOf edits "yogi-dotnet/yogi/Enums.cs"
        (interface.enumerations.length + index)).filterMap enumerator?)
      = some (values.map fun entry => (pascalCase entry.1.name, (entry.2 : Int))) ↔ set.Narrow)

theorem getElem?_cppBlocks {interface : Interface} {index : Nat} (h : interface.flagSets[index]? = some set) :
    (CppBindings.enumerationBlocks interface)[2 * interface.enumerations.length + index]?
      = some set.cppLines := by
  have hlength : (interface.enumerations.flatMap fun enumeration =>
      [enumeration.cppMembers, enumeration.cppCases]).length = 2 * interface.enumerations.length := by
    induction interface.enumerations with
    | nil => rfl
    | cons first rest ih => rw [List.flatMap_cons, List.length_append, ih]; simp; omega
  unfold CppBindings.enumerationBlocks
  rw [List.getElem?_append_right (by omega), hlength, Nat.add_sub_cancel_left, List.getElem?_map, h]
  rfl

theorem agree_of_values {interface : Interface} {index : Nat} (sources : Sources) (hsound : set.Sound)
    (hset : interface.flagSets[index]? = some set) (hvalues : set.values = .ok values) :
    Agree interface sources index set values := by
  have hflags := map_fst_of_valuesFrom hvalues
  have hnominal : ∀ entry ∈ values, Nominal (constantCase entry.1.name) := by
    intro entry hentry
    have hflag : entry.1 ∈ set.flags := hflags ▸ List.mem_map_of_mem hentry
    exact nominal_constantCase (nominal_of_isValid (hsound.flags entry.1 hflag).name_valid)
  exact
    { flags := hflags
      python := by
        intro edits hemit
        rcases Target.python_enumerations hemit with ⟨flagSets, hflagSets, hpython⟩
        rcases exists_getElem?_of_mapM hflagSets hset with ⟨lines, hlines, hrendered⟩
        rcases except_bind_eq_ok_iff.mp hrendered with ⟨rendered, hrendered, hlines'⟩
        cases hvalues.symm.trans hrendered
        cases hlines'
        rw [hpython, List.getElem?_append_right (by simp), List.length_map, Nat.add_sub_cancel_left, hlines,
          Option.getD_some, List.map_map]
        refine List.map_congr_left fun entry hentry => ?_
        rw [Function.comp_apply, Enumeration.member?_pythonMember (hnominal entry hentry)]
      header := by
        intro edits hemit
        have hsome : interface.flagSets ≠ [] := by
          rintro hnil
          rw [hnil] at hset
          cases hset
        rw [(Target.core_header hemit).2.2, groups_headerLines hsome, List.getElem?_map, hset]
        exact values_header_iff hsound hvalues
      cpp := by
        intro hdistinct edits hemit
        rw [Target.cpp_enumerations hemit, getElem?_cppBlocks hset]
        exact values_cpp_iff hsound hdistinct hvalues
      dotnet := by
        intro hdistinct hspelled edits hemit
        rw [Target.dotnet_enumerations hemit, DotnetBindings.enumerationBlocks,
          List.getElem?_append_right (by simp), List.length_map, Nat.add_sub_cancel_left, List.getElem?_map,
          hset]
        exact values_csharp_iff hdistinct hspelled hvalues }

end FlagSet

namespace Interface

variable {file source : String} {interface : Interface}

/-- The flags of a set have their values in Python, and in C, C++ and C# exactly if none of them has the
sign bit of 32 bits or one beyond it, and none combines nothing. -/
theorem flag_values_agree {index : Nat} {set : FlagSet} {values : List (Flag × Nat)} (sources : Sources)
    (hload : load file source = .ok interface) (hset : interface.flagSets[index]? = some set)
    (hvalues : set.values = .ok values) : FlagSet.Agree interface sources index set values := by
  rcases exists_records_of_load hload with ⟨table, records, htable, hread, hrecords⟩
  have hsound := (of_ofRecords (Toml.distinct_of_read? htable) hread hrecords).1
  exact FlagSet.agree_of_values sources (hsound.flagSets set (List.mem_of_getElem? hset)) hset hvalues

end Interface

/-- The flags of the described set are narrow, and all targets have files with them. -/
theorem Interface.flag_values_agree_described : ∃ (interface : Interface) (edits : Target → List Edit)
    (values : List (Flag × Nat)),
    load "core_api.toml" Sample.description = .ok interface ∧
      (∀ target : Target, target.emitter.emit interface Sample.sources = .ok (edits target)) ∧
      interface.flagSets[0]? = some Sample.events ∧ Sample.events.Narrow ∧
      Sample.events.values = .ok values ∧
      FlagSet.Agree interface Sample.sources 0 Sample.events values := by
  obtain ⟨interface, edits, hload, hemit, hsets⟩ := Sample.exists_emitted
  have hset : interface.flagSets[0]? = some Sample.events := by rw [hsets]; rfl
  have hnarrow : Sample.events.Narrow := by
    simp [FlagSet.Narrow, Flag.Kind.Narrow, Sample.events]
  have hvalues : Sample.events.values = .ok _ := rfl
  exact ⟨interface, edits, _, hload, hemit, hset, hnarrow, hvalues,
    flag_values_agree Sample.sources hload hset hvalues⟩

namespace Sample

/-- A description with a flag beyond the sign bit, and one that combines no flags. -/
def oddFlags : String :=
"copyright = \"\"

[version]
major = 1
minor = 2
patch = 3

[constants]

[functions]

[enums]

[flags.wide]
High = \x7b bit = 32 \x7d

[flags.vacant]
Nothing = \x7b combine = [] \x7d

[type_mappings]
"

def wide : FlagSet := ⟨"wide", none, [⟨"High", "", .bit (some 32)⟩]⟩

def vacant : FlagSet := ⟨"vacant", none, [⟨"Nothing", "", .combine []⟩]⟩

set_option maxRecDepth 10000 in
theorem exists_oddFlags : ∃ (interface : Interface) (edits : Target → List Edit),
    Interface.load "core_api.toml" oddFlags = .ok interface ∧
      (∀ target : Target, target.emitter.emit interface sources = .ok (edits target)) ∧
      interface.enumerations = [] ∧ interface.flagSets = [wide, vacant] :=
  exists_emitted_of_described String.toList_ofList (by decide)

end Sample

/-- A flag of bit 32 has the value 1 in C# and none in C, and a combination of nothing has a value in
neither. -/
theorem Interface.flag_values_differ : ∃ (interface : Interface) (edits : Target → List Edit),
    load "core_api.toml" Sample.oddFlags = .ok interface ∧
      (∀ target : Target, target.emitter.emit interface Sample.sources = .ok (edits target)) ∧
      Sample.wide.values = .ok [(⟨"High", "", .bit (some 32)⟩, 4294967296)] ∧
      Expression.values maskedShift ((linesOf (edits .dotnet) "yogi-dotnet/yogi/Enums.cs" 0).filterMap
        enumerator?) = some [("High", 1)] ∧
      Sample.vacant.values = .ok [(⟨"Nothing", "", .combine []⟩, 0)] ∧
      Expression.values maskedShift ((linesOf (edits .dotnet) "yogi-dotnet/yogi/Enums.cs" 1).filterMap
        enumerator?) = none ∧
      ∀ group ∈ groups (linesOf (edits .core) "yogi-core/include/yogi_core.h" 3),
        Expression.values checkedShift (group.filterMap definition?) = none := by
  obtain ⟨interface, edits, hload, hemit, henumerations, hsets⟩ := Sample.exists_oddFlags
  have hdotnet (block : Nat) : linesOf (edits .dotnet) "yogi-dotnet/yogi/Enums.cs" block
      = ([Sample.wide.csharpLines, Sample.vacant.csharpLines][block]?).getD [] := by
    rw [Target.dotnet_enumerations (hemit .dotnet), DotnetBindings.enumerationBlocks, henumerations, hsets]
    rfl
  have hheader : groups (linesOf (edits .core) "yogi-core/include/yogi_core.h" 3)
      = [Sample.wide, Sample.vacant].map fun set => Define.lines (set.flags.map set.define) := by
    rw [(Target.core_header (hemit .core)).2.2, FlagSet.groups_headerLines (by simp [hsets]), hsets]
  refine ⟨interface, edits, hload, hemit, ?_⟩
  rw [hdotnet, hdotnet, hheader]
  exact ⟨by decide, by decide, by decide, by decide, by decide⟩

end Bindery
