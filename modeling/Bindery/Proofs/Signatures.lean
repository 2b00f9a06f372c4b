import Bindery.Interface.Load
import Bindery.Proofs.Keys
import Bindery.Proofs.Outcome

/-!
# Signatures of a description

What holds of every signature that the loader lets through, that of a function and those of its
callbacks at whatever depth: its names are identifiers, no name stands for two arguments, no type is
blank, and the arguments stand in the order of the document.
-/

namespace Bindery

open Text Toml

/-- A name that may be an identifier in C. -/
def Identifier.IsValid (name : String) : Prop := isSpelled name.toList = true ∧ name ∉ keywords

theorem Place.checkName_eq_ok_iff {place : Place} {name kind : String} :
    place.checkName name kind = .ok () ↔ Identifier.IsValid name := by
  rw [Identifier.IsValid, ← Identifier.fault?_eq_none_iff, checkName]
  cases Identifier.fault? name <;> simp

/-- What stands at a field of a record, which has the given number among the fields when the record
is written as a list. -/
def Record.field? (name : String) (number : Nat) : Value → Option Value
  | .table entries => entries.lookup name
  | .array items => items[number]?
  | _ => none

theorem mem_of_lookup {κ α : Type} [BEq κ] [LawfulBEq κ] {key : κ} {value : α} {entries : List (κ × α)}
    (h : entries.lookup key = some value) : (key, value) ∈ entries := by
  obtain ⟨before, after, rfl, -⟩ := List.lookup_eq_some_iff.mp h
  simp

theorem lookup_map_of_mem {α κ β : Type} [BEq κ] [LawfulBEq κ] {key : α → κ} {value : α → β}
    {items : List α} {item : α} (hnodup : (items.map key).Nodup) (hmem : item ∈ items) :
    (items.map fun item => (key item, value item)).lookup (key item) = some (value item) := by
  induction items with
  | nil => cases hmem
  | cons first rest ih =>
      rw [List.map_cons, List.nodup_cons] at hnodup
      rw [List.map_cons, List.lookup_cons]
      rcases List.mem_cons.mp hmem with rfl | hrest
      · simp
      · have hne : (key item == key first) = false := by
          rw [beq_eq_false_iff_ne]
          intro heq
          exact hnodup.1 (heq ▸ List.mem_map_of_mem hrest)
        rw [hne]
        exact ih hnodup.2 hrest

namespace Record

variable {name : String} {value : Value} {arg : Argument} {args : List Argument}
  {entries : Table}

theorem distinct_of_field? {number : Nat} {inner : Value} (hvalue : value.Distinct)
    (h : field? name number value = some inner) : inner.Distinct := by
  unfold field? at h
  split at h
  · exact hvalue.entries _ (mem_of_lookup h)
  · exact hvalue.items _ (List.mem_of_getElem? h)
  · cases h

theorem distinct_of_freeEntries? (hvalue : value.Distinct) (h : freeEntries? value = some entries) :
    Value.Distinct (.table entries) := by
  unfold freeEntries? at h
  split at h
  · cases h
    exact hvalue
  · cases h
    refine .table (by simp [keys]) ?_
    simpa using .plain rfl rfl
  · cases h

/-- The entries of the arguments of a function or callback. -/
def argumentEntries (value : Value) : Table :=
  ((field? "args" 1 value).bind freeEntries?).getD []

theorem distinct_argumentEntries (hvalue : value.Distinct) :
    Value.Distinct (.table (argumentEntries value)) := by
  unfold argumentEntries
  cases hargs : (field? "args" 1 value).bind freeEntries? with
  | none => exact .table (by simp [keys]) (by simp)
  | some entries =>
      obtain ⟨inner, hinner, hentries⟩ := Option.bind_eq_some_iff.mp hargs
      exact distinct_of_freeEntries? (distinct_of_field? hvalue hinner) hentries

/-- A callback that is written as a table has the arguments of the one entry for them, or those that
were read before. -/
theorem exists_of_callback? {returnType? : Option String} {args? : Option (List Argument)}
    (hkeys : (keys entries).Nodup) (h : callback? name returnType? args? entries = some arg) :
    ∃ returnType args, arg = .callback name returnType args ∧
      (entries.lookup "args" = none ∧ args = args?.getD [] ∨
        ((entries.lookup "args").bind freeEntries?).bind arguments? = some args) := by
  induction entries generalizing returnType? args? with
  | nil =>
      rw [callback?] at h
      obtain ⟨returnType, -, rfl⟩ := Option.map_eq_some_iff.mp h
      exact ⟨returnType, _, rfl, Or.inl ⟨rfl, rfl⟩⟩
  | cons entry rest ih =>
      obtain ⟨key, value⟩ := entry
      obtain ⟨hkey, hrest⟩ := List.nodup_cons.mp hkeys
      -- behind the entry for the arguments there is no other one
      have hargs {args : List Argument} (hfree : (freeEntries? value).bind arguments? = some args)
          (heq : key = "args") (hcallback : callback? name returnType? (some args) rest = some arg) :
          ∃ returnType args, arg = .callback name returnType args ∧
            (List.lookup "args" ((key, value) :: rest) = none ∧ args = args?.getD [] ∨
              ((List.lookup "args" ((key, value) :: rest)).bind freeEntries?).bind arguments?
                = some args) := by
        subst heq
        obtain ⟨returnType, args', rfl, hlater⟩ := ih hrest hcallback
        refine ⟨returnType, args', rfl, Or.inr ?_⟩
        rcases hlater with ⟨-, rfl⟩ | hsome
        · simpa [List.lookup_cons] using hfree
        · obtain ⟨free, hfree, -⟩ := Option.bind_eq_some_iff.mp hsome
          obtain ⟨other, hother, -⟩ := Option.bind_eq_some_iff.mp hfree
          exact absurd (List.mem_map_of_mem (mem_of_lookup hother)) hkey
      cases value with
      | string text =>
          rw [callback?] at h
          split at h
          next heq =>
            subst heq
            simpa [List.lookup_cons] using ih hrest h
          next => cases h
      | table inner =>
          rw [callback?] at h
          split at h
          next heq =>
            obtain ⟨args, hinner, h⟩ := Option.bind_eq_some_iff.mp h
            exact hargs (by simpa [freeEntries?] using hinner) heq h
          next => cases h
      | datetime value =>
          rw [callback?] at h
          split at h
          next heq =>
            refine hargs ?_ heq h
            simp [freeEntries?, arguments?, argument?, datetimeArguments]
          next => cases h
      | _ => simp [callback?] at h

/-- An argument is a text, or has the arguments that stand at its field for them. -/
theorem argument?_cases (hvalue : value.Distinct) (h : argument? name value = some arg) :
    (∃ type, value = .string type ∧ arg = .scalar name type) ∨
      ∃ returnType args, arg = .callback name returnType args ∧
        arguments? (argumentEntries value) = some args := by
  unfold argument? at h
  split at h
  next type =>
    cases h
    exact Or.inl ⟨type, rfl, rfl⟩
  next entries =>
    obtain ⟨returnType, args, rfl, hargs⟩ := exists_of_callback? hvalue.nodup h
    refine Or.inr ⟨returnType, args, rfl, ?_⟩
    rcases hargs with ⟨hnone, rfl⟩ | hsome
    · simp [argumentEntries, field?, hnone, arguments?]
    · obtain ⟨free, hfree, hargs⟩ := Option.bind_eq_some_iff.mp hsome
      simpa [argumentEntries, field?, hfree] using hargs
  next returnType =>
    cases h
    exact Or.inr ⟨returnType, [], rfl, by simp [argumentEntries, field?, arguments?]⟩
  next returnType entries =>
    obtain ⟨args, hargs, rfl⟩ := Option.map_eq_some_iff.mp h
    exact Or.inr ⟨returnType, args, rfl, by simpa [argumentEntries, field?, freeEntries?] using hargs⟩
  next returnType date =>
    cases h
    refine Or.inr ⟨returnType, datetimeArguments date, rfl, ?_⟩
    simp [argumentEntries, field?, freeEntries?, arguments?, argument?, datetimeArguments]
  next => cases h

theorem lookup_zip {names : List String} {items : List Value} {number : Nat} (hnames : names.Nodup)
    (hname : names[number]? = some name) : (names.zip items).lookup name = items[number]? := by
  induction names generalizing items number with
  | nil => simp at hname
  | cons first rest ih =>
      obtain ⟨hfirst, hrest⟩ := List.nodup_cons.mp hnames
      cases items with
      | nil => simp
      | cons item items =>
          cases number with
          | zero =>
              obtain rfl : first = name := by simpa using hname
              simp
          | succ number =>
              have hmem : name ∈ rest := List.mem_of_getElem? hname
              have hne : (name == first) = false := beq_eq_false_iff_ne.mpr fun heq => hfirst (heq ▸ hmem)
              simpa [List.lookup_cons, hne] using ih hrest hname

/-- A field is found where its number among the fields says. -/
theorem lookup_of_fields? {names : List String} {number : Nat} {fields : Fields} (hnames : names.Nodup)
    (hname : names[number]? = some name) (h : fields? false names value = some fields) :
    fields.lookup name = field? name number value := by
  unfold fields? at h
  split at h
  · split at h
    · cases h
      rfl
    · cases h
  next items =>
    simp only [Bool.false_and, Bool.false_eq_true, if_false, Option.some.injEq] at h
    subst h
    exact lookup_zip hnames hname
  · cases h

theorem function?_eq_some {function : Function} (h : function? name value = some function) :
    function.name = name ∧ arguments? (argumentEntries value) = some function.args := by
  obtain ⟨fields, hfields, h⟩ := Option.bind_eq_some_iff.mp h
  have hfield : fields.lookup "args" = field? "args" 1 value :=
    lookup_of_fields? (by decide) rfl hfields
  rw [hfield] at h
  unfold argumentEntries
  cases hinner : field? "args" 1 value with
  | none =>
      rw [hinner] at h
      obtain ⟨args, hread, h⟩ := Option.bind_eq_some_iff.mp h
      obtain ⟨returnType, -, h⟩ := Option.bind_eq_some_iff.mp h
      cases hread
      cases h
      exact ⟨rfl, by simp [arguments?]⟩
  | some inner =>
      rw [hinner] at h
      obtain ⟨args, hread, h⟩ := Option.bind_eq_some_iff.mp h
      obtain ⟨returnType, -, h⟩ := Option.bind_eq_some_iff.mp h
      cases h
      obtain ⟨free, hfree, hargs⟩ := Option.bind_eq_some_iff.mp hread
      exact ⟨rfl, by simpa [hfree] using hargs⟩

end Record

/-- Arguments stand in the order of their entries in the document, and so do those of each callback
among them. -/
inductive Argument.Listed : List Argument → Table → Prop
  | nil : Listed [] []
  | scalar {args : List Argument} {entries : Table} (name type : String)
      (hrest : Listed args entries) :
      Listed (.scalar name type :: args) ((name, .string type) :: entries)
  | callback {args inner : List Argument} {entries : Table} {value : Value}
      (name returnType : String) (hinner : Listed inner (Record.argumentEntries value))
      (hrest : Listed args entries) :
      Listed (.callback name returnType inner :: args) ((name, value) :: entries)

/-- The signature of an argument that is a callback. -/
def Argument.signature? : Argument → Option Function
  | .scalar _ _ => none
  | .callback name returnType args => some { name, returnType, args }

namespace Argument

variable {args : List Argument} {entries : Table} {place : Place}

theorem listed_of_arguments? : ∀ {args : List Argument} {entries : Table},
    Value.Distinct (.table entries) → Record.arguments? entries = some args → Listed args entries
  | args, [], _, h => by
    cases h
    exact .nil
  | args, (name, value) :: entries, hentries, h => by
    rw [Record.arguments?] at h
    obtain ⟨arg, harg, h⟩ := Option.bind_eq_some_iff.mp h
    obtain ⟨rest, hrest, rfl⟩ := Option.map_eq_some_iff.mp h
    obtain ⟨hvalue, hothers⟩ := List.forall_mem_cons.mp hentries.entries
    have hlisted : Listed rest entries :=
      listed_of_arguments? (.table (List.nodup_cons.mp hentries.nodup).2 hothers) hrest
    rcases Record.argument?_cases hvalue harg with ⟨type, rfl, rfl⟩ | ⟨returnType, inner, rfl, hinner⟩
    · exact .scalar name type hlisted
    · exact .callback name returnType
        (listed_of_arguments? (Record.distinct_argumentEntries hvalue) hinner) hlisted
termination_by args => sizeOf args

theorem Listed.names_eq_keys (h : Listed args entries) : args.map Argument.name = keys entries := by
  induction h with
  | nil => rfl
  | scalar name type _ ih => simp [keys, Argument.name, ih]
  | callback name returnType _ _ _ ih => simp [keys, Argument.name, ih]

theorem Listed.exists_of_signature? {arg : Argument} {callback : Function} (h : Listed args entries)
    (harg : arg ∈ args) (hcallback : arg.signature? = some callback) :
    ∃ entry ∈ entries, Listed callback.args (Record.argumentEntries entry.2) := by
  induction h with
  | nil => simp at harg
  | scalar name type _ ih =>
      rcases List.mem_cons.mp harg with rfl | hmem
      · cases hcallback
      · obtain ⟨entry, hentry, hlisted⟩ := ih hmem
        exact ⟨entry, List.mem_cons_of_mem _ hentry, hlisted⟩
  | callback name returnType hinner _ _ ih =>
      rcases List.mem_cons.mp harg with rfl | hmem
      · cases hcallback
        exact ⟨_, List.mem_cons_self, hinner⟩
      · obtain ⟨entry, hentry, hlisted⟩ := ih hmem
        exact ⟨entry, List.mem_cons_of_mem _ hentry, hlisted⟩

theorem forall_check_of_checkAll (h : checkAll place args = .ok ()) :
    ∀ arg ∈ args, arg.check place = .ok () := by
  induction args with
  | nil => simp
  | cons arg rest ih =>
      rw [checkAll] at h
      obtain ⟨⟨⟩, harg, hrest⟩ := except_bind_eq_ok_iff.mp h
      exact List.forall_mem_cons.mpr ⟨harg, ih hrest⟩

theorem check_scalar {name type : String} (h : (scalar name type).check place = .ok ()) :
    Identifier.IsValid name ∧ isBlankText type = false := by
  rw [check] at h
  obtain ⟨⟨⟩, hname, h⟩ := except_bind_eq_ok_iff.mp h
  refine ⟨Place.checkName_eq_ok_iff.mp hname, ?_⟩
  split at h
  · cases h
  next hblank => exact Bool.eq_false_iff.mpr hblank

theorem check_callback {name returnType : String} (h : (callback name returnType args).check place = .ok ()) :
    Identifier.IsValid name ∧ isBlankText returnType = false ∧
      checkAll (place.enter name) args = .ok () := by
  rw [check] at h
  obtain ⟨⟨⟩, hname, h⟩ := except_bind_eq_ok_iff.mp h
  refine ⟨Place.checkName_eq_ok_iff.mp hname, ?_⟩
  dsimp only at h
  split at h
  · cases h
  next hblank => exact ⟨Bool.eq_false_iff.mpr hblank, h⟩

end Argument

namespace Function

variable {function inner : Function}

/-- A signature is that of a function or, at whatever depth, of a callback among its arguments. -/
inductive Nests : Function → Function → Prop
  | self (function : Function) : Nests function function
  | callback {function callback inner : Function} {arg : Argument} (harg : arg ∈ function.args)
      (hcallback : arg.signature? = some callback) (hinner : Nests callback inner) :
      Nests function inner

/-- What holds of a signature by itself. -/
structure Sound (function : Function) : Prop where
  name_valid : Identifier.IsValid function.name
  return_type : isBlankText function.returnType = false
  arg_names_valid : ∀ arg ∈ function.args, Identifier.IsValid arg.name
  arg_names_nodup : (function.args.map Argument.name).Nodup
  arg_types : ∀ name type, .scalar name type ∈ function.args → isBlankText type = false
  callback_names : ∀ arg ∈ function.args, ∀ callback ∈ arg.signature?, callback.name = arg.name

/-- A signature that the loader read from a value of the document and let through. -/
structure Admitted (function : Function) : Prop where
  name_valid : Identifier.IsValid function.name
  return_type : isBlankText function.returnType = false
  args_checked : ∃ place, Argument.checkAll place function.args = .ok ()
  args_listed : ∃ entries : Table, Value.Distinct (.table entries) ∧ Argument.Listed function.args entries

theorem admitted_of_check {place : Place} {name : String} {value : Value} (hvalue : value.Distinct)
    (hread : Record.function? name value = some function) (h : function.check place = .ok ()) :
    Admitted function := by
  rw [check] at h
  obtain ⟨⟨⟩, hname, h⟩ := except_bind_eq_ok_iff.mp h
  dsimp only at h
  split at h
  · cases h
  next hblank =>
    have hargs := Record.distinct_argumentEntries hvalue
    exact
      { name_valid := Place.checkName_eq_ok_iff.mp hname
        return_type := Bool.eq_false_iff.mpr hblank
        args_checked := ⟨_, h⟩
        args_listed := ⟨_, hargs, Argument.listed_of_arguments? hargs (Record.function?_eq_some hread).2⟩ }

/-- The signature of a callback was let through with the one that has it as an argument. -/
theorem Admitted.callback {arg : Argument} {callback : Function} (h : Admitted function)
    (harg : arg ∈ function.args) (hcallback : arg.signature? = some callback) : Admitted callback := by
  obtain ⟨place, hchecked⟩ := h.args_checked
  obtain ⟨entries, hentries, hlisted⟩ := h.args_listed
  obtain ⟨entry, hentry, hinner⟩ := hlisted.exists_of_signature? harg hcallback
  have hcheck := Argument.forall_check_of_checkAll hchecked arg harg
  cases arg with
  | scalar name type => cases hcallback
  | callback name returnType args =>
      cases hcallback
      obtain ⟨hname, hreturn, hargs⟩ := Argument.check_callback hcheck
      exact
        { name_valid := hname
          return_type := hreturn
          args_checked := ⟨_, hargs⟩
          args_listed := ⟨_, Record.distinct_argumentEntries (hentries.entries entry hentry), hinner⟩ }

theorem Admitted.nested (h : Admitted function) (hnests : Nests function inner) : Admitted inner := by
  induction hnests with
  | self function => exact h
  | callback harg hcallback _ ih => exact ih (h.callback harg hcallback)

theorem Admitted.sound (h : Admitted function) : Sound function := by
  obtain ⟨place, hchecked⟩ := h.args_checked
  obtain ⟨entries, hentries, hlisted⟩ := h.args_listed
  have hcheck := Argument.forall_check_of_checkAll hchecked
  exact
    { name_valid := h.name_valid
      return_type := h.return_type
      arg_names_valid := by
        intro arg harg
        cases arg with
        | scalar name type => exact (Argument.check_scalar (hcheck _ harg)).1
        | callback name returnType args => exact (Argument.check_callback (hcheck _ harg)).1
      arg_names_nodup := by
        rw [hlisted.names_eq_keys]
        exact hentries.nodup
      arg_types := fun name type harg => (Argument.check_scalar (hcheck _ harg)).2
      callback_names := by
        intro arg harg callback hcallback
        cases arg with
        | scalar name type => cases hcallback
        | callback name returnType args =>
            cases hcallback
            rfl }

end Function

end Bindery
