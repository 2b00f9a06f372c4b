import Bindery.Proofs.ConstantLines

/-!
# Lines of members

What the lines that the targets emit for the members of an enumeration are read back as.
-/

namespace Bindery

open Text Naming Declaration

namespace Enumeration

variable {enumeration : Enumeration}

/-- The names of an enumeration that is sound consist of characters of names and numbers. -/
structure Named (enumeration : Enumeration) : Prop where
  members : ∀ member ∈ enumeration.members, Nominal member.name
  macroPrefix : Nominal enumeration.macroPrefix

theorem Sound.named (h : enumeration.Sound) : enumeration.Named where
  members := by
    intro member hmember
    have hsound := h.members member hmember
    cases hvalue : member.value? with
    | none => exact nominal_of_isValid (hsound.name_valid hvalue)
    | some value => exact nominal_of_spells (hsound.spelled value hvalue)
  macroPrefix := by
    unfold Enumeration.macroPrefix
    split
    next given hgiven => exact nominal_of_isValid (h.prefix_valid given hgiven)
    next =>
      split
      · decide
      · exact nominal_constantCase (nominal_of_isValid h.name_valid)

theorem values_map_fst (enumeration : Enumeration) :
    enumeration.values.map Prod.fst = enumeration.members := by
  simp [values, List.map_map, Function.comp_def]

theorem Named.of_mem_values (h : enumeration.Named) {entry : Member × Int}
    (hentry : entry ∈ enumeration.values) : Nominal entry.1.name := by
  have hmem := List.mem_map_of_mem (f := Prod.fst) hentry
  rw [values_map_fst] at hmem
  exact h.members entry.1 hmem

theorem Named.macroName (h : enumeration.Named) {name : String} (hname : Nominal name) (value : Int) :
    Nominal (enumeration.macroName name value) := by
  unfold Enumeration.macroName
  split
  · exact nominal_append.mpr ⟨by decide, hname⟩
  · exact nominal_append.mpr ⟨nominal_append.mpr ⟨nominal_append.mpr ⟨by decide, h.macroPrefix⟩,
      by decide⟩, hname⟩

theorem macroName_ne_empty (enumeration : Enumeration) (name : String) (value : Int) :
    (enumeration.macroName name value).toList ≠ [] := by
  unfold Enumeration.macroName
  split <;> simp [apiPrefix, String.toList_append]

theorem Named.pascalName (h : enumeration.Named) {name : String} (hname : Nominal name) :
    Nominal (enumeration.pascalName name) := by
  unfold Enumeration.pascalName
  split
  · exact nominal_append.mpr ⟨nominal_pascalCase h.macroPrefix, hname⟩
  · exact nominal_pascalCase hname

theorem Named.constantName (h : enumeration.Named) {name : String} (hname : Nominal name) :
    Nominal (enumeration.constantName name) := by
  unfold Enumeration.constantName
  split
  · exact nominal_append.mpr ⟨nominal_append.mpr ⟨h.macroPrefix, by decide⟩, hname⟩
  · exact nominal_constantCase hname

theorem filterMap_macro?_defines (h : enumeration.Named) :
    (Define.lines (enumeration.values.map fun (member, value) => enumeration.define member value)).filterMap
        macro?
      = enumeration.values.map fun entry =>
        (enumeration.macroName entry.1.name entry.2, toString entry.2) := by
  rw [Define.filterMap_macro?_lines, List.map_map]
  · rfl
  · rintro define hdefine
    obtain ⟨entry, hentry, rfl⟩ := List.mem_map.mp hdefine
    exact ⟨h.macroName (h.of_mem_values hentry) entry.2, macroName_ne_empty _ _ _,
      nominal_toString_int entry.2, toString_int_ne_empty entry.2⟩

theorem filterMap_macro?_headerLines {interface : Interface}
    (h : ∀ enumeration ∈ interface.enumerations, enumeration.Named) :
    (headerLines interface).filterMap macro? = interface.enumerations.flatMap fun enumeration =>
      enumeration.values.map fun entry =>
        (enumeration.macroName entry.1.name entry.2, toString entry.2) := by
  unfold headerLines
  rw [filterMap_separate (by decide), List.flatMap_map]
  exact List.flatMap_congr fun enumeration hmem => filterMap_macro?_defines (h enumeration hmem)

theorem map_member?_cppMembers (h : enumeration.Named) :
    enumeration.cppMembers.map member? = enumeration.values.map fun entry =>
      some (kName entry.1.name, toString entry.2) := by
  unfold cppMembers
  generalize columnWidth (enumeration.members.map fun member => kName member.name) = width
  dsimp only
  rw [List.map_map]
  refine List.map_congr_left fun entry hentry => ?_
  have hname := nominal_kName (h.of_mem_values hentry)
  have hvalue := nominal_toString_int entry.2
  simp only [Function.comp_apply]
  generalize toString entry.2 = value at hvalue ⊢
  unfold padRight padLeft
  generalize hgap : String.ofList (List.replicate (width - (kName entry.1.name).length) ' ') = gap
  generalize hgap' : String.ofList (List.replicate (3 - value.length) ' ') = gap'
  have hline : "  " ++ (kName entry.1.name ++ gap) ++ " = " ++ (gap' ++ value) ++ ", ///< "
        ++ singleLine entry.1.help
      = "  " ++ kName entry.1.name ++ gap ++ " = " ++ gap' ++ value ++ "," ++ (" ///< "
        ++ singleLine entry.1.help) :=
    String.toList_inj.mp (by simp [String.toList_append])
  rw [hline]
  exact member?_declare (by decide) hname (hgap ▸ allBlank_replicate _)
    (hgap' ▸ allBlank_replicate _) hvalue (blankFirst_of_ne (by simp) (by decide))

theorem filterMap_member?_csharpMembers (h : enumeration.Named) :
    enumeration.csharpMembers.filterMap member? = enumeration.values.map fun entry =>
      (enumeration.pascalName entry.1.name, toString entry.2) := by
  have hblank : member? "" = none := by decide
  unfold csharpMembers
  rw [List.filterMap_append, List.filterMap_cons_none hblank, List.filterMap_nil, List.append_nil]
  apply filterMap_flatMap_of_forall
  intro entry hentry
  have hname : Nominal (enumeration.pascalName entry.1.name) := h.pascalName (h.of_mem_values hentry)
  have hdoc : member? ("        /// <summary>" ++ singleLine entry.1.help ++ "</summary>") = none := by
    have hline : "        /// <summary>" ++ singleLine entry.1.help ++ "</summary>"
        = "        " ++ "/// " ++ ("<summary>" ++ singleLine entry.1.help ++ "</summary>") :=
      String.toList_inj.mp (by simp [String.toList_append])
    rw [hline]
    exact member?_documentation (by decide)
  have hmember : member? ("        " ++ enumeration.pascalName entry.1.name ++ " = "
      ++ toString entry.2 ++ ",") = some (enumeration.pascalName entry.1.name, toString entry.2) := by
    have hvalue := nominal_toString_int entry.2
    generalize toString entry.2 = value at hvalue ⊢
    have hfront : AllBlank "        " := by decide
    have hnone : AllBlank "" := by decide
    have hend : BlankFirst "" := by decide
    have hread := member?_declare hfront hname hnone hnone hvalue hend
    simpa only [String.append_empty] using hread
  rw [List.filterMap_cons_none hblank, List.filterMap_cons_none hdoc, List.filterMap_cons_some hmember,
    List.filterMap_nil]

theorem member?_pythonMember {name : String} (hname : Nominal name) (value : Int) (help : String) :
    member? (pythonMember name value help) = some (name, toString value) := by
  have hvalue := nominal_toString_int value
  unfold pythonMember
  generalize toString value = number at hvalue ⊢
  generalize pythonQuoted (singleLine help) = text
  have hline : "    " ++ name ++ " = " ++ number ++ ", " ++ text
      = "    " ++ name ++ "" ++ " = " ++ "" ++ number ++ "," ++ (" " ++ text) :=
    String.toList_inj.mp (by simp [String.toList_append])
  rw [hline]
  exact member?_declare (by decide) hname (by decide) (by decide) hvalue
    (blankFirst_of_ne (by simp) (by decide))

theorem map_member?_pythonMembers (h : enumeration.Named) :
    enumeration.pythonMembers.map member? = enumeration.values.map fun entry =>
      some (enumeration.constantName entry.1.name, toString entry.2) := by
  unfold pythonMembers
  rw [List.map_map]
  refine List.map_congr_left fun entry hentry => ?_
  rw [Function.comp_apply, member?_pythonMember (h.constantName (h.of_mem_values hentry))]

end Enumeration

end Bindery
