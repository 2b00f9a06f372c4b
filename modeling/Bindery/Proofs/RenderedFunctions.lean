import Bindery.Proofs.FreeTexts
import Bindery.Render.Functions

/-!
# Rendered functions

No line that is rendered for a function has a marker, when the names of no type have one. The names of its
arguments and callbacks are identifiers, so a marker could only come from the name of a type.
-/

namespace Bindery

open Block Text Naming

namespace Signature

variable {types : TypeMap} {function : Function} {text type returnType owner name : String}
  {parameters lines : List String}

theorem closed_declaration {declarator : String} (hreturn : Unmarked returnType.toList)
    (hdeclarator : Closed declarator) (hparameters : AllUnmarked parameters) :
    Closed (declaration returnType declarator parameters) :=
  ((((Unmarked.fence hreturn rfl).append hdeclarator).literal rfl).free
    (unmarked_join (by decide) hparameters)).fence rfl

theorem closed_prototype {args : List String} (hreturn : Unmarked returnType.toList)
    (hargs : AllUnmarked args) : Closed (prototype returnType args) :=
  ((closed_literal rfl).free (unmarked_join (by decide) (AllUnmarked.cons hreturn hargs))).fence rfl

mutual

theorem unmarked_cParameter (htypes : types.MarkerFree) : ∀ {arg : Argument} {text : String}, arg.Named →
    cParameter types arg = .ok text → Unmarked text.toList
  | .scalar name type, _, .scalar hname, htext => by
      rw [cParameter] at htext
      obtain ⟨c, hc, htext⟩ := except_bind_eq_ok_iff.mp htext
      cases htext
      exact ((Unmarked.fence (htypes.nameOf hc) rfl).name hname).unmarked
  | .callback name returnType args, _, .callback hname hargs, htext => by
      rw [cParameter] at htext
      obtain ⟨c, hc, htext⟩ := except_bind_eq_ok_iff.mp htext
      obtain ⟨parameters, hparameters, htext⟩ := except_bind_eq_ok_iff.mp htext
      cases htext
      exact (closed_declaration (htypes.nameOf hc) (((closed_literal rfl).name hname).literal rfl)
        (allUnmarked_cParameters htypes hargs hparameters)).unmarked

theorem allUnmarked_cParameters (htypes : types.MarkerFree) : ∀ {args : List Argument} {texts : List String},
    (∀ arg ∈ args, arg.Named) → cParameters types args = .ok texts → AllUnmarked texts
  | [], _, _, htexts => by
      cases htexts
      exact .nil
  | arg :: rest, _, hargs, htexts => by
      rw [cParameters] at htexts
      obtain ⟨hnamed, hrest⟩ := List.forall_mem_cons.mp hargs
      obtain ⟨text, htext, htexts⟩ := except_bind_eq_ok_iff.mp htexts
      obtain ⟨others, hothers, htexts⟩ := except_bind_eq_ok_iff.mp htexts
      cases htexts
      exact .cons (unmarked_cParameter htypes hnamed htext) (allUnmarked_cParameters htypes hrest hothers)

end

theorem closed_c (htypes : types.MarkerFree) (hfunction : function.Named) {declarator : String}
    (hdeclarator : Closed declarator)
    (htext : c types function declarator = .ok text) : Closed text := by
  obtain ⟨returnType, hreturn, htext⟩ := except_bind_eq_ok_iff.mp htext
  obtain ⟨parameters, hparameters, htext⟩ := except_bind_eq_ok_iff.mp htext
  cases htext
  exact closed_declaration (htypes.nameOf hreturn) hdeclarator
    (allUnmarked_cParameters htypes hfunction.args hparameters)

theorem unmarked_ctype (htypes : types.MarkerFree) (htext : ctype types type = .ok text) : Unmarked text.toList := by
  unfold ctype at htext
  split at htext
  · cases htext
    exact unmarked_literal rfl
  · exact htypes.nameOf htext

mutual

theorem unmarked_ctypesArgument (htypes : types.MarkerFree) : ∀ {arg : Argument} {text : String},
    ctypesArgument types arg = .ok text → Unmarked text.toList
  | .scalar name type, _, htext => by
      rw [ctypesArgument] at htext
      exact unmarked_ctype htypes htext
  | .callback name returnType args, _, htext => by
      rw [ctypesArgument] at htext
      obtain ⟨returnType, hreturn, htext⟩ := except_bind_eq_ok_iff.mp htext
      obtain ⟨texts, htexts, htext⟩ := except_bind_eq_ok_iff.mp htext
      cases htext
      exact (closed_prototype (unmarked_ctype htypes hreturn)
        (allUnmarked_ctypesArguments htypes htexts)).unmarked

theorem allUnmarked_ctypesArguments (htypes : types.MarkerFree) : ∀ {args : List Argument} {texts : List String},
    ctypesArguments types args = .ok texts → AllUnmarked texts
  | [], _, htexts => by
      cases htexts
      exact .nil
  | arg :: rest, _, htexts => by
      rw [ctypesArguments] at htexts
      obtain ⟨text, htext, htexts⟩ := except_bind_eq_ok_iff.mp htexts
      obtain ⟨others, hothers, htexts⟩ := except_bind_eq_ok_iff.mp htexts
      cases htexts
      exact .cons (unmarked_ctypesArgument htypes htext) (allUnmarked_ctypesArguments htypes hothers)

end

theorem closed_ctypes (htypes : types.MarkerFree) (htext : ctypes types function = .ok text) : Closed text := by
  obtain ⟨returnType, hreturn, htext⟩ := except_bind_eq_ok_iff.mp htext
  obtain ⟨texts, htexts, htext⟩ := except_bind_eq_ok_iff.mp htext
  cases htext
  exact closed_prototype (unmarked_ctype htypes hreturn) (allUnmarked_ctypesArguments htypes htexts)

theorem unmarked_csharpReturn (htypes : types.MarkerFree) (htext : csharpReturn types type = .ok text) :
    Unmarked text.toList := by
  unfold csharpReturn at htext
  split at htext
  · cases htext
    exact unmarked_literal rfl
  · exact htypes.nameOf htext

theorem unmarked_csharpArgument (htypes : types.MarkerFree) (htext : csharpArgument types owner name type = .ok text) :
    Unmarked text.toList := by
  unfold csharpArgument at htext
  split at htext
  · cases htext
    exact unmarked_literal rfl
  · split at htext
    · cases htext
      exact unmarked_literal rfl
    · split at htext
      · cases htext
        exact unmarked_literal rfl
      · exact htypes.nameOf htext

theorem allUnmarked_delegateLines (howner : Nominal owner) (hreturn : Unmarked returnType.toList)
    (hparameters : AllUnmarked parameters) : AllUnmarked (delegateLines owner returnType parameters) := by
  refine .cons (unmarked_literal rfl) (.cons ?_ (.cons (unmarked_literal rfl) .nil))
  exact (((((((closed_literal rfl).free hreturn).fence rfl).name (nominal_delegateName howner)).literal
    rfl).free (unmarked_join (by decide) hparameters)).fence rfl).unmarked

mutual

theorem unmarked_csharpParameter {owner : String} (htypes : types.MarkerFree) (howner : Nominal owner) :
    ∀ {arg : Argument} {result : List String × String}, arg.Named →
      csharpParameter types owner arg = .ok result → AllUnmarked result.1 ∧ Unmarked result.2.toList
  | .scalar name type, _, .scalar hname, hresult => by
      rw [csharpParameter] at hresult
      obtain ⟨text, htext, hresult⟩ := except_bind_eq_ok_iff.mp hresult
      cases hresult
      exact ⟨.nil, ((Unmarked.fence (unmarked_csharpArgument htypes htext) rfl).name hname).unmarked⟩
  | .callback name returnType args, _, .callback hname hargs, hresult => by
      rw [csharpParameter] at hresult
      obtain ⟨⟨hoisted, parameters⟩, hinner, hresult⟩ := except_bind_eq_ok_iff.mp hresult
      obtain ⟨text, htext, hresult⟩ := except_bind_eq_ok_iff.mp hresult
      cases hresult
      have hown := nominal_callbackName howner hname
      obtain ⟨hhoisted, hparameters⟩ := allUnmarked_csharpParameters htypes hown hargs hinner
      refine ⟨hhoisted.append (allUnmarked_delegateLines hown (unmarked_csharpReturn htypes htext)
        hparameters), ?_⟩
      exact (((closed_of_nominal (nominal_delegateName hown)).literal rfl).name hname).unmarked

theorem allUnmarked_csharpParameters {owner : String} (htypes : types.MarkerFree) (howner : Nominal owner) :
    ∀ {args : List Argument} {result : List String × List String}, (∀ arg ∈ args, arg.Named) →
      csharpParameters types owner args = .ok result → AllUnmarked result.1 ∧ AllUnmarked result.2
  | [], _, _, hresult => by
      cases hresult
      exact ⟨.nil, .nil⟩
  | arg :: rest, _, hargs, hresult => by
      rw [csharpParameters] at hresult
      obtain ⟨hnamed, hrest⟩ := List.forall_mem_cons.mp hargs
      obtain ⟨⟨hoisted, parameter⟩, hfirst, hresult⟩ := except_bind_eq_ok_iff.mp hresult
      obtain ⟨⟨others, parameters⟩, hothers, hresult⟩ := except_bind_eq_ok_iff.mp hresult
      cases hresult
      obtain ⟨hhoisted, hparameter⟩ := unmarked_csharpParameter htypes howner hnamed hfirst
      obtain ⟨hlater, hparameters⟩ := allUnmarked_csharpParameters htypes howner hrest hothers
      exact ⟨hhoisted.append hlater, .cons hparameter hparameters⟩

end

theorem allUnmarked_delegates (htypes : types.MarkerFree) (hfunction : function.Named)
    (hlines : delegates types function = .ok lines) :
    AllUnmarked lines := by
  obtain ⟨⟨hoisted, parameters⟩, hresult, hlines⟩ := except_bind_eq_ok_iff.mp hlines
  obtain ⟨returnType, hreturn, hlines⟩ := except_bind_eq_ok_iff.mp hlines
  cases hlines
  obtain ⟨hhoisted, hparameters⟩ := allUnmarked_csharpParameters htypes hfunction.name hfunction.args hresult
  exact hhoisted.append
    (allUnmarked_delegateLines hfunction.name (unmarked_csharpReturn htypes hreturn) hparameters)

/-- What stands in place of a marshalled type is a fence. -/
theorem unmarked_unmarshal {line : String} (h : Unmarked line.toList) : Unmarked (unmarshal line).toList := by
  unfold unmarshal
  generalize marshalledTypes = marshalled
  induction marshalled generalizing line with
  | nil => exact h
  | cons type rest ih =>
      refine ih ?_
      rw [String.toList_ofList]
      exact unmarked_replace (by decide) h

theorem allUnmarked_mockDelegates (htypes : types.MarkerFree) (hfunction : function.Named)
    (hlines : mockDelegates types function = .ok lines) : AllUnmarked lines := by
  obtain ⟨delegates, hdelegates, hlines⟩ := except_bind_eq_ok_iff.mp hlines
  cases hlines
  exact allUnmarked_map.mpr fun line hline =>
    unmarked_unmarshal (allUnmarked_delegates htypes hfunction hdelegates line hline)

end Signature

namespace Function

variable {types : TypeMap} {interface : Interface} {function : Function} {line : String}
  {lines : List String}

theorem Named.headerLine (h : function.Named) (htypes : types.MarkerFree)
    (hline : function.headerLine types = .ok line) : Unmarked line.toList := by
  obtain ⟨signature, hsignature, hline⟩ := except_bind_eq_ok_iff.mp hline
  cases hline
  exact (((closed_literal rfl).append
    (Signature.closed_c htypes h (closed_of_nominal h.name) hsignature)).literal rfl).unmarked

/-! ## Mock library -/

theorem Named.defaultName (h : function.Named) : Nominal function.defaultName :=
  nominal_append.mpr ⟨by decide, nominal_bareName h.name⟩

theorem Named.holderName (h : function.Named) : Nominal function.holderName :=
  nominal_append.mpr ⟨nominal_append.mpr ⟨by decide, nominal_bareName h.name⟩, by decide⟩

theorem Named.initializer (h : function.Named) (defaults : String) :
    Closed (function.initializer defaults) := by
  unfold Function.initializer
  split
  · exact closed_of_nominal h.defaultName
  · exact closed_literal rfl

theorem Named.installerLine (h : function.Named) : Unmarked function.installerLine.toList :=
  (((((closed_literal rfl).name (nominal_mockName h.name)).literal rfl).name h.name).literal rfl).unmarked

theorem unmarked_fallback (returnType : String) : Unmarked (fallback returnType).toList := by
  unfold fallback
  split
  · exact unmarked_literal rfl
  · split
    · exact unmarked_literal rfl
    · exact unmarked_literal rfl

theorem Named.passedArguments (h : function.Named) : Unmarked function.passedArguments.toList :=
  unmarked_join (by decide) (List.forall_mem_map.mpr fun arg harg =>
    (closed_of_nominal (h.args arg harg).name).unmarked)

theorem Named.mockLines {defaults : String} {listing next : Listing} (h : function.Named)
    (htypes : types.MarkerFree) (hlisting : listing.Unmarked)
    (hnext : mockLines types defaults listing function = .ok next) : next.Unmarked := by
  obtain ⟨signature, hsignature, hnext⟩ := except_bind_eq_ok_iff.mp hnext
  obtain ⟨returnType, -, hnext⟩ := except_bind_eq_ok_iff.mp hnext
  cases hnext
  have hclosed := Signature.closed_c htypes h (closed_of_nominal h.name) hsignature
  have hholder := h.holderName
  refine (((((hlisting.line ?_).line ?_).blank.block ?_ (unmarked_literal rfl) ?_).blank).block ?_
    (unmarked_literal rfl) ?_).blank
  · exact ((closed_literal rfl).name h.name).unmarked
  · exact (((((((closed_literal rfl).name h.name).literal rfl).name hholder).literal rfl).append
      (h.initializer defaults)).literal rfl).unmarked
  · exact (((closed_literal rfl).append hclosed).literal rfl).unmarked
  · intro inner hinner
    refine ((((hinner.line (unmarked_literal rfl)).block ?_ (unmarked_literal rfl) fun deep hdeep =>
      (hdeep.line ?_).line (unmarked_fallback returnType)).blank).line ?_)
    · exact (((closed_literal rfl).name hholder).literal rfl).unmarked
    · exact (((closed_literal rfl).name h.name).literal rfl).unmarked
    · exact (((((closed_literal rfl).name hholder).literal rfl).free h.passedArguments).fence rfl).unmarked
  · exact (((((closed_literal rfl).name (nominal_mockName h.name)).literal rfl).name
      h.name).literal rfl).unmarked
  · intro inner hinner
    refine (hinner.line (unmarked_literal rfl)).line ?_
    exact ((((closed_of_nominal hholder).literal rfl).name hholder).literal rfl).unmarked

theorem allUnmarked_mockBlocks {defaults : String} {blocks : List (List String)}
    (h : ∀ function ∈ interface.functions, function.Named) (htypes : interface.types.MarkerFree)
    (hblocks : mockBlocks interface defaults = .ok blocks) : ∀ block ∈ blocks, AllUnmarked block := by
  obtain ⟨listing, hlisting, hblocks⟩ := except_bind_eq_ok_iff.mp hblocks
  cases hblocks
  refine List.forall_mem_cons.mpr ⟨?_, List.forall_mem_singleton.mpr (allUnmarked_map.mpr ?_)⟩
  · exact Listing.Unmarked.tryEach (Listing.unmarked_empty _).blank
      (fun function hmem _ _ hinner => (h function hmem).mockLines htypes hinner) hlisting
  · intro function hmem
    exact (((((closed_literal rfl).name (h function hmem).holderName).literal rfl).append
      ((h function hmem).initializer defaults)).literal rfl).unmarked

/-! ## C++ bindings -/

theorem Named.cppPointer {listing next : Listing} (h : function.Named) (htypes : types.MarkerFree)
    (hlisting : listing.Unmarked) (hnext : cppPointer types listing function = .ok next) :
    next.Unmarked := by
  obtain ⟨pointer, hpointer, hnext⟩ := except_bind_eq_ok_iff.mp hnext
  obtain ⟨type, htype, hnext⟩ := except_bind_eq_ok_iff.mp hnext
  cases hnext
  have hname : Closed ("(*" ++ function.name ++ ")") := ((closed_literal rfl).name h.name).literal rfl
  refine ((((hlisting.blank.line ?_).line ?_).deeper.deeper).line ?_).shallower.shallower
  · exact ((closed_literal rfl).name h.name).unmarked
  · exact (((closed_literal rfl).append (Signature.closed_c htypes h hname hpointer)).literal rfl).unmarked
  · exact (((((closed_literal rfl).append (Signature.closed_c htypes h (closed_literal rfl) htype)).literal
      rfl).name
      h.name).literal rfl).unmarked

theorem allUnmarked_cppLines (h : ∀ function ∈ interface.functions, function.Named)
    (htypes : interface.types.MarkerFree) (hlines : cppLines interface = .ok lines) :
    AllUnmarked lines := by
  obtain ⟨listing, hlisting, hlines⟩ := except_bind_eq_ok_iff.mp hlines
  cases hlines
  exact (Listing.Unmarked.tryEach (Listing.unmarked_empty _)
    (fun function hmem _ _ hinner => (h function hmem).cppPointer htypes hinner) hlisting).blank

theorem Named.cppInstaller (h : function.Named) (htypes : types.MarkerFree)
    (hline : function.cppInstaller types = .ok line) : Unmarked line.toList := by
  obtain ⟨parameter, hparameter, hline⟩ := except_bind_eq_ok_iff.mp hline
  cases hline
  exact (((((closed_literal rfl).name (nominal_mockName h.name)).literal rfl).append
    (Signature.closed_c htypes h (closed_literal rfl) hparameter)).literal rfl).unmarked

theorem Named.cppInstallerLoader (h : function.Named) (htypes : types.MarkerFree)
    (hlines : function.cppInstallerLoader types = .ok lines) : AllUnmarked lines := by
  obtain ⟨parameter, hparameter, hlines⟩ := except_bind_eq_ok_iff.mp hlines
  cases hlines
  have hclosed := Signature.closed_c htypes h (closed_literal rfl) hparameter
  have hmock := nominal_mockName h.name
  have hstart : (mockName function.name).toList.head? = some 'M' := by
    rw [mockName, String.toList_append]
    rfl
  refine .cons ?_ (.cons ?_ (.cons (unmarked_literal rfl) .nil))
  · exact ((((closed_scoped hstart (colon_not_mem_of_nominal hmock) rfl).literal rfl).append
      hclosed).literal rfl).unmarked
  · exact (((((closed_literal rfl).append hclosed).literal rfl).name hmock).literal rfl).unmarked

/-! ## .NET bindings -/

theorem Named.csharpLoader (h : function.Named) (htypes : types.MarkerFree)
    (hlines : function.csharpLoader types = .ok lines) : AllUnmarked lines := by
  obtain ⟨delegates, hdelegates, hlines⟩ := except_bind_eq_ok_iff.mp hlines
  cases hlines
  have hdelegate := nominal_delegateName h.name
  refine AllUnmarked.append (.append (.cons (unmarked_literal rfl) (.cons ?_ .nil))
    (Signature.allUnmarked_delegates htypes h hdelegates)) (.cons ?_ (.cons ?_ .nil))
  · exact ((closed_literal rfl).name h.name).unmarked
  · exact ((((closed_literal rfl).name hdelegate).literal rfl).name h.name).unmarked
  · exact (((((closed_literal rfl).name hdelegate).literal rfl).name h.name).literal rfl).unmarked

theorem allUnmarked_csharpLines (h : ∀ function ∈ interface.functions, function.Named)
    (htypes : interface.types.MarkerFree) (hlines : csharpLines interface = .ok lines) :
    AllUnmarked lines := by
  obtain ⟨groups, hgroups, hlines⟩ := except_bind_eq_ok_iff.mp hlines
  cases hlines
  refine AllUnmarked.append (allUnmarked_flatten ?_) (.cons (unmarked_literal rfl) .nil)
  exact forall_mem_of_mapM hgroups fun function hmem _ => (h function hmem).csharpLoader htypes

theorem Named.csharpInstaller (h : function.Named) (htypes : types.MarkerFree)
    (hlines : function.csharpInstaller types = .ok lines) : AllUnmarked lines := by
  obtain ⟨delegates, hdelegates, hlines⟩ := except_bind_eq_ok_iff.mp hlines
  cases hlines
  have hmock := nominal_mockName h.name
  have hinstaller : Nominal (bareName function.name ++ "MockDelegate") :=
    nominal_append.mpr ⟨nominal_bareName h.name, by decide⟩
  refine AllUnmarked.append (.append (.cons (unmarked_literal rfl) (.cons ?_ .nil))
    (Signature.allUnmarked_mockDelegates htypes h hdelegates))
    (.cons (unmarked_literal rfl) (.cons ?_ (.cons (unmarked_literal rfl) (.cons ?_ (.cons ?_ .nil)))))
  · exact ((closed_literal rfl).name hmock).unmarked
  · exact (((((closed_literal rfl).name hinstaller).literal rfl).name
      (nominal_delegateName h.name)).literal rfl).unmarked
  · exact ((((closed_literal rfl).name hinstaller).literal rfl).name hmock).unmarked
  · exact (((((closed_literal rfl).name hinstaller).literal rfl).name hmock).literal rfl).unmarked

theorem allUnmarked_csharpInstallers (h : ∀ function ∈ interface.functions, function.Named)
    (htypes : interface.types.MarkerFree) (hlines : csharpInstallers interface = .ok lines) :
    AllUnmarked lines := by
  obtain ⟨groups, hgroups, hlines⟩ := except_bind_eq_ok_iff.mp hlines
  cases hlines
  refine AllUnmarked.append (allUnmarked_flatten ?_) (.cons (unmarked_literal rfl) .nil)
  exact forall_mem_of_mapM hgroups fun function hmem _ => (h function hmem).csharpInstaller htypes

/-! ## Python bindings -/

theorem closed_pythonLibrary : Closed pythonLibrary := closed_literal rfl

theorem unmarked_pythonResult {result : String} (htypes : types.MarkerFree)
    (hresult : function.pythonResult types = .ok result) : Unmarked result.toList := by
  unfold pythonResult at hresult
  split at hresult
  · cases hresult
    exact unmarked_literal rfl
  · exact Signature.unmarked_ctype htypes hresult

theorem Named.pythonPrototype (h : function.Named) (htypes : types.MarkerFree)
    (hlines : function.pythonPrototype types = .ok lines) : AllUnmarked lines := by
  obtain ⟨result, hresult, hlines⟩ := except_bind_eq_ok_iff.mp hlines
  obtain ⟨args, hargs, hlines⟩ := except_bind_eq_ok_iff.mp hlines
  cases hlines
  have hname : Closed (pythonLibrary ++ "." ++ function.name) :=
    (closed_pythonLibrary.literal rfl).name h.name
  refine .cons (unmarked_literal rfl) (.cons ?_ (.cons ?_ .nil))
  · exact (hname.literal rfl).free (unmarked_pythonResult htypes hresult)
  · exact (((hname.literal rfl).free (unmarked_join (by decide)
      (Signature.allUnmarked_ctypesArguments htypes hargs))).fence rfl).unmarked

theorem allUnmarked_pythonLines (h : ∀ function ∈ interface.functions, function.Named)
    (htypes : interface.types.MarkerFree) (hlines : pythonLines interface = .ok lines) :
    AllUnmarked lines := by
  obtain ⟨groups, hgroups, hlines⟩ := except_bind_eq_ok_iff.mp hlines
  cases hlines
  exact allUnmarked_flatten
    (forall_mem_of_mapM hgroups fun function hmem _ => (h function hmem).pythonPrototype htypes)

theorem Named.pythonInstaller {keepalive : String} (h : function.Named) (htypes : types.MarkerFree)
    (hkeepalive : Closed keepalive) (hlines : function.pythonInstaller types keepalive = .ok lines) :
    AllUnmarked lines := by
  obtain ⟨prototype, hprototype, hlines⟩ := except_bind_eq_ok_iff.mp hlines
  cases hlines
  have hmock := nominal_mockName h.name
  refine .cons ?_ (.cons ?_ (.cons (unmarked_literal rfl) (.cons ?_ (.cons (unmarked_literal rfl) (.cons ?_
    (.cons (unmarked_literal rfl) (.cons (unmarked_literal rfl) .nil)))))))
  · exact ((closed_literal rfl).name hmock).free (unmarked_literal rfl)
  · exact ((((closed_literal rfl).append closed_pythonLibrary).literal rfl).name hmock).unmarked
  · exact (((closed_literal rfl).append (Signature.closed_ctypes htypes hprototype)).literal rfl).unmarked
  · exact (((closed_literal rfl).append hkeepalive).literal rfl).unmarked

theorem allUnmarked_pythonInstallers {keepalive : String}
    (h : ∀ function ∈ interface.functions, function.Named) (htypes : interface.types.MarkerFree)
    (hkeepalive : Closed keepalive) (hlines : pythonInstallers interface keepalive = .ok lines) :
    AllUnmarked lines := by
  obtain ⟨groups, hgroups, hlines⟩ := except_bind_eq_ok_iff.mp hlines
  cases hlines
  refine .cons (unmarked_literal rfl) (allUnmarked_flatten ?_)
  exact forall_mem_of_mapM hgroups fun function hmem _ =>
    (h function hmem).pythonInstaller htypes hkeepalive

end Function

end Bindery
