import Mathlib.Data.List.DropRight
import Bindery.Proofs.Numbering
import Bindery.Proofs.Sources

/-!
# Defaults of the mock library

Which functions of the mock library start with a default that is written by hand. A function has its default if
the name of the default, with a parenthesis behind it, stands somewhere in the text of the defaults. An identifier
that merely ends in that name is taken for it as well.
-/

namespace Bindery

open Text Naming

/-! ## Identifiers before a parenthesis -/

namespace Identifier

variable {isLetter : Char → Bool} {name word text : List Char}

/-- Whether an identifier goes on with a character. Which letters there are beyond those of ASCII is left open. -/
def goesOn (isLetter : Char → Bool) (c : Char) : Bool := isPart c || isLetter c

/-- An identifier stands in a text as a whole, and a parenthesis right behind it. -/
def Called (isLetter : Char → Bool) (text name : List Char) : Prop :=
  ∃ before after, text = before ++ name ++ '(' :: after ∧ (∀ c ∈ name, goesOn isLetter c = true) ∧
    ∀ c ∈ before.getLast?, goesOn isLetter c = false

theorem infix_of_called (h : Called isLetter text word) (hname : name <:+ word) : name ++ ['('] <:+: text := by
  obtain ⟨before, after, rfl, -, -⟩ := h
  obtain ⟨front, rfl⟩ := hname
  exact ⟨before ++ front, after, by simp⟩

/-- The characters of an identifier before a place are those that it goes on with, from the place backwards. -/
theorem exists_called (hname : ∀ c ∈ name, goesOn isLetter c = true) (h : name ++ ['('] <:+: text) :
    ∃ word, Called isLetter text word ∧ name <:+ word := by
  obtain ⟨before, after, rfl⟩ := h
  refine ⟨before.rtakeWhile (goesOn isLetter) ++ name,
    ⟨before.rdropWhile (goesOn isLetter), after, ?_, ?_, ?_⟩, List.suffix_append _ _⟩
  · rw [← List.append_assoc (before.rdropWhile _), List.rdropWhile_append_rtakeWhile]
    simp
  · intro c hc
    exact (List.mem_append.mp hc).elim List.mem_rtakeWhile_imp (hname c)
  · intro c hc
    have hsome : before.rdropWhile (goesOn isLetter) ≠ [] := by
      rintro hnil
      rw [hnil] at hc
      cases hc
    rw [List.getLast?_eq_some_getLast hsome] at hc
    cases hc
    exact Bool.eq_false_iff.mpr (List.rdropWhile_last_not _ _ hsome)

theorem infix_iff_exists_called (hname : ∀ c ∈ name, goesOn isLetter c = true) :
    name ++ ['('] <:+: text ↔ ∃ word, Called isLetter text word ∧ name <:+ word :=
  ⟨exists_called hname, fun ⟨_, hcalled, hsuffix⟩ => infix_of_called hcalled hsuffix⟩

end Identifier

open Identifier

namespace Function

variable {function : Function}

theorem isPart_of_mem_bareName {name : String} (h : IsValid name) : ∀ c ∈ (bareName name).toList, isPart c = true := by
  intro c hc
  refine isPart_of_isSpelled h.1 c ?_
  unfold bareName at hc
  split at hc
  · rw [String.toList_ofList] at hc
    exact List.mem_of_mem_drop hc
  · exact hc

theorem isPart_of_mem_defaultName (h : IsValid function.name) :
    ∀ c ∈ function.defaultName.toList, isPart c = true := by
  have hfront : ∀ c ∈ "default_".toList, isPart c = true := List.all_eq_true.mp (by decide)
  rw [defaultName, String.toList_append, List.forall_mem_append]
  exact ⟨hfront, isPart_of_mem_bareName h⟩

/-- A function has its default where an identifier is called that ends in the name of the default. -/
theorem hasDefault_iff (h : IsValid function.name) (isLetter : Char → Bool) (defaults : String) :
    function.hasDefault defaults ↔
      ∃ word, Called isLetter defaults.toList word ∧ function.defaultName.toList <:+ word := by
  have hname : ∀ c ∈ function.defaultName.toList, goesOn isLetter c = true := by
    intro c hc
    rw [goesOn, isPart_of_mem_defaultName h c hc, Bool.true_or]
  have hmark : "(".toList = ['('] := rfl
  rw [hasDefault, occurs_iff, String.toList_append, hmark]
  exact infix_iff_exists_called hname

/-! ## Lines of holders -/

/-- The line that declares the holder of a function with its initial value. -/
def holderLine (function : Function) (initial : String) : String :=
  "static std::function<decltype(" ++ function.name ++ ")> " ++ function.holderName ++ " = " ++ initial ++ ";"

/-- The line that resets the holder of a function to its initial value. -/
def resetLine (function : Function) (initial : String) : String :=
  "  " ++ function.holderName ++ " = " ++ initial ++ ";"

/-- Whether a line declares the holder of a function: nothing else in the file is static. -/
def isHolderLine (line : String) : Bool := "static ".toList.isPrefixOf line.toList

theorem isHolderLine_of_head? {line : String} {c : Char} (hhead : line.toList.head? = some c) (hc : c ≠ 's') :
    isHolderLine line = false := by
  obtain ⟨rest, hline⟩ := List.head?_eq_some_iff.mp hhead
  have hmark : "static ".toList = 's' :: "tatic ".toList := by decide
  have hfirst : ('s' == c) = false := beq_eq_false_iff_ne.mpr hc.symm
  rw [isHolderLine, hline, hmark, List.isPrefixOf, hfirst, Bool.false_and]

theorem isHolderLine_holderLine (function : Function) (initial : String) :
    isHolderLine (function.holderLine initial) = true := by
  have hline : function.holderLine initial = "static " ++ ("std::function<decltype(" ++ function.name ++ ")> "
      ++ function.holderName ++ " = " ++ initial ++ ";") := by
    refine String.toList_inj.mp ?_
    unfold holderLine
    simp [String.toList_append]
  refine List.isPrefixOf_iff_prefix.mpr ?_
  rw [hline, String.toList_append]
  exact List.prefix_append _ _

end Function

namespace Listing

open Bindery.Function (isHolderLine isHolderLine_of_head?)

variable {listing : Listing} {text : String}

/-- The lines of a listing that declare holders. -/
def holders (listing : Listing) : List String := listing.lines.filter isHolderLine

/-- A margin does not make a line declare a holder. -/
theorem isHolderLine_margin (listing : Listing) (h : isHolderLine text = false) :
    isHolderLine (listing.margin ++ text) = false := by
  unfold margin
  cases listing.level with
  | zero =>
      rw [List.replicate_zero]
      exact (congrArg isHolderLine (String.empty_append)).trans h
  | succ level =>
      have hindent : ∃ c rest, listing.indent.text.toList = c :: rest ∧ c ≠ 's' := by
        unfold Indent.text
        cases listing.indent with
        | tab => exact ⟨'\t', [], by decide, by decide⟩
        | spaces width =>
            dsimp only
            split
            · exact ⟨' ', _, rfl, by decide⟩
            · split
              · exact ⟨' ', _, rfl, by decide⟩
              · exact ⟨' ', _, rfl, by decide⟩
      obtain ⟨c, rest, hindent, hc⟩ := hindent
      refine isHolderLine_of_head? (c := c) ?_ hc
      rw [String.toList_append, toList_join_empty, List.replicate_succ, List.flatMap_cons, hindent]
      rfl

theorem holders_blank (listing : Listing) : listing.blank.holders = listing.holders := by
  have hblank : [""].filter isHolderLine = [] := by decide
  rw [holders, blank, List.filter_append, hblank, List.append_nil, holders]

theorem holders_line (listing : Listing) (h : isHolderLine text = false) :
    (listing.line text).holders = listing.holders := by
  rw [holders, line, List.filter_append, List.filter_cons_of_neg (by simp [isHolderLine_margin listing h]),
    List.filter_nil, List.append_nil, holders]

theorem holders_line_holder (hlevel : listing.level = 0) (h : isHolderLine text = true) :
    (listing.line text).holders = listing.holders ++ [text] := by
  have hmargin : listing.margin = "" := by
    rw [margin, hlevel]
    rfl
  rw [holders, line, List.filter_append, hmargin, String.empty_append, List.filter_cons_of_pos h, List.filter_nil,
    holders]

theorem holders_block {header close : String} {body : Listing → Listing} (listing : Listing)
    (hheader : isHolderLine header = false) (hclose : isHolderLine close = false)
    (hbody : ∀ inner, (body inner).holders = inner.holders) :
    (listing.block header close body).holders = listing.holders := by
  rw [block, holders_line _ hclose]
  exact (hbody _).trans (holders_line listing hheader)

end Listing

namespace Function

variable {types : TypeMap} {interface : Interface} {function : Function} {defaults : String}

theorem isHolderLine_fallback (returnType : String) : isHolderLine (fallback returnType) = false := by
  unfold fallback
  split
  · decide
  · split
    · decide
    · decide

/-- The lines of a function declare its holder, and no other one. -/
theorem holders_mockLines {listing next : Listing} (hlevel : listing.level = 0)
    (h : mockLines types defaults listing function = .ok next) :
    next.level = 0 ∧
      next.holders = listing.holders ++ [function.holderLine (function.initializer defaults)] := by
  obtain ⟨signature, -, h⟩ := except_bind_eq_ok_iff.mp h
  obtain ⟨returnType, -, h⟩ := except_bind_eq_ok_iff.mp h
  cases h
  obtain ⟨indent, level, lines⟩ := listing
  obtain rfl : level = 0 := hlevel
  refine ⟨rfl, ?_⟩
  have hguard : isHolderLine "std::lock_guard<std::mutex> lock(global_mock_mutex);" = false := by decide
  have hclose : isHolderLine "\x7d" = false := by decide
  have hcomment : isHolderLine ("// Mock implementation for " ++ function.name) = false :=
    isHolderLine_of_head? (c := '/') (by simp [String.toList_append]) (by decide)
  have hwarning : isHolderLine ("std::cout << \"WARNING: Unmonitored mock function call: " ++ function.name
      ++ "()\" << std::endl;") = false := by
    simp [isHolderLine, String.toList_append, List.isPrefixOf]
  -- the definition of the function and that of its installer declare no holder
  rw [Listing.holders_blank, Listing.holders_block _ _ hclose, Listing.holders_blank,
    Listing.holders_block _ _ hclose, Listing.holders_blank]
  · refine (Listing.holders_line_holder ?_ (isHolderLine_holderLine function _)).trans ?_
    · rfl
    · rw [Listing.holders_line _ hcomment]
  · intro inner
    rw [Listing.holders_line, Listing.holders_blank, Listing.holders_block _ _ hclose,
      Listing.holders_line _ hguard]
    · intro deep
      rw [Listing.holders_line _ (isHolderLine_fallback returnType), Listing.holders_line _ hwarning]
    · exact isHolderLine_of_head? (c := 'i') (by simp [String.toList_append]) (by decide)
    · exact isHolderLine_of_head? (c := 'r') (by simp [String.toList_append]) (by decide)
  · exact isHolderLine_of_head? (c := 'Y') (by simp [String.toList_append]) (by decide)
  · intro inner
    rw [Listing.holders_line, Listing.holders_line _ hguard]
    exact isHolderLine_of_head? (c := 'm') (by simp [holderName, String.toList_append]) (by decide)
  · exact isHolderLine_of_head? (c := 'Y') (by simp [String.toList_append]) (by decide)

theorem holders_tryEach {functions : List Function} {listing next : Listing} (hlevel : listing.level = 0)
    (h : listing.tryEach functions (mockLines types defaults) = .ok next) :
    next.holders
      = listing.holders ++ functions.map fun function => function.holderLine (function.initializer defaults) := by
  induction functions generalizing listing with
  | nil =>
      cases h
      simp
  | cons function rest ih =>
      rw [Listing.tryEach, List.foldlM_cons] at h
      obtain ⟨middle, hmiddle, h⟩ := except_bind_eq_ok_iff.mp h
      obtain ⟨hlevel', hholders⟩ := holders_mockLines hlevel hmiddle
      rw [ih hlevel' h, hholders, List.append_assoc, List.singleton_append, List.map_cons]

/-- Every function has one line that declares its holder and one that resets it, with one initial value. -/
theorem holders_of_mockBlocks {blocks : List (List String)} (h : mockBlocks interface defaults = .ok blocks) :
    ∃ definitions,
      blocks = [definitions, interface.functions.map fun function =>
        function.resetLine (function.initializer defaults)] ∧
      definitions.filter isHolderLine = interface.functions.map fun function =>
        function.holderLine (function.initializer defaults) := by
  obtain ⟨listing, hlisting, h⟩ := except_bind_eq_ok_iff.mp h
  cases h
  refine ⟨listing.lines, rfl, ?_⟩
  have hholders := holders_tryEach rfl hlisting
  rwa [Listing.holders_blank] at hholders

end Function

namespace Target

variable {interface : Interface} {sources : Sources} {edits : List Edit} {defaults : String}

/-- The emitter of the mock library gives the blocks of the functions to their file. -/
theorem mock_functions (h : mock.emitter.emit interface sources = .ok edits)
    (hread : sources.read MockLibrary.defaultsFile = .ok defaults) :
    ∃ blocks, Function.mockBlocks interface defaults = .ok blocks ∧
      ∀ block, linesOf edits "yogi-core-mock/src/yogi_core_mock.cc" block = (blocks[block]?).getD [] := by
  obtain ⟨content, hcontent, h⟩ := except_bind_eq_ok_iff.mp h
  obtain rfl := Except.ok.inj (hcontent.symm.trans hread)
  exact exists_blocks mock (.ofBlocks "yogi-core-mock/src/yogi_core_mock.cc"
    (Function.mockBlocks interface content)) h rfl (by simp [MockLibrary.sheets, MockLibrary.folder]) rfl

end Target

namespace Sample

/-- A description of two functions, where the default of one is named like the default of the other with a word in
front. -/
def nestedNames : String :=
"copyright = \"\"

[version]
major = 1
minor = 2
patch = 3

[constants]

[functions.YOGI_Get]
return_type = \"int\"

[functions.YOGI_default_Get]
return_type = \"int\"

[enums]

[flags]

[type_mappings]
int = [\"int\", \"int\", \"int\", \"c_int\"]
"

/-- The default of the second function only. -/
def nestedDefaults : String := "int default_default_Get() \x7b return 0; \x7d\n"

def nestedSources : Sources where
  checkout :=
    { files := [(["yogi-core-mock", "src", "default_functions.h"], .text nestedDefaults)]
      folders := []
      isTree := ⟨by decide +kernel, by decide +kernel, by decide +kernel, by simp, by decide +kernel⟩ }
  root := ⟨"."⟩

theorem read_nestedSources : nestedSources.read MockLibrary.defaultsFile = .ok nestedDefaults :=
  Sources.read_eq_ok_iff.mpr (by decide +kernel)

/-- The lines that reset the holders of the two functions. -/
def nestedResets : List String := ["  mock_Get_fn = default_Get;", "  mock_default_Get_fn = default_default_Get;"]

set_option maxRecDepth 10000 in
theorem exists_nestedNames : ∃ (interface : Interface) (edits : List Edit) (function : Function),
    Interface.load "core_api.toml" nestedNames = .ok interface ∧
      MockLibrary.emitter.emit interface nestedSources = .ok edits ∧
      linesOf edits "yogi-core-mock/src/yogi_core_mock.cc" 1 = nestedResets ∧
      function ∈ interface.functions ∧ function.name = "YOGI_Get" := by
  obtain ⟨interface, hload, hmock, hfound⟩ : ∃ interface,
      Interface.load "core_api.toml" nestedNames = .ok interface
        ∧ (MockLibrary.emitter.emit interface nestedSources).toOption.any (fun edits =>
          decide (linesOf edits "yogi-core-mock/src/yogi_core_mock.cc" 1 = nestedResets)) = true
        ∧ "YOGI_Get" ∈ interface.functions.map Function.name :=
    Interface.exists_load_of_described String.toList_ofList (by decide +kernel)
  obtain ⟨edits, hedits, hresets⟩ := (Option.any_eq_true _ _).mp hmock
  obtain ⟨function, hfunction, hname⟩ := List.mem_map.mp hfound
  exact ⟨interface, edits, function, hload, except_toOption_eq_some_iff.mp hedits,
    of_decide_eq_true hresets, hfunction, hname⟩

/-- The default of the first function stands in the text as the tail of another name only. -/
theorem not_called_nested (isLetter : Char → Bool) :
    ¬ Called isLetter nestedDefaults.toList "default_Get".toList := by
  rintro ⟨before, after, htext, -, hbefore⟩
  have hsplit : nestedDefaults.toList = ("int default_".toList ++ "default_Get".toList) ++
      '(' :: ") \x7b return 0; \x7d\n".toList := by decide
  have hfront : '(' ∉ "int default_".toList ++ "default_Get".toList := by decide
  have hback : '(' ∉ ") \x7b return 0; \x7d\n".toList := by decide
  have hunderscore : isPart '_' = true := by decide
  -- there is one parenthesis that opens, so the place of the name is known
  rw [hsplit, List.append_cons_inj_of_notMem hfront hback, List.append_cancel_right_eq] at htext
  have hlast := hbefore '_' (by rw [← htext.1]; decide)
  rw [goesOn, hunderscore] at hlast
  cases hlast

theorem defaultName_nested {function : Function} (hname : function.name = "YOGI_Get") :
    function.defaultName = "default_Get" := by
  rw [Function.defaultName, hname]
  decide

end Sample

namespace MockLibrary

variable {interface : Interface} {file source : String}

/-- A function of a loaded interface has its default exactly where the text of the defaults has an identifier
before a parenthesis that ends in the name of the default. So the functions that have their default are those whose
default is called by its whole name, unless another identifier that is called ends in the name of a default that is
not. What the holder of a function is declared with and reset to is its default if the function has one, and
nothing otherwise. -/
theorem defaults_found (hload : Interface.load file source = .ok interface) (isLetter : Char → Bool)
    (defaults : String) :
    (∀ function ∈ interface.functions,
      (function.hasDefault defaults ↔
        ∃ word, Called isLetter defaults.toList word ∧ function.defaultName.toList <:+ word) ∧
      ((function.hasDefault defaults ↔ Called isLetter defaults.toList function.defaultName.toList) ↔
        ∀ word, Called isLetter defaults.toList word → function.defaultName.toList <:+ word →
          Called isLetter defaults.toList function.defaultName.toList)) ∧
    ∀ sources edits, sources.read defaultsFile = .ok defaults → emitter.emit interface sources = .ok edits →
      (linesOf edits "yogi-core-mock/src/yogi_core_mock.cc" 0).filter Function.isHolderLine
        = interface.functions.map (fun function => function.holderLine
            (if function.hasDefault defaults then function.defaultName else "\x7b\x7d")) ∧
      linesOf edits "yogi-core-mock/src/yogi_core_mock.cc" 1
        = interface.functions.map (fun function => function.resetLine
            (if function.hasDefault defaults then function.defaultName else "\x7b\x7d")) := by
  refine ⟨fun function hfunction => ?_, fun sources edits hread hemit => ?_⟩
  · have hvalid : IsValid function.name :=
      ((Interface.load_sound hload).1.functions function hfunction function (.self function)).name_valid
    have hfound := function.hasDefault_iff hvalid isLetter defaults
    refine ⟨hfound, fun hwhole word hcalled hsuffix => ?_, fun htails => ?_⟩
    · exact hwhole.mp (hfound.mpr ⟨word, hcalled, hsuffix⟩)
    · refine ⟨fun hhas => ?_, fun hcalled => hfound.mpr ⟨_, hcalled, List.suffix_refl _⟩⟩
      obtain ⟨word, hcalled, hsuffix⟩ := hfound.mp hhas
      exact htails word hcalled hsuffix
  · obtain ⟨blocks, hblocks, hlines⟩ := Target.mock_functions hemit hread
    obtain ⟨definitions, rfl, hholders⟩ := Function.holders_of_mockBlocks hblocks
    rw [hlines, hlines]
    exact ⟨hholders, rfl⟩

theorem defaults_found_nested : ∃ (interface : Interface) (edits : List Edit) (function : Function),
    Interface.load "core_api.toml" Sample.nestedNames = .ok interface ∧
      Sample.nestedSources.read defaultsFile = .ok Sample.nestedDefaults ∧
      emitter.emit interface Sample.nestedSources = .ok edits ∧
      function ∈ interface.functions ∧ function.name = "YOGI_Get" ∧
      (function.hasDefault Sample.nestedDefaults ↔ ∃ word,
        Called (fun _ => false) Sample.nestedDefaults.toList word ∧ function.defaultName.toList <:+ word) ∧
      Sample.nestedResets = interface.functions.map (fun function => function.resetLine
        (if function.hasDefault Sample.nestedDefaults then function.defaultName else "\x7b\x7d")) := by
  obtain ⟨interface, edits, function, hload, hemit, hresets, hfunction, hname⟩ := Sample.exists_nestedNames
  obtain ⟨hfound, hlines⟩ := defaults_found hload (fun _ => false) Sample.nestedDefaults
  have hread := Sample.read_nestedSources
  exact ⟨interface, edits, function, hload, hread, hemit, hfunction, hname, (hfound function hfunction).1,
    hresets.symm.trans (hlines _ edits hread hemit).2⟩

/-- A holder starts with a default that is the tail of another name only. -/
theorem default_found_as_tail : ∃ (interface : Interface) (edits : List Edit) (function : Function),
    Interface.load "core_api.toml" Sample.nestedNames = .ok interface ∧
      Sample.nestedSources.read defaultsFile = .ok Sample.nestedDefaults ∧
      emitter.emit interface Sample.nestedSources = .ok edits ∧
      function ∈ interface.functions ∧ function.name = "YOGI_Get" ∧
      function.hasDefault Sample.nestedDefaults = true ∧
      (∀ isLetter, ¬ Called isLetter Sample.nestedDefaults.toList function.defaultName.toList) ∧
      linesOf edits "yogi-core-mock/src/yogi_core_mock.cc" 1
        = ["  mock_Get_fn = default_Get;", "  mock_default_Get_fn = default_default_Get;"] := by
  obtain ⟨interface, edits, function, hload, hemit, hresets, hfunction, hname⟩ := Sample.exists_nestedNames
  have hdefault := Sample.defaultName_nested hname
  refine ⟨interface, edits, function, hload, Sample.read_nestedSources, hemit, hfunction, hname, ?_, ?_, hresets⟩
  · rw [Function.hasDefault, hdefault]
    decide +kernel
  · rw [hdefault]
    exact Sample.not_called_nested

end MockLibrary

end Bindery
