import Bindery.Checkout.Basic
import Bindery.Proofs.Search
import Mathlib.Data.List.TakeWhile

/-!
# Where paths lead

A path that is joined to another leads from the location of the other on, by its own parts. Names of
files that are joined by slashes lead to the location made of these names.
-/

namespace Bindery

open Text

theorem isFileName_iff {name : String} :
    isFileName name ↔ name.toList ≠ [] ∧ name.toList ≠ ['.'] ∧ name.toList ≠ ['.', '.']
      ∧ '/' ∉ name.toList := by
  have hempty : name = "" ↔ name.toList = [] := by rw [← String.toList_inj]; rfl
  have hdot : name = "." ↔ name.toList = ['.'] := by rw [← String.toList_inj]; rfl
  have hdots : name = ".." ↔ name.toList = ['.', '.'] := by rw [← String.toList_inj]; rfl
  simp only [isFileName, Bool.and_eq_true, decide_eq_true_eq, ne_eq, hempty, hdot, hdots,
    Bool.not_eq_true', List.contains_eq_mem, decide_eq_false_iff_not, and_assoc]

namespace Path

/-- The steps that a text takes from a location, when it does not start at the top. -/
def steps (text : String) : List Part :=
  (pieces (· = '/') text.toList).filterMap Part.ofPiece?

/-- Where a path starts. -/
def origin (path : Path) : Location := if path.text.toList.head? = some '/' then ["/"] else []

/-- A path leads from its origin on by its steps. -/
theorem location_eq (path : Path) :
    path.location = (steps path.text).foldl Location.enter path.origin := by
  unfold location parts steps origin
  rw [pieces_eq_splitOn]
  cases path.text.toList with
  | nil => rfl
  | cons c rest =>
      rw [List.splitOn_cons_eq_if_modifyHead]
      by_cases hc : c = '/'
      · have hrest : rest.splitOn '/' ≠ [] := List.splitOn_ne_nil _ _
        simp [hc, hrest, Part.ofPiece?, Location.enter]
      -- a dot at the start counts as a step of its own, one that stays where it is
      · obtain ⟨first, others, hsplit⟩ := List.exists_cons_of_ne_nil (List.splitOn_ne_nil '/' rest)
        have hslash : (c == '/') = false := beq_false_of_ne hc
        by_cases hdot : c :: first = ['.']
        · simp [hc, hsplit, hdot, Part.ofPiece?, Location.enter]
        · simp only [hsplit, hslash, hdot, Bool.false_eq_true, if_false, List.modifyHead_cons,
            List.filterMap_cons, reduceCtorEq, List.head?_cons, Option.some.injEq, hc]
          cases Part.ofPiece? (c :: first) <;> rfl

theorem steps_append (first second : List Char) :
    steps (String.ofList (first ++ '/' :: second)) =
      steps (String.ofList first) ++ steps (String.ofList second) := by
  simp only [steps, String.toList_ofList, pieces_eq_splitOn, List.splitOn_append_cons_self,
    List.filterMap_append]

/-- What stands behind a slash leads on from what stands before it. -/
theorem location_append_slash (front back : List Char) :
    location ⟨String.ofList (front ++ '/' :: back)⟩ =
      (steps (String.ofList back)).foldl Location.enter
        (location ⟨String.ofList (front ++ ['/'])⟩) := by
  have horigin : origin ⟨String.ofList (front ++ '/' :: back)⟩ =
      origin ⟨String.ofList (front ++ ['/'])⟩ := by
    cases front <;> simp [origin]
  rw [location_eq, location_eq, horigin, steps_append, steps_append, List.foldl_append,
    List.foldl_append]
  rfl

/-- A slash at the end of a path does not count. -/
theorem location_trailing_slash {front : List Char} (hne : front ≠ []) :
    location ⟨String.ofList (front ++ ['/'])⟩ = location ⟨String.ofList front⟩ := by
  have horigin : origin ⟨String.ofList (front ++ ['/'])⟩ = origin ⟨String.ofList front⟩ := by
    obtain ⟨c, rest, rfl⟩ := List.exists_cons_of_ne_nil hne
    simp [origin]
  rw [location_eq, location_eq, horigin, steps_append, List.foldl_append]
  rfl

/-- A path is joined to another behind a slash, unless the other is empty. -/
theorem join_cases (base : Path) {below : String} (hbelow : below.toList.head? ≠ some '/') :
    (base.text = "" ∧ base.join below = ⟨below⟩)
      ∨ ∃ front, base.join below = ⟨String.ofList (front ++ '/' :: below.toList)⟩
        ∧ location ⟨String.ofList (front ++ ['/'])⟩ = base.location := by
  obtain ⟨text⟩ := base
  rw [join, if_neg hbelow]
  split
  next hslash =>
    rcases List.eq_nil_or_concat text.toList with hnil | ⟨front, last, hconcat⟩
    · have hempty : text = "" := String.toList_eq_nil_iff.mp hnil
      exact Or.inl ⟨hempty, by rw [hempty, String.empty_append]⟩
    · have hlast : last = '/' := by simpa [hconcat] using hslash
      have hbase : text = String.ofList (front ++ ['/']) := by
        rw [← hlast, ← List.concat_eq_append, ← hconcat, String.ofList_toList]
      refine Or.inr ⟨front, ?_, by rw [hbase]⟩
      rw [mk.injEq, ← String.toList_inj]
      simp [hbase]
  next hslash =>
    have hne : text.toList ≠ [] := by
      intro hnil
      simp [hnil] at hslash
    refine Or.inr ⟨text.toList, ?_, ?_⟩
    · rw [mk.injEq, ← String.toList_inj]
      simp
    · rw [location_trailing_slash hne, String.ofList_toList]

/-- A path joined to another leads on from there. -/
theorem location_join (base : Path) {below : String} (hbelow : below.toList.head? ≠ some '/') :
    (base.join below).location = (steps below).foldl Location.enter base.location := by
  rcases join_cases base hbelow with ⟨hempty, hjoin⟩ | ⟨front, hjoin, hfront⟩
  · have hbase : base = ⟨""⟩ := by rw [← hempty]
    rw [hjoin, hbase, location_eq, origin, if_neg hbelow]
    rfl
  · rw [hjoin, location_append_slash, hfront, String.ofList_toList]

theorem foldl_enter_names (location : Location) (names : List String) :
    (names.map Part.name).foldl Location.enter location = location ++ names := by
  induction names generalizing location with
  | nil => simp
  | cons name rest ih => simp [Location.enter, ih]

theorem ofPiece?_of_isFileName {name : String} (h : isFileName name) :
    Part.ofPiece? name.toList = some (.name name) := by
  obtain ⟨hempty, hdot, hdots, -⟩ := isFileName_iff.mp h
  simp [Part.ofPiece?, hempty, hdot, hdots]

/-- Parts that are joined by slashes are the steps of the text, if they count and have no slash. -/
theorem steps_join_of_forall {names : List String} {toPart : String → Part}
    (h : ∀ name ∈ names, '/' ∉ name.toList ∧ Part.ofPiece? name.toList = some (toPart name)) :
    steps (Text.join "/" names) = names.map toPart := by
  by_cases hnil : names = []
  · rw [hnil]
    rfl
  · have hslash : ∀ piece ∈ names.map String.toList, '/' ∉ piece := by
      intro piece hpiece
      obtain ⟨name, hname, rfl⟩ := List.mem_map.mp hpiece
      exact (h name hname).1
    have hpieces : pieces (· = '/') (Text.join "/" names).toList = names.map String.toList := by
      rw [pieces_eq_splitOn, Text.join, String.toList_intercalate]
      exact List.splitOn_intercalate '/' hslash (by simpa using hnil)
    rw [steps, hpieces]
    exact filterMap_map_of_forall fun name hname => (h name hname).2

/-- Names that are joined by slashes are the steps of the text. -/
theorem steps_join {names : List String} (h : names.all isFileName) :
    steps (Text.join "/" names) = names.map Part.name := by
  apply steps_join_of_forall
  intro name hname
  have hfile : isFileName name := List.all_eq_true.mp h name hname
  exact ⟨(isFileName_iff.mp hfile).2.2.2, ofPiece?_of_isFileName hfile⟩

theorem head?_join_ne_of_forall {names : List String}
    (h : ∀ name ∈ names, name.toList ≠ [] ∧ '/' ∉ name.toList) :
    (Text.join "/" names).toList.head? ≠ some '/' := by
  cases names with
  | nil => simp [Text.join]
  | cons name rest =>
      obtain ⟨hempty, hslash⟩ := h name List.mem_cons_self
      obtain ⟨c, others, hname⟩ := List.exists_cons_of_ne_nil hempty
      intro hhead
      have hc : c = '/' := by
        cases rest <;> simpa [Text.join, hname] using hhead
      rw [hname, hc] at hslash
      exact hslash List.mem_cons_self

theorem head?_join_ne {names : List String} (h : names.all isFileName) :
    (Text.join "/" names).toList.head? ≠ some '/' := by
  apply head?_join_ne_of_forall
  intro name hname
  obtain ⟨hempty, -, -, hslash⟩ := isFileName_iff.mp (List.all_eq_true.mp h name hname)
  exact ⟨hempty, hslash⟩

/-- Names lead from a folder to the location made of them. -/
theorem location_join_names (folder : Path) {names : List String} (h : names.all isFileName) :
    (folder.join (Text.join "/" names)).location = folder.location ++ names := by
  rw [location_join folder (head?_join_ne h), steps_join h, foldl_enter_names]

/-- The names of which a text is made. -/
def names (text : String) : List String := (pieces (· = '/') text.toList).map String.ofList

theorem join_names (text : String) : Text.join "/" (names text) = text := by
  rw [← String.toList_inj, Text.join, String.toList_intercalate, names, List.map_map,
    pieces_eq_splitOn]
  have hsame : (text.toList.splitOn '/').map (String.toList ∘ String.ofList) =
      text.toList.splitOn '/' := by
    simp [Function.comp_def]
  rw [hsame]
  exact List.intercalate_splitOn '/'

theorem eq_of_names_eq {text other : String} (h : names text = names other) : text = other := by
  rw [← join_names text, h, join_names]

theorem location_join_of_names (folder : Path) {below : String} (h : (names below).all isFileName) :
    (folder.join below).location = folder.location ++ names below := by
  have hjoin := location_join_names folder h
  rwa [join_names] at hjoin

theorem fileName?_of_isFileName {name : String} (h : isFileName name) :
    fileName? ⟨name⟩ = some name := by
  obtain ⟨hempty, hdot, hdots, hslash⟩ := isFileName_iff.mp h
  simp [fileName?, parts, pieces_eq_splitOn, List.splitOn_eq_singleton hslash, hempty, hdot,
    ofPiece?_of_isFileName h]

theorem fileName?_append_slash {front : List Char} {name : String} (h : isFileName name) :
    fileName? ⟨String.ofList (front ++ '/' :: name.toList)⟩ = some name := by
  obtain ⟨hempty, hdot, hdots, hslash⟩ := isFileName_iff.mp h
  obtain ⟨first, others, hfront⟩ := List.exists_cons_of_ne_nil (List.splitOn_ne_nil '/' front)
  simp [fileName?, parts, pieces_eq_splitOn, List.splitOn_append_cons_self, hfront,
    List.splitOn_eq_singleton hslash, ofPiece?_of_isFileName h]

/-- The last of several names that are joined stands alone or behind a slash. -/
theorem join_append_singleton (names : List String) (name : String) :
    Text.join "/" (names ++ [name]) = name ∨ ∃ front,
      Text.join "/" (names ++ [name]) = String.ofList (front ++ '/' :: name.toList) := by
  by_cases hnil : names = []
  · rw [hnil]
    exact Or.inl String.intercalate_singleton
  · refine Or.inr ⟨(Text.join "/" names).toList, ?_⟩
    rw [Text.join, String.intercalate_append_of_ne_nil hnil (by simp), ← String.toList_inj]
    simp [Text.join]

/-- The extension of a file is that of its name. -/
theorem hasExtension_join (folder : Path) {names : List String} {name : String}
    (h : (names ++ [name]).all isFileName) (extensions : List String) :
    (folder.join (Text.join "/" (names ++ [name]))).hasExtension extensions =
      hasExtension extensions ⟨name⟩ := by
  have hname : isFileName name := List.all_eq_true.mp h name (by simp)
  have hfile : (folder.join (Text.join "/" (names ++ [name]))).fileName? = some name := by
    have hlast := join_append_singleton names name
    rcases join_cases folder (head?_join_ne h) with ⟨-, hjoin⟩ | ⟨front, hjoin, -⟩
    · rw [hjoin]
      rcases hlast with hname' | ⟨front', hfront'⟩
      · rw [hname']
        exact fileName?_of_isFileName hname
      · rw [hfront']
        exact fileName?_append_slash hname
    · rw [hjoin]
      rcases hlast with hname' | ⟨front', hfront'⟩
      · rw [hname']
        exact fileName?_append_slash hname
      · rw [hfront', String.toList_ofList, ← List.cons_append, ← List.append_assoc]
        exact fileName?_append_slash hname
  rw [hasExtension, extension?, hfile, hasExtension, extension?, fileName?_of_isFileName hname]

end Path

namespace Location

/-- What a named location has below a name consists of names. -/
theorem all_isFileName_of_isNamed {front below : Location} {name : String} (hname : isFileName name)
    (h : isNamed (front ++ name :: below)) : below.all isFileName := by
  obtain ⟨-, -, hdots, hslash⟩ := isFileName_iff.mp hname
  unfold isNamed at h
  -- behind the top of the file system, or behind steps up, every part is a name
  split at h
  next names heq =>
    cases front with
    | nil =>
        obtain ⟨rfl, rfl⟩ := List.cons.inj heq
        exact h
    | cons first front =>
        have hnames : names = front ++ name :: below := (List.cons.inj heq).2.symm
        rw [hnames, List.all_append, List.all_cons, Bool.and_eq_true, Bool.and_eq_true] at h
        exact h.2.2
  next =>
    have hdrop : ∃ rest, (front ++ name :: below).dropWhile (· = "..") = rest ++ name :: below := by
      have hstop : (name :: below).dropWhile (fun part => decide (part = "..")) = name :: below := by
        rw [List.dropWhile_cons_of_neg]
        simpa [← String.toList_inj] using hdots
      rw [List.dropWhile_append, hstop]
      split
      · exact ⟨[], rfl⟩
      · exact ⟨_, rfl⟩
    obtain ⟨rest, hrest⟩ := hdrop
    rw [hrest, List.all_append, List.all_cons, Bool.and_eq_true, Bool.and_eq_true] at h
    exact h.2.2

/-- A named location consists of names, behind the top of the file system or behind steps up. -/
theorem isNamed_iff {location : Location} :
    location.isNamed ↔ ∃ start names, location = start ++ names
      ∧ (start = ["/"] ∨ ∀ step ∈ start, step = "..") ∧ names.all isFileName := by
  constructor
  · intro h
    unfold isNamed at h
    split at h
    next names => exact ⟨["/"], names, rfl, Or.inl rfl, h⟩
    next =>
      refine ⟨location.takeWhile (· = ".."), _, List.takeWhile_append_dropWhile.symm, Or.inr ?_, h⟩
      intro step hstep
      simpa using List.mem_takeWhile_imp hstep
  · rintro ⟨start, names, rfl, rfl | hsteps, hnames⟩
    · exact hnames
    · unfold isNamed
      split
      next rest heq =>
        -- a slash is neither a step up nor a name
        have hmem : "/" ∈ start ++ names := heq ▸ List.mem_cons_self
        rcases List.mem_append.mp hmem with hstart | hname
        · exact absurd (hsteps _ hstart) (by decide)
        · exact absurd (List.all_eq_true.mp hnames _ hname) (by decide)
      next =>
        rw [List.dropWhile_append_of_pos (by simpa using hsteps), List.all_eq_true]
        intro name hname
        exact List.all_eq_true.mp hnames name ((List.dropWhile_sublist _).subset hname)

theorem isNamed_append {location names : Location} (h : location.isNamed)
    (hnames : names.all isFileName) : isNamed (location ++ names) := by
  obtain ⟨start, front, rfl, hstart, hfront⟩ := isNamed_iff.mp h
  refine isNamed_iff.mpr ⟨start, front ++ names, List.append_assoc _ _ _, hstart, ?_⟩
  rw [List.all_append, hfront, hnames]
  rfl

/-- Behind steps up, a further one is kept. -/
theorem enter_up_of_forall {location : Location} (h : ∀ step ∈ location, step = "..") :
    location.enter .up = location ++ [".."] := by
  rcases List.eq_nil_or_concat location with rfl | ⟨others, step, rfl⟩
  · rfl
  · obtain rfl : step = ".." := h step (by simp)
    simp [enter]

/-- A step up leads from a named location to a named location. -/
theorem isNamed_enter_up {location : Location} (h : location.isNamed) :
    (location.enter .up).isNamed := by
  obtain ⟨start, names, rfl, hstart, hnames⟩ := isNamed_iff.mp h
  rcases List.eq_nil_or_concat names with rfl | ⟨front, last, rfl⟩
  · rw [List.append_nil]
    rcases hstart with rfl | hsteps
    · rfl
    · rw [enter_up_of_forall hsteps]
      refine isNamed_iff.mpr ⟨start ++ [".."], [], (List.append_nil _).symm, Or.inr ?_, rfl⟩
      intro step hstep
      rcases List.mem_append.mp hstep with hold | hnew
      · exact hsteps step hold
      · exact List.mem_singleton.mp hnew
  · rw [List.concat_eq_append, List.all_append, Bool.and_eq_true] at hnames
    obtain ⟨hfront, hlast⟩ := hnames
    have hname : isFileName last := by simpa using hlast
    have hslash : last ≠ "/" := by
      rintro rfl
      revert hname
      decide
    have hdots : last ≠ ".." := by
      rintro rfl
      revert hname
      decide
    have hup : enter (start ++ front.concat last) .up = start ++ front := by
      rw [List.concat_eq_append, ← List.append_assoc]
      simp [enter]
    rw [hup]
    exact isNamed_iff.mpr ⟨start, front, rfl, hstart, hfront⟩

/-- Steps that do not start over at the root lead from a named location to a named location. -/
theorem isNamed_foldl_enter {parts : List Path.Part} {location : Location}
    (hnames : ∀ name, .name name ∈ parts → isFileName name) (hroot : .root ∉ parts)
    (h : location.isNamed) : isNamed (parts.foldl enter location) := by
  induction parts generalizing location with
  | nil => exact h
  | cons part rest ih =>
      rw [List.mem_cons, not_or] at hroot
      refine ih (fun name hname => hnames name (List.mem_cons_of_mem _ hname)) hroot.2 ?_
      cases part with
      | root => exact absurd rfl hroot.1
      | here => exact h
      | up => exact isNamed_enter_up h
      | name name =>
          have hname := hnames name List.mem_cons_self
          exact isNamed_append h (by simpa using hname)

end Location

namespace Path

/-- A piece between slashes is never the root, and only a name counts as one. -/
theorem Part.ofPiece?_eq_some {piece : List Char} {part : Part} (hslash : '/' ∉ piece)
    (h : Part.ofPiece? piece = some part) : part ≠ .root ∧ ∀ name, part = .name name → isFileName name := by
  unfold Part.ofPiece? at h
  split at h
  · cases h
  next hcounts =>
    split at h
    · cases h
      exact ⟨by simp, fun name hname => by cases hname⟩
    next hdots =>
      cases h
      refine ⟨by simp, fun name hname => ?_⟩
      cases hname
      simp only [Bool.or_eq_true, decide_eq_true_eq, not_or] at hcounts
      rw [isFileName_iff, String.toList_ofList]
      exact ⟨hcounts.1, hcounts.2, hdots, hslash⟩

/-- A path leads to a named location. -/
theorem isNamed_location (path : Path) : path.location.isNamed := by
  have hparts : ∀ part ∈ steps path.text, part ≠ .root ∧ ∀ name, part = .name name → isFileName name := by
    intro part hmem
    obtain ⟨piece, hpiece, hpart⟩ := List.mem_filterMap.mp hmem
    have hslash : '/' ∉ piece := fun hmem => by
      simpa using isBreak_eq_false_of_mem_pieces hpiece hmem
    exact Part.ofPiece?_eq_some hslash hpart
  rw [location_eq]
  apply Location.isNamed_foldl_enter
  · exact fun name hname => (hparts _ hname).2 name rfl
  · exact fun hroot => (hparts _ hroot).1 rfl
  · unfold origin
    split <;> decide

theorem foldl_enter_ups {location : Location} {ups : List String} (hlocation : ∀ step ∈ location, step = "..")
    (hups : ∀ step ∈ ups, step = "..") :
    (ups.map fun _ => Part.up).foldl Location.enter location = location ++ ups := by
  induction ups generalizing location with
  | nil => simp
  | cons step rest ih =>
      obtain ⟨rfl, hrest⟩ := List.forall_mem_cons.mp hups
      have hnext : ∀ step ∈ location ++ [".."], step = ".." :=
        List.forall_mem_append.mpr ⟨hlocation, List.forall_mem_singleton.mpr rfl⟩
      rw [List.map_cons, List.foldl_cons, Location.enter_up_of_forall hlocation, ih hnext hrest,
        List.append_assoc, List.singleton_append]

/-- Behind steps up, a path leads on by further steps up and by names. -/
theorem location_join_steps (folder : Path) {ups names : List String}
    (hfolder : ∀ step ∈ folder.location, step = "..") (hups : ∀ step ∈ ups, step = "..")
    (hnames : names.all isFileName) :
    (folder.join (Text.join "/" (ups ++ names))).location = folder.location ++ (ups ++ names) := by
  let toPart (name : String) : Part := if name = ".." then .up else .name name
  have hup : ups.map toPart = ups.map fun _ => Part.up :=
    List.map_congr_left fun step hstep => if_pos (hups step hstep)
  have hname : names.map toPart = names.map Part.name := by
    refine List.map_congr_left fun name hname => if_neg ?_
    rintro rfl
    exact absurd (List.all_eq_true.mp hnames _ hname) (by decide)
  have hparts : ∀ name ∈ ups ++ names,
      '/' ∉ name.toList ∧ name.toList ≠ [] ∧ Part.ofPiece? name.toList = some (toPart name) := by
    intro name hmem
    rcases List.mem_append.mp hmem with hstep | hfile
    · obtain rfl := hups name hstep
      decide
    · have hfile : isFileName name := List.all_eq_true.mp hnames name hfile
      obtain ⟨hempty, -, hdots, hslash⟩ := isFileName_iff.mp hfile
      have hother : name ≠ ".." := by
        rintro rfl
        exact hdots rfl
      exact ⟨hslash, hempty, (ofPiece?_of_isFileName hfile).trans (congrArg some (if_neg hother).symm)⟩
  have hhead : (Text.join "/" (ups ++ names)).toList.head? ≠ some '/' :=
    head?_join_ne_of_forall fun name hmem => ⟨(hparts name hmem).2.1, (hparts name hmem).1⟩
  have hsteps : steps (Text.join "/" (ups ++ names)) = (ups ++ names).map toPart :=
    steps_join_of_forall fun name hmem => ⟨(hparts name hmem).1, (hparts name hmem).2.2⟩
  rw [location_join folder hhead, hsteps, List.map_append, hup, hname, List.foldl_append,
    foldl_enter_ups hfolder hups, foldl_enter_names, List.append_assoc]

/-- Behind a slash, names lead on from the top of the file system. -/
theorem location_join_top (folder : Path) {names : List String} (h : names.all isFileName) :
    (folder.join (Text.join "/" ("/" :: names))).location = "/" :: names := by
  cases names with
  | nil =>
      have htext : Text.join "/" ["/"] = "/" := String.intercalate_singleton
      rw [htext, join, if_pos (by decide)]
      decide
  | cons name rest =>
      have htext : Text.join "/" ("/" :: name :: rest) =
          String.ofList ([] ++ '/' :: ([] ++ '/' :: (Text.join "/" (name :: rest)).toList)) := by
        rw [Text.join, String.intercalate_cons_cons, ← String.toList_inj]
        simp [Text.join]
      have hhead : (Text.join "/" ("/" :: name :: rest)).toList.head? = some '/' := by
        rw [htext, String.toList_ofList]
        rfl
      have hsteps : steps (Text.join "/" ("/" :: name :: rest)) = (name :: rest).map Part.name := by
        rw [htext, steps_append, steps_append, String.ofList_toList, steps_join h]
        rfl
      rw [join, if_pos hhead, location_eq, origin, if_pos hhead, hsteps, foldl_enter_names]
      rfl

/-- A path leads from a folder to each named location that lies below it. -/
theorem location_join_of_isNamed (folder : Path) {names : Location} (h : Location.isNamed (folder.location ++ names)) :
    (folder.join (Text.join "/" names)).location = folder.location ++ names := by
  obtain ⟨start, front, heq, hstart, hfront⟩ := Location.isNamed_iff.mp h
  rcases List.append_eq_append_iff.mp heq with ⟨ups, hfolder, rfl⟩ | ⟨others, hfolder, rfl⟩
  · rcases hstart with rfl | hsteps
    · cases hlocation : folder.location with
      | nil =>
          rw [hlocation] at hfolder
          obtain rfl : ups = ["/"] := by simpa using hfolder.symm
          exact location_join_top folder hfront
      | cons name rest =>
          rw [hlocation, List.cons_append, List.cons.injEq] at hfolder
          obtain ⟨-, rfl⟩ := List.append_eq_nil_iff.mp hfolder.2.symm
          rw [← hlocation]
          exact location_join_names folder hfront
    · obtain ⟨hlocation, hups⟩ := List.forall_mem_append.mp (hfolder ▸ hsteps)
      exact location_join_steps folder hlocation hups hfront
  · rw [List.all_append, Bool.and_eq_true] at hfront
    exact location_join_names folder hfront.2

end Path

end Bindery
