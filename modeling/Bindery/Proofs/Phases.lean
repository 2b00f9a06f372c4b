import Bindery.Proofs.Isolation

/-!
# Phases of a run

A run renders everything before it writes anything. So a flag set without values, or an emitter that
fails, stops it while the checkout is still as it was, and the first one decides. A dry run takes all
phases without writing, so it leaves the checkout as it was wherever it stops.
-/

namespace Bindery

section FirstFailure

variable {ε ε' α β : Type} {f : α → Except ε β} {items : List α} {error : ε}

/-- The first of some items on which a function fails, and the error it fails with. -/
def FirstFailure (f : α → Except ε β) (items : List α) (error : ε) : Prop :=
  ∃ earlier item later, items = earlier ++ item :: later
    ∧ (∀ other ∈ earlier, Succeeds (f other)) ∧ f item = .error error

theorem FirstFailure.cons {item : α} (hitem : Succeeds (f item)) (h : FirstFailure f items error) :
    FirstFailure f (item :: items) error := by
  obtain ⟨earlier, first, later, rfl, hearlier, hfirst⟩ := h
  exact ⟨item :: earlier, first, later, rfl, List.forall_mem_cons.mpr ⟨hitem, hearlier⟩, hfirst⟩

/-- A function that fails on an item fails on a first one. -/
theorem exists_firstFailure (h : ∃ item ∈ items, ¬ Succeeds (f item)) :
    ∃ error, FirstFailure f items error := by
  induction items with
  | nil => simp at h
  | cons item rest ih =>
      cases hitem : f item with
      | error error => exact ⟨error, [], item, rest, rfl, by simp, hitem⟩
      | ok value =>
          have hrest : ∃ other ∈ rest, ¬ Succeeds (f other) := by
            obtain ⟨other, hother, hfails⟩ := h
            refine ⟨other, (List.mem_cons.mp hother).resolve_left ?_, hfails⟩
            rintro rfl
            exact hfails ⟨value, hitem⟩
          obtain ⟨error, herror⟩ := ih hrest
          exact ⟨error, herror.cons ⟨value, hitem⟩⟩

/-- A function on a list fails with the error of the first item on which it fails. -/
theorem mapM_of_firstFailure (h : FirstFailure f items error) : items.mapM f = .error error := by
  obtain ⟨earlier, item, later, rfl, hearlier, hitem⟩ := h
  induction earlier with
  | nil =>
      rw [List.nil_append, List.mapM_cons, hitem]
      rfl
  | cons first rest ih =>
      obtain ⟨⟨value, hfirst⟩, hrest⟩ := List.forall_mem_cons.mp hearlier
      rw [List.cons_append, List.mapM_cons, hfirst, ih hrest]
      rfl

theorem forM_of_firstFailure (h : FirstFailure f items error) :
    items.forM (fun item => discard (f item)) = .error error := by
  obtain ⟨earlier, item, later, rfl, hearlier, hitem⟩ := h
  induction earlier with
  | nil =>
      change (discard (f item) >>= fun _ => later.forM fun item => discard (f item)) = _
      rw [hitem]
      rfl
  | cons first rest ih =>
      obtain ⟨⟨value, hfirst⟩, hrest⟩ := List.forall_mem_cons.mp hearlier
      change (discard (f first) >>= fun _ =>
        (rest ++ item :: later).forM fun item => discard (f item)) = _
      rw [hfirst]
      exact ih hrest

end FirstFailure

namespace Work

variable {ε ε' α β : Type}

/-- The checkout that a computation leaves behind, whether it succeeds or fails. -/
def leaves (work : Work ε α) (before : Checkout) : Checkout :=
  match work.run before with
  | .ok _ after => after
  | .error _ after => after

/-- A computation that leaves every checkout as it is. -/
def ReadOnly (work : Work ε α) : Prop := ∀ checkout, work.leaves checkout = checkout

theorem readOnly_pure (a : α) : ReadOnly (pure a : Work ε α) := fun _ => rfl

theorem readOnly_throw (error : ε) : ReadOnly (throw error : Work ε α) := fun _ => rfl

theorem readOnly_get : ReadOnly (get : Work ε Checkout) := fun _ => rfl

theorem readOnly_ofExcept (x : Except ε α) : ReadOnly (ofExcept x) := by
  cases x with
  | ok a => exact readOnly_pure a
  | error error => exact readOnly_throw error

theorem ReadOnly.bind {x : Work ε α} {f : α → Work ε β} (hx : ReadOnly x)
    (hf : ∀ a, ReadOnly (f a)) : ReadOnly (x >>= f) := by
  intro before
  have hbefore := hx before
  unfold leaves at hbefore ⊢
  rw [EStateM.run_bind]
  cases hrun : x.run before with
  | error error after =>
      rw [hrun] at hbefore
      exact hbefore
  | ok a after =>
      rw [hrun] at hbefore
      obtain rfl : after = before := hbefore
      exact hf a after

theorem ReadOnly.adaptExcept {x : Work ε α} (hx : ReadOnly x) (f : ε → ε') :
    ReadOnly (EStateM.adaptExcept f x) := by
  intro before
  have hbefore := hx before
  unfold leaves EStateM.run at hbefore ⊢
  unfold EStateM.adaptExcept
  cases hrun : x before <;> simpa [hrun] using hbefore

theorem readOnly_readFile (path : Path) : ReadOnly (readFile path) := by
  refine readOnly_get.bind fun checkout => ?_
  cases checkout.read path with
  | ok text => exact readOnly_pure text
  | error failure => exact readOnly_throw _

theorem readOnly_writeIfChanged (path : Path) (current new : String) :
    ReadOnly (writeIfChanged path current new .dryRun) := by
  unfold writeIfChanged
  split
  · exact readOnly_pure _
  · exact readOnly_pure _

theorem readOnly_applyBlocks (path : Path) (blocks : List (Nat × List String)) (finish : Finisher) :
    ReadOnly (applyBlocks path blocks finish .dryRun) :=
  (readOnly_readFile path).bind fun _ =>
    (readOnly_ofExcept _).bind fun _ => readOnly_writeIfChanged _ _ _

end Work

namespace Header

open Work

theorem readOnly_renewFile (header : String) (path : Path) :
    ReadOnly (renewFile header .dryRun path) := by
  refine (readOnly_readFile path).bind fun content => ?_
  cases renew? header content with
  | some new => exact readOnly_writeIfChanged path content new
  | none => exact readOnly_throw _

theorem readOnly_renewFiles (header : String) (paths : List Path) :
    ReadOnly (renewFiles header .dryRun paths) := by
  induction paths with
  | nil => exact readOnly_pure _
  | cons path rest ih =>
      exact (readOnly_renewFile header path).bind fun _ => ih.bind fun _ => readOnly_pure _

theorem readOnly_renewFolder (folder : Path) (text : String) (extensions : List String) :
    ReadOnly (renewFolder folder text extensions .dryRun) := by
  refine readOnly_get.bind fun checkout => ?_
  cases checkout.folderAt folder with
  | error failure => exact readOnly_throw _
  | ok location => exact readOnly_renewFiles _ _

end Header

namespace Generation

open Work

variable {interface : Interface} {root : Path} {finish : Finisher} {mode : Mode}
  {emitters : List Emitter} {before : Checkout}

theorem readOnly_renewHeaders (root : Path) (copyright : String) (folders : List String) :
    ReadOnly (renewHeaders root copyright .dryRun folders) := by
  induction folders with
  | nil => exact readOnly_pure _
  | cons folder rest ih =>
      exact (Header.readOnly_renewFolder _ _ _).bind fun _ => ih.bind fun _ => readOnly_pure _

theorem readOnly_applyEdits (root : Path) (finish : Finisher) (groups : List FileEdits) :
    ReadOnly (applyEdits root finish .dryRun groups) := by
  induction groups with
  | nil => exact readOnly_pure _
  | cons edits rest ih =>
      exact (readOnly_applyBlocks _ _ _).bind fun _ => ih.bind fun _ => readOnly_pure _

theorem readOnly_applyTargets (interface : Interface) (root : Path) (finish : Finisher)
    (rendered : List (Emitter × List Edit)) :
    ReadOnly (applyTargets interface root finish .dryRun rendered) := by
  induction rendered with
  | nil => exact readOnly_pure _
  | cons entry rest ih =>
      have htarget : ReadOnly (applyTarget interface root finish .dryRun entry.1 entry.2) :=
        (readOnly_renewHeaders _ _ _).bind fun _ =>
          (readOnly_applyEdits _ _ _).bind fun _ => readOnly_pure _
      exact htarget.bind fun _ => ih.bind fun _ => readOnly_pure _

theorem readOnly_run (emitters : List Emitter) (interface : Interface) (root : Path)
    (finish : Finisher) : ReadOnly (run emitters interface root finish .dryRun) :=
  readOnly_get.bind fun _ => (readOnly_ofExcept _).bind fun _ =>
    (readOnly_applyTargets _ _ _ _).adaptExcept _

/-- A run of which the rendering fails stops with that error before it changes anything. -/
theorem run_of_render_eq_error {error : EmitError}
    (h : render emitters interface ⟨before, root⟩ = .error error) :
    (run emitters interface root finish mode).run before = .error (.emit error) before := by
  unfold run
  rw [run_get_bind, h]
  rfl

/-- The flag sets decide before any emitter is asked. -/
theorem render_of_firstFailure_values {sources : Sources} {error : EmitError}
    (h : FirstFailure FlagSet.values interface.flagSets error) :
    render emitters interface sources = .error error := by
  unfold render Interface.checkFlags
  rw [forM_of_firstFailure h]
  rfl

theorem render_of_firstFailure_emit {sources : Sources} {error : EmitError}
    (hflags : interface.checkFlags = .ok ())
    (h : FirstFailure (fun emitter => emitter.emit interface sources) emitters error) :
    render emitters interface sources = .error error := by
  have hentry : FirstFailure (fun emitter : Emitter => do
      return (emitter, ← emitter.emit interface sources)) emitters error := by
    obtain ⟨earlier, emitter, later, hsplit, hearlier, hemitter⟩ := h
    refine ⟨earlier, emitter, later, hsplit, fun other hother => ?_, ?_⟩
    · exact succeeds_bind (hearlier other hother) fun _ => succeeds_ok _
    · simp only [hemitter]
      rfl
  unfold render
  rw [hflags]
  exact mapM_of_firstFailure hentry

/-- What stops a run, and what it has changed by then. The flag sets are looked at first, then the
emitters in their order; the first of them that fails decides, and nothing has been written. A dry run
writes nothing at all. -/
theorem run_writes_last (emitters : List Emitter) (interface : Interface) (root : Path)
    (finish : Finisher) (mode : Mode) (before : Checkout) :
    (¬ Succeeds interface.checkFlags →
      ∃ error, FirstFailure FlagSet.values interface.flagSets error
        ∧ (run emitters interface root finish mode).run before = .error (.emit error) before)
    ∧ (Succeeds interface.checkFlags →
        (∃ emitter ∈ emitters, ¬ Succeeds (emitter.emit interface ⟨before, root⟩)) →
      ∃ error,
        FirstFailure (fun emitter => emitter.emit interface ⟨before, root⟩) emitters error
          ∧ (run emitters interface root finish mode).run before = .error (.emit error) before)
    ∧ (mode = .dryRun → (run emitters interface root finish mode).leaves before = before) := by
  refine ⟨fun hfails => ?_, fun hflags hfails => ?_, ?_⟩
  · have hset : ∃ set ∈ interface.flagSets, ¬ Succeeds set.values := by
      by_contra hall
      refine hfails (succeeds_forM fun set hset => succeeds_discard.mpr ?_)
      by_contra hvalues
      exact hall ⟨set, hset, hvalues⟩
    obtain ⟨error, herror⟩ := exists_firstFailure hset
    exact ⟨error, herror, run_of_render_eq_error (render_of_firstFailure_values herror)⟩
  · obtain ⟨⟨⟩, hok⟩ := hflags
    obtain ⟨error, herror⟩ := exists_firstFailure hfails
    exact ⟨error, herror, run_of_render_eq_error (render_of_firstFailure_emit hok herror)⟩
  · rintro rfl
    exact readOnly_run emitters interface root finish before

/-- The Python bindings of the sample can be rendered and the mock library, which it lacks, cannot. -/
theorem run_writes_last_mock :
    Succeeds Sample.interface.checkFlags
      ∧ ¬ Succeeds (MockLibrary.emitter.emit Sample.interface ⟨Sample.checkout, ⟨"."⟩⟩)
      ∧ ∃ error,
        FirstFailure (fun emitter => emitter.emit Sample.interface ⟨Sample.checkout, ⟨"."⟩⟩)
            [PythonBindings.emitter, MockLibrary.emitter] error
          ∧ (run [PythonBindings.emitter, MockLibrary.emitter] Sample.interface ⟨"."⟩
            Finisher.identity .write).run Sample.checkout = .error (.emit error) Sample.checkout := by
  have hflags : Succeeds Sample.interface.checkFlags := succeeds_ok ()
  have hfails : ¬ Succeeds (MockLibrary.emitter.emit Sample.interface ⟨Sample.checkout, ⟨"."⟩⟩) := by
    have hnot : (MockLibrary.emitter.emit Sample.interface ⟨Sample.checkout, ⟨"."⟩⟩).isOk = false := by
      decide
    rintro ⟨edits, hedits⟩
    rw [hedits] at hnot
    cases hnot
  exact ⟨hflags, hfails,
    (run_writes_last _ _ _ _ _ _).2.1 hflags ⟨MockLibrary.emitter, by simp, hfails⟩⟩

end Generation

end Bindery
