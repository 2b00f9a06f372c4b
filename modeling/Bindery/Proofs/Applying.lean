import Bindery.Proofs.Revision

/-!
# Replacing several blocks of a file

The blocks of a file are replaced in memory, one after the other, and the file is written once behind
the last of them. So a block that is missing, or a finisher that fails, leaves the file as it was,
however many blocks were replaced before; and whether the file is written is decided by comparing the
finished text with the one that was read.
-/

namespace Bindery

namespace Work

variable {before after : Checkout} {revision : Revision} {path : Path} {text : String} {mode : Mode}

/-- A file that holds a text is always written. -/
theorem exists_writeIfChanged_eq_ok (htext : before.content? path.location = some (.text text))
    (new : String) (mode : Mode) :
    ∃ change after, (writeIfChanged path text new mode).run before = .ok change after := by
  cases mode with
  | write =>
      have hwritten := Checkout.rewritten_replace htext new
      exact ⟨_, _, (writeIfChanged_eq_ok_iff htext).mpr ⟨hwritten, rfl⟩⟩
  | dryRun => exact ⟨_, _, (writeIfChanged_eq_ok_iff htext).mpr ⟨rfl, rfl⟩⟩

/-- A revision of a file that holds a text fails exactly if the text cannot be changed, and then leaves
everything as it was. -/
theorem revise_eq_error_iff {error : FileError}
    (htext : before.content? revision.location = some (.text text)) :
    (revise revision mode).run before = .error error after ↔
      revision.change text = .error error ∧ after = before := by
  have hread : (readFile revision.path).run before = .ok text before :=
    readFile_eq_ok_iff.mpr ⟨htext, rfl⟩
  constructor
  · intro h
    rcases bind_eq_error_iff.mp h with hfails | ⟨current, middle, hcurrent, h⟩
    · rw [hread] at hfails
      cases hfails
    · rw [hread] at hcurrent
      cases hcurrent
      rcases bind_eq_error_iff.mp h with hfails | ⟨new, middle, hnew, h⟩
      · exact (ofExcept_eq_error_iff.mp hfails).imp id Eq.symm
      -- a file that was read can be written
      · obtain ⟨-, rfl⟩ := ofExcept_eq_ok_iff.mp hnew
        obtain ⟨change, final, hwrite⟩ := exists_writeIfChanged_eq_ok htext new mode
        rw [hwrite] at h
        cases h
  · rintro ⟨herror, rfl⟩
    refine bind_eq_error_iff.mpr (Or.inr ⟨text, after, hread, ?_⟩)
    exact bind_eq_error_iff.mpr (Or.inl (ofExcept_eq_error_iff.mpr ⟨herror, rfl⟩))

variable {blocks : List (Nat × List String)} {finish : Finisher}

theorem applyBlocks_eq_revise :
    applyBlocks path blocks finish mode = revise ⟨path, finished finish path blocks⟩ mode :=
  rfl

theorem finished_identity (path : Path) (blocks : List (Nat × List String)) (text : String) :
    finished Finisher.identity path blocks text = Block.spliceAll path text blocks := by
  unfold finished
  cases Block.spliceAll path text blocks <;> rfl

theorem finished_eq_ok_iff {final : String} :
    finished finish path blocks text = .ok final ↔
      ∃ spliced, Block.spliceAll path text blocks = .ok spliced ∧ finish path spliced = .ok final :=
  except_bind_eq_ok_iff

/-- The first splice that fails decides the error, and if none fails the finisher does. -/
theorem finished_eq_error_iff {error : FileError} :
    finished finish path blocks text = .error error ↔
      (∃ done index lines rest middle, blocks = done ++ (index, lines) :: rest
          ∧ Block.spliceAll path text done = .ok middle
          ∧ Block.splice path middle index lines = .error error)
        ∨ ∃ spliced, Block.spliceAll path text blocks = .ok spliced
            ∧ finish path spliced = .error error := by
  rw [finished, except_bind_eq_error_iff, Block.spliceAll, foldlM_eq_error_iff]
  simp only [Prod.exists]
  rfl

/-- Replacing blocks of a file that holds a text is all or nothing. It fails exactly if a splice fails
on what the splices before it have made of the text, with the error of the first that does, or if none
fails and the finisher does; then nothing has changed. Otherwise the finisher makes the final text of
what all splices have made, in their order. The file is reported as unchanged exactly if that is the
text it held; it holds the final text afterwards, unless the run is a dry one, and no other file or
folder has changed. -/
theorem applyBlocks_outcome (blocks : List (Nat × List String)) (finish : Finisher) (mode : Mode)
    (hread : before.read path = .ok text) :
    (∀ error after, (applyBlocks path blocks finish mode).run before = .error error after ↔
        after = before
          ∧ ((∃ done index lines rest middle, blocks = done ++ (index, lines) :: rest
                ∧ Block.spliceAll path text done = .ok middle
                ∧ Block.splice path middle index lines = .error error)
              ∨ ∃ spliced, Block.spliceAll path text blocks = .ok spliced
                  ∧ finish path spliced = .error error))
      ∧ ∀ change after, (applyBlocks path blocks finish mode).run before = .ok change after ↔
          ∃ spliced final, Block.spliceAll path text blocks = .ok spliced
            ∧ finish path spliced = .ok final
            ∧ change = (if text = final then .unchanged else .written)
            ∧ match mode with
              | .write => Checkout.Rewritten before path.location final after
              | .dryRun => after = before := by
  have htext := Checkout.read_eq_ok_iff.mp hread
  let revision : Revision := ⟨path, finished finish path blocks⟩
  have hrevision : before.content? revision.location = some (.text text) := htext
  constructor
  · intro error after
    rw [applyBlocks_eq_revise, revise_eq_error_iff hrevision, and_comm, finished_eq_error_iff]
  · intro change after
    rw [applyBlocks_eq_revise, revise_eq_ok_iff_exists]
    constructor
    · rintro ⟨current, final, hcurrent, hfinal, hwrite⟩
      rw [hrevision, Option.some.injEq, Content.text.injEq] at hcurrent
      subst hcurrent
      obtain ⟨spliced, hspliced, hfinish⟩ := finished_eq_ok_iff.mp hfinal
      obtain ⟨hwritten, hchange⟩ := (writeIfChanged_eq_ok_iff htext).mp hwrite
      refine ⟨spliced, final, hspliced, hfinish, hchange, ?_⟩
      cases mode with
      | write => exact hwritten
      | dryRun => exact hwritten.symm
    · rintro ⟨spliced, final, hspliced, hfinish, hchange, hafter⟩
      refine ⟨text, final, htext, finished_eq_ok_iff.mpr ⟨spliced, hspliced, hfinish⟩, ?_⟩
      refine (writeIfChanged_eq_ok_iff htext).mpr ⟨?_, hchange⟩
      cases mode with
      | write => exact hafter
      | dryRun => exact hafter.symm

/-- The last lines for a block are the ones that it gets, and a missing block keeps the file. -/
theorem applyBlocks_outcome_repeated :
    let text := ":CODEGEN_BEGIN:\n:CODEGEN_END:"
    ∃ before : Checkout, before.read ⟨"file.h"⟩ = .ok text
      ∧ (∃ after, (applyBlocks ⟨"file.h"⟩ [(0, ["old"]), (0, ["new"])] Finisher.identity .write).run
            before = .ok .written after
          ∧ after.content? ["file.h"] = some (.text ":CODEGEN_BEGIN:\nnew\n:CODEGEN_END:"))
      ∧ (applyBlocks ⟨"file.h"⟩ [(0, ["new"]), (1, [])] Finisher.identity .write).run before =
          .error (.noSuchBlock ⟨"file.h"⟩ 1 1) before := by
  intro text
  let before : Checkout :=
    { files := [(["file.h"], .text text)]
      folders := []
      isTree := ⟨by decide, by decide, by decide, by simp, by decide⟩ }
  have hread : before.read ⟨"file.h"⟩ = .ok text := by decide
  have hspliced : Block.spliceAll ⟨"file.h"⟩ text [(0, ["old"]), (0, ["new"])] =
      .ok ":CODEGEN_BEGIN:\nnew\n:CODEGEN_END:" := by decide +kernel
  have hdone : Block.spliceAll ⟨"file.h"⟩ text [(0, ["new"])] =
      .ok ":CODEGEN_BEGIN:\nnew\n:CODEGEN_END:" := by decide +kernel
  have hfails : Block.splice ⟨"file.h"⟩ ":CODEGEN_BEGIN:\nnew\n:CODEGEN_END:" 1 [] =
      .error (.noSuchBlock ⟨"file.h"⟩ 1 1) := by decide +kernel
  have hold : before.content? ["file.h"] = some (.text text) := rfl
  have hrewritten := Checkout.rewritten_replace hold ":CODEGEN_BEGIN:\nnew\n:CODEGEN_END:"
  refine ⟨before, hread, ⟨_, ?_, hrewritten.content⟩, ?_⟩
  · refine ((applyBlocks_outcome _ Finisher.identity .write hread).2 _ _).mpr ?_
    exact ⟨_, _, hspliced, rfl, by decide, hrewritten⟩
  · refine ((applyBlocks_outcome _ Finisher.identity .write hread).1 _ _).mpr ⟨rfl, Or.inl ?_⟩
    exact ⟨[(0, ["new"])], 1, [], [], _, rfl, hdone, hfails⟩

end Work

end Bindery
