import Mathlib.Logic.Basic

/-!
# Scanners

A scanner goes through a text once. At each character it may write items, and goes on in another state or
gives up; at the end of the text it may write some more. A text that takes a scanner from one state to
another writes the same items whatever stands behind it.
-/

namespace Bindery

structure Scanner (State Item : Type) where
  step : State → Char → Option (List Item × State)
  /-- what is written at the end of a text, unless the text cannot end there -/
  finish : State → Option (List Item)

namespace Scanner

variable {State Item : Type}

def run (scanner : Scanner State Item) : State → List Char → Option (List Item)
  | state, [] => scanner.finish state
  | state, c :: rest => do
      let (written, next) ← scanner.step state c
      return written ++ (← scanner.run next rest)

/-- A text takes a scanner from one state to another, and makes it write items. -/
inductive Reads (scanner : Scanner State Item) : State → List Char → List Item → State → Prop
  | nil (state : State) : Reads scanner state [] [] state
  | cons {state next last : State} {c : Char} {rest : List Char} {written items : List Item}
      (hstep : scanner.step state c = some (written, next)) (hrest : Reads scanner next rest items last) :
      Reads scanner state (c :: rest) (written ++ items) last

variable {scanner : Scanner State Item} {state middle next : State} {text front back : List Char}
  {written items others : List Item} {c : Char}

theorem run_cons (hstep : scanner.step state c = some (written, next)) :
    scanner.run state (c :: text) = (scanner.run next text).map (written ++ ·) := by
  rw [run, hstep]
  cases hrun : scanner.run next text <;> simp [hrun]

theorem run_cons_eq_none (hstep : scanner.step state c = none) : scanner.run state (c :: text) = none := by
  rw [run, hstep]
  rfl

namespace Reads

theorem single (hstep : scanner.step state c = some (written, next)) :
    scanner.Reads state [c] written next := by
  have hread := cons hstep (nil next)
  rwa [List.append_nil] at hread

theorem append (hfront : scanner.Reads state front items middle)
    (hback : scanner.Reads middle back others next) :
    scanner.Reads state (front ++ back) (items ++ others) next := by
  induction hfront with
  | nil => exact hback
  | cons hstep _ ih =>
      rw [List.append_assoc]
      exact .cons hstep (ih hback)

/-- What stands behind the text is read as it would be by itself. -/
theorem run_append (h : scanner.Reads state text items next) (rest : List Char) :
    scanner.run state (text ++ rest) = (scanner.run next rest).map (items ++ ·) := by
  induction h with
  | nil => cases hrun : scanner.run _ rest <;> simp [hrun]
  | cons hstep _ ih =>
      rw [List.cons_append, run_cons hstep, ih, Option.map_map]
      simp only [Function.comp_def, List.append_assoc]

theorem run_eq_some (h : scanner.Reads state text items next) (hfinish : scanner.finish next = some others) :
    scanner.run state text = some (items ++ others) := by
  have hrun := h.run_append []
  rwa [List.append_nil, run, hfinish] at hrun

end Reads

end Scanner

end Bindery
