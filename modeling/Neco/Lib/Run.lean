import Mathlib.Logic.Basic

/-!
# Runs of labelled transition systems

A system takes steps `step s a`, a partial function of its state and of a label.
`RunFrom` collects the states that a run reaches when every one of its steps
meets a side condition; the condition `always` admits every step.
-/

namespace Transition

variable {σ α : Type}

/-- `RunFrom step ok s t`: a run from `s` reaches `t`, and each of its steps meets `ok`. -/
inductive RunFrom (step : σ → α → Option σ) (ok : σ → α → Prop) (s : σ) : σ → Prop
  | refl : RunFrom step ok s s
  | tail {t u : σ} (a : α) :
      RunFrom step ok s t → ok t a → step t a = some u → RunFrom step ok s u

/-- The condition that every step meets. -/
def always : σ → α → Prop := fun _ _ => True

instance (s : σ) (a : α) : Decidable (always s a) := .isTrue trivial

/-- The rule of invariance: what holds at the start and is kept by every admitted
step holds in every state of the run. -/
theorem RunFrom.invariant {step : σ → α → Option σ} {ok : σ → α → Prop} {s t : σ}
    (I : σ → Prop) (run : RunFrom step ok s t) (start : I s)
    (kept : ∀ u a v, I u → ok u a → step u a = some v → I v) : I t := by
  induction run with
  | refl => exact start
  | tail a _ admitted stepped ih => exact kept _ a _ ih admitted stepped

theorem RunFrom.trans {step : σ → α → Option σ} {ok : σ → α → Prop} {s t u : σ}
    (first : RunFrom step ok s t) (second : RunFrom step ok t u) : RunFrom step ok s u := by
  induction second with
  | refl => exact first
  | tail a _ admitted stepped ih => exact .tail a ih admitted stepped

/-- Executes a list of labels as long as each step passes a decidable check. -/
def execOk (step : σ → α → Option σ) (ok : σ → α → Prop) [∀ s a, Decidable (ok s a)] :
    σ → List α → Option σ
  | s, [] => some s
  | s, a :: rest => if ok s a then (step s a).bind fun t => execOk step ok t rest else none

theorem runFrom_of_execOk {step : σ → α → Option σ} {ok : σ → α → Prop}
    [∀ s a, Decidable (ok s a)] (labels : List α) :
    ∀ {s t : σ}, execOk step ok s labels = some t → RunFrom step ok s t := by
  induction labels with
  | nil =>
    intro s t returned
    cases returned
    exact .refl
  | cons a rest ih =>
    intro s t returned
    simp only [execOk] at returned
    split at returned
    next admitted =>
      obtain ⟨u, stepped, later⟩ := Option.bind_eq_some_iff.mp returned
      exact (RunFrom.tail a .refl admitted stepped).trans (ih later)
    · cases returned

/-- The state that a list of labels leads to; the start when it cannot be executed. -/
def after (step : σ → α → Option σ) (ok : σ → α → Prop) [∀ s a, Decidable (ok s a)] (s : σ)
    (labels : List α) : σ := (execOk step ok s labels).getD s

theorem runFrom_after (step : σ → α → Option σ) (ok : σ → α → Prop) [∀ s a, Decidable (ok s a)]
    (s : σ) (labels : List α) : RunFrom step ok s (after step ok s labels) := by
  unfold after
  cases returned : execOk step ok s labels with
  | none => exact .refl
  | some t => exact runFrom_of_execOk labels returned

end Transition
