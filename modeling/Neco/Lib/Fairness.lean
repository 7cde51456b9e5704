import Neco.Lib.Run
import Mathlib.Order.WellFounded

/-!
# Fair runs

A system that other parties keep busy for ever reaches a state all the same when the steps that
help it on are not put off for ever. The rule is that of a ranking: steps that help lower it, and
no step raises it.
-/

namespace Transition

variable {σ α : Type} {step : σ → α → Option σ} {ok helps : σ → α → Prop}

/-- A run without end whose steps meet `ok`. As long as a step that helps is possible, one is
taken some time later. -/
structure FairRun (step : σ → α → Option σ) (ok helps : σ → α → Prop) (run : Nat → σ)
    (acts : Nat → α) : Prop where
  admitted : ∀ n, ok (run n) (acts n)
  stepped : ∀ n, step (run n) (acts n) = some (run (n + 1))
  just : ∀ n, (∃ a t, ok (run n) a ∧ helps (run n) a ∧ step (run n) a = some t) →
    ∃ k, n ≤ k ∧ helps (run k) (acts k)

namespace FairRun

variable {run : Nat → σ} {acts : Nat → α}

theorem invariant (fair : FairRun step ok helps run acts) {I : σ → Prop} (start : I (run 0))
    (kept : ∀ s a t, I s → ok s a → step s a = some t → I t) (n : Nat) : I (run n) := by
  induction n with
  | zero => exact start
  | succ n ih => exact kept _ _ _ ih (fair.admitted n) (fair.stepped n)

theorem rank_le {M : Type*} [Preorder M] (fair : FairRun step ok helps run acts) {I : σ → Prop}
    (rank : σ → M) (always : ∀ n, I (run n))
    (falls : ∀ s a t, I s → ok s a → step s a = some t → rank t ≤ rank s) {n k : Nat}
    (later : n ≤ k) : rank (run k) ≤ rank (run n) := by
  induction later with
  | refl => exact le_rfl
  | @step k _ ih => exact (falls _ _ _ (always k) (fair.admitted k) (fair.stepped k)).trans ih

/-- The rule for fair runs: until `P` is reached a step that helps is possible; such a step lowers
the rank, and no step raises it. -/
theorem eventually {M : Type*} [Preorder M] [WellFoundedLT M]
    (fair : FairRun step ok helps run acts) {P I : σ → Prop} (rank : σ → M) (start : I (run 0))
    (goes : ∀ s, I s → P s ∨ ∃ a t, ok s a ∧ helps s a ∧ step s a = some t)
    (kept : ∀ s a t, I s → ok s a → step s a = some t →
      I t ∧ rank t ≤ rank s ∧ (helps s a → rank t < rank s)) : ∃ n, P (run n) := by
  have always := fair.invariant start fun s a t holds admitted stepped =>
    (kept s a t holds admitted stepped).1
  suffices later : ∀ r n, rank (run n) = r → ∃ k, P (run k) from later _ 0 rfl
  intro r
  induction r using WellFoundedLT.induction with
  | _ r ih =>
    rintro n rfl
    rcases goes _ (always n) with reached | possible
    · exact ⟨n, reached⟩
    · obtain ⟨k, after, helped⟩ := fair.just n possible
      have less := (kept _ _ _ (always k) (fair.admitted k) (fair.stepped k)).2.2 helped
      have before := fair.rank_le rank always (fun s a t holds admitted stepped =>
        (kept s a t holds admitted stepped).2.1) after
      exact ih _ (less.trans_le before) (k + 1) rfl

end FairRun

/-! ### Runs that come to rest -/

theorem execOk_append (step : σ → α → Option σ) (ok : σ → α → Prop) [∀ s a, Decidable (ok s a)]
    (labels later : List α) : ∀ s, execOk step ok s (labels ++ later) =
      (execOk step ok s labels).bind fun t => execOk step ok t later := by
  induction labels with
  | nil => exact fun _ => rfl
  | cons a rest ih =>
    intro s
    simp only [List.cons_append, execOk]
    split
    · rw [Option.bind_assoc]
      exact congrArg _ (funext ih)
    · rfl

/-- A list of labels whose last step helps leads to a state in which no step helps that is possible;
there the run stays. More may be admitted than these steps need. -/
theorem fairRun_of_execOk [∀ s a, Decidable (ok s a)] {ok' : σ → α → Prop}
    (weaker : ∀ s a, ok s a → ok' s a) {s t : σ} {labels : List α} {idle : α}
    (executed : execOk step ok s labels = some t) (rests : ok t idle ∧ step t idle = some t)
    (last : ∀ u, execOk step ok s labels.dropLast = some u → ∀ a ∈ labels.getLast?, helps u a)
    (still : ∀ a u, helps t a → step t a ≠ some u) :
    FairRun step ok' helps (fun n => after step ok s (labels.take n)) fun n =>
      labels.getD n idle := by
  -- the state after the first `n` labels
  have passed (n : Nat) : ∃ u, execOk step ok s (labels.take n) = some u := by
    have split := execOk_append step ok (labels.take n) (labels.drop n) s
    rw [List.take_append_drop, executed] at split
    obtain ⟨u, here, _⟩ := Option.bind_eq_some_iff.mp split.symm
    exact ⟨u, here⟩
  have moves (n : Nat) : ok (after step ok s (labels.take n)) (labels.getD n idle) ∧
      step (after step ok s (labels.take n)) (labels.getD n idle) =
        some (after step ok s (labels.take (n + 1))) := by
    obtain ⟨u, here⟩ := passed n
    obtain ⟨v, there⟩ := passed (n + 1)
    simp only [after, here, there, Option.getD_some]
    by_cases inside : n < labels.length
    · rw [List.take_succ_eq_append_getElem inside, execOk_append, here, Option.bind_some] at there
      simp only [execOk] at there
      split at there
      next admitted =>
        obtain ⟨_, stepped, same⟩ := Option.bind_eq_some_iff.mp there
        cases same
        simpa [List.getD_eq_getElem?_getD, inside] using ⟨admitted, stepped⟩
      next => cases there
    · have end₀ : labels.take n = labels := List.take_of_length_le (by omega)
      have end₁ : labels.take (n + 1) = labels := List.take_of_length_le (by omega)
      rw [end₀, executed] at here
      rw [end₁, executed] at there
      cases here
      cases there
      simpa [List.getD_eq_getElem?_getD, inside] using rests
  refine ⟨fun n => weaker _ _ (moves n).1, fun n => (moves n).2, fun n possible => ?_⟩
  by_cases inside : n < labels.length
  · refine ⟨labels.length - 1, by omega, ?_⟩
    have short : labels.take (labels.length - 1) = labels.dropLast := (List.dropLast_eq_take ..).symm
    obtain ⟨u, here⟩ := passed (labels.length - 1)
    simp only [after, here, Option.getD_some]
    rw [short] at here
    refine last u here _ ?_
    rw [List.getLast?_eq_getElem?, Option.mem_def, List.getD_eq_getElem?_getD,
      List.getElem?_eq_getElem (by omega), Option.getD_some]
  · obtain ⟨a, u, _, helped, stepped⟩ := possible
    rw [List.take_of_length_le (by omega), after, executed, Option.getD_some] at helped stepped
    exact absurd stepped (still a u helped)

end Transition
