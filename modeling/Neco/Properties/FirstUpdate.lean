import Neco.Properties.Bootstrap
import Neco.Properties.UpdateLiveness

/-!
# The first update

`neco setup` starts the services on some servers before the leader has put the first request. As
long as nobody has written below `status/`, the workers among them wait for a request, and so the
one of `Setup` is a clean start for all workers, for those that run and for those still to be
started: it is the current request, nothing has been reported, and all boot servers are its members.
-/

namespace Neco.Bootstrap

open Neco.Setup Transition

variable {Version : Type} [DecidableEq Version]

/-! ### Before the first request -/

/-- A worker that has not come upon a request in the history `h`. -/
def Unaware (h : List Change) : Phase → Prop
  | .down => True
  | .starting => True
  | .waiting pos => pos ≤ h.length
  | _ => False

/-- Nobody has written below `status/`. -/
def Silent (h : List Change) : Prop := ∀ c ∈ h, c.isStatus = false

theorem Unaware.append {h : List Change} {phase : Phase} (unaware : Unaware h phase)
    (cs : List Change) : Unaware (h ++ cs) phase := by
  cases phase with
  | waiting pos =>
    rw [Unaware, List.length_append]
    exact Nat.le_add_right_of_le unaware
  | _ => exact unaware

/-- There is nothing to come upon. -/
theorem Unaware.move {final : Nat} {h : List Change} {lrn : Int} {w w' : Worker} {a : WorkerAction}
    {cs : List Change} {events : List StepEvent} (move : Move final h lrn w a w' cs events)
    (silent : Silent h) (unaware : Unaware h w.phase) : Unaware h w'.phase := by
  cases move with
  | start => trivial
  | exit => trivial
  | noRequest => exact le_rfl
  | gotRequest v req modRev present =>
    rw [(store_info h silent).1] at present
    cases present
  | skipped v pos c here => exact (List.getElem?_eq_some_iff.mp here).1
  | received v pos c req here put =>
    rw [(isStatus_false (silent c (List.mem_of_getElem? here))).1] at put
    cases put
  -- a phase that puts a status knows of a request
  | put v p job st result pending => cases p <;> first | exact unaware.elim | cases pending
  | lost v p job st msg pending => cases p <;> first | exact unaware.elim | cases pending
  | _ => exact unaware.elim

theorem unaware_step {cfg : Config Version} {s t : Neco.System} {a : SystemAction}
    (stepped : s.step cfg a = some t)
    (kept : Silent s.history → ∀ lrn, Unaware s.history (s.workers lrn).phase)
    (silent : Silent t.history) (lrn : Int) : Unaware t.history (t.workers lrn).phase := by
  -- what has been written stays
  have stepped := step_stepped cfg s t a stepped
  have before : Silent s.history := by
    rcases stepped.history_cases with same | ⟨c, same⟩
    · exact same ▸ silent
    · exact fun d member => silent d (same ▸ List.mem_append_left _ member)
  have unaware := kept before
  cases stepped with
  | worker i a w cs events move =>
    refine Unaware.append ?_ cs
    by_cases same : lrn = i
    · subst same
      simp only [Function.update_self]
      exact (unaware lrn).move move before
    · simp only [Function.update_of_ne same]
      exact unaware lrn
  | updater u a next cs => exact (unaware lrn).append cs
  | recoverClear => exact (unaware lrn).append _
  | info => exact (unaware lrn).append _
  | other => exact (unaware lrn).append _
  | _ => exact unaware lrn

/-- Whatever workers have been started in a silent history, they wait for the first request. -/
theorem unaware_of_silent {cfg : Config Version} {early : List Change} {w : Neco.System}
    (started : RunFrom (Neco.System.step cfg) always (.boot early) w) :
    Silent w.history → ∀ lrn, Unaware w.history (w.workers lrn).phase := by
  refine started.invariant
    (fun w => Silent w.history → ∀ lrn, Unaware w.history (w.workers lrn).phase) ?_ ?_
  · exact fun _ _ => trivial
  · exact fun _ _ _ kept _ stepped => unaware_step stepped kept

/-! ### The first request -/

theorem requestAt_silent {h : List Change} (silent : Silent h)
    (r : Nat) : requestAt h r = none := by
  cases r with
  | zero => rfl
  | succ r =>
    rw [requestAt, Option.bind_eq_none_iff]
    exact fun c here => (isStatus_false (silent c (List.mem_of_getElem? here))).1

/-- A request that finds all workers unaware is a clean start. -/
theorem cleanStart_of_unaware {w : Neco.System} {R : UpdateRequest} (going : R.stop = false)
    (silent : Silent w.history) (unaware : ∀ lrn, Unaware w.history (w.workers lrn).phase) :
    CleanStart R (w.history.length + 1) { w with history := w.history ++ [.putRequest R] } where
  current := by
    rw [store_concat]
    rfl
  running := going
  noReport c member := by
    rw [List.drop_of_length_le (by simp)] at member
    cases member
  fresh j st found := by
    rw [List.take_of_length_le (by simp), store_concat, Store.apply, (store_info _ silent).2] at found
    cases found
  idle lrn := by
    have here := unaware lrn
    unfold Idle
    cases phase : (w.workers lrn).phase with
    | waiting pos =>
      intro r req _ other put
      -- the only request is that of `Setup`, at the end
      by_cases last : r ≤ w.history.length
      · rw [requestAt_concat_of_le last, requestAt_silent silent] at put
        cases put
      · have bound := (requestAt_le put).2
        rw [List.length_append, List.length_singleton] at bound
        omega
    | down => trivial
    | starting => trivial
    | _ =>
      rw [phase] at here
      exact here.elim

theorem Unaware.expects {h : List Change} {phase : Phase} (unaware : Unaware h phase)
    (R : UpdateRequest) : Expects R (h.length + 1) phase := by
  cases phase with
  | waiting pos => exact Nat.lt_succ_of_le unaware
  | examining job => exact unaware.elim
  | _ => trivial

/-- In a history that was silent before, the request of `Setup` is the last one. -/
theorem request_of_silent {h info later : List Change} {R req : UpdateRequest}
    (silent : Silent h) (same : h ++ [.putRequest R] = info ++ .putRequest req :: later) :
    R = req := by
  rcases List.eq_nil_or_concat later with rfl | ⟨rest, c, rfl⟩
  · cases (List.append_inj' same rfl).2
    rfl
  · rw [List.concat_eq_append, ← List.cons_append, ← List.append_assoc] at same
    have before := (List.append_inj' same rfl).1
    cases silent (.putRequest req) (before ▸ List.mem_append_right _ (List.mem_cons_self ..))

/-- **Setup leads to a completed update.** The update system `w` has gone on beside `Setup` on the
servers where it has been started, and nothing had been written below `status/` when `Setup` put
its request. Then all boot servers are members, and the request is completed in every fair run in
which no step fails, no updater puts a request and the workers are kept running, unless a worker
that has completed it looks at a request before the others are done. -/
theorem first_update_completes (V : Vault) [V.Documented] (b : BootServers) (artifacts : Artifacts)
    (opts : Int → Options) (s : System V) (reached : Reached b artifacts opts s)
    (put : s.site.requested = true) (cfg : Config Version) (positive : 1 ≤ cfg.final)
    (early : List Change) (w : Neco.System)
    (started : RunFrom (Neco.System.step cfg) always (.boot early) w) (silent : Silent w.history)
    (R : UpdateRequest) (history : s.site.history = w.history ++ [.putRequest R])
    (run : Nat → Neco.System) (acts : Nat → SystemAction)
    (start : run 0 = { w with history := s.site.history })
    (fair : FairRun (Neco.System.step cfg) (Proceeding R) (Helps R) run acts) :
    (∀ lrn, lrn ∈ R.servers ↔ lrn ∈ b.lrns) ∧
      ((∃ n, ∀ k, n ≤ k →
        updateCompleted R.version R.servers (store (run k).history).statuses = true) ∨
      ∃ k, ¬FinishedWaits R (run k) (acts k)) := by
  obtain ⟨info, version, startedAt, later, split, _⟩ := (reached.sound.good.bootstrapped put).request
  have ours := request_of_silent silent (history.symm.trans split)
  have unaware := unaware_of_silent started silent
  subst ours
  rw [history] at start
  refine ⟨fun lrn => mem_sortInts, completes_or_examines (m := w.history.length + 1) ?_ fair⟩
  rw [start]
  exact ⟨(cleanStart_of_unaware rfl silent unaware).steady positive, fun lrn _ _ =>
    (unaware lrn).expects _⟩

/-! ### A run -/

/-- The worker of one server has been started, and waits while the leader goes on. -/
def threeWaiting : Neco.System :=
  after (Neco.System.step operatorConfig) always (.boot (threeTurns untilServing).site.history)
    [.worker 2 (.start "2024.11.05-1"), .worker 2 .getRequest, .other,
      .updateNecoRelease "2024.11.05-1"]

/-- Two servers start and join the update, the third comes upon the request, and they run all steps
together. -/
def threeUpdate : List SystemAction :=
  [0, 1].flatMap (joinUpdate "2024.11.05-1") ++ List.replicate 3 (.worker 2 .receiveRequest) ++
    [.worker 2 .examine, .worker 2 (.putStatus .ok)] ++
    (List.replicate operatorFinalStep (runTogether [0, 1, 2])).flatten

theorem first_update_completes_three :
    let R := Setup.firstRequest threeServers "2024.11.05-1" 0
    let run := fun n => after (Neco.System.step operatorConfig) (Coordinated R)
      { threeWaiting with history := (threeTurns untilRequest).site.history } (threeUpdate.take n)
    ∃ n, ∀ k, n ≤ k →
      updateCompleted R.version R.servers (store (run k).history).statuses = true := by
  intro R run
  have fair {ok : Neco.System → SystemAction → Prop} (weaker : ∀ s a, Coordinated R s a → ok s a) :
      FairRun (Neco.System.step operatorConfig) ok (Helps R) run
        fun n => threeUpdate.getD n (.tick 0) :=
    fairRun_of_completion weaker 2 (by decide +kernel) (by decide +kernel) (by decide)
      (by decide +kernel) (by decide +kernel)
  have silent : Silent threeWaiting.history := by
    unfold Silent
    decide +kernel
  rcases (first_update_completes plainVault threeServers someArtifacts (fun _ => defaultOptions) _
      (reached_threeTurns untilRequest) (by decide +kernel) operatorConfig (by decide) _ threeWaiting
      (runFrom_after _ _ _ _) silent R (by decide +kernel) run _ rfl
      (fair fun _ _ => Coordinated.proceeding)).2 with completed | ⟨k, early⟩
  · exact completed
  · exact absurd ((fair fun _ _ coordinated => coordinated).admitted k).1.2 early

end Neco.Bootstrap
