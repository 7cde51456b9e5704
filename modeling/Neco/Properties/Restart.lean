import Neco.Properties.Reign

/-!
# Restarts at the end of an update

`RestartEtcd` ends the process of a worker that has completed an update. Started again,
it reads the statuses while other members may still be in their last step, which
`UpdateAborted` takes for an abort. If a worker that has completed looks at the statuses
again only when all members have (`FinishedWaits`), nothing is aborted.
-/

namespace Neco

open Lockstep

variable {V : Type} [DecidableEq V]

/-- Nothing fails, no request is put and nothing is cleared; a process ends only before its
first report for `R` or after its last. -/
def Undisturbed (R : UpdateRequest) (s : System) : SystemAction → Prop
  | .worker lrn .exit => ¬ ShowsProgress R s lrn
  | .worker _ (.putStatus result) => result = .ok
  | .worker _ (.watchError _) => False
  | .worker _ (.runStepDone result) => result = .ok ()
  | .updater _ (.put _) => False
  | .recover _ .clear => False
  | _ => True

/-- A worker that has completed `R` looks at a request only when all members have. -/
def FinishedWaits (R : UpdateRequest) (s : System) : SystemAction → Prop
  | .worker lrn .examine => ShowsCompletion R s lrn →
      updateCompleted R.version R.servers (store s.history).statuses = true
  | _ => True

instance (R : UpdateRequest) (s : System) : ∀ a, Decidable (Undisturbed R s a)
  | .worker _ .exit => inferInstanceAs (Decidable (¬ _))
  | .worker _ (.putStatus _) | .worker _ (.runStepDone _) => inferInstanceAs (Decidable (_ = _))
  | .worker _ (.watchError _) | .updater _ (.put _) | .recover _ .clear => .isFalse id
  | .worker _ (.start _) | .worker _ .getRequest | .worker _ .receiveRequest
  | .worker _ .examine | .worker _ .receiveEvent | .updater _ .elected | .updater _ .snapshot
  | .updater _ .decide | .updater _ .wake | .updater _ .receiveStatus | .updater _ .deadline
  | .updater _ .fail | .recover _ .read
  | .campaign _ | .loseKey _ | .registerBootserver _ | .deleteBootServer _
  | .updateNecoRelease _ | .other | .tick _ => .isTrue trivial

instance (R : UpdateRequest) (s : System) (a : SystemAction) :
    Decidable (FinishedWaits R s a) := by
  unfold FinishedWaits
  split <;> infer_instance

/-- The request `R` of revision `m` has been put; no status carries its version, and no
process is in an update or will come upon an earlier request it would handle. -/
structure CleanStart (R : UpdateRequest) (m : Nat) (s : System) : Prop where
  current : (store s.history).current = some (R, m)
  running : R.stop = false
  noReport : ∀ c ∈ s.history.drop m, c.isStatus = false
  fresh : Fresh R m s.history
  idle : ∀ i, Idle s.history R m i (s.workers i)

/-- The reign of a request that started clean. -/
structure Steady (final : Nat) (R : UpdateRequest) (m : Nat) (s : System) : Prop where
  reign : Reign final R m s
  fresh : Fresh R m s.history
  outsiders : ∀ i ∉ R.servers, Idle s.history R m i (s.workers i)

theorem CleanStart.steady {final : Nat} {R : UpdateRequest} {m : Nat} {s : System}
    (start : CleanStart R m s) (positive : 1 ≤ final) : Steady final R m s := by
  have none : arrivals m s.history = [] := by
    rw [arrivals, List.filterMap_eq_nil_iff]
    intro c member
    have silent := start.noReport c member
    cases c <;> first | rfl | cases silent
  refine ⟨⟨positive, start.current, start.running, ?_, ?_, ?_⟩, start.fresh,
    fun i _ => start.idle i⟩
  · rw [none]
    exact .nil
  · intro j st o put
    cases start.noReport _ put
  · exact fun i _ => Or.inl ⟨start.idle i, Or.inl (by simp [none])⟩

/-- What `Setup` leaves behind, when it has put a request, is a clean start. -/
theorem setUp_cleanStart (lrns : List Int) (version : String) :
    CleanStart (firstRequest lrns version) (setUp lrns version).length
      (.boot (setUp lrns version)) := by
  have split : setUp lrns version = (lrns.map .registerBootserver ++ [.updateNecoRelease version]) ++
      [.putRequest (firstRequest lrns version)] := by simp [setUp]
  have none : ∀ c ∈ lrns.map Change.registerBootserver ++ [.updateNecoRelease version],
      c.isStatus = false := by
    intro c member
    rcases List.mem_append.mp member with server | release
    · obtain ⟨lrn, _, rfl⟩ := List.mem_map.mp server
      rfl
    · rw [List.mem_singleton] at release
      exact release ▸ rfl
  refine ⟨?_, rfl, ?_, ?_, fun _ => trivial⟩
  · simp only [System.boot, split, store_concat, Store.apply, List.length_append,
      List.length_singleton]
  · simp [System.boot]
  · intro j st found
    simp only [System.boot, List.take_length] at found
    rw [split, store_concat, Store.apply, (store_info _ none).2] at found
    cases found

theorem Fresh.concat {R : UpdateRequest} {m : Nat} {h : List Change} (fresh : Fresh R m h)
    (low : m ≤ h.length) (k : List Change) : Fresh R m (h ++ k) := by
  unfold Fresh
  rw [List.take_append_of_le_length low]
  exact fresh

/-- In a steady reign only members report, so undisturbed steps are calm. -/
theorem Steady.calm {cfg : Config V} {R : UpdateRequest} {m : Nat} {s s' : System}
    {a : SystemAction} (steady : Steady cfg.final R m s)
    (ok : Undisturbed R s a ∧ FinishedWaits R s a) (stepped : Stepped cfg s a s') :
    Calm R s a := by
  obtain ⟨undisturbed, waits⟩ := ok
  cases a with
  | worker lrn a =>
    cases a with
    | exit => exact fun _ => undisturbed
    | examine => exact fun _ => waits
    | putStatus result =>
      refine ⟨undisturbed, ?_⟩
      by_contra outsider
      have idle := (steady.outsiders lrn outsider).pending
      cases stepped with
      | worker _ _ w cs events move =>
        generalize s.workers lrn = before at idle move
        cases move with
        | put v p job st result pending applied =>
          rw [idle] at pending
          cases pending
        | lost v p job st msg pending =>
          rw [idle] at pending
          cases pending
      | info _ c info valid external => cases external
      | other _ external => cases external
    | watchError msg => exact undisturbed.elim
    | runStepDone result =>
      cases result with
      | ok => trivial
      | error msg => cases undisturbed
    | _ => trivial
  | updater u a => cases a <;> exact undisturbed
  | recover c a => cases a <;> exact undisturbed
  | _ => trivial

theorem steady_step {cfg : Config V} {R : UpdateRequest} {m : Nat} {s s' : System}
    {a : SystemAction} (steady : Steady cfg.final R m s)
    (ok : Undisturbed R s a ∧ FinishedWaits R s a) (stepped : Stepped cfg s a s') :
    Steady cfg.final R m s' := by
  have reign : Reign cfg.final R m s' :=
    reign_step steady.reign (steady.calm ok stepped) (fun _ _ _ => steady.fresh) stepped
  have fresh : Fresh R m s'.history := by
    rcases stepped.history_cases with same | ⟨c, grown⟩
    · rw [same]
      exact steady.fresh
    · rw [grown]
      exact steady.fresh.concat steady.reign.low [c]
  refine ⟨reign, fresh, fun i outsider => ?_⟩
  have idle := steady.outsiders i outsider
  -- whatever is committed in the reign of a request is no other request
  have kept : Idle s'.history R m i (s.workers i) := by
    rcases stepped.history_cases with same | ⟨c, grown⟩
    · rw [same]
      exact idle
    · rw [grown]
      have member : c ∈ s'.history.drop m := by
        rw [grown, List.drop_append_of_le_length steady.reign.low]
        simp
      exact idle.concat (by simp [(reign.plain c member).1])
  cases stepped with
  | worker lrn a w cs events move =>
    by_cases same : i = lrn
    · subst same
      simp only [Function.update_self]
      obtain ⟨rfl, still | ⟨job, _, _, _, _, handled, _⟩⟩ := steady.reign.idle_move idle move
      · rw [List.append_nil]
        exact still
      · exact absurd ((handles_iff _ _ _).mp handled).2.1 outsider
    · simp only [Function.update_of_ne same]
      exact kept
  | _ => exact kept

theorem steady_run {cfg : Config V} {R : UpdateRequest} {m : Nat} {s₀ s : System}
    (positive : 1 ≤ cfg.final) (start : CleanStart R m s₀)
    (run : Transition.RunFrom (System.step cfg)
      (fun s a => Undisturbed R s a ∧ FinishedWaits R s a) s₀ s) : Steady cfg.final R m s :=
  run.invariant (Steady cfg.final R m) (start.steady positive)
    fun t a u steady ok stepped => steady_step steady ok (step_stepped cfg t u a stepped)

/-- In a steady reign `UpdateAborted` is false wherever `Run` evaluates it. -/
theorem Steady.not_aborted {final : Nat} {R : UpdateRequest} {m : Nat} {s : System}
    (steady : Steady final R m s) {i : Int} {job : Job}
    (phase : (s.workers i).phase = .examining job)
    (handled : handles i (s.workers i).version job.req = true)
    (waits : FinishedWaits R s (.worker i .examine)) :
    job.req = R ∧ updateAborted R.version i (store s.history).statuses = false := by
  have own (idle : Idle s.history R m i (s.workers i)) : job.req = R := by
    simp only [Idle, phase] at idle
    rcases idle.2 with ⟨same, _⟩ | ignored
    · exact same
    · simp only [handled] at ignored
      cases ignored
  by_cases member : i ∈ R.servers
  · rcases steady.reign.members i member with ⟨idle, outside⟩ | taking
    · exact ⟨own idle, steady.reign.not_aborted steady.fresh member outside waits⟩
    · rw [phase] at taking
      exact taking.elim
  · have same := own (steady.outsiders i member)
    rw [same] at handled
    exact absurd ((handles_iff _ _ _).mp handled).2.1 member

/-! ### Main theorem -/

/-- **A worker that restarts because it finished does not abort the update**, provided that
it looks at the statuses again only when all members have finished: in every undisturbed
run of a request, `UpdateAborted` is false whenever `Run` evaluates it, and nobody reports
an abort. -/
theorem finished_restart_keeps_update (cfg : Config V) (positive : 1 ≤ cfg.final)
    (R : UpdateRequest) (m : Nat) (s₀ s : System) (start : CleanStart R m s₀)
    (run : Transition.RunFrom (System.step cfg)
      (fun s a => Undisturbed R s a ∧ FinishedWaits R s a) s₀ s) :
    (∀ i job, (s.workers i).phase = .examining job →
      handles i (s.workers i).version job.req = true →
      FinishedWaits R s (.worker i .examine) →
      job.req = R ∧ updateAborted R.version i (store s.history).statuses = false) ∧
    ∀ j st o, Change.putStatus j st o ∈ s.history.drop m → st.cond ≠ .abort := by
  have steady := steady_run positive start run
  refine ⟨fun i job phase handled waits => steady.not_aborted phase handled waits, ?_⟩
  intro j st o put
  exact steady.reign.report_ne_abort put

/-- Server 0 completes the update, ends, is started again and obtains the request. -/
def firstRestarts : List SystemAction :=
  [.worker 0 (.runStepDone (.ok ())), .worker 0 (.putStatus .ok), .worker 0 .exit,
    .worker 0 (.start "2020.01.01-1"), .worker 0 .getRequest]

/-- Both servers complete the update before the first one looks at the statuses again. -/
theorem finished_restart_keeps_update_both :
    let R := firstRequest [0, 1] "2020.01.01-1"
    let s := Transition.after (System.step operatorConfig)
      (fun s a => Undisturbed R s a ∧ FinishedWaits R s a) (.boot (setUp [0, 1] "2020.01.01-1"))
      (beginLastStep "2020.01.01-1" [0, 1] ++ firstRestarts ++
        [.worker 1 (.runStepDone (.ok ())), .worker 1 (.putStatus .ok)])
    updateAborted "2020.01.01-1" 0 (store s.history).statuses = false := by
  intro R s
  exact ((finished_restart_keeps_update operatorConfig (by decide) R 4 _ s
    (setUp_cleanStart [0, 1] "2020.01.01-1") (Transition.runFrom_after _ _ _ _)).1 0 ⟨R, 4, 41⟩
    (by decide +kernel) (by decide +kernel) (by decide +kernel)).2

/-- Server 0 looks at the statuses while server 1 is still in its last step. -/
theorem finished_restart_aborts :
    ∃ s₀ s₁ s₂ : System, CleanStart (firstRequest [0, 1] "2020.01.01-1") 4 s₀ ∧
      Transition.RunFrom (System.step operatorConfig)
        (Undisturbed (firstRequest [0, 1] "2020.01.01-1")) s₀ s₁ ∧
      (∃ job, (s₁.workers 0).phase = .examining job ∧
        handles 0 (s₁.workers 0).version job.req = true ∧
        updateAborted job.req.version 0 (store s₁.history).statuses = true) ∧
      Transition.RunFrom (System.step operatorConfig)
        (Undisturbed (firstRequest [0, 1] "2020.01.01-1")) s₁ s₂ ∧
      ∃ st o, Change.putStatus 0 st o ∈ s₂.history.drop 4 ∧ st.cond = .abort := by
  let s₁ := Transition.after (System.step operatorConfig)
    (Undisturbed (firstRequest [0, 1] "2020.01.01-1")) (.boot (setUp [0, 1] "2020.01.01-1"))
    (beginLastStep "2020.01.01-1" [0, 1] ++ firstRestarts)
  let s₂ := Transition.after (System.step operatorConfig)
    (Undisturbed (firstRequest [0, 1] "2020.01.01-1")) s₁
    [.worker 0 .examine, .worker 0 (.putStatus .ok)]
  exact ⟨_, s₁, s₂, setUp_cleanStart [0, 1] "2020.01.01-1", Transition.runFrom_after _ _ _ _,
    ⟨⟨firstRequest [0, 1] "2020.01.01-1", 4, 41⟩, by decide +kernel, by decide +kernel,
      by decide +kernel⟩,
    Transition.runFrom_after _ _ _ _, ⟨"2020.01.01-1", 18, .abort, ""⟩, 4, by decide +kernel, rfl⟩

end Neco
