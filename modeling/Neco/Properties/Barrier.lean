import Neco.Properties.Reign

/-!
# Handlers in lockstep

All members of a request are in `Worker.update`, nothing fails and nobody else writes
under `status/`. Then the barrier keeps the calls of `RunStep` in lockstep, no handler
ever sees a status it would reject, and the update does not get stuck.
-/

namespace Neco

open Lockstep

variable {V : Type} [DecidableEq V]

/-- Members act in their handlers only and without failures; nobody else writes under
`status/`. -/
def FailureFree (R : UpdateRequest) (_ : System) : SystemAction → Prop
  | .worker _ .receiveEvent => True
  | .worker lrn (.putStatus result) => result = .ok ∧ lrn ∈ R.servers
  | .worker lrn (.runStepDone result) => lrn ∈ R.servers → result = .ok ()
  | .worker lrn _ => lrn ∉ R.servers
  | .updater _ (.put _) => False
  | .recover _ .clear => False
  | _ => True

instance (R : UpdateRequest) (s : System) : ∀ a, Decidable (FailureFree R s a)
  | .worker _ (.putStatus _) => inferInstanceAs (Decidable (_ ∧ _))
  | .worker _ (.runStepDone _) => inferInstanceAs (Decidable (_ → _))
  | .worker _ (.start _) | .worker _ .exit | .worker _ .getRequest | .worker _ .receiveRequest
  | .worker _ .examine | .worker _ (.watchError _) => inferInstanceAs (Decidable (¬ _))
  | .updater _ (.put _) | .recover _ .clear => .isFalse id
  | .worker _ .receiveEvent | .updater _ .elected | .updater _ .snapshot | .updater _ .decide
  | .updater _ .wake | .updater _ .receiveStatus | .updater _ .deadline | .updater _ .fail
  | .recover _ .read
  | .campaign _ | .loseKey _ | .registerBootserver _ | .deleteBootServer _
  | .updateNecoRelease _ | .other | .tick _ => .isTrue trivial

/-- The request `R` of revision `m` is current, its members run its version and are about
to enter `update` for it; nothing has been written under `status/` since. -/
structure AllEntering (R : UpdateRequest) (m : Nat) (s : System) : Prop where
  current : (store s.history).current = some (R, m)
  running : R.stop = false
  noReport : ∀ c ∈ s.history.drop m, c.isStatus = false
  entering : ∀ i ∈ R.servers, (s.workers i).version = R.version ∧
    ∃ job, (s.workers i).phase = .entering job ∧ job.req = R ∧ job.modRev = m
  unused : ∀ i k, StepEvent.began i m k ∉ s.trace ∧ StepEvent.finished i m k ∉ s.trace

/-! ### Calls of `RunStep` -/

def callOf (lrn : Int) (m : Nat) : StepEvent → Option Nat
  | .began i r k => if i = lrn ∧ r = m then some k else none
  | .finished _ _ _ => none

/-- The steps for which `lrn` has called `RunStep` with the request of revision `m`. -/
def calls (lrn : Int) (m : Nat) (trace : List StepEvent) : List Nat :=
  trace.filterMap (callOf lrn m)

theorem calls_append (lrn : Int) (m : Nat) (t u : List StepEvent) :
    calls lrn m (t ++ u) = calls lrn m t ++ calls lrn m u := List.filterMap_append ..

/-- How many steps a handler in this phase has begun. -/
def Phase.begun (final : Nat) : Phase → Nat
  | .watching _ hd => hd.step - 1
  | .running _ hd => hd.step
  | .advancing _ hd => hd.step - 1
  | .completing _ hd => hd.step
  | .restarting _ => final
  | _ => 0

theorem Taking.begun_le {final : Nat} {h : List Change} {R : UpdateRequest} {m : Nat} {lrn : Int}
    {p : Phase} (taking : Taking final h R m lrn p) : p.begun final ≤ final := by
  cases p with
  | watching job hd => exact Nat.le_trans (Nat.sub_le _ 1) taking.2.2.1
  | running job hd => exact taking.2.2.1
  | advancing job hd =>
    obtain ⟨_, _, k, same, bound, _⟩ := taking
    simp only [Phase.begun]
    omega
  | completing job hd => exact Nat.le_of_eq taking.2.1
  | restarting job => exact Nat.le_refl _
  | _ => exact Nat.zero_le _

/-- The first step that a handler in this phase has not finished. -/
def Phase.unfinished (final : Nat) : Phase → Nat
  | .watching _ hd => hd.step
  | .running _ hd => hd.step
  | .advancing _ hd => hd.step
  | .completing _ hd => hd.step + 1
  | .restarting _ => final + 1
  | _ => 1

/-- A member calls `RunStep` only when all members are done with the steps below. -/
def BeganTogether (R : UpdateRequest) (m : Nat) (trace : List StepEvent) (e : StepEvent) : Prop :=
  ∀ i k, i ∈ R.servers → e = .began i m k → ∀ j ∈ R.servers, Done trace j m k

structure Paced (final : Nat) (R : UpdateRequest) (m : Nat) (s : System) : Prop where
  reign : Reign final R m s
  taking : ∀ i ∈ R.servers, Taking final s.history R m i (s.workers i).phase
  called : ∀ i ∈ R.servers,
    calls i m s.trace = List.range' 1 ((s.workers i).phase.begun final)
  ended : ∀ i ∈ R.servers, Done s.trace i m ((s.workers i).phase.unfinished final)
  arrived : ∀ j l, (j, l) ∈ arrivals m s.history → Done s.trace j m l
  starts : History.Each (BeganTogether R m) s.trace

theorem FailureFree.calm {R : UpdateRequest} {s : System} {a : SystemAction}
    (free : FailureFree R s a) : Calm R s a := by
  cases a with
  | worker lrn a =>
    cases a with
    | start v => trivial
    | exit => exact fun member => absurd member free
    | getRequest => trivial
    | receiveRequest => trivial
    | examine => exact fun member => absurd member free
    | putStatus result => exact free
    | receiveEvent => trivial
    | watchError msg => exact free
    | runStepDone result =>
      cases result with
      | ok => trivial
      | error msg =>
        intro member
        cases free member
  | updater u a => cases a <;> exact free
  | recover c a => cases a <;> exact free
  | _ => trivial

namespace Paced

variable {final : Nat} {R : UpdateRequest} {m : Nat} {s : System}

/-- What the step of one worker does to the calls: only its own are touched, and they
follow its phase. -/
structure Advance (final : Nat) (R : UpdateRequest) (m : Nat) (s : System) (lrn : Int)
    (p : Phase) (events : List StepEvent) : Prop where
  called : calls lrn m (s.trace ++ events) = List.range' 1 (p.begun final)
  ended : Done (s.trace ++ events) lrn m (p.unfinished final)
  starts : History.Each (BeganTogether R m) (s.trace ++ events)

theorem advance_same (paced : Paced final R m s) {lrn : Int} (member : lrn ∈ R.servers) {p : Phase}
    (begun : p.begun final = (s.workers lrn).phase.begun final)
    (unfinished : p.unfinished final = (s.workers lrn).phase.unfinished final) :
    Advance final R m s lrn p [] where
  called := by
    rw [List.append_nil, begun]
    exact paced.called lrn member
  ended := by
    rw [List.append_nil, unfinished]
    exact paced.ended lrn member
  starts := by
    rw [List.append_nil]
    exact paced.starts

/-- An event either changes nothing or begins the step all members have arrived at. -/
theorem advance_event (paced : Paced final R m s) {lrn : Int} (member : lrn ∈ R.servers)
    {job : Job} {hd : Handler} (phase : (s.workers lrn).phase = .watching job hd) {c : Change}
    {p : Phase} (watched : Watched job hd c p)
    (taking : Taking final s.history R m lrn p) :
    Advance final R m s lrn p (beganEvents lrn p) := by
  cases watched with
  | stopped req put stopped => exact taking.elim
  | aborting msg reason => exact taking.elim
  | ignored _ outside => exact paced.advance_same member (by rw [phase]; rfl) (by rw [phase]; rfl)
  | arrived j st o put inside version going unfinished step remaining =>
    exact paced.advance_same member (by rw [phase]; rfl) (by rw [phase]; rfl)
  | run j st o put inside version going unfinished step last =>
    obtain ⟨following, one, bound, passed⟩ := taking
    have positive : 1 ≤ hd.step := one
    have called := paced.called lrn member
    have ended := paced.ended lrn member
    rw [phase] at called ended
    refine ⟨?_, ended.mono _, (History.each_concat _ _ _).mpr ⟨paced.starts, ?_⟩⟩
    · rw [calls_append, called]
      simp only [beganEvents, calls, List.filterMap_cons, List.filterMap_nil, callOf,
        following.modRev, and_self, if_true, Phase.begun]
      obtain ⟨k, same⟩ : ∃ k, hd.step = k + 1 := ⟨hd.step - 1, by omega⟩
      rw [same, Nat.add_sub_cancel, List.range'_1_concat, Nat.add_comm 1 k]
    · rintro i k _ ⟨⟩ j' inside'
      refine paced.arrived j' hd.step ?_
      rw [arrivals_split following.low]
      exact List.mem_append_left _ (passed.all j' inside')

theorem advance_finished (paced : Paced final R m s) {lrn : Int} (member : lrn ∈ R.servers)
    {job : Job} {hd : Handler} (phase : (s.workers lrn).phase = .running job hd)
    (modRev : job.modRev = m) :
    Advance final R m s lrn (afterRunStep final job hd) [.finished lrn job.modRev hd.step] := by
  have called := paced.called lrn member
  have ended := paced.ended lrn member
  rw [phase] at called ended
  refine ⟨?_, ?_, (History.each_concat _ _ _).mpr ⟨paced.starts, by rintro _ _ _ ⟨⟩⟩⟩
  · rw [calls_append, called]
    simp only [calls, List.filterMap_cons, List.filterMap_nil, callOf, List.append_nil, afterRunStep]
    split <;> rfl
  · rw [modRev]
    have more := ended.succ
    simp only [afterRunStep]
    split <;> exact more

/-- The phase, the calls and the report of one member in one step. -/
theorem move (paced : Paced final R m s) {lrn : Int} (member : lrn ∈ R.servers)
    {a : WorkerAction} (free : FailureFree R s (.worker lrn a)) {w : Worker} {cs : List Change}
    {events : List StepEvent}
    (move : Move final s.history lrn (s.workers lrn) a w cs events) :
    Taking final (s.history ++ cs) R m lrn w.phase ∧ Advance final R m s lrn w.phase events := by
  have taking := paced.taking lrn member
  generalize before : s.workers lrn = w₀ at move taking
  cases move with
  | start old version => exact absurd member free
  | exit v p up => exact absurd member free
  | noRequest v absent => exact absurd member free
  | gotRequest v req rev present => exact absurd member free
  | skipped v pos c here no => exact absurd member free
  | received v pos c req here put => exact absurd member free
  | examine v job => exact absurd member free
  | put v p job st result pending applied =>
    obtain ⟨rfl, _⟩ := free
    have part : Part final s.history R m lrn ⟨v, p⟩ := Or.inr taking
    obtain ⟨_, _, next⟩ := paced.reign.report member part pending
    refine ⟨next, ?_⟩
    cases p with
    | entering job' => exact paced.advance_same member (by rw [before]; rfl) (by rw [before]; rfl)
    | advancing job' hd =>
      exact paced.advance_same member (by rw [before]; rfl) (by rw [before]; rfl)
    | completing job' hd =>
      have last : hd.step = final := taking.2.1
      exact paced.advance_same member (by rw [before]; exact last.symm)
        (by rw [before]; exact (congrArg (· + 1) last).symm)
    | watching job' hd => cases pending
    | running job' hd => cases pending
    | restarting job' => cases pending
    | _ => exact taking.elim
  | lost v p job st msg pending => cases free.1
  | event v job hd c here =>
    rw [List.append_nil]
    have next := paced.reign.event taking here (watchChange_watched job hd c)
    exact ⟨next, paced.advance_event member (by rw [before]) (watchChange_watched job hd c) next⟩
  | watchError v job hd msg => exact absurd member free
  | finished v job hd =>
    rw [List.append_nil]
    exact ⟨Reign.runStep_done taking,
      paced.advance_finished member (by rw [before]) taking.1.modRev⟩
  | failed v job hd msg => cases free member

/-- A member has finished the steps below the level it is about to report. -/
theorem pending_level {h : List Change} {lrn : Int} {p : Phase}
    (taking : Taking final h R m lrn p) {job : Job} {st : UpdateStatus}
    (pending : p.pending = some (job, st)) : st.level = p.unfinished final := by
  cases p with
  | entering job' =>
    cases pending
    rfl
  | advancing job' hd =>
    cases pending
    rfl
  | completing job' hd =>
    cases pending
    rfl
  | watching job' hd => cases pending
  | running job' hd => cases pending
  | restarting job' => cases pending
  | _ => exact taking.elim

theorem calls_other {lrn i : Int} (other : i ≠ lrn) {events : List StepEvent}
    (own : events = [] ∨ ∃ e, events = [e] ∧ e.lrn = lrn) (trace : List StepEvent) :
    calls i m (trace ++ events) = calls i m trace := by
  rcases own with rfl | ⟨e, rfl, rfl⟩
  · rw [List.append_nil]
  · rw [calls_append]
    cases e with
    | began j r k =>
      have differs : ¬ (j = i ∧ r = m) := fun same => other same.1.symm
      simp [calls, callOf, differs]
    | finished j r k => simp [calls, callOf]

/-- A step of a party that is no member, with a transaction outside `status/` or none. -/
theorem frame (paced : Paced final R m s) (t : System) (reign : Reign final R m t)
    (cs : List Change) (history : t.history = s.history ++ cs)
    (silent : cs = [] ∨ ∃ c, cs = [c] ∧ arrival c = none)
    (workers : ∀ i ∈ R.servers, t.workers i = s.workers i)
    (trace : ∃ events, t.trace = s.trace ++ events ∧
      (∀ i ∈ R.servers, calls i m (s.trace ++ events) = calls i m s.trace) ∧
      History.Each (BeganTogether R m) (s.trace ++ events)) : Paced final R m t := by
  obtain ⟨events, trace, sameCalls, starts⟩ := trace
  refine ⟨reign, ?_, ?_, ?_, ?_, by rw [trace]; exact starts⟩
  · intro i member
    rw [workers i member, history]
    rcases silent with rfl | ⟨c, rfl, none⟩
    · rw [List.append_nil]
      exact paced.taking i member
    · exact (paced.taking i member).concat paced.reign.low (history ▸ reign.log) (by simp [none])
  · intro i member
    rw [workers i member, trace, sameCalls i member]
    exact paced.called i member
  · intro i member
    rw [workers i member, trace]
    exact (paced.ended i member).mono events
  · intro j l arrived
    rw [trace]
    refine (paced.arrived j l ?_).mono events
    rw [history] at arrived
    rcases silent with rfl | ⟨c, rfl, none⟩
    · simpa using arrived
    · simpa [arrivals_concat paced.reign.low, none] using arrived

theorem worker (paced : Paced final R m s) {lrn : Int} (member : lrn ∈ R.servers)
    {a : WorkerAction} (free : FailureFree R s (.worker lrn a)) {w : Worker} {cs : List Change}
    {events : List StepEvent} (step : Move final s.history lrn (s.workers lrn) a w cs events)
    (t : System) (reign : Reign final R m t) (history : t.history = s.history ++ cs)
    (workers : t.workers = Function.update s.workers lrn w)
    (trace : t.trace = s.trace ++ events) : Paced final R m t := by
  obtain ⟨taking, advance⟩ := paced.move member free step
  have log := reign.log
  rw [history] at log
  refine ⟨reign, ?_, ?_, ?_, ?_, by rw [trace]; exact advance.starts⟩
  · intro i inside
    rw [history, workers]
    by_cases same : i = lrn
    · subst same
      rw [Function.update_self]
      exact taking
    · rw [Function.update_of_ne same]
      rcases step.committed with rfl | ⟨job, st, _, rfl⟩
      · rw [List.append_nil]
        exact paced.taking i inside
      · refine (paced.taking i inside).concat paced.reign.low log ?_
        rintro _ _ ⟨⟩
        exact Ne.symm same
  · intro i inside
    rw [trace, workers]
    by_cases same : i = lrn
    · subst same
      rw [Function.update_self]
      exact advance.called
    · rw [Function.update_of_ne same, calls_other same step.events_own]
      exact paced.called i inside
  · intro i inside
    rw [trace, workers]
    by_cases same : i = lrn
    · subst same
      rw [Function.update_self]
      exact advance.ended
    · rw [Function.update_of_ne same]
      exact (paced.ended i inside).mono events
  · intro j l arrived
    rw [trace]
    rw [history] at arrived
    rcases step.committed with rfl | ⟨job, st, pending, rfl⟩
    · rw [List.append_nil] at arrived
      exact (paced.arrived j l arrived).mono events
    · rw [arrivals_concat paced.reign.low] at arrived
      rcases List.mem_append.mp arrived with old | new
      · exact (paced.arrived j l old).mono events
      · -- the new report names the step its author has just come to
        simp only [arrival, Option.toList_some, List.mem_singleton, Prod.mk.injEq] at new
        obtain ⟨rfl, rfl⟩ := new
        rw [pending_level (paced.taking j member) pending]
        exact (paced.ended j member).mono events

end Paced

theorem paced_step {cfg : Config V} {R : UpdateRequest} {m : Nat} {s s' : System}
    {a : SystemAction} (paced : Paced cfg.final R m s) (free : FailureFree R s a)
    (stepped : Stepped cfg s a s') : Paced cfg.final R m s' := by
  have reign : Reign cfg.final R m s' := by
    refine reign_step paced.reign free.calm ?_ stepped
    rintro i member rfl
    exact absurd member free
  have still : ∃ events, s.trace = s.trace ++ events ∧
      (∀ i ∈ R.servers, calls i m (s.trace ++ events) = calls i m s.trace) ∧
      History.Each (BeganTogether R m) (s.trace ++ events) :=
    ⟨[], by simp, by simp, by simpa using paced.starts⟩
  cases stepped with
  | worker lrn a w cs events move =>
    by_cases member : lrn ∈ R.servers
    · exact paced.worker member free move _ reign rfl rfl rfl
    · -- only members report in such a run
      have silent : cs = [] := by
        rcases move.committed with same | ⟨job, st, _, rfl⟩
        · exact same
        · obtain ⟨result, rfl, _, _⟩ := move.reported
          exact absurd free.2 member
      have differs (i : Int) (inside : i ∈ R.servers) : i ≠ lrn := by
        rintro rfl
        exact member inside
      refine paced.frame _ reign cs rfl (Or.inl silent) ?_ ⟨events, rfl, ?_, ?_⟩
      · intro i inside
        exact Function.update_of_ne (differs i inside) ..
      · intro i inside
        exact Paced.calls_other (differs i inside) move.events_own _
      · -- what a server that is no member calls does not matter
        rcases move.events_own with rfl | ⟨e, rfl, own⟩
        · simpa using paced.starts
        · refine (History.each_concat _ _ _).mpr ⟨paced.starts, ?_⟩
          rintro i k inside rfl
          exact absurd (own ▸ inside) member
  | updater u a next cs move =>
    cases cs with
    | nil => exact paced.frame _ reign [] rfl (Or.inl rfl) (fun _ _ => rfl) still
    | cons c cs =>
      -- the updater puts nothing during the update
      obtain ⟨acknowledged, rfl⟩ := move.put_of_commit
      exact free.elim
  | recoverRead c req m present stopped =>
    exact paced.frame _ reign [] (by simp) (Or.inl rfl) (fun _ _ => rfl) still
  | recoverClear c req m holds present => exact free.elim
  | recoverRetry c => exact free.elim
  | campaign u idle => exact paced.frame _ reign [] (by simp) (Or.inl rfl) (fun _ _ => rfl) still
  | loseKey key => exact paced.frame _ reign [] (by simp) (Or.inl rfl) (fun _ _ => rfl) still
  | info a c info valid =>
    refine paced.frame _ reign [c] rfl (Or.inr ⟨c, rfl, ?_⟩) (fun _ _ => rfl) still
    cases c <;> first | rfl | cases info
  | other a =>
    exact paced.frame _ reign [.other] rfl (Or.inr ⟨_, rfl, rfl⟩) (fun _ _ => rfl) still
  | tick elapsed => exact paced.frame _ reign [] (by simp) (Or.inl rfl) (fun _ _ => rfl) still

theorem AllEntering.paced {final : Nat} {R : UpdateRequest} {m : Nat} {s : System}
    (start : AllEntering R m s) (positive : 1 ≤ final) : Paced final R m s := by
  have none : arrivals m s.history = [] := by
    rw [arrivals, List.filterMap_eq_nil_iff]
    intro c member
    have silent := start.noReport c member
    cases c <;> first | rfl | cases silent
  have taking (i : Int) (member : i ∈ R.servers) :
      Taking final s.history R m i (s.workers i).phase := by
    obtain ⟨_, job, phase, req, modRev⟩ := start.entering i member
    rw [phase]
    exact ⟨req, modRev, by simp [none]⟩
  refine ⟨⟨positive, start.current, start.running, ?_, ?_, ?_⟩, taking, ?_, ?_, ?_, ?_⟩
  · rw [none]
    exact .nil
  · intro j st o put
    cases start.noReport _ put
  · exact fun i member => Or.inr (taking i member)
  · intro i member
    obtain ⟨_, job, phase, _, _⟩ := start.entering i member
    rw [phase]
    show calls i m s.trace = []
    rw [calls, List.filterMap_eq_nil_iff]
    intro e inside
    cases e with
    | began j r k =>
      have differs : ¬ (j = i ∧ r = m) := by
        rintro ⟨rfl, rfl⟩
        exact (start.unused j k).1 inside
      simp [callOf, differs]
    | finished j r k => rfl
  · intro i member
    obtain ⟨_, job, phase, _, _⟩ := start.entering i member
    rw [phase]
    exact Done.one _ _ _
  · simp [none]
  · rintro t₁ e t₂ split i k _ rfl
    exact absurd (split ▸ by simp) (start.unused i k).1

/-! ### No handler is left waiting -/

/-- The handler has entered the update and has no event left, neither to be delivered nor
in its hands. -/
def NothingLeft (h : List Change) : Phase → Prop
  | .watching _ hd => ∀ c ∈ h.drop hd.pos, c.isStatus = false
  | .entering _ => False
  | .running _ _ => False
  | .advancing _ _ => False
  | .completing _ _ => False
  | _ => True

/-- When no member has anything left to do, none of them waits: the one furthest behind
would be waiting for a member still behind it. -/
theorem Paced.none_waits {final : Nat} {R : UpdateRequest} {m : Nat} {s : System}
    (paced : Paced final R m s)
    (idle : ∀ i ∈ R.servers, NothingLeft s.history (s.workers i).phase) :
    ∀ n, ∀ i ∈ R.servers, ∀ job hd, (s.workers i).phase = .watching job hd → hd.step ≠ n := by
  intro n
  induction n using Nat.strong_induction_on with
  | _ n ih =>
  intro i member job hd phase same
  have taking := paced.taking i member
  have nothing := idle i member
  rw [phase] at taking nothing
  obtain ⟨following, one, bound, waits, reads⟩ := taking
  have read : arrivals hd.pos s.history = [] := by
    rw [arrivals, List.filterMap_eq_nil_iff]
    intro c inside
    have silent := nothing c inside
    cases c <;> first | rfl | cases silent
  obtain ⟨b, missed⟩ := Finset.nonempty_iff_ne_empty.mpr waits
  have inside := reads.missing_members b missed
  have missing : (b, hd.step) ∉ arrivals m s.history := by
    rw [arrivals_split following.low, read, List.append_nil]
    exact (reads.missing_iff b inside).mp missed
  have taking' := paced.taking b inside
  have nothing' := idle b inside
  cases phase' : (s.workers b).phase with
  | watching job' hd' =>
    rw [phase'] at taking'
    obtain ⟨following', _, _, _, reads'⟩ := taking'
    have here := reads'.arrived
    rw [← arrivals_split following'.low] at here
    have behind : hd'.step < n := by
      by_contra ahead
      by_cases level : hd.step = hd'.step
      · exact missing (level ▸ here)
      · exact missing (paced.reign.log.mem_below here inside hd.step one (by omega))
    exact ih hd'.step behind b inside job' hd' phase' rfl
  | restarting job' =>
    rw [phase'] at taking'
    exact missing (paced.reign.log.mem_below taking' inside hd.step one (by omega))
  | entering job' => exact (phase' ▸ nothing').elim
  | running job' hd' => exact (phase' ▸ nothing').elim
  | advancing job' hd' => exact (phase' ▸ nothing').elim
  | completing job' hd' => exact (phase' ▸ nothing').elim
  | _ => exact (phase' ▸ taking').elim

theorem Paced.all_restarting {final : Nat} {R : UpdateRequest} {m : Nat} {s : System}
    (paced : Paced final R m s)
    (idle : ∀ i ∈ R.servers, NothingLeft s.history (s.workers i).phase) {i : Int}
    (member : i ∈ R.servers) : ∃ job, (s.workers i).phase = .restarting job := by
  have taking := paced.taking i member
  have nothing := idle i member
  cases phase : (s.workers i).phase with
  | watching job hd => exact absurd rfl (paced.none_waits idle hd.step i member job hd phase)
  | restarting job => exact ⟨job, rfl⟩
  | entering job => exact (phase ▸ nothing).elim
  | running job hd => exact (phase ▸ nothing).elim
  | advancing job hd => exact (phase ▸ nothing).elim
  | completing job hd => exact (phase ▸ nothing).elim
  | _ => exact (phase ▸ taking).elim

/-! ### Main theorem -/

theorem paced_run {cfg : Config V} {R : UpdateRequest} {m : Nat} {s₀ s : System}
    (positive : 1 ≤ cfg.final) (start : AllEntering R m s₀)
    (run : Transition.RunFrom (System.step cfg) (FailureFree R) s₀ s) : Paced cfg.final R m s :=
  run.invariant (Paced cfg.final R m) (start.paced positive)
    fun t a u paced free stepped => paced_step paced free (step_stepped cfg t u a stepped)

/-- The status of a member that the handler of another one looks at is accepted. -/
theorem handleWorkerStatus_accepts (req : UpdateRequest) (hd : Handler) (j : Int)
    (st : UpdateStatus) (version : st.version = req.version) (step : st.step = hd.step)
    (cond : st.cond = .running) : ∃ answer, handleWorkerStatus req hd j st = .ok answer := by
  unfold handleWorkerStatus
  by_cases member : req.isMember j = true <;> simp [member, version, step, cond]

/-- **Barrier lockstep and absence of spurious aborts.** All members of `R` enter the
update once and nothing fails. Then a member calls `RunStep` only after the step below has
returned on every member; every status that reaches a handler is for the version of `R`, at
the step of the handler and running, and nobody reports an abort; every member calls
`RunStep` for 1, 2, 3, ... in this order, up to the final step and with nobody left behind
when nothing is left to deliver. -/
theorem handlers_in_lockstep (cfg : Config V) (positive : 1 ≤ cfg.final) (R : UpdateRequest)
    (m : Nat) (s₀ s : System) (start : AllEntering R m s₀)
    (run : Transition.RunFrom (System.step cfg) (FailureFree R) s₀ s) :
    (∀ t₁ t₂ i k, i ∈ R.servers → s.trace = t₁ ++ .began i m (k + 1) :: t₂ → 1 ≤ k →
      ∀ j ∈ R.servers, StepEvent.finished j m k ∈ t₁) ∧
    (∀ i ∈ R.servers, ∀ job hd j st o, (s.workers i).phase = .watching job hd →
      s.history[hd.pos]? = some (.putStatus j st o) →
      st.version = R.version ∧ st.step = hd.step ∧ st.cond = .running ∧
        ∃ answer, handleWorkerStatus job.req hd j st = .ok answer) ∧
    (∀ j st o, Change.putStatus j st o ∈ s.history.drop m → st.cond ≠ .abort) ∧
    (∀ i ∈ R.servers, ∃ n ≤ cfg.final, calls i m s.trace = List.range' 1 n) ∧
    ((∀ i ∈ R.servers, NothingLeft s.history (s.workers i).phase) →
      ∀ i ∈ R.servers, calls i m s.trace = List.range' 1 cfg.final ∧
        ∃ st, Change.putStatus i st m ∈ s.history.drop m ∧
          (store s.history).statuses.lookup i = some st ∧
          st.version = R.version ∧ st.cond = .complete) := by
  have paced := paced_run positive start run
  refine ⟨?_, ?_, ?_, ?_, ?_⟩
  · intro t₁ t₂ i k member split low j inside
    exact paced.starts t₁ _ t₂ split i (k + 1) member rfl j inside k low (Nat.lt_succ_self k)
  · intro i member job hd j st o phase here
    have taking := paced.taking i member
    rw [phase] at taking
    obtain ⟨_, version, cond, step⟩ := paced.reign.next_report taking here
    have own : job.req = R := taking.1.req
    exact ⟨version, step, cond, handleWorkerStatus_accepts job.req hd j st (own ▸ version) step cond⟩
  · intro j st o put
    exact paced.reign.report_ne_abort put
  · intro i member
    exact ⟨_, (paced.taking i member).begun_le, paced.called i member⟩
  · -- with nothing left to read every server is about to restart, and its last report says so
    intro idle i member
    obtain ⟨job, phase⟩ := paced.all_restarting idle member
    have taking := paced.taking i member
    have called := paced.called i member
    rw [phase] at taking called
    refine ⟨called, ?_⟩
    obtain ⟨st, o, found, put, level⟩ :=
      status_of_arrival (s.history.take m) _ paced.reign.plain paced.reign.log taking
    rw [List.take_append_drop] at found
    obtain ⟨rfl, version, proper⟩ := paced.reign.reports i st o put
    refine ⟨st, put, found, version, ?_⟩
    rcases proper with ⟨cond, low⟩ | ⟨cond, _⟩
    · simp [UpdateStatus.level, cond] at level
      omega
    · exact cond

/-- Two servers of a first update are about to enter it. -/
def bothEntering : System :=
  .play operatorConfig Transition.always [0, 1] "2020.01.01-1"
    [.worker 0 (.start "2020.01.01-1"), .worker 1 (.start "2020.01.01-1"),
      .worker 0 .getRequest, .worker 1 .getRequest, .worker 0 .examine, .worker 1 .examine]

theorem bothEntering_allEntering : AllEntering (firstRequest [0, 1] "2020.01.01-1") 4 bothEntering where
  current := by decide +kernel
  running := rfl
  noReport := by decide +kernel
  entering := by
    have phase (i : Int) (member : i ∈ [(0 : Int), 1]) :
        bothEntering.workers i = ⟨"2020.01.01-1", .entering ⟨firstRequest [0, 1] "2020.01.01-1", 4, 4⟩⟩ := by
      revert i
      decide +kernel
    intro i member
    rw [phase i member]
    exact ⟨rfl, _, rfl, rfl, rfl⟩
  unused := by
    have : bothEntering.trace = [] := by decide +kernel
    simp [this]

/-- Both run all of the operator's steps together. -/
def bothFinished : System :=
  Transition.after (System.step operatorConfig) (FailureFree (firstRequest [0, 1] "2020.01.01-1")) bothEntering
    ([.worker 0 (.putStatus .ok), .worker 1 (.putStatus .ok)] ++
      (List.replicate operatorFinalStep (runTogether [0, 1])).flatten)

theorem handlers_in_lockstep_both :
    calls 0 4 bothFinished.trace = List.range' 1 operatorFinalStep ∧
      ∃ st, Change.putStatus 0 st 4 ∈ bothFinished.history.drop 4 ∧
        (store bothFinished.history).statuses.lookup 0 = some st ∧
        st.version = "2020.01.01-1" ∧ st.cond = .complete := by
  have phase (i : Int) (member : i ∈ [(0 : Int), 1]) : (bothFinished.workers i).phase =
      .restarting ⟨firstRequest [0, 1] "2020.01.01-1", 4, 4⟩ := by
    revert i
    decide +kernel
  refine (handlers_in_lockstep operatorConfig (by decide) (firstRequest [0, 1] "2020.01.01-1") 4
    bothEntering bothFinished bothEntering_allEntering
    (Transition.runFrom_after _ _ _ _)).2.2.2.2 ?_ 0 (by decide)
  intro i member
  rw [phase i member]
  trivial

end Neco
