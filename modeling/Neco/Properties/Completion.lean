import Neco.Properties.Leadership

/-!
# Completion is sound per request

A status carries the version of a request, not the request. The mod revision that
`putStatus` records for the proofs tells which request a worker was handling when it
reported. As long as every report is made while that request is the last one
(`TimelyPuts`), the statuses under `status/` speak of the request in
`status/current`, and the barrier keeps its members in lockstep.
-/

namespace Neco

variable {V : Type} [DecidableEq V]

/-- A worker writes a status only while the request it handles is the one in
`status/current`, or the one whose stop is there. -/
def TimelyPuts (s : System) : SystemAction → Prop
  | .worker lrn (.putStatus result) =>
    match (s.workers lrn).phase.pending with
    | some (job, _) => result.applied = true → lastRequest s.history = some job.modRev
    | none => True
  | _ => True

instance (s : System) (a : SystemAction) : Decidable (TimelyPuts s a) := by
  cases a with
  | worker lrn a =>
    cases a with
    | putStatus result =>
      simp only [TimelyPuts]
      cases (s.workers lrn).phase.pending with
      | none => exact .isTrue trivial
      | some pending => exact inferInstanceAs (Decidable (_ → _))
    | _ => exact .isTrue trivial
  | _ => exact .isTrue trivial

/-! ### The request a handler is reading about -/

/-- As long as no later request is put, a running request stays current. -/
theorem current_while {h : List Change} (permitted : History.Each Permitted h)
    {req : UpdateRequest} {m pos : Nat} (put : requestAt h m = some req)
    (running : req.stop = false) (low : m ≤ pos)
    (quiet : ∀ r, m < r → r ≤ pos → requestAt h r = none) :
    (store (h.take pos)).current = some (req, m) := by
  obtain ⟨positive, bound⟩ := requestAt_le put
  obtain ⟨r, rfl⟩ : ∃ r, m = r + 1 := ⟨m - 1, by omega⟩
  obtain ⟨c, here, request⟩ := Option.bind_eq_some_iff.mp put
  have start : (store (h.take (r + 1))).current = some (req, r + 1) := by
    rw [List.take_add_one, here]
    simp only [Option.toList_some, store_concat, current_apply, request, List.length_take]
    have : min r h.length = r := by omega
    rw [this]
  have cut : h.take pos = h.take (r + 1) ++ (h.take pos).drop (r + 1) := by
    conv_lhs => rw [← List.take_append_drop (r + 1) (h.take pos)]
    rw [List.take_take, Nat.min_eq_left low]
  have orderly : History.Each Permitted (h.take (r + 1) ++ (h.take pos).drop (r + 1)) := by
    rw [← cut]
    rw [← List.take_append_drop pos h] at permitted
    exact History.each_append_left permitted
  have noPut : ∀ d ∈ (h.take pos).drop (r + 1), d.request? = none := by
    intro d member
    obtain ⟨i, inside, rfl⟩ := List.mem_iff_getElem.mp member
    simp only [List.length_drop, List.length_take] at inside
    have := quiet (r + 1 + i + 1) (by omega) (by omega)
    simp only [requestAt] at this
    rw [List.getElem?_eq_getElem (by omega)] at this
    simpa using this
  rw [cut]
  rcases current_kept _ _ orderly noPut with same | ⟨_, R, m', present, stopped⟩
  · rw [same, start]
  · rw [start] at present
    cases present
    rw [running] at stopped
    cases stopped

/-! ### What the phases, the reports and the calls of `RunStep` promise -/

/-- A handler has seen no put of a request since its own. -/
structure Reading (h : List Change) (job : Job) (hd : Handler) : Prop where
  known : requestAt h job.modRev = some job.req
  running : job.req.stop = false
  low : job.modRev ≤ hd.pos
  high : hd.pos ≤ h.length
  quiet : ∀ r, job.modRev < r → r ≤ hd.pos → requestAt h r = none

def PhaseSound (final : Nat) (h : List Change) (trace : List StepEvent) (lrn : Int) :
    Phase → Prop
  | .examining job => requestAt h job.modRev = some job.req
  | .recordAbort job st => requestAt h job.modRev = some job.req ∧ st.cond = .abort
  | .entering job => requestAt h job.modRev = some job.req ∧ job.req.stop = false
  | .watching job hd => Reading h job hd ∧ Done trace lrn job.modRev hd.step ∧
      ∀ j ∈ job.req.servers, j ∉ hd.barrier → Done trace j job.modRev hd.step
  | .running job hd => Reading h job hd ∧ Done trace lrn job.modRev hd.step ∧
      ∀ j ∈ job.req.servers, Done trace j job.modRev hd.step
  | .advancing job hd => Reading h job hd ∧ Done trace lrn job.modRev hd.step ∧
      hd.barrier = newBarrier job.req.servers
  | .completing job hd => Reading h job hd ∧ Done trace lrn job.modRev (final + 1)
  | .failing job _ _ => requestAt h job.modRev = some job.req
  | .aborting job _ _ => requestAt h job.modRev = some job.req
  | _ => True

theorem Reading.mono {h : List Change} {job : Job} {hd : Handler} (reading : Reading h job hd)
    (k : List Change) : Reading (h ++ k) job hd where
  known := requestAt_append reading.known k
  running := reading.running
  low := reading.low
  high := by
    rw [List.length_append]
    exact Nat.le_add_right_of_le reading.high
  quiet := by
    intro r above below
    rw [requestAt_concat_of_le (Nat.le_trans below reading.high)]
    exact reading.quiet r above below

theorem PhaseSound.mono {final : Nat} {h : List Change} {trace : List StepEvent} {lrn : Int}
    {p : Phase} (sound : PhaseSound final h trace lrn p) (k : List Change)
    (events : List StepEvent) : PhaseSound final (h ++ k) (trace ++ events) lrn p := by
  cases p with
  | down => trivial
  | starting => trivial
  | waiting pos => trivial
  | restarting job => trivial
  | examining job => exact requestAt_append sound k
  | recordAbort job st => exact ⟨requestAt_append sound.1 k, sound.2⟩
  | entering job => exact ⟨requestAt_append sound.1 k, sound.2⟩
  | watching job hd =>
    obtain ⟨reading, done, arrived⟩ := sound
    exact ⟨reading.mono k, done.mono events, fun j member gone => (arrived j member gone).mono events⟩
  | running job hd =>
    obtain ⟨reading, done, all⟩ := sound
    exact ⟨reading.mono k, done.mono events, fun j member => (all j member).mono events⟩
  | advancing job hd =>
    obtain ⟨reading, done, fresh⟩ := sound
    exact ⟨reading.mono k, done.mono events, fresh⟩
  | completing job hd => exact ⟨sound.1.mono k, sound.2.mono events⟩
  | failing job hd msg => exact requestAt_append sound k
  | aborting job hd msg => exact requestAt_append sound k

/-- What a status says about its writer, who was handling the request of revision `o`. -/
structure Claims (final : Nat) (trace : List StepEvent) (lrn : Int) (st : UpdateStatus)
    (o : Nat) (req : UpdateRequest) : Prop where
  version : st.cond ≠ .abort → st.version = req.version
  arrived : st.cond ≠ .abort → st.cond ≠ .complete → Done trace lrn o st.step
  completed : st.cond = .complete → Done trace lrn o (final + 1)

theorem PhaseSound.pending {final : Nat} {h : List Change} {trace : List StepEvent} {lrn : Int}
    {p : Phase} (sound : PhaseSound final h trace lrn p) {job : Job} {st : UpdateStatus}
    (pending : p.pending = some (job, st)) :
    requestAt h job.modRev = some job.req ∧ Claims final trace lrn st job.modRev job.req := by
  cases p <;> simp only [Phase.pending, Option.some.injEq, Prod.mk.injEq, reduceCtorEq] at pending
  all_goals obtain ⟨rfl, rfl⟩ := pending
  case recordAbort => exact ⟨sound.1, by simp [sound.2], by simp [sound.2], by simp [sound.2]⟩
  case entering =>
    refine ⟨sound.1, fun _ => rfl, fun _ _ k low high => ?_, by simp⟩
    change k < 1 at high
    omega
  case advancing => exact ⟨sound.1.known, fun _ => rfl, fun _ _ => sound.2.1, by simp⟩
  case completing => exact ⟨sound.1.known, fun _ => rfl, by simp, fun _ => sound.2⟩
  case failing => exact ⟨sound, by simp, by simp, by simp⟩
  case aborting => exact ⟨sound, by simp, by simp, by simp⟩

/-- A report was made in time, for a request whose version it carries. -/
def Reported (final : Nat) (trace : List StepEvent) (h : List Change) (c : Change) : Prop :=
  ∀ lrn st o, c = .putStatus lrn st o → lastRequest h = some o ∧
    ∃ req, requestAt h o = some req ∧ Claims final trace lrn st o req

/-- `RunStep` of a request begins only when all its members are done with the steps below. -/
def BeganInStep (h : List Change) (trace : List StepEvent) (e : StepEvent) : Prop :=
  ∀ lrn m n, e = .began lrn m n →
    ∃ req, requestAt h m = some req ∧ ∀ j ∈ req.servers, Done trace j m n

theorem Claims.mono {final : Nat} {trace : List StepEvent} {lrn : Int} {st : UpdateStatus}
    {o : Nat} {req : UpdateRequest} (claims : Claims final trace lrn st o req)
    (events : List StepEvent) : Claims final (trace ++ events) lrn st o req where
  version := claims.version
  arrived := fun abort complete => (claims.arrived abort complete).mono events
  completed := fun complete => (claims.completed complete).mono events

/-- Completed statuses of members, for the version of the running request, are its own. -/
def StatusesSound (final : Nat) (h : List Change) (trace : List StepEvent) : Prop :=
  ∀ R m, (store h).current = some (R, m) → R.stop = false → ∀ j ∈ R.servers, ∀ st,
    (store h).statuses.lookup j = some st → st.cond = .complete → st.version = R.version →
    Done trace j m (final + 1)

structure Sound (final : Nat) (s : System) : Prop where
  orderly : Orderly s
  phases : ∀ lrn, PhaseSound final s.history s.trace lrn (s.workers lrn).phase
  reports : History.Each (Reported final s.trace) s.history
  starts : History.Each (BeganInStep s.history) s.trace
  statuses : StatusesSound final s.history s.trace
  empty : (store s.history).current = none → (store s.history).statuses = ∅

/-! ### Steps of a worker -/

/-- The watcher has looked at one more change, which is no put of a request. -/
theorem Reading.next {h : List Change} {job : Job} {hd : Handler} (reading : Reading h job hd)
    {c : Change} (here : h[hd.pos]? = some c) (no : c.request? = none) (barrier : Barrier) :
    Reading h job { hd with barrier := barrier, pos := hd.pos + 1 } where
  known := reading.known
  running := reading.running
  low := Nat.le_succ_of_le reading.low
  high := (List.getElem?_eq_some_iff.mp here).1
  quiet := by
    intro r above below
    by_cases last : r = hd.pos + 1
    · subst last
      simp only [requestAt, here, Option.bind_some, no]
    · exact reading.quiet r above (by simp only at below; omega)

/-- A status that the watcher accepts was reported for the request it handles. -/
theorem Reading.reported {final : Nat} {trace : List StepEvent} {h : List Change} {job : Job}
    {hd : Handler} (reading : Reading h job hd) (permitted : History.Each Permitted h)
    (reports : History.Each (Reported final trace) h) {j : Int} {st : UpdateStatus} {o : Nat}
    (here : h[hd.pos]? = some (.putStatus j st o)) (going : st.cond ≠ .abort)
    (unfinished : st.cond ≠ .complete) : Done trace j job.modRev st.step := by
  obtain ⟨last, req, _, claims⟩ := reports.at here j st o rfl
  have current := current_while permitted reading.known reading.running reading.low reading.quiet
  rw [lastRequest_of_current current reading.running] at last
  cases last
  exact claims.arrived going unfinished

theorem PhaseSound.watched {final : Nat} {h : List Change} {trace : List StepEvent} {lrn : Int}
    {job : Job} {hd : Handler} (sound : PhaseSound final h trace lrn (.watching job hd))
    (permitted : History.Each Permitted h) (reports : History.Each (Reported final trace) h)
    {c : Change} (here : h[hd.pos]? = some c) {p : Phase} (watched : Watched job hd c p) :
    PhaseSound final h trace lrn p ∧
      ∀ e ∈ beganEvents lrn p, BeganInStep h trace e := by
  obtain ⟨reading, done, arrived⟩ := sound
  cases watched with
  | stopped req put stopped => exact ⟨trivial, by simp [beganEvents]⟩
  | aborting msg reason => exact ⟨reading.known, by simp [beganEvents]⟩
  | ignored no outside =>
    exact ⟨⟨reading.next here no hd.barrier, done, arrived⟩, by simp [beganEvents]⟩
  | arrived j st o put member version going unfinished step remaining =>
    subst put
    have reported := reading.reported permitted reports here going unfinished
    refine ⟨⟨reading.next here rfl _, done, fun i inside gone => ?_⟩, by simp [beganEvents]⟩
    by_cases same : i = j
    · subst same
      exact step ▸ reported
    · exact arrived i inside fun still => gone (Finset.mem_erase.mpr ⟨same, still⟩)
  | run j st o put member version going unfinished step last =>
    subst put
    have reported := reading.reported permitted reports here going unfinished
    have all : ∀ i ∈ job.req.servers, Done trace i job.modRev hd.step := by
      intro i inside
      by_cases same : i = j
      · subst same
        exact step ▸ reported
      · refine arrived i inside fun still => ?_
        have : i ∈ Finset.erase hd.barrier j := Finset.mem_erase.mpr ⟨same, still⟩
        rw [last] at this
        simp at this
    refine ⟨⟨reading.next here rfl _, done, all⟩, ?_⟩
    intro e member i m n same
    rw [beganEvents, List.mem_singleton] at member
    rw [member] at same
    cases same
    exact ⟨job.req, reading.known, all⟩

theorem PhaseSound.afterPut {final : Nat} {h : List Change} {trace : List StepEvent} {lrn : Int}
    {p : Phase} (sound : PhaseSound final h trace lrn p) (result : PutResult) :
    PhaseSound final h trace lrn (p.afterPut result) := by
  cases p with
  | entering job =>
    cases result with
    | ok =>
      refine ⟨⟨sound.1, sound.2, Nat.le_refl _, (requestAt_le sound.1).2, ?_⟩, Done.one _ _ _, ?_⟩
      · intro r above below
        exact absurd above (Nat.not_lt.mpr below)
      · intro j member gone
        exact absurd ((mem_newBarrier _ _).mpr member) gone
    | failed applied msg => trivial
  | advancing job hd =>
    obtain ⟨reading, done, fresh⟩ := sound
    cases result with
    | ok =>
      refine ⟨reading, done, fun j member gone => ?_⟩
      rw [fresh, mem_newBarrier] at gone
      exact absurd member gone
    | failed applied msg => exact reading.known
  | completing job hd =>
    cases result with
    | ok => trivial
    | failed applied msg => exact sound.1.known
  | failing job hd msg => exact sound
  | recordAbort job st => cases result <;> trivial
  | aborting job hd msg => trivial
  | down => trivial
  | starting => trivial
  | waiting pos => trivial
  | examining job => trivial
  | watching job hd => trivial
  | running job hd => trivial
  | restarting job => trivial

/-- One action of a worker keeps its own phase sound, and starts `RunStep` in time. -/
theorem PhaseSound.move {final : Nat} {h : List Change} {trace : List StepEvent} {lrn : Int}
    {w w' : Worker} {a : WorkerAction} {cs : List Change} {events : List StepEvent}
    (sound : PhaseSound final h trace lrn w.phase) (permitted : History.Each Permitted h)
    (reports : History.Each (Reported final trace) h)
    (move : Move final h lrn w a w' cs events) :
    PhaseSound final (h ++ cs) (trace ++ events) lrn w'.phase ∧
      (events = [] ∨ ∃ e, events = [e] ∧ BeganInStep h trace e) := by
  cases move with
  | start old version => exact ⟨trivial, Or.inl rfl⟩
  | exit v p up => exact ⟨trivial, Or.inl rfl⟩
  | noRequest v absent => exact ⟨trivial, Or.inl rfl⟩
  | gotRequest v req m present =>
    exact ⟨requestAt_append (current_requestAt present) [], Or.inl rfl⟩
  | skipped v pos c here no => exact ⟨trivial, Or.inl rfl⟩
  | received v pos c req here put =>
    refine ⟨requestAt_append ?_ [], Or.inl rfl⟩
    simp only [requestAt, here, Option.bind_some, put]
  | examine v job =>
    refine ⟨PhaseSound.mono ?_ [] [], Or.inl rfl⟩
    generalize result : examineRequest lrn v job (store h).statuses = p
    have examined := examineRequest_examined lrn v job (store h).statuses
    rw [result] at examined
    cases examined with
    | skip => trivial
    | updateNeco => trivial
    | abort myst running member version aborted found => exact ⟨sound, rfl⟩
    | enter running member version going unfinished => exact ⟨sound, running⟩
  | put v p job st result pending applied =>
    exact ⟨(sound.afterPut result).mono _ [], Or.inl rfl⟩
  | lost v p job st msg pending => exact ⟨(sound.afterPut _).mono [] [], Or.inl rfl⟩
  | event v job hd c here =>
    -- only a handler whose barrier is empty now begins a step
    obtain ⟨next, began⟩ := sound.watched permitted reports here (watchChange_watched job hd c)
    refine ⟨next.mono [] _, ?_⟩
    generalize watchChange job hd c = p at began
    cases p with
    | running job hd => exact Or.inr ⟨_, rfl, began _ (List.mem_singleton.mpr rfl)⟩
    | _ => exact Or.inl rfl
  | watchError v job hd msg =>
    exact ⟨requestAt_append sound.1.known [], Or.inl rfl⟩
  | finished v job hd =>
    obtain ⟨reading, done, all⟩ := sound
    have more := done.succ
    refine ⟨?_, Or.inr ⟨_, rfl, by rintro _ _ _ ⟨⟩⟩⟩
    simp only [afterRunStep]
    split
    · -- another step follows
      refine ⟨?_, more, rfl⟩
      exact ⟨requestAt_append reading.known [], reading.running, reading.low, by
        simpa using reading.high, by simpa using reading.quiet⟩
    next last =>
      have final : hd.step = final := by simpa using last
      exact ⟨reading.mono [], final ▸ more⟩
  | failed v job hd msg => exact ⟨requestAt_append sound.1.known [], Or.inl rfl⟩

/-! ### Steps of the system -/

/-- Once a request was completed, completed statuses of its members are for its version. -/
theorem completed_version {final : Nat} {trace : List StepEvent} {h₀ : List Change}
    {R : UpdateRequest} {m : Nat} (running : R.stop = false)
    (completed : updateCompleted R.version R.servers (store h₀).statuses = true)
    (later : List Change) (reports : History.Each (Reported final trace) (h₀ ++ later))
    (present : (store (h₀ ++ later)).current = some (R, m)) (old : m ≤ h₀.length)
    {j : Int} (member : j ∈ R.servers) {st : UpdateStatus}
    (found : (store (h₀ ++ later)).statuses.lookup j = some st) (complete : st.cond = .complete) :
    st.version = R.version := by
  induction later using List.reverseRecOn generalizing st with
  | nil =>
    rw [List.append_nil] at found
    obtain ⟨st', found', version, _⟩ := (updateCompleted_iff _ _ _).mp completed j member
    rw [found] at found'
    cases found'
    exact version
  | append_singleton later c ih =>
    rw [← List.append_assoc] at reports present found
    rw [History.each_concat] at reports
    have before : (store (h₀ ++ later)).current = some (R, m) := by
      exact (current_old (h₀ ++ later) [c] R m present (by rw [List.length_append]; omega)).1
    obtain ⟨noRequest, noClear⟩ :=
      (current_old (h₀ ++ later) [c] R m present (by rw [List.length_append]; omega)).2 c (by simp)
    rw [store_concat] at found
    rcases lookup_statuses_apply found with ⟨o, rfl⟩ | older
    · -- a report is made for the last request, which is this one
      obtain ⟨last, req, put, claims⟩ := reports.2 j st o rfl
      rw [lastRequest_of_current before running] at last
      cases last
      rw [current_requestAt before] at put
      cases put
      exact claims.version (by simp [complete])
    · exact ih reports.1 before older complete

/-- Transactions other than reports keep the statuses sound. -/
theorem statusesSound_permitted {final : Nat} {h : List Change} {trace : List StepEvent}
    (sound : StatusesSound final h trace)
    (empty : (store h).current = none → (store h).statuses = ∅)
    (reports : History.Each (Reported final trace) h) {c : Change} (permitted : Permitted h c)
    (noReport : ∀ lrn st o, c ≠ .putStatus lrn st o) :
    StatusesSound final (h ++ [c]) trace ∧
      ((store (h ++ [c])).current = none → (store (h ++ [c])).statuses = ∅) := by
  cases permitted with
  | first req absent running =>
    -- without a request there are no statuses yet
    refine ⟨?_, by simp [Store.apply]⟩
    intro R m present _ j _ st found
    simp only [store_concat, Store.apply, empty absent] at found
    cases found
  | newVersion R req m present running running' servers version completed =>
    refine ⟨?_, by simp [Store.apply]⟩
    intro R' m' present' _ j member st found complete same
    simp only [store_concat, Store.apply, Option.some.injEq, Prod.mk.injEq] at present' found
    obtain ⟨rfl, rfl⟩ := present'
    -- the statuses that stay are those of the version before
    obtain ⟨h₀, later, rfl, then_, all⟩ := completed
    have old := (requestAt_le (current_requestAt then_)).2
    have := completed_version running all later reports present old (servers ▸ member) found complete
    exact absurd (same.symm.trans this) version
  | stop R m present running =>
    refine ⟨?_, by simp [Store.apply]⟩
    intro R' m' present' running'
    simp only [store_concat, Store.apply, Option.some.injEq, Prod.mk.injEq] at present'
    rw [← present'.1] at running'
    cases running'
  | reconfigure R req m present running running' version completed =>
    refine ⟨?_, by simp [Store.apply]⟩
    intro R' m' _ _ j _ st found
    simp only [store_concat, Store.apply] at found
    cases found
  | clear R m present stopped =>
    refine ⟨?_, by simp [Store.apply]⟩
    intro R' m' present'
    simp only [store_concat, Store.apply] at present'
    cases present'
  | plain c no noClear =>
    obtain ⟨current, statuses⟩ := store_concat_plain (h := h) no noClear noReport
    simp only [StatusesSound, current, statuses]
    exact ⟨sound, empty⟩

theorem Reported.mono {final : Nat} {trace : List StepEvent} (events : List StepEvent)
    (h : List Change) (c : Change) (reported : Reported final trace h c) :
    Reported final (trace ++ events) h c := by
  intro lrn st o put
  obtain ⟨last, req, known, claims⟩ := reported lrn st o put
  exact ⟨last, req, known, claims.mono events⟩

theorem BeganInStep.mono {h : List Change} (k : List Change) (trace : List StepEvent)
    (e : StepEvent) (began : BeganInStep h trace e) : BeganInStep (h ++ k) trace e := by
  intro lrn m n same
  obtain ⟨req, known, all⟩ := began lrn m n same
  exact ⟨req, requestAt_append known k, all⟩

/-- A transaction that is no report keeps the invariant. -/
theorem Sound.commit {final : Nat} {s t : System} (inv : Sound final s) (c : Change)
    (orderly : Orderly t) (workers : t.workers = s.workers) (trace : t.trace = s.trace)
    (history : t.history = s.history ++ [c]) (noReport : ∀ lrn st o, c ≠ .putStatus lrn st o) :
    Sound final t := by
  have permitted : Permitted s.history c := by
    have each := orderly.permitted
    rw [history, History.each_concat] at each
    exact each.2
  obtain ⟨statuses, empty⟩ :=
    statusesSound_permitted inv.statuses inv.empty inv.reports permitted noReport
  refine ⟨orderly, ?_, ?_, ?_, ?_, ?_⟩ <;> simp only [workers, trace, history]
  · intro lrn
    simpa using (inv.phases lrn).mono [c] []
  · exact (History.each_concat _ _ _).mpr
      ⟨inv.reports, fun lrn st o same => absurd same (noReport lrn st o)⟩
  · exact inv.starts.mono (BeganInStep.mono [c])
  · exact statuses
  · exact empty

theorem Sound.congr {final : Nat} {s t : System} (inv : Sound final s) (orderly : Orderly t)
    (workers : t.workers = s.workers) (trace : t.trace = s.trace)
    (history : t.history = s.history) : Sound final t := by
  refine ⟨orderly, ?_, ?_, ?_, ?_, ?_⟩ <;> simp only [workers, trace, history]
  exacts [inv.phases, inv.reports, inv.starts, inv.statuses, inv.empty]

omit [DecidableEq V] in
theorem sound_worker {cfg : Config V} {s : System} (inv : Sound cfg.final s) {lrn : Int}
    {a : WorkerAction} {w : Worker} {cs : List Change} {events : List StepEvent}
    (timely : TimelyPuts s (.worker lrn a))
    (move : Move cfg.final s.history lrn (s.workers lrn) a w cs events)
    (orderly : Orderly { s with
      workers := Function.update s.workers lrn w
      history := s.history ++ cs
      trace := s.trace ++ events }) :
    Sound cfg.final { s with
      workers := Function.update s.workers lrn w
      history := s.history ++ cs
      trace := s.trace ++ events } := by
  obtain ⟨phase, began⟩ :=
    (inv.phases lrn).move inv.orderly.permitted inv.reports move
  have phases : ∀ j, PhaseSound cfg.final (s.history ++ cs) (s.trace ++ events) j
      (Function.update s.workers lrn w j).phase := by
    intro j
    by_cases same : j = lrn
    · subst same
      rwa [Function.update_self]
    · rw [Function.update_of_ne same]
      exact (inv.phases j).mono cs events
  have reports := inv.reports.mono (Reported.mono events)
  have starts : History.Each (BeganInStep (s.history ++ cs)) (s.trace ++ events) := by
    have older := inv.starts.mono (BeganInStep.mono cs)
    rcases began with rfl | ⟨e, rfl, began⟩
    · rwa [List.append_nil]
    · exact (History.each_concat _ _ _).mpr ⟨older, BeganInStep.mono cs _ e began⟩
  have statuses : StatusesSound cfg.final s.history (s.trace ++ events) := by
    intro R m present running j member st found complete version
    exact (inv.statuses R m present running j member st found complete version).mono events
  rcases move.committed with rfl | ⟨job, st, pending, rfl⟩
  · rw [List.append_nil] at *
    exact ⟨orderly, phases, reports, starts, statuses, inv.empty⟩
  · -- a report: by the side condition it is made for the last request
    obtain ⟨result, rfl, applied, rfl⟩ := move.reported
    have last : lastRequest s.history = some job.modRev := by
      simp only [TimelyPuts, pending] at timely
      exact timely applied
    obtain ⟨known, claims⟩ := (inv.phases lrn).pending pending
    refine ⟨orderly, phases, ?_, starts, ?_, ?_⟩
    · refine (History.each_concat _ _ _).mpr ⟨reports, ?_⟩
      rintro _ _ _ ⟨⟩
      exact ⟨last, job.req, known, claims.mono []⟩
    · intro R m present running j member st' found complete version
      simp only [store_concat, current_apply, Change.request?, reduceCtorEq, if_false] at present
      by_cases same : j = lrn
      · -- its own status: the request it has carried out is the one the store has
        subst same
        simp only [store_concat, Store.apply, AList.lookup_insert, Option.some.injEq] at found
        subst found
        rw [lastRequest_of_current present running] at last
        cases last
        exact (claims.completed complete).mono []
      · simp only [store_concat, Store.apply, AList.lookup_insert_ne same] at found
        exact statuses R m present running j member st' found complete version
    · intro absent
      simp only [store_concat, current_apply, Change.request?, reduceCtorEq, if_false] at absent
      rw [lastRequest_of_none absent] at last
      cases last

theorem sound_step {cfg : Config V} {s s' : System} {a : SystemAction} (inv : Sound cfg.final s)
    (timely : TimelyPuts s a) (stepped : Stepped cfg s a s') : Sound cfg.final s' := by
  have orderly := orderly_step inv.orderly stepped
  cases stepped with
  | worker lrn a w cs events move => exact sound_worker inv timely move orderly
  | updater u a next cs move =>
    rcases move.committed with rfl | ⟨key, ss, c, putting, _, rfl, _⟩
    · exact inv.congr orderly rfl rfl (List.append_nil _)
    · refine inv.commit c orderly rfl rfl rfl ?_
      rintro lrn st o rfl
      cases inv.orderly.decided u key ss _ putting
  | recoverRead c req m present stopped => exact inv.congr orderly rfl rfl rfl
  | recoverClear c req m holds present => exact inv.commit _ orderly rfl rfl rfl (by simp)
  | recoverRetry c => exact inv.congr orderly rfl rfl rfl
  | campaign u idle => exact inv.congr orderly rfl rfl rfl
  | loseKey key => exact inv.congr orderly rfl rfl rfl
  | info a c info valid =>
    refine inv.commit c orderly rfl rfl rfl ?_
    rintro lrn st o rfl
    cases info
  | other a => exact inv.commit _ orderly rfl rfl rfl (by simp)
  | tick elapsed => exact inv.congr orderly rfl rfl rfl

omit [DecidableEq V] in
theorem sound_initial {newVersion : String → Option V} (final : Nat) {s : System}
    (initial : s.Initial newVersion) : Sound final s := by
  obtain ⟨info, plain, started⟩ := initial.setup
  obtain ⟨current, statuses⟩ := store_info info fun c member => (plain c member).1
  have noStatus : (store s.history).statuses = ∅ := by
    rcases started with same | ⟨req, _, same⟩
    · rw [same, statuses]
    · rw [same, store_concat]
      exact statuses
  have noReport : ∀ lrn st o, Change.putStatus lrn st o ∉ s.history := by
    intro lrn st o member
    have inside : Change.putStatus lrn st o ∈ info := by
      rcases started with same | ⟨req, _, same⟩ <;> simpa [same] using member
    exact (isStatus_false (plain _ inside).1).2.2 lrn st o rfl
  refine ⟨orderly_initial initial, ?_, ?_, ?_, ?_, fun _ => noStatus⟩
  · intro lrn
    rw [initial.workers lrn]
    trivial
  · rintro h₁ c h₂ split lrn st o rfl
    exact absurd (split ▸ by simp) (noReport lrn st o)
  · rw [initial.trace]
    exact History.each_nil _
  · intro R m _ _ j _ st found
    rw [noStatus] at found
    cases found

theorem sound_reached {cfg : Config V} {s : System} (reached : Reached cfg TimelyPuts s) :
    Sound cfg.final s := by
  obtain ⟨s₀, initial, run⟩ := reached
  exact run.invariant (Sound cfg.final) (sound_initial cfg.final initial)
    fun t a u inv timely stepped => sound_step inv timely (step_stepped cfg t u a stepped)

/-! ### Main theorem -/

/-- **Completion is sound per request.** In a run in which workers report only for the
last request: when the running request in `status/current` counts as completed, each of
its servers has run all steps for this very request, and nobody began a step before all
had finished the one below. -/
theorem completion_sound (cfg : Config V) (s : System) (reached : Reached cfg TimelyPuts s)
    (R : UpdateRequest) (m : Nat) (present : (store s.history).current = some (R, m))
    (running : R.stop = false)
    (completed : updateCompleted R.version R.servers (store s.history).statuses = true) :
    (∀ i ∈ R.servers, ∀ k, 1 ≤ k → k ≤ cfg.final → StepEvent.finished i m k ∈ s.trace) ∧
      ∀ t₁ t₂ i k, s.trace = t₁ ++ .began i m (k + 1) :: t₂ → 1 ≤ k →
        ∀ j ∈ R.servers, StepEvent.finished j m k ∈ t₁ := by
  have inv := sound_reached reached
  constructor
  · intro i member k low high
    obtain ⟨st, found, version, complete⟩ := (updateCompleted_iff _ _ _).mp completed i member
    exact inv.statuses R m present running i member st found complete version k low (by omega)
  · intro t₁ t₂ i k split low j member
    obtain ⟨req, known, all⟩ := inv.starts t₁ _ t₂ split i m (k + 1) rfl
    rw [current_requestAt present] at known
    cases known
    exact all j member k low (Nat.lt_succ_self k)

/-- One server runs all of the operator's steps and reports completion. -/
def completedAlone : List SystemAction :=
  joinUpdate "2020.01.01-1" 0 ++
    (List.replicate operatorFinalStep (runTogether [0])).flatten

theorem completion_sound_alone :
    (∀ i ∈ [(0 : Int)], ∀ k, 1 ≤ k → k ≤ operatorConfig.final → StepEvent.finished i 3 k ∈
        (System.play operatorConfig TimelyPuts [0] "2020.01.01-1" completedAlone).trace) ∧
      ∀ t₁ t₂ i k,
        (System.play operatorConfig TimelyPuts [0] "2020.01.01-1" completedAlone).trace =
          t₁ ++ .began i 3 (k + 1) :: t₂ → 1 ≤ k →
        ∀ j ∈ [(0 : Int)], StepEvent.finished j 3 k ∈ t₁ :=
  completion_sound operatorConfig
    (.play operatorConfig TimelyPuts [0] "2020.01.01-1" completedAlone)
    (reached_play _ _ _ _ _ (by decide +kernel)) (firstRequest [0] "2020.01.01-1") 3
    (by decide +kernel) rfl (by decide +kernel)

/-- The update is stopped and cleared while the only server is in its last step; the
late report of completion then completes the retry. -/
def completedLate : List SystemAction :=
  beginLastStep "2020.01.01-1" [0] ++
    [.tick 3600000000001, .campaign 0, .updater 0 .elected] ++
    decideAndPut 0 ++ [.recover 0 .read, .recover 0 .clear] ++ decideAndPut 0 ++
    [.worker 0 (.runStepDone (.ok ())), .worker 0 (.putStatus .ok)]

theorem completed_without_steps :
    ∃ s : System, Reached operatorConfig Transition.always s ∧ ∃ R m,
      (store s.history).current = some (R, m) ∧ R.stop = false ∧
      updateCompleted R.version R.servers (store s.history).statuses = true ∧
      ∃ i ∈ R.servers, ∀ k ≤ operatorConfig.final, StepEvent.finished i m k ∉ s.trace :=
  ⟨.play operatorConfig Transition.always [0] "2020.01.01-1" completedLate,
    reached_play _ _ _ _ _ (by decide +kernel), ⟨"2020.01.01-1", [0], false, 3600000000001⟩, 24,
    by decide +kernel, rfl, by decide +kernel, 0, by decide, by decide +kernel⟩

end Neco
