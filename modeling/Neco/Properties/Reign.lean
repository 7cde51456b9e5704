import Neco.Lib.Lockstep
import Neco.Steps

/-!
# The reign of one request

From the put of a request `R` at revision `m` on, as long as nothing fails, the reports
of its members form a lockstep log: a worker that has reported step `k` has arrived at
level `k`, and one that has reported completion at the level after the final step.
`Reign` ties every member's phase to its view of this log, and `reign_step` shows that
all undisturbed steps keep it.
-/

namespace Neco

open Lockstep

variable {V : Type} [DecidableEq V]

/-! ### Reports as arrivals -/

/-- The level a status stands for. -/
def UpdateStatus.level (st : UpdateStatus) : Nat :=
  if st.cond = .complete then st.step + 1 else st.step

def arrival : Change → Option (Int × Nat)
  | .putStatus lrn st _ => some (lrn, st.level)
  | _ => none

theorem arrival_eq_none {c : Change} (noReport : ∀ lrn st o, c ≠ .putStatus lrn st o) :
    arrival c = none := by
  cases c with
  | putStatus lrn st o => exact absurd rfl (noReport lrn st o)
  | _ => rfl

/-- The reports after revision `m`. -/
def arrivals (m : Nat) (h : List Change) : List (Int × Nat) := (h.drop m).filterMap arrival

theorem arrivals_split {m pos : Nat} (low : m ≤ pos) (h : List Change) :
    arrivals m h = arrivals m (h.take pos) ++ arrivals pos h := by
  have rest : h.drop pos = (h.drop m).drop (pos - m) := by
    rw [List.drop_drop]
    congr 1
    omega
  rw [arrivals, arrivals, arrivals, List.drop_take, rest, ← List.filterMap_append,
    List.take_append_drop]

theorem arrivals_concat {m : Nat} {h : List Change} (low : m ≤ h.length) (c : Change) :
    arrivals m (h ++ [c]) = arrivals m h ++ (arrival c).toList := by
  rw [arrivals, arrivals, List.drop_append_of_le_length low, List.filterMap_append]
  cases c <;> rfl

theorem arrivals_next {pos : Nat} {h : List Change} {c : Change} (here : h[pos]? = some c) :
    arrivals pos h = (arrival c).toList ++ arrivals (pos + 1) h := by
  obtain ⟨inside, rfl⟩ := List.getElem?_eq_some_iff.mp here
  rw [arrivals, arrivals, ← List.getElem_cons_drop inside]
  cases h[pos] <;> rfl

theorem arrivals_take_next {m pos : Nat} {h : List Change} {c : Change} (low : m ≤ pos)
    (here : h[pos]? = some c) :
    arrivals m (h.take (pos + 1)) = arrivals m (h.take pos) ++ (arrival c).toList := by
  have inside := (List.getElem?_eq_some_iff.mp here).1
  rw [List.take_add_one, here, Option.toList_some, arrivals_concat]
  rw [List.length_take]
  omega

/-- A status is the last report of its server, or older than the reports. -/
theorem status_or_old (h₀ later : List Change) {j : Int} {st : UpdateStatus}
    (found : (store (h₀ ++ later)).statuses.lookup j = some st) :
    (∃ o, Change.putStatus j st o ∈ later) ∨ (store h₀).statuses.lookup j = some st := by
  induction later using List.reverseRecOn with
  | nil => exact Or.inr (by simpa using found)
  | append_singleton later c ih =>
    rw [← List.append_assoc, store_concat] at found
    rcases lookup_statuses_apply found with ⟨o, rfl⟩ | older
    · exact Or.inl ⟨o, by simp⟩
    · rcases ih older with ⟨o, put⟩ | old
      · exact Or.inl ⟨o, List.mem_append_left _ put⟩
      · exact Or.inr old

/-- Who has arrived at a level shows it, or a later one, in its status. -/
theorem status_of_arrival (h₀ later : List Change) {members : List Int}
    (plain : ∀ c ∈ later, c.request? = none ∧ c ≠ .clearStatusAndContents)
    (log : Log members (later.filterMap arrival)) {j : Int} {k : Nat}
    (arrived : (j, k) ∈ later.filterMap arrival) :
    ∃ st o, (store (h₀ ++ later)).statuses.lookup j = some st ∧
      Change.putStatus j st o ∈ later ∧ k ≤ st.level := by
  induction later using List.reverseRecOn with
  | nil => simp at arrived
  | append_singleton later c ih =>
    rw [List.filterMap_append] at log arrived
    have before (older : (j, k) ∈ later.filterMap arrival)
        (same : (store (h₀ ++ (later ++ [c]))).statuses.lookup j =
          (store (h₀ ++ later)).statuses.lookup j) :
        ∃ st o, (store (h₀ ++ (later ++ [c]))).statuses.lookup j = some st ∧
          Change.putStatus j st o ∈ later ++ [c] ∧ k ≤ st.level := by
      obtain ⟨st, o, found, put, level⟩ :=
        ih (fun d member => plain d (List.mem_append_left _ member)) log.of_append older
      exact ⟨st, o, same ▸ found, List.mem_append_left _ put, level⟩
    rw [← List.append_assoc] at before ⊢
    obtain ⟨noRequest, noClear⟩ := plain c (by simp)
    by_cases report : ∃ i st o, c = .putStatus i st o
    · obtain ⟨i, st, o, rfl⟩ := report
      rw [store_concat, statuses_apply] at before ⊢
      by_cases same : j = i
      · subst same
        refine ⟨st, o, AList.lookup_insert _, by simp, ?_⟩
        rcases List.mem_append.mp arrived with old | new
        · exact Nat.le_of_lt (log.arrival_gt old)
        · simp only [List.filterMap_cons, arrival, List.filterMap_nil, List.mem_singleton,
            Prod.mk.injEq, true_and] at new
          exact Nat.le_of_eq new
      · refine before ?_ (AList.lookup_insert_ne same)
        rcases List.mem_append.mp arrived with old | new
        · exact old
        · simp [arrival, same] at new
    · have noReport : ∀ i st o, c ≠ .putStatus i st o := fun i st o same => report ⟨i, st, o, same⟩
      refine before ?_ (by rw [(store_concat_plain noRequest noClear noReport).2])
      simpa [arrival_eq_none noReport] using arrived

/-! ### Members and their view of the reports -/

/-- Whether `Run` would join the update of `req`. -/
def handles (lrn : Int) (version : String) (req : UpdateRequest) : Bool :=
  !req.stop && req.isMember lrn && version == req.version

theorem handles_iff (lrn : Int) (version : String) (req : UpdateRequest) :
    handles lrn version req = true ↔
      req.stop = false ∧ lrn ∈ req.servers ∧ version = req.version := by
  simp [handles, and_assoc]

/-- After `pos` there is no put to be handled by `lrn`, the one at `m` apart. -/
def Behind (h : List Change) (m : Nat) (lrn : Int) (version : String) (pos : Nat) : Prop :=
  ∀ r req, pos < r → r ≠ m → requestAt h r = some req → handles lrn version req = false

/-- A process that is in no update: it may only come upon the request of revision `m`. -/
def Idle (h : List Change) (R : UpdateRequest) (m : Nat) (lrn : Int) (w : Worker) : Prop :=
  match w.phase with
  | .down => True
  | .starting => True
  | .waiting pos => Behind h m lrn w.version pos
  | .examining job => Behind h m lrn w.version job.rev ∧
      (job.req = R ∧ job.modRev = m ∨ handles lrn w.version job.req = false)
  | .restarting _ => True
  | _ => False

/-- A handler of the request of revision `m` that has read up to `pos`. -/
structure Following (h : List Change) (R : UpdateRequest) (m : Nat) (job : Job) (pos : Nat) :
    Prop where
  req : job.req = R
  modRev : job.modRev = m
  low : m ≤ pos
  high : pos ≤ h.length

/-- Where a process stands in the update of the request of revision `m`. -/
def Taking (final : Nat) (h : List Change) (R : UpdateRequest) (m : Nat) (lrn : Int) :
    Phase → Prop
  | .entering job => job.req = R ∧ job.modRev = m ∧ ∀ k, (lrn, k) ∉ arrivals m h
  | .watching job hd => Following h R m job hd.pos ∧ 1 ≤ hd.step ∧ hd.step ≤ final ∧
      hd.barrier ≠ ∅ ∧
      Reader R.servers lrn (arrivals m (h.take hd.pos)) (arrivals hd.pos h) hd.step hd.barrier
  | .running job hd => Following h R m job hd.pos ∧ 1 ≤ hd.step ∧ hd.step ≤ final ∧
      Passed R.servers lrn (arrivals m (h.take hd.pos)) (arrivals hd.pos h) hd.step
  | .advancing job hd => Following h R m job hd.pos ∧ hd.barrier = newBarrier R.servers ∧
      ∃ k, hd.step = k + 1 ∧ k + 1 ≤ final ∧
        Passed R.servers lrn (arrivals m (h.take hd.pos)) (arrivals hd.pos h) k
  | .completing job hd => Following h R m job hd.pos ∧ hd.step = final ∧
      Passed R.servers lrn (arrivals m (h.take hd.pos)) (arrivals hd.pos h) final
  | .restarting _ => (lrn, final + 1) ∈ arrivals m h
  | _ => False

/-- A server takes part in the update, or has not begun it, or has finished it. -/
def Part (final : Nat) (h : List Change) (R : UpdateRequest) (m : Nat) (lrn : Int) (w : Worker) :
    Prop :=
  (Idle h R m lrn w ∧ ((∀ k, (lrn, k) ∉ arrivals m h) ∨ (lrn, final + 1) ∈ arrivals m h)) ∨
    Taking final h R m lrn w.phase

/-- A report of an update in which nothing fails. -/
def Proper (final : Nat) (R : UpdateRequest) (m : Nat) (st : UpdateStatus) (o : Nat) : Prop :=
  o = m ∧ st.version = R.version ∧
    (st.cond = .running ∧ st.step ≤ final ∨ st.cond = .complete ∧ st.step = final)

structure Reign (final : Nat) (R : UpdateRequest) (m : Nat) (s : System) : Prop where
  positive : 1 ≤ final
  current : (store s.history).current = some (R, m)
  running : R.stop = false
  log : Log R.servers (arrivals m s.history)
  reports : ∀ j st o, Change.putStatus j st o ∈ s.history.drop m → Proper final R m st o
  members : ∀ i ∈ R.servers, Part final s.history R m i (s.workers i)

/-- When the request was put, no status carried its version. -/
def Fresh (R : UpdateRequest) (m : Nat) (h : List Change) : Prop :=
  ∀ j st, (store (h.take m)).statuses.lookup j = some st → st.version ≠ R.version

namespace Reign

variable {final : Nat} {R : UpdateRequest} {m : Nat} {s : System}

theorem low (reign : Reign final R m s) : m ≤ s.history.length :=
  (requestAt_le (current_requestAt reign.current)).2

/-- After its put, no other request is put and nothing is cleared. -/
theorem plain (reign : Reign final R m s) :
    ∀ c ∈ s.history.drop m, c.request? = none ∧ c ≠ .clearStatusAndContents := by
  have current := reign.current
  rw [← List.take_append_drop m s.history] at current
  exact (current_old _ _ R m current (by rw [List.length_take, Nat.min_eq_left reign.low])).2

/-- A status for the version of the request is a report of this update. -/
theorem status (reign : Reign final R m s) (fresh : Fresh R m s.history) {j : Int}
    {st : UpdateStatus} (found : (store s.history).statuses.lookup j = some st)
    (version : st.version = R.version) :
    (j, st.level) ∈ arrivals m s.history ∧
      (st.cond = .running ∧ st.step ≤ final ∨ st.cond = .complete ∧ st.step = final) := by
  rw [← List.take_append_drop m s.history] at found
  rcases status_or_old _ _ found with ⟨o, put⟩ | old
  · exact ⟨List.mem_filterMap.mpr ⟨_, put, rfl⟩, (reign.reports j st o put).2.2⟩
  · exact absurd version (fresh j st old)

/-- No step has failed and no update was aborted: the reports run or are complete. -/
theorem report_ne_abort (reign : Reign final R m s) {j : Int} {st : UpdateStatus} {o : Nat}
    (put : Change.putStatus j st o ∈ s.history.drop m) : st.cond ≠ .abort := by
  rcases (reign.reports j st o put).2.2 with ⟨cond, _⟩ | ⟨cond, _⟩ <;> simp [cond]

theorem status_ne_abort (reign : Reign final R m s) (fresh : Fresh R m s.history) {j : Int}
    {st : UpdateStatus} (found : (store s.history).statuses.lookup j = some st)
    (version : st.version = R.version) : st.cond ≠ .abort := by
  rcases (reign.status fresh found version).2 with ⟨cond, _⟩ | ⟨cond, _⟩ <;> simp [cond]

/-- Whoever has reported has a status for the version of the request. -/
theorem arrived_status (reign : Reign final R m s) {j : Int} {k : Nat}
    (arrived : (j, k) ∈ arrivals m s.history) :
    ∃ st, (store s.history).statuses.lookup j = some st ∧ st.version = R.version ∧
      k ≤ st.level ∧ (j, st.level) ∈ arrivals m s.history ∧
      (st.cond = .running ∧ st.step ≤ final ∨ st.cond = .complete ∧ st.step = final) := by
  obtain ⟨st, o, found, put, level⟩ :=
    status_of_arrival (s.history.take m) _ reign.plain reign.log arrived
  rw [List.take_append_drop] at found
  obtain ⟨_, version, proper⟩ := reign.reports j st o put
  exact ⟨st, found, version, level, List.mem_filterMap.mpr ⟨_, put, rfl⟩, proper⟩

/-- Whoever has arrived above the final step has completed. -/
theorem finished_status (reign : Reign final R m s) {j : Int}
    (arrived : (j, final + 1) ∈ arrivals m s.history) :
    ∃ st, (store s.history).statuses.lookup j = some st ∧ st.version = R.version ∧
      st.cond = .complete := by
  obtain ⟨st, found, version, level, _, proper⟩ := reign.arrived_status arrived
  refine ⟨st, found, version, ?_⟩
  rcases proper with ⟨running, low⟩ | ⟨complete, _⟩
  · simp [UpdateStatus.level, running] at level
    omega
  · exact complete

end Reign

/-! ### Other parties' transactions -/

theorem arrivals_view_concat {m pos : Nat} {h : List Change} (high : pos ≤ h.length) (c : Change) :
    arrivals m ((h ++ [c]).take pos) = arrivals m (h.take pos) ∧
      arrivals pos (h ++ [c]) = arrivals pos h ++ (arrival c).toList :=
  ⟨by rw [List.take_append_of_le_length high], arrivals_concat high c⟩

theorem Following.concat {h : List Change} {R : UpdateRequest} {m : Nat} {job : Job} {pos : Nat}
    (following : Following h R m job pos) (c : Change) : Following (h ++ [c]) R m job pos where
  req := following.req
  modRev := following.modRev
  low := following.low
  high := by
    rw [List.length_append]
    exact Nat.le_add_right_of_le following.high

theorem Behind.concat {h : List Change} {m : Nat} {lrn : Int} {version : String} {pos : Nat}
    (behind : Behind h m lrn version pos) {c : Change}
    (stops : ∀ req, c.request? = some req → req.stop = true) :
    Behind (h ++ [c]) m lrn version pos := by
  intro r req above differs put
  have bound := (requestAt_le put).2
  rw [List.length_append, List.length_singleton] at bound
  by_cases last : r = h.length + 1
  · subst last
    rw [requestAt_last] at put
    simp [handles, stops req put]
  · rw [requestAt_concat_of_le (by omega)] at put
    exact behind r req above differs put

theorem Idle.concat {h : List Change} {R : UpdateRequest} {m : Nat} {lrn : Int} {w : Worker}
    (idle : Idle h R m lrn w) {c : Change}
    (stops : ∀ req, c.request? = some req → req.stop = true) : Idle (h ++ [c]) R m lrn w := by
  obtain ⟨version, phase⟩ := w
  cases phase with
  | waiting pos => exact Behind.concat idle stops
  | examining job => exact ⟨Behind.concat idle.1 stops, idle.2⟩
  | _ => exact idle

theorem Idle.pending {h : List Change} {R : UpdateRequest} {m : Nat} {lrn : Int} {w : Worker}
    (idle : Idle h R m lrn w) : w.phase.pending = none := by
  obtain ⟨version, phase⟩ := w
  cases phase with
  | down => rfl
  | starting => rfl
  | waiting pos => rfl
  | examining job => rfl
  | restarting job => rfl
  | _ => exact idle.elim

section Concat

variable {final : Nat} {h : List Change} {R : UpdateRequest} {m : Nat} {lrn : Int} {c : Change}

theorem Taking.concat {phase : Phase} (taking : Taking final h R m lrn phase) (low : m ≤ h.length)
    (log : Log R.servers (arrivals m (h ++ [c])))
    (other : ∀ a l, arrival c = some (a, l) → a ≠ lrn) :
    Taking final (h ++ [c]) R m lrn phase := by
  -- what a handler reads grows by the report of somebody else, or not at all
  have reader {pos k : Nat} {missing : Barrier} (above : m ≤ pos) (high : pos ≤ h.length)
      (reads : Reader R.servers lrn (arrivals m (h.take pos)) (arrivals pos h) k missing) :
      Reader R.servers lrn (arrivals m ((h ++ [c]).take pos)) (arrivals pos (h ++ [c])) k missing := by
    rw [arrivals_split above] at log
    obtain ⟨seen, ahead⟩ := arrivals_view_concat (m := m) high c
    rw [seen, ahead] at log ⊢
    cases new : arrival c with
    | none => simpa using reads
    | some report =>
      rw [new] at log
      exact reads.append log (other _ _ new)
  have passed {pos k : Nat} (above : m ≤ pos) (high : pos ≤ h.length)
      (passes : Passed R.servers lrn (arrivals m (h.take pos)) (arrivals pos h) k) :
      Passed R.servers lrn (arrivals m ((h ++ [c]).take pos)) (arrivals pos (h ++ [c])) k := by
    rw [arrivals_split above] at log
    obtain ⟨seen, ahead⟩ := arrivals_view_concat (m := m) high c
    rw [seen, ahead] at log ⊢
    cases new : arrival c with
    | none => simpa using passes
    | some report =>
      rw [new] at log
      exact passes.append log (other _ _ new)
  cases phase with
  | entering job =>
    refine ⟨taking.1, taking.2.1, fun k arrived => ?_⟩
    rw [arrivals_concat low, List.mem_append, Option.mem_toList] at arrived
    rcases arrived with old | new
    · exact taking.2.2 k old
    · exact other lrn k new rfl
  | watching job hd =>
    obtain ⟨following, one, bound, waits, reads⟩ := taking
    exact ⟨following.concat c, one, bound, waits, reader following.low following.high reads⟩
  | running job hd =>
    obtain ⟨following, one, bound, passes⟩ := taking
    exact ⟨following.concat c, one, bound, passed following.low following.high passes⟩
  | advancing job hd =>
    obtain ⟨following, fresh, k, same, bound, passes⟩ := taking
    exact ⟨following.concat c, fresh, k, same, bound, passed following.low following.high passes⟩
  | completing job hd =>
    obtain ⟨following, last, passes⟩ := taking
    exact ⟨following.concat c, last, passed following.low following.high passes⟩
  | restarting job =>
    show _ ∈ arrivals m (h ++ [c])
    rw [arrivals_concat low]
    exact List.mem_append_left _ taking
  | _ => exact taking

theorem Part.concat {w : Worker} (part : Part final h R m lrn w) (low : m ≤ h.length)
    (no : c.request? = none) (log : Log R.servers (arrivals m (h ++ [c])))
    (other : ∀ a l, arrival c = some (a, l) → a ≠ lrn) : Part final (h ++ [c]) R m lrn w := by
  rcases part with ⟨idle, outside⟩ | taking
  · refine Or.inl ⟨idle.concat (by simp [no]), ?_⟩
    rw [arrivals_concat low]
    rcases outside with absent | finished
    · refine Or.inl fun k arrived => ?_
      rw [List.mem_append, Option.mem_toList] at arrived
      rcases arrived with old | new
      · exact absent k old
      · exact other lrn k new rfl
    · exact Or.inr (List.mem_append_left _ finished)
  · exact Or.inr (taking.concat low log other)

end Concat

/-- A process that is in no update stays so, unless it looks at the request. -/
theorem Idle.move {final : Nat} {h : List Change} {R : UpdateRequest} {m : Nat} {i : Int}
    {w w' : Worker} {a : WorkerAction} {cs : List Change} {events : List StepEvent}
    (idle : Idle h R m i w)
    (now : ∀ req rev, (store h).current = some (req, rev) → req = R ∧ rev = m ∨ req.stop = true)
    (known : ∀ req, requestAt h m = some req → req = R)
    (move : Move final h i w a w' cs events) :
    cs = [] ∧ (Idle h R m i w' ∨ ∃ job, a = .examine ∧ w.phase = .examining job ∧
      job.req = R ∧ job.modRev = m ∧ handles i w.version R = true ∧
      w' = ⟨w.version, examineRequest i w.version job (store h).statuses⟩) := by
  have nothingLeft (v : String) : Behind h m i v h.length := by
    intro r req above _ put
    have := (requestAt_le put).2
    omega
  cases move with
  | start old version => exact ⟨rfl, Or.inl trivial⟩
  | exit v p up => exact ⟨rfl, Or.inl trivial⟩
  | noRequest v absent => exact ⟨rfl, Or.inl (nothingLeft v)⟩
  | gotRequest v req rev present =>
    refine ⟨rfl, Or.inl ⟨nothingLeft v, ?_⟩⟩
    rcases now req rev present with own | stopped
    · exact Or.inl own
    · exact Or.inr (by simp [handles, stopped])
  | skipped v pos c here no =>
    exact ⟨rfl, Or.inl fun r req above => idle r req (Nat.lt_of_succ_lt above)⟩
  | received v pos c req here put =>
    have here' : requestAt h (pos + 1) = some req := by
      simp only [requestAt, here, Option.bind_some, put]
    refine ⟨rfl, Or.inl ⟨fun r req above => idle r req (Nat.lt_of_succ_lt above), ?_⟩⟩
    by_cases this : pos + 1 = m
    · exact Or.inl ⟨known req (this ▸ here'), this⟩
    · exact Or.inr (idle (pos + 1) req (Nat.lt_succ_self pos) this here')
  | examine v job =>
    refine ⟨rfl, ?_⟩
    cases handled : handles i v job.req with
    | true =>
      rcases idle.2 with ⟨same, rev⟩ | ignored
      · exact Or.inr ⟨job, rfl, rfl, same, rev, same ▸ handled, rfl⟩
      · simp only [handled] at ignored
        cases ignored
    | false =>
      -- a request that is not for this process is passed over
      refine Or.inl ?_
      have not_ : ¬ handles i v job.req = true := by simp [handled]
      rw [handles_iff] at not_
      generalize result : examineRequest i v job (store h).statuses = p
      have examined := examineRequest_examined i v job (store h).statuses
      rw [result] at examined
      cases examined with
      | skip => exact idle.1
      | updateNeco running inside version => trivial
      | abort myst running inside version aborted found =>
        exact absurd ⟨running, inside, version⟩ not_
      | enter running inside version going unfinished =>
        exact absurd ⟨running, inside, version⟩ not_
  | put v p job st result pending applied =>
    rw [idle.pending] at pending
    cases pending
  | lost v p job st msg pending =>
    rw [idle.pending] at pending
    cases pending
  | event v job hd c here => exact idle.elim
  | watchError v job hd msg => exact idle.elim
  | finished v job hd => exact idle.elim
  | failed v job hd msg => exact idle.elim

/-! ### Undisturbed steps -/

/-- The worker on `lrn` shows that it has completed `R`. -/
def ShowsCompletion (R : UpdateRequest) (s : System) (lrn : Int) : Prop :=
  ∃ st, (store s.history).statuses.lookup lrn = some st ∧ st.version = R.version ∧
    st.cond = .complete

/-- The worker on `lrn` shows that it is in the midst of `R`. -/
def ShowsProgress (R : UpdateRequest) (s : System) (lrn : Int) : Prop :=
  ∃ st, (store s.history).statuses.lookup lrn = some st ∧ st.version = R.version ∧
    st.cond ≠ .complete

instance (R : UpdateRequest) (s : System) (lrn : Int) : Decidable (ShowsCompletion R s lrn) :=
  decidable_of_iff (((store s.history).statuses.lookup lrn).any
    fun st => st.version == R.version && st.cond == .complete)
    (by simp [ShowsCompletion, Option.any_eq_true])

instance (R : UpdateRequest) (s : System) (lrn : Int) : Decidable (ShowsProgress R s lrn) :=
  decidable_of_iff (((store s.history).statuses.lookup lrn).any
    fun st => st.version == R.version && st.cond != .complete)
    (by simp [ShowsProgress, Option.any_eq_true])

/-- Only members write under `status/`, nothing they do fails, they do not end in the midst
of the update, and one that has completed it looks at the statuses again only when all have. -/
def Calm (R : UpdateRequest) (s : System) : SystemAction → Prop
  | .worker lrn .exit => lrn ∈ R.servers → ¬ ShowsProgress R s lrn
  | .worker lrn .examine => lrn ∈ R.servers → ShowsCompletion R s lrn →
      updateCompleted R.version R.servers (store s.history).statuses = true
  | .worker lrn (.putStatus result) => result = .ok ∧ lrn ∈ R.servers
  | .worker lrn (.watchError _) => lrn ∉ R.servers
  | .worker lrn (.runStepDone (.error _)) => lrn ∉ R.servers
  | .updater _ (.put _) => False
  | .recover _ .clear => False
  | _ => True

namespace Reign

variable {final : Nat} {R : UpdateRequest} {m : Nat} {s : System}

/-- `UpdateAborted` is false for a server that has not begun, and for one that has
completed the update together with all others. -/
theorem not_aborted (reign : Reign final R m s) (fresh : Fresh R m s.history) {i : Int}
    (member : i ∈ R.servers)
    (outside : (∀ k, (i, k) ∉ arrivals m s.history) ∨ (i, final + 1) ∈ arrivals m s.history)
    (together : ShowsCompletion R s i →
      updateCompleted R.version R.servers (store s.history).statuses = true) :
    updateAborted R.version i (store s.history).statuses = false := by
  rw [updateAborted_eq_false_iff]
  intro j st found
  by_cases version : st.version = R.version
  · obtain ⟨arrived, proper⟩ := reign.status fresh found version
    rcases proper with ⟨cond, _⟩ | ⟨cond, _⟩
    · have level : st.level = st.step := by simp [UpdateStatus.level, cond]
      rw [level] at arrived
      obtain ⟨inside, positive⟩ := reign.log.mem_members arrived
      rcases outside with absent | finished
      · -- nobody can be beyond the first step without this server
        have first : st.step = 1 := by
          by_contra beyond
          exact absent 1 (reign.log.mem_below arrived member 1 (by omega) (by omega))
        have differs : j ≠ i := by
          rintro rfl
          exact absent _ arrived
        simp [statusAborts, version, cond, first, differs]
      · have all := (updateCompleted_iff _ _ _).mp (together (reign.finished_status finished)) j inside
        obtain ⟨st', found', _, complete⟩ := all
        rw [found] at found'
        cases found'
        rw [cond] at complete
        cases complete
    · simp [statusAborts, version, cond]
  · have differs : (st.version != R.version) = true := by simpa using version
    simp [statusAborts, differs]

/-- A process that may end is outside the update. -/
theorem outside_of_no_progress (reign : Reign final R m s) {i : Int}
    (calm : ¬ ShowsProgress R s i) :
    (∀ k, (i, k) ∉ arrivals m s.history) ∨ (i, final + 1) ∈ arrivals m s.history := by
  by_cases arrived : ∃ k, (i, k) ∈ arrivals m s.history
  · obtain ⟨k, arrived⟩ := arrived
    obtain ⟨st, found, version, _, last, proper⟩ := reign.arrived_status arrived
    by_cases complete : st.cond = .complete
    · rcases proper with ⟨running, _⟩ | ⟨_, step⟩
      · rw [running] at complete
        cases complete
      · rw [UpdateStatus.level, if_pos complete, step] at last
        exact Or.inr last
    · exact absurd ⟨st, found, version, complete⟩ calm
  · exact Or.inl fun k here => arrived ⟨k, here⟩

/-- The next report a waiting member reads is that of a missing member at its own step. -/
theorem next_report (reign : Reign final R m s) {i : Int} {job : Job} {hd : Handler}
    (taking : Taking final s.history R m i (.watching job hd)) {j : Int} {st : UpdateStatus}
    {o : Nat} (here : s.history[hd.pos]? = some (.putStatus j st o)) :
    j ∈ R.servers ∧ st.version = R.version ∧ st.cond = .running ∧ st.step = hd.step := by
  obtain ⟨following, one, bound, waits, reads⟩ := taking
  have log := reign.log
  rw [arrivals_split following.low, arrivals_next here] at log
  rw [arrivals_next here] at reads
  obtain ⟨level, missed⟩ := reads.next log one waits
  have member : Change.putStatus j st o ∈ s.history.drop m := by
    obtain ⟨inside, same⟩ := List.getElem?_eq_some_iff.mp here
    have := following.low
    exact List.mem_drop_iff_getElem.mpr ⟨hd.pos - m, by omega, by rw [← same]; congr 1; omega⟩
  obtain ⟨_, version, proper⟩ := reign.reports j st o member
  refine ⟨reads.missing_members j missed, version, ?_⟩
  rcases proper with ⟨cond, _⟩ | ⟨cond, last⟩
  · simp only [UpdateStatus.level, cond, reduceCtorEq, if_false] at level
    exact ⟨cond, level⟩
  · simp only [UpdateStatus.level, cond, if_true] at level
    omega

theorem idle_move (reign : Reign final R m s) {i : Int} {w w' : Worker} {a : WorkerAction}
    {cs : List Change} {events : List StepEvent} (idle : Idle s.history R m i w)
    (move : Move final s.history i w a w' cs events) :
    cs = [] ∧ (Idle s.history R m i w' ∨ ∃ job, a = .examine ∧ w.phase = .examining job ∧
      job.req = R ∧ job.modRev = m ∧ handles i w.version R = true ∧
      w' = ⟨w.version, examineRequest i w.version job (store s.history).statuses⟩) := by
  refine idle.move ?_ ?_ move
  · intro req rev present
    rw [reign.current] at present
    cases present
    exact Or.inl ⟨rfl, rfl⟩
  · intro req put
    rw [current_requestAt reign.current] at put
    cases put
    rfl

/-- Looking at the request takes a member that is outside the update into it at most. -/
theorem examine (reign : Reign final R m s) (fresh : Fresh R m s.history) {i : Int}
    (member : i ∈ R.servers) {v : String} {job : Job}
    (idle : Idle s.history R m i ⟨v, .examining job⟩) (own : job.req = R) (rev : job.modRev = m)
    (outside : (∀ k, (i, k) ∉ arrivals m s.history) ∨ (i, final + 1) ∈ arrivals m s.history)
    (together : ShowsCompletion R s i →
      updateCompleted R.version R.servers (store s.history).statuses = true) {p : Phase}
    (examined : Examined i v job (store s.history).statuses p) :
    Part final s.history R m i ⟨v, p⟩ := by
  cases examined with
  | skip => exact Or.inl ⟨idle.1, outside⟩
  | updateNeco running inside version => exact Or.inl ⟨trivial, outside⟩
  | abort myst running inside version aborted found =>
    rw [own, reign.not_aborted fresh member outside together] at aborted
    cases aborted
  | enter running inside version going unfinished =>
    rcases outside with absent | finished
    · exact Or.inr ⟨own, rev, absent⟩
    · rw [own, together (reign.finished_status finished)] at unfinished
      cases unfinished

/-- A delivered event leaves a member waiting or takes it into `RunStep`. -/
theorem event (reign : Reign final R m s) {i : Int} {job : Job} {hd : Handler}
    (taking : Taking final s.history R m i (.watching job hd)) {c : Change}
    (here : s.history[hd.pos]? = some c) {p : Phase} (watched : Watched job hd c p) :
    Taking final s.history R m i p := by
  have next := fun j st o (put : c = .putStatus j st o) => reign.next_report taking (put ▸ here)
  obtain ⟨following, one, bound, waits, reads⟩ := taking
  obtain ⟨noRequest, _⟩ : c.request? = none ∧ c ≠ .clearStatusAndContents := by
    refine reign.plain c ?_
    obtain ⟨inside, same⟩ := List.getElem?_eq_some_iff.mp here
    have := following.low
    exact List.mem_drop_iff_getElem.mpr ⟨hd.pos - m, by omega, by rw [← same]; congr 1; omega⟩
  have following' : Following s.history R m job (hd.pos + 1) :=
    ⟨following.req, following.modRev, Nat.le_succ_of_le following.low,
      (List.getElem?_eq_some_iff.mp here).1⟩
  have seen := arrivals_take_next following.low here
  have ahead := arrivals_next here
  have log := reign.log
  rw [arrivals_split following'.low] at log
  -- the member at whose report the reader looks is at its own step
  have read (j : Int) (st : UpdateStatus) (o : Nat) (put : c = .putStatus j st o) :
      Reader R.servers i (arrivals m (s.history.take (hd.pos + 1)))
        (arrivals (hd.pos + 1) s.history) hd.step (Finset.erase hd.barrier j) := by
    obtain ⟨_, _, cond, step⟩ := next j st o put
    subst put
    have level : st.level = hd.step := by simp [UpdateStatus.level, cond, step]
    simp only [arrival, level, Option.toList_some] at seen ahead
    rw [seen]
    rw [ahead] at reads
    exact reads.read
  cases watched with
  | stopped req put stopped =>
    rw [noRequest] at put
    cases put
  | aborting msg reason =>
    rcases reason with ⟨req, put, _⟩ | ⟨j, st, o, put, _, wrong⟩
    · rw [noRequest] at put
      cases put
    · obtain ⟨_, version, cond, step⟩ := next j st o put
      rw [following.req] at wrong
      rcases wrong with differs | aborted | other | complete
      · exact absurd version differs
      · rw [cond] at aborted
        cases aborted
      · exact absurd step other
      · rw [cond] at complete
        cases complete
  | ignored _ outside =>
    have silent : arrival c = none := by
      cases c with
      | putStatus j st o =>
        have inside := (next j st o rfl).1
        exact absurd (following.req ▸ inside) (outside j st o rfl)
      | _ => rfl
    rw [silent, Option.toList_none, List.append_nil] at seen
    rw [silent, Option.toList_none, List.nil_append] at ahead
    refine ⟨following', one, bound, waits, ?_⟩
    rw [seen, ← ahead]
    exact reads
  | arrived j st o put inside version going unfinished step remaining =>
    exact ⟨following', one, bound, remaining, read j st o put⟩
  | run j st o put inside version going unfinished step last =>
    refine ⟨following', one, bound, Reader.passed ?_ log⟩
    have reader := read j st o put
    rwa [last] at reader

theorem runStep_done {h : List Change} {i : Int} {job : Job} {hd : Handler}
    (taking : Taking final h R m i (.running job hd)) :
    Taking final h R m i (afterRunStep final job hd) := by
  obtain ⟨following, one, bound, passed⟩ := taking
  simp only [afterRunStep]
  split
  next more =>
    have differs : hd.step ≠ final := by simpa using more
    refine ⟨⟨following.req, following.modRev, following.low, following.high⟩, ?_,
      hd.step, rfl, by omega, passed⟩
    rw [following.req]
  next last =>
    have same : hd.step = final := by simpa using last
    exact ⟨following, same, same ▸ passed⟩

/-- Steps of a member that report nothing. -/
theorem silent (reign : Reign final R m s) {i : Int} (member : i ∈ R.servers) {a : WorkerAction}
    {w : Worker} {events : List StepEvent} (calm : Calm R s (.worker i a))
    (fresh : a = .examine → Fresh R m s.history)
    (move : Move final s.history i (s.workers i) a w [] events) :
    Part final s.history R m i w := by
  have part := reign.members i member
  generalize s.workers i = before at move part
  rcases part with ⟨idle, outside⟩ | taking
  · obtain ⟨_, still | ⟨job, rfl, phase, own, rev, _, rfl⟩⟩ := reign.idle_move idle move
    · exact Or.inl ⟨still, outside⟩
    · obtain ⟨v, p⟩ := before
      simp only at phase
      subst phase
      exact reign.examine (fresh rfl) member idle own rev outside (calm member)
        (examineRequest_examined i v job _)
  · cases move with
    | exit v p up => exact Or.inl ⟨trivial, reign.outside_of_no_progress (calm member)⟩
    | lost v p job st msg pending => cases calm.1
    | event v job hd c here =>
      exact Or.inr (reign.event taking here (watchChange_watched job hd c))
    | finished v job hd => exact Or.inr (runStep_done taking)
    | watchError v job hd msg => exact absurd member calm
    | failed v job hd msg => exact absurd member calm
    | _ => exact taking.elim

/-- A member that has passed a level keeps the log by its next report. -/
theorem passed_log (reign : Reign final R m s) {i : Int} (member : i ∈ R.servers) {pos k : Nat}
    (low : m ≤ pos)
    (passed : Passed R.servers i (arrivals m (s.history.take pos)) (arrivals pos s.history) k) :
    Log R.servers (arrivals m s.history ++ [(i, k + 1)]) := by
  have log := reign.log
  rw [arrivals_split low] at log ⊢
  exact passed.log log member

/-- A report of a member is an arrival at the next level of the log. -/
theorem report (reign : Reign final R m s) {i : Int} (member : i ∈ R.servers) {w : Worker}
    (part : Part final s.history R m i w) {job : Job} {st : UpdateStatus}
    (pending : w.phase.pending = some (job, st)) :
    Proper final R m st job.modRev ∧
      Log R.servers (arrivals m (s.history ++ [.putStatus i st job.modRev])) ∧
      Taking final (s.history ++ [.putStatus i st job.modRev]) R m i
        (w.phase.afterPut .ok) := by
  obtain ⟨v, p⟩ := w
  have everybody (b : Int) : b ∈ newBarrier R.servers ↔ b ∈ R.servers := mem_newBarrier _ _
  have nonempty : newBarrier R.servers ≠ ∅ :=
    Finset.ne_empty_of_mem ((everybody i).mpr member)
  rcases part with ⟨idle, _⟩ | taking
  · rw [idle.pending] at pending
    cases pending
  cases p with
  | entering job' =>
    -- the first report: nothing of this server is in the log, and it reads from the request on
    cases pending
    obtain ⟨rfl, rfl, absent⟩ := taking
    have log : Log job.req.servers (arrivals job.modRev s.history ++ [(i, 1)]) :=
      reign.log.arrive member (Nat.le_refl 1) (absent 1) (fun _ _ impossible => by omega)
    have grown := arrivals_concat reign.low
      (.putStatus i ⟨job.req.version, 1, .running, ""⟩ job.modRev)
    refine ⟨⟨rfl, rfl, Or.inl ⟨rfl, reign.positive⟩⟩, by rw [grown]; exact log, ?_⟩
    refine ⟨⟨rfl, rfl, Nat.le_refl _, ?_⟩, Nat.le_refl 1, reign.positive, nonempty, ?_⟩
    · rw [List.length_append]
      exact Nat.le_add_right_of_le reign.low
    · have seen : arrivals job.modRev ((s.history ++
          [Change.putStatus i ⟨job.req.version, 1, .running, ""⟩ job.modRev]).take job.modRev) =
          [] := by
        simp [arrivals]
      simp only
      rw [seen, grown]
      exact Reader.first log absent everybody
  | advancing job' hd =>
    -- the report of the next step, with a new barrier for it
    cases pending
    obtain ⟨⟨rfl, rfl, low, high⟩, fresh, k, same, bound, passed⟩ := taking
    have next := reign.passed_log member low passed
    have grown := arrivals_concat reign.low
      (.putStatus i ⟨job.req.version, hd.step, .running, ""⟩ job.modRev)
    simp only [arrival, UpdateStatus.level, reduceCtorEq, if_false, Option.toList_some, same] at grown
    rw [same]
    refine ⟨⟨rfl, rfl, Or.inl ⟨rfl, bound⟩⟩, by rw [grown]; exact next, ?_⟩
    refine ⟨⟨rfl, rfl, low, ?_⟩, by omega, by omega, by rw [fresh]; exact nonempty, ?_⟩
    · rw [List.length_append]
      exact Nat.le_add_right_of_le high
    · obtain ⟨seen, ahead⟩ := arrivals_view_concat (m := job.modRev) high
        (.putStatus i ⟨job.req.version, k + 1, .running, ""⟩ job.modRev)
      rw [seen, ahead, same, fresh]
      rw [arrivals_split low, List.append_assoc] at next
      exact passed.arrive next everybody
  | completing job' hd =>
    -- the report of completion counts as one level more than the last step
    cases pending
    obtain ⟨⟨rfl, rfl, low, high⟩, same, passed⟩ := taking
    have next := reign.passed_log member low passed
    have grown := arrivals_concat reign.low
      (.putStatus i ⟨job.req.version, hd.step, .complete, ""⟩ job.modRev)
    simp only [arrival, UpdateStatus.level, if_true, Option.toList_some, same] at grown
    rw [same]
    refine ⟨⟨rfl, rfl, Or.inr ⟨rfl, rfl⟩⟩, by rw [grown]; exact next, ?_⟩
    show _ ∈ arrivals _ _
    rw [grown]
    simp
  | watching job' hd => cases pending
  | running job' hd => cases pending
  | restarting job' => cases pending
  | _ => exact taking.elim

/-- A transaction by which the request stays current and no proper report is missing. -/
theorem concat (reign : Reign final R m s) {c : Change} (no : c.request? = none)
    (noClear : c ≠ .clearStatusAndContents) (workers : Int → Worker)
    (log : Log R.servers (arrivals m (s.history ++ [c])))
    (proper : ∀ j st o, c = .putStatus j st o → Proper final R m st o)
    (members : ∀ i ∈ R.servers, Part final (s.history ++ [c]) R m i (workers i)) (t : System)
    (history : t.history = s.history ++ [c]) (same : t.workers = workers) : Reign final R m t where
  positive := reign.positive
  current := by
    rw [history, store_concat, current_apply, no]
    simp only [noClear, if_false, reign.current]
  running := reign.running
  log := history ▸ log
  reports := by
    intro j st o put
    rw [history, List.drop_append_of_le_length reign.low] at put
    rcases List.mem_append.mp put with old | new
    · exact reign.reports j st o old
    · rw [List.mem_singleton] at new
      exact proper j st o new.symm
  members := by
    rw [history, same]
    exact members

/-- A transaction outside `status/`. -/
theorem concat_other (reign : Reign final R m s) {c : Change} (no : c.isStatus = false)
    (t : System) (history : t.history = s.history ++ [c]) (same : t.workers = s.workers) :
    Reign final R m t := by
  have silent : arrival c = none ∧ c.request? = none ∧ c ≠ .clearStatusAndContents := by
    cases c <;> simp [Change.isStatus, Change.request?, arrival] at no ⊢
  obtain ⟨noReport, noRequest, noClear⟩ := silent
  have log : Log R.servers (arrivals m (s.history ++ [c])) := by
    rw [arrivals_concat reign.low, noReport, Option.toList_none, List.append_nil]
    exact reign.log
  refine reign.concat noRequest noClear s.workers log ?_ ?_ t history same
  · rintro j st o rfl
    cases noReport
  · intro i member
    exact (reign.members i member).concat reign.low noRequest log (by simp [noReport])

theorem congr (reign : Reign final R m s) (t : System) (history : t.history = s.history)
    (members : ∀ i ∈ R.servers, Part final s.history R m i (t.workers i)) : Reign final R m t := by
  refine ⟨reign.positive, ?_, reign.running, ?_, ?_, ?_⟩ <;> rw [history]
  exacts [reign.current, reign.log, reign.reports, members]

/-- A report, with what it means for the reporting member and for the others. -/
theorem reported (reign : Reign final R m s) {i : Int} (member : i ∈ R.servers) {w : Worker}
    {job : Job} {st : UpdateStatus} (pending : (s.workers i).phase.pending = some (job, st))
    (after : w.phase = (s.workers i).phase.afterPut .ok) (t : System)
    (history : t.history = s.history ++ [.putStatus i st job.modRev])
    (workers : t.workers = Function.update s.workers i w) : Reign final R m t := by
  obtain ⟨proper, log, taking⟩ := reign.report member (reign.members i member) pending
  refine reign.concat rfl (by simp) _ log ?_ ?_ t history workers
  · rintro _ _ _ ⟨⟩
    exact proper
  · intro j inside
    by_cases same : j = i
    · subst same
      rw [Function.update_self]
      exact Or.inr (after ▸ taking)
    · rw [Function.update_of_ne same]
      refine (reign.members j inside).concat reign.low rfl log ?_
      rintro a l ⟨⟩
      exact Ne.symm same

end Reign

/-- Undisturbed steps keep the reign of a request. -/
theorem reign_step {cfg : Config V} {R : UpdateRequest} {m : Nat} {s s' : System}
    {a : SystemAction} (reign : Reign cfg.final R m s) (calm : Calm R s a)
    (fresh : ∀ i ∈ R.servers, a = .worker i .examine → Fresh R m s.history)
    (stepped : Stepped cfg s a s') : Reign cfg.final R m s' := by
  cases stepped with
  | worker lrn a w cs events move =>
    cases cs with
    | nil =>
      refine reign.congr _ (List.append_nil _) fun i member => ?_
      by_cases same : i = lrn
      · subst same
        simp only [Function.update_self]
        exact reign.silent member calm (fun here => fresh i member (by rw [here])) move
      · simp only [Function.update_of_ne same]
        exact reign.members i member
    | cons c cs =>
      obtain ⟨result, rfl, _, rfl⟩ := move.reported
      obtain ⟨rfl, member⟩ := calm
      rcases move.committed with nothing | ⟨job, st, pending, only⟩
      · cases nothing
      · exact reign.reported member pending move.afterPut _ (by rw [only]) rfl
  | updater u a next cs move =>
    cases cs with
    | nil => exact reign.congr _ (List.append_nil _) reign.members
    | cons c cs =>
      obtain ⟨acknowledged, rfl⟩ := move.put_of_commit
      exact calm.elim
  | recoverRead c req m present stopped => exact reign.congr _ rfl reign.members
  | recoverClear c req m holds present => exact calm.elim
  | recoverRetry c => exact calm.elim
  | campaign u idle => exact reign.congr _ rfl reign.members
  | loseKey key => exact reign.congr _ rfl reign.members
  | info a c info valid =>
    refine reign.concat_other ?_ _ rfl rfl
    cases c <;> first | rfl | cases info
  | other a => exact reign.concat_other rfl _ rfl rfl
  | tick elapsed => exact reign.congr _ rfl reign.members

end Neco
