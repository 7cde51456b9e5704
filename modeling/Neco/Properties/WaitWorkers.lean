import Neco.Updater.Decision
import Neco.Updater.Handler

/-!
# Waiting for workers agrees with deciding from scratch

While it waits, neco-updater looks at one worker status at a time: the handler updates
its own map and asks whether this status ends the wait. `NextAction` looks at the whole map
of a snapshot. From a snapshot on which `NextAction` waits, the handler ends the wait at the
first put after which `NextAction` would no longer wait, and notifies what `NextAction` finds.
-/

namespace Neco

variable {V : Type} [DecidableEq V]

/-- The snapshot with one more worker status. -/
def Snapshot.putStatus (ss : Snapshot) (put : StatusPut) : Snapshot :=
  { ss with statuses := ss.statuses.insert put.lrn put.st }

def Snapshot.putStatuses (ss : Snapshot) (puts : List StatusPut) : Snapshot :=
  puts.foldl Snapshot.putStatus ss

/-- `NextAction` from scratch after each of the puts, at the time of the put. -/
def Snapshot.decisions (newVersion : String → Option V) (timeout : Int) (ss : Snapshot) :
    List StatusPut → List Action
  | [] => []
  | put :: rest =>
    nextAction newVersion timeout put.time (ss.putStatus put) ::
      (ss.putStatus put).decisions newVersion timeout rest

/-! ### One put -/

/-- What `NextAction` has checked of a snapshot on which it waits for the workers of `req`,
the time apart. -/
structure Snapshot.Working (newVersion : String → Option V) (ss : Snapshot)
    (req : UpdateRequest) : Prop where
  something : ss.latest ≠ ""
  valid : (newVersion ss.latest).isSome = true
  request : ss.request = some req
  running : req.stop = false
  unaborted : anyAborted req.version ss.statuses = false
  uncompleted : updateCompleted req.version req.servers ss.statuses = false

section OnePut

variable {newVersion : String → Option V} {timeout now : Int} {ss : Snapshot}
  {req : UpdateRequest} {put : StatusPut}

theorem Snapshot.Working.waits (working : ss.Working newVersion req)
    (inTime : now - req.startedAt ≤ timeout) :
    nextAction newVersion timeout now ss = .waitWorkers :=
  (nextAction_waitWorkers_iff newVersion timeout now ss).mpr
    ⟨working.something, working.valid, req, working.request, working.running, working.unaborted,
      working.uncompleted, inTime⟩

theorem Snapshot.Working.of_waits (waits : nextAction newVersion timeout now ss = .waitWorkers)
    (request : ss.request = some req) : ss.Working newVersion req := by
  obtain ⟨something, valid, req', request', running, unaborted, uncompleted, _⟩ :=
    (nextAction_waitWorkers_iff newVersion timeout now ss).mp waits
  cases request.symm.trans request'
  exact ⟨something, valid, request, running, unaborted, uncompleted⟩

/-- The put of an abort is an abort for `NextAction`. -/
theorem anyAborted_insert_abort {version : String} {statuses : Statuses} {lrn : Int}
    {st : UpdateStatus} (current : st.version = version) (aborted : st.cond = .abort) :
    anyAborted version (statuses.insert lrn st) = true :=
  (anyAborted_iff _ _).mpr ⟨lrn, st, AList.lookup_insert _, current, aborted⟩

/-- Any other put brings no abort. -/
theorem anyAborted_insert_report {version : String} {statuses : Statuses} {lrn : Int}
    {st : UpdateStatus} (before : anyAborted version statuses = false)
    (unaborted : st.cond ≠ .abort) : anyAborted version (statuses.insert lrn st) = false := by
  refine Bool.eq_false_iff.mpr fun after => ?_
  obtain ⟨lrn', st', found, current, aborted⟩ := (anyAborted_iff _ _).mp after
  by_cases same : lrn' = lrn
  · subst same
    rw [AList.lookup_insert] at found
    cases found
    exact unaborted aborted
  · rw [AList.lookup_insert_ne same] at found
    exact Bool.eq_false_iff.mp before ((anyAborted_iff _ _).mpr ⟨lrn', st', found, current, aborted⟩)

/-- An abort does not complete an update, also when a server outside the request reports it. -/
theorem updateCompleted_insert_abort {version : String} {lrns : List Int} {statuses : Statuses}
    {lrn : Int} {st : UpdateStatus} (before : updateCompleted version lrns statuses = false)
    (aborted : st.cond = .abort) :
    updateCompleted version lrns (statuses.insert lrn st) = false := by
  refine Bool.eq_false_iff.mpr fun after => Bool.eq_false_iff.mp before ?_
  rw [updateCompleted_iff] at after ⊢
  intro member listed
  obtain ⟨st', found, current, complete⟩ := after member listed
  by_cases same : member = lrn
  · subst same
    rw [AList.lookup_insert] at found
    cases found
    rw [aborted] at complete
    cases complete
  · rw [AList.lookup_insert_ne same] at found
    exact ⟨st', found, current, complete⟩

theorem Snapshot.Working.put_abort (timeout now : Int) (working : ss.Working newVersion req)
    (current : put.st.version = req.version) (aborted : put.st.cond = .abort) :
    nextAction newVersion timeout now (ss.putStatus put) = .stop := by
  obtain ⟨version, latest⟩ := Option.isSome_iff_exists.mp working.valid
  have after : anyAborted req.version (ss.statuses.insert put.lrn put.st) = true :=
    anyAborted_insert_abort current aborted
  simp [nextAction, Snapshot.putStatus, working.something, latest, working.request,
    working.running, after]

omit [DecidableEq V] in
theorem Snapshot.Working.put_report (working : ss.Working newVersion req)
    (unaborted : put.st.cond ≠ .abort)
    (uncompleted : updateCompleted req.version req.servers (ss.putStatus put).statuses = false) :
    (ss.putStatus put).Working newVersion req :=
  ⟨working.something, working.valid, working.request, working.running,
    anyAborted_insert_report working.unaborted unaborted, uncompleted⟩

/-- A completed update ends the wait, and not by a stop. -/
theorem Snapshot.Working.put_last (timeout now : Int) (working : ss.Working newVersion req)
    (unaborted : put.st.cond ≠ .abort)
    (completed : updateCompleted req.version req.servers (ss.putStatus put).statuses = true) :
    nextAction newVersion timeout now (ss.putStatus put) ≠ .waitWorkers ∧
      nextAction newVersion timeout now (ss.putStatus put) ≠ .stop := by
  have kept : anyAborted req.version (ss.putStatus put).statuses = false :=
    anyAborted_insert_report working.unaborted unaborted
  have request : (ss.putStatus put).request = some req := working.request
  obtain ⟨version, latest⟩ := Option.isSome_iff_exists.mp working.valid
  have latest : newVersion (ss.putStatus put).latest = some version := latest
  have something : (ss.putStatus put).latest ≠ "" := working.something
  simp only [nextAction, something, latest, request, working.running, kept, completed,
    if_false, Bool.false_eq_true, Bool.not_true]
  -- what remains are the branches below the check for completion
  constructor <;> (repeat' split) <;> simp

/-- How the handler's answer to a put relates to `NextAction` on the updated snapshot. -/
structure PutAgrees (newVersion : String → Option V) (timeout : Int) (req : UpdateRequest)
    (ss : Snapshot) (put : StatusPut) (answer : Handled) : Prop where
  handler : answer.handler = ⟨req, (ss.putStatus put).statuses⟩
  ended : answer.ended = true ↔
    nextAction newVersion timeout put.time (ss.putStatus put) ≠ .waitWorkers
  failure : answer.notified.any Notification.isFailure = true ↔
    nextAction newVersion timeout put.time (ss.putStatus put) = .stop
  success : answer.notified = some (.succeeded req) ↔
    updateCompleted req.version req.servers (ss.putStatus put).statuses = true
  goesOn : answer.ended = false → (ss.putStatus put).Working newVersion req

theorem Snapshot.Working.agrees (working : ss.Working newVersion req)
    (current : put.st.version = req.version) (inTime : put.time - req.startedAt ≤ timeout) :
    PutAgrees newVersion timeout req ss put
      (StatusHandler.handleStatus ⟨req, ss.statuses⟩ put.lrn put.st) := by
  by_cases aborted : put.st.cond = .abort
  · have stops := working.put_abort timeout put.time current aborted
    have uncompleted : updateCompleted req.version req.servers (ss.putStatus put).statuses = false :=
      updateCompleted_insert_abort working.uncompleted aborted
    rw [StatusHandler.handleStatus_abort _ _ _ current aborted]
    refine ⟨rfl, ?_, ?_, ?_, ?_⟩
    · simp [stops]
    · simp [stops, Notification.isFailure]
    · simp [uncompleted]
    · simp
  · rw [StatusHandler.handleStatus_report _ _ _ current aborted]
    cases completed : updateCompleted req.version req.servers (ss.putStatus put).statuses with
    | true =>
      obtain ⟨ends, unstopped⟩ := working.put_last timeout put.time aborted completed
      rw [if_pos (by exact completed)]
      exact ⟨rfl, by simp [ends], by simp [unstopped, Notification.isFailure], by simp [completed],
        by simp⟩
    | false =>
      have goesOn := working.put_report aborted completed
      have waits := goesOn.waits inTime
      rw [if_neg (by exact Bool.eq_false_iff.mp completed)]
      exact ⟨rfl, by simp [waits], by simp [waits], by simp [completed], fun _ => goesOn⟩

end OnePut

/-! ### Any sequence of puts -/

variable {newVersion : String → Option V} {timeout : Int}

/-- Up to its end the wait follows `NextAction` put by put, and its last answer notifies what
`NextAction` finds. -/
theorem Snapshot.Working.follows {req : UpdateRequest} (puts : List StatusPut)
    (current : ∀ put ∈ puts, put.st.version = req.version)
    (inTime : ∀ put ∈ puts, put.time - req.startedAt ≤ timeout) :
    ∀ ss : Snapshot, ss.Working newVersion req →
      (StatusHandler.handled ⟨req, ss.statuses⟩ puts).findIdx? (·.ended) =
        (ss.decisions newVersion timeout puts).findIdx? (· != .waitWorkers) ∧
      ∀ n answer, (StatusHandler.handled ⟨req, ss.statuses⟩ puts).findIdx? (·.ended) = some n →
        (StatusHandler.handled ⟨req, ss.statuses⟩ puts)[n]? = some answer →
        (answer.notified.any Notification.isFailure = true ↔
          (ss.decisions newVersion timeout puts)[n]? = some .stop) ∧
        (answer.notified = some (.succeeded req) ↔ updateCompleted req.version req.servers
          (ss.putStatuses (puts.take (n + 1))).statuses = true) := by
  induction puts with
  | nil =>
    intro ss _
    exact ⟨rfl, fun n answer ended => by simp [StatusHandler.handled] at ended⟩
  | cons put rest ih =>
    intro ss working
    have here := working.agrees (current put (List.mem_cons_self ..))
      (inTime put (List.mem_cons_self ..))
    have handled : StatusHandler.handled ⟨req, ss.statuses⟩ (put :: rest) =
        StatusHandler.handleStatus ⟨req, ss.statuses⟩ put.lrn put.st ::
          StatusHandler.handled ⟨req, (ss.putStatus put).statuses⟩ rest := by
      rw [StatusHandler.handled, here.handler]
    rw [handled, Snapshot.decisions]
    cases ended : (StatusHandler.handleStatus ⟨req, ss.statuses⟩ put.lrn put.st).ended with
    | true =>
      -- this put ends the wait
      have decided := here.ended.mp ended
      refine ⟨by simp [List.findIdx?_cons, ended, decided], fun n answer first found => ?_⟩
      simp only [List.findIdx?_cons, ended, if_true, Option.some.injEq] at first
      subst first
      cases found
      refine ⟨by simpa using here.failure, ?_⟩
      simpa [Snapshot.putStatuses] using here.success
    | false =>
      -- both go on, and the later puts are told by the induction
      have waits : nextAction newVersion timeout put.time (ss.putStatus put) = .waitWorkers := by
        by_contra decided
        rw [here.ended.mpr decided] at ended
        cases ended
      obtain ⟨same, last⟩ := ih (fun put member => current put (List.mem_cons_of_mem _ member))
        (fun put member => inTime put (List.mem_cons_of_mem _ member)) _ (here.goesOn ended)
      refine ⟨by simp [List.findIdx?_cons, ended, waits, same], fun n answer first found => ?_⟩
      simp only [List.findIdx?_cons, ended, Bool.false_eq_true, if_false, Option.map_eq_some_iff]
        at first
      obtain ⟨m, first, rfl⟩ := first
      rw [List.getElem?_cons_succ] at found
      simpa [Snapshot.putStatuses] using last m answer first found

/-- From a snapshot on which `NextAction` waits for the workers, the handler's first answer that
ends the wait comes at the first put after which `NextAction` on the updated snapshot does not
wait. There it reports a failure iff `NextAction` stops, and success iff the update has
completed. -/
theorem waiting_agrees (newVersion : String → Option V) (timeout now : Int) (ss : Snapshot)
    (req : UpdateRequest) (puts : List StatusPut) (request : ss.request = some req)
    (waits : nextAction newVersion timeout now ss = .waitWorkers)
    (current : ∀ put ∈ puts, put.st.version = req.version)
    (inTime : ∀ put ∈ puts, put.time - req.startedAt ≤ timeout) :
    (StatusHandler.handled ⟨req, ss.statuses⟩ puts).findIdx? (·.ended) =
      (ss.decisions newVersion timeout puts).findIdx? (· != .waitWorkers) ∧
    ∀ n answer, (StatusHandler.handled ⟨req, ss.statuses⟩ puts).findIdx? (·.ended) = some n →
      (StatusHandler.handled ⟨req, ss.statuses⟩ puts)[n]? = some answer →
      (answer.notified.any Notification.isFailure = true ↔
        (ss.decisions newVersion timeout puts)[n]? = some .stop) ∧
      (answer.notified = some (.succeeded req) ↔ updateCompleted req.version req.servers
        (ss.putStatuses (puts.take (n + 1))).statuses = true) :=
  Snapshot.Working.follows puts current inTime ss (.of_waits waits request)

/-- Server 0 has completed; a server outside the request reports, then server 1 completes. -/
def lastReport : Snapshot × List StatusPut :=
  (⟨9, some ⟨"1.0.0", [0, 1], false, 0⟩, AList.insert 0 ⟨"1.0.0", 18, .complete, ""⟩ ∅, "1.0.0",
      [0, 1]⟩,
    [⟨5, 7, ⟨"1.0.0", 3, .running, ""⟩⟩, ⟨6, 1, ⟨"1.0.0", 18, .complete, ""⟩⟩,
      ⟨7, 1, ⟨"1.0.0", 2, .abort, "failed"⟩⟩])

theorem waiting_agrees_lastReport :
    (StatusHandler.handled ⟨⟨"1.0.0", [0, 1], false, 0⟩, lastReport.1.statuses⟩
      lastReport.2).findIdx? (·.ended) = some 1 ∧
    (lastReport.1.decisions some 60 lastReport.2)[1]? = some .waitInfo := by
  refine ⟨?_, by decide +kernel⟩
  rw [(waiting_agrees some 60 4 lastReport.1 ⟨"1.0.0", [0, 1], false, 0⟩ lastReport.2 rfl
    (by decide +kernel) (by decide +kernel)
    (by decide +kernel)).1]
  decide +kernel

end Neco
