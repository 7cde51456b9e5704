import Neco.Updater.Server

/-!
# What each decision of neco-updater rests on

One lemma for each action: the facts about the snapshot that `NextAction` has checked
when it returns the action. For the waits they are all that the action rests on.
-/

namespace Neco

variable {V : Type} [DecidableEq V]

/-- The facts of a snapshot whose request is finished and may be replaced. -/
structure Snapshot.Finished (ss : Snapshot) (req : UpdateRequest) : Prop where
  request : ss.request = some req
  running : req.stop = false
  completed : updateCompleted req.version req.servers ss.statuses = true

/-- The branches of `NextAction` with what they have checked. -/
inductive Acted (newVersion : String → Option V) (timeout now : Int) (ss : Snapshot) :
    Action → Prop
  | noRelease : ss.latest = "" → Acted newVersion timeout now ss .waitInfo
  | badRelease : newVersion ss.latest = none → Acted newVersion timeout now ss .error
  | first : ss.request = none → Acted newVersion timeout now ss .newVersion
  | clear (v : V) (req : UpdateRequest) : ss.latest ≠ "" → newVersion ss.latest = some v →
      ss.request = some req → req.stop = true → Acted newVersion timeout now ss .waitClear
  | aborted (req : UpdateRequest) : ss.request = some req → req.stop = false →
      Acted newVersion timeout now ss .stop
  | timedOut (req : UpdateRequest) : ss.request = some req → req.stop = false →
      Acted newVersion timeout now ss .stop
  | working (v : V) (req : UpdateRequest) : ss.latest ≠ "" → newVersion ss.latest = some v →
      ss.request = some req → req.stop = false → anyAborted req.version ss.statuses = false →
      updateCompleted req.version req.servers ss.statuses = false →
      now - req.startedAt ≤ timeout → Acted newVersion timeout now ss .waitWorkers
  | reconfigure (req : UpdateRequest) : ss.Finished req → Acted newVersion timeout now ss .reconfigure
  | badRequest (req : UpdateRequest) : newVersion req.version = none →
      Acted newVersion timeout now ss .error
  | newVersion (v v' : V) (req : UpdateRequest) : ss.Finished req → req.servers = ss.servers →
      newVersion ss.latest = some v → newVersion req.version = some v' → v ≠ v' →
      Acted newVersion timeout now ss .newVersion
  | upToDate (v : V) (req : UpdateRequest) : ss.Finished req →
      anyAborted req.version ss.statuses = false → req.servers = ss.servers →
      newVersion ss.latest = some v → newVersion req.version = some v →
      Acted newVersion timeout now ss .waitInfo

theorem nextAction_acted (newVersion : String → Option V) (timeout now : Int) (ss : Snapshot) :
    Acted newVersion timeout now ss (nextAction newVersion timeout now ss) := by
  unfold nextAction
  split
  next nothing => exact .noRelease nothing
  next something =>
  split
  next bad => exact .badRelease bad
  next v latest =>
  split
  next absent => exact .first absent
  next req present =>
  split
  next stopped => exact .clear v req something latest present stopped
  next running =>
  have running : req.stop = false := by simpa using running
  split
  · exact .aborted req present running
  next unaborted =>
  have unaborted : anyAborted req.version ss.statuses = false := by simpa using unaborted
  split
  next uncompleted =>
    split
    · exact .timedOut req present running
    next inTime =>
      exact .working v req something latest present running unaborted (by simpa using uncompleted)
        (by omega)
  next completed =>
  have finished : ss.Finished req := ⟨present, running, by simpa using completed⟩
  split
  · exact .reconfigure req finished
  next servers =>
  split
  next bad => exact .badRequest req bad
  next v' parsed =>
  split
  next differs => exact .newVersion v v' req finished (by simpa using servers) latest parsed differs
  next same =>
  exact .upToDate v req finished unaborted (by simpa using servers) latest
    (not_not.mp same ▸ parsed)

theorem nextAction_newVersion (newVersion : String → Option V) (timeout now : Int)
    (ss : Snapshot) (decided : nextAction newVersion timeout now ss = .newVersion) :
    ss.request = none ∨ ∃ req, ss.Finished req ∧ req.servers = ss.servers ∧
      req.version ≠ ss.latest := by
  have acted := nextAction_acted newVersion timeout now ss
  rw [decided] at acted
  cases acted with
  | first absent => exact Or.inl absent
  | newVersion v v' req finished servers latest parsed differs =>
    refine Or.inr ⟨req, finished, servers, fun same => differs ?_⟩
    -- equal strings would parse to equal versions
    rw [same, latest] at parsed
    exact Option.some.inj parsed

theorem nextAction_reconfigure (newVersion : String → Option V) (timeout now : Int)
    (ss : Snapshot) (decided : nextAction newVersion timeout now ss = .reconfigure) :
    ∃ req, ss.Finished req := by
  have acted := nextAction_acted newVersion timeout now ss
  rw [decided] at acted
  cases acted with
  | reconfigure req finished => exact ⟨req, finished⟩

theorem nextAction_stop (newVersion : String → Option V) (timeout now : Int)
    (ss : Snapshot) (decided : nextAction newVersion timeout now ss = .stop) :
    ∃ req, ss.request = some req ∧ req.stop = false := by
  have acted := nextAction_acted newVersion timeout now ss
  rw [decided] at acted
  cases acted with
  | aborted req present running => exact ⟨req, present, running⟩
  | timedOut req present running => exact ⟨req, present, running⟩

/-- The facts of a snapshot from which there is nothing to do. -/
structure Snapshot.UpToDate (newVersion : String → Option V) (ss : Snapshot)
    (req : UpdateRequest) : Prop extends ss.Finished req where
  unaborted : anyAborted req.version ss.statuses = false
  servers : req.servers = ss.servers
  versions : ∃ version, newVersion ss.latest = some version ∧
    newVersion req.version = some version

theorem nextAction_waitInfo_iff (newVersion : String → Option V) (timeout now : Int)
    (ss : Snapshot) : nextAction newVersion timeout now ss = .waitInfo ↔
      ss.latest = "" ∨ ∃ req, ss.UpToDate newVersion req := by
  constructor
  · intro decided
    have acted := nextAction_acted newVersion timeout now ss
    rw [decided] at acted
    cases acted with
    | noRelease nothing => exact Or.inl nothing
    | upToDate v req finished unaborted servers latest parsed =>
      exact Or.inr ⟨req, finished, unaborted, servers, v, latest, parsed⟩
  · rintro (nothing | ⟨req, ⟨present, running, completed⟩, unaborted, servers, v, latest, parsed⟩)
    · simp [nextAction, nothing]
    · rw [servers] at completed
      unfold nextAction
      split
      · rfl
      · simp [latest, present, running, unaborted, servers, completed, parsed]

theorem nextAction_waitWorkers_iff (newVersion : String → Option V) (timeout now : Int)
    (ss : Snapshot) : nextAction newVersion timeout now ss = .waitWorkers ↔
      ss.latest ≠ "" ∧ (newVersion ss.latest).isSome = true ∧ ∃ req, ss.request = some req ∧
        req.stop = false ∧ anyAborted req.version ss.statuses = false ∧
        updateCompleted req.version req.servers ss.statuses = false ∧
        now - req.startedAt ≤ timeout := by
  constructor
  · intro decided
    have acted := nextAction_acted newVersion timeout now ss
    rw [decided] at acted
    cases acted with
    | working v req something latest present running unaborted uncompleted inTime =>
      exact ⟨something, by simp [latest], req, present, running, unaborted, uncompleted, inTime⟩
  · rintro ⟨something, valid, req, present, running, unaborted, uncompleted, inTime⟩
    obtain ⟨version, latest⟩ := Option.isSome_iff_exists.mp valid
    have early : ¬ now - req.startedAt > timeout := by omega
    simp [nextAction, something, latest, present, running, unaborted, uncompleted, early]

theorem nextAction_waitClear_iff (newVersion : String → Option V) (timeout now : Int)
    (ss : Snapshot) : nextAction newVersion timeout now ss = .waitClear ↔
      ss.latest ≠ "" ∧ (newVersion ss.latest).isSome = true ∧
        ∃ req, ss.request = some req ∧ req.stop = true := by
  constructor
  · intro decided
    have acted := nextAction_acted newVersion timeout now ss
    rw [decided] at acted
    cases acted with
    | clear v req something latest present stopped =>
      exact ⟨something, by simp [latest], req, present, stopped⟩
  · rintro ⟨something, valid, req, present, stopped⟩
    obtain ⟨version, latest⟩ := Option.isSome_iff_exists.mp valid
    simp [nextAction, something, latest, present, stopped]

/-- The transactions that `runLoop` may decide on from a snapshot. -/
inductive Decided (ss : Snapshot) : Change → Prop
  | first (now : Int) : ss.request = none →
      Decided ss (.putRequest ⟨ss.latest, ss.servers, false, now⟩)
  | newVersion (now : Int) (req : UpdateRequest) : ss.Finished req → req.servers = ss.servers →
      req.version ≠ ss.latest → Decided ss (.putRequest ⟨ss.latest, ss.servers, false, now⟩)
  | stop (req : UpdateRequest) : ss.request = some req → req.stop = false →
      Decided ss (.putRequest { req with stop := true })
  | reconfigure (now : Int) (req : UpdateRequest) : ss.Finished req →
      Decided ss (.putReconfigureRequest ⟨req.version, ss.servers, false, now⟩)

theorem perform_putting (newVersion : String → Option V) (timeout now : Int) (key key' : Nat)
    (ss ss' : Snapshot) (change : Change)
    (performed : perform key ss now (nextAction newVersion timeout now ss) =
      .putting key' ss' change) : key' = key ∧ ss' = ss ∧ Decided ss change := by
  cases action : nextAction newVersion timeout now ss with
  | error => simp [action, perform] at performed
  | waitInfo => simp [action, perform] at performed
  | waitClear => simp [action, perform] at performed
  | newVersion =>
    simp only [action, perform, Updater.putting.injEq] at performed
    obtain ⟨rfl, rfl, rfl⟩ := performed
    refine ⟨rfl, rfl, ?_⟩
    rcases nextAction_newVersion newVersion timeout now ss action with
      absent | ⟨req, finished, servers, version⟩
    · exact .first now absent
    · exact .newVersion now req finished servers version
  | waitWorkers =>
    simp only [action, perform] at performed
    split at performed <;> cases performed
  | stop =>
    obtain ⟨req, present, running⟩ := nextAction_stop newVersion timeout now ss action
    simp only [action, perform, present, Updater.putting.injEq] at performed
    obtain ⟨rfl, rfl, rfl⟩ := performed
    exact ⟨rfl, rfl, .stop req present running⟩
  | reconfigure =>
    obtain ⟨req, finished⟩ := nextAction_reconfigure newVersion timeout now ss action
    simp only [action, perform, finished.request, Updater.putting.injEq] at performed
    obtain ⟨rfl, rfl, rfl⟩ := performed
    exact ⟨rfl, rfl, .reconfigure now req finished⟩

end Neco
