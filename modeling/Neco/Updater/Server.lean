import Neco.Updater.Action
import Neco.Updater.Handler
import Neco.Updater.Release

/-!
# neco-updater

`Server.Run` and `runLoop` as a state machine. The leader keys of the election are
numbered in the order of their creation, so that a key names one term.
-/

namespace Neco

variable {V : Type} [DecidableEq V]

/-- What the update process is run with: the operator's final step, the worker
timeout and the version parser. -/
structure Config (V : Type) where
  final : Nat
  timeout : Int
  newVersion : String → Option V

/-- `operator.FinalStep`. -/
def operatorFinalStep : Nat := 18

inductive Updater where
  | idle
  | campaigning (key : Nat)
  /-- at the head of `runLoop` -/
  | leading (key : Nat)
  /-- a snapshot is taken -/
  | deciding (key : Nat) (ss : Snapshot)
  /-- about to commit a guarded put decided on `ss` -/
  | putting (key : Nat) (ss : Snapshot) (change : Change)
  /-- in `WaitInfo` -/
  | waitInfo (key : Nat) (ss : Snapshot)
  /-- in `waitComplete`: the handler's statuses and the watched position -/
  | waitWorkers (key : Nat) (ss : Snapshot) (req : UpdateRequest) (statuses : Statuses) (pos : Nat)
  /-- in `WaitRequestDeletion` -/
  | waitClear (key : Nat) (ss : Snapshot)

inductive UpdaterAction where
  | elected
  | snapshot
  | decide
  /-- commit the guarded put; the answer may be lost -/
  | put (acknowledged : Bool)
  | wake
  | receiveStatus
  | deadline
  | fail
  deriving DecidableEq

/-- What `waitComplete` goes on with: the handler's statuses and whether the wait ends. -/
def handleStatus (req : UpdateRequest) (statuses : Statuses) (lrn : Int) (st : UpdateStatus) :
    Statuses × Bool :=
  let answer := StatusHandler.handleStatus ⟨req, statuses⟩ lrn st
  (answer.handler.statuses, answer.ended)

/-- The branch of `runLoop` for an action decided on `ss` at the time `now`. -/
def perform (key : Nat) (ss : Snapshot) (now : Int) : Action → Updater
  | .error => .idle
  | .waitInfo => .waitInfo key ss
  | .reconfigure =>
    match ss.request with
    | some req => .putting key ss (.putReconfigureRequest ⟨req.version, ss.servers, false, now⟩)
    | none => .idle
  | .newVersion => .putting key ss (.putRequest ⟨ss.latest, ss.servers, false, now⟩)
  | .waitWorkers =>
    match ss.request with
    | some req => .waitWorkers key ss req ss.statuses ss.revision
    | none => .idle
  | .stop =>
    match ss.request with
    | some req => .putting key ss (.putRequest { req with stop := true })
    | none => .idle
  | .waitClear => .waitClear key ss

/-- One action of an updater: its next state and the transaction it commits. -/
def updaterStep (cfg : Config V) (h : List Change) (keys : List Nat) (now : Int) (u : Updater) :
    UpdaterAction → Option (Updater × List Change)
  | .elected =>
    match u with
    | .campaigning key => if keys.head? = some key then some (.leading key, []) else none
    | _ => none
  | .snapshot =>
    match u with
    | .leading key => some (.deciding key (newSnapshot h), [])
    | _ => none
  | .decide =>
    match u with
    | .deciding key ss =>
      some (perform key ss now (nextAction cfg.newVersion cfg.timeout now ss), [])
    | _ => none
  | .put acknowledged =>
    match u with
    | .putting key _ change =>
      if key ∈ keys then some (if acknowledged then .leading key else .idle, [change])
      else some (.idle, [])
    | _ => none
  | .wake =>
    match u with
    | .waitInfo key ss =>
      if (h.drop ss.revision).any Change.isInfo then some (.leading key, []) else none
    | .waitClear key ss =>
      if (h.drop ss.revision).any (· == .clearStatusAndContents) then some (.leading key, [])
      else none
    | _ => none
  | .receiveStatus =>
    match u with
    | .waitWorkers key ss req statuses pos =>
      match h[pos]? with
      | none => none
      | some (.putStatus lrn st _) =>
        let (statuses, completed) := handleStatus req statuses lrn st
        some (if completed then .leading key else .waitWorkers key ss req statuses (pos + 1), [])
      | some _ => some (.waitWorkers key ss req statuses (pos + 1), [])
    | _ => none
  | .deadline =>
    match u with
    | .waitWorkers key _ req _ _ =>
      if req.startedAt + cfg.timeout ≤ now then some (.leading key, []) else none
    | _ => none
  | .fail => some (.idle, [])

end Neco
