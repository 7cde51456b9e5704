import Neco.Storage.Store
import Neco.Worker.Strategy

/-!
# neco-worker

`Worker.Run` and `Worker.update` as a state machine. A phase names the place where
the process waits for etcd, for an operation or for the scheduler; each action is
one read, one write, one delivered event or one end of `RunStep`. A process may end
in any phase and is started again by systemd, possibly with another version of the
neco package installed.
-/

namespace Neco

/-- The request `Run` is dealing with: its mod revision is passed to `update`, and
`rev` is where the loop goes on waiting. -/
structure Job where
  req : UpdateRequest
  modRev : Nat
  rev : Nat
  deriving DecidableEq

/-- `w.step`, `w.barrier` and the revision up to which the watcher has delivered. -/
structure Handler where
  step : Nat
  barrier : Barrier
  pos : Nat
  deriving DecidableEq

inductive Phase where
  /-- no process -/
  | down
  /-- before `GetRequestWithRev` -/
  | starting
  /-- in `WaitRequest`, having looked at everything up to `pos` -/
  | waiting (pos : Nat)
  /-- a request was obtained and is not yet compared with the statuses -/
  | examining (job : Job)
  /-- `UpdateAborted` was true: about to put the own status as aborted -/
  | recordAbort (job : Job) (st : UpdateStatus)
  /-- about to put the first status of `update` -/
  | entering (job : Job)
  /-- in `StatusWatcher.Watch`, between two events -/
  | watching (job : Job) (hd : Handler)
  /-- inside `RunStep` -/
  | running (job : Job) (hd : Handler)
  /-- `RunStep` succeeded: about to report the next step -/
  | advancing (job : Job) (hd : Handler)
  /-- the final `RunStep` succeeded: about to report completion -/
  | completing (job : Job) (hd : Handler)
  /-- `RunStep` failed: `runStep` is about to report it -/
  | failing (job : Job) (hd : Handler) (msg : String)
  /-- a handler failed: `registerAbort` is about to report it -/
  | aborting (job : Job) (hd : Handler) (msg : String)
  /-- in `RestartEtcd`, which always ends the process -/
  | restarting (job : Job)
  deriving DecidableEq

structure Worker where
  version : String
  phase : Phase
  deriving DecidableEq

/-- The answer of `PutStatus`: an error may come with or without the write. -/
inductive PutResult where
  | ok
  | failed (applied : Bool) (msg : String)
  deriving DecidableEq

def PutResult.applied : PutResult → Bool
  | .failed false _ => false
  | _ => true

inductive WorkerAction where
  | start (version : String)
  | exit
  | getRequest
  | receiveRequest
  | examine
  | putStatus (result : PutResult)
  | receiveEvent
  | watchError (msg : String)
  | runStepDone (result : Except String Unit)
  deriving DecidableEq

/-- Calls and successful returns of `RunStep`, by server, mod revision of the request
and step. They are recorded for the statements only. -/
inductive StepEvent where
  | began (lrn : Int) (request : Nat) (step : Nat)
  | finished (lrn : Int) (request : Nat) (step : Nat)
  deriving DecidableEq, Repr

/-- `handleCurrent`: true ends the watch. -/
def handleCurrent (req : UpdateRequest) : Except String Bool :=
  if req.stop then .ok true else .error "unexpected request"

/-- `handleWorkerStatus` up to the call of `runStep`: the new barrier, and whether
`runStep` is called. -/
def handleWorkerStatus (req : UpdateRequest) (hd : Handler) (lrn : Int) (st : UpdateStatus) :
    Except String (Barrier × Bool) :=
  if !req.isMember lrn then .ok (hd.barrier, false)
  else if st.version != req.version then
    .error ("unexpected version in worker status: " ++ st.version)
  else if st.cond == .abort then
    .error ("other boot server failed to update: " ++ toString lrn)
  else if st.step != hd.step then
    .error ("unexpected step in worker status: " ++ toString st.step)
  else if st.cond == .complete then
    .error ("other boot server reports completion: " ++ toString lrn)
  else .ok (hd.barrier.check lrn)

/-- The loop body of `Run` once a request is known and the statuses are read. -/
def examineRequest (lrn : Int) (version : String) (job : Job) (statuses : Statuses) : Phase :=
  if job.req.stop then .waiting job.rev
  else if !job.req.isMember lrn then .waiting job.rev
  else if version != job.req.version then
    -- `UpdateNeco` installs the requested package and the old process stops
    .down
  else if updateAborted job.req.version lrn statuses then
    match statuses.lookup lrn with
    | some myst => .recordAbort job { myst with cond := .abort }
    | none => .waiting job.rev
  else if updateCompleted job.req.version job.req.servers statuses then .waiting job.rev
  else .entering job

/-- The status a phase is about to put, with the request it is put for. -/
def Phase.pending : Phase → Option (Job × UpdateStatus)
  | .recordAbort job st => some (job, st)
  | .entering job => some (job, ⟨job.req.version, 1, .running, ""⟩)
  | .advancing job hd => some (job, ⟨job.req.version, hd.step, .running, ""⟩)
  | .completing job hd => some (job, ⟨job.req.version, hd.step, .complete, ""⟩)
  | .failing job hd msg => some (job, ⟨job.req.version, hd.step, .abort, msg⟩)
  | .aborting job hd msg => some (job, ⟨job.req.version, hd.step, .abort, msg⟩)
  | _ => none

/-- Where the process stands when `PutStatus` has answered. -/
def Phase.afterPut : Phase → PutResult → Phase
  | .recordAbort job _, .ok => .waiting job.rev
  | .entering job, .ok => .watching job ⟨1, newBarrier job.req.servers, job.modRev⟩
  | .advancing job hd, .ok => .watching job hd
  | .completing job _, .ok => .restarting job
  | .advancing job hd, .failed _ msg => .aborting job hd msg
  | .completing job hd, .failed _ msg => .aborting job hd msg
  -- the error of this put is only logged; the handler returns the error of `RunStep`
  | .failing job hd msg, _ => .aborting job hd msg
  | _, _ => .down

/-- The watcher's treatment of one change after the position of `hd`. -/
def watchChange (job : Job) (hd : Handler) : Change → Phase
  | .putRequest req | .putReconfigureRequest req =>
    match handleCurrent req with
    | .ok _ => .waiting job.rev
    | .error msg => .aborting job { hd with pos := hd.pos + 1 } msg
  | .putStatus lrn st _ =>
    match handleWorkerStatus job.req hd lrn st with
    | .error msg => .aborting job { hd with pos := hd.pos + 1 } msg
    | .ok (barrier, false) => .watching job { hd with barrier := barrier, pos := hd.pos + 1 }
    | .ok (barrier, true) => .running job { hd with barrier := barrier, pos := hd.pos + 1 }
  | _ => .watching job { hd with pos := hd.pos + 1 }

/-- `RunStep` has begun when the watcher has moved on to `running`. -/
def beganEvents (lrn : Int) : Phase → List StepEvent
  | .running job hd => [.began lrn job.modRev hd.step]
  | _ => []

/-- `runStep` after a successful `RunStep`. -/
def afterRunStep (final : Nat) (job : Job) (hd : Handler) : Phase :=
  if hd.step != final then
    .advancing job { hd with step := hd.step + 1, barrier := newBarrier job.req.servers }
  else .completing job hd

/-- One action of the worker on server `lrn`: its next state, the transaction it
commits and the calls of `RunStep` it makes. -/
def workerStep (final : Nat) (h : List Change) (lrn : Int) (w : Worker) :
    WorkerAction → Option (Worker × List Change × List StepEvent)
  | .start version =>
    match w.phase with
    | .down => some (⟨version, .starting⟩, [], [])
    | _ => none
  | .exit =>
    match w.phase with
    | .down => none
    | _ => some ({ w with phase := .down }, [], [])
  | .getRequest =>
    match w.phase with
    | .starting =>
      match (store h).current with
      | none => some ({ w with phase := .waiting h.length }, [], [])
      | some (req, modRev) => some ({ w with phase := .examining ⟨req, modRev, h.length⟩ }, [], [])
    | _ => none
  | .receiveRequest =>
    match w.phase with
    | .waiting pos =>
      match h[pos]? with
      | none => none
      | some c =>
        match c.request? with
        | some req => some ({ w with phase := .examining ⟨req, pos + 1, pos + 1⟩ }, [], [])
        | none => some ({ w with phase := .waiting (pos + 1) }, [], [])
    | _ => none
  | .examine =>
    match w.phase with
    | .examining job =>
      some ({ w with phase := examineRequest lrn w.version job (store h).statuses }, [], [])
    | _ => none
  | .putStatus result =>
    match w.phase.pending with
    | none => none
    | some (job, st) =>
      let put := Change.putStatus lrn st job.modRev
      let committed := match result with
        | .failed false _ => []
        | _ => [put]
      some ({ w with phase := w.phase.afterPut result }, committed, [])
  | .receiveEvent =>
    match w.phase with
    | .watching job hd =>
      match h[hd.pos]? with
      | none => none
      | some c =>
        let next := watchChange job hd c
        some ({ w with phase := next }, [], beganEvents lrn next)
    | _ => none
  | .watchError msg =>
    match w.phase with
    | .watching job hd => some ({ w with phase := .aborting job hd msg }, [], [])
    | _ => none
  | .runStepDone result =>
    match w.phase with
    | .running job hd =>
      match result with
      | .ok _ =>
        some ({ w with phase := afterRunStep final job hd }, [],
          [.finished lrn job.modRev hd.step])
      | .error msg => some ({ w with phase := .failing job hd msg }, [], [])
    | _ => none

end Neco
