import Neco.Storage.Info
import Neco.Lib.Mvcc

/-!
# The storage of the update process

What `storage` does to etcd itself: the requests and statuses are records in JSON below
`status/`, the boot servers are keys below `info/bootservers/`. A function that reads several
times may find a later state at each of its reads. Revisions are counted from the empty
store.
-/

namespace Neco.Storage

open KeyValue

abbrev Db := Database String String

/-- `json.Marshal` and `json.Unmarshal` for the records of the update process. -/
structure Codec where
  marshalRequest : UpdateRequest → String
  unmarshalRequest : String → Option UpdateRequest
  marshalStatus : UpdateStatus → String
  unmarshalStatus : String → Option UpdateStatus
  request (req : UpdateRequest) : unmarshalRequest (marshalRequest req) = some req
  status (st : UpdateStatus) : unmarshalStatus (marshalStatus st) = some st

inductive Error where
  | noLeader
  | notFound
  | notStopped
  | read (e : ReadError)
  /-- A key or a value that cannot be decoded. -/
  | invalid
  deriving DecidableEq, Repr

def Error.ofStorageError : StorageError → Error
  | .notFound => .notFound
  | .noLeader => .noLeader

def keyStatusPrefix : String := "status/"
def keyCurrent : String := "status/current"
def keyWorkerStatusPrefix : String := "status/bootservers/"
def keyContentsPrefix : String := "contents/"
def keyInfoPrefix : String := "info/"
def keyNecoRelease : String := "info/neco-release"

def keyStatus (lrn : Int) : String := keyWorkerStatusPrefix ++ itoa lrn

/-- The range of an operation `WithPrefix`. -/
def withPrefix (pre : String) (key : String) : Bool := hasPrefix key pre

variable (codec : Codec)

/-! ### Requests and statuses -/

/-- The transactions of an updater ask for the key of its leadership. -/
def guarded (db : Db) (leaderKey : String) (writes : List (Write String String)) :
    Except Error Unit × Db :=
  if (db.current.get leaderKey).isSome then (.ok (), db.commit writes) else (.error .noLeader, db)

def putRequest (db : Db) (req : UpdateRequest) (leaderKey : String) : Except Error Unit × Db :=
  guarded db leaderKey [.put keyCurrent (codec.marshalRequest req)]

def putReconfigureRequest (db : Db) (req : UpdateRequest) (leaderKey : String) :
    Except Error Unit × Db :=
  guarded db leaderKey [.put keyCurrent (codec.marshalRequest req),
    .deleteRange (withPrefix keyWorkerStatusPrefix)]

/-- `GetRequestWithRev`: the request with its mod revision, and the revision of the read, which
is returned with `ErrNotFound` too. -/
def getRequestWithRev (db : Db) : Except Error (UpdateRequest × Nat) × Nat :=
  match db.current.get keyCurrent with
  | none => (.error .notFound, db.revision)
  | some p =>
    match codec.unmarshalRequest p.value with
    | none => (.error .invalid, 0)
    | some req => (.ok (req, p.modRevision), db.revision)

def putStatus (db : Db) (lrn : Int) (st : UpdateStatus) : Db :=
  db.commit [.put (keyStatus lrn) (codec.marshalStatus st)]

def getStatus (db : Db) (lrn : Int) : Except Error UpdateStatus :=
  match db.current.get (keyStatus lrn) with
  | none => .error .notFound
  | some p =>
    match codec.unmarshalStatus p.value with
    | none => .error .invalid
    | some st => .ok st

/-- The loop of `getStatusesAt`. -/
def collectStatus (statuses : Statuses) (p : Pair String String) : Option Statuses := do
  let lrn ← lrnOfKey keyWorkerStatusPrefix p.key
  let st ← codec.unmarshalStatus p.value
  return statuses.insert lrn st

def statusesOf (s : Etcd) : Option Statuses :=
  (s.getRange (withPrefix keyWorkerStatusPrefix)).foldlM (collectStatus codec) ∅

def decoded {α : Type} (result : Option α) : Except Error α :=
  match result with
  | some a => .ok a
  | none => .error .invalid

def getStatuses (db : Db) : Except Error Statuses := decoded (statusesOf codec db.current)

def readAt (db : Db) (rev : Nat) : Except Error Etcd := (db.read rev).mapError .read

def getStatusesAt (db : Db) (rev : Nat) : Except Error Statuses := do
  decoded (statusesOf codec (← readAt db rev))

/-- One turn of `ClearStatusAndContents`: the request is read from `db₀`, the transaction meets
`db₁`. Without a result the function tries again. -/
def clearStatusAndContents (db₀ db₁ : Db) : Option (Except Error Unit) × Db :=
  match (getRequestWithRev codec db₀).1 with
  | .error e => (some (.error e), db₁)
  | .ok (req, modRev) =>
    if !req.stop then (some (.error .notStopped), db₁)
    else if db₁.current.modRevision keyCurrent = modRev then
      (some (.ok ()), db₁.commit [.deleteRange (withPrefix keyStatusPrefix),
        .deleteRange (withPrefix keyContentsPrefix)])
    else (none, db₁)

/-! ### Boot servers and releases -/

def registerBootserver (db : Db) (lrn : Int) : Db := db.commit (registration lrn)

/-- The answer is that of `Neco.deleteBootServer` on the present contents. -/
def deleteBootServer (db : Db) (lrn : Int) : Except Error Unit × Db :=
  ((Neco.deleteBootServer db.current lrn).1.mapError .ofStorageError, db.commit (deletion lrn))

def updateNecoRelease (db : Db) (version leaderKey : String) : Except Error Unit × Db :=
  guarded db leaderKey [.put keyNecoRelease version]

def releaseOf (s : Etcd) : String := (s.get keyNecoRelease).elim "" (·.value)

def getNecoRelease (db : Db) : String := releaseOf db.current

def requestOf (s : Etcd) : Except Error (Option UpdateRequest) :=
  match s.get keyCurrent with
  | none => .ok none
  | some p => (decoded (codec.unmarshalRequest p.value)).map some

/-- `NewSnapshot`: its four reads find the states `db₀` to `db₃`. -/
def newSnapshot (db₀ db₁ db₂ db₃ : Db) : Except Error Snapshot := do
  let request ← requestOf codec db₀.current
  let rev := db₀.revision
  let servers ← decoded (snapshotServers (← readAt db₁ rev))
  let latest := releaseOf (← readAt db₂ rev)
  let statuses ← getStatusesAt codec db₃ rev
  return ⟨rev, request, statuses, latest, servers⟩

/-! ### Watchers -/

/-- What a handler of `StatusWatcher` is called with. -/
inductive Notice where
  | request (req : UpdateRequest)
  | status (lrn : Int) (st : UpdateStatus)
  deriving DecidableEq, Repr

/-- A status with the LRN of its key. -/
def decodeStatus (key value : String) : Option (Int × UpdateStatus) := do
  return (← lrnOfKey keyWorkerStatusPrefix key, ← codec.unmarshalStatus value)

/-- `StatusWatcher.dispatch`. -/
def dispatch (key value : String) : Option Notice :=
  if key = keyCurrent then (codec.unmarshalRequest value).map .request
  else (decodeStatus codec key value).map fun (lrn, st) => .status lrn st

/-- `Watch` of etcd from the revision after `rev` on. -/
def watch (db : Db) (range : String → Bool) (rev : Nat) :
    Except Error (List (Nat × Event String String)) :=
  (db.watch range rev).mapError .read

/-- What is left when deletions are filtered out. -/
def puts (events : List (Nat × Event String String)) : List (Nat × String × String) :=
  events.filterMap fun (r, e) => e.put?.map (r, ·)

/-- The calls of the handlers of `StatusWatcher.Watch`, with their revisions; `none` is an event
that cannot be decoded. -/
def statusWatcher (db : Db) (rev : Nat) : Except Error (List (Nat × Option Notice)) := do
  let events ← watch db (withPrefix keyStatusPrefix) rev
  return (puts events).map fun (r, key, value) => (r, dispatch codec key value)

/-- The calls of the handler of `WorkerWatcher.Watch`. -/
def workerWatcher (db : Db) (rev : Nat) :
    Except Error (List (Nat × Option (Int × UpdateStatus))) := do
  let events ← watch db (withPrefix keyWorkerStatusPrefix) rev
  return (puts events).map fun (r, key, value) => (r, decodeStatus codec key value)

/-- `WaitRequest`: the first put of a request after `rev`. -/
def waitRequest (db : Db) (rev : Nat) : Except Error (Option (Nat × Option UpdateRequest)) := do
  let events ← watch db (· = keyCurrent) rev
  return (puts events).head?.map fun (r, _, value) => (r, codec.unmarshalRequest value)

/-- Whether `WaitRequestDeletion` returns: puts are filtered out. -/
def waitRequestDeletion (db : Db) (rev : Nat) : Except Error Bool := do
  let events ← watch db (· = keyCurrent) rev
  return events.any fun (_, e) => e.put?.isNone

/-- Whether `WaitInfo` returns. -/
def waitInfo (db : Db) (rev : Nat) : Except Error Bool := do
  let events ← watch db (withPrefix keyInfoPrefix) rev
  return !events.isEmpty

end Neco.Storage
