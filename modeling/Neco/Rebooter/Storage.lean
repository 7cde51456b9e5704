import Neco.Lib.Program
import Mathlib.Data.List.Basic

/-!
# The reboot list and CKE's reboot queue

The keys of neco-rebooter in etcd and the reboot queue of CKE, with the storage functions
that the controller and the commands call. A compare-and-swap function takes its `Get` and
its `Txn` as separate steps and starts again when the `Txn` fails.

Every write transaction may commit or not and its caller may then never hear of it; both
are covered by a caller that stops before or after the step, so a call has no reply for a
failure of etcd itself.
-/

namespace Neco.Rebooter

inductive RebootListEntryStatus
  | pending
  | queued
  | cancelled
deriving DecidableEq, Repr

structure RebootListEntry where
  index : Int
  node : String
  group : String
  rebootTime : String
  status : RebootListEntryStatus
deriving DecidableEq, Repr

/-- The status of an entry of CKE's reboot queue. -/
inductive RebootStatus
  | queued
  | draining
  | rebooting
  | cancelled
deriving DecidableEq, Repr

/-- An entry of CKE's reboot queue, with the fields that neco-rebooter looks at. -/
structure RebootQueueEntry where
  index : Int
  node : String
  status : RebootStatus
  drainBackOffCount : Nat
deriving DecidableEq, Repr

/-- `cke.NewRebootQueueEntry`; the index is given when the entry is registered. -/
def newRebootQueueEntry (node : String) : RebootQueueEntry := ⟨0, node, .queued, 0⟩

/-! ### The stores -/

/-- A value of etcd with the revision of its last change. -/
structure Versioned (α : Type) where
  value : α
  modRevision : Nat
deriving DecidableEq, Repr

/-- An entry of the reboot queue and, as a ghost, the list entry it was registered for. -/
structure Registered where
  entry : RebootQueueEntry
  origin : RebootListEntry
deriving DecidableEq, Repr

/-- Neither cancelled nor deleted. -/
def Registered.active (r : Registered) : Bool := r.entry.status != .cancelled

inductive Writer
  | controller
  | user
deriving DecidableEq, Repr

/-- What happened to the list and to the queue, recorded as a ghost. -/
inductive Event
  | added (e : RebootListEntry)
  | updated (writer : Writer) (e : RebootListEntry)
  | removed (index : Int)
  | registered (r : Registered)
  /-- CKE deleted an entry that nobody had cancelled: it has rebooted the node. -/
  | rebooted (node : String)
  /-- CKE deleted a cancelled entry. -/
  | discarded (node : String)
deriving DecidableEq, Repr

structure Store where
  revision : Nat
  isEnabled : Option Bool
  /-- The keys under `reboot-list/` in ascending order. -/
  rebootList : List (Versioned RebootListEntry)
  writeIndex : Option (Versioned Int)
  processingGroup : Option (Versioned String)
  leaderKey : Option Nat
  queue : List Registered
  queueIndex : Int
  events : List Event
deriving DecidableEq, Repr

def Store.empty : Store := ⟨0, none, [], none, none, none, [], 0, []⟩

namespace Store

/-- `GetRebootListEntries`. -/
def list (s : Store) : List RebootListEntry := s.rebootList.map (·.value)

def find (s : Store) (index : Int) : Option (Versioned RebootListEntry) :=
  s.rebootList.find? (·.value.index = index)

/-- The modification revision of a list entry's key; 0 when the key does not exist. -/
def modRevision (s : Store) (index : Int) : Nat := (s.find index).elim 0 (·.modRevision)

/-- `GetProcessingGroup`. -/
def group (s : Store) : String := s.processingGroup.elim "" (·.value)

def groupRevision (s : Store) : Nat := s.processingGroup.elim 0 (·.modRevision)

def nextIndex (s : Store) : Int := s.writeIndex.elim 0 (·.value)

def indexRevision (s : Store) : Nat := s.writeIndex.elim 0 (·.modRevision)

/-- Puts an entry under its key. -/
def putKey (v : Versioned RebootListEntry) :
    List (Versioned RebootListEntry) → List (Versioned RebootListEntry)
  | [] => [v]
  | x :: rest =>
    if v.value.index < x.value.index then v :: x :: rest
    else if v.value.index = x.value.index then v :: rest
    else x :: putKey v rest

/-- The write of `UpdateRebootListEntry`. -/
def putEntry (s : Store) (writer : Writer) (e : RebootListEntry) : Store :=
  { s with
    revision := s.revision + 1
    rebootList := putKey ⟨e, s.revision + 1⟩ s.rebootList
    events := s.events ++ [.updated writer e] }

/-- The write of `RegisterRebootListEntry`. -/
def appendEntry (s : Store) (e : RebootListEntry) (index : Int) : Store :=
  { s with
    revision := s.revision + 1
    rebootList := putKey ⟨{ e with index := index }, s.revision + 1⟩ s.rebootList
    writeIndex := some ⟨index + 1, s.revision + 1⟩
    events := s.events ++ [.added { e with index := index }] }

/-- The write of `RemoveRebootListEntry`. -/
def removeEntry (s : Store) (index : Int) : Store :=
  { s with
    revision := s.revision + 1
    rebootList := s.rebootList.filter (·.value.index ≠ index)
    events := s.events ++ [.removed index] }

/-- The write of `UpdateProcessingGroup`. -/
def putGroup (s : Store) (group : String) : Store :=
  { s with
    revision := s.revision + 1
    processingGroup := some ⟨group, s.revision + 1⟩ }

/-- `EnableNecoRebooter`. -/
def enable (s : Store) (flag : Bool) : Store :=
  { s with
    revision := s.revision + 1
    isEnabled := some flag }

/-- `cke.Storage.RegisterRebootsEntry`: appends a fresh entry and checks nothing. -/
def register (s : Store) (q : RebootQueueEntry) (origin : RebootListEntry) : Store :=
  { s with
    queue := s.queue ++ [⟨{ q with index := s.queueIndex }, origin⟩]
    queueIndex := s.queueIndex + 1
    events := s.events ++ [.registered ⟨{ q with index := s.queueIndex }, origin⟩] }

/-- Changes the contents of one queue entry. -/
def changeQueued (s : Store) (index : Int) (f : RebootQueueEntry → RebootQueueEntry) : Store :=
  { s with queue := s.queue.map fun r => if r.entry.index = index then { r with entry := f r.entry } else r }

/-- The write of `cke.Storage.UpdateRebootsEntry`: overwrites the whole entry. -/
def putQueued (s : Store) (q : RebootQueueEntry) : Store := s.changeQueued q.index fun _ => q

/-- CKE deletes an entry of its queue. -/
def deleteQueued (s : Store) (r : Registered) : Store :=
  { s with
    queue := s.queue.filter (·.entry.index ≠ r.entry.index)
    events := s.events ++
      [if r.active then .rebooted r.entry.node else .discarded r.entry.node] }

end Store

/-! ### The storage functions as calls -/

inductive StorageError
  | notFound
  | noLeader
deriving DecidableEq, Repr

/-- What a program asks of its environment: the clock, a shuffle, and the storage functions.
`registerRebootsEntry` names as a ghost the list entry it is called for. -/
inductive Call
  | now
  | shuffle (groups : List String)
  | isNecoRebooterEnabled
  | enableNecoRebooter (flag : Bool)
  | getRebootListEntry (index : Int)
  | getRebootListEntries
  | removeRebootListEntry (leaderKey : Nat) (entry : RebootListEntry)
  | updateRebootListEntry (entry : RebootListEntry)
  | registerRebootListEntry (entry : RebootListEntry)
  | getProcessingGroup
  | updateProcessingGroup (group : String)
  | getRebootsEntries
  | registerRebootsEntry (entry : RebootQueueEntry) (origin : RebootListEntry)
  | updateRebootsEntry (entry : RebootQueueEntry)
deriving DecidableEq, Repr

@[reducible] def Reply : Call → Type
  | .now => Int
  | .shuffle _ => List String
  | .isNecoRebooterEnabled => Bool
  | .enableNecoRebooter _ => Unit
  | .getRebootListEntry _ => Except StorageError RebootListEntry
  | .getRebootListEntries => List RebootListEntry
  | .removeRebootListEntry _ _ => Except StorageError Unit
  | .updateRebootListEntry _ => Except StorageError Unit
  | .registerRebootListEntry _ => Unit
  | .getProcessingGroup => String
  | .updateProcessingGroup _ => Unit
  | .getRebootsEntries => List RebootQueueEntry
  | .registerRebootsEntry _ _ => Unit
  | .updateRebootsEntry _ => Except StorageError Unit

/-- How far the current call is: a compare-and-swap that has done its `Get` remembers the
revision, and a registration also the write index. -/
inductive Progress
  | start
  | compare (rev : Nat)
  | register (index : Int) (rev : Nat)
deriving DecidableEq, Repr

/-- What the environment chooses: the reading of the clock and the order of a shuffle. -/
structure Input where
  now : Int
  order : List String
deriving DecidableEq, Repr

inductive Outcome (c : Call)
  | reply (r : Reply c) (s : Store)
  | proceed (progress : Progress)

/-- One step of a call. -/
def serve (writer : Writer) (input : Input) (s : Store) :
    (c : Call) → Progress → Option (Outcome c)
  | .now, .start => some (.reply input.now s)
  | .shuffle groups, .start =>
    if input.order.isPerm groups then some (.reply input.order s) else none
  | .isNecoRebooterEnabled, .start => some (.reply (s.isEnabled == some true) s)
  | .enableNecoRebooter flag, .start => some (.reply () (s.enable flag))
  | .getRebootListEntry index, .start =>
    match s.find index with
    | none => some (.reply (.error .notFound) s)
    | some v => some (.reply (.ok v.value) s)
  | .getRebootListEntries, .start => some (.reply s.list s)
  | .removeRebootListEntry leaderKey entry, .start =>
    if s.leaderKey = some leaderKey then some (.reply (.ok ()) (s.removeEntry entry.index))
    else some (.reply (.error .noLeader) s)
  | .updateRebootListEntry entry, .start =>
    match s.find entry.index with
    | none => some (.reply (.error .notFound) s)
    | some v => some (.proceed (.compare v.modRevision))
  -- The data was marshalled before the loop, so a retry writes the same copy again.
  | .updateRebootListEntry entry, .compare rev =>
    if s.modRevision entry.index = rev then some (.reply (.ok ()) (s.putEntry writer entry))
    else some (.proceed .start)
  | .registerRebootListEntry _, .start =>
    some (.proceed (.register s.nextIndex s.indexRevision))
  | .registerRebootListEntry entry, .register index rev =>
    if s.indexRevision = rev then some (.reply () (s.appendEntry entry index))
    else some (.proceed .start)
  | .getProcessingGroup, .start => some (.reply s.group s)
  | .updateProcessingGroup _, .start => some (.proceed (.compare s.groupRevision))
  | .updateProcessingGroup group, .compare rev =>
    if s.groupRevision = rev then some (.reply () (s.putGroup group))
    else some (.proceed .start)
  | .getRebootsEntries, .start => some (.reply (s.queue.map (·.entry)) s)
  | .registerRebootsEntry entry origin, .start => some (.reply () (s.register entry origin))
  | .updateRebootsEntry entry, .start =>
    if s.queue.any (·.entry.index = entry.index) then
      some (.reply (.ok ()) (s.putQueued entry))
    else some (.reply (.error .notFound) s)
  | _, _ => none

end Neco.Rebooter
