import Neco.Rebooter.Storage
import Mathlib.Data.List.Sort

/-!
# The controller of neco-rebooter

`runOnce` and the functions it is made of, as programs over the storage calls. Go passes
the entries that a run has read by pointer: the model keeps them as values, an entry is
identified by its index, and the one place where a changed entry is read again (the second
`collectEntries` after a stuck queue) gets the changes through `Memory`.
-/

namespace Neco.Rebooter

/-- Why a program stopped early: an error of the storage, a dereferenced nil pointer, or an
error that a command reports itself. -/
inductive Failure
  | storage (e : StorageError)
  | nilPointer
  | command (message : String)
deriving DecidableEq, Repr

abbrev Prog := Program.Prog Call Reply Failure

/-- Makes a call. -/
abbrev ask (c : Call) : Prog (Reply c) := Program.Prog.ask c

/-- `if err != nil { return err }`. -/
def orFail {α : Type} : Except StorageError α → Prog α
  | .ok a => .ret a
  | .error e => .fail (.storage e)

def updateRebootListEntry (entry : RebootListEntry) : Prog Unit := do
  orFail (← ask (.updateRebootListEntry entry))

def removeRebootListEntry (leaderKey : Nat) (entry : RebootListEntry) : Prog Unit := do
  orFail (← ask (.removeRebootListEntry leaderKey entry))

def updateRebootsEntry (entry : RebootQueueEntry) : Prog Unit := do
  orFail (← ask (.updateRebootsEntry entry))

/-! ### Schedules -/

/-- A cron schedule in the time zone of the configuration: the next activation after an
instant, both in nanoseconds. -/
structure Schedule where
  next : Int → Int

structure RebootTime where
  deny : List Schedule
  allow : List Schedule

/-- The configuration of a controller. -/
structure Controller where
  rebootTimes : List (String × RebootTime)

def second : Int := 1000000000

/-- The schedule of `* * * * *`: the next full minute. -/
def nextFullMinute : Schedule := ⟨fun now => (now / (second * 60) + 1) * (second * 60)⟩

/-- Every call reads the clock anew. -/
def isWithinSchedule (schedule : Schedule) : Prog Bool := do
  let now ← ask .now
  return decide (schedule.next now - now ≤ second * 60)

def Controller.isRebootable (c : Controller) (entry : RebootListEntry) : Prog Bool :=
  match c.rebootTimes.lookup entry.rebootTime with
  | none => return false
  | some rebootTime => do
    if ← rebootTime.deny.anyM isWithinSchedule then
      return false
    rebootTime.allow.anyM isWithinSchedule

/-! ### Groups -/

/-- `slices.Compact`: drops repeated neighbours. -/
def compact : List String → List String
  | [] => []
  | [x] => [x]
  | x :: y :: rest => if x = y then compact (y :: rest) else x :: compact (y :: rest)

def sortStrings (groups : List String) : List String := groups.insertionSort (· ≤ ·)

def getAllGroups (rebootListEntries : List RebootListEntry) : Prog (List String) :=
  ask (.shuffle (compact (sortStrings (rebootListEntries.map (·.group)))))

def isEqualContents (slice1 slice2 : List String) : Bool :=
  slice1.length == slice2.length && sortStrings slice1 == sortStrings slice2

/-- `slices.Index`: -1 when the group does not occur. -/
def indexOf (groups : List String) (group : String) : Int :=
  (groups.idxOf? group).elim (-1) fun i => i

def cycleSlices (slice : List String) (offset : Int) : List String :=
  if offset < 0 then slice
  else if slice.length = 0 then slice
  else if slice.length ≤ offset then slice
  else slice.drop offset.toNat ++ slice.take offset.toNat

def Controller.findRebootableNodeInGroup (c : Controller)
    (rebootListEntries : List RebootListEntry) (group : String) : Prog (List RebootListEntry) :=
  rebootListEntries.foldlM (fun nodes entry => do
    if entry.group = group then
      if ← c.isRebootable entry then
        return nodes ++ [entry]
      return nodes
    return nodes) []

/-- The groups with a rebootable entry, in the order of the rotation. -/
def Controller.candidates (c : Controller) (rebootListEntries : List RebootListEntry)
    (allGroupsCycled : List String) : Prog (List String) :=
  allGroupsCycled.foldlM (fun candidate group => do
    let nodes ← c.findRebootableNodeInGroup rebootListEntries group
    if nodes.length ≠ 0 then
      return candidate ++ [group]
    return candidate) []

/-! ### Matching the list with the queue -/

def findRebootQueueEntryFromRebootListEntry (rebootQueueEntries : List RebootQueueEntry)
    (rebootListEntry : RebootListEntry) : Option RebootQueueEntry :=
  rebootQueueEntries.find? (·.node = rebootListEntry.node)

def findRebootListEntryFromRebootQueueEntry (rebootListEntries : List RebootListEntry)
    (rebootQueueEntry : RebootQueueEntry) : Option RebootListEntry :=
  rebootListEntries.find? (·.node = rebootQueueEntry.node)

structure EntrySet where
  rebootListEntry : Option RebootListEntry
  rebootQueueEntry : Option RebootQueueEntry

structure EntriesCollection where
  completedEntry : List RebootListEntry
  timedOutEntry : List EntrySet
  newEntry : List RebootListEntry
  cancelledEntry : List EntrySet
  queuedEntry : List EntrySet
  orphanedEntry : List EntrySet

def EntriesCollection.empty : EntriesCollection := ⟨[], [], [], [], [], []⟩

/-- The body of the first loop of `collectEntries`. -/
def Controller.collectListEntry (c : Controller) (rebootQueueEntries : List RebootQueueEntry)
    (processingGroup : String) (collection : EntriesCollection) (entry : RebootListEntry) :
    Prog EntriesCollection :=
  let rqEntry := findRebootQueueEntryFromRebootListEntry rebootQueueEntries entry
  match entry.status with
  | .cancelled =>
    return { collection with
      cancelledEntry := collection.cancelledEntry ++ [⟨some entry, rqEntry⟩] }
  | .pending =>
    -- avoid the duplicating of entry
    if rqEntry.isSome then return collection
    else if entry.group = processingGroup then do
      if ← c.isRebootable entry then
        return { collection with newEntry := collection.newEntry ++ [entry] }
      return collection
    else return collection
  | .queued =>
    match rqEntry with
    | none => return { collection with completedEntry := collection.completedEntry ++ [entry] }
    | some rq => do
      let collection := { collection with
        queuedEntry := collection.queuedEntry ++ [⟨some entry, some rq⟩] }
      let rebootable ← c.isRebootable entry
      if !rebootable && rq.status != .rebooting then
        return { collection with
          timedOutEntry := collection.timedOutEntry ++ [⟨some entry, some rq⟩] }
      return collection

/-- The body of the second loop of `collectEntries`. -/
def collectQueueEntry (rebootListEntries : List RebootListEntry) (collection : EntriesCollection)
    (rqEntry : RebootQueueEntry) : EntriesCollection :=
  if rqEntry.status = .cancelled then collection
  else
    match findRebootListEntryFromRebootQueueEntry rebootListEntries rqEntry with
    | none => { collection with
        orphanedEntry := collection.orphanedEntry ++ [⟨none, some rqEntry⟩] }
    | some rlEntry =>
      if rlEntry.status = .pending then
        { collection with
          orphanedEntry := collection.orphanedEntry ++ [⟨some rlEntry, some rqEntry⟩] }
      else collection

def Controller.collectEntries (c : Controller) (rebootListEntries : List RebootListEntry)
    (rebootQueueEntries : List RebootQueueEntry) (processingGroup : String) :
    Prog EntriesCollection := do
  let collection ← rebootListEntries.foldlM
    (c.collectListEntry rebootQueueEntries processingGroup) .empty
  return rebootQueueEntries.foldl (collectQueueEntry rebootListEntries) collection

/-! ### Acting on the entries -/

/-- `if entry.rebootQueueEntry != nil`: cancels the queue entry. -/
def cancelRebootsEntry : Option RebootQueueEntry → Prog Unit
  | none => return ()
  | some rq => updateRebootsEntry { rq with status := .cancelled }

def removeCancelledEntry (leaderKey : Nat) (entries : List EntrySet) : Prog Unit :=
  entries.foldlM (fun _ entry => do
    cancelRebootsEntry entry.rebootQueueEntry
    match entry.rebootListEntry with
    | none => .fail .nilPointer
    | some e => removeRebootListEntry leaderKey e) ()

def removeCompletedEntry (leaderKey : Nat) (entries : List RebootListEntry) : Prog Unit :=
  entries.foldlM (fun _ entry => removeRebootListEntry leaderKey entry) ()

/-- The entries of a run, as the pointers of the source see them. -/
structure Memory where
  list : List RebootListEntry
  queue : List RebootQueueEntry
deriving DecidableEq, Repr

/-- `entry.rebootListEntry.Status = status`, for every holder of the pointer. -/
def Memory.setListStatus (m : Memory) (index : Int) (status : RebootListEntryStatus) : Memory :=
  { m with list := m.list.map fun x => if x.index = index then { x with status := status } else x }

/-- `entry.rebootQueueEntry.Status = status`, for every holder of the pointer. -/
def Memory.setQueueStatus (m : Memory) (index : Int) (status : RebootStatus) : Memory :=
  { m with queue := m.queue.map fun x => if x.index = index then { x with status := status } else x }

def dequeueAndCancelEntry (entries : List EntrySet) (memory : Memory) : Prog Memory :=
  entries.foldlM (fun memory entry =>
    match entry.rebootListEntry with
    | none => .fail .nilPointer
    | some e => do
      updateRebootListEntry { e with status := .pending }
      let memory := memory.setListStatus e.index .pending
      match entry.rebootQueueEntry with
      | none => return memory
      | some rq => do
        updateRebootsEntry { rq with status := .cancelled }
        return memory.setQueueStatus rq.index .cancelled) memory

def removeOrphanedEntry (entries : List EntrySet) : Prog Unit :=
  entries.foldlM (fun _ entry => cancelRebootsEntry entry.rebootQueueEntry) ()

def addRebootListEntry (entries : List RebootListEntry) : Prog Unit :=
  entries.foldlM (fun _ entry => do
    let entry := { entry with status := .queued }
    ask (.registerRebootsEntry (newRebootQueueEntry entry.node) entry)
    updateRebootListEntry entry) ()

/-- Moves to the first candidate other than the processing group. -/
def moveToNextGroup (candidate : List String) (processingGroup : String) : Prog String :=
  match candidate.find? (· ≠ processingGroup) with
  | none => return processingGroup
  | some group => do
    ask (.updateProcessingGroup group)
    return group

/-! ### One run -/

def isStuck (rebootQueueEntries : List RebootQueueEntry) : Bool :=
  rebootQueueEntries.all fun rq => !(rq.status == .rebooting || rq.drainBackOffCount == 0)

/-- The first half of `runOnce`: moves on from an empty or a stuck queue. -/
def Controller.chooseGroup (c : Controller) (enabled : Bool) (memory : Memory)
    (candidate : List String) (processingGroup : String) : Prog (Memory × String) :=
  if candidate.length ≠ 0 ∧ enabled = true then
    if memory.queue.length ≠ 0 then
      if isStuck memory.queue then do
        let collection ← c.collectEntries memory.list memory.queue processingGroup
        let memory ← dequeueAndCancelEntry collection.queuedEntry memory
        let processingGroup ← moveToNextGroup candidate processingGroup
        return (memory, processingGroup)
      else return (memory, processingGroup)
    else do
      let processingGroup ← moveToNextGroup candidate processingGroup
      return (memory, processingGroup)
  else return (memory, processingGroup)

/-- The second half of `runOnce`: acts on the entries; cancelled and orphaned entries are
dealt with alone. -/
def processEntries (leaderKey : Nat) (enabled : Bool) (memory : Memory)
    (collection : EntriesCollection) : Prog Unit :=
  if collection.cancelledEntry.length > 0 then
    removeCancelledEntry leaderKey collection.cancelledEntry
  else if collection.orphanedEntry.length > 0 then
    removeOrphanedEntry collection.orphanedEntry
  else do
    removeCompletedEntry leaderKey collection.completedEntry
    if enabled then
      addRebootListEntry collection.newEntry
      let _ ← dequeueAndCancelEntry collection.timedOutEntry memory
    else
      let _ ← dequeueAndCancelEntry collection.queuedEntry memory

/-- One run of the controller. It returns the new value of the package variable `allGroups`,
which keeps the shuffled groups between runs. -/
def Controller.runOnce (c : Controller) (leaderKey : Nat) (allGroups : List String) :
    Prog (List String) := do
  let enabled ← ask .isNecoRebooterEnabled
  let rebootListEntries ← ask .getRebootListEntries
  let rebootQueueEntries ← ask .getRebootsEntries
  let processingGroup ← ask .getProcessingGroup
  let currentAllGroups ← getAllGroups rebootListEntries
  let allGroups := if isEqualContents allGroups currentAllGroups then allGroups
    else currentAllGroups
  let allGroupsCycled := cycleSlices allGroups (indexOf allGroups processingGroup)
  let candidate ← c.candidates rebootListEntries allGroupsCycled
  let (memory, processingGroup) ←
    c.chooseGroup enabled ⟨rebootListEntries, rebootQueueEntries⟩ candidate processingGroup
  let collection ← c.collectEntries memory.list memory.queue processingGroup
  processEntries leaderKey enabled memory collection
  return allGroups

end Neco.Rebooter
