import Neco.Rebooter.Answers
import Neco.Rebooter.Collect
import Neco.Rebooter.System

/-!
# What a run of the controller does

`Permits` says in which states `runOnce` makes each of its calls. It is proved once, for
every interleaving with the others, and the properties of the system are derived from it.
Nobody else marks a list entry as queued, registers a queue entry or moves the processing
group, so what a run has read bounds what it will find.
-/

namespace Neco.Rebooter

open Program

/-- The stores, and what the run in progress has seen of them. -/
structure View where
  store : Store
  seen : Observed

namespace Observed

/-- The list as the run has read it. -/
def entries (o : Observed) : List RebootListEntry := o.list.getD []

/-- The queue as the run has read it. -/
def queueEntries (o : Observed) : List RebootQueueEntry := o.queue.getD []

end Observed

/-! ### The calls of a run -/

/-- A queue entry is registered for an entry that was read as pending, belongs to the
processing group and has no queue entry. Every active queue entry was registered in this
run, or belongs to a queued entry of a run that has kept its group. -/
structure MayRegister (v : View) (q : RebootQueueEntry) (origin : RebootListEntry) : Prop where
  new : q = newRebootQueueEntry origin.node
  status : origin.status = .queued
  group : v.store.group = origin.group
  read : { origin with status := .pending } ∈ v.seen.entries
  once : ∀ n ∈ v.seen.registered, n.index ≠ origin.index
  alone : ∀ r ∈ v.store.queue, r.active = true → r.entry.node = origin.node →
    r.origin ∈ v.seen.registered
  grouped : ∀ r ∈ v.store.queue, r.active = true → r.origin ∈ v.seen.registered ∨
    v.seen.moved = false ∧ ∃ x ∈ v.seen.entries, x.status = .queued ∧ x.node = r.entry.node

/-- A list entry becomes queued right after its registration, and pending when it was read
as queued. -/
def MayUpdate (v : View) (e : RebootListEntry) : Prop :=
  e.status = .queued ∧ v.seen.enqueueing = some e ∧ e ∈ v.seen.registered ∧
      { e with status := .pending } ∈ v.seen.entries ∨
    e.status = .pending ∧ { e with status := .queued } ∈ v.seen.entries

/-- A queue entry is cancelled only when the list has no queued entry of its node, up to
nodes for which the run has read several entries. -/
structure MayCancel (v : View) (q : RebootQueueEntry) : Prop where
  status : q.status = .cancelled
  node : ∀ r ∈ v.store.queue, r.active = true → r.entry.index = q.index → r.entry.node = q.node
  several : ∀ x ∈ v.store.list, x.status = .queued → x.node = q.node →
    x ∈ v.seen.entries ∧ ∃ y ∈ v.seen.entries, y.node = x.node ∧ y.index ≠ x.index

/-- An entry is removed when it was read as cancelled, or as queued without a queue entry. -/
def MayRemove (v : View) (e : RebootListEntry) : Prop :=
  e ∈ v.seen.entries ∧
    (e.status = .cancelled ∨ e.status = .queued ∧ ∀ q ∈ v.seen.queueEntries, q.node ≠ e.node)

/-- The group moves only when no queued entry of the list has an active queue entry. -/
structure MayMove (v : View) : Prop where
  first : v.seen.registered = []
  clear : ∀ r ∈ v.store.queue, r.active = true → ∀ x ∈ v.store.list, x.status = .queued →
    x.node ≠ r.entry.node

/-- The states in which a run makes a call. It reads the list and then the queue, and it
writes only after both. -/
def Permits (v : View) : Call → Prop
  | .now => True
  | .shuffle _ => True
  | .isNecoRebooterEnabled => True
  | .getProcessingGroup => True
  | .getRebootListEntries => v.seen = .nothing
  | .getRebootsEntries => ∃ list, v.seen = { Observed.nothing with list := some list }
  | .updateProcessingGroup _ => v.seen.queue.isSome = true ∧ MayMove v
  | .registerRebootsEntry q origin => v.seen.queue.isSome = true ∧ MayRegister v q origin
  | .updateRebootListEntry e => v.seen.queue.isSome = true ∧ MayUpdate v e
  | .updateRebootsEntry q => v.seen.queue.isSome = true ∧ MayCancel v q
  | .removeRebootListEntry _ e => v.seen.queue.isSome = true ∧ MayRemove v e
  | _ => False

/-! ### The environment of a run -/

/-- What the others do: they add no queued list entry and no active queue entry, and they
leave the processing group and the records of the run alone. -/
structure Rely (v w : View) : Prop where
  seen : w.seen = v.seen
  group : w.store.group = v.store.group
  queueIndex : v.store.queueIndex ≤ w.store.queueIndex
  queued : ∀ x ∈ w.store.list, x.status = .queued → x ∈ v.store.list
  active : ∀ r ∈ w.store.queue, r.active = true → ∃ r' ∈ v.store.queue, r'.active = true ∧
    r'.entry.index = r.entry.index ∧ r'.entry.node = r.entry.node ∧ r'.origin = r.origin

def world : World Call Reply View where
  answers c v r w := v.store.WellFormed ∧ Answered .controller v.store c r w.store ∧
    w.seen = v.seen.note c r
  rely := Rely

/-- How far a run is: what it has read, what it holds in memory, and what it has done. -/
structure Stage where
  list : List RebootListEntry
  queue : List RebootQueueEntry
  memory : Memory
  group : String
  registered : List RebootListEntry
  moved : Bool

/-- What holds between the parts of a stage, whatever the others do. -/
structure Stage.Proper (k : Stage) : Prop where
  sorted : k.list.Pairwise fun x y => x.index < y.index
  queueSorted : k.queue.Pairwise fun q q' => q.index < q'.index
  indices : k.memory.list.map (·.index) = k.list.map (·.index)
  /-- An entry is as it was read, or it was queued and has been dequeued. -/
  entries : ∀ x ∈ k.memory.list, x ∈ k.list ∨
    x.status = .pending ∧ { x with status := .queued } ∈ k.list ∧ ∃ q ∈ k.queue, q.node = x.node
  keys : k.memory.queue.map (fun q => (q.index, q.node)) = k.queue.map fun q => (q.index, q.node)
  apart : ∀ n ∈ k.registered, ∀ q ∈ k.queue, q.node ≠ n.node

/-- What a run at stage `k` knows about the stores. -/
structure Knows (k : Stage) (v : View) : Prop where
  list : v.seen.list = some k.list
  queue : v.seen.queue = some k.queue
  registered : v.seen.registered = k.registered
  moved : v.seen.moved = k.moved
  group : v.store.group = k.group
  bound : ∀ q ∈ k.queue, q.index < v.store.queueIndex
  queued : ∀ x ∈ v.store.list, x.status = .queued → x ∈ k.memory.list ∨ x ∈ k.registered
  active : ∀ r ∈ v.store.queue, r.active = true →
    (∃ q ∈ k.memory.queue, q.index = r.entry.index ∧ q.node = r.entry.node ∧
      q.status ≠ .cancelled) ∨
    r.origin ∈ k.registered ∧ ∀ q ∈ k.queue, q.index ≠ r.entry.index

theorem Knows.stable (k : Stage) : world.Stable (Knows k) := by
  intro v w knows rely
  constructor
  · rw [rely.seen, knows.list]
  · rw [rely.seen, knows.queue]
  · rw [rely.seen, knows.registered]
  · rw [rely.seen, knows.moved]
  · rw [rely.group, knows.group]
  · exact fun q member => lt_of_lt_of_le (knows.bound q member) rely.queueIndex
  · exact fun x member status => knows.queued x (rely.queued x member status) status
  · intro r member active
    obtain ⟨r', member', active', index, node, origin⟩ := rely.active r member active
    rw [← index, ← node, ← origin]
    exact knows.active r' member' active'

/-! ### Rules for the calls -/

section Rules

variable {P M : View → Prop}

/-- What holds after a call that may fail: a failed call ends the run. -/
def onSuccess (M : View → Prop) : Except StorageError Unit → View → Prop
  | .ok _ => M
  | .error _ => fun _ => True

theorem stable_onSuccess (stable : world.Stable M) (r : Except StorageError Unit) :
    world.Stable (onSuccess M r) := by
  cases r with
  | ok => exact stable
  | error => exact fun _ _ _ _ => trivial

theorem conforms_orFail (r : Except StorageError Unit) :
    Conforms world Permits (orFail r) (onSuccess M r) fun _ => M := by
  cases r with
  | ok => exact fun _ holds => holds
  | error => trivial

theorem conforms_updateRebootListEntry {e : RebootListEntry} (stable : world.Stable M)
    (permitted : ∀ v, P v → Permits v (.updateRebootListEntry e))
    (reached : ∀ v, P v → v.store.WellFormed →
      M ⟨v.store.putEntry .controller e, { v.seen with enqueueing := none }⟩) :
    Conforms world Permits (updateRebootListEntry e) P fun _ => M := by
  refine Conforms.call (onSuccess M) permitted (stable_onSuccess stable) ?_ conforms_orFail
  rintro v r ⟨store, seen⟩ holds ⟨wf, answered, rfl⟩
  cases answered with
  | updated stored key => exact reached v holds wf
  | notUpdated error => trivial

theorem conforms_removeRebootListEntry {leaderKey : Nat} {e : RebootListEntry}
    (stable : world.Stable M)
    (permitted : ∀ v, P v → Permits v (.removeRebootListEntry leaderKey e))
    (reached : ∀ v, P v →
      M ⟨v.store.removeEntry e.index, { v.seen with enqueueing := none }⟩) :
    Conforms world Permits (removeRebootListEntry leaderKey e) P fun _ => M := by
  refine Conforms.call (onSuccess M) permitted (stable_onSuccess stable) ?_ conforms_orFail
  rintro v r ⟨store, seen⟩ holds ⟨wf, answered, rfl⟩
  cases answered with
  | removed => exact reached v holds
  | notRemoved error => trivial

theorem conforms_updateRebootsEntry {q : RebootQueueEntry} (stable : world.Stable M)
    (permitted : ∀ v, P v → Permits v (.updateRebootsEntry q))
    (reached : ∀ v, P v →
      M ⟨v.store.putQueued q, { v.seen with enqueueing := none }⟩) :
    Conforms world Permits (updateRebootsEntry q) P fun _ => M := by
  refine Conforms.call (onSuccess M) permitted (stable_onSuccess stable) ?_ conforms_orFail
  rintro v r ⟨store, seen⟩ holds ⟨wf, answered, rfl⟩
  cases answered with
  | changed => exact reached v holds
  | notChanged error => trivial

/-- Programs that only read the clock keep what the run knows. -/
theorem conforms_quiet {α : Type} {p : Prog α} (stable : world.Stable P)
    (free : ∀ v, P v → P ⟨v.store, { v.seen with enqueueing := none }⟩)
    (uses : p.Uses Call.isQuiet) :
    Conforms world Permits p P fun a v => P v ∧ p.Returns a := by
  refine Conforms.quiet stable ?_ ?_ uses
  · intro v c quiet
    cases c <;> trivial
  · rintro c v r ⟨store, seen⟩ quiet holds ⟨wf, answered, rfl⟩
    cases answered with
    | now n => exact free v holds
    | shuffle order => exact free v holds
    | _ => cases quiet

end Rules

/-! ### Reading the memory of a run -/

theorem findRebootQueueEntry_none {queue : List RebootQueueEntry} {e : RebootListEntry} :
    findRebootQueueEntryFromRebootListEntry queue e = none ↔ ∀ q ∈ queue, q.node ≠ e.node := by
  simp [findRebootQueueEntryFromRebootListEntry]

theorem findRebootQueueEntry_some {queue : List RebootQueueEntry} {e : RebootListEntry}
    {q : RebootQueueEntry} (found : findRebootQueueEntryFromRebootListEntry queue e = some q) :
    q ∈ queue ∧ q.node = e.node := by
  have node := List.find?_some found
  exact ⟨List.mem_of_find?_eq_some found, of_decide_eq_true node⟩

theorem findRebootListEntry_none {list : List RebootListEntry} {q : RebootQueueEntry} :
    findRebootListEntryFromRebootQueueEntry list q = none ↔ ∀ e ∈ list, e.node ≠ q.node := by
  simp [findRebootListEntryFromRebootQueueEntry]

theorem findRebootListEntry_some {list : List RebootListEntry} {q : RebootQueueEntry}
    {e : RebootListEntry} (found : findRebootListEntryFromRebootQueueEntry list q = some e) :
    e ∈ list ∧ e.node = q.node := by
  have node := List.find?_some found
  exact ⟨List.mem_of_find?_eq_some found, of_decide_eq_true node⟩

theorem mem_setListStatus {m : Memory} {index : Int} {status : RebootListEntryStatus}
    {x : RebootListEntry} (member : x ∈ (m.setListStatus index status).list) :
    (∃ y ∈ m.list, y.index = index ∧ x = { y with status := status }) ∨
      x ∈ m.list ∧ x.index ≠ index := by
  obtain ⟨y, old, rfl⟩ := List.mem_map.mp member
  split
  next same => exact .inl ⟨y, old, same, rfl⟩
  next other => exact .inr ⟨old, other⟩

theorem mem_setListStatus_of_ne {m : Memory} {index : Int} {status : RebootListEntryStatus}
    {x : RebootListEntry} (member : x ∈ m.list) (other : x.index ≠ index) :
    x ∈ (m.setListStatus index status).list :=
  List.mem_map.mpr ⟨x, member, if_neg other⟩

theorem mem_setQueueStatus_of_ne {m : Memory} {index : Int} {status : RebootStatus}
    {q : RebootQueueEntry} (member : q ∈ m.queue) (other : q.index ≠ index) :
    q ∈ (m.setQueueStatus index status).queue :=
  List.mem_map.mpr ⟨q, member, if_neg other⟩

namespace Stage.Proper

variable {k : Stage} (proper : k.Proper)
include proper

theorem sorted_memory : k.memory.list.Pairwise fun x y => x.index < y.index := by
  have sorted := List.pairwise_map.mpr proper.sorted
  rw [← proper.indices] at sorted
  exact List.pairwise_map.mp sorted

/-- An entry that is queued in memory was read so. -/
theorem read {x : RebootListEntry} (member : x ∈ k.memory.list) (status : x.status = .queued) :
    x ∈ k.list := by
  rcases proper.entries x member with read | ⟨pending, _⟩
  · exact read
  · rw [status] at pending
    cases pending

/-- The read entry behind an entry in memory. -/
theorem origin {x : RebootListEntry} (member : x ∈ k.memory.list) :
    ∃ y ∈ k.list, y.index = x.index ∧ y.node = x.node := by
  rcases proper.entries x member with read | ⟨_, read, _⟩
  · exact ⟨x, read, rfl, rfl⟩
  · exact ⟨_, read, rfl, rfl⟩

theorem key_read {q : RebootQueueEntry} (member : q ∈ k.memory.queue) :
    ∃ q' ∈ k.queue, q'.index = q.index ∧ q'.node = q.node := by
  have key : (q.index, q.node) ∈ k.memory.queue.map fun q => (q.index, q.node) :=
    List.mem_map.mpr ⟨q, member, rfl⟩
  rw [proper.keys] at key
  obtain ⟨q', read, same⟩ := List.mem_map.mp key
  exact ⟨q', read, congrArg Prod.fst same, congrArg Prod.snd same⟩

theorem key_held {q : RebootQueueEntry} (member : q ∈ k.queue) :
    ∃ q' ∈ k.memory.queue, q'.index = q.index ∧ q'.node = q.node := by
  have key : (q.index, q.node) ∈ k.queue.map fun q => (q.index, q.node) :=
    List.mem_map.mpr ⟨q, member, rfl⟩
  rw [← proper.keys] at key
  obtain ⟨q', held, same⟩ := List.mem_map.mp key
  exact ⟨q', held, congrArg Prod.fst same, congrArg Prod.snd same⟩

/-- After a queued entry with a queue entry has been dequeued. -/
theorem setListStatus {e : RebootListEntry} (read : e ∈ k.list) (status : e.status = .queued)
    (matched : ∃ q ∈ k.queue, q.node = e.node) :
    ({ k with memory := k.memory.setListStatus e.index .pending } : Stage).Proper := by
  refine ⟨proper.sorted, proper.queueSorted, ?_, ?_, proper.keys, proper.apart⟩
  · rw [← proper.indices]
    simp only [Memory.setListStatus, List.map_map]
    refine List.map_congr_left fun x _ => ?_
    simp only [Function.comp]
    split <;> rfl
  · intro x member
    rcases mem_setListStatus member with ⟨y, old, index, rfl⟩ | ⟨old, _⟩
    · rcases proper.entries y old with yRead | ⟨_, yRead, yMatched⟩
      · obtain rfl := Ordered.eq_of_key proper.sorted yRead read index
        refine .inr ⟨rfl, ?_, matched⟩
        rw [← status]
        exact read
      · exact .inr ⟨rfl, yRead, yMatched⟩
    · exact proper.entries x old

theorem setQueueStatus (index : Int) (status : RebootStatus) :
    ({ k with memory := k.memory.setQueueStatus index status } : Stage).Proper := by
  refine ⟨proper.sorted, proper.queueSorted, proper.indices, proper.entries, ?_, proper.apart⟩
  rw [← proper.keys]
  simp only [Memory.setQueueStatus, List.map_map]
  refine List.map_congr_left fun x _ => ?_
  simp only [Function.comp]
  split <;> rfl

end Stage.Proper

/-! ### What a run knows after its own calls -/

namespace Knows

variable {k : Stage} {v : View}

theorem entries_eq (knows : Knows k v) : v.seen.entries = k.list := by
  rw [Observed.entries, knows.list]
  rfl

theorem queueEntries_eq (knows : Knows k v) : v.seen.queueEntries = k.queue := by
  rw [Observed.queueEntries, knows.queue]
  rfl

theorem isSome (knows : Knows k v) : v.seen.queue.isSome = true := by
  rw [knows.queue]
  rfl

theorem free (knows : Knows k v) : Knows k ⟨v.store, { v.seen with enqueueing := none }⟩ :=
  ⟨knows.list, knows.queue, knows.registered, knows.moved, knows.group, knows.bound,
    knows.queued, knows.active⟩

/-- The list entry `e` has been written as pending. -/
theorem dequeue (knows : Knows k v) (wf : v.store.WellFormed) (e : RebootListEntry) :
    Knows { k with memory := k.memory.setListStatus e.index .pending }
      ⟨v.store.putEntry .controller { e with status := .pending },
        { v.seen with enqueueing := none }⟩ := by
  refine ⟨knows.list, knows.queue, knows.registered, knows.moved, knows.group, knows.bound, ?_,
    knows.active⟩
  intro x member status
  rcases (Store.mem_list_putEntry wf).mp member with rfl | ⟨old, other⟩
  · cases status
  · exact (knows.queued x old status).imp_left fun held => mem_setListStatus_of_ne held other

/-- A queue entry has been cancelled. -/
theorem cancel (knows : Knows k v) {q : RebootQueueEntry} (cancelled : q.status = .cancelled) :
    Knows k ⟨v.store.putQueued q, { v.seen with enqueueing := none }⟩ := by
  refine ⟨knows.list, knows.queue, knows.registered, knows.moved, knows.group, knows.bound,
    knows.queued, ?_⟩
  intro r member active
  exact knows.active r (Store.active_putQueued cancelled member active).1 active

/-- A queue entry has been cancelled, in memory too. -/
theorem cancelHeld (knows : Knows k v) {q : RebootQueueEntry} (cancelled : q.status = .cancelled) :
    Knows { k with memory := k.memory.setQueueStatus q.index .cancelled }
      ⟨v.store.putQueued q, { v.seen with enqueueing := none }⟩ := by
  refine ⟨knows.list, knows.queue, knows.registered, knows.moved, knows.group, knows.bound,
    knows.queued, ?_⟩
  intro r member active
  obtain ⟨old, other⟩ := Store.active_putQueued cancelled member active
  rcases knows.active r old active with ⟨copy, held, index, node, status⟩ | new
  · exact .inl ⟨copy, mem_setQueueStatus_of_ne held (by rwa [index]), index, node, status⟩
  · exact .inr new

theorem remove (knows : Knows k v) (index : Int) :
    Knows k ⟨v.store.removeEntry index, { v.seen with enqueueing := none }⟩ :=
  ⟨knows.list, knows.queue, knows.registered, knows.moved, knows.group, knows.bound,
    fun x member => knows.queued x (Store.mem_list_removeEntry.mp member).1, knows.active⟩

theorem move (knows : Knows k v) (group : String) :
    Knows { k with group := group, moved := true }
      ⟨v.store.putGroup group, { v.seen with moved := true, enqueueing := none }⟩ :=
  ⟨knows.list, knows.queue, knows.registered, rfl, rfl, knows.bound, knows.queued, knows.active⟩

/-- A queue entry that the run cancels names the node of the stored one. -/
theorem cancel_node (knows : Knows k v) (proper : k.Proper) {q q₀ : RebootQueueEntry}
    (read : q₀ ∈ k.queue) (index : q₀.index = q.index) (node : q₀.node = q.node) :
    ∀ r ∈ v.store.queue, r.active = true → r.entry.index = q.index → r.entry.node = q.node := by
  intro r member active same
  rcases knows.active r member active with ⟨copy, held, copyIndex, copyNode, _⟩ | ⟨_, other⟩
  · obtain ⟨q₁, read₁, index₁, node₁⟩ := proper.key_read held
    obtain rfl := Ordered.eq_of_key proper.queueSorted read read₁ (by omega)
    rw [← copyNode, ← node₁, node]
  · exact absurd (index.trans same.symm) (other q₀ read)

end Knows

/-! ### Dequeueing -/

theorem Knows.mayCancel {k : Stage} {v : View} (knows : Knows k v) (proper : k.Proper)
    {q q₀ : RebootQueueEntry} (cancelled : q.status = .cancelled) (read : q₀ ∈ k.queue)
    (index : q₀.index = q.index) (node : q₀.node = q.node)
    (several : ∀ x ∈ k.memory.list, x.status = .queued → x.node = q.node →
      ∃ y ∈ k.list, y.node = x.node ∧ y.index ≠ x.index) : MayCancel v q := by
  refine ⟨cancelled, knows.cancel_node proper read index node, fun x stored status same => ?_⟩
  rw [knows.entries_eq]
  rcases knows.queued x stored status with held | registered
  · exact ⟨proper.read held status, several x held status same⟩
  · exact absurd (node.trans same.symm) (proper.apart x registered q₀ read)

/-- A queued entry with a queue entry of its node. -/
def Stage.Dequeues (k : Stage) (set : EntrySet) : Prop :=
  ∃ e q, set = ⟨some e, some q⟩ ∧ e ∈ k.list ∧ e.status = .queued ∧ q.node = e.node ∧
    ∃ q₀ ∈ k.queue, q₀.index = q.index ∧ q₀.node = q.node

/-- The entries that are still queued in memory were queued before and are not among the
dequeued ones. -/
def StillQueued (before after : Memory) (dequeued : List EntrySet) : Prop :=
  ∀ x ∈ after.list, x.status = .queued → x ∈ before.list ∧
    ∀ set ∈ dequeued, ∀ e, set.rebootListEntry = some e → e.index ≠ x.index

theorem conforms_dequeueAndCancelEntry {k : Stage} (proper : k.Proper) (sets : List EntrySet)
    (all : ∀ set ∈ sets, k.Dequeues set) :
    Conforms world Permits (dequeueAndCancelEntry sets k.memory) (Knows k) fun m v =>
      (({ k with memory := m } : Stage).Proper ∧ StillQueued k.memory m sets) ∧
        Knows { k with memory := m } v := by
  refine (Conforms.foldlM (fun done m v =>
    (({ k with memory := m } : Stage).Proper ∧ StillQueued k.memory m done) ∧
      Knows { k with memory := m } v) sets ?_ k.memory).mono
    (fun v knows => ⟨⟨proper, fun x held _ => ⟨held, by simp⟩⟩, knows⟩) fun _ _ holds => holds
  intro done set rest m split
  obtain ⟨e, q, rfl, read, status, node, q₀, q₀Read, q₀Index, q₀Node⟩ :=
    all set (by simp [split])
  refine Conforms.assume fun ⟨proper, still⟩ => ?_
  -- First the list entry becomes pending, in etcd and in memory.
  let k₁ : Stage := { k with memory := m.setListStatus e.index .pending }
  have proper₁ : k₁.Proper := proper.setListStatus read status ⟨q₀, q₀Read, q₀Node.trans node⟩
  refine Conforms.bind (conforms_updateRebootListEntry (Knows.stable k₁) ?_ ?_) fun _ => ?_
  · intro v knows
    refine ⟨knows.isSome, .inr ⟨rfl, ?_⟩⟩
    rw [knows.entries_eq, ← status]
    exact read
  · exact fun v knows wf => knows.dequeue wf e
  -- Then its queue entry is cancelled.
  let k₂ : Stage := { k₁ with memory := k₁.memory.setQueueStatus q.index .cancelled }
  refine Conforms.bind (conforms_updateRebootsEntry (Knows.stable k₂) ?_ ?_) fun _ => ?_
  · intro v knows
    refine ⟨knows.isSome, knows.mayCancel proper₁ rfl q₀Read q₀Index q₀Node ?_⟩
    intro x held queued same
    refine ⟨e, read, node.symm.trans same.symm, fun index => ?_⟩
    rcases mem_setListStatus held with ⟨y, _, _, rfl⟩ | ⟨_, other⟩
    · cases queued
    · exact other index.symm
  · exact fun v knows => knows.cancelHeld (q := { q with status := .cancelled }) rfl
  · intro v knows
    refine ⟨⟨proper₁.setQueueStatus q.index .cancelled, fun x held queued => ?_⟩, knows⟩
    rcases mem_setListStatus held with ⟨y, _, _, rfl⟩ | ⟨old, other⟩
    · cases queued
    · obtain ⟨before, earlier⟩ := still x old queued
      refine ⟨before, fun set member e' first => ?_⟩
      rcases List.mem_append.mp member with old' | new
      · exact earlier set old' e' first
      · obtain rfl := List.mem_singleton.mp new
        cases first
        exact other.symm

/-! ### Choosing the group -/

/-- No entry that is queued in memory has an entry in the queue that was read. -/
def Stage.Cleared (k : Stage) : Prop :=
  ∀ x ∈ k.memory.list, x.status = .queued → ∀ q ∈ k.queue, q.node ≠ x.node

theorem Knows.mayMove {k : Stage} {v : View} (knows : Knows k v) (proper : k.Proper)
    (first : k.registered = []) (cleared : k.Cleared) : MayMove v := by
  refine ⟨knows.registered.trans first, fun r member active x stored status same => ?_⟩
  have none (n : RebootListEntry) : n ∉ k.registered := by simp [first]
  rcases knows.active r member active with ⟨copy, held, _, node, _⟩ | ⟨new, _⟩
  · rcases knows.queued x stored status with heldX | new
    · obtain ⟨q, read, _, readNode⟩ := proper.key_read held
      exact cleared x heldX status q read (readNode.trans (node.trans same.symm))
    · exact none x new
  · exact none r.origin new

theorem conforms_moveToNextGroup {k : Stage} (proper : k.Proper) (first : k.registered = [])
    (cleared : k.Cleared) (candidate : List String) :
    Conforms world Permits (moveToNextGroup candidate k.group) (Knows k) fun group v =>
      ∃ moved, Knows { k with group := group, moved := moved } v := by
  unfold moveToNextGroup
  split
  · exact fun v knows => ⟨k.moved, knows⟩
  next group _ =>
    refine Conforms.call (fun _ => Knows { k with group := group, moved := true })
      (fun v knows => ⟨knows.isSome, knows.mayMove proper first cleared⟩)
      (fun _ => Knows.stable _) ?_ fun _ v knows => ⟨true, knows⟩
    rintro v r ⟨store, seen⟩ knows ⟨wf, answered, rfl⟩
    cases answered
    exact knows.move group

theorem Collected.queued_dequeues {k : Stage} (proper : k.Proper) {collection : EntriesCollection}
    (collected : Collected k.memory.list k.memory.queue k.group collection) :
    ∀ set ∈ collection.queuedEntry, k.Dequeues set := by
  intro set member
  rw [collected.queued] at member
  obtain ⟨e, held, chosen⟩ := List.mem_filterMap.mp member
  unfold queuedSet at chosen
  split at chosen
  next status =>
    obtain ⟨q, found, rfl⟩ := Option.map_eq_some_iff.mp chosen
    obtain ⟨heldQ, node⟩ := findRebootQueueEntry_some found
    exact ⟨e, q, rfl, proper.read held status, status, node, proper.key_read heldQ⟩
  · cases chosen

/-- Once all queued entries are dequeued, the rest have no queue entry. -/
theorem Collected.cleared {k : Stage} (proper : k.Proper) {collection : EntriesCollection}
    (collected : Collected k.memory.list k.memory.queue k.group collection) {m : Memory}
    (still : StillQueued k.memory m collection.queuedEntry) :
    ({ k with memory := m } : Stage).Cleared := by
  intro x held status q read same
  obtain ⟨before, others⟩ := still x held status
  obtain ⟨q', heldQ, _, node⟩ := proper.key_held read
  cases found : findRebootQueueEntryFromRebootListEntry k.memory.queue x with
  | none => exact findRebootQueueEntry_none.mp found q' heldQ (node.trans same)
  | some rq =>
    have member : ⟨some x, some rq⟩ ∈ collection.queuedEntry := by
      rw [collected.queued]
      exact List.mem_filterMap.mpr ⟨x, before, by simp [queuedSet, status, found]⟩
    exact others _ member x rfl rfl

/-- What the run knows when it collects its entries for the second time. -/
def Stage.Chosen (k : Stage) (m : Memory) (group : String) (v : View) : Prop :=
  ∃ moved, (({ k with memory := m } : Stage).Proper ∧
      (moved = true → ({ k with memory := m } : Stage).Cleared)) ∧
    Knows { k with memory := m, group := group, moved := moved } v

theorem conforms_chooseGroup {k : Stage} (proper : k.Proper) (first : k.registered = [])
    (unmoved : k.moved = false) (c : Controller) (enabled : Bool) (candidate : List String) :
    Conforms world Permits (c.chooseGroup enabled k.memory candidate k.group) (Knows k)
      fun chosen v => k.Chosen chosen.1 chosen.2 v := by
  have stays : Conforms world Permits (.ret (k.memory, k.group) : Prog (Memory × String)) (Knows k)
      fun chosen v => k.Chosen chosen.1 chosen.2 v :=
    fun v knows => ⟨k.moved, ⟨proper, by simp [unmoved]⟩, knows⟩
  unfold Controller.chooseGroup
  split
  · split
    · split
      · -- A stuck queue: dequeue everything, then move on.
        refine Conforms.bind (conforms_quiet (Knows.stable k) (fun _ knows => knows.free)
          (c.uses_collectEntries _ _ _)) fun collection => ?_
        refine (Conforms.assume (P := Knows k) fun returned => ?_).mono
          (fun _ holds => holds.symm) fun _ _ holds => holds
        have collected := collected_of_returns returned
        refine Conforms.bind (conforms_dequeueAndCancelEntry proper _
          (collected.queued_dequeues proper)) fun m => ?_
        refine Conforms.assume fun ⟨proper', still⟩ => ?_
        have cleared := collected.cleared proper still
        refine Conforms.bind (conforms_moveToNextGroup proper' first cleared candidate)
          fun group v ⟨moved, knows⟩ => ?_
        exact ⟨moved, ⟨proper', fun _ => cleared⟩, knows⟩
      · exact stays
    next empty =>
      -- An empty queue has nothing to dequeue.
      have cleared : k.Cleared := by
        intro x _ _ q read
        obtain ⟨q', held, _⟩ := proper.key_held read
        have none : k.memory.queue = [] := by simpa using empty
        rw [none] at held
        cases held
      refine Conforms.bind (conforms_moveToNextGroup proper first cleared candidate)
        fun group v ⟨moved, knows⟩ => ?_
      exact ⟨moved, ⟨proper, fun _ => cleared⟩, knows⟩
  · exact stays

/-! ### Acting on the entries -/

section Process

variable {k : Stage} (proper : k.Proper) {collection : EntriesCollection}
  (collected : Collected k.memory.list k.memory.queue k.group collection)
include proper

/-- Another entry in memory of the same node was read as another entry. -/
theorem Stage.Proper.other {x y : RebootListEntry} (hx : x ∈ k.memory.list)
    (hy : y ∈ k.memory.list) (node : y.node = x.node) (status : y.status ≠ x.status) :
    ∃ z ∈ k.list, z.node = x.node ∧ z.index ≠ x.index := by
  obtain ⟨z, read, index, same⟩ := proper.origin hy
  refine ⟨z, read, same.trans node, fun equal => status ?_⟩
  rw [Ordered.eq_of_key proper.sorted_memory hy hx (index.symm.trans equal)]

include collected

theorem conforms_removeCancelledEntry (leaderKey : Nat) :
    Conforms world Permits (removeCancelledEntry leaderKey collection.cancelledEntry) (Knows k)
      fun _ _ => True := by
  refine (Conforms.foldlM (fun _ _ => Knows k) _ ?_ ()).mono (fun _ knows => knows)
    fun _ _ _ => trivial
  intro done set rest _ split
  have member : set ∈ collection.cancelledEntry := by simp [split]
  rw [collected.cancelled] at member
  obtain ⟨e, heldCancelled, rfl⟩ := List.mem_map.mp member
  obtain ⟨held, cancelled⟩ := List.mem_filter.mp heldCancelled
  replace cancelled : e.status = .cancelled := of_decide_eq_true cancelled
  have read : e ∈ k.list := by
    rcases proper.entries e held with read | ⟨pending, _⟩
    · exact read
    · rw [cancelled] at pending
      cases pending
  refine Conforms.bind (M := fun _ => Knows k) ?_ fun _ => ?_
  · -- The queue entry of its node goes first, whoever it was registered for.
    cases found : findRebootQueueEntryFromRebootListEntry k.memory.queue e with
    | none => exact fun v knows => knows
    | some q =>
      obtain ⟨heldQ, node⟩ := findRebootQueueEntry_some found
      obtain ⟨q₀, q₀Read, q₀Index, q₀Node⟩ := proper.key_read heldQ
      refine conforms_updateRebootsEntry (Knows.stable k) ?_ fun v knows => knows.cancel rfl
      intro v knows
      refine ⟨knows.isSome, knows.mayCancel proper rfl q₀Read q₀Index q₀Node ?_⟩
      intro x heldX status same
      refine proper.other heldX held (node.symm.trans same.symm) ?_
      rw [cancelled, status]
      exact nofun
  · refine conforms_removeRebootListEntry (Knows.stable k) ?_ fun v knows => knows.remove _
    intro v knows
    refine ⟨knows.isSome, ?_⟩
    unfold MayRemove
    rw [knows.entries_eq]
    exact ⟨read, .inl cancelled⟩

theorem conforms_removeOrphanedEntry :
    Conforms world Permits (removeOrphanedEntry collection.orphanedEntry) (Knows k)
      fun _ _ => True := by
  refine (Conforms.foldlM (fun _ _ => Knows k) _ ?_ ()).mono (fun _ knows => knows)
    fun _ _ _ => trivial
  intro done set rest _ split
  have member : set ∈ collection.orphanedEntry := by simp [split]
  rw [collected.orphaned] at member
  obtain ⟨q, held, chosen⟩ := List.mem_filterMap.mp member
  -- The first list entry of the node, if there is one, is pending.
  have orphan : ∃ rl, set = ⟨rl, some q⟩ ∧
      ∀ e, findRebootListEntryFromRebootQueueEntry k.memory.list q = some e →
        e.status = .pending := by
    unfold orphanedSet at chosen
    split at chosen
    · cases chosen
    · split at chosen
      next missing =>
        cases chosen
        refine ⟨none, rfl, fun e found => ?_⟩
        rw [missing] at found
        cases found
      next rl found =>
        split at chosen
        next pending =>
          cases chosen
          refine ⟨some rl, rfl, fun e found' => ?_⟩
          cases found.symm.trans found'
          exact pending
        · cases chosen
  obtain ⟨rl, rfl, pending⟩ := orphan
  obtain ⟨q₀, q₀Read, q₀Index, q₀Node⟩ := proper.key_read held
  refine conforms_updateRebootsEntry (Knows.stable k) ?_ fun v knows => knows.cancel rfl
  intro v knows
  refine ⟨knows.isSome, knows.mayCancel proper rfl q₀Read q₀Index q₀Node ?_⟩
  intro x heldX status same
  cases found : findRebootListEntryFromRebootQueueEntry k.memory.list q with
  | none => exact absurd same (findRebootListEntry_none.mp found x heldX)
  | some e =>
    obtain ⟨heldE, node⟩ := findRebootListEntry_some found
    refine proper.other heldX heldE (node.trans same.symm) ?_
    rw [pending e found, status]
    exact nofun

theorem conforms_removeCompletedEntry (leaderKey : Nat) :
    Conforms world Permits (removeCompletedEntry leaderKey collection.completedEntry) (Knows k)
      fun _ => Knows k := by
  refine Conforms.foldlM (fun _ _ => Knows k) _ ?_ ()
  intro done e rest _ split
  have member : e ∈ collection.completedEntry := by simp [split]
  rw [collected.completed] at member
  obtain ⟨held, queued⟩ := List.mem_filter.mp member
  obtain ⟨status, missing⟩ := of_decide_eq_true queued
  refine conforms_removeRebootListEntry (Knows.stable k) ?_ fun v knows => knows.remove _
  intro v knows
  refine ⟨knows.isSome, ?_⟩
  unfold MayRemove
  rw [knows.entries_eq, knows.queueEntries_eq]
  refine ⟨proper.read held status, .inr ⟨status, fun q read => ?_⟩⟩
  obtain ⟨q', heldQ, _, node⟩ := proper.key_held read
  rw [← node]
  exact findRebootQueueEntry_none.mp missing q' heldQ

end Process

/-! ### Enqueueing -/

/-- The entry as `addRebootListEntry` passes it on. -/
def RebootListEntry.enqueued (e : RebootListEntry) : RebootListEntry := { e with status := .queued }

/-- Every active queue entry in memory has a queued list entry in memory. -/
def Stage.Settled (k : Stage) : Prop :=
  ∀ q ∈ k.memory.queue, q.status ≠ .cancelled →
    ∃ x ∈ k.memory.list, x.status = .queued ∧ x.node = q.node

theorem Collected.settled {k : Stage} {collection : EntriesCollection}
    (collected : Collected k.memory.list k.memory.queue k.group collection)
    (noCancelled : collection.cancelledEntry = []) (noOrphan : collection.orphanedEntry = []) :
    k.Settled := by
  intro q held active
  rw [collected.cancelled] at noCancelled
  rw [collected.orphaned] at noOrphan
  have matched := List.filterMap_eq_nil_iff.mp noOrphan q held
  unfold orphanedSet at matched
  rw [if_neg active] at matched
  split at matched
  · cases matched
  next x found =>
    obtain ⟨heldX, node⟩ := findRebootListEntry_some found
    split at matched
    · cases matched
    next notPending =>
      refine ⟨x, heldX, ?_, node⟩
      cases status : x.status with
      | queued => rfl
      | pending => exact absurd status notPending
      | cancelled =>
        have none := List.filter_eq_nil_iff.mp (List.map_eq_nil_iff.mp noCancelled) x heldX
        simp [status] at none

/-- A new entry is as it was read: an entry that has been dequeued has a queue entry. -/
theorem Stage.Proper.read_new {k : Stage} (proper : k.Proper) {e : RebootListEntry}
    (held : e ∈ k.memory.list)
    (missing : findRebootQueueEntryFromRebootListEntry k.memory.queue e = none) :
    e ∈ k.list ∧ ∀ q ∈ k.queue, q.node ≠ e.node := by
  have alone : ∀ q ∈ k.queue, q.node ≠ e.node := by
    intro q read same
    obtain ⟨q', heldQ, _, node⟩ := proper.key_held read
    exact findRebootQueueEntry_none.mp missing q' heldQ (node.trans same)
  rcases proper.entries e held with read | ⟨_, _, q, read, same⟩
  · exact ⟨read, alone⟩
  · exact absurd same (alone q read)

theorem Knows.mayRegister {k : Stage} {v : View} (knows : Knows k v) (proper : k.Proper)
    (settled : k.Settled) (cleared : k.moved = true → k.Cleared) {e : RebootListEntry}
    (held : e ∈ k.memory.list) (status : e.status = .pending) (group : e.group = k.group)
    (missing : findRebootQueueEntryFromRebootListEntry k.memory.queue e = none)
    (once : ∀ n ∈ k.registered, n.index ≠ e.index) :
    MayRegister v (newRebootQueueEntry e.node) e.enqueued := by
  refine ⟨rfl, rfl, knows.group.trans group.symm, ?_, ?_, ?_, ?_⟩
  · rw [knows.entries_eq]
    have same : { e.enqueued with status := .pending } = e := by
      rw [← status]
      rfl
    rw [same]
    exact (proper.read_new held missing).1
  · rw [knows.registered]
    exact once
  · intro r member active node
    rw [knows.registered]
    rcases knows.active r member active with ⟨q, heldQ, _, same, _⟩ | new
    · exact absurd (same.trans node) (findRebootQueueEntry_none.mp missing q heldQ)
    · exact new.1
  · intro r member active
    rw [knows.registered, knows.moved, knows.entries_eq]
    rcases knows.active r member active with ⟨q, heldQ, _, node, notCancelled⟩ | new
    · obtain ⟨x, heldX, queued, same⟩ := settled q heldQ notCancelled
      refine .inr ⟨?_, x, proper.read heldX queued, queued, same.trans node⟩
      by_contra moved
      obtain ⟨q₀, read, _, node₀⟩ := proper.key_read heldQ
      exact cleared (by simpa using moved) x heldX queued q₀ read (node₀.trans same.symm)
    · exact .inl new.1

/-- A queue entry has been registered for `e`. -/
theorem Knows.register {k : Stage} {v : View} (knows : Knows k v) (q : RebootQueueEntry)
    (e : RebootListEntry) :
    Knows { k with registered := k.registered ++ [e] } ⟨v.store.register q e,
      { v.seen with registered := v.seen.registered ++ [e], enqueueing := some e }⟩ := by
  refine ⟨knows.list, knows.queue, congrArg (· ++ [e]) knows.registered, knows.moved, knows.group,
    fun q read => lt_of_lt_of_le (knows.bound q read) (Int.le.intro 1 rfl), ?_, ?_⟩
  · intro x stored status
    exact (knows.queued x stored status).imp_right (List.mem_append_left _)
  · intro r member active
    rcases List.mem_append.mp member with old | new
    · exact (knows.active r old active).imp_right (And.imp_left (List.mem_append_left _))
    · obtain rfl := List.mem_singleton.mp new
      refine .inr ⟨List.mem_append_right _ (List.mem_singleton_self _), fun q read => ?_⟩
      have := knows.bound q read
      simp only [ne_eq]
      omega

/-- The registered entry has been written as queued. -/
theorem Knows.enqueue {k : Stage} {v : View} (knows : Knows k v) (wf : v.store.WellFormed)
    {e : RebootListEntry} (registered : e ∈ k.registered) :
    Knows k ⟨v.store.putEntry .controller e, { v.seen with enqueueing := none }⟩ := by
  refine ⟨knows.list, knows.queue, knows.registered, knows.moved, knows.group, knows.bound, ?_,
    knows.active⟩
  intro x member status
  rcases (Store.mem_list_putEntry wf).mp member with rfl | ⟨old, _⟩
  · exact .inr registered
  · exact knows.queued x old status

/-- One turn of `addRebootListEntry`. -/
theorem conforms_enqueue {k : Stage} (proper : k.Proper) (settled : k.Settled)
    (cleared : k.moved = true → k.Cleared) {e : RebootListEntry} (held : e ∈ k.memory.list)
    (status : e.status = .pending) (group : e.group = k.group)
    (missing : findRebootQueueEntryFromRebootListEntry k.memory.queue e = none)
    (once : ∀ n ∈ k.registered, n.index ≠ e.index) :
    Conforms world Permits (do
        let _ ← ask (.registerRebootsEntry (newRebootQueueEntry e.node) e.enqueued)
        updateRebootListEntry e.enqueued) (Knows k)
      fun _ => Knows { k with registered := k.registered ++ [e.enqueued] } := by
  let k₁ : Stage := { k with registered := k.registered ++ [e.enqueued] }
  have last : e.enqueued ∈ k₁.registered := by simp [k₁]
  -- Between the registration and the update the entry is known to be the registered one.
  let M : View → Prop := fun v => Knows k₁ v ∧ v.seen.enqueueing = some e.enqueued
  have stable : world.Stable M := fun v w holds rely =>
    ⟨Knows.stable k₁ v w holds.1 rely, by rw [rely.seen, holds.2]⟩
  refine Conforms.call (fun _ => M) ?_ (fun _ => stable) ?_ fun _ => ?_
  · exact fun v knows => ⟨knows.isSome,
      knows.mayRegister proper settled cleared held status group missing once⟩
  · rintro v r ⟨store, seen⟩ knows ⟨wf, answered, rfl⟩
    cases answered
    exact ⟨knows.register (newRebootQueueEntry e.node) e.enqueued, rfl⟩
  · refine conforms_updateRebootListEntry (Knows.stable k₁) ?_
      fun v holds wf => holds.1.enqueue wf last
    rintro v ⟨knows, enqueueing⟩
    refine ⟨knows.isSome, .inl ⟨rfl, enqueueing, ?_, ?_⟩⟩
    · rw [knows.registered]
      exact last
    · rw [knows.entries_eq]
      have same : { e.enqueued with status := .pending } = e := by
        rw [← status]
        rfl
      exact same ▸ (proper.read_new held missing).1

theorem conforms_addRebootListEntry {k : Stage} (proper : k.Proper) (first : k.registered = [])
    (settled : k.Settled) (cleared : k.moved = true → k.Cleared)
    {collection : EntriesCollection}
    (collected : Collected k.memory.list k.memory.queue k.group collection) :
    Conforms world Permits (addRebootListEntry collection.newEntry) (Knows k) fun _ v =>
      ∃ registered, ({ k with registered := registered } : Stage).Proper ∧
        Knows { k with registered := registered } v := by
  have sorted : collection.newEntry.Pairwise fun x y => x.index < y.index :=
    (proper.sorted_memory.filter _).sublist collected.new
  have start : ({ k with registered := [] } : Stage) = k := by
    rw [← first]
  refine (Conforms.foldlM (fun done _ v =>
    ({ k with registered := done.map (·.enqueued) } : Stage).Proper ∧
      Knows { k with registered := done.map (·.enqueued) } v) collection.newEntry ?_ ()).mono
    (fun v knows => ⟨start.symm ▸ proper, start.symm ▸ knows⟩) fun _ _ holds => ⟨_, holds⟩
  intro done e rest _ split
  have member : e ∈ collection.newEntry := by simp [split]
  obtain ⟨held, chosen⟩ := List.mem_filter.mp (collected.new.subset member)
  obtain ⟨status, missing, group⟩ := of_decide_eq_true chosen
  rw [split] at sorted
  refine Conforms.assume fun properDone => ?_
  rw [List.map_append]
  refine (conforms_enqueue properDone settled cleared held status group missing ?_).mono
    (fun _ knows => knows) fun _ _ knows => ⟨?_, knows⟩
  · intro n registered
    obtain ⟨n, doneN, rfl⟩ := List.mem_map.mp registered
    have less := (List.pairwise_append.mp sorted).2.2 n doneN e (List.mem_cons_self ..)
    simp only [RebootListEntry.enqueued, ne_eq]
    omega
  · refine ⟨proper.sorted, proper.queueSorted, proper.indices, proper.entries, proper.keys, ?_⟩
    intro n registered q read
    rcases List.mem_append.mp registered with old | new
    · exact properDone.apart n old q read
    · obtain rfl := List.mem_singleton.mp new
      exact (proper.read_new held missing).2 q read

/-! ### The whole run -/

theorem conforms_processEntries {k : Stage} (proper : k.Proper) (first : k.registered = [])
    (cleared : k.moved = true → k.Cleared) (leaderKey : Nat) (enabled : Bool)
    {collection : EntriesCollection}
    (collected : Collected k.memory.list k.memory.queue k.group collection) :
    Conforms world Permits (processEntries leaderKey enabled k.memory collection) (Knows k)
      fun _ _ => True := by
  unfold processEntries
  split
  · exact conforms_removeCancelledEntry proper collected leaderKey
  next noCancelled =>
    split
    · exact conforms_removeOrphanedEntry proper collected
    next noOrphan =>
      have settled : k.Settled := collected.settled (by simpa using noCancelled)
        (by simpa using noOrphan)
      refine Conforms.bind (conforms_removeCompletedEntry proper collected leaderKey) fun _ => ?_
      split
      · refine Conforms.bind (conforms_addRebootListEntry proper first settled cleared collected)
          fun _ => ?_
        refine Conforms.of_exists fun registered => Conforms.assume fun proper' => ?_
        refine Conforms.bind (conforms_dequeueAndCancelEntry proper' _ fun set member => ?_)
          fun _ _ _ => trivial
        exact collected.queued_dequeues proper set (collected.timedOut.subset member)
      · exact Conforms.bind (conforms_dequeueAndCancelEntry proper _
          (collected.queued_dequeues proper)) fun _ _ _ => trivial

/-- The stage of a run that has read everything. -/
def Stage.start (list : List RebootListEntry) (queue : List RebootQueueEntry) (group : String) :
    Stage := ⟨list, queue, ⟨list, queue⟩, group, [], false⟩

theorem Stage.proper_start {list : List RebootListEntry} {queue : List RebootQueueEntry}
    (sorted : list.Pairwise fun x y => x.index < y.index)
    (queueSorted : queue.Pairwise fun q q' => q.index < q'.index) (group : String) :
    (Stage.start list queue group).Proper :=
  ⟨sorted, queueSorted, rfl, fun _ member => .inl member, rfl, List.forall_mem_nil _⟩

/-- The part of a run after its reads. -/
theorem conforms_afterReads {k : Stage} (proper : k.Proper) (first : k.registered = [])
    (unmoved : k.moved = false) (c : Controller) (leaderKey : Nat) (enabled : Bool)
    (candidate allGroups : List String) :
    Conforms world Permits (do
        let (memory, group) ← c.chooseGroup enabled k.memory candidate k.group
        let collection ← c.collectEntries memory.list memory.queue group
        processEntries leaderKey enabled memory collection
        return allGroups) (Knows k) fun _ _ => True := by
  refine Conforms.bind (conforms_chooseGroup proper first unmoved c enabled candidate)
    fun ⟨memory, group⟩ => ?_
  refine Conforms.of_exists fun moved => Conforms.assume fun ⟨proper', cleared⟩ => ?_
  let k' : Stage := { k with memory := memory, group := group, moved := moved }
  refine Conforms.bind (conforms_quiet (Knows.stable k') (fun _ knows => knows.free)
    (c.uses_collectEntries _ _ _)) fun collection => ?_
  refine (Conforms.assume (P := Knows k') fun returned => ?_).mono
    (fun _ holds => holds.symm) fun _ _ holds => holds
  have proper'' : k'.Proper := ⟨proper'.sorted, proper'.queueSorted, proper'.indices,
    proper'.entries, proper'.keys, proper'.apart⟩
  exact Conforms.bind (conforms_processEntries proper'' first cleared leaderKey enabled
    (collected_of_returns returned)) fun _ _ _ => trivial

/-- What a run knows once it has read the list. -/
structure KnowsList (list : List RebootListEntry) (v : View) : Prop where
  seen : v.seen = { Observed.nothing with list := some list }
  queued : ∀ x ∈ v.store.list, x.status = .queued → x ∈ list

theorem KnowsList.stable (list : List RebootListEntry) : world.Stable (KnowsList list) :=
  fun _ _ knows rely => ⟨rely.seen.trans knows.seen,
    fun x member status => knows.queued x (rely.queued x member status) status⟩

/-- What a run knows once it has read the queue as well. -/
def KnowsBoth (list : List RebootListEntry) (queue : List RebootQueueEntry) (v : View) : Prop :=
  Knows (.start list queue v.store.group) v

theorem KnowsBoth.stable (list : List RebootListEntry) (queue : List RebootQueueEntry) :
    world.Stable (KnowsBoth list queue) := by
  intro v w knows rely
  unfold KnowsBoth
  rw [rely.group]
  exact Knows.stable _ v w knows rely

theorem KnowsList.readQueue {list : List RebootListEntry} {v : View} (knows : KnowsList list v)
    (wf : v.store.WellFormed) :
    KnowsBoth list (v.store.queue.map (·.entry))
      ⟨v.store, v.seen.note .getRebootsEntries (v.store.queue.map (·.entry))⟩ := by
  have seen := knows.seen
  refine ⟨?_, rfl, ?_, ?_, rfl, ?_, ?_, ?_⟩
  · simp only [Observed.note, seen, Stage.start]
  · simp only [Observed.note, seen, Stage.start, Observed.nothing]
  · simp only [Observed.note, seen, Stage.start, Observed.nothing]
  · intro q read
    obtain ⟨r, member, rfl⟩ := List.mem_map.mp read
    exact wf.queueBelow r member
  · exact fun x stored status => .inl (knows.queued x stored status)
  · intro r member active
    refine .inl ⟨r.entry, List.mem_map.mpr ⟨r, member, rfl⟩, rfl, rfl, ?_⟩
    simpa [Registered.active] using active

/-- Every run of the controller makes its calls only in states that permit them. -/
theorem conforms_runOnce (c : Controller) (leaderKey : Nat) (allGroups : List String) :
    Conforms world Permits (c.runOnce leaderKey allGroups) (fun v => v.seen = .nothing)
      fun _ _ => True := by
  have fresh : world.Stable fun v => v.seen = .nothing :=
    fun v w nothing rely => rely.seen.trans nothing
  -- Is neco-rebooter enabled?
  refine Conforms.call (fun _ v => v.seen = .nothing) (fun _ _ => trivial) (fun _ => fresh) ?_
    fun enabled => ?_
  · rintro v r ⟨store, seen⟩ nothing ⟨wf, answered, rfl⟩
    simp only [Observed.note, nothing, Observed.nothing]
  -- The list.
  refine Conforms.call
    (fun list v => (list.Pairwise fun x y => x.index < y.index) ∧ KnowsList list v)
    (fun _ nothing => nothing)
    (fun list v w holds rely => ⟨holds.1, KnowsList.stable list v w holds.2 rely⟩) ?_
    fun list => Conforms.assume fun sorted => ?_
  · rintro v r ⟨store, seen⟩ nothing ⟨wf, answered, rfl⟩
    cases answered
    refine ⟨wf.sorted_list, ?_, fun x member _ => member⟩
    simp only [Observed.note, nothing, Observed.nothing]
  -- The queue.
  refine Conforms.call
    (fun queue v => (queue.Pairwise fun q q' => q.index < q'.index) ∧ KnowsBoth list queue v)
    (fun v knows => ⟨list, knows.seen⟩)
    (fun queue v w holds rely => ⟨holds.1, KnowsBoth.stable list queue v w holds.2 rely⟩) ?_
    fun queue => Conforms.assume fun queueSorted => ?_
  · rintro v r ⟨store, seen⟩ knows ⟨wf, answered, rfl⟩
    cases answered
    exact ⟨List.pairwise_map.mpr wf.queueSorted, knows.readQueue wf⟩
  -- The processing group.
  refine Conforms.call (fun group => Knows (.start list queue group)) (fun _ _ => trivial)
    (fun _ => Knows.stable _) ?_ fun group => ?_
  · rintro v r ⟨store, seen⟩ knows ⟨wf, answered, rfl⟩
    cases answered
    exact Knows.free knows
  -- From here on the run acts.
  have quietly {α : Type} {p : Prog α} (uses : p.Uses Call.isQuiet) :
      Conforms world Permits p (Knows (.start list queue group))
        fun _ => Knows (.start list queue group) :=
    (conforms_quiet (Knows.stable _) (fun _ knows => knows.free) uses).mono
      (fun _ knows => knows) fun _ _ holds => holds.1
  refine Conforms.bind (p := getAllGroups list)
    (quietly ⟨trivial, fun _ => trivial⟩) fun currentAllGroups => ?_
  refine Conforms.bind (quietly (c.uses_candidates _ _)) fun candidate => ?_
  exact conforms_afterReads (Stage.proper_start sorted queueSorted group) rfl rfl c leaderKey
    enabled candidate _

end Neco.Rebooter
