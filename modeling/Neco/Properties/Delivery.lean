import Neco.Rebooter.Steps
import Neco.Lib.History

/-!
# No request is dropped

A run reads "queued, but not in the queue" as "rebooted". List and queue entries are matched
by node, so when a node has several list entries, the queue entry of a queued one may be
cancelled on behalf of another, and its request is dropped. When a queued entry is alone for
its node, only a reboot by CKE removes its queue entry.
-/

namespace Neco.Rebooter

open History

/-! ### What a removal needs -/

/-- A user has set the entry `index` to cancelled. -/
def UserCancelled (events : List Event) (index : Int) : Prop :=
  ∃ e, Event.updated .user e ∈ events ∧ e.index = index ∧ e.status = .cancelled

/-- After the entry `index` was stored as queued, CKE has deleted a queue entry of its node
that nobody had cancelled. -/
def RebootedSince (events : List Event) (index : Int) : Prop :=
  ∃ early e late, events = early ++ .updated .controller e :: late ∧ e.index = index ∧
    e.status = .queued ∧ Event.rebooted e.node ∈ late

/-- The entry `index` may be removed. -/
def Served (events : List Event) (index : Int) : Prop :=
  UserCancelled events index ∨ RebootedSince events index

theorem UserCancelled.append {events : List Event} {index : Int}
    (cancelled : UserCancelled events index) (more : List Event) :
    UserCancelled (events ++ more) index := by
  obtain ⟨e, member, rest⟩ := cancelled
  exact ⟨e, List.mem_append_left more member, rest⟩

theorem Served.append {events : List Event} {index : Int} (served : Served events index)
    (more : List Event) : Served (events ++ more) index := by
  rcases served with cancelled | ⟨early, e, late, split, index, status, rebooted⟩
  · exact .inl (cancelled.append more)
  · refine .inr ⟨early, e, late ++ more, ?_, index, status, List.mem_append_left more rebooted⟩
    rw [split, List.append_assoc, List.cons_append]

/-- Every removal was of an entry that may be removed. -/
def RemovesServed (before : List Event) : Event → Prop
  | .removed index => Served before index
  | _ => True

/-! ### The condition -/

/-- A queued entry is the only one of its node. -/
def QueuedAlone (list : List RebootListEntry) : Prop :=
  ∀ x ∈ list, ∀ y ∈ list, x.status = .queued → y.node = x.node → y.index = x.index

instance (list : List RebootListEntry) : Decidable (QueuedAlone list) := by
  unfold QueuedAlone
  infer_instance

/-- The controller reads the list only when every queued entry is the only one of its node,
and CKE does not finish a node while the controller is about to store its entry as queued. -/
def KeepsMatched (s : System) : Action → Prop
  | .controller _ => s.current = some .getRebootListEntries → QueuedAlone s.store.list
  | .cke (.delete index) => ∀ r ∈ s.store.queue, r.entry.index = index → r.active = true →
      ∀ e ∈ s.current.bind Call.written, e.status = .queued → e.node ≠ r.entry.node
  | _ => True

instance (s : System) (a : Action) : Decidable (KeepsMatched s a) := by
  unfold KeepsMatched
  split <;> infer_instance

/-! ### The invariant -/

/-- An active queue entry of the node. -/
def Waits (s : Store) (node : String) : Prop :=
  ∃ r ∈ s.queue, r.active = true ∧ r.entry.node = node

structure DeliveredStore (s : Store) : Prop where
  each : Each RemovesServed s.events
  cancelled : ∀ x ∈ s.list, x.status = .cancelled → UserCancelled s.events x.index
  written : ∀ x ∈ s.list, x.status = .queued → Event.updated .controller x ∈ s.events
  queued : ∀ x ∈ s.list, x.status = .queued → Served s.events x.index ∨ Waits s x.node

structure DeliveredRun (v : View) : Prop where
  alone : QueuedAlone v.seen.entries
  cancelled : ∀ x ∈ v.seen.entries, x.status = .cancelled → UserCancelled v.store.events x.index
  /-- Until the run reads the queue, what it has read of the list is stored. -/
  current : v.seen.queue = none → ∀ x ∈ v.seen.entries, x.status = .queued →
    x ∈ v.store.list ∨ UserCancelled v.store.events x.index
  /-- A queued entry that the run misses in the queue may be removed. -/
  missed : ∀ queue, v.seen.queue = some queue → ∀ x ∈ v.seen.entries, x.status = .queued →
    (∀ q ∈ queue, q.node ≠ x.node) → Served v.store.events x.index

/-- Steps that write no entry as queued or cancelled, and after which the queued entries are
still waiting or may be removed. -/
theorem DeliveredStore.keep {s t : Store} (store : DeliveredStore s) (more : List Event)
    (events : t.events = s.events ++ more) (each : Each RemovesServed t.events)
    (list : ∀ x ∈ t.list, x.status = .pending ∨ x ∈ s.list)
    (waits : ∀ x ∈ t.list, x ∈ s.list → x.status = .queued → Waits s x.node →
      Served t.events x.index ∨ Waits t x.node) : DeliveredStore t := by
  have old (x : RebootListEntry) (member : x ∈ t.list) (status : x.status ≠ .pending) :
      x ∈ s.list := (list x member).resolve_left status
  refine ⟨each, fun x member status => ?_, fun x member status => ?_, fun x member status => ?_⟩
  · rw [events]
    exact (store.cancelled x (old x member (by rw [status]; exact nofun)) status).append more
  · rw [events]
    exact List.mem_append_left more
      (store.written x (old x member (by rw [status]; exact nofun)) status)
  · have stored := old x member (by rw [status]; exact nofun)
    rcases store.queued x stored status with served | waiting
    · rw [events]
      exact .inl (served.append more)
    · exact waits x member stored status waiting

/-- The write of a stored entry. -/
theorem DeliveredStore.putEntry {s : Store} (store : DeliveredStore s) (wf : s.WellFormed)
    {writer : Writer} {e : RebootListEntry}
    (cancelled : e.status = .cancelled → writer = .user)
    (queued : e.status = .queued → writer = .controller ∧ Waits s e.node) :
    DeliveredStore (s.putEntry writer e) := by
  have events : (s.putEntry writer e).events = s.events ++ [.updated writer e] := rfl
  refine ⟨?_, fun x member status => ?_, fun x member status => ?_, fun x member status => ?_⟩
  · rw [events, each_concat]
    exact ⟨store.each, trivial⟩
  · rcases (Store.mem_list_putEntry wf).mp member with rfl | ⟨old, _⟩
    · cases cancelled status
      exact ⟨x, by simp [events], rfl, status⟩
    · exact (store.cancelled x old status).append _
  · rcases (Store.mem_list_putEntry wf).mp member with rfl | ⟨old, _⟩
    · cases (queued status).1
      simp [events]
    · exact List.mem_append_left _ (store.written x old status)
  · rcases (Store.mem_list_putEntry wf).mp member with rfl | ⟨old, _⟩
    · exact .inr (queued status).2
    · exact (store.queued x old status).imp_left fun served => served.append _

theorem DeliveredRun.keep {v w : View} (run : DeliveredRun v) (more : List Event)
    (events : w.store.events = v.store.events ++ more) (list : w.seen.list = v.seen.list)
    (queue : w.seen.queue = v.seen.queue)
    (stored : v.seen.queue = none → ∀ x ∈ v.store.list, x.status = .queued →
      x ∈ w.store.list ∨ UserCancelled w.store.events x.index) : DeliveredRun w := by
  have same : w.seen.entries = v.seen.entries := by rw [Observed.entries, list, Observed.entries]
  constructor
  · rw [same]
    exact run.alone
  · rw [same, events]
    exact fun x read status => (run.cancelled x read status).append more
  · rw [same, queue]
    intro unread x read status
    rcases run.current unread x read status with old | cancelled
    · exact stored unread x old status
    · exact .inr (events ▸ cancelled.append more)
  · rw [same, queue, events]
    exact fun q here x read status missing => (run.missed q here x read status missing).append more

/-! ### The steps of the others -/

theorem Waits.changeQueued {s : Store} {node : String} (waits : Waits s node) (index : Int)
    {f : RebootQueueEntry → RebootQueueEntry}
    (kept : ∀ q, (f q).index = q.index ∧ (f q).node = q.node ∧
      ((f q).status = .cancelled ↔ q.status = .cancelled)) :
    Waits (s.changeQueued index f) node := by
  obtain ⟨r, member, active, here⟩ := waits
  refine ⟨_, List.mem_map.mpr ⟨r, member, rfl⟩, ?_⟩
  split
  · obtain ⟨_, sameNode, status⟩ := kept r.entry
    refine ⟨?_, sameNode.trans here⟩
    simpa only [Registered.active, bne_iff_ne, ne_eq, status] using active
  · exact ⟨active, here⟩

/-- After CKE has deleted `r`, a node still waits unless `r` was its active entry. -/
theorem Waits.deleteQueued {s : Store} (wf : s.WellFormed) {node : String} (waits : Waits s node)
    {r : Registered} (member : r ∈ s.queue) :
    Waits (s.deleteQueued r) node ∨ r.active = true ∧ r.entry.node = node := by
  obtain ⟨r', member', active, here⟩ := waits
  by_cases same : r'.entry.index = r.entry.index
  · obtain rfl := Ordered.eq_of_key wf.queueSorted member' member same
    exact .inr ⟨active, here⟩
  · exact .inl ⟨r', List.mem_filter.mpr ⟨member', decide_eq_true same⟩, active, here⟩

/-- Once CKE has rebooted the node of a queued entry, the entry may be removed. -/
theorem DeliveredStore.rebooted {s : Store} (store : DeliveredStore s) {x : RebootListEntry}
    (stored : x ∈ s.list) (status : x.status = .queued) :
    Served (s.events ++ [.rebooted x.node]) x.index := by
  obtain ⟨early, late, split⟩ := List.append_of_mem (store.written x stored status)
  exact .inr ⟨early, x, late ++ [.rebooted x.node], by simp [split], rfl, status, by simp⟩

theorem delivered_others {s : System} {a : Action} {t : Store} (sound : Sound s)
    (store : DeliveredStore s.store)
    (run : ∀ run, s.run = some run → DeliveredRun ⟨s.store, run.seen⟩)
    (enqueueing : ∀ e, s.current = some (.updateRebootListEntry e) → e.status = .queued →
      Waits s.store e.node)
    (admitted : KeepsMatched s a) (others : Others s a t) :
    DeliveredStore t ∧ (∀ run, s.run = some run → DeliveredRun ⟨t, run.seen⟩) ∧
      ∀ e, s.current = some (.updateRebootListEntry e) → e.status = .queued → Waits t e.node := by
  cases others with
  | frame frame =>
    -- neither the list nor the queue changes
    have events : t.events = s.store.events ++ [] := by rw [frame.events, List.append_nil]
    have waits (node : String) : Waits s.store node → Waits t node := by
      rw [Waits, Waits, frame.queue]
      exact id
    refine ⟨store.keep [] events ?_ ?_ fun x _ _ _ waiting => .inr (waits x.node waiting),
      fun r before => (run r before).keep [] events rfl rfl ?_,
      fun e current status => waits e.node (enqueueing e current status)⟩
    · rw [frame.events]
      exact store.each
    · rw [frame.list]
      exact fun x member => .inr member
    · intro _ x stored _
      exact .inl (by rwa [frame.list])
  | @cancelled position input e x action committing status stored key =>
    -- a user's write; for the run the entry is then a cancelled one
    refine ⟨store.putEntry sound.wf (fun _ => rfl) fun queued => ?_,
      fun r before => (run r before).keep _ rfl rfl rfl fun _ y old _ => ?_, enqueueing⟩
    · cases status.symm.trans queued
    · by_cases same : y.index = e.index
      · exact .inr ⟨e, by simp [Store.putEntry], same.symm, status⟩
      · exact .inl ((Store.mem_list_putEntry sound.wf).mpr (.inr ⟨old, same⟩))
  | added status =>
    refine ⟨store.keep _ rfl ?_ (fun x member => ?_) fun x _ _ _ waiting => .inr waiting,
      fun r before => (run r before).keep _ rfl rfl rfl fun _ y old _ =>
        .inl ((Store.mem_list_appendEntry sound.wf).mpr (.inr old)), enqueueing⟩
    · exact (each_concat _ _ _).mpr ⟨store.each, trivial⟩
    · rcases (Store.mem_list_appendEntry sound.wf).mp member with rfl | old
      · exact .inl status
      · exact .inr old
  | changed index kept =>
    exact ⟨store.keep [] (List.append_nil _).symm store.each (fun x member => .inr member)
        fun x _ _ _ waiting => .inr (waiting.changeQueued index kept),
      fun r before => (run r before).keep [] (List.append_nil _).symm rfl rfl
        fun _ y old _ => .inl old,
      fun e current status => (enqueueing e current status).changeQueued index kept⟩
  | @deleted r action member =>
    refine ⟨store.keep _ rfl ?_ (fun x old => .inr old) fun x _ stored status waiting => ?_,
      fun r' before => (run r' before).keep _ rfl rfl rfl fun _ y old _ => .inl old,
      fun e current status => ?_⟩
    · refine (each_concat _ _ _).mpr ⟨store.each, ?_⟩
      split <;> trivial
    · -- CKE deletes the active queue entry of the node: this is the reboot that was waited for
      rcases waiting.deleteQueued sound.wf member with still | ⟨active, node⟩
      · exact .inr still
      · left
        simp only [Store.deleteQueued, active, if_true, node]
        exact store.rebooted stored status
    · -- CKE does not finish the node that is being marked as queued.
      subst action
      refine ((enqueueing e current status).deleteQueued sound.wf member).resolve_right ?_
      rintro ⟨active, node⟩
      exact admitted r member rfl active e (by simp [current, Call.written]) status node.symm

/-! ### The steps of the run -/

/-- The queue entries that a run cancels are not those of queued entries. -/
theorem DeliveredRun.cancel {s : Store} {seen : Observed} (run : DeliveredRun ⟨s, seen⟩)
    {q : RebootQueueEntry} (may : MayCancel ⟨s, seen⟩ q) {x : RebootListEntry} (stored : x ∈ s.list)
    (status : x.status = .queued) (waits : Waits s x.node) : Waits (s.putQueued q) x.node := by
  have other : x.node ≠ q.node := by
    intro same
    obtain ⟨read, y, readY, node, index⟩ := may.several x stored status same
    exact index (run.alone x read y readY status node)
  obtain ⟨r, member, active, here⟩ := waits
  have kept : r.entry.index ≠ q.index := fun same =>
    other (here.symm.trans (may.node r member active same))
  exact ⟨r, List.mem_map.mpr ⟨r, member, if_neg kept⟩, active, here⟩

theorem delivered_answered {s t : Store} {seen : Observed} {c : Call} {r : Reply c}
    (wf : s.WellFormed) (store : DeliveredStore s) (run : DeliveredRun ⟨s, seen⟩)
    (permitted : Permits ⟨s, seen⟩ c)
    (listed : c = .getRebootListEntries → QueuedAlone s.list)
    (enqueueing : ∀ e, c = .updateRebootListEntry e → e.status = .queued → Waits s e.node)
    (answered : Answered .controller s c r t) :
    DeliveredStore t ∧ DeliveredRun ⟨t, seen.note c r⟩ := by
  -- The writes come after the run has read the queue.
  have writes (read : seen.queue.isSome = true) (w : View) : seen.queue = none →
      ∀ x ∈ s.list, x.status = .queued →
        x ∈ w.store.list ∨ UserCancelled w.store.events x.index := by
    intro unread
    rw [unread] at read
    cases read
  cases answered with
  | entries =>
    obtain rfl : seen = .nothing := permitted
    refine ⟨store, listed rfl, store.cancelled, fun _ x read _ => .inl read, ?_⟩
    intro queue unread
    cases unread
  | queue =>
    obtain ⟨list, rfl⟩ := permitted
    refine ⟨store, run.alone, run.cancelled, ?_, ?_⟩
    · intro unread
      cases unread
    · intro queue same x read status missing
      cases same
      rcases run.current rfl x read status with stored | cancelled
      · refine (store.queued x stored status).resolve_right ?_
        rintro ⟨r, member, _, node⟩
        exact missing r.entry (List.mem_map.mpr ⟨r, member, rfl⟩) node
      · exact .inl cancelled
  | @updated e x stored key =>
    obtain ⟨read, may⟩ := permitted
    refine ⟨store.putEntry wf (fun cancelled => ?_) fun queued => ⟨rfl, enqueueing e rfl queued⟩,
      run.keep _ rfl rfl rfl (writes read _)⟩
    rcases may with ⟨queued, _⟩ | ⟨pending, _⟩
    · cases queued.symm.trans cancelled
    · cases pending.symm.trans cancelled
  | removed e =>
    obtain ⟨isRead, read, reason⟩ := permitted
    have served : Served s.events e.index := by
      rcases reason with cancelled | ⟨queued, missing⟩
      · exact .inl (run.cancelled e read cancelled)
      · obtain ⟨queue, same⟩ := Option.isSome_iff_exists.mp isRead
        refine run.missed queue same e read queued fun q member => missing q ?_
        rwa [Observed.queueEntries, same]
    refine ⟨store.keep _ rfl ((each_concat _ _ _).mpr ⟨store.each, served⟩)
      (fun x member => .inr (Store.mem_list_removeEntry.mp member).1)
      fun x _ _ _ waiting => .inr waiting, run.keep _ rfl rfl rfl (writes isRead _)⟩
  | registered q origin =>
    refine ⟨store.keep _ rfl ((each_concat _ _ _).mpr ⟨store.each, trivial⟩)
      (fun x member => .inr member) ?_, run.keep _ rfl rfl rfl (writes permitted.1 _)⟩
    rintro x _ _ _ ⟨r, member, rest⟩
    exact .inr ⟨r, List.mem_append_left _ member, rest⟩
  | moved group =>
    exact ⟨store.keep [] (List.append_nil _).symm store.each (fun x member => .inr member)
      fun x _ _ _ waiting => .inr waiting,
      run.keep [] (List.append_nil _).symm rfl rfl (writes permitted.1 _)⟩
  | changed q =>
    exact ⟨store.keep [] (List.append_nil _).symm store.each (fun x member => .inr member)
      fun x _ stored status waiting => .inr (run.cancel permitted.2 stored status waiting),
      run.keep [] (List.append_nil _).symm rfl rfl (writes permitted.1 _)⟩
  | enable => cases permitted
  | found => cases permitted
  | added => cases permitted
  | _ =>
    exact ⟨store, run.keep [] (List.append_nil _).symm rfl rfl fun _ x stored _ => .inl stored⟩

/-- When a run gets to store an entry as queued, its last call has registered it. -/
theorem waits_after {s t : System} {run : Run} {c : Call} {next : Reply c → Prog (List String)}
    {r : Reply c} (sound : Sound t) (permitted : Permits ⟨s.store, run.seen⟩ c)
    (answered : Answered .controller s.store c r t.store)
    (after : t.run = some ⟨next r, .start, run.seen.note c r⟩) {e : RebootListEntry}
    (current : t.current = some (.updateRebootListEntry e)) (queued : e.status = .queued) :
    Waits t.store e.node := by
  have atCall : ∃ rest, next r = .call (.updateRebootListEntry e) rest := by
    simp only [System.current, after] at current
    split at current
    next c' next' progress seen same =>
      cases current
      exact ⟨next', congrArg Run.prog (Option.some.inj same)⟩
    · cases current
  obtain ⟨rest, prog⟩ := atCall
  have running := sound.running _ after
  simp only [prog] at running
  obtain ⟨_, ⟨_, enqueueing, _⟩ | ⟨pending, _⟩⟩ := running.permitted
  · generalize t.store = store at answered ⊢
    cases answered with
    | registered q origin =>
      cases enqueueing
      obtain rfl := permitted.2.new
      exact ⟨_, List.mem_append_right _ (List.mem_singleton_self _), rfl, rfl⟩
    | _ => cases enqueueing
  · cases pending.symm.trans queued

/-- What holds in every state of an undisturbed run. -/
structure Delivered (s : System) : Prop where
  store : DeliveredStore s.store
  run : ∀ run, s.run = some run → DeliveredRun ⟨s.store, run.seen⟩
  enqueueing : ∀ e, s.current = some (.updateRebootListEntry e) → e.status = .queued →
    Waits s.store e.node

theorem delivered_initial : Delivered .initial where
  store := ⟨each_nil _, List.forall_mem_nil _, List.forall_mem_nil _, List.forall_mem_nil _⟩
  run := fun _ running => nomatch (running : none = some _)
  enqueueing := fun _ current => nomatch (current : none = some _)

theorem Delivered.step {s t : System} {a : Action} (delivered : Delivered s) (sound : Sound s)
    (admitted : KeepsMatched s a) (stepped : Stepped s a t) (sound' : Sound t) : Delivered t := by
  obtain ⟨store, run, enqueueing⟩ := delivered
  cases stepped with
  | others others same =>
    have sameCall : t.current = s.current := by rw [System.current, same, System.current]
    obtain ⟨store', run', enqueueing'⟩ :=
      delivered_others sound store run enqueueing admitted others
    refine ⟨store', ?_, ?_⟩
    · rw [same]
      exact run'
    · rw [sameCall]
      exact enqueueing'
  | restarted frame fresh current =>
    refine ⟨(delivered_others (a := .crash) sound store run enqueueing trivial (.frame frame)).1,
      fun r running => ?_, fun e now => ?_⟩
    · rw [fresh r running]
      refine ⟨List.forall_mem_nil _, List.forall_mem_nil _, fun _ => List.forall_mem_nil _, ?_⟩
      intro queue unread
      cases unread
    · cases current _ now
  | waited r progress before after same =>
    have sameCall : t.current = s.current := by
      obtain ⟨prog, _, seen⟩ := r
      simp only [System.current, before, after]
      cases prog <;> rfl
    rw [same.symm] at store run enqueueing
    refine ⟨store, fun r' running => ?_, sameCall ▸ enqueueing⟩
    cases after.symm.trans running
    exact run r before
  | @called r c next reply input action before prog permitted answered after =>
    have current := System.current_eq before prog
    subst action
    obtain ⟨store', run'⟩ := delivered_answered sound.wf store (run r before) permitted
      (fun same => admitted (current.trans (congrArg some same)))
      (fun e same => enqueueing e (current.trans (congrArg some same))) answered
    rcases after with ended | continued
    · refine ⟨store', fun r' running => ?_, fun e now => ?_⟩
      · cases ended.symm.trans running
      · simp only [System.current, ended] at now
        cases now
    · refine ⟨store', fun r' running => ?_, fun e now queued => ?_⟩
      · cases continued.symm.trans running
        exact run'
      · exact waits_after sound' permitted answered continued now queued

/-- In every run in which the controller reads a queued entry only as the single entry of its
node, and CKE does not finish a node while its entry is being stored as queued: an entry is
removed only if a user had set it to cancelled, or if it had been stored as queued and CKE
had then deleted a queue entry of its node that nobody had cancelled. -/
theorem removed_only_when_served (cfg : Config) (s : System) (reached : Reached cfg KeepsMatched s)
    (before after : List Event) (index : Int)
    (history : s.store.events = before ++ .removed index :: after) :
    (∃ e, Event.updated .user e ∈ before ∧ e.index = index ∧ e.status = .cancelled) ∨
    ∃ early e late, before = early ++ .updated .controller e :: late ∧ e.index = index ∧
      e.status = .queued ∧ Event.rebooted e.node ∈ late := by
  have delivered : Delivered s := reached.invariant Delivered delivered_initial
    fun _ _ _ sound holds admitted stepped sound' => holds.step sound admitted stepped sound'
  exact delivered.store.each before (.removed index) after history

/-- The node is enqueued, CKE reboots it, and the next run removes its entry. -/
def rebootedAndRemoved : System := .play openConfig KeepsMatched <|
  userRuns 0 .enable 1 ++ userRuns 1 (.add [nodeIn "a" "n"] false ["n"]) 2 ++
  [.elect, .tick] ++ controllerRuns 12 ["a"] ++
  [.cke (.setStatus 0 .draining), .cke (.setStatus 0 .rebooting), .cke (.delete 0), .tick] ++
  controllerRuns 7 ["a"]

theorem removed_only_when_served_rebooted :
    rebootedAndRemoved.store.list = [] ∧
      ((∃ e, Event.updated .user e ∈ rebootedAndRemoved.store.events.take 4 ∧ e.index = 0 ∧
          e.status = .cancelled) ∨
        ∃ early e late, rebootedAndRemoved.store.events.take 4 =
            early ++ .updated .controller e :: late ∧ e.index = 0 ∧ e.status = .queued ∧
          Event.rebooted e.node ∈ late) :=
  ⟨by decide +kernel, removed_only_when_served openConfig rebootedAndRemoved (reached_play _ _ _)
    _ [] 0 (by decide +kernel)⟩

/-- The node is enqueued; a user adds it once more and cancels the second entry; the next run
cancels the queue entry of the node for it, and CKE deletes it unrebooted. -/
def duplicateCancelled : System := .play openConfig Transition.always <|
  userRuns 0 .enable 1 ++ userRuns 1 (.add [nodeIn "a" "n"] false ["n"]) 2 ++
  [.elect, .tick] ++ controllerRuns 12 ["a"] ++
  userRuns 2 (.add [nodeIn "a" "n"] false ["n"]) 2 ++ userRuns 3 (.cancel 1) 3 ++
  [.tick] ++ controllerRuns 10 ["a"] ++ [.cke (.delete 0), .tick] ++ controllerRuns 7 ["a"]

/-- The last run removes the first entry, which nobody has cancelled and whose node has never
been rebooted. -/
theorem request_dropped :
    Reached openConfig Transition.always duplicateCancelled ∧
      duplicateCancelled.store.events =
        [.added (entryForN 0 .pending), .registered ⟨⟨0, "n", .queued, 0⟩, entryForN 0 .queued⟩,
          .updated .controller (entryForN 0 .queued), .added (entryForN 1 .pending),
          .updated .user (entryForN 1 .cancelled), .removed 1, .discarded "n", .removed 0] ∧
      duplicateCancelled.store.list = [] :=
  ⟨reached_play _ _ _, by decide +kernel, by decide +kernel⟩

end Neco.Rebooter
