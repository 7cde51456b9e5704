import Neco.Properties.Grouping

/-!
# One queue entry per node

`collectEntries` compares every pending entry with the queue that was read before the loop
that enqueues, so two pending entries of one node and group are both enqueued. When no run
reads such twins, a node has at most one active queue entry: across runs the queue that is
read holds what an earlier run or a crashed one has registered.
-/

namespace Neco.Rebooter

/-- No two pending entries of one node and group. -/
def NoTwins (list : List RebootListEntry) : Prop :=
  ∀ x ∈ list, ∀ y ∈ list, x.status = .pending → y.status = .pending → x.node = y.node →
    x.group = y.group → x.index = y.index

instance (list : List RebootListEntry) : Decidable (NoTwins list) := by
  unfold NoTwins
  infer_instance

/-- The controller reads the list only when it holds no two pending entries of one node and
group. -/
def ReadsNoTwins (s : System) : Action → Prop
  | .controller _ => s.current = some .getRebootListEntries → NoTwins s.store.list
  | _ => True

instance (s : System) : ∀ a, Decidable (ReadsNoTwins s a)
  | .controller _ => inferInstanceAs (Decidable (_ → _))
  | .elect | .crash | .expire | .tick | .command _ | .client .. | .kill _ | .cke _ =>
    .isTrue trivial

/-- A node has one active queue entry, registered for an entry of the node. -/
structure UniqueStore (s : Store) : Prop extends GroupedStore s where
  unique : ∀ r ∈ s.queue, ∀ r' ∈ s.queue, r.active = true → r'.active = true →
    r.entry.node = r'.entry.node → r.entry.index = r'.entry.index
  origin : ∀ r ∈ s.queue, r.active = true → r.origin.node = r.entry.node

/-- The run has read no twins and has registered entries that it read as pending. -/
structure UniqueRun (v : View) : Prop extends GroupedRun v where
  noTwins : NoTwins v.seen.entries
  pending : ∀ n ∈ v.seen.registered, { n with status := .pending } ∈ v.seen.entries

theorem UniqueStore.shrinks {s t : Store} (store : UniqueStore s) (shrinks : s.Shrinks t) :
    UniqueStore t := by
  refine ⟨store.toGroupedStore.shrinks shrinks, ?_, ?_⟩
  · intro r member r' member' active active' same
    obtain ⟨r₀, member₀, active₀, index, node, _⟩ := shrinks.active r member active
    obtain ⟨r₁, member₁, active₁, index', node', _⟩ := shrinks.active r' member' active'
    rw [← index, ← index']
    exact store.unique r₀ member₀ r₁ member₁ active₀ active₁ (node.trans (same.trans node'.symm))
  · intro r member active
    obtain ⟨r₀, member₀, active₀, _, node, origin⟩ := shrinks.active r member active
    rw [← origin, ← node]
    exact store.origin r₀ member₀ active₀

theorem UniqueRun.shrinks {v w : View} (run : UniqueRun v) (shrinks : v.store.Shrinks w.store)
    (list : w.seen.list = v.seen.list) (registered : w.seen.registered = v.seen.registered)
    (moved : w.seen.moved = v.seen.moved) : UniqueRun w := by
  have entries : w.seen.entries = v.seen.entries := by rw [Observed.entries, list, Observed.entries]
  refine ⟨run.toGroupedRun.shrinks shrinks list registered moved, ?_, ?_⟩
  · rw [entries]
    exact run.noTwins
  · rw [entries, registered]
    exact run.pending

/-- No active queue entry has the node of an entry that is about to be enqueued: it would
have been registered in this run, for a twin of the entry. -/
theorem UniqueRun.alone {v : View} (store : UniqueStore v.store) (run : UniqueRun v)
    {q : RebootQueueEntry} {origin : RebootListEntry} (may : MayRegister v q origin) :
    ∀ r ∈ v.store.queue, r.active = true → r.entry.node ≠ origin.node := by
  intro r member active node
  have registered := may.alone r member active node
  have group : r.origin.group = origin.group :=
    (run.registered (List.ne_nil_of_mem registered) r member active).trans may.group
  have twin := run.noTwins _ (run.pending r.origin registered) _ may.read rfl rfl
    ((store.origin r member active).trans node) group
  exact may.once r.origin registered twin

theorem unique_acted {v w : View} (store : UniqueStore v.store) (run : UniqueRun v)
    (read : w.seen.list ≠ v.seen.list → NoTwins v.store.list) (acted : Acted v w) :
    UniqueStore w.store ∧ UniqueRun w := by
  obtain ⟨grouped, groupedRun⟩ := grouped_acted store.toGroupedStore run.toGroupedRun acted
  obtain ⟨t, seen⟩ := w
  cases acted with
  | shrank shrinks list registered moved =>
    exact ⟨store.shrinks shrinks, run.shrinks shrinks list registered moved⟩
  | readList nothing same seen =>
    dsimp only at same seen
    subst same seen
    refine ⟨store, groupedRun, read ?_, List.forall_mem_nil _⟩
    rw [nothing]
    exact nofun
  | registered origin may same seen =>
    dsimp only at same seen
    subst same seen
    have alone := run.alone store may
    refine ⟨⟨grouped, ?_, ?_⟩, groupedRun, run.noTwins, ?_⟩
    · intro r member r' member' active active' node
      rcases List.mem_append.mp member with old | new <;>
        rcases List.mem_append.mp member' with old' | new'
      · exact store.unique r old r' old' active active' node
      · obtain rfl := List.mem_singleton.mp new'
        exact absurd node (alone r old active)
      · obtain rfl := List.mem_singleton.mp new
        exact absurd node.symm (alone r' old' active')
      · rw [List.mem_singleton.mp new, List.mem_singleton.mp new']
    · intro r member active
      rcases List.mem_append.mp member with old | new
      · exact store.origin r old active
      · obtain rfl := List.mem_singleton.mp new
        rfl
    · intro n registered
      rcases List.mem_append.mp registered with old | new
      · exact run.pending n old
      · obtain rfl := List.mem_singleton.mp new
        exact may.read
  | enqueued e registered same seen =>
    dsimp only at same seen
    subst same seen
    exact ⟨⟨grouped, store.unique, store.origin⟩, groupedRun, run.noTwins, run.pending⟩
  | moved group may same seen =>
    dsimp only at same seen
    subst same seen
    exact ⟨⟨grouped, store.unique, store.origin⟩, groupedRun, run.noTwins, run.pending⟩

theorem unique_of_reached {cfg : Config} {s : System} (reached : Reached cfg ReadsNoTwins s) :
    UniqueStore s.store ∧ ∀ run, s.run = some run → UniqueRun ⟨s.store, run.seen⟩ := by
  have fresh (s : Store) (store : UniqueStore s) : UniqueRun ⟨s, .nothing⟩ :=
    ⟨⟨fun _ _ _ _ _ _ => List.forall_mem_nil _, fun some => absurd rfl some⟩,
      List.forall_mem_nil _, List.forall_mem_nil _⟩
  refine reached.viewInvariant (C := fun s => NoTwins s.list) (fun s input admitted => admitted)
    ⟨⟨List.forall_mem_nil _, List.forall_mem_nil _⟩, List.forall_mem_nil _, List.forall_mem_nil _⟩
    fresh (fun _ _ store shrinks => store.shrinks shrinks) (fun v w _ run rely => ?_)
    fun v w store run read acted => unique_acted store run read acted
  exact run.shrinks rely.shrinks (by rw [rely.seen]) (by rw [rely.seen]) (by rw [rely.seen])

/-- A list sorted by a key that all its elements share. -/
theorem length_le_one_of_sorted {α : Type} {key : α → Int} {l : List α}
    (sorted : l.Pairwise fun x y => key x < key y) (same : ∀ x ∈ l, ∀ y ∈ l, key x = key y) :
    l.length ≤ 1 := by
  cases l with
  | nil => exact Nat.zero_le 1
  | cons x rest =>
    cases rest with
    | nil => exact Nat.le_refl 1
    | cons y rest =>
      have less := (List.pairwise_cons.mp sorted).1 y (List.mem_cons_self ..)
      have equal := same x (List.mem_cons_self ..) y
        (List.mem_cons_of_mem _ (List.mem_cons_self ..))
      omega

/-- In every run in which the controller reads no two pending entries of one node and group,
a node has at most one active entry in CKE's reboot queue. -/
theorem node_queued_once (cfg : Config) (s : System) (reached : Reached cfg ReadsNoTwins s)
    (node : String) :
    (s.store.queue.filter fun r => r.active ∧ r.entry.node = node).length ≤ 1 := by
  have unique := (unique_of_reached reached).1.unique
  have sorted : s.store.queue.Pairwise fun r r' => r.entry.index < r'.entry.index :=
    reached.invariant (fun s => s.store.queue.Pairwise fun r r' => r.entry.index < r'.entry.index)
      .nil fun _ _ _ _ _ _ _ sound => sound.wf.queueSorted
  -- Two such entries would have one index, but the queue is sorted by it.
  refine length_le_one_of_sorted (sorted.filter _) fun r member r' member' => ?_
  obtain ⟨queued, chosen⟩ := List.mem_filter.mp member
  obtain ⟨queued', chosen'⟩ := List.mem_filter.mp member'
  obtain ⟨active, here⟩ := of_decide_eq_true chosen
  obtain ⟨active', here'⟩ := of_decide_eq_true chosen'
  exact unique r queued r' queued' active active' (here.trans here'.symm)

/-- A run enqueues the node and crashes before it marks the entry as queued; the user adds the
node again, under another zone, and a second run starts. -/
def addedAgain : System := .play openConfig ReadsNoTwins <|
  userRuns 0 .enable 1 ++ userRuns 1 (.add [nodeIn "a" "n"] false ["n"]) 2 ++
  [.elect, .tick] ++ controllerRuns 10 ["a"] ++ [.crash, .expire] ++
  userRuns 2 (.add [nodeIn "b" "n"] false ["n"]) 2 ++
  [.elect, .tick] ++ controllerRuns 4 ["a", "b"]

theorem node_queued_once_addedAgain :
    addedAgain.store.list.map (fun e => (e.node, e.group, e.status)) =
        [("n", "a", .pending), ("n", "b", .pending)] ∧
      addedAgain.store.queue.map (fun r => (r.entry.node, r.active)) = [("n", true)] ∧
      (addedAgain.store.queue.filter fun r => r.active ∧ r.entry.node = "n").length ≤ 1 :=
  ⟨by decide +kernel, by decide +kernel,
    node_queued_once openConfig addedAgain (reached_play _ _ _) "n"⟩

/-- A user adds a node twice before the run. -/
def addedTwice : System := .play openConfig Transition.always <|
  userRuns 0 .enable 1 ++ userRuns 1 (.add [nodeIn "a" "n"] false ["n", "n"]) 4 ++
  [.elect, .tick] ++ controllerRuns 17 ["a"]

/-- The run registers two queue entries for the node, and both are active. -/
theorem node_queued_twice :
    Reached openConfig Transition.always addedTwice ∧
      (addedTwice.store.queue.filter fun r => r.active ∧ r.entry.node = "n").length = 2 ∧
      addedTwice.store.list.map (·.status) = [.queued, .queued] :=
  ⟨reached_play _ _ _, by decide +kernel, by decide +kernel⟩

end Neco.Rebooter
