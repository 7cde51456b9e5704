import Neco.Rebooter.Steps

/-!
# One group in the queue

The processing group may move while queue entries of the old group are still active: they
may have been left behind by a crash or belong to cancelled list entries. Such an entry has
no queued list entry, so the next runs treat it as an orphan and enqueue nothing before it
is gone.
-/

namespace Neco.Rebooter

/-- All active entries were registered for one group, and those of another group than the
processing group have no queued list entry. -/
structure GroupedStore (s : Store) : Prop where
  same : ∀ r ∈ s.queue, ∀ r' ∈ s.queue, r.active = true → r'.active = true →
    r.origin.group = r'.origin.group
  stored : ∀ r ∈ s.queue, r.active = true → r.origin.group ≠ s.group →
    ∀ x ∈ s.list, x.status = .queued → x.node ≠ r.entry.node

/-- The same for the list as the run has read it, until it moves the group; and a run
enqueues only for the processing group. -/
structure GroupedRun (v : View) : Prop where
  read : v.seen.moved = false → ∀ r ∈ v.store.queue, r.active = true →
    r.origin ∉ v.seen.registered → r.origin.group ≠ v.store.group →
    ∀ x ∈ v.seen.entries, x.status = .queued → x.node ≠ r.entry.node
  registered : v.seen.registered ≠ [] → ∀ r ∈ v.store.queue, r.active = true →
    r.origin.group = v.store.group

theorem GroupedStore.shrinks {s t : Store} (grouped : GroupedStore s) (shrinks : s.Shrinks t) :
    GroupedStore t := by
  constructor
  · intro r member r' member' active active'
    obtain ⟨r₀, member₀, active₀, _, _, origin⟩ := shrinks.active r member active
    obtain ⟨r₁, member₁, active₁, _, _, origin'⟩ := shrinks.active r' member' active'
    rw [← origin, ← origin']
    exact grouped.same r₀ member₀ r₁ member₁ active₀ active₁
  · intro r member active other x stored status
    obtain ⟨r₀, member₀, active₀, _, node, origin⟩ := shrinks.active r member active
    rw [shrinks.group, ← origin] at other
    rw [← node]
    exact grouped.stored r₀ member₀ active₀ other x (shrinks.queued x stored status) status

theorem GroupedRun.shrinks {v w : View} (grouped : GroupedRun v)
    (shrinks : v.store.Shrinks w.store) (list : w.seen.list = v.seen.list)
    (registered : w.seen.registered = v.seen.registered) (moved : w.seen.moved = v.seen.moved) :
    GroupedRun w := by
  constructor
  · intro unmoved r member active notRegistered other x read
    obtain ⟨r₀, member₀, active₀, _, node, origin⟩ := shrinks.active r member active
    rw [moved] at unmoved
    rw [registered, ← origin] at notRegistered
    rw [shrinks.group, ← origin] at other
    rw [Observed.entries, list] at read
    rw [← node]
    exact grouped.read unmoved r₀ member₀ active₀ notRegistered other x read
  · intro some r member active
    obtain ⟨r₀, member₀, active₀, _, _, origin⟩ := shrinks.active r member active
    rw [registered] at some
    rw [shrinks.group, ← origin]
    exact grouped.registered some r₀ member₀ active₀

/-- When an entry is enqueued, every active queue entry is of the processing group. -/
theorem GroupedRun.allCurrent {v : View} (grouped : GroupedRun v) {q : RebootQueueEntry}
    {origin : RebootListEntry} (may : MayRegister v q origin) :
    ∀ r ∈ v.store.queue, r.active = true → r.origin.group = v.store.group := by
  intro r member active
  by_cases inRun : r.origin ∈ v.seen.registered
  · exact grouped.registered (List.ne_nil_of_mem inRun) r member active
  · rcases may.grouped r member active with registered | ⟨unmoved, x, read, queued, node⟩
    · exact absurd registered inRun
    · by_contra other
      exact grouped.read unmoved r member active inRun other x read queued node

theorem grouped_acted {v w : View} (store : GroupedStore v.store) (run : GroupedRun v)
    (acted : Acted v w) : GroupedStore w.store ∧ GroupedRun w := by
  obtain ⟨t, seen⟩ := w
  cases acted with
  | shrank shrinks list registered moved =>
    exact ⟨store.shrinks shrinks, run.shrinks shrinks list registered moved⟩
  | readList nothing same seen =>
    dsimp only at same seen
    subst same seen
    exact ⟨store, fun _ r member active _ other => store.stored r member active other,
      fun some => absurd rfl some⟩
  | registered origin may same seen =>
    dsimp only at same seen
    subst same seen
    have current := run.allCurrent may
    -- The new entry is of the processing group as well, so nothing is left behind.
    have all : ∀ r ∈ (v.store.register (newRebootQueueEntry origin.node) origin).queue,
        r.active = true → r.origin.group = v.store.group := by
      intro r member active
      rcases List.mem_append.mp member with old | new
      · exact current r old active
      · obtain rfl := List.mem_singleton.mp new
        exact may.group.symm
    refine ⟨⟨fun r member r' member' active active' => ?_, fun r member active other => ?_⟩,
      fun _ r member active _ other => ?_, fun _ => all⟩
    · rw [all r member active, all r' member' active']
    · exact absurd (all r member active) other
    · exact absurd (all r member active) other
  | enqueued e registered same seen =>
    dsimp only at same seen
    subst same seen
    have current := run.registered (List.ne_nil_of_mem registered)
    exact ⟨⟨store.same, fun r member active other => absurd (current r member active) other⟩,
      fun _ r member active _ other => absurd (current r member active) other, fun _ => current⟩
  | moved group may same seen =>
    dsimp only at same seen
    subst same seen
    exact ⟨⟨store.same, fun r member active _ => may.clear r member active⟩,
      fun unmoved => Bool.noConfusion unmoved, fun some => absurd may.first some⟩

/-- Every state reached is grouped, whatever the side condition of the steps. -/
theorem grouped_of_reached {cfg : Config} {ok : System → Action → Prop} {s : System}
    (reached : Reached cfg ok s) :
    GroupedStore s.store ∧ ∀ run, s.run = some run → GroupedRun ⟨s.store, run.seen⟩ := by
  refine reached.viewInvariant (C := fun _ => True) (fun _ _ _ _ => trivial)
    ⟨List.forall_mem_nil _, List.forall_mem_nil _⟩ (fun s _ => ?_)
    (fun _ _ grouped shrinks => grouped.shrinks shrinks) (fun v w _ grouped rely => ?_)
    fun v w store run _ acted => grouped_acted store run acted
  · exact ⟨fun _ _ _ _ _ _ => List.forall_mem_nil _, fun some => absurd rfl some⟩
  · exact grouped.shrinks rely.shrinks (by rw [rely.seen]) (by rw [rely.seen]) (by rw [rely.seen])

/-- All active entries of CKE's reboot queue were registered for reboot-list entries of one
group, in every state of the system. -/
theorem one_group_in_queue (cfg : Config) (s : System) (reached : Reached cfg Transition.always s) :
    ∀ r ∈ s.store.queue, ∀ r' ∈ s.store.queue, r.active = true → r'.active = true →
      r.origin.group = r'.origin.group :=
  (grouped_of_reached reached).1.same

/-- The zones `a` and `b` are listed; a run has enqueued both nodes of `a` and crashed
before it could mark the second one as queued. -/
def halfEnqueued : System := .play openConfig Transition.always <|
  userRuns 0 .enable 1 ++
  userRuns 1 (.add [nodeIn "a" "n1", nodeIn "a" "n2", nodeIn "b" "n3"] false
    ["n1", "n2", "n3"]) 6 ++
  [.elect, .tick] ++ controllerRuns 17 ["a", "b"] ++ [.crash]

theorem one_group_in_queue_halfEnqueued :
    halfEnqueued.store.queue.map (fun r => (r.entry.node, r.active)) =
        [("n1", true), ("n2", true)] ∧
      halfEnqueued.store.list.map (·.status) = [.queued, .pending, .pending] ∧
      ∀ r ∈ halfEnqueued.store.queue, ∀ r' ∈ halfEnqueued.store.queue,
        r.active = true → r'.active = true → r.origin.group = r'.origin.group :=
  ⟨by decide +kernel, by decide +kernel,
    one_group_in_queue openConfig halfEnqueued (reached_play _ _ _)⟩

end Neco.Rebooter
