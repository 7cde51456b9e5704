import Neco.Rebooter.Controller

/-!
# What `collectEntries` computes

The programs that only read the clock, and the collection that `collectEntries` returns,
whatever the readings are.
-/

namespace Neco.Rebooter

open Program

/-- Calls that leave the stores alone and depend on nothing in them. -/
def Call.isQuiet : Call → Prop
  | now => True
  | shuffle _ => True
  | _ => False

/-! ### Programs that only read the clock -/

theorem uses_isWithinSchedule (schedule : Schedule) :
    (isWithinSchedule schedule).Uses Call.isQuiet := ⟨trivial, fun _ => trivial⟩

namespace Controller

variable (c : Controller)

theorem uses_isRebootable (entry : RebootListEntry) :
    (c.isRebootable entry).Uses Call.isQuiet := by
  unfold isRebootable
  split
  · trivial
  next rebootTime _ =>
    refine Prog.Uses.bind (Prog.Uses.anyM _ uses_isWithinSchedule) fun denied => ?_
    split
    · trivial
    · exact Prog.Uses.anyM _ uses_isWithinSchedule

theorem uses_findRebootableNodeInGroup (entries : List RebootListEntry) (group : String) :
    (c.findRebootableNodeInGroup entries group).Uses Call.isQuiet := by
  refine Prog.Uses.foldlM entries (fun nodes entry _ => ?_) []
  split
  · refine Prog.Uses.bind (c.uses_isRebootable entry) fun rebootable => ?_
    split <;> trivial
  · trivial

theorem uses_candidates (entries : List RebootListEntry) (groups : List String) :
    (c.candidates entries groups).Uses Call.isQuiet := by
  refine Prog.Uses.foldlM groups (fun candidate group _ => ?_) []
  refine Prog.Uses.bind (c.uses_findRebootableNodeInGroup entries group) fun nodes => ?_
  split <;> trivial

theorem uses_collectListEntry (queue : List RebootQueueEntry) (group : String)
    (collection : EntriesCollection) (entry : RebootListEntry) :
    (c.collectListEntry queue group collection entry).Uses Call.isQuiet := by
  simp only [collectListEntry]
  split
  · trivial
  · split
    · trivial
    · split
      · refine Prog.Uses.bind (c.uses_isRebootable entry) fun rebootable => ?_
        split <;> trivial
      · trivial
  · split
    · trivial
    · refine Prog.Uses.bind (c.uses_isRebootable entry) fun rebootable => ?_
      split <;> trivial

theorem uses_collectEntries (list : List RebootListEntry) (queue : List RebootQueueEntry)
    (group : String) : (c.collectEntries list queue group).Uses Call.isQuiet :=
  Prog.Uses.bind
    (Prog.Uses.foldlM list (fun _ _ _ => c.uses_collectListEntry queue group _ _) _)
    fun _ => trivial

end Controller

/-! ### The collection -/

section

variable (list : List RebootListEntry) (queue : List RebootQueueEntry) (group : String)

/-- A queued entry together with its queue entry. -/
def queuedSet (entry : RebootListEntry) : Option EntrySet :=
  if entry.status = .queued then
    (findRebootQueueEntryFromRebootListEntry queue entry).map fun rq => ⟨some entry, some rq⟩
  else none

/-- An active queue entry whose first list entry is missing or pending. -/
def orphanedSet (rq : RebootQueueEntry) : Option EntrySet :=
  if rq.status = .cancelled then none
  else
    match findRebootListEntryFromRebootQueueEntry list rq with
    | none => some ⟨none, some rq⟩
    | some rl => if rl.status = .pending then some ⟨some rl, some rq⟩ else none

/-- What the first loop has collected from the entries `list`. Which pending entries are new
and which queued ones are timed out depends on the clock. -/
structure CollectedList (collection : EntriesCollection) : Prop where
  cancelled : collection.cancelledEntry = (list.filter (·.status = .cancelled)).map
    fun e => ⟨some e, findRebootQueueEntryFromRebootListEntry queue e⟩
  completed : collection.completedEntry = list.filter fun e =>
    e.status = .queued ∧ findRebootQueueEntryFromRebootListEntry queue e = none
  queued : collection.queuedEntry = list.filterMap (queuedSet queue)
  new : collection.newEntry.Sublist <| list.filter fun e =>
    e.status = .pending ∧ findRebootQueueEntryFromRebootListEntry queue e = none ∧ e.group = group
  timedOut : collection.timedOutEntry.Sublist collection.queuedEntry

/-- What `collectEntries` returns. -/
structure Collected (collection : EntriesCollection) : Prop
    extends CollectedList list queue group collection where
  orphaned : collection.orphanedEntry = queue.filterMap (orphanedSet list)

end

theorem collected_listEntry {c : Controller} {done : List RebootListEntry}
    {queue : List RebootQueueEntry} {group : String} {collection next : EntriesCollection}
    {entry : RebootListEntry}
    (collected : CollectedList done queue group collection ∧ collection.orphanedEntry = [])
    (returned : (c.collectListEntry queue group collection entry).Returns next) :
    CollectedList (done ++ [entry]) queue group next ∧ next.orphanedEntry = [] := by
  obtain ⟨⟨cancelled, completed, queued, new, timedOut⟩, orphaned⟩ := collected
  cases status : entry.status with
  | cancelled =>
    simp only [Controller.collectListEntry, status] at returned
    cases returned
    refine ⟨⟨?_, ?_, ?_, ?_, timedOut⟩, orphaned⟩ <;>
      simp_all [List.filter_append, List.filterMap_append, queuedSet]
  | pending =>
    -- Whatever the entry adds to the new entries, the other collections stay.
    have kept (added : List RebootListEntry) (which : added.Sublist ([entry].filter fun e =>
          e.status = .pending ∧ findRebootQueueEntryFromRebootListEntry queue e = none ∧
            e.group = group)) :
        CollectedList (done ++ [entry]) queue group
          { collection with newEntry := collection.newEntry ++ added } := by
      refine ⟨?_, ?_, ?_, ?_, timedOut⟩
      · simp [cancelled, status]
      · simp [completed, status]
      · simp [queued, queuedSet, status]
      · rw [List.filter_append]
        exact new.append which
    have unchanged : CollectedList (done ++ [entry]) queue group collection := by
      simpa only [List.append_nil] using kept [] (List.nil_sublist _)
    simp only [Controller.collectListEntry, status] at returned
    split at returned
    · cases returned
      exact ⟨unchanged, orphaned⟩
    next missing =>
      split at returned
      next sameGroup =>
        obtain ⟨rebootable, _, later⟩ := Prog.returns_bind.mp returned
        split at later <;> cases later
        · refine ⟨kept [entry] ?_, orphaned⟩
          simp_all
        · exact ⟨unchanged, orphaned⟩
      · cases returned
        exact ⟨unchanged, orphaned⟩
  | queued =>
    cases found : findRebootQueueEntryFromRebootListEntry queue entry with
    | none =>
      simp only [Controller.collectListEntry, status, found] at returned
      cases returned
      refine ⟨⟨?_, ?_, ?_, ?_, timedOut⟩, orphaned⟩ <;>
        simp_all [List.filter_append, List.filterMap_append, queuedSet]
    | some rq =>
      simp only [Controller.collectListEntry, status, found] at returned
      obtain ⟨rebootable, _, later⟩ := Prog.returns_bind.mp returned
      have kept (late : List EntrySet)
          (which : late.Sublist (collection.queuedEntry ++ [⟨some entry, some rq⟩])) :
          CollectedList (done ++ [entry]) queue group { collection with
            queuedEntry := collection.queuedEntry ++ [⟨some entry, some rq⟩]
            timedOutEntry := late } := by
        refine ⟨?_, ?_, ?_, ?_, which⟩
        · simp [cancelled, status]
        · simp [completed, found]
        · simp [queued, queuedSet, status, found]
        · simpa [status] using new
      split at later <;> cases later
      · exact ⟨kept _ (timedOut.append (List.Sublist.refl _)), orphaned⟩
      · exact ⟨kept _ (timedOut.trans (List.sublist_append_left _ _)), orphaned⟩

theorem collectQueueEntry_eq (list : List RebootListEntry) (collection : EntriesCollection)
    (rq : RebootQueueEntry) :
    collectQueueEntry list collection rq =
      { collection with
        orphanedEntry := collection.orphanedEntry ++ (orphanedSet list rq).toList } := by
  by_cases cancelled : rq.status = .cancelled
  · simp [collectQueueEntry, orphanedSet, cancelled]
  · cases found : findRebootListEntryFromRebootQueueEntry list rq with
    | none => simp [collectQueueEntry, orphanedSet, cancelled, found]
    | some rl =>
      by_cases pending : rl.status = .pending <;>
        simp [collectQueueEntry, orphanedSet, cancelled, found, pending]

theorem foldl_collectQueueEntry (list : List RebootListEntry) (queue : List RebootQueueEntry) :
    ∀ collection : EntriesCollection, queue.foldl (collectQueueEntry list) collection =
      { collection with
        orphanedEntry := collection.orphanedEntry ++ queue.filterMap (orphanedSet list) } := by
  induction queue with
  | nil =>
    intro collection
    simp
  | cons rq rest ih =>
    intro collection
    rw [List.foldl_cons, ih, collectQueueEntry_eq]
    cases orphan : orphanedSet list rq <;> simp [orphan]

/-- Whatever the clock says, `collectEntries` returns such a collection. -/
theorem collected_of_returns {c : Controller} {list : List RebootListEntry}
    {queue : List RebootQueueEntry} {group : String} {collection : EntriesCollection}
    (returned : (c.collectEntries list queue group).Returns collection) :
    Collected list queue group collection := by
  obtain ⟨first, looped, last⟩ := Prog.returns_bind.mp returned
  have start : CollectedList [] queue group .empty ∧ EntriesCollection.empty.orphanedEntry = [] :=
    ⟨⟨rfl, rfl, rfl, List.Sublist.refl _, List.Sublist.refl _⟩, rfl⟩
  obtain ⟨collected, none⟩ := Prog.returns_foldlM
    (fun done collection => CollectedList done queue group collection ∧
      collection.orphanedEntry = [])
    (fun done entry _ _ => collected_listEntry) list [] .empty first start looped
  cases last
  rw [foldl_collectQueueEntry, none]
  exact ⟨⟨collected.cancelled, collected.completed, collected.queued, collected.new,
    collected.timedOut⟩, rfl⟩

end Neco.Rebooter
