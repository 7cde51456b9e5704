import Neco.Rebooter.Commands
import Neco.Lib.Ordered

/-!
# What a call does to the stores

The entries of the list have distinct indices below the write index. Given that, a call
that replies has one of the effects of `Answered`: the compare-and-swap loops act as if
they were done at one instant.
-/

namespace Neco.Rebooter

namespace Store

/-! ### The list as a set of entries with distinct indices -/

theorem putKey_eq_place (v : Versioned RebootListEntry) (l : List (Versioned RebootListEntry)) :
    putKey v l = Ordered.place (·.value.index) v l := by
  induction l with
  | nil => rfl
  | cons x rest ih => simp only [putKey, Ordered.place, ih]

theorem mem_putKey {v x : Versioned RebootListEntry} {l : List (Versioned RebootListEntry)}
    (sorted : l.Pairwise fun x y => x.value.index < y.value.index) :
    x ∈ putKey v l ↔ x = v ∨ x ∈ l ∧ x.value.index ≠ v.value.index := by
  rw [putKey_eq_place]
  exact Ordered.mem_place sorted

theorem sorted_putKey {v : Versioned RebootListEntry} {l : List (Versioned RebootListEntry)}
    (sorted : l.Pairwise fun x y => x.value.index < y.value.index) :
    (putKey v l).Pairwise fun x y => x.value.index < y.value.index := by
  rw [putKey_eq_place]
  exact Ordered.sorted_place sorted

/-- The keys are in order and below the write index, and no key has revision 0, which
stands for a missing key. The queue is in order and below its write index. -/
structure WellFormed (s : Store) : Prop where
  sorted : s.rebootList.Pairwise fun x y => x.value.index < y.value.index
  below : ∀ e ∈ s.list, e.index < s.nextIndex
  versioned : ∀ v ∈ s.rebootList, 0 < v.modRevision
  counted : s.indexRevision ≤ s.revision
  queueSorted : s.queue.Pairwise fun r r' => r.entry.index < r'.entry.index
  queueBelow : ∀ r ∈ s.queue, r.entry.index < s.queueIndex

theorem wellFormed_empty : WellFormed .empty where
  sorted := .nil
  below := List.forall_mem_nil _
  versioned := List.forall_mem_nil _
  counted := Nat.le_refl 0
  queueSorted := .nil
  queueBelow := List.forall_mem_nil _

theorem mem_list {s : Store} {e : RebootListEntry} :
    e ∈ s.list ↔ ∃ v ∈ s.rebootList, v.value = e := List.mem_map

theorem WellFormed.sorted_list {s : Store} (wf : s.WellFormed) :
    s.list.Pairwise fun x y => x.index < y.index := List.pairwise_map.mpr wf.sorted

theorem mem_list_putKey {s : Store} (wf : s.WellFormed) (e x : RebootListEntry) (rev : Nat) :
    x ∈ (putKey ⟨e, rev⟩ s.rebootList).map (·.value) ↔
      x = e ∨ x ∈ s.list ∧ x.index ≠ e.index := by
  simp only [List.mem_map, mem_putKey wf.sorted, mem_list]
  constructor
  · rintro ⟨v, new | ⟨old, other⟩, rfl⟩
    · exact .inl (congrArg Versioned.value new)
    · exact .inr ⟨⟨v, old, rfl⟩, other⟩
  · rintro (rfl | ⟨⟨v, old, rfl⟩, other⟩)
    · exact ⟨_, .inl rfl, rfl⟩
    · exact ⟨v, .inr ⟨old, other⟩, rfl⟩

theorem mem_list_putEntry {s : Store} (wf : s.WellFormed) {writer : Writer}
    {e x : RebootListEntry} :
    x ∈ (s.putEntry writer e).list ↔ x = e ∨ x ∈ s.list ∧ x.index ≠ e.index :=
  mem_list_putKey wf e x _

theorem mem_list_appendEntry {s : Store} (wf : s.WellFormed) {e x : RebootListEntry} :
    x ∈ (s.appendEntry e s.nextIndex).list ↔ x = { e with index := s.nextIndex } ∨ x ∈ s.list := by
  refine (mem_list_putKey wf _ x _).trans (or_congr_right ?_)
  constructor
  · exact And.left
  · intro old
    have := wf.below x old
    exact ⟨old, by simp only [ne_eq]; omega⟩

theorem mem_list_removeEntry {s : Store} {index : Int} {x : RebootListEntry} :
    x ∈ (s.removeEntry index).list ↔ x ∈ s.list ∧ x.index ≠ index := by
  simp only [mem_list, removeEntry, List.mem_filter, decide_eq_true_eq]
  constructor
  · rintro ⟨v, ⟨old, other⟩, rfl⟩
    exact ⟨⟨v, old, rfl⟩, other⟩
  · rintro ⟨⟨v, old, rfl⟩, other⟩
    exact ⟨v, ⟨old, other⟩, rfl⟩

theorem find_some {s : Store} {index : Int} {v : Versioned RebootListEntry}
    (found : s.find index = some v) : v ∈ s.rebootList ∧ v.value.index = index := by
  refine ⟨List.mem_of_find?_eq_some found, ?_⟩
  have equal := List.find?_some found
  exact of_decide_eq_true equal

/-! ### Well-formedness is kept -/

/-- Changes elsewhere leave the list alone. -/
theorem WellFormed.sameList {s t : Store} (wf : s.WellFormed) (revision : s.revision ≤ t.revision)
    (list : t.rebootList = s.rebootList) (index : t.writeIndex = s.writeIndex)
    (queueSorted : t.queue.Pairwise fun r r' => r.entry.index < r'.entry.index)
    (queueBelow : ∀ r ∈ t.queue, r.entry.index < t.queueIndex) : t.WellFormed := by
  refine ⟨?_, ?_, ?_, ?_, queueSorted, queueBelow⟩
  · rw [list]
    exact wf.sorted
  · simp only [Store.list, nextIndex, list, index]
    exact wf.below
  · rw [list]
    exact wf.versioned
  · simp only [indexRevision, index]
    exact Nat.le_trans wf.counted revision

/-- A put under the key of a stored entry. -/
theorem WellFormed.putEntry {s : Store} (wf : s.WellFormed) {writer : Writer}
    {e x : RebootListEntry} (stored : x ∈ s.list) (key : x.index = e.index) :
    (s.putEntry writer e).WellFormed := by
  refine ⟨sorted_putKey wf.sorted, fun y member => ?_, fun v member => ?_,
    Nat.le_succ_of_le wf.counted, wf.queueSorted, wf.queueBelow⟩
  · have bound : e.index < s.nextIndex := key ▸ wf.below x stored
    rcases (mem_list_putEntry wf).mp member with rfl | old
    · exact bound
    · exact wf.below y old.1
  · rcases (mem_putKey wf.sorted).mp member with rfl | old
    · exact Nat.succ_pos _
    · exact wf.versioned v old.1

theorem WellFormed.appendEntry {s : Store} (wf : s.WellFormed) (e : RebootListEntry) :
    (s.appendEntry e s.nextIndex).WellFormed := by
  refine ⟨sorted_putKey wf.sorted, fun y member => ?_, fun v member => ?_, Nat.le_refl _,
    wf.queueSorted, wf.queueBelow⟩
  · have next : (s.appendEntry e s.nextIndex).nextIndex = s.nextIndex + 1 := rfl
    rcases (mem_list_appendEntry wf).mp member with rfl | old
    · simp only [next]
      omega
    · have := wf.below y old
      omega
  · rcases (mem_putKey wf.sorted).mp member with rfl | old
    · exact Nat.succ_pos _
    · exact wf.versioned v old.1

theorem WellFormed.removeEntry {s : Store} (wf : s.WellFormed) (index : Int) :
    (s.removeEntry index).WellFormed where
  sorted := wf.sorted.filter _
  below := fun y member => wf.below y (mem_list_removeEntry.mp member).1
  versioned := fun v member => wf.versioned v (List.mem_filter.mp member).1
  counted := Nat.le_succ_of_le wf.counted
  queueSorted := wf.queueSorted
  queueBelow := wf.queueBelow

theorem WellFormed.register {s : Store} (wf : s.WellFormed) (q : RebootQueueEntry)
    (origin : RebootListEntry) : (s.register q origin).WellFormed := by
  refine wf.sameList (Nat.le_refl _) rfl rfl ?_ ?_
  · refine List.pairwise_append.mpr ⟨wf.queueSorted, List.pairwise_singleton .., ?_⟩
    intro r old r' new
    cases List.mem_singleton.mp new
    exact wf.queueBelow r old
  · intro r member
    have next : (s.register q origin).queueIndex = s.queueIndex + 1 := rfl
    rcases List.mem_append.mp member with old | new
    · have := wf.queueBelow r old
      omega
    · cases List.mem_singleton.mp new
      simp only [next]
      omega

theorem WellFormed.changeQueued {s : Store} (wf : s.WellFormed) (index : Int)
    {f : RebootQueueEntry → RebootQueueEntry} (kept : ∀ q, q.index = index → (f q).index = index) :
    (s.changeQueued index f).WellFormed := by
  have same (r : Registered) : (if r.entry.index = index then { r with entry := f r.entry }
      else r : Registered).entry.index = r.entry.index := by
    split
    next equal => rw [equal, kept _ equal]
    · rfl
  refine wf.sameList (Nat.le_refl _) rfl rfl ?_ ?_
  · refine List.pairwise_map.mpr (wf.queueSorted.imp fun less => ?_)
    rwa [same, same]
  · intro r member
    obtain ⟨r', old, rfl⟩ := List.mem_map.mp member
    rw [same]
    exact wf.queueBelow r' old

theorem WellFormed.deleteQueued {s : Store} (wf : s.WellFormed) (r : Registered) :
    (s.deleteQueued r).WellFormed :=
  wf.sameList (Nat.le_refl _) rfl rfl (wf.queueSorted.filter _)
    fun r' member => wf.queueBelow r' (List.mem_filter.mp member).1

/-! ### The queue under a change -/

/-- An entry that is active after a cancellation was there before and is another one. -/
theorem active_putQueued {s : Store} {q : RebootQueueEntry} (cancelled : q.status = .cancelled)
    {r : Registered} (member : r ∈ (s.putQueued q).queue) (active : r.active = true) :
    r ∈ s.queue ∧ r.entry.index ≠ q.index := by
  obtain ⟨r', old, rfl⟩ := List.mem_map.mp member
  split at active
  next => simp [Registered.active, cancelled] at active
  next other =>
    rw [if_neg other]
    exact ⟨old, other⟩

/-- Changes that keep the node and whether an entry is active keep the active entries. -/
theorem active_changeQueued {s : Store} {index : Int} {f : RebootQueueEntry → RebootQueueEntry}
    (kept : ∀ q, (f q).index = q.index ∧ (f q).node = q.node ∧
      ((f q).status = .cancelled ↔ q.status = .cancelled))
    {r : Registered} (member : r ∈ (s.changeQueued index f).queue) :
    ∃ r' ∈ s.queue, r'.active = r.active ∧ r'.entry.index = r.entry.index ∧
      r'.entry.node = r.entry.node ∧ r'.origin = r.origin := by
  obtain ⟨r', old, rfl⟩ := List.mem_map.mp member
  refine ⟨r', old, ?_⟩
  split
  · obtain ⟨index, node, status⟩ := kept r'.entry
    refine ⟨?_, index.symm, node.symm, rfl⟩
    rw [Bool.eq_iff_iff]
    simp only [Registered.active, bne_iff_ne, ne_eq, status]
  · exact ⟨rfl, rfl, rfl, rfl⟩

end Store

/-! ### The replies -/

/-- What the progress of a call promises: a `Get` has found an existing key, and a write
index that has been read is current as long as its revision is. -/
def Progress.Valid (s : Store) : Call → Progress → Prop
  | .updateRebootListEntry _, .compare rev => 0 < rev
  | .registerRebootListEntry _, .register index rev =>
    rev ≤ s.revision ∧ (s.indexRevision = rev → s.nextIndex = index)
  | _, _ => True

theorem Progress.valid_start (s : Store) (c : Call) : Progress.start.Valid s c := by
  cases c <;> trivial

/-- The reply to a call and the store it leaves. A failed call leaves the store alone. -/
inductive Answered (writer : Writer) (s : Store) : (c : Call) → Reply c → Store → Prop
  | now (n : Int) : Answered writer s .now n s
  | shuffle {groups : List String} (order : List String) :
      Answered writer s (.shuffle groups) order s
  | enabled : Answered writer s .isNecoRebooterEnabled (s.isEnabled == some true) s
  | enable (flag : Bool) : Answered writer s (.enableNecoRebooter flag) () (s.enable flag)
  | found {index : Int} (r : Except StorageError RebootListEntry) :
      Answered writer s (.getRebootListEntry index) r s
  | entries : Answered writer s .getRebootListEntries s.list s
  | removed {leaderKey : Nat} (e : RebootListEntry) :
      Answered writer s (.removeRebootListEntry leaderKey e) (.ok ()) (s.removeEntry e.index)
  | notRemoved {leaderKey : Nat} {e : RebootListEntry} (error : StorageError) :
      Answered writer s (.removeRebootListEntry leaderKey e) (.error error) s
  | updated {e x : RebootListEntry} (stored : x ∈ s.list) (key : x.index = e.index) :
      Answered writer s (.updateRebootListEntry e) (.ok ()) (s.putEntry writer e)
  | notUpdated {e : RebootListEntry} (error : StorageError) :
      Answered writer s (.updateRebootListEntry e) (.error error) s
  | added (e : RebootListEntry) :
      Answered writer s (.registerRebootListEntry e) () (s.appendEntry e s.nextIndex)
  | group : Answered writer s .getProcessingGroup s.group s
  | moved (group : String) : Answered writer s (.updateProcessingGroup group) () (s.putGroup group)
  | queue : Answered writer s .getRebootsEntries (s.queue.map (·.entry)) s
  | registered (q : RebootQueueEntry) (origin : RebootListEntry) :
      Answered writer s (.registerRebootsEntry q origin) () (s.register q origin)
  | changed (q : RebootQueueEntry) :
      Answered writer s (.updateRebootsEntry q) (.ok ()) (s.putQueued q)
  | notChanged {q : RebootQueueEntry} (error : StorageError) :
      Answered writer s (.updateRebootsEntry q) (.error error) s

theorem stored_of_modRevision {s : Store} {index : Int} (positive : 0 < s.modRevision index) :
    ∃ x ∈ s.list, x.index = index := by
  unfold Store.modRevision at positive
  cases found : s.find index with
  | none =>
    rw [found] at positive
    cases positive
  | some v =>
    obtain ⟨member, key⟩ := Store.find_some found
    exact ⟨v.value, Store.mem_list.mpr ⟨v, member, rfl⟩, key⟩

/-- Every reply of `serve` is one of `Answered`. -/
theorem answered_of_serve {writer : Writer} {input : Input} {s t : Store} {c : Call}
    {progress : Progress} {r : Reply c} (valid : progress.Valid s c)
    (served : serve writer input s c progress = some (.reply r t)) : Answered writer s c r t := by
  cases c <;> cases progress <;> try cases served
  case now.start => exact .now _
  case shuffle.start =>
    simp only [serve] at served
    split at served <;> cases served
    exact .shuffle _
  case isNecoRebooterEnabled.start => exact .enabled
  case enableNecoRebooter.start => exact .enable _
  case getRebootListEntry.start =>
    simp only [serve] at served
    split at served <;> cases served <;> exact .found _
  case getRebootListEntries.start => exact .entries
  case removeRebootListEntry.start =>
    simp only [serve] at served
    split at served <;> cases served
    · exact .removed _
    · exact .notRemoved _
  case updateRebootListEntry.start =>
    simp only [serve] at served
    split at served <;> cases served
    exact .notUpdated _
  case updateRebootListEntry.compare =>
    -- the comparison of the mod revision says that the key is still the one that was read
    simp only [serve] at served
    split at served
    next unchanged =>
      cases served
      rw [← unchanged] at valid
      obtain ⟨x, stored, key⟩ := stored_of_modRevision valid
      exact .updated stored key
    · cases served
  case registerRebootListEntry.register =>
    -- likewise for the write index
    simp only [serve] at served
    split at served
    next unchanged =>
      cases served
      rw [← valid.2 unchanged]
      exact .added _
    · cases served
  case getProcessingGroup.start => exact .group
  case updateProcessingGroup.compare =>
    simp only [serve] at served
    split at served <;> cases served
    exact .moved _
  case getRebootsEntries.start => exact .queue
  case registerRebootsEntry.start => exact .registered _ _
  case updateRebootsEntry.start =>
    simp only [serve] at served
    split at served <;> cases served
    · exact .changed _
    · exact .notChanged _

theorem Answered.wellFormed {writer : Writer} {s t : Store} {c : Call} {r : Reply c}
    (answered : Answered writer s c r t) (wf : s.WellFormed) : t.WellFormed := by
  cases answered with
  | removed e => exact wf.removeEntry e.index
  | updated stored key => exact wf.putEntry stored key
  | added e => exact wf.appendEntry e
  | registered q origin => exact wf.register q origin
  | changed q => exact wf.changeQueued q.index fun _ _ => rfl
  | enable flag =>
    exact wf.sameList (Nat.le_succ _) rfl rfl wf.queueSorted wf.queueBelow
  | moved group =>
    exact wf.sameList (Nat.le_succ _) rfl rfl wf.queueSorted wf.queueBelow
  | _ => exact wf

/-- The revision has not gone back, and a write index that changed has a newer revision. -/
structure Store.Later (s t : Store) : Prop where
  revision : s.revision ≤ t.revision
  index : t.writeIndex = s.writeIndex ∨ s.revision < t.indexRevision

theorem Store.Later.rfl {s : Store} : Later s s := ⟨Nat.le_refl _, .inl (Eq.refl _)⟩

theorem Answered.later {writer : Writer} {s t : Store} {c : Call} {r : Reply c}
    (answered : Answered writer s c r t) : s.Later t := by
  cases answered with
  | removed e => exact ⟨Nat.le_succ _, .inl rfl⟩
  | updated stored key => exact ⟨Nat.le_succ _, .inl rfl⟩
  | added e => exact ⟨Nat.le_succ _, .inr (Nat.lt_succ_self _)⟩
  | enable flag => exact ⟨Nat.le_succ _, .inl rfl⟩
  | moved group => exact ⟨Nat.le_succ _, .inl rfl⟩
  | registered q origin => exact ⟨Nat.le_refl _, .inl rfl⟩
  | changed q => exact ⟨Nat.le_refl _, .inl rfl⟩
  | _ => exact .rfl

theorem Progress.Valid.later {s t : Store} {c : Call} {progress : Progress}
    (valid : progress.Valid s c) (later : s.Later t) : progress.Valid t c := by
  cases c <;> cases progress <;> try trivial
  case registerRebootListEntry.register e index rev =>
    refine ⟨Nat.le_trans valid.1 later.revision, fun same => ?_⟩
    rcases later.index with unchanged | newer
    · simp only [Store.indexRevision, Store.nextIndex, unchanged] at same ⊢
      exact valid.2 same
    · have := valid.1
      omega

/-- A `Get` leaves the call in a valid progress. -/
theorem Progress.valid_of_serve {writer : Writer} {input : Input} {s : Store} {c : Call}
    {progress next : Progress} (wf : s.WellFormed)
    (served : serve writer input s c progress = some (.proceed next)) : next.Valid s c := by
  cases c <;> cases progress <;> try cases served
  case shuffle.start =>
    simp only [serve] at served
    split at served <;> cases served
  case getRebootListEntry.start =>
    simp only [serve] at served
    split at served <;> cases served
  case removeRebootListEntry.start =>
    simp only [serve] at served
    split at served <;> cases served
  case updateRebootListEntry.start =>
    simp only [serve] at served
    split at served
    · cases served
    next v found =>
      cases served
      exact wf.versioned v (Store.find_some found).1
  case updateRebootListEntry.compare =>
    simp only [serve] at served
    split at served <;> cases served
    trivial
  case registerRebootListEntry.start => exact ⟨wf.counted, fun _ => rfl⟩
  case registerRebootListEntry.register =>
    simp only [serve] at served
    split at served <;> cases served
    trivial
  case updateProcessingGroup.start => trivial
  case updateProcessingGroup.compare =>
    simp only [serve] at served
    split at served <;> cases served
    trivial
  case updateRebootsEntry.start =>
    simp only [serve] at served
    split at served <;> cases served

end Neco.Rebooter
