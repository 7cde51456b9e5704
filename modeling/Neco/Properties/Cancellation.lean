import Neco.Rebooter.Steps
import Neco.Lib.History

/-!
# Cancelled entries stay cancelled

`UpdateRebootListEntry` writes the copy of its caller over whatever is stored, and a run
writes copies of the list that it has read at its start. A cancel that is committed while a
run holds an older copy is lost. A cancel that falls between the runs, or before the run
reads the list, is kept.
-/

namespace Neco.Rebooter

open History

/-- The event sets the entry `index` to cancelled. -/
def Event.cancels (index : Int) : Event → Prop
  | updated _ e => e.index = index ∧ e.status = .cancelled
  | _ => False

/-- The entry `index` has been set to cancelled. -/
def CancelledIn (events : List Event) (index : Int) : Prop := ∃ event ∈ events, event.cancels index

theorem cancelledIn_concat {events : List Event} {event : Event} {index : Int} :
    CancelledIn (events ++ [event]) index ↔ CancelledIn events index ∨ event.cancels index := by
  simp only [CancelledIn, List.mem_append, List.mem_singleton]
  constructor
  · rintro ⟨c, old | rfl, cancels⟩
    · exact .inl ⟨c, old, cancels⟩
    · exact .inr cancels
  · rintro (⟨c, old, cancels⟩ | cancels)
    · exact ⟨c, .inl old, cancels⟩
    · exact ⟨event, .inr rfl, cancels⟩

theorem cancelledIn_concat_other {events : List Event} {event : Event} {index : Int}
    (other : ¬event.cancels index) :
    CancelledIn (events ++ [event]) index ↔ CancelledIn events index := by
  rw [cancelledIn_concat, or_iff_left other]

/-- A command commits a cancel only when no run holds a copy of the entry that is not
cancelled. -/
def CancelUnobserved (s : System) : Action → Prop
  | .client position _ => ∀ e ∈ s.committing position, ∀ run ∈ s.run, ∀ x ∈ run.seen.entries,
      x.index = e.index → x.status = .cancelled
  | _ => True

instance (s : System) (a : Action) : Decidable (CancelUnobserved s a) := by
  unfold CancelUnobserved
  split <;> infer_instance

/-! ### The invariant -/

/-- A cancelled entry is not written with another status, no queue entry is registered for
it, and a removed entry is not written at all. -/
def Respects (before : List Event) : Event → Prop
  | .updated _ e => (CancelledIn before e.index → e.status = .cancelled) ∧
      Event.removed e.index ∉ before
  | .registered r => ¬CancelledIn before r.origin.index
  | _ => True

structure CancelsKept (s : Store) : Prop where
  each : Each Respects s.events
  stored : ∀ x ∈ s.list, CancelledIn s.events x.index → x.status = .cancelled
  present : ∀ index, CancelledIn s.events index →
    (∃ x ∈ s.list, x.index = index) ∨ Event.removed index ∈ s.events
  gone : ∀ x ∈ s.list, Event.removed x.index ∉ s.events
  below : ∀ index, CancelledIn s.events index ∨ Event.removed index ∈ s.events →
    index < s.nextIndex

/-- The copies that a run holds of cancelled entries are cancelled. -/
structure CopiesCancelled (v : View) : Prop where
  copies : ∀ x ∈ v.seen.entries, CancelledIn v.store.events x.index → x.status = .cancelled
  below : ∀ x ∈ v.seen.entries, x.index < v.store.nextIndex

namespace CancelsKept

variable {s : Store} (kept : CancelsKept s)
include kept

theorem sameEvents {t : Store} (list : t.list = s.list) (index : t.nextIndex = s.nextIndex)
    (events : t.events = s.events) : CancelsKept t := by
  constructor
  · rw [events]
    exact kept.each
  · rw [list, events]
    exact kept.stored
  · rw [list, events]
    exact kept.present
  · rw [list, events]
    exact kept.gone
  · rw [events, index]
    exact kept.below

/-- An event that leaves the list alone and concerns no entry of it. -/
theorem plain {t : Store} {event : Event} (list : t.list = s.list)
    (index : t.nextIndex = s.nextIndex) (events : t.events = s.events ++ [event])
    (quiet : ∀ i, ¬event.cancels i) (other : ∀ i, event ≠ .removed i)
    (respects : Respects s.events event) : CancelsKept t := by
  have same (i : Int) : CancelledIn (s.events ++ [event]) i ↔ CancelledIn s.events i :=
    cancelledIn_concat_other (quiet i)
  have sameRemoved (i : Int) : Event.removed i ∈ s.events ++ [event] ↔ Event.removed i ∈ s.events := by
    simp only [List.mem_append, List.mem_singleton, (other i).symm, or_false]
  constructor
  · rw [events, each_concat]
    exact ⟨kept.each, respects⟩
  · simp only [list, events, same]
    exact kept.stored
  · simp only [list, events, same, sameRemoved]
    exact kept.present
  · simp only [list, events, sameRemoved]
    exact kept.gone
  · simp only [events, same, sameRemoved, index]
    exact kept.below

/-- A write of a stored entry. If it is not a cancel, the entry is not cancelled. -/
theorem putEntry (wf : s.WellFormed) {writer : Writer} {e x : RebootListEntry}
    (stored : x ∈ s.list) (key : x.index = e.index)
    (allowed : CancelledIn s.events e.index → e.status = .cancelled) :
    CancelsKept (s.putEntry writer e) := by
  have notRemoved : Event.removed e.index ∉ s.events := key ▸ kept.gone x stored
  have events : (s.putEntry writer e).events = s.events ++ [.updated writer e] := rfl
  have sameRemoved (i : Int) : Event.removed i ∈ s.events ++ [.updated writer e] ↔
      Event.removed i ∈ s.events := by simp
  constructor
  · rw [events, each_concat]
    exact ⟨kept.each, allowed, notRemoved⟩
  · intro y member cancelled
    rw [events, cancelledIn_concat] at cancelled
    rcases (Store.mem_list_putEntry wf).mp member with rfl | ⟨old, other⟩
    · exact cancelled.elim allowed And.right
    · exact kept.stored y old (cancelled.resolve_right fun now => other now.1.symm)
  · intro i cancelled
    rw [events, cancelledIn_concat] at cancelled
    rw [events, sameRemoved]
    by_cases here : i = e.index
    · exact .inl ⟨e, (Store.mem_list_putEntry wf).mpr (.inl rfl), here.symm⟩
    · rcases kept.present i (cancelled.resolve_right fun now => here now.1.symm) with
        ⟨y, old, same⟩ | removed
      · exact .inl ⟨y, (Store.mem_list_putEntry wf).mpr (.inr ⟨old, same ▸ here⟩), same⟩
      · exact .inr removed
  · intro y member
    rw [events, sameRemoved]
    rcases (Store.mem_list_putEntry wf).mp member with rfl | ⟨old, _⟩
    · exact notRemoved
    · exact kept.gone y old
  · intro i
    rw [events, sameRemoved, cancelledIn_concat]
    rintro ((cancelled | now) | removed)
    · exact kept.below i (.inl cancelled)
    · exact now.1 ▸ key ▸ wf.below x stored
    · exact kept.below i (.inr removed)

theorem appendEntry (wf : s.WellFormed) (e : RebootListEntry) :
    CancelsKept (s.appendEntry e s.nextIndex) := by
  have events : (s.appendEntry e s.nextIndex).events =
      s.events ++ [.added { e with index := s.nextIndex }] := rfl
  have next : (s.appendEntry e s.nextIndex).nextIndex = s.nextIndex + 1 := rfl
  have same (i : Int) : CancelledIn (s.events ++ [.added { e with index := s.nextIndex }]) i ↔
      CancelledIn s.events i := cancelledIn_concat_other fun impossible => impossible
  have sameRemoved (i : Int) :
      Event.removed i ∈ s.events ++ [.added { e with index := s.nextIndex }] ↔
        Event.removed i ∈ s.events := by simp
  constructor
  · rw [events, each_concat]
    exact ⟨kept.each, trivial⟩
  · intro y member cancelled
    rw [events, same] at cancelled
    rcases (Store.mem_list_appendEntry wf).mp member with rfl | old
    · -- The new index is above every cancelled one.
      exact absurd (kept.below _ (.inl cancelled)) (lt_irrefl _)
    · exact kept.stored y old cancelled
  · intro i cancelled
    rw [events, same] at cancelled
    rw [events, sameRemoved]
    exact (kept.present i cancelled).imp_left fun ⟨y, old, index⟩ =>
      ⟨y, (Store.mem_list_appendEntry wf).mpr (.inr old), index⟩
  · intro y member
    rw [events, sameRemoved]
    rcases (Store.mem_list_appendEntry wf).mp member with rfl | old
    · exact fun removed => absurd (kept.below _ (.inr removed)) (lt_irrefl _)
    · exact kept.gone y old
  · intro i
    rw [events, same, sameRemoved, next]
    intro mentioned
    have := kept.below i mentioned
    omega

theorem removeEntry {index : Int} (below : index < s.nextIndex) :
    CancelsKept (s.removeEntry index) := by
  have events : (s.removeEntry index).events = s.events ++ [.removed index] := rfl
  have same (i : Int) : CancelledIn (s.events ++ [.removed index]) i ↔ CancelledIn s.events i :=
    cancelledIn_concat_other fun impossible => impossible
  constructor
  · rw [events, each_concat]
    exact ⟨kept.each, trivial⟩
  · intro y member cancelled
    rw [events, same] at cancelled
    exact kept.stored y (Store.mem_list_removeEntry.mp member).1 cancelled
  · intro i cancelled
    rw [events, same] at cancelled
    rw [events, List.mem_append, List.mem_singleton]
    rcases kept.present i cancelled with ⟨y, old, here⟩ | removed
    · by_cases now : i = index
      · exact .inr (.inr (congrArg _ now))
      · exact .inl ⟨y, Store.mem_list_removeEntry.mpr ⟨old, here ▸ now⟩, here⟩
    · exact .inr (.inl removed)
  · intro y member removed
    obtain ⟨old, other⟩ := Store.mem_list_removeEntry.mp member
    rw [events, List.mem_append, List.mem_singleton] at removed
    rcases removed with earlier | now
    · exact kept.gone y old earlier
    · exact other (Event.removed.inj now)
  · intro i
    rw [events, same, List.mem_append, List.mem_singleton]
    rintro (cancelled | removed | now)
    · exact kept.below i (.inl cancelled)
    · exact kept.below i (.inr removed)
    · exact Event.removed.inj now ▸ below

end CancelsKept

/-! ### The steps -/

theorem CopiesCancelled.mono {v w : View} (copies : CopiesCancelled v)
    (list : w.seen.list = v.seen.list) (index : v.store.nextIndex ≤ w.store.nextIndex)
    (events : ∀ x ∈ v.seen.entries, CancelledIn w.store.events x.index →
      CancelledIn v.store.events x.index ∨ x.status = .cancelled) : CopiesCancelled w := by
  have same : w.seen.entries = v.seen.entries := by rw [Observed.entries, Observed.entries, list]
  constructor
  · rw [same]
    exact fun x held cancelled => (events x held cancelled).elim (copies.copies x held) id
  · rw [same]
    exact fun x held => lt_of_lt_of_le (copies.below x held) index

theorem cancelsKept_others {s : System} {a : Action} {t : Store} (sound : Sound s)
    (kept : CancelsKept s.store)
    (copies : ∀ run, s.run = some run → CopiesCancelled ⟨s.store, run.seen⟩)
    (admitted : CancelUnobserved s a) (others : Others s a t) :
    CancelsKept t ∧ ∀ run, s.run = some run → CopiesCancelled ⟨t, run.seen⟩ := by
  cases others with
  | frame frame =>
    have index : t.nextIndex = s.store.nextIndex := by
      rw [Store.nextIndex, frame.writeIndex]
      rfl
    refine ⟨kept.sameEvents frame.list index frame.events, fun run before => ?_⟩
    refine (copies run before).mono rfl (le_of_eq index.symm) fun x _ cancelled => .inl ?_
    rwa [frame.events] at cancelled
  | @cancelled position input e x action committing status stored key =>
    refine ⟨kept.putEntry sound.wf stored key fun _ => status, fun run before => ?_⟩
    refine (copies run before).mono rfl le_rfl fun y held cancelled => ?_
    rcases cancelledIn_concat.mp cancelled with old | now
    · exact .inl old
    · -- This is where the run must not hold an older copy.
      subst action
      exact .inr (admitted e committing run before y held now.1.symm)
  | added status =>
    refine ⟨kept.appendEntry sound.wf _, fun run before => ?_⟩
    refine (copies run before).mono rfl (Int.le.intro 1 rfl) fun x _ cancelled => .inl ?_
    exact (cancelledIn_concat.mp cancelled).resolve_right id
  | changed index unchanged =>
    exact ⟨kept.sameEvents rfl rfl rfl, fun run before =>
      (copies run before).mono rfl le_rfl fun _ _ => .inl⟩
  | @deleted r action member =>
    have quiet (i : Int) : ¬(if r.active then Event.rebooted r.entry.node
        else .discarded r.entry.node).cancels i := by
      split <;> exact id
    refine ⟨kept.plain rfl rfl rfl quiet ?_ ?_, fun run before =>
      (copies run before).mono rfl le_rfl fun _ _ cancelled =>
        .inl ((cancelledIn_concat_other (quiet _)).mp cancelled)⟩
    · intro i
      split <;> simp
    · split <;> trivial

theorem cancelsKept_answered {s t : Store} {seen : Observed} {c : Call} {r : Reply c}
    (wf : s.WellFormed) (kept : CancelsKept s) (copies : CopiesCancelled ⟨s, seen⟩)
    (permitted : Permits ⟨s, seen⟩ c) (answered : Answered .controller s c r t) :
    CancelsKept t ∧ CopiesCancelled ⟨t, seen.note c r⟩ := by
  cases answered with
  | entries =>
    exact ⟨kept, kept.stored, wf.below⟩
  | @updated e x stored key =>
    -- The copy behind the write was read with a status that is not cancelled.
    have active : ¬CancelledIn s.events e.index := by
      obtain ⟨_, ⟨_, _, _, read⟩ | ⟨_, read⟩⟩ := permitted
      · exact fun cancelled => nomatch copies.copies _ read cancelled
      · exact fun cancelled => nomatch copies.copies _ read cancelled
    have status : e.status ≠ .cancelled := by
      obtain ⟨_, ⟨queued, _⟩ | ⟨pending, _⟩⟩ := permitted
      · exact fun cancelled => nomatch queued.symm.trans cancelled
      · exact fun cancelled => nomatch pending.symm.trans cancelled
    refine ⟨kept.putEntry wf stored key fun cancelled => absurd cancelled active, ?_⟩
    refine copies.mono rfl le_rfl fun y _ cancelled => .inl ?_
    exact (cancelledIn_concat.mp cancelled).resolve_right fun now => status now.2
  | removed e =>
    refine ⟨kept.removeEntry (copies.below e permitted.2.1), ?_⟩
    refine copies.mono rfl le_rfl fun y _ cancelled => .inl ?_
    exact (cancelledIn_concat.mp cancelled).resolve_right id
  | registered q origin =>
    have active : ¬CancelledIn s.events origin.index :=
      fun cancelled => nomatch copies.copies _ permitted.2.read cancelled
    refine ⟨kept.plain rfl rfl rfl (fun _ impossible => impossible) (fun _ => nofun) active, ?_⟩
    refine copies.mono rfl le_rfl fun y _ cancelled => .inl ?_
    exact (cancelledIn_concat.mp cancelled).resolve_right id
  | moved group => exact ⟨kept.sameEvents rfl rfl rfl, copies.mono rfl le_rfl fun _ _ => .inl⟩
  | changed q => exact ⟨kept.sameEvents rfl rfl rfl, copies.mono rfl le_rfl fun _ _ => .inl⟩
  | enable => cases permitted
  | found => cases permitted
  | added => cases permitted
  | _ => exact ⟨kept, copies.mono rfl le_rfl fun _ _ => .inl⟩

theorem cancelsKept_of_reached {cfg : Config} {s : System}
    (reached : Reached cfg CancelUnobserved s) :
    CancelsKept s.store ∧ ∀ run, s.run = some run → CopiesCancelled ⟨s.store, run.seen⟩ := by
  refine reached.invariant (fun s => CancelsKept s.store ∧
    ∀ run, s.run = some run → CopiesCancelled ⟨s.store, run.seen⟩) ⟨?_, ?_⟩ ?_
  · have none (i : Int) : ¬CancelledIn [] i := by simp [CancelledIn]
    exact ⟨each_nil _, List.forall_mem_nil _, fun i cancelled => absurd cancelled (none i),
      List.forall_mem_nil _, fun i mentioned => absurd mentioned (by simp [none, System.initial,
        Store.empty])⟩
  · exact fun _ running => nomatch (running : none = some _)
  · rintro u a v sound ⟨kept, copies⟩ admitted stepped _
    cases stepped with
    | others others run =>
      rw [run]
      exact cancelsKept_others sound kept copies admitted others
    | restarted frame run _ =>
      refine ⟨(cancelsKept_others (a := .crash) sound kept copies trivial (.frame frame)).1,
        fun r running => ?_⟩
      rw [run r running]
      exact ⟨List.forall_mem_nil _, List.forall_mem_nil _⟩
    | waited run progress before after store =>
      rw [store]
      refine ⟨kept, fun r running => ?_⟩
      cases after.symm.trans running
      exact copies run before
    | called input action before prog permitted answered after =>
      obtain ⟨kept', copies'⟩ :=
        cancelsKept_answered sound.wf kept (copies _ before) permitted answered
      refine ⟨kept', fun r running => ?_⟩
      rcases after with ended | continued
      · cases ended.symm.trans running
      · cases continued.symm.trans running
        exact copies'

/-- In every run in which cancels are committed only while no run of the controller holds an
older copy of the entry: once an entry has been set to cancelled, no later write gives it
another status and no queue entry is registered for it, and it is stored as cancelled until
it is removed. -/
theorem cancel_never_lost (cfg : Config) (s : System) (reached : Reached cfg CancelUnobserved s)
    (before after : List Event) (writer : Writer) (e : RebootListEntry)
    (history : s.store.events = before ++ .updated writer e :: after)
    (cancelled : e.status = .cancelled) :
    (∀ w e', Event.updated w e' ∈ after → e'.index = e.index → e'.status = .cancelled) ∧
    (∀ r, Event.registered r ∈ after → r.origin.index ≠ e.index) ∧
    ((∃ x ∈ s.store.list, x.index = e.index ∧ x.status = .cancelled) ∨
      (∀ x ∈ s.store.list, x.index ≠ e.index) ∧ Event.removed e.index ∈ after) := by
  obtain ⟨kept, _⟩ := cancelsKept_of_reached reached
  -- At every later event the cancel is among the events before it.
  have later (event : Event) (member : event ∈ after) :
      ∃ earlier, Respects earlier event ∧ CancelledIn earlier e.index := by
    obtain ⟨mid, rest, rfl⟩ := List.append_of_mem member
    refine ⟨before ++ .updated writer e :: mid, kept.each _ event rest (by simp [history]), ?_⟩
    exact ⟨.updated writer e, by simp, rfl, cancelled⟩
  refine ⟨fun w e' member index => ?_, fun r member index => ?_, ?_⟩
  · obtain ⟨earlier, respects, done⟩ := later _ member
    exact respects.1 (index ▸ done)
  · obtain ⟨earlier, respects, done⟩ := later _ member
    exact respects (index ▸ done)
  · have done : CancelledIn s.store.events e.index :=
      ⟨.updated writer e, by simp [history], rfl, cancelled⟩
    rcases kept.present e.index done with ⟨x, stored, index⟩ | removed
    · exact .inl ⟨x, stored, index, kept.stored x stored (index ▸ done)⟩
    · refine .inr ⟨fun x stored index => kept.gone x stored (index ▸ removed), ?_⟩
      have notBefore := (kept.each before _ after history).2
      rw [history] at removed
      simpa [notBefore] using removed

/-- A user cancels between two runs; the next run removes the entry. -/
def cancelledBetweenRuns : System := .play openConfig CancelUnobserved <|
  userRuns 0 .enable 1 ++ userRuns 1 (.add [nodeIn "a" "n"] false ["n"]) 2 ++
  userRuns 2 (.cancel 0) 3 ++ [.elect, .tick] ++ controllerRuns 9 ["a"]

theorem cancel_never_lost_betweenRuns :
    cancelledBetweenRuns.store.events = [.added (entryForN 0 .pending)] ++
        .updated .user (entryForN 0 .cancelled) :: [.removed 0] ∧
      ((∃ x ∈ cancelledBetweenRuns.store.list, x.index = 0 ∧ x.status = .cancelled) ∨
        (∀ x ∈ cancelledBetweenRuns.store.list, x.index ≠ 0) ∧
          Event.removed 0 ∈ [Event.removed 0]) := by
  have history : cancelledBetweenRuns.store.events = [.added (entryForN 0 .pending)] ++
      .updated .user (entryForN 0 .cancelled) :: [.removed 0] := by decide +kernel
  exact ⟨history, (cancel_never_lost openConfig cancelledBetweenRuns (reached_play _ _ _) _ _ _ _
    history rfl).2.2⟩

/-- A user cancels while a run holds the entry as pending. -/
def cancelledDuringRun : System := .play openConfig Transition.always <|
  userRuns 0 .enable 1 ++ userRuns 1 (.add [nodeIn "a" "n"] false ["n"]) 2 ++
  [.elect, .tick] ++ controllerRuns 2 ["a"] ++ userRuns 2 (.cancel 0) 3 ++ controllerRuns 10 ["a"]

/-- The run registers a queue entry for the cancelled entry and stores it as queued. -/
theorem cancel_overwritten :
    Reached openConfig Transition.always cancelledDuringRun ∧
      cancelledDuringRun.store.events =
        [.added (entryForN 0 .pending), .updated .user (entryForN 0 .cancelled),
          .registered ⟨⟨0, "n", .queued, 0⟩, entryForN 0 .queued⟩,
          .updated .controller (entryForN 0 .queued)] ∧
      cancelledDuringRun.store.list = [entryForN 0 .queued] :=
  ⟨reached_play _ _ _, by decide +kernel, by decide +kernel⟩

end Neco.Rebooter
