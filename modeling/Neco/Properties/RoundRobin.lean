import Neco.Lib.Cyclic
import Neco.Rebooter.Collect
import Neco.Properties.RebootWindow
import Mathlib.Data.Finset.Card
import Mathlib.Data.String.Basic

/-!
# Groups are served round-robin

A call of `runOnce` is told by its exchanges with the environment, so that calls that stop
anywhere are covered and the clock may run on between two readings. A group has a rebootable
node in a call when `findRebootableNodeInGroup` returns one for it there.
-/

namespace Neco.Rebooter

open Program

/-! ### The groups of the list -/

theorem mem_compact {group : String} (groups : List String) :
    group ∈ compact groups ↔ group ∈ groups := by
  induction groups using compact.induct with
  | case1 => simp [compact]
  | case2 x => simp [compact]
  | case3 x rest ih =>
    rw [compact, if_pos rfl, ih]
    simp
  | case4 x y rest different ih =>
    rw [compact, if_neg different, List.mem_cons, ih]
    exact List.mem_cons.symm

/-- Equal groups are neighbours in a sorted list. -/
theorem pairwise_compact {groups : List String} (sorted : groups.Pairwise (· ≤ ·)) :
    (compact groups).Pairwise (· < ·) := by
  induction groups using compact.induct with
  | case1 => exact .nil
  | case2 x => exact List.pairwise_singleton ..
  | case3 x rest ih =>
    rw [compact, if_pos rfl]
    exact ih sorted.of_cons
  | case4 x y rest different ih =>
    rw [compact, if_neg different]
    refine .cons (fun z member => ?_) (ih sorted.of_cons)
    have first : x < y := lt_of_le_of_ne (List.rel_of_pairwise_cons sorted (List.mem_cons_self ..))
      different
    rcases List.mem_cons.mp ((mem_compact _).mp member) with rfl | later
    · exact first
    · exact lt_of_lt_of_le first (List.rel_of_pairwise_cons sorted.of_cons later)

theorem nodup_compact_sortStrings (groups : List String) : (compact (sortStrings groups)).Nodup :=
  (pairwise_compact (List.pairwise_insertionSort (· ≤ ·) groups)).imp fun less => ne_of_lt less

theorem isEqualContents_iff {slice1 slice2 : List String} :
    isEqualContents slice1 slice2 = true ↔ slice1.Perm slice2 := by
  rw [isEqualContents, Bool.and_eq_true, beq_iff_eq, beq_iff_eq]
  constructor
  · rintro ⟨-, same⟩
    have first : (sortStrings slice1).Perm slice1 := List.perm_insertionSort ..
    have second : (sortStrings slice2).Perm slice2 := List.perm_insertionSort ..
    exact first.symm.trans (same ▸ second)
  · intro perm
    refine ⟨perm.length_eq, ?_⟩
    exact List.Perm.eq_of_pairwise' (List.pairwise_insertionSort (· ≤ ·) slice1)
      (List.pairwise_insertionSort (· ≤ ·) slice2)
      ((List.perm_insertionSort ..).trans (perm.trans (List.perm_insertionSort ..).symm))

/-! ### The rotation -/

theorem indexOf_of_not_mem {order : List String} {group : String} (absent : group ∉ order) :
    indexOf order group = -1 := by
  rw [indexOf, List.idxOf?_eq_none_iff.mpr absent]
  rfl

theorem cycleSlices_split {before later : List String} {group : String} (first : group ∉ before) :
    cycleSlices (before ++ group :: later) (indexOf (before ++ group :: later) group) =
      group :: later ++ before := by
  have index : indexOf (before ++ group :: later) group = before.length := by
    rw [indexOf, (List.idxOf?_eq_some_iff (i := before.length)).mpr]
    · rfl
    · refine ⟨by simp, by simp, fun j inside same => first ?_⟩
      rw [List.getElem_append_left inside] at same
      exact same ▸ List.getElem_mem inside
  have inside : before.length < (before ++ group :: later).length := by
    rw [List.length_append, List.length_cons]
    omega
  rw [index, cycleSlices, if_neg (by omega), if_neg (by omega), if_neg (by omega)]
  simp

theorem perm_cycleSlices (slice : List String) (offset : Int) :
    (cycleSlices slice offset).Perm slice := by
  unfold cycleSlices
  split
  · exact .refl _
  split
  · exact .refl _
  split
  · exact .refl _
  · have halves : (slice.drop offset.toNat ++ slice.take offset.toNat).Perm
        (slice.take offset.toNat ++ slice.drop offset.toNat) := List.perm_append_comm
    rwa [List.take_append_drop] at halves

/-- Away from the processing group, the search for another candidate finds the first one. -/
theorem find?_filter_ne {p : String → Bool} {groups : List String} {group : String}
    (absent : group ∉ groups) :
    (groups.filter p).find? (· ≠ group) = groups.find? p := by
  have others : ∀ g ∈ groups.filter p, decide (g ≠ group) = true := by
    intro g member
    rw [decide_eq_true_iff]
    rintro rfl
    exact absent (List.mem_of_mem_filter member)
  rw [← List.head?_filter, ← List.head?_filter, List.filter_eq_self.mpr others]

/-- The first candidate of the rotation other than the processing group is the next group in
the cyclic order. -/
theorem pick_eq_next {order : List String} (nodup : order.Nodup) (p : String → Bool)
    (group : String) :
    (((cycleSlices order (indexOf order group)).filter p).find? (· ≠ group)).getD group =
      Cyclic.next order p group := by
  rw [Cyclic.next]
  by_cases member : group ∈ order
  · obtain ⟨before, later, rfl⟩ := List.append_of_mem member
    have apart := List.nodup_append.mp nodup
    have first : group ∉ before := fun earlier =>
      apart.2.2 _ earlier _ (List.mem_cons_self ..) rfl
    have absent : group ∉ later ++ before := fun there =>
      (List.mem_append.mp there).elim (List.nodup_cons.mp apart.2.1).1 first
    -- the rotation begins with the processing group, which the search passes over
    have passed : ((group :: (later ++ before)).filter p).find? (· ≠ group) =
        (later ++ before).find? p := by
      rw [← find?_filter_ne absent, List.filter_cons]
      split
      · exact List.find?_cons_of_neg (by simp)
      · rfl
    -- and the cyclic order ends with it, as what is left when no other group is found
    have ended : (later ++ (before ++ [group])).find? p =
        ((later ++ before).find? p).or ([group].find? p) := by
      rw [← List.append_assoc, List.find?_append]
    rw [cycleSlices_split first, Cyclic.after_split first, List.cons_append, passed, ended]
    cases (later ++ before).find? p with
    | some g => rfl
    | none => cases holds : p group <;> simp [holds]
  · rw [indexOf_of_not_mem member, Cyclic.after_of_not_mem member]
    exact congrArg (·.getD group) (find?_filter_ne member)

/-! ### The search for rebootable nodes -/

/-- The trace `t` of a search through `groups` in which `found` are the groups that had a
rebootable node. -/
inductive Searched (c : Controller) (entries : List RebootListEntry) :
    List String → List ((c : Call) × Reply c) → List String → Prop
  | nil : Searched c entries [] [] []
  | found {group : String} {groups found : List String} {nodes : List RebootListEntry}
      {t later : List ((c : Call) × Reply c)}
      (search : Prog.Steps (c.findRebootableNodeInGroup entries group) t (.ret nodes))
      (some : nodes ≠ []) (rest : Searched c entries groups later found) :
      Searched c entries (group :: groups) (t ++ later) (group :: found)
  | missed {group : String} {groups found : List String} {t later : List ((c : Call) × Reply c)}
      (search : Prog.Steps (c.findRebootableNodeInGroup entries group) t (.ret []))
      (rest : Searched c entries groups later found) :
      Searched c entries (group :: groups) (t ++ later) found

namespace Searched

variable {c : Controller} {entries : List RebootListEntry} {groups found : List String}
  {t : List ((c : Call) × Reply c)}

theorem sublist (searched : Searched c entries groups t found) : found.Sublist groups := by
  induction searched with
  | nil => exact .slnil
  | found _ _ _ ih => exact ih.cons_cons _
  | missed _ _ ih => exact ih.cons _

/-- In a list without repetitions the groups that were found are told by their set. -/
theorem eq_filter (searched : Searched c entries groups t found) (nodup : groups.Nodup)
    {p : String → Bool} (which : ∀ group ∈ groups, p group = true ↔ group ∈ found) :
    found = groups.filter p := by
  have kept := searched.sublist.filter p
  rw [List.filter_eq_self.mpr fun g member =>
    (which g (searched.sublist.subset member)).mpr member] at kept
  refine kept.eq_of_length_le (List.subperm_of_subset (nodup.filter p) fun g member => ?_).length_le
  obtain ⟨inside, holds⟩ := List.mem_filter.mp member
  exact (which g inside).mp holds

end Searched

/-- The body of the loop over the groups. -/
def Controller.search (c : Controller) (entries : List RebootListEntry) (candidate : List String)
    (group : String) : Prog (List String) :=
  c.findRebootableNodeInGroup entries group >>= fun nodes =>
    .ret (if nodes = [] then candidate else candidate ++ [group])

theorem candidates_eq (c : Controller) (entries : List RebootListEntry) (groups : List String) :
    c.candidates entries groups = groups.foldlM (c.search entries) [] := by
  refine congrArg (fun body => groups.foldlM body []) (funext fun candidate => funext fun group =>
    congrArg _ (funext fun nodes => ?_))
  cases nodes <;> rfl

theorem Searched.steps {c : Controller} {entries : List RebootListEntry}
    {groups found : List String} {t : List ((c : Call) × Reply c)}
    (searched : Searched c entries groups t found) (candidate : List String) :
    Prog.Steps (groups.foldlM (c.search entries) candidate) t (.ret (candidate ++ found)) := by
  induction searched generalizing candidate with
  | nil =>
    rw [List.append_nil]
    exact .refl _
  | @found group _ _ _ _ _ search some _ ih =>
    rw [List.foldlM_cons, Controller.search]
    refine ((search.bind _).bind _).append ?_
    rw [Prog.ret_bind, if_neg some, Prog.ret_bind]
    simpa only [List.append_assoc, List.singleton_append] using ih (candidate ++ [group])
  | missed search _ ih =>
    rw [List.foldlM_cons, Controller.search]
    exact ((search.bind _).bind _).append (ih candidate)

theorem searched_of_steps {c : Controller} {entries : List RebootListEntry} {groups : List String}
    {t : List ((c : Call) × Reply c)} {candidate result : List String}
    (steps : Prog.Steps (groups.foldlM (c.search entries) candidate) t (.ret result)) :
    ∃ found, result = candidate ++ found ∧ Searched c entries groups t found := by
  induction groups generalizing t candidate with
  | nil =>
    cases steps
    exact ⟨[], (List.append_nil _).symm, .nil⟩
  | cons group groups ih =>
    rw [List.foldlM_cons, Controller.search, Prog.bind_assoc] at steps
    rcases steps.bind_cases with ⟨first, later, nodes, rfl, search, rest⟩ | ⟨p, _, ended, unfinished⟩
    · obtain ⟨found, rfl, searched⟩ := ih rest
      by_cases none : nodes = []
      · subst none
        exact ⟨found, rfl, .missed search searched⟩
      · rw [if_neg none, List.append_assoc]
        exact ⟨group :: found, rfl, .found search none searched⟩
    · exact absurd ended.symm (Prog.bind_ne_ret unfinished _ _)

/-- The searches are the finished runs of the loop of `runOnce`. -/
theorem searched_iff {c : Controller} {entries : List RebootListEntry}
    {groups found : List String} {t : List ((c : Call) × Reply c)} :
    Searched c entries groups t found ↔
      Prog.Steps (c.candidates entries groups) t (.ret found) := by
  rw [candidates_eq]
  constructor
  · intro searched
    exact searched.steps []
  · intro steps
    obtain ⟨_, rfl, searched⟩ := searched_of_steps steps
    exact searched

/-! ### Moves -/

/-- The group that a call moves the processing group to. -/
def Call.movesTo : Call → Option String
  | updateProcessingGroup group => some group
  | _ => none

/-- The moves of a trace. -/
def moves (t : List ((c : Call) × Reply c)) : List String := t.filterMap (·.1.movesTo)

def Call.stays (c : Call) : Prop := c.movesTo = none

theorem moves_append (t t' : List ((c : Call) × Reply c)) : moves (t ++ t') = moves t ++ moves t' :=
  List.filterMap_append

theorem moves_of_stays {α : Type} {p q : Prog α} {t : List ((c : Call) × Reply c)}
    (uses : p.Uses Call.stays) (steps : p.Steps t q) : moves t = [] :=
  List.filterMap_eq_nil_iff.mpr fun _ made => uses.mem_steps steps made

theorem stays_of_isQuiet (call : Call) (quiet : call.isQuiet) : call.stays := by
  cases call <;> first | rfl | exact quiet.elim

theorem uses_orFail {α : Type} {allowed : Call → Prop} (r : Except StorageError α) :
    (orFail r).Uses allowed := by
  cases r <;> trivial

theorem stays_collectEntries (c : Controller) (list : List RebootListEntry)
    (queue : List RebootQueueEntry) (group : String) :
    (c.collectEntries list queue group).Uses Call.stays :=
  (c.uses_collectEntries list queue group).mono stays_of_isQuiet

theorem stays_cancelRebootsEntry (queued : Option RebootQueueEntry) :
    (cancelRebootsEntry queued).Uses Call.stays := by
  cases queued with
  | none => trivial
  | some rq => exact ⟨rfl, uses_orFail⟩

theorem stays_dequeueAndCancelEntry (entries : List EntrySet) (memory : Memory) :
    (dequeueAndCancelEntry entries memory).Uses Call.stays := by
  refine Prog.Uses.foldlM entries (fun memory entry _ => ?_) memory
  split
  · trivial
  · refine Prog.Uses.bind ⟨rfl, uses_orFail⟩ fun _ => ?_
    dsimp only
    split
    · trivial
    · exact Prog.Uses.bind ⟨rfl, uses_orFail⟩ fun _ => trivial

theorem stays_processEntries (leaderKey : Nat) (enabled : Bool) (memory : Memory)
    (collection : EntriesCollection) :
    (processEntries leaderKey enabled memory collection).Uses Call.stays := by
  have removes (entry : RebootListEntry) :
      (removeRebootListEntry leaderKey entry).Uses Call.stays := ⟨rfl, uses_orFail⟩
  unfold processEntries
  split
  · -- removeCancelledEntry
    refine Prog.Uses.foldlM _ (fun _ entry _ => ?_) ()
    refine Prog.Uses.bind (stays_cancelRebootsEntry _) fun _ => ?_
    split
    · trivial
    · exact removes _
  split
  · exact Prog.Uses.foldlM _ (fun _ entry _ => stays_cancelRebootsEntry _) ()
  · refine Prog.Uses.bind (Prog.Uses.foldlM _ (fun _ entry _ => removes entry) ()) fun _ => ?_
    split
    · refine Prog.Uses.bind (Prog.Uses.foldlM _ (fun _ entry _ => ?_) ()) fun _ => ?_
      · exact ⟨rfl, fun _ => ⟨rfl, uses_orFail⟩⟩
      · exact Prog.Uses.bind (stays_dequeueAndCancelEntry _ _) fun _ => trivial
    · exact Prog.Uses.bind (stays_dequeueAndCancelEntry _ _) fun _ => trivial

/-- The program makes the moves `groups`, and ends with the last of them. -/
def MovesLast {α : Type} (p : Prog α) (groups : List String) : Prop :=
  ∀ t q, p.Steps t q →
    ((∀ a, q ≠ .ret a) ∧ moves t = []) ∨ ((∃ a, q = .ret a) ∧ moves t = groups)

namespace MovesLast

variable {α β : Type} {groups : List String}

theorem ret (a : α) : MovesLast (.ret a) [] := by
  intro t q steps
  cases steps
  exact .inr ⟨⟨a, rfl⟩, rfl⟩

theorem after_stays {p : Prog α} {f : α → Prog β} (uses : p.Uses Call.stays)
    (rest : ∀ a, MovesLast (f a) groups) : MovesLast (p >>= f) groups := by
  intro t q steps
  rcases steps.bind_cases with ⟨t₁, t₂, a, rfl, first, later⟩ | ⟨p', first, rfl, unfinished⟩
  · rw [moves_append, moves_of_stays uses first]
    exact rest a t₂ q later
  · exact .inl ⟨Prog.bind_ne_ret unfinished f, moves_of_stays uses first⟩

theorem map {p : Prog α} (moved : MovesLast p groups) (f : α → β) :
    MovesLast (p >>= fun a => .ret (f a)) groups := by
  intro t q steps
  rcases steps.bind_cases with ⟨t₁, t₂, a, rfl, first, later⟩ | ⟨p', first, rfl, unfinished⟩
  · cases later
    rw [List.append_nil]
    rcases moved t₁ _ first with ⟨unfinished, _⟩ | ⟨_, made⟩
    · exact absurd rfl (unfinished a)
    · exact .inr ⟨⟨f a, rfl⟩, made⟩
  · rcases moved t p' first with ⟨_, none⟩ | ⟨⟨a, rfl⟩, _⟩
    · exact .inl ⟨Prog.bind_ne_ret unfinished _, none⟩
    · exact absurd rfl (unfinished a)

end MovesLast

/-- The group that `moveToNextGroup` moves to, if any. -/
def pick (candidate : List String) (group : String) : Option String :=
  candidate.find? (· ≠ group)

theorem movesLast_moveToNextGroup (candidate : List String) (group : String) :
    MovesLast (moveToNextGroup candidate group) (pick candidate group).toList := by
  rw [moveToNextGroup, pick]
  cases candidate.find? (· ≠ group) with
  | none => exact MovesLast.ret group
  | some next =>
    intro t q steps
    cases steps with
    | refl => exact .inl ⟨(fun a same => by cases same), rfl⟩
    | call later =>
      cases later
      exact .inr ⟨⟨next, rfl⟩, rfl⟩

theorem movesLast_chooseGroup (c : Controller) (memory : Memory) {candidate : List String}
    (group : String) (some : candidate ≠ []) :
    MovesLast (c.chooseGroup true memory candidate group)
      (if isStuck memory.queue then (pick candidate group).toList else []) := by
  have nonempty : candidate.length ≠ 0 ∧ true = true :=
    ⟨fun zero => some (List.length_eq_zero_iff.mp zero), rfl⟩
  have moved (memory : Memory) :
      MovesLast (moveToNextGroup candidate group >>= fun group => .ret (memory, group))
        (pick candidate group).toList :=
    (movesLast_moveToNextGroup candidate group).map _
  rw [Controller.chooseGroup, if_pos nonempty]
  by_cases empty : memory.queue.length ≠ 0
  · rw [if_pos empty]
    split
    · exact .after_stays (stays_collectEntries ..) fun collection =>
        .after_stays (stays_dequeueAndCancelEntry ..) fun memory => moved memory
    · exact .ret _
  · -- an empty queue counts as stuck
    rw [if_neg empty, List.length_eq_zero_iff.mp (not_not.mp empty)]
    exact moved memory

/-! ### Calls of `runOnce` -/

/-- What a call of `runOnce` finds and leaves: the package variable and the processing group. -/
structure Turn where
  allGroups : List String
  group : String

/-- The value of `allGroups` after the comparison with the groups of the list. -/
def keptGroups (allGroups shuffled : List String) : List String :=
  if isEqualContents allGroups shuffled then allGroups else shuffled

/-- What an enabled call reads first. -/
def opening (entries : List RebootListEntry) (queue : List RebootQueueEntry) (group : String)
    (shuffled : List String) : List ((c : Call) × Reply c) :=
  [⟨.isNecoRebooterEnabled, true⟩, ⟨.getRebootListEntries, entries⟩,
    ⟨.getRebootsEntries, queue⟩, ⟨.getProcessingGroup, group⟩,
    ⟨.shuffle (compact (sortStrings (entries.map (·.group)))), shuffled⟩]

/-- The part of a call after the search. -/
def Controller.afterSearch (c : Controller) (leaderKey : Nat) (memory : Memory)
    (allGroups candidate : List String) (group : String) : Prog (List String) := do
  let (memory, processingGroup) ← c.chooseGroup true memory candidate group
  let collection ← c.collectEntries memory.list memory.queue processingGroup
  processEntries leaderKey true memory collection
  return allGroups

/-- An enabled call of `runOnce` that has come at least through its search; it may have stopped
or failed at any later point. -/
structure Round (c : Controller) (leaderKey : Nat) (turn : Turn) where
  entries : List RebootListEntry
  queue : List RebootQueueEntry
  shuffled : List String
  found : List String
  search : List ((c : Call) × Reply c)
  rest : List ((c : Call) × Reply c)
  left : Prog (List String)
  isShuffle : shuffled.Perm (compact (sortStrings (entries.map (·.group))))
  searched : Searched c entries
    (cycleSlices (keptGroups turn.allGroups shuffled)
      (indexOf (keptGroups turn.allGroups shuffled) turn.group)) search found
  steps : (c.runOnce leaderKey turn.allGroups).Steps
    (opening entries queue turn.group shuffled ++ (search ++ rest)) left

namespace Round

variable {c : Controller} {leaderKey : Nat} {turn : Turn} (round : Round c leaderKey turn)

/-- The cyclic order of the groups in this call. -/
def order : List String := keptGroups turn.allGroups round.shuffled

/-- What the call leaves to the next one. -/
def after : Turn := ⟨round.order, (moves round.rest).getLast?.getD turn.group⟩

/-- The call moved on from an empty or stuck queue: it moved the processing group, or it came to
its end, in which case it stayed at a group without an alternative. -/
def Moved : Prop := isStuck round.queue = true ∧ (moves round.rest ≠ [] ∨ ∃ a, round.left = .ret a)

/-- The groups of the list and those with a rebootable node. -/
structure Steady (groups C : Finset String) : Prop where
  list : (round.entries.map (·.group)).toFinset = groups
  rebootable : round.found.toFinset = C

theorem steps_afterSearch : (c.afterSearch leaderKey ⟨round.entries, round.queue⟩ round.order
    round.found turn.group).Steps round.rest round.left := by
  have steps := round.steps
  cases steps with | call steps =>
  cases steps with | call steps =>
  cases steps with | call steps =>
  cases steps with | call steps =>
  cases steps with | call steps =>
  exact ((searched_iff.mp round.searched).bind _).rest steps

/-- The moves of a call: those of its choice, and none of an unfinished choice. -/
theorem moves_rest (some : round.found ≠ []) :
    ((∀ a, round.left ≠ .ret a) ∧ moves round.rest = []) ∨
      moves round.rest =
        if isStuck round.queue then (pick round.found turn.group).toList else [] := by
  have choice := movesLast_chooseGroup c ⟨round.entries, round.queue⟩ turn.group some
  rcases round.steps_afterSearch.bind_cases with
    ⟨t₁, t₂, chosen, split, first, later⟩ | ⟨p, first, ended, unfinished⟩
  · -- nothing moves after the choice
    have quiet : moves t₂ = [] := by
      refine moves_of_stays ?_ later
      exact Prog.Uses.bind (stays_collectEntries ..) fun _ =>
        Prog.Uses.bind (stays_processEntries ..) fun _ => trivial
    rcases choice _ _ first with ⟨unfinished, _⟩ | ⟨_, made⟩
    · exact absurd rfl (unfinished chosen)
    · right
      rw [split, moves_append, quiet, made, List.append_nil]
  · left
    rcases choice _ _ first with ⟨_, none⟩ | ⟨⟨a, rfl⟩, _⟩
    · exact ⟨ended ▸ Prog.bind_ne_ret unfinished _, none⟩
    · exact absurd rfl (unfinished a)

/-! ### The order of the groups -/

theorem nodup_shuffled : round.shuffled.Nodup :=
  round.isShuffle.nodup_iff.mpr (nodup_compact_sortStrings _)

theorem perm_order : round.order.Perm round.shuffled := by
  rw [order, keptGroups]
  split
  next same => exact isEqualContents_iff.mp same
  · exact .refl _

theorem nodup_order : round.order.Nodup := round.perm_order.nodup_iff.mpr round.nodup_shuffled

theorem mem_order {group : String} :
    group ∈ round.order ↔ group ∈ round.entries.map (·.group) := by
  have sorted : (sortStrings (round.entries.map (·.group))).Perm (round.entries.map (·.group)) :=
    List.perm_insertionSort ..
  rw [round.perm_order.mem_iff, round.isShuffle.mem_iff, mem_compact, sorted.mem_iff]

/-- A call keeps an order of the groups of its list. -/
theorem order_eq_allGroups (nodup : turn.allGroups.Nodup)
    (same : ∀ group, group ∈ turn.allGroups ↔ group ∈ round.entries.map (·.group)) :
    round.order = turn.allGroups := by
  have perm : turn.allGroups.Perm round.shuffled := by
    refine (List.perm_ext_iff_of_nodup nodup round.nodup_shuffled).mpr fun group => ?_
    rw [same, ← round.mem_order, round.perm_order.mem_iff]
  rw [order, keptGroups, if_pos (isEqualContents_iff.mpr perm)]

variable {round} {groups C : Finset String}

theorem Steady.mem_order (steady : round.Steady groups C) {group : String} :
    group ∈ round.order ↔ group ∈ groups := by
  rw [round.mem_order, ← steady.list, List.mem_toFinset]

theorem Steady.found_eq (steady : round.Steady groups C) :
    round.found = (cycleSlices round.order (indexOf round.order turn.group)).filter (· ∈ C) := by
  have nodup := (perm_cycleSlices round.order (indexOf round.order turn.group)).nodup_iff.mpr
    round.nodup_order
  refine round.searched.eq_filter nodup fun group _ => ?_
  rw [decide_eq_true_iff, ← steady.rebootable, List.mem_toFinset]

theorem Steady.mem_order_of_rebootable (steady : round.Steady groups C) {group : String}
    (member : group ∈ C) : group ∈ round.order := by
  rw [← steady.rebootable, List.mem_toFinset] at member
  exact (perm_cycleSlices ..).subset (round.searched.sublist.subset member)

theorem Steady.found_ne_nil (steady : round.Steady groups C) (some : C.Nonempty) :
    round.found ≠ [] := by
  rintro none
  obtain ⟨group, member⟩ := some
  rw [← steady.rebootable, none] at member
  cases member

theorem Steady.pick_eq (steady : round.Steady groups C) :
    (pick round.found turn.group).getD turn.group =
      Cyclic.next round.order (· ∈ C) turn.group := by
  rw [← pick_eq_next round.nodup_order, ← steady.found_eq]
  rfl

/-- A call that does not move leaves the processing group alone. -/
theorem after_group_of_not_moved (steady : round.Steady groups C) (some : C.Nonempty)
    (stayed : ¬ round.Moved) : round.after.group = turn.group := by
  have none : moves round.rest = [] := by
    rcases round.moves_rest (steady.found_ne_nil some) with ⟨_, none⟩ | made
    · exact none
    · by_cases stuck : isStuck round.queue = true
      · by_contra some
        exact stayed ⟨stuck, .inl some⟩
      · rw [made, if_neg stuck]
  rw [after, none]
  rfl

/-- A call that moves goes to the next group with a rebootable node. -/
theorem after_group_of_moved (steady : round.Steady groups C) (some : C.Nonempty)
    (moved : round.Moved) :
    round.after.group = Cyclic.next round.order (· ∈ C) turn.group := by
  obtain ⟨stuck, ended⟩ := moved
  rcases round.moves_rest (steady.found_ne_nil some) with ⟨unfinished, none⟩ | made
  · rcases ended with some | ⟨a, returned⟩
    · exact absurd none some
    · exact absurd returned (unfinished a)
  · rw [after, made, if_pos stuck, ← steady.pick_eq]
    cases pick round.found turn.group <;> rfl

end Round

/-! ### Sequences of calls -/

/-- Calls of `runOnce` one after another, during which the groups of the list are `groups` and
those with a rebootable node are `C`; `visited` are the groups that the calls moved to. -/
inductive Session (c : Controller) (leaderKey : Nat) (groups C : Finset String) :
    Turn → List String → Turn → Prop
  | nil (turn : Turn) : Session c leaderKey groups C turn [] turn
  | stayed {turn last : Turn} {visited : List String} (round : Round c leaderKey turn)
      (steady : round.Steady groups C) (stayed : ¬ round.Moved)
      (later : Session c leaderKey groups C round.after visited last) :
      Session c leaderKey groups C turn visited last
  | moved {turn last : Turn} {visited : List String} (round : Round c leaderKey turn)
      (steady : round.Steady groups C) (moved : round.Moved)
      (later : Session c leaderKey groups C round.after visited last) :
      Session c leaderKey groups C turn (round.after.group :: visited) last

section Sequences

variable {c : Controller} {leaderKey : Nat} {groups C : Finset String} {turn last : Turn}
  {visited : List String}

/-- A call leaves an order of the groups that the following calls keep. -/
theorem Round.Steady.order_after {round : Round c leaderKey turn}
    (steady : round.Steady groups C) {next : Round c leaderKey round.after}
    (later : next.Steady groups C) : next.order = round.order :=
  next.order_eq_allGroups round.nodup_order fun group => by
    rw [← next.mem_order, later.mem_order]
    exact steady.mem_order

/-- The groups `visited` are those that turns in the cyclic order go to from `group`, the last of
them `last`. -/
structure Turns (order : List String) (C : Finset String) (group : String)
    (visited : List String) (last : String) : Prop where
  visits : visited = List.iterate (Cyclic.next order (· ∈ C))
    (Cyclic.next order (· ∈ C) group) visited.length
  ends : last = (Cyclic.next order (· ∈ C))^[visited.length] group

theorem Turns.cons {order : List String} {group last : String}
    (turns : Turns order C (Cyclic.next order (· ∈ C) group) visited last) :
    Turns order C group (Cyclic.next order (· ∈ C) group :: visited) last :=
  ⟨congrArg _ turns.visits, turns.ends⟩

/-- From an order of the groups on, each move is a turn in it. -/
theorem Session.turns_of_order (session : Session c leaderKey groups C turn visited last)
    (some : C.Nonempty) {order : List String} (nodup : order.Nodup)
    (same : ∀ group, group ∈ order ↔ group ∈ groups) (kept : turn.allGroups = order) :
    Turns order C turn.group visited last.group := by
  -- every call of the session uses the one order
  have ordered {turn : Turn} (kept : turn.allGroups = order) (round : Round c leaderKey turn)
      (steady : round.Steady groups C) : round.order = order := by
    subst kept
    exact round.order_eq_allGroups nodup fun group => by
      rw [same, ← round.mem_order, steady.mem_order]
  induction session with
  | nil turn => exact ⟨rfl, rfl⟩
  | stayed round steady stayed later ih =>
    rw [← Round.after_group_of_not_moved steady some stayed]
    exact ih (ordered kept round steady)
  | moved round steady moved later ih =>
    have turns := ih (ordered kept round steady)
    rw [Round.after_group_of_moved steady some moved, ordered kept round steady] at turns ⊢
    exact turns.cons

/-- The first call of a session fixes the order of the whole session. -/
theorem Session.turns (session : Session c leaderKey groups C turn visited last)
    (some : C.Nonempty) : ∃ order : List String, order.Nodup ∧ (∀ group ∈ C, group ∈ order) ∧
      Turns order C turn.group visited last.group := by
  cases session with
  | nil => exact ⟨C.toList, C.nodup_toList, fun _ => Finset.mem_toList.mpr, ⟨rfl, rfl⟩⟩
  | stayed round steady stayed later =>
    have turns := later.turns_of_order some round.nodup_order (fun _ => steady.mem_order) rfl
    rw [Round.after_group_of_not_moved steady some stayed] at turns
    exact ⟨round.order, round.nodup_order, fun _ => steady.mem_order_of_rebootable, turns⟩
  | moved round steady moved later =>
    have turns := later.turns_of_order some round.nodup_order (fun _ => steady.mem_order) rfl
    rw [Round.after_group_of_moved steady some moved] at turns ⊢
    exact ⟨round.order, round.nodup_order, fun _ => steady.mem_order_of_rebootable, turns.cons⟩

/-- As many moves as there are groups with a rebootable node visit each of them once and return. -/
theorem Turns.full {order : List String} {group last : String}
    (turns : Turns order C group visited last) (nodup : order.Nodup)
    (ordered : ∀ group ∈ C, group ∈ order) (start : group ∈ C) (count : visited.length = C.card) :
    visited.Nodup ∧ visited.toFinset = C ∧ last = group := by
  have chosen : (order.filter (· ∈ C)).toFinset = C := by
    ext g
    rw [List.mem_toFinset, List.mem_filter, decide_eq_true_iff]
    exact ⟨And.right, fun member => ⟨ordered g member, member⟩⟩
  have length : (order.filter (· ∈ C)).length = C.card := by
    rw [← List.toFinset_card_of_nodup (nodup.filter _), chosen]
  have member : group ∈ order.filter (· ∈ C) := List.mem_toFinset.mp (chosen.symm ▸ start)
  have visits := Cyclic.visits_perm nodup member
  rw [length, ← count, ← turns.visits] at visits
  refine ⟨visits.nodup_iff.mpr (nodup.filter _), ?_, ?_⟩
  · rw [List.toFinset_eq_of_perm _ _ visits, chosen]
  · rw [turns.ends, count, ← length, Cyclic.iterate_next_length nodup member]

end Sequences

/-! ### Every call is a round -/

/-- An enabled call that has moved or has come to its end is one of the rounds. -/
theorem exists_round {c : Controller} {leaderKey : Nat} {allGroups : List String}
    {t : List ((c : Call) × Reply c)} {left : Prog (List String)}
    (steps : (c.runOnce leaderKey allGroups).Steps t left)
    (enabled : t.head? = some ⟨.isNecoRebooterEnabled, true⟩)
    (shuffles : ∀ groups order, ⟨.shuffle groups, order⟩ ∈ t → order.Perm groups)
    (far : moves t ≠ [] ∨ ∃ a, left = .ret a) :
    ∃ group, ∃ round : Round c leaderKey ⟨allGroups, group⟩, round.left = left ∧
      opening round.entries round.queue group round.shuffled ++ (round.search ++ round.rest) =
        t := by
  -- a call that stops before the search has neither moved nor come to its end
  have early {t : List ((c : Call) × Reply c)} {left : Prog (List String)}
      (far : moves t ≠ [] ∨ ∃ a, left = .ret a) (none : moves t = [])
      (unfinished : ∀ a, left ≠ .ret a) : False := by
    rcases far with some | ⟨a, returned⟩
    · exact some none
    · exact unfinished a returned
  have whole := steps
  cases steps with
  | refl => cases enabled
  | call steps =>
  cases enabled
  cases steps with
  | refl => exact (early far rfl fun a same => by cases same).elim
  | @call _ _ entries _ _ steps =>
  cases steps with
  | refl => exact (early far rfl fun a same => by cases same).elim
  | @call _ _ queue _ _ steps =>
  cases steps with
  | refl => exact (early far rfl fun a same => by cases same).elim
  | @call _ _ group _ _ steps =>
  cases steps with
  | refl => exact (early far rfl fun a same => by cases same).elim
  | @call _ _ shuffled t _ steps =>
  have searching : (c.candidates entries (cycleSlices (keptGroups allGroups shuffled)
      (indexOf (keptGroups allGroups shuffled) group)) >>= fun candidate =>
        c.afterSearch leaderKey ⟨entries, queue⟩ (keptGroups allGroups shuffled) candidate
          group).Steps t left := steps
  rcases searching.bind_cases with
    ⟨search, rest, found, rfl, first, _⟩ | ⟨p, first, rfl, unfinished⟩
  · exact ⟨group, ⟨entries, queue, shuffled, found, search, rest, left,
      shuffles _ _ (by simp), searched_iff.mpr first, whole⟩, rfl, rfl⟩
  · have none : moves t = [] :=
      moves_of_stays ((c.uses_candidates _ _).mono stays_of_isQuiet) first
    exact (early far none (Prog.bind_ne_ret unfinished _)).elim

/-! ### A clock that stands still -/

/-- The window of an entry is open at the clock reading `now`. -/
def Controller.opens (c : Controller) (entry : RebootListEntry) (now : Int) : Bool :=
  (c.rebootTimes.lookup entry.rebootTime).any (·.isOpen now)

/-- A group has an entry whose window is open. -/
def Controller.hasOpen (c : Controller) (entries : List RebootListEntry) (now : Int)
    (group : String) : Bool :=
  entries.any fun e => e.group = group && c.opens e now

section Answered

variable (c : Controller) (entries : List RebootListEntry) (answer : (c : Call) → Reply c)

theorem foldl_filter {α : Type} (p : α → Bool) (l : List α) : ∀ done : List α,
    l.foldl (fun done x => if p x then done ++ [x] else done) done = done ++ l.filter p := by
  induction l with
  | nil => simp
  | cons x rest ih =>
    intro done
    cases holds : p x <;> simp [holds, ih]

theorem Controller.outcome_findRebootableNodeInGroup (group : String) :
    (c.findRebootableNodeInGroup entries group).outcome answer =
      .ok (entries.filter fun e => e.group = group && c.opens e (answer .now)) := by
  rw [← List.nil_append (List.filter ..), ← foldl_filter]
  refine Prog.outcome_foldlM (fun nodes entry => ?_) entries []
  by_cases same : entry.group = group
  · rw [if_pos same, Prog.outcome_bind, c.outcome_isRebootable]
    cases open_ : c.opens entry (answer .now) <;>
      simp_all [Controller.opens, bind, Except.bind]
  · rw [if_neg same]
    simp [same]

theorem Controller.outcome_candidates (groups : List String) :
    (c.candidates entries groups).outcome answer =
      .ok (groups.filter (c.hasOpen entries (answer .now))) := by
  rw [← List.nil_append (List.filter ..), ← foldl_filter, candidates_eq]
  refine Prog.outcome_foldlM (fun candidate group => ?_) groups []
  have none_iff : entries.filter (fun e => e.group = group && c.opens e (answer .now)) = [] ↔
      ¬ c.hasOpen entries (answer .now) group = true := by
    rw [List.filter_eq_nil_iff, Controller.hasOpen, List.any_eq_true]
    simp
  rw [Controller.search, Prog.outcome_bind, c.outcome_findRebootableNodeInGroup]
  change Except.ok _ = _
  rw [if_congr none_iff rfl rfl, ite_not]

end Answered

/-- The call in which the clock stands still: what it asks after its opening is answered by
`answer`. -/
def Round.still (c : Controller) (leaderKey : Nat) (turn : Turn) (entries : List RebootListEntry)
    (queue : List RebootQueueEntry) (shuffled : List String)
    (isShuffle : shuffled.Perm (compact (sortStrings (entries.map (·.group)))))
    (answer : (c : Call) → Reply c) : Round c leaderKey turn :=
  let order := keptGroups turn.allGroups shuffled
  let cycled := cycleSlices order (indexOf order turn.group)
  let found := cycled.filter (c.hasOpen entries (answer .now))
  let later := c.afterSearch leaderKey ⟨entries, queue⟩ order found turn.group
  { entries := entries
    queue := queue
    shuffled := shuffled
    found := found
    search := (c.candidates entries cycled).exchanges answer
    rest := later.exchanges answer
    left := Prog.ended (later.outcome answer)
    isShuffle := isShuffle
    searched := by
      have searched := Prog.steps_exchanges answer (c.candidates entries cycled)
      rw [c.outcome_candidates] at searched
      exact searched_iff.mpr searched
    steps := by
      have searched := Prog.steps_exchanges answer (c.candidates entries cycled)
      rw [c.outcome_candidates] at searched
      exact .call (.call (.call (.call (.call
        ((searched.bind _).append (Prog.steps_exchanges answer later)))))) }

/-! ### Round-robin -/

/-- What a call does with the processing group while `C` are the groups with a rebootable node. -/
structure Round.Served {c : Controller} {leaderKey : Nat} {turn : Turn}
    (round : Round c leaderKey turn) (groups C : Finset String) : Prop where
  next : round.Moved →
    round.after.group = Cyclic.next round.after.allGroups (· ∈ C) turn.group
  /-- From a group that is not in the list the call moves to the first one in the order. -/
  first : round.Moved → turn.group ∉ groups →
    round.after.allGroups.find? (· ∈ C) = some round.after.group
  only : C = {turn.group} → round.after.group = turn.group
  idle : ¬ round.Moved → round.after.group = turn.group
  /-- The order is not changed by the next call. -/
  fixed : ∀ later : Round c leaderKey round.after, later.Steady groups C →
    later.after.allGroups = round.after.allGroups

theorem Round.served {c : Controller} {leaderKey : Nat} {turn : Turn}
    {round : Round c leaderKey turn} {groups C : Finset String} (steady : round.Steady groups C)
    (some : C.Nonempty) : round.Served groups C := by
  obtain ⟨group, member⟩ := some
  have found := Cyclic.find?_after (p := fun group => decide (group ∈ C)) turn.group
    (steady.mem_order_of_rebootable member) (decide_eq_true member)
  constructor
  case next => exact after_group_of_moved steady ⟨group, member⟩
  case first =>
    intro moved absent
    rw [after_group_of_moved steady ⟨group, member⟩ moved, ← found,
      Cyclic.after_of_not_mem (mt steady.mem_order.mp absent)]
    rfl
  case only =>
    intro alone
    by_cases moved : round.Moved
    · have chosen := List.find?_some found
      rw [← after_group_of_moved steady ⟨group, member⟩ moved, decide_eq_true_iff, alone] at chosen
      exact Finset.mem_singleton.mp chosen
    · exact after_group_of_not_moved steady ⟨group, member⟩ moved
  case idle => exact after_group_of_not_moved steady ⟨group, member⟩
  case fixed => exact fun later steady' => steady.order_after steady'

/-- While the groups of the list and the groups `C` with a rebootable node stay the same, every
call that moves goes to the next group of `C` in one cyclic order, so that as many moves as `C`
has groups visit each of them once and come back. -/
theorem groups_served_round_robin (c : Controller) (leaderKey : Nat) {groups C : Finset String}
    (some : C.Nonempty) :
    (∀ (turn : Turn) (round : Round c leaderKey turn), round.Steady groups C →
      round.Served groups C) ∧
    ∀ (turn last : Turn) (visited : List String),
      Session c leaderKey groups C turn visited last → turn.group ∈ C → visited.length = C.card →
        visited.Nodup ∧ visited.toFinset = C ∧ last.group = turn.group := by
  refine ⟨fun turn round steady => round.served steady some, ?_⟩
  intro turn last visited session start count
  obtain ⟨order, nodup, ordered, turns⟩ := session.turns some
  exact turns.full nodup ordered start count

/-- Two racks whose nodes may be rebooted at any time. -/
def alwaysOpen : Controller := ⟨[("any", ⟨[], [nextFullMinute]⟩)]⟩

def twoRacks : List RebootListEntry :=
  [⟨0, "10.69.0.4", "rack0", "any", .pending⟩, ⟨1, "10.69.0.68", "rack1", "any", .pending⟩]

theorem groups_served_twoRacks : ∃ visited last,
    Session alwaysOpen 7 {"rack0", "rack1"} {"rack0", "rack1"} ⟨[], "rack0"⟩ visited last ∧
      visited = ["rack1", "rack0"] ∧ visited.Nodup ∧ last.group = "rack0" := by
  let first := Round.still alwaysOpen 7 ⟨[], "rack0"⟩ twoRacks [] ["rack0", "rack1"]
    (by decide) (clockAt 0)
  -- the shuffle of the second call comes out the other way round
  let second := Round.still alwaysOpen 7 first.after twoRacks [] ["rack1", "rack0"]
    (by decide) (clockAt 0)
  have session : Session alwaysOpen 7 {"rack0", "rack1"} {"rack0", "rack1"} ⟨[], "rack0"⟩
      [first.after.group, second.after.group] second.after :=
    .moved first ⟨by decide, by decide⟩ ⟨rfl, .inl (by decide)⟩
      (.moved second ⟨by decide, by decide⟩ ⟨rfl, .inl (by decide)⟩ (.nil _))
  have served := (groups_served_round_robin alwaysOpen 7 ⟨"rack0", by decide⟩).2 _ _ _ session
    (by decide) (by decide)
  exact ⟨_, _, session, by decide, served.1, served.2.2⟩

end Neco.Rebooter
