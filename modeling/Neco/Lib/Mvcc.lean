import Neco.Lib.KeyValue
import Mathlib.Data.List.Induction

/-!
# A store that remembers its past

A database is the list of the transactions that have changed it. What a reader sees at a revision
is the store after as many transactions, whatever has been committed since; a watcher is told the
changes of every transaction after a revision, in their order. Compaction takes away the past before
a revision: reads and watchers that ask for it fail.
-/

namespace KeyValue

variable {κ β : Type}

/-- A change of a key, as watchers see it. -/
inductive Event (κ β : Type)
  | put (key : κ) (value : β)
  | delete (key : κ)
  deriving DecidableEq, Repr

def Event.key : Event κ β → κ
  | .put key _ => key
  | .delete key => key

/-- What remains when deletions are filtered out. -/
def Event.put? : Event κ β → Option (κ × β)
  | .put key value => some (key, value)
  | .delete _ => none

section Event

variable (key : κ) (value : β)

@[simp] theorem Event.key_put : (Event.put key value).key = key := rfl

@[simp] theorem Event.key_delete : (Event.delete key : Event κ β).key = key := rfl

@[simp] theorem Event.put?_put : (Event.put key value).put? = some (key, value) := rfl

@[simp] theorem Event.put?_delete : (Event.delete key : Event κ β).put? = none := rfl

end Event

inductive ReadError where
  | compacted
  | futureRevision
  deriving DecidableEq, Repr

variable [LinearOrder κ]

/-- The store after the transactions `txns`. -/
def replay (txns : List (List (Write κ β))) : KV κ β := txns.foldl KV.commit .empty

@[simp] theorem replay_nil : replay ([] : List (List (Write κ β))) = .empty := rfl

@[simp] theorem replay_concat (txns : List (List (Write κ β))) (w : List (Write κ β)) :
    replay (txns ++ [w]) = (replay txns).commit w := by
  simp [replay]

/-- The events of a write on the pairs `l`. -/
def Write.events (l : List (Pair κ β)) : Write κ β → List (Event κ β)
  | .put key value => [.put key value]
  | .deleteRange range => (l.filter fun p => range p.key).map fun p => .delete p.key

/-- The events of a transaction on the pairs `l`. -/
def eventsOf (rev : Nat) : List (Pair κ β) → List (Write κ β) → List (Event κ β)
  | _, [] => []
  | l, w :: rest => w.events l ++ eventsOf rev (w.apply rev l) rest

def Write.put? : Write κ β → Option (κ × β)
  | .put key value => some (key, value)
  | .deleteRange _ => none

theorem filterMap_eventsOf (rev : Nat) (writes : List (Write κ β)) :
    ∀ l : List (Pair κ β), (eventsOf rev l writes).filterMap Event.put? =
      writes.filterMap Write.put? := by
  induction writes with
  | nil => exact fun _ => rfl
  | cons w rest ih =>
    intro l
    rw [eventsOf, List.filterMap_append, ih, List.filterMap_cons]
    cases w with
    | put key value => rfl
    | deleteRange range => simp [Write.events, Write.put?, List.filterMap_map, Function.comp_def]

/-- An event comes from a put of its key or from a deletion of a range with its key. -/
theorem mem_eventsOf {rev : Nat} {writes : List (Write κ β)} {e : Event κ β} :
    ∀ {l : List (Pair κ β)}, e ∈ eventsOf rev l writes →
      (∃ key value, e = .put key value ∧ .put key value ∈ writes) ∨
      ∃ key range, e = .delete key ∧ .deleteRange range ∈ writes ∧ range key = true := by
  induction writes with
  | nil =>
    intro l event
    cases event
  | cons w rest ih =>
    intro l event
    rcases List.mem_append.mp event with first | later
    · cases w with
      | put key value =>
        exact .inl ⟨key, value, List.mem_singleton.mp first, List.mem_cons_self ..⟩
      | deleteRange range =>
        obtain ⟨p, here, rfl⟩ := List.mem_map.mp first
        exact .inr ⟨p.key, range, rfl, List.mem_cons_self .., (List.mem_filter.mp here).2⟩
    · rcases ih later with ⟨key, value, same, put⟩ | ⟨key, range, same, deletion, inside⟩
      · exact .inl ⟨key, value, same, List.mem_cons_of_mem w put⟩
      · exact .inr ⟨key, range, same, List.mem_cons_of_mem w deletion, inside⟩

/-- A watcher of the puts in a range is told the puts of each transaction there. -/
theorem filterMap_filter_eventsOf (range : κ → Bool) (rev : Nat) (l : List (Pair κ β))
    (writes : List (Write κ β)) :
    ((eventsOf rev l writes).filter fun e => range e.key).filterMap Event.put? =
      (writes.filterMap Write.put?).filter fun put => range put.1 := by
  rw [← filterMap_eventsOf rev writes l]
  induction eventsOf rev l writes with
  | nil => rfl
  | cons e rest ih => cases e with
    | put key value => by_cases inside : range key = true <;> simp [inside, ih]
    | delete key =>
      by_cases inside : range key = true <;> simp [List.filterMap_cons, inside, ih]

/-- The transactions of a history have changed something, one after another. -/
def Effective (txns : List (List (Write κ β))) : Prop :=
  ∀ before w after, txns = before ++ w :: after → w.any (·.changes (replay before).pairs) = true

structure Database (κ β : Type) [LinearOrder κ] where
  txns : List (List (Write κ β))
  effective : Effective txns
  /-- Reads of earlier revisions fail, and watchers of them. -/
  compacted : Nat

theorem effective_concat {txns : List (List (Write κ β))} {w : List (Write κ β)} :
    Effective (txns ++ [w]) ↔ Effective txns ∧ w.any (·.changes (replay txns).pairs) = true := by
  constructor
  · intro effective
    refine ⟨fun before w' after split => ?_, effective txns w [] rfl⟩
    exact effective before w' (after ++ [w]) (by simp [split])
  · rintro ⟨effective, last⟩ before w' after split
    rcases List.eq_nil_or_concat after with rfl | ⟨after', w'', rfl⟩
    · obtain ⟨rfl, same⟩ := List.append_inj' split rfl
      cases same
      exact last
    · have reshaped : txns ++ [w] = (before ++ w' :: after') ++ [w''] := by simp [split]
      exact effective before w' after' (List.append_inj_left' reshaped rfl)

/-- The revision counts the transactions. -/
theorem Effective.revision {txns : List (List (Write κ β))} (effective : Effective txns) :
    (replay txns).revision = txns.length := by
  induction txns using List.reverseRecOn with
  | nil => rfl
  | append_singleton txns w ih =>
    obtain ⟨before, last⟩ := effective_concat.mp effective
    rw [replay_concat, List.length_append, List.length_singleton]
    simp [KV.commit, last, ih before]

namespace Database

def empty : Database κ β where
  txns := []
  effective before w after split := by simp at split
  compacted := 0

def revision (db : Database κ β) : Nat := db.txns.length

/-- The store at a revision. -/
def atRevision (db : Database κ β) (rev : Nat) : KV κ β := replay (db.txns.take rev)

def current (db : Database κ β) : KV κ β := replay db.txns

/-- The store that a read at a revision looks at. -/
def read (db : Database κ β) (rev : Nat) : Except ReadError (KV κ β) :=
  if db.revision < rev then .error .futureRevision
  else if rev < db.compacted then .error .compacted
  else .ok (db.atRevision rev)

/-- Commits a transaction; one that changes nothing leaves no trace. -/
def commit (db : Database κ β) (writes : List (Write κ β)) : Database κ β :=
  if changes : writes.any (·.changes db.current.pairs) = true then
    { db with
      txns := db.txns ++ [writes]
      effective := effective_concat.mpr ⟨db.effective, changes⟩ }
  else db

/-- Compaction of a revision that is still to come fails. -/
def compact (db : Database κ β) (rev : Nat) : Database κ β :=
  if db.revision < rev then db else { db with compacted := max db.compacted rev }

@[simp] theorem txns_compact (db : Database κ β) (rev : Nat) : (db.compact rev).txns = db.txns := by
  rw [compact]
  split <;> rfl

/-- `db'` is a later state of `db`. -/
def Later (db db' : Database κ β) : Prop := db.txns <+: db'.txns

/-- What has been committed later is not seen at a revision. -/
theorem Later.atRevision {db db' : Database κ β} (later : db.Later db') {rev : Nat}
    (past : rev ≤ db.revision) : db'.atRevision rev = db.atRevision rev := by
  obtain ⟨more, same⟩ := later
  rw [Database.atRevision, Database.atRevision, ← same, List.take_append_of_le_length past]

theorem Later.revision_le {db db' : Database κ β} (later : db.Later db') :
    db.revision ≤ db'.revision := List.IsPrefix.length_le later

theorem at_revision (db : Database κ β) : db.atRevision db.revision = db.current := by
  rw [Database.atRevision, revision, List.take_length, current]

/-- A read at the revision of an earlier state sees that state, unless it comes too late. -/
theorem Later.read {db db' : Database κ β} (later : db.Later db') :
    db'.read db.revision =
      if db.revision < db'.compacted then .error .compacted else .ok db.current := by
  have bounded := later.revision_le
  rw [Database.read, if_neg (by omega), later.atRevision (Nat.le_refl _), at_revision]

theorem later_commit (db : Database κ β)
    (writes : List (Write κ β)) : db.Later (db.commit writes) := by
  unfold commit
  split
  · exact List.prefix_append ..
  · exact List.prefix_rfl

/-- The events after a revision, each with the revision of its transaction. -/
def eventsAfter (rev : Nat) : KV κ β → List (List (Write κ β)) → List (Nat × Event κ β)
  | _, [] => []
  | s, w :: rest =>
    (if rev < s.revision + 1 then
      (eventsOf (s.revision + 1) s.pairs w).map fun e => (s.revision + 1, e)
    else []) ++ eventsAfter rev (s.commit w) rest

/-- The events of a range after the revision `rev`. -/
def rangeAfter (db : Database κ β) (range : κ → Bool) (rev : Nat) : List (Nat × Event κ β) :=
  (eventsAfter rev .empty db.txns).filter fun e => range e.2.key

/-- What a watcher of a range is sent that asks for the revision after `rev` and what follows. -/
def watch (db : Database κ β) (range : κ → Bool) (rev : Nat) :
    Except ReadError (List (Nat × Event κ β)) :=
  if rev + 1 < db.compacted then .error .compacted else .ok (db.rangeAfter range rev)

theorem eventsAfter_append (rev : Nat) (txns : List (List (Write κ β))) (w : List (Write κ β)) :
    ∀ s : KV κ β, eventsAfter rev s (txns ++ [w]) = eventsAfter rev s txns ++
      eventsAfter rev (txns.foldl KV.commit s) [w] := by
  induction txns with
  | nil => intro s; rfl
  | cons w' rest ih =>
    intro s
    simp only [List.cons_append, eventsAfter, List.foldl_cons, List.append_assoc]
    rw [ih]
    rfl

theorem eventsAfter_concat (rev : Nat) {txns : List (List (Write κ β))} (effective : Effective txns)
    (w : List (Write κ β)) : eventsAfter rev .empty (txns ++ [w]) = eventsAfter rev .empty txns ++
      if rev < txns.length + 1 then
        (eventsOf (txns.length + 1) (replay txns).pairs w).map fun e => (txns.length + 1, e)
      else [] := by
  rw [eventsAfter_append, eventsAfter, eventsAfter, List.append_nil, ← replay, effective.revision]

/-- The events that a watcher is told are those of the transactions after the revision. -/
theorem mem_eventsAfter {rev : Nat} {txns : List (List (Write κ β))} (effective : Effective txns)
    {r : Nat} {e : Event κ β} : (r, e) ∈ eventsAfter rev .empty txns ↔
      rev < r ∧ ∃ k w, r = k + 1 ∧ txns[k]? = some w ∧ e ∈ eventsOf r (replay (txns.take k)).pairs w := by
  induction txns using List.reverseRecOn with
  | nil => simp [eventsAfter]
  | append_singleton txns w ih =>
    obtain ⟨before, _⟩ := effective_concat.mp effective
    rw [eventsAfter_concat rev before, List.mem_append, ih before]
    constructor
    · rintro (⟨after, k, w', rfl, at_k, told⟩ | last)
      · have inside := (List.getElem?_eq_some_iff.mp at_k).1
        refine ⟨after, k, w', rfl, ?_, ?_⟩
        · rw [List.getElem?_append_left inside, at_k]
        · rwa [List.take_append_of_le_length inside.le]
      · split at last
        next after =>
          obtain ⟨e', told, same⟩ := List.mem_map.mp last
          cases same
          exact ⟨after, txns.length, w, rfl, by simp, by simpa using told⟩
        next => cases last
    · rintro ⟨after, k, w', rfl, at_k, told⟩
      by_cases inside : k < txns.length
      · rw [List.getElem?_append_left inside] at at_k
        rw [List.take_append_of_le_length inside.le] at told
        exact .inl ⟨after, k, w', rfl, at_k, told⟩
      · have bound := (List.getElem?_eq_some_iff.mp at_k).1
        have last : k = txns.length := by
          rw [List.length_append, List.length_singleton] at bound
          omega
        subst last
        simp only [List.getElem?_concat_length, Option.some.injEq] at at_k
        subst at_k
        rw [List.take_left] at told
        rw [if_pos after]
        exact .inr (List.mem_map_of_mem told)

end Database

/-! ### Parts that a transaction leaves alone -/

/-- A transaction on the pairs `l` that neither puts nor deletes a key of a range. -/
structure Quiet (range : κ → Bool) (l : List (Pair κ β)) (writes : List (Write κ β)) : Prop where
  puts : ∀ key value, .put key value ∈ writes → range key = false
  deletes : ∀ deleted, .deleteRange deleted ∈ writes → ∀ p ∈ l, range p.key = true →
    deleted p.key = false

variable {range : κ → Bool} {l : List (Pair κ β)} {w : Write κ β} {rest : List (Write κ β)}

/-- A write leaves the pairs of a range that it does not touch. -/
theorem Quiet.mem_apply {rev : Nat} (quiet : Quiet range l (w :: rest)) (sorted : Sorted l)
    {p : Pair κ β} (inside : range p.key = true) : p ∈ w.apply rev l ↔ p ∈ l := by
  rw [w.mem_apply sorted]
  cases w with
  | put key value =>
    have outside := quiet.puts key value (List.mem_cons_self ..)
    have other : p.key ≠ key := by
      rintro rfl
      cases inside.symm.trans outside
    constructor
    · rintro (rfl | ⟨old, _⟩)
      · exact absurd rfl other
      · exact old
    · exact fun old => .inr ⟨old, other⟩
  | deleteRange deleted =>
    exact ⟨fun here => here.1, fun old =>
      ⟨old, quiet.deletes deleted (List.mem_cons_self ..) p old inside⟩⟩

theorem Quiet.tail {rev : Nat} (quiet : Quiet range l (w :: rest)) (sorted : Sorted l) :
    Quiet range (w.apply rev l) rest where
  puts key value member := quiet.puts key value (List.mem_cons_of_mem w member)
  deletes deleted member p here inside := quiet.deletes deleted (List.mem_cons_of_mem w member) p
    ((quiet.mem_apply sorted inside).mp here) inside

theorem Quiet.mem_applyAll {rev : Nat} {writes : List (Write κ β)} :
    ∀ {l : List (Pair κ β)}, Quiet range l writes → Sorted l → ∀ {p : Pair κ β},
      range p.key = true → (p ∈ applyAll rev l writes ↔ p ∈ l) := by
  induction writes with
  | nil => exact fun _ _ _ _ => Iff.rfl
  | cons w rest ih =>
    intro l quiet sorted p inside
    rw [applyAll, List.foldl_cons]
    exact (ih (quiet.tail sorted) (w.sorted_apply sorted) inside).trans
      (quiet.mem_apply sorted inside)

theorem Quiet.get_commit {s : KV κ β} {writes : List (Write κ β)}
    (quiet : Quiet range s.pairs writes)
    {key : κ} (inside : range key = true) : (s.commit writes).get key = s.get key := by
  ext p
  simp only [KV.get_eq_some]
  constructor
  · rintro ⟨member, rfl⟩
    exact ⟨(quiet.mem_applyAll s.sorted inside).mp member, rfl⟩
  · rintro ⟨member, rfl⟩
    exact ⟨(quiet.mem_applyAll s.sorted inside).mpr member, rfl⟩

/-- Watchers of the range are told nothing. -/
theorem Quiet.eventsOf {rev : Nat} {writes : List (Write κ β)} :
    ∀ {l : List (Pair κ β)}, Quiet range l writes → Sorted l →
      (eventsOf rev l writes).filter (fun e => range e.key) = [] := by
  induction writes with
  | nil => exact fun _ _ => rfl
  | cons w rest ih =>
    intro l quiet sorted
    rw [KeyValue.eventsOf, List.filter_append, ih (quiet.tail sorted) (w.sorted_apply sorted),
      List.append_nil]
    cases w with
    | put key value =>
      simp [Write.events, Event.key, quiet.puts key value (List.mem_cons_self ..)]
    | deleteRange deleted =>
      simp only [Write.events, List.filter_eq_nil_iff, List.mem_map, List.mem_filter]
      rintro _ ⟨p, ⟨member, gone⟩, rfl⟩ inside
      cases gone.symm.trans (quiet.deletes deleted (List.mem_cons_self ..) p member inside)

/-- The pairs after a transaction are old ones or have been put. -/
theorem mem_commit {s : KV κ β} {writes : List (Write κ β)} {p : Pair κ β}
    (member : p ∈ (s.commit writes).pairs) : p ∈ s.pairs ∨ ∃ value, .put p.key value ∈ writes := by
  suffices step : ∀ l : List (Pair κ β), Sorted l → p ∈ applyAll (s.revision + 1) l writes →
      p ∈ l ∨ ∃ value, .put p.key value ∈ writes from step s.pairs s.sorted member
  clear member
  induction writes with
  | nil => exact fun _ _ here => .inl here
  | cons w rest ih =>
    intro l sorted here
    rcases ih _ (w.sorted_apply sorted) here with old | ⟨value, put⟩
    · rw [w.mem_apply sorted] at old
      cases w with
      | put key value =>
        rcases old with rfl | ⟨old, _⟩
        · exact .inr ⟨value, List.mem_cons_self ..⟩
        · exact .inl old
      | deleteRange range => exact .inl old.1
    · exact .inr ⟨value, List.mem_cons_of_mem w put⟩

end KeyValue
