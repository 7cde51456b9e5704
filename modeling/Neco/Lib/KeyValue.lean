import Neco.Lib.Ordered

/-!
# A versioned key-value store with ordered keys

The keys are kept in ascending order, and every key carries the revision of its last change.
A transaction is a list of writes that are committed at one revision; a range is the part of
the store whose keys satisfy a predicate, such as having a given prefix.
-/

namespace KeyValue

variable {κ β : Type}

/-- A key with its value and the revision of its last change. -/
structure Pair (κ β : Type) where
  key : κ
  value : β
  modRevision : Nat
  deriving DecidableEq, Repr

/-- A write of a transaction. -/
inductive Write (κ β : Type)
  | put (key : κ) (value : β)
  | deleteRange (range : κ → Bool)

/-- Decoding a list succeeds when each of its elements can be decoded. -/
theorem mapM_eq_filterMap {α γ : Type} {f : α → Option γ} {l : List α}
    (decodes : ∀ x ∈ l, ∃ y, f x = some y) : l.mapM f = some (l.filterMap f) := by
  induction l with
  | nil => rfl
  | cons x rest ih =>
    obtain ⟨y, first⟩ := decodes x (List.mem_cons_self ..)
    simp [List.mapM_cons, first, ih fun z later => decodes z (List.mem_cons_of_mem x later)]

section Order

variable [LinearOrder κ]

/-- A list of pairs in the strict order of their keys. -/
abbrev Sorted (l : List (Pair κ β)) : Prop := l.Pairwise fun p q => p.key < q.key

/-- Puts a pair at the place of its key. -/
def insert (p : Pair κ β) : List (Pair κ β) → List (Pair κ β)
  | [] => [p]
  | q :: rest =>
    if p.key < q.key then p :: q :: rest
    else if p.key = q.key then p :: rest
    else q :: insert p rest

theorem insert_eq_place (p : Pair κ β) (l : List (Pair κ β)) :
    insert p l = Ordered.place Pair.key p l := by
  induction l with
  | nil => rfl
  | cons q rest ih => simp only [insert, Ordered.place, ih]

theorem mem_insert {p x : Pair κ β} {l : List (Pair κ β)} (sorted : Sorted l) :
    x ∈ insert p l ↔ x = p ∨ x ∈ l ∧ x.key ≠ p.key := by
  rw [insert_eq_place]
  exact Ordered.mem_place sorted

theorem sorted_insert {p : Pair κ β} {l : List (Pair κ β)} (sorted : Sorted l) :
    Sorted (insert p l) := by
  rw [insert_eq_place]
  exact Ordered.sorted_place sorted

theorem find?_eq_some_iff {l : List (Pair κ β)} (sorted : Sorted l) {key : κ} {p : Pair κ β} :
    l.find? (·.key = key) = some p ↔ p ∈ l ∧ p.key = key := by
  constructor
  · intro found
    exact ⟨List.mem_of_find?_eq_some found, by simpa using List.find?_some found⟩
  · rintro ⟨member, rfl⟩
    cases found : l.find? (·.key = p.key) with
    | none => simpa using List.find?_eq_none.mp found p member
    | some q =>
      have same : q.key = p.key := by simpa using List.find?_some found
      rw [Ordered.eq_of_key sorted (List.mem_of_find?_eq_some found) member same]

/-! ### Stores -/

/-- A store: a missing key has revision 0, so no change has it. -/
structure KV (κ β : Type) [LinearOrder κ] where
  revision : Nat
  pairs : List (Pair κ β)
  sorted : Sorted pairs
  versioned : ∀ p ∈ pairs, 0 < p.modRevision ∧ p.modRevision ≤ revision

namespace KV

def empty : KV κ β := ⟨0, [], .nil, List.forall_mem_nil _⟩

/-- Looks up a key. -/
def get (s : KV κ β) (key : κ) : Option (Pair κ β) := s.pairs.find? (·.key = key)

/-- The pairs of a range, in the order of their keys. -/
def getRange (s : KV κ β) (range : κ → Bool) : List (Pair κ β) :=
  s.pairs.filter fun p => range p.key

/-- The revision of the last change of a key; 0 when the key does not exist. -/
def modRevision (s : KV κ β) (key : κ) : Nat := (s.get key).elim 0 (·.modRevision)

end KV

/-- One write at the revision `rev`. -/
def Write.apply (rev : Nat) (l : List (Pair κ β)) : Write κ β → List (Pair κ β)
  | .put key value => insert ⟨key, value, rev⟩ l
  | .deleteRange range => l.filter fun p => !range p.key

/-- Whether a write changes anything. -/
def Write.changes (l : List (Pair κ β)) : Write κ β → Bool
  | .put _ _ => true
  | .deleteRange range => l.any fun p => range p.key

theorem Write.sorted_apply {rev : Nat} {l : List (Pair κ β)} (w : Write κ β) (sorted : Sorted l) :
    Sorted (w.apply rev l) := by
  cases w with
  | put key value => exact sorted_insert sorted
  | deleteRange range => exact sorted.filter _

/-- What a write leaves: what it puts, and the pairs it neither replaces nor deletes. -/
theorem Write.mem_apply {rev : Nat} {l : List (Pair κ β)} (w : Write κ β) (sorted : Sorted l)
    {p : Pair κ β} : p ∈ w.apply rev l ↔
      match w with
      | .put key value => p = ⟨key, value, rev⟩ ∨ p ∈ l ∧ p.key ≠ key
      | .deleteRange range => p ∈ l ∧ range p.key = false := by
  cases w with
  | put key value => exact mem_insert sorted
  | deleteRange range => simp [Write.apply]

/-- The writes of a transaction, one after another. -/
def applyAll (rev : Nat) (l : List (Pair κ β)) (writes : List (Write κ β)) : List (Pair κ β) :=
  writes.foldl (Write.apply rev) l

theorem sorted_applyAll {rev : Nat} (writes : List (Write κ β)) :
    ∀ {l : List (Pair κ β)}, Sorted l → Sorted (applyAll rev l writes) := by
  induction writes with
  | nil => exact fun sorted => sorted
  | cons w rest ih => exact fun sorted => ih (w.sorted_apply sorted)

theorem versioned_applyAll {rev : Nat} (writes : List (Write κ β)) :
    ∀ {l : List (Pair κ β)}, Sorted l → ∀ p ∈ applyAll rev l writes, p ∈ l ∨ p.modRevision = rev := by
  induction writes with
  | nil => exact fun _ p member => .inl member
  | cons w rest ih =>
    intro l sorted p member
    rcases ih (w.sorted_apply sorted) p member with here | new
    · rw [w.mem_apply sorted] at here
      cases w with
      | put key value =>
        rcases here with rfl | ⟨old, _⟩
        · exact .inr rfl
        · exact .inl old
      | deleteRange range => exact .inl here.1
    · exact .inr new

/-- A transaction that changes nothing leaves the revision. -/
theorem applyAll_unchanged {rev : Nat} {l : List (Pair κ β)} {writes : List (Write κ β)}
    (unchanged : writes.any (·.changes l) = false) : applyAll rev l writes = l := by
  induction writes with
  | nil => rfl
  | cons w rest ih =>
    simp only [List.any_cons, Bool.or_eq_false_iff] at unchanged
    obtain ⟨first, later⟩ := unchanged
    cases w with
    | put key value => cases first
    | deleteRange range =>
      have same : l.filter (fun p => !range p.key) = l := by
        simpa [Write.changes, List.filter_eq_self] using first
      rw [applyAll, List.foldl_cons, Write.apply, same]
      exact ih later

namespace KV

/-- Commits a transaction at the next revision. -/
def commit (s : KV κ β) (writes : List (Write κ β)) : KV κ β where
  revision := if writes.any (·.changes s.pairs) then s.revision + 1 else s.revision
  pairs := applyAll (s.revision + 1) s.pairs writes
  sorted := sorted_applyAll writes s.sorted
  versioned := by
    intro p member
    split
    · rcases versioned_applyAll writes s.sorted p member with old | new
      · have := s.versioned p old
        omega
      · omega
    next unchanged =>
      rw [applyAll_unchanged (by simpa using unchanged)] at member
      exact s.versioned p member

theorem revision_le_commit (s : KV κ β) (writes : List (Write κ β)) :
    s.revision ≤ (s.commit writes).revision := by
  simp only [commit]
  split <;> omega

def put (s : KV κ β) (key : κ) (value : β) : KV κ β := s.commit [.put key value]

def delete (s : KV κ β) (key : κ) : KV κ β := s.commit [.deleteRange fun k => k = key]

theorem ext {s t : KV κ β} (revision : s.revision = t.revision) (pairs : s.pairs = t.pairs) :
    s = t := by
  obtain ⟨_, _, _, _⟩ := s
  obtain ⟨_, _, _, _⟩ := t
  dsimp only at revision pairs
  subst revision pairs
  rfl

theorem commit_unchanged {s : KV κ β} {writes : List (Write κ β)}
    (unchanged : writes.any (·.changes s.pairs) = false) : s.commit writes = s :=
  ext (if_neg (Bool.eq_false_iff.mp unchanged)) (applyAll_unchanged unchanged)

/-! ### Looking up -/

theorem get_eq_some {s : KV κ β} {key : κ} {p : Pair κ β} :
    s.get key = some p ↔ p ∈ s.pairs ∧ p.key = key := find?_eq_some_iff s.sorted

theorem mem_pairs_iff {s : KV κ β} {p : Pair κ β} : p ∈ s.pairs ↔ s.get p.key = some p := by
  rw [get_eq_some, and_iff_left rfl]

theorem get_eq_none {s : KV κ β} {key : κ} : s.get key = none ↔ ∀ p ∈ s.pairs, p.key ≠ key := by
  simp [get]

theorem mem_put {s : KV κ β} {key : κ} {value : β} {p : Pair κ β} :
    p ∈ (s.put key value).pairs ↔ p = ⟨key, value, s.revision + 1⟩ ∨ p ∈ s.pairs ∧ p.key ≠ key :=
  mem_insert s.sorted

theorem mem_getRange {s : KV κ β} {range : κ → Bool} {p : Pair κ β} :
    p ∈ s.getRange range ↔ p ∈ s.pairs ∧ range p.key = true := by
  simp [getRange]

theorem sorted_getRange (s : KV κ β) (range : κ → Bool) : Sorted (s.getRange range) :=
  s.sorted.filter _

theorem modRevision_of_get {s : KV κ β} {key : κ} {p : Pair κ β} (found : s.get key = some p) :
    s.modRevision key = p.modRevision := by
  rw [modRevision, found]
  rfl

theorem modRevision_pos {s : KV κ β} {key : κ} {p : Pair κ β} (found : s.get key = some p) :
    0 < s.modRevision key := by
  rw [modRevision_of_get found]
  exact (s.versioned p (get_eq_some.mp found).1).1

theorem modRevision_le (s : KV κ β) (key : κ) : s.modRevision key ≤ s.revision := by
  cases found : s.get key with
  | none => simp [modRevision, found]
  | some p =>
    rw [modRevision_of_get found]
    exact (s.versioned p (get_eq_some.mp found).1).2

end KV

/-- How a write acts on one key. -/
def Write.at (rev : Nat) (key : κ) (old : Option (Pair κ β)) : Write κ β → Option (Pair κ β)
  | .put key' value => if key = key' then some ⟨key, value, rev⟩ else old
  | .deleteRange range => if range key then none else old

theorem Write.find?_apply {rev : Nat} {l : List (Pair κ β)} (w : Write κ β) (sorted : Sorted l)
    (key : κ) : (w.apply rev l).find? (·.key = key) = w.at rev key (l.find? (·.key = key)) := by
  ext p
  rw [find?_eq_some_iff (w.sorted_apply sorted), w.mem_apply sorted]
  cases w with
  | put key' value =>
    simp only [Write.at]
    split
    next same =>
      subst same
      constructor
      · rintro ⟨rfl | ⟨_, other⟩, here⟩
        · rfl
        · exact absurd here other
      · intro found
        cases found
        exact ⟨.inl rfl, rfl⟩
    next other =>
      rw [find?_eq_some_iff sorted]
      constructor
      · rintro ⟨rfl | ⟨old, _⟩, here⟩
        · exact absurd here.symm other
        · exact ⟨old, here⟩
      · rintro ⟨old, rfl⟩
        exact ⟨.inr ⟨old, other⟩, rfl⟩
  | deleteRange range =>
    simp only [Write.at]
    split
    next deleted =>
      simp only [reduceCtorEq, iff_false]
      rintro ⟨⟨_, kept⟩, rfl⟩
      cases deleted.symm.trans kept
    next kept =>
      rw [find?_eq_some_iff sorted]
      constructor
      · rintro ⟨⟨old, _⟩, here⟩
        exact ⟨old, here⟩
      · rintro ⟨old, rfl⟩
        exact ⟨⟨old, by simpa using kept⟩, rfl⟩

namespace KV

theorem get_commit (s : KV κ β) (writes : List (Write κ β)) (key : κ) :
    (s.commit writes).get key =
      writes.foldl (fun old w => w.at (s.revision + 1) key old) (s.get key) := by
  suffices step : ∀ (l : List (Pair κ β)), Sorted l →
      (applyAll (s.revision + 1) l writes).find? (·.key = key) =
        writes.foldl (fun old w => w.at (s.revision + 1) key old) (l.find? (·.key = key)) from
    step s.pairs s.sorted
  induction writes with
  | nil => exact fun _ _ => rfl
  | cons w rest ih =>
    intro l sorted
    rw [List.foldl_cons, ← w.find?_apply sorted]
    exact ih _ (w.sorted_apply sorted)

@[simp] theorem get_put (s : KV κ β) (key : κ) (value : β) (key' : κ) :
    (s.put key value).get key' =
      if key' = key then some ⟨key', value, s.revision + 1⟩ else s.get key' :=
  s.get_commit [.put key value] key'

@[simp] theorem get_delete (s : KV κ β) (key key' : κ) :
    (s.delete key).get key' = if key' = key then none else s.get key' := by
  simp [delete, get_commit, Write.at]

theorem modRevision_put_of_ne {s : KV κ β} {key key' : κ} (value : β) (other : key' ≠ key) :
    (s.put key value).modRevision key' = s.modRevision key' := by
  simp [modRevision, other]

theorem modRevision_delete_of_ne {s : KV κ β} {key key' : κ} (other : key' ≠ key) :
    (s.delete key).modRevision key' = s.modRevision key' := by
  simp [modRevision, other]

@[simp] theorem get_empty (key : κ) : (empty : KV κ β).get key = none := rfl

end KV
end Order
end KeyValue
