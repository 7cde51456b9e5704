import Neco.Storage.RebootList
import Neco.Rebooter.Answers

/-!
# The reboot list is a queue

Whatever requests the clients make and in whatever order, the keys of the reboot list are
those of a queue: entries are numbered in the order in which they are registered, keep their
numbers, and are read in that order. The list on which the controller works is this queue.
-/

namespace Neco.RebootList

open KeyValue
open Rebooter (RebootListEntry)

/-! ### Keys -/

theorem digitChar_lt_digitChar (m n : Nat) (less : m < n) (digit : n < 16) :
    Nat.digitChar m < Nat.digitChar n := by
  have table : ∀ n < 16, ∀ m < n, Nat.digitChar m < Nat.digitChar n := by decide
  exact table n digit m less

theorem formatHex_natCast {n : Nat} (int : IsInt n) :
    formatHex n = Numeral.fixed Nat.digitChar 16 16 n :=
  Numeral.leftpad_toDigits (by decide) (by have := int.2; omega)

theorem rebootListEntryKey_toList (index : Int) :
    (rebootListEntryKey index).toList = keyNecoRebooterRebootList.toList ++ formatHex index := by
  rw [rebootListEntryKey, String.toList_append, String.toList_ofList]

/-- The keys of entries are in the order of their indices. -/
theorem rebootListEntryKey_lt {i j : Int} (nonneg : 0 ≤ i) (less : i < j) (int : IsInt j) :
    rebootListEntryKey i < rebootListEntryKey j := by
  obtain ⟨m, rfl⟩ := Int.eq_ofNat_of_zero_le nonneg
  obtain ⟨n, rfl⟩ := Int.eq_ofNat_of_zero_le (nonneg.trans less.le)
  have smaller : IsInt m := ⟨by omega, less.trans int.2⟩
  rw [String.lt_iff_toList_lt, rebootListEntryKey_toList, rebootListEntryKey_toList,
    formatHex_natCast smaller, formatHex_natCast int]
  exact Numeral.append_lt_append_left _ (Numeral.fixed_lt_fixed digitChar_lt_digitChar
    (Int.ofNat_lt.mp less) (by have := int.2; omega))

/-- The key of an entry names its index among all of type `int64`. -/
theorem rebootListEntryKey_inj {i j : Int} (nonneg : 0 ≤ i) (int : IsInt i) (int' : IsInt j) :
    rebootListEntryKey i = rebootListEntryKey j ↔ i = j := by
  refine ⟨fun same => ?_, congrArg _⟩
  rcases lt_trichotomy i j with less | equal | greater
  · exact absurd same (rebootListEntryKey_lt nonneg less int').ne
  · exact equal
  · cases j with
    | ofNat m => exact absurd same (rebootListEntryKey_lt (Int.natCast_nonneg m) greater int).ne'
    | negSucc m =>
      -- A negative index has a sign where the others have a digit.
      obtain ⟨n, rfl⟩ := Int.eq_ofNat_of_zero_le nonneg
      have chars : formatHex n = formatHex (Int.negSucc m) := by
        have := congrArg String.toList same
        simpa only [rebootListEntryKey_toList, List.append_cancel_left_eq] using this
      rw [formatHex_natCast int] at chars
      have sign : '-' ∈ Numeral.fixed Nat.digitChar 16 16 n := chars ▸ List.mem_cons_self ..
      obtain ⟨d, digit, equal⟩ := Numeral.mem_fixed (by decide) sign
      have table : ∀ d < 16, '-' ≠ Nat.digitChar d := by decide
      exact absurd equal (table d digit)

theorem inRebootList_rebootListEntryKey (index : Int) :
    inRebootList (rebootListEntryKey index) = true := hasPrefix_append ..

theorem not_inRebootList_writeIndex : inRebootList keyNecoRebooterWriteIndex = false := by decide

theorem isOther_writeIndex : isOther keyNecoRebooterWriteIndex = false := by
  simp [isOther]

theorem ne_writeIndex {key : String} (list : inRebootList key = true) :
    key ≠ keyNecoRebooterWriteIndex := by
  rintro rfl
  cases not_inRebootList_writeIndex.symm.trans list

theorem rebootListEntryKey_ne (index : Int) :
    rebootListEntryKey index ≠ keyNecoRebooterWriteIndex :=
  ne_writeIndex (inRebootList_rebootListEntryKey index)

/-! ### The queue -/

namespace Fifo

/-- The indices 0, 1, 2, …, one for each registration. -/
def numbers (q : Fifo) : List Int := (List.range q.registered.length).map Int.ofNat

/-- The registrations are numbered in their order, and the list holds, in this order, those
that were not removed. -/
structure WellFormed (q : Fifo) : Prop where
  numbered : q.registered.map (·.2.index) = q.numbers
  surviving : q.entries.map (·.index) = q.numbers.filter (· ∉ q.removed)
  removedBelow : ∀ i ∈ q.removed, 0 ≤ i ∧ i < q.registered.length

theorem mem_numbers {q : Fifo} {i : Int} : i ∈ q.numbers ↔ 0 ≤ i ∧ i < q.registered.length := by
  simp only [numbers, List.mem_map, List.mem_range]
  constructor
  · rintro ⟨n, less, rfl⟩
    exact ⟨Int.natCast_nonneg n, Int.ofNat_lt.mpr less⟩
  · rintro ⟨nonneg, less⟩
    exact ⟨i.toNat, by omega, Int.toNat_of_nonneg nonneg⟩

theorem sorted_numbers (q : Fifo) : q.numbers.Pairwise (· < ·) :=
  List.pairwise_map.mpr (List.pairwise_lt_range.imp fun less => Int.ofNat_lt.mpr less)

theorem wellFormed_empty : WellFormed .empty :=
  ⟨rfl, rfl, List.forall_mem_nil _⟩

variable {q : Fifo}

theorem WellFormed.mem (wf : q.WellFormed) {e : RebootListEntry} (member : e ∈ q.entries) :
    0 ≤ e.index ∧ e.index < q.registered.length ∧ e.index ∉ q.removed := by
  have : e.index ∈ q.entries.map (·.index) := List.mem_map_of_mem member
  rw [wf.surviving, List.mem_filter, mem_numbers] at this
  exact ⟨this.1.1, this.1.2, by simpa using this.2⟩

theorem WellFormed.sorted (wf : q.WellFormed) :
    q.entries.Pairwise fun x y => x.index < y.index := by
  rw [← List.pairwise_map (f := fun x : RebootListEntry => x.index), wf.surviving]
  exact q.sorted_numbers.filter _

theorem map_index_updated (q : Fifo) (client : Nat) (e : RebootListEntry) :
    (q.apply client (.updated e)).entries.map (·.index) = q.entries.map (·.index) := by
  simp only [Fifo.apply, List.map_map]
  refine List.map_congr_left fun x _ => ?_
  simp only [Function.comp_apply]
  split
  next equal => exact equal.symm
  · rfl

theorem mem_updated (client : Nat) {e old x : RebootListEntry} (member : old ∈ q.entries)
    (index : old.index = e.index) :
    x ∈ (q.apply client (.updated e)).entries ↔ x = e ∨ x ∈ q.entries ∧ x.index ≠ e.index := by
  simp only [Fifo.apply, List.mem_map]
  constructor
  · rintro ⟨y, here, rfl⟩
    split
    · exact .inl rfl
    next other => exact .inr ⟨here, other⟩
  · rintro (rfl | ⟨here, other⟩)
    · exact ⟨old, member, if_pos index⟩
    · exact ⟨x, here, if_neg other⟩

theorem WellFormed.apply (wf : q.WellFormed) (client : Nat) (c : Commit)
    (next : ∀ e, c = .registered e → e.index = q.registered.length) :
    (q.apply client c).WellFormed := by
  cases c with
  | registered e =>
    have index := next e rfl
    have longer : (q.apply client (.registered e)).numbers = q.numbers ++ [e.index] := by
      simp [numbers, Fifo.apply, List.range_succ, index]
    have kept : e.index ∉ q.removed := by
      intro removed
      have := wf.removedBelow _ removed
      omega
    refine ⟨?_, ?_, fun i removed => ?_⟩
    · rw [longer, Fifo.apply, List.map_append, wf.numbered]
      rfl
    · rw [longer, List.filter_append, Fifo.apply, List.map_append, wf.surviving]
      simp [kept]
    · have := wf.removedBelow i removed
      simp only [Fifo.apply, List.length_append]
      omega
  | updated e =>
    exact ⟨wf.numbered, (map_index_updated q client e).trans wf.surviving, wf.removedBelow⟩
  | removed index =>
    have filtered : (q.entries.filter (·.index ≠ index)).map (·.index) =
        (q.entries.map (·.index)).filter (· ≠ index) := by
      simp only [List.filter_map]
      rfl
    by_cases present : q.entries.any (·.index = index) = true
    · refine ⟨wf.numbered, ?_, fun i removed => ?_⟩
      · simp only [Fifo.apply, if_pos present, filtered, wf.surviving, List.filter_filter]
        refine List.filter_congr fun i _ => ?_
        simp [not_or, and_comm]
      · simp only [Fifo.apply, if_pos present, List.mem_append, List.mem_singleton] at removed
        rcases removed with old | rfl
        · exact wf.removedBelow i old
        · obtain ⟨e, member, equal⟩ := List.any_eq_true.mp present
          have : e.index = i := by simpa using equal
          exact this ▸ ⟨(wf.mem member).1, (wf.mem member).2.1⟩
    · -- Nothing is removed.
      have none : q.entries.filter (·.index ≠ index) = q.entries := by
        simpa [List.filter_eq_self] using present
      simp only [Fifo.apply, if_neg present, none]
      exact wf

end Fifo

/-! ### The keys of a queue -/

/-- The keys hold a queue: the write index counts the registrations, and the keys of the list
are those of its entries. -/
structure Represents (kv : Keys) (q : Fifo) : Prop where
  counted : readWriteIndex kv =
    some ((q.registered.length : Int), kv.modRevision keyNecoRebooterWriteIndex)
  stored : ∀ key v, inRebootList key = true →
    ((kv.get key).map Pair.value = some v ↔
      ∃ e ∈ q.entries, key = rebootListEntryKey e.index ∧ v = .entry e)

/-- The number of registrations is of type `int64`. -/
def Fifo.Bounded (q : Fifo) : Prop := q.registered.length < 2 ^ 63

theorem Fifo.WellFormed.isInt {q : Fifo} (wf : q.WellFormed) (bounded : q.Bounded)
    {e : RebootListEntry} (member : e ∈ q.entries) : IsInt e.index := by
  obtain ⟨nonneg, below, _⟩ := wf.mem member
  unfold Fifo.Bounded at bounded
  constructor <;> omega

theorem Fifo.WellFormed.key_inj {q : Fifo} (wf : q.WellFormed) (bounded : q.Bounded)
    {e : RebootListEntry} (member : e ∈ q.entries) {i : Int} (int : IsInt i) :
    rebootListEntryKey i = rebootListEntryKey e.index ↔ e.index = i :=
  eq_comm.trans (rebootListEntryKey_inj (wf.mem member).1 (wf.isInt bounded member) int)

theorem represents_empty : Represents .empty .empty :=
  ⟨rfl, fun key v _ => by simp [Fifo.empty]⟩

theorem counted_congr {kv kv' : Keys} {n : Int}
    (same : kv'.get keyNecoRebooterWriteIndex = kv.get keyNecoRebooterWriteIndex)
    (counted : readWriteIndex kv = some (n, kv.modRevision keyNecoRebooterWriteIndex)) :
    readWriteIndex kv' = some (n, kv'.modRevision keyNecoRebooterWriteIndex) := by
  simpa only [readWriteIndex, KV.modRevision, same] using counted

/-- Only the keys of the list and the write index matter. -/
theorem Represents.congr {kv kv' : Keys} {q : Fifo} (rep : Represents kv q)
    (same : ∀ key, isOther key = false → kv'.get key = kv.get key) : Represents kv' q := by
  refine ⟨counted_congr (same _ isOther_writeIndex) rep.counted, fun key v list => ?_⟩
  rw [same key (by simp [isOther, list])]
  exact rep.stored key v list

theorem Represents.get_eq_none {kv : Keys} {q : Fifo} (rep : Represents kv q)
    (wf : q.WellFormed) (bounded : q.Bounded) {i : Int} (int : IsInt i) :
    kv.get (rebootListEntryKey i) = none ↔ ∀ e ∈ q.entries, e.index ≠ i := by
  have stored (v : Value) := rep.stored (rebootListEntryKey i) v (inRebootList_rebootListEntryKey i)
  constructor
  · intro missing e member equal
    have := (stored (.entry e)).mpr ⟨e, member, (wf.key_inj bounded member int).mpr equal, rfl⟩
    rw [missing] at this
    cases this
  · intro none
    cases found : kv.get (rebootListEntryKey i) with
    | none => rfl
    | some p =>
      obtain ⟨e, member, key, _⟩ := (stored p.value).mp (by rw [found]; rfl)
      exact absurd ((wf.key_inj bounded member int).mp key) (none e member)

theorem nextWriteIndex_eq {n : Nat} (bounded : n + 1 < 2 ^ 63) : nextWriteIndex n = n + 1 := by
  rw [nextWriteIndex, Int.bmod_eq_of_le (by omega) (by omega)]

/-- The two writes of a registration. -/
theorem get_register (kv : Keys) (index : Int) (v w : Value) (key : String) :
    (kv.commit [.put (rebootListEntryKey index) v, .put keyNecoRebooterWriteIndex w]).get key =
      if key = keyNecoRebooterWriteIndex then some ⟨key, w, kv.revision + 1⟩
      else if key = rebootListEntryKey index then some ⟨key, v, kv.revision + 1⟩
      else kv.get key := by
  rw [KV.get_commit]
  rfl

theorem Represents.register {kv : Keys} {q : Fifo} (rep : Represents kv q) (wf : q.WellFormed)
    (client : Nat) {e : RebootListEntry} (bounded : q.registered.length + 1 < 2 ^ 63)
    (index : e.index = q.registered.length) :
    Represents (kv.commit [.put (rebootListEntryKey e.index) (.entry e),
        .put keyNecoRebooterWriteIndex (.text (itoa (nextWriteIndex e.index)))])
      (q.apply client (.registered e)) := by
  have int : IsInt e.index := by constructor <;> omega
  refine ⟨?_, fun key v list => ?_⟩
  · have next : IsInt ((q.registered.length : Int) + 1) := by constructor <;> omega
    simp only [readWriteIndex, KV.modRevision, get_register, if_true, Value.parseInt, index,
      nextWriteIndex_eq bounded, atoi_itoa next]
    simp [Fifo.apply]
  · rw [get_register, if_neg (ne_writeIndex list)]
    simp only [Fifo.apply, List.mem_append, List.mem_singleton]
    by_cases own : key = rebootListEntryKey e.index
    · -- No entry has the key yet.
      have other (x : RebootListEntry) (member : x ∈ q.entries) :
          key ≠ rebootListEntryKey x.index := by
        intro same
        have := (wf.key_inj (by unfold Fifo.Bounded; omega) member int).mp (own.symm.trans same)
        have := (wf.mem member).2.1
        omega
      rw [if_pos own, Option.map_some, Option.some.injEq, eq_comm]
      constructor
      · exact fun equal => ⟨e, .inr rfl, own, equal⟩
      · rintro ⟨x, member | rfl, same, equal⟩
        · exact absurd same (other x member)
        · exact equal
    · rw [if_neg own, rep.stored key v list]
      constructor
      · rintro ⟨x, member, same, equal⟩
        exact ⟨x, .inl member, same, equal⟩
      · rintro ⟨x, member | rfl, same, equal⟩
        · exact ⟨x, member, same, equal⟩
        · exact absurd same own

theorem Represents.update {kv : Keys} {q : Fifo} (rep : Represents kv q) (wf : q.WellFormed)
    (bounded : q.Bounded) (client : Nat) {e old : RebootListEntry} (member : old ∈ q.entries)
    (index : old.index = e.index) :
    Represents (kv.put (rebootListEntryKey e.index) (.entry e)) (q.apply client (.updated e)) := by
  have int : IsInt e.index := index ▸ wf.isInt bounded member
  refine ⟨counted_congr ?_ rep.counted, fun key v list => ?_⟩
  · rw [KV.get_put, if_neg (rebootListEntryKey_ne _).symm]
  · simp only [KV.get_put, Fifo.mem_updated client member index]
    by_cases own : key = rebootListEntryKey e.index
    · rw [if_pos own, Option.map_some, Option.some.injEq, eq_comm]
      constructor
      · exact fun equal => ⟨e, .inl rfl, own, equal⟩
      · rintro ⟨x, rfl | ⟨here, other⟩, same, equal⟩
        · exact equal
        · exact absurd ((wf.key_inj bounded here int).mp (own.symm.trans same)) other
    · rw [if_neg own, rep.stored key v list]
      constructor
      · rintro ⟨x, here, same, equal⟩
        refine ⟨x, .inr ⟨here, fun index => ?_⟩, same, equal⟩
        exact own (index ▸ same)
      · rintro ⟨x, rfl | ⟨here, _⟩, same, equal⟩
        · exact absurd same own
        · exact ⟨x, here, same, equal⟩

theorem Represents.remove {kv : Keys} {q : Fifo} (rep : Represents kv q) (wf : q.WellFormed)
    (bounded : q.Bounded) (client : Nat) {i : Int} (int : IsInt i) :
    Represents (kv.delete (rebootListEntryKey i)) (q.apply client (.removed i)) := by
  refine ⟨counted_congr ?_ rep.counted, fun key v list => ?_⟩
  · rw [KV.get_delete, if_neg (rebootListEntryKey_ne _).symm]
  · simp only [KV.get_delete, Fifo.apply, List.mem_filter, decide_eq_true_eq]
    by_cases own : key = rebootListEntryKey i
    · rw [if_pos own]
      simp only [Option.map_none, reduceCtorEq, false_iff]
      rintro ⟨x, ⟨here, other⟩, same, _⟩
      exact other ((wf.key_inj bounded here int).mp (own.symm.trans same))
    · rw [if_neg own, rep.stored key v list]
      constructor
      · rintro ⟨x, here, same, equal⟩
        exact ⟨x, ⟨here, fun index => own (index ▸ same)⟩, same, equal⟩
      · rintro ⟨x, ⟨here, _⟩, same, equal⟩
        exact ⟨x, here, same, equal⟩

/-- `GetRebootListEntries` returns the queue. -/
theorem Represents.getRebootListEntries {kv : Keys} {q : Fifo} (rep : Represents kv q)
    (wf : q.WellFormed) (bounded : q.Bounded) :
    getRebootListEntries kv = some q.entries := by
  have decoded (p : Pair String Value) (member : p ∈ kv.getRange inRebootList) :
      ∃ e ∈ q.entries, p.key = rebootListEntryKey e.index ∧ p.value = .entry e := by
    obtain ⟨here, list⟩ := KV.mem_getRange.mp member
    refine (rep.stored p.key p.value list).mp ?_
    rw [KV.mem_pairs_iff.mp here]
    rfl
  rw [RebootList.getRebootListEntries, mapM_eq_filterMap]
  · refine congrArg some (Ordered.eq_of_mem_iff ?_ wf.sorted fun e => ?_)
    · -- The order of the keys is that of the indices.
      rw [List.pairwise_filterMap]
      refine (kv.sorted_getRange inRebootList).imp_of_mem fun hp hq less x hx y hy => ?_
      obtain ⟨e, member, key, value⟩ := decoded _ hp
      obtain ⟨e', member', key', value'⟩ := decoded _ hq
      rw [value] at hx
      rw [value'] at hy
      cases hx
      cases hy
      rw [key, key'] at less
      by_contra notLess
      rcases (not_lt.mp notLess).lt_or_eq with greater | equal
      · exact lt_asymm less (rebootListEntryKey_lt (wf.mem member').1 greater
          (wf.isInt bounded member))
      · exact less.ne (by rw [equal])
    · rw [List.mem_filterMap]
      constructor
      · rintro ⟨p, member, unmarshalled⟩
        obtain ⟨x, here, _, value⟩ := decoded p member
        rw [value] at unmarshalled
        cases unmarshalled
        exact here
      · intro member
        have list := inRebootList_rebootListEntryKey e.index
        have found := (rep.stored _ _ list).mpr ⟨e, member, rfl, rfl⟩
        obtain ⟨p, here, value⟩ := Option.map_eq_some_iff.mp found
        obtain ⟨pair, key⟩ := KV.get_eq_some.mp here
        exact ⟨p, KV.mem_getRange.mpr ⟨pair, key ▸ list⟩, by rw [value]; rfl⟩
  · intro p member
    obtain ⟨e, _, _, value⟩ := decoded p member
    exact ⟨e, by rw [value]; rfl⟩

/-! ### The requests of a client -/

/-- What a client may rely on. A registration that has read the write index holds the number
of registrations as long as the key has not changed, and an update has seen its key. -/
def Valid (kv : Keys) (q : Fifo) (client : Nat) : Client → Prop
  | .running (.registerRebootListEntry _) (.compareIndex index rev) =>
    rev ≤ kv.revision ∧
      (kv.modRevision keyNecoRebooterWriteIndex = rev → index = q.registered.length)
  | .running (.updateRebootListEntry e) progress =>
    IsInt e.index ∧ ∀ rev, progress = .compare rev → 0 < rev
  | .running (.removeRebootListEntry _ e) _ => IsInt e.index
  | .registered e => (client, e) ∈ q.registered
  | _ => True

/-- How the keys and the queue change from step to step. -/
structure Later (kv : Keys) (q : Fifo) (kv' : Keys) (q' : Fifo) : Prop where
  revision : kv.revision ≤ kv'.revision
  index : kv'.modRevision keyNecoRebooterWriteIndex = kv.modRevision keyNecoRebooterWriteIndex ∧
      q'.registered.length = q.registered.length ∨
    kv.revision < kv'.modRevision keyNecoRebooterWriteIndex
  registered : q.registered ⊆ q'.registered

theorem Later.refl (kv : Keys) (q : Fifo) : Later kv q kv q :=
  ⟨Nat.le_refl _, .inl ⟨rfl, rfl⟩, List.Subset.refl _⟩

theorem Valid.later {kv kv' : Keys} {q q' : Fifo} (later : Later kv q kv' q') {client : Nat}
    {c : Client} (valid : Valid kv q client c) : Valid kv' q' client c := by
  unfold Valid at valid ⊢
  split at valid
  next index rev =>
    refine ⟨valid.1.trans later.revision, fun unchanged => ?_⟩
    rcases later.index with ⟨same, number⟩ | new
    · rw [valid.2 (same.symm.trans unchanged), number]
    · have := valid.1
      omega
  · exact valid
  · exact valid
  · exact later.registered valid
  · trivial

/-- What a request leaves behind, for its client and for the others. -/
structure Requested (kv : Keys) (q : Fifo) (client : Nat) (o : Outcome) (q' : Fifo) : Prop where
  wellFormed : q'.WellFormed
  represents : Represents o.kv q'
  later : Later kv q o.kv q'
  next : Valid o.kv q' client o.next

theorem requested_of_idle {kv : Keys} {q : Fifo} (wf : q.WellFormed) (rep : Represents kv q)
    {client : Nat} {next : Client} (valid : Valid kv q client next) :
    Requested kv q client ⟨kv, next⟩ q := ⟨wf, rep, .refl kv q, valid⟩

theorem requested_register {kv : Keys} {q : Fifo} (wf : q.WellFormed) (rep : Represents kv q)
    {client : Nat} {e : RebootListEntry} (bounded : q.registered.length + 1 < 2 ^ 63)
    (index : e.index = q.registered.length) :
    Requested kv q client
      { kv := kv.commit
          [.put (rebootListEntryKey e.index) (.entry e),
            .put keyNecoRebooterWriteIndex (.text (itoa (nextWriteIndex e.index)))]
        next := .registered e } (q.apply client (.registered e)) where
  wellFormed := by
    refine wf.apply client (.registered e) fun x same => ?_
    cases same
    exact index
  represents := rep.register wf client bounded index
  later := by
    refine ⟨kv.revision_le_commit _, .inr ?_, List.subset_append_left ..⟩
    simp only [KV.modRevision, get_register, if_true, Option.elim_some]
    exact Nat.lt_succ_self _
  next := List.mem_append_right _ (List.mem_singleton.mpr rfl)

theorem requested_update {kv : Keys} {q : Fifo} (wf : q.WellFormed) (rep : Represents kv q)
    (bounded : q.Bounded) {client : Nat} {e old : RebootListEntry} (member : old ∈ q.entries)
    (index : old.index = e.index) :
    Requested kv q client
      ⟨kv.put (rebootListEntryKey e.index) (.entry e), .succeeded⟩
      (q.apply client (.updated e)) where
  wellFormed := wf.apply client (.updated e) nofun
  represents := rep.update wf bounded client member index
  later := by
    refine ⟨kv.revision_le_commit _, .inl ⟨?_, rfl⟩, List.Subset.refl _⟩
    exact KV.modRevision_put_of_ne _ (rebootListEntryKey_ne _).symm
  next := trivial

theorem requested_remove {kv : Keys} {q : Fifo} (wf : q.WellFormed) (rep : Represents kv q)
    (bounded : q.Bounded) {client : Nat} {i : Int} (int : IsInt i) :
    Requested kv q client
      ⟨kv.delete (rebootListEntryKey i), .succeeded⟩ (q.apply client (.removed i)) where
  wellFormed := wf.apply client (.removed i) nofun
  represents := rep.remove wf bounded client int
  later := by
    refine ⟨kv.revision_le_commit _, .inl ⟨?_, rfl⟩, List.Subset.refl _⟩
    exact KV.modRevision_delete_of_ne (rebootListEntryKey_ne _).symm
  next := trivial

theorem length_apply (q : Fifo) (client : Nat) (c : Commit) :
    q.registered.length ≤ (q.apply client c).registered.length := by
  cases c <;> simp [Fifo.apply]

theorem length_queue (o : Outcome) (op : Operation) (progress : Progress) (q : Fifo)
    (client : Nat) : q.registered.length ≤ (o.queue op progress q client).registered.length := by
  unfold Outcome.queue
  split
  · cases op.asked progress with
    | none => exact Nat.le_refl _
    | some c => exact length_apply q client c
  · exact Nat.le_refl _

theorem requested_of_request {kv : Keys} {q : Fifo} {client : Nat} {op : Operation}
    {progress : Progress} {o : Outcome} (wf : q.WellFormed) (rep : Represents kv q)
    (valid : Valid kv q client (.running op progress))
    (bounded : (o.queue op progress q client).Bounded)
    (requested : request kv op progress = some o) :
    Requested kv q client o (o.queue op progress q client) := by
  have before : q.Bounded := Nat.lt_of_le_of_lt (length_queue o op progress q client) bounded
  cases op with
  | registerRebootListEntry e =>
    cases progress with
    | start =>
      simp only [request, rep.counted, Option.some.injEq] at requested
      subst requested
      exact requested_of_idle wf rep ⟨kv.modRevision_le _, fun _ => rfl⟩
    | compareIndex index rev =>
      simp only [request] at requested
      split at requested <;> rw [Option.some.injEq] at requested
      next unchanged =>
        -- Nobody has registered since the index was read.
        subst requested
        refine requested_register (e := { e with index := index }) wf rep ?_ (valid.2 unchanged)
        simpa [Fifo.Bounded, Outcome.queue, Client.hasReturned, Operation.asked, Fifo.apply] using bounded
      · subst requested
        exact requested_of_idle wf rep trivial
    | compare rev => cases requested
  | updateRebootListEntry e =>
    cases progress with
    | start =>
      cases found : kv.get (rebootListEntryKey e.index) with
      | none =>
        simp only [request, found, Option.some.injEq] at requested
        subst requested
        exact requested_of_idle wf rep trivial
      | some p =>
        simp only [request, found, Option.some.injEq] at requested
        subst requested
        refine requested_of_idle wf rep ⟨valid.1, fun rev same => ?_⟩
        cases same
        exact KV.modRevision_of_get found ▸ KV.modRevision_pos found
    | compareIndex index rev => cases requested
    | compare rev =>
      simp only [request] at requested
      split at requested
      next unchanged =>
        -- A key that has a revision exists, so the entry was not removed.
        cases requested
        have positive := valid.2 rev rfl
        have present : kv.get (rebootListEntryKey e.index) ≠ none := by
          intro missing
          rw [KV.modRevision, missing] at unchanged
          exact positive.ne unchanged
        rw [ne_eq, rep.get_eq_none wf before valid.1] at present
        simp only [ne_eq, not_forall, not_not, exists_prop] at present
        obtain ⟨old, member, index⟩ := present
        exact requested_update wf rep before member index
      · cases requested
        refine requested_of_idle wf rep ⟨valid.1, fun rev same => ?_⟩
        cases same
  | removeRebootListEntry leaderKey e =>
    cases progress with
    | start =>
      simp only [request] at requested
      split at requested
      · cases requested
        exact requested_remove wf rep before valid
      · cases requested
        exact requested_of_idle wf rep trivial
    | compareIndex index rev => cases requested
    | compare rev => cases requested

/-! ### Runs -/

/-- The invariant of runs. -/
structure Sound (s : State) : Prop where
  wellFormed : s.fifo.WellFormed
  represents : Represents s.kv s.fifo
  clients : ∀ c, Valid s.kv s.fifo c (s.clients c)

theorem sound_start : Sound start :=
  ⟨Fifo.wellFormed_empty, represents_empty, fun _ => trivial⟩

/-- A client moves and the others still rely on what they did. -/
theorem Sound.move {s t : State} (sound : Sound s) {client : Nat} {next : Client}
    (clients : t.clients = Function.update s.clients client next) (wf : t.fifo.WellFormed)
    (rep : Represents t.kv t.fifo) (later : Later s.kv s.fifo t.kv t.fifo)
    (valid : Valid t.kv t.fifo client next) : Sound t where
  wellFormed := wf
  represents := rep
  clients := by
    intro c
    rw [clients]
    by_cases own : c = client
    · subst own
      rwa [Function.update_self]
    · rw [Function.update_of_ne own]
      exact (sound.clients c).later later

theorem ne_of_isOther {key key' : String} (other : isOther key = true)
    (own : isOther key' = false) : key' ≠ key := by
  rintro rfl
  cases own.symm.trans other

/-- The steps of the system: a client begins or gives up, a request reaches etcd and its
answer may be lost, or the keys of others change. -/
inductive Moved (s : State) : State → Prop
  | client (client : Nat) (next : Client) (valid : Valid s.kv s.fifo client next) :
    Moved s { s with clients := Function.update s.clients client next }
  | request {client : Nat} {op : Operation} {progress : Progress} {o : Outcome} (next : Client)
    (running : s.clients client = .running op progress)
    (answered : request s.kv op progress = some o)
    (reached : next = o.next ∨ next = .failed .etcd) : Moved s (s.finish client op progress o next)
  | other (kv : Keys) (revision : s.kv.revision ≤ kv.revision)
    (same : ∀ key, isOther key = false → kv.get key = s.kv.get key) : Moved s { s with kv := kv }

theorem moved_of_step {s t : State} (a : Action) (stepped : step s a = some t) : Moved s t := by
  cases a with
  | call client op =>
    simp only [step] at stepped
    split at stepped
    · cases stepped
    · split at stepped
      next int =>
        -- the entries that are passed have indices of Go's `int`
        cases stepped
        refine .client client _ ?_
        cases op with
        | registerRebootListEntry e => trivial
        | updateRebootListEntry e => exact ⟨int, nofun⟩
        | removeRebootListEntry leaderKey e => exact int
      · cases stepped
  | request client =>
    simp only [step] at stepped
    split at stepped
    next op progress running =>
      obtain ⟨o, answered, rfl⟩ := Option.map_eq_some_iff.mp stepped
      exact .request o.next running answered (.inl rfl)
    · cases stepped
  | loseAnswer client =>
    simp only [step] at stepped
    split at stepped
    next op progress running =>
      obtain ⟨o, answered, rfl⟩ := Option.map_eq_some_iff.mp stepped
      -- the request was carried out; only its answer is lost
      exact .request (.failed .etcd) running answered (.inr rfl)
    · cases stepped
  | loseRequest client =>
    simp only [step] at stepped
    split at stepped
    · cases stepped
      exact .client client _ trivial
    · cases stepped
  | putOther key value =>
    simp only [step] at stepped
    split at stepped
    next other =>
      cases stepped
      refine .other _ (s.kv.revision_le_commit _) fun key' own => ?_
      rw [KV.get_put, if_neg (ne_of_isOther other own)]
    · cases stepped
  | deleteOther key =>
    simp only [step] at stepped
    split at stepped
    next other =>
      cases stepped
      refine .other _ (s.kv.revision_le_commit _) fun key' own => ?_
      rw [KV.get_delete, if_neg (ne_of_isOther other own)]
    · cases stepped

/-- Registrations are never undone. -/
theorem Moved.registered_le {s t : State} (moved : Moved s t) :
    s.fifo.registered.length ≤ t.fifo.registered.length := by
  cases moved with
  | client => exact Nat.le_refl _
  | request => exact length_queue ..
  | other => exact Nat.le_refl _

theorem Moved.sound {s t : State} (moved : Moved s t) (sound : Sound s)
    (bounded : t.fifo.Bounded) : Sound t := by
  cases moved with
  | client client next valid =>
    exact sound.move rfl sound.wellFormed sound.represents (.refl _ _) valid
  | request next running answered reached =>
    obtain ⟨wf, rep, later, valid⟩ := requested_of_request sound.wellFormed sound.represents
      (running ▸ sound.clients _) bounded answered
    refine sound.move rfl wf rep later ?_
    rcases reached with rfl | rfl
    · exact valid
    · trivial
  | other kv revision same =>
    refine ⟨sound.wellFormed, sound.represents.congr same, fun c => (sound.clients c).later ?_⟩
    refine ⟨revision, .inl ⟨?_, rfl⟩, List.Subset.refl _⟩
    simp only [KV.modRevision, same _ isOther_writeIndex]

theorem sound_run {s : State} (run : Transition.RunFrom step Transition.always start s)
    (bounded : s.fifo.Bounded) : Sound s := by
  refine run.invariant (fun s => s.fifo.Bounded → Sound s) (fun _ => sound_start) ?_ bounded
  intro s a t sound _ stepped bounded
  have moved := moved_of_step a stepped
  exact moved.sound (sound (Nat.lt_of_le_of_lt moved.registered_le bounded)) bounded

/-- The reboot list is a queue that loses nothing. -/
structure LossFree (s : State) : Prop where
  /-- The registrations have the indices 0, 1, 2, … in the order of their commits. -/
  numbered : s.fifo.registered.map (·.2.index) =
    (List.range s.fifo.registered.length).map Int.ofNat
  /-- A client that has registered an entry has the index of one of them. -/
  acknowledged : ∀ c e, s.clients c = .registered e → (c, e) ∈ s.fifo.registered
  /-- Where a registration can be committed there is no entry. -/
  fresh : ∀ c e index rev,
    s.clients c = .running (.registerRebootListEntry e) (.compareIndex index rev) →
    s.kv.modRevision keyNecoRebooterWriteIndex = rev →
    s.kv.get (rebootListEntryKey index) = none
  /-- An entry has the index of its key. -/
  keyed : ∀ p ∈ s.kv.pairs, inRebootList p.key = true →
    ∃ e, p.value = .entry e ∧ p.key = rebootListEntryKey e.index
  /-- A removed entry stays away: an update of it that has not begun returns an error, and one
  that has seen the entry begins again. -/
  gone : ∀ e : RebootListEntry, e.index ∈ s.fifo.removed →
    s.kv.get (rebootListEntryKey e.index) = none ∧
    request s.kv (.updateRebootListEntry e) .start = some ⟨s.kv, .failed .notFound⟩ ∧
    ∀ c rev, s.clients c = .running (.updateRebootListEntry e) (.compare rev) →
      request s.kv (.updateRebootListEntry e) (.compare rev) =
        some ⟨s.kv, .running (.updateRebootListEntry e) .start⟩
  /-- The entries that were not removed are in the order of their registrations. -/
  surviving : s.fifo.entries.map (·.index) =
    (s.fifo.registered.map (·.2.index)).filter (· ∉ s.fifo.removed)
  listed : getRebootListEntries s.kv = some s.fifo.entries

/-- From an empty store, and with fewer than 2^63 registrations, the reboot list is a queue. -/
theorem reboot_list_loss_free {s : State}
    (run : Transition.RunFrom step Transition.always start s)
    (bounded : s.fifo.registered.length < 2 ^ 63) : LossFree s := by
  obtain ⟨wf, rep, clients⟩ := sound_run run bounded
  have absent {i : Int} (int : IsInt i) (other : ∀ e ∈ s.fifo.entries, e.index ≠ i) :
      s.kv.get (rebootListEntryKey i) = none := (rep.get_eq_none wf bounded int).mpr other
  have removed {e : RebootListEntry} (member : e.index ∈ s.fifo.removed) :
      s.kv.get (rebootListEntryKey e.index) = none := by
    have below := wf.removedBelow _ member
    refine absent ⟨by omega, by omega⟩ fun x present same => ?_
    exact (wf.mem present).2.2 (same ▸ member)
  refine
    { numbered := wf.numbered
      acknowledged := ?_
      fresh := ?_
      keyed := ?_
      gone := fun e member => ⟨removed member, ?_, ?_⟩
      surviving := wf.numbered ▸ wf.surviving
      listed := rep.getRebootListEntries wf bounded }
  · intro c e returned
    have valid := clients c
    rwa [returned] at valid
  · intro c e index rev running unchanged
    have valid := clients c
    rw [running] at valid
    have number := valid.2 unchanged
    refine absent ⟨by omega, by omega⟩ fun x member => ?_
    have := (wf.mem member).2.1
    omega
  · intro p member list
    have found := (rep.stored p.key p.value list).mp (by rw [KV.mem_pairs_iff.mp member]; rfl)
    obtain ⟨e, _, key, value⟩ := found
    exact ⟨e, value, key⟩
  · simp only [request, removed member]
  · intro c rev running
    have valid := clients c
    rw [running] at valid
    have positive := valid.2 rev rfl
    have changed : s.kv.modRevision (rebootListEntryKey e.index) ≠ rev := by
      rw [KV.modRevision, removed member]
      exact positive.ne
    simp only [request, if_neg changed]

/-- Two clients register at once, and an entry is removed while it is being updated. -/
def racing : List Action :=
  let entry (index : Int) (node : String) : RebootListEntry := ⟨index, node, "rack0", "", .pending⟩
  [.call 0 (.registerRebootListEntry (entry 0 "a")),
    .call 1 (.registerRebootListEntry (entry 0 "b")),
    .request 0, .request 1, .request 1, .request 0, .request 0, .request 0,
    .putOther "leader/neco-rebooter/1" (.text ""),
    .call 2 (.updateRebootListEntry (entry 0 "b")), .request 2,
    .call 3 (.removeRebootListEntry "leader/neco-rebooter/1" (entry 0 "b")), .request 3,
    .request 2, .request 2]

theorem reboot_list_loss_free_racing :
    let s := Transition.after step Transition.always start racing
    s.fifo.registered.map (fun r => (r.1, r.2.index)) = [(1, 0), (0, 1)] ∧
      s.clients 2 = .failed .notFound ∧ LossFree s :=
  ⟨by decide +kernel, by decide +kernel,
    reboot_list_loss_free (Transition.runFrom_after step _ start racing) (by decide +kernel)⟩

/-! ### The list of the controller -/

/-- What a call of the controller or of a command commits to the reboot list. -/
def committed (s : Rebooter.Store) : (c : Rebooter.Call) → Rebooter.Reply c → Option Commit
  | .registerRebootListEntry e, _ => some (.registered { e with index := s.nextIndex })
  | .updateRebootListEntry e, .ok _ => some (.updated e)
  | .removeRebootListEntry _ e, .ok _ => some (.removed e.index)
  | _, _ => none

/-- The calls of the controller and of the commands change the list as a queue. -/
theorem list_of_answered {writer : Rebooter.Writer} {s t : Rebooter.Store} {c : Rebooter.Call}
    {r : Rebooter.Reply c} (answered : Rebooter.Answered writer s c r t) (wf : s.WellFormed)
    {q : Fifo} (same : q.entries = s.list) (client : Nat) :
    ((committed s c r).elim q (q.apply client)).entries = t.list := by
  cases answered with
  | added e =>
    have entries : (q.apply client (.registered { e with index := s.nextIndex })).entries =
        s.list ++ [{ e with index := s.nextIndex }] := by rw [← same]; rfl
    refine entries.trans (Ordered.eq_of_mem_iff ?_ (wf.appendEntry e).sorted_list fun x => ?_)
    · refine List.pairwise_append.mpr ⟨wf.sorted_list, List.pairwise_singleton .., ?_⟩
      intro x member y last
      rw [List.mem_singleton.mp last]
      exact wf.below x member
    · rw [Rebooter.Store.mem_list_appendEntry wf, List.mem_append, List.mem_singleton, or_comm]
  | @updated e x stored key =>
    refine Ordered.eq_of_mem_iff ?_ (wf.putEntry stored key).sorted_list fun y => ?_
    · -- The indices stay what they are.
      have indices := q.map_index_updated client e
      rw [same] at indices
      refine (List.pairwise_map (f := fun x : RebootListEntry => x.index)).mp ?_
      exact indices ▸ List.pairwise_map.mpr wf.sorted_list
    · rw [Rebooter.Store.mem_list_putEntry wf, ← same]
      exact Fifo.mem_updated client (same ▸ stored) key
  | removed e =>
    have entries : (q.apply client (.removed e.index)).entries =
        s.list.filter (·.index ≠ e.index) := by rw [← same]; rfl
    refine entries.trans (Ordered.eq_of_mem_iff (wf.sorted_list.filter _)
      (wf.removeEntry e.index).sorted_list fun x => ?_)
    rw [Rebooter.Store.mem_list_removeEntry, List.mem_filter, decide_eq_true_eq]
  | _ => exact same

end Neco.RebootList
