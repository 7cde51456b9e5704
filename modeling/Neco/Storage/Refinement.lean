import Neco.Storage.Storage

/-!
# Transactions and changes

The other modules take etcd as a list of `Change`s. Here each transaction of `storage` is one such
change: after transactions that stand for a history, etcd holds what the history says, and the
functions that decode several keys return it.
-/

namespace Neco.Storage

open KeyValue

/-! ### Keys -/

/-- Strings that differ at a position of both beginnings. -/
theorem append_ne {p q : String} (s t : String) (i : Nat) (inP : i < p.toList.length)
    (inQ : i < q.toList.length) (differ : p.toList[i] ≠ q.toList[i]) : p ++ s ≠ q ++ t := by
  intro same
  have chars := congrArg (·.toList[i]?) same
  simp only [String.toList_append, List.getElem?_append_left inP, List.getElem?_append_left inQ,
    List.getElem?_eq_getElem, Option.some.injEq, inP, inQ] at chars
  exact differ chars

theorem withPrefix_apart {p q : String} (s t : String) (i : Nat) (inP : i < p.toList.length)
    (inQ : i < q.toList.length) (differ : p.toList[i] ≠ q.toList[i]) :
    withPrefix (p ++ s) (q ++ t) = false := by
  rw [withPrefix, ← Bool.not_eq_true, hasPrefix_iff]
  rintro ⟨rest, same⟩
  refine append_ne (p := p) (q := q) (s ++ String.ofList rest) t i inP inQ differ ?_
  rw [← String.append_assoc]
  apply String.toList_inj.mp
  rw [String.toList_append, String.toList_ofList, same]

theorem keyStatus_injective : Function.Injective keyStatus :=
  (append_left_injective keyWorkerStatusPrefix).comp itoa_injective

@[simp] theorem keyStatus_inj {i j : Int} : keyStatus i = keyStatus j ↔ i = j :=
  keyStatus_injective.eq_iff

@[simp] theorem keyBootServer_inj {i j : Int} : keyBootServer i = keyBootServer j ↔ i = j :=
  keyBootServer_injective.eq_iff

section Ranges

variable (lrn lrn' : Int)

@[simp] theorem keyCurrent_ne_keyStatus : keyCurrent ≠ keyStatus lrn :=
  append_ne (p := "status/current") "" _ 7 (by decide) (by decide) (by decide)

@[simp] theorem keyCurrent_ne_keyNecoRelease : keyCurrent ≠ keyNecoRelease := by decide

@[simp] theorem keyCurrent_ne_keyBootServer : keyCurrent ≠ keyBootServer lrn :=
  append_ne (p := "status/current") "" _ 0 (by decide) (by decide) (by decide)

@[simp] theorem keyStatus_ne_keyNecoRelease : keyStatus lrn ≠ keyNecoRelease :=
  append_ne (q := "info/neco-release") _ "" 0 (by decide) (by decide) (by decide)

@[simp] theorem keyStatus_ne_keyBootServer : keyStatus lrn ≠ keyBootServer lrn' :=
  append_ne _ _ 0 (by decide) (by decide) (by decide)

@[simp] theorem keyNecoRelease_ne_keyBootServer : keyNecoRelease ≠ keyBootServer lrn :=
  append_ne (p := "info/neco-release") "" _ 5 (by decide) (by decide) (by decide)

@[simp] theorem keyStatus_ne_keyCurrent : keyStatus lrn ≠ keyCurrent :=
  (keyCurrent_ne_keyStatus lrn).symm

@[simp] theorem keyNecoRelease_ne_keyCurrent : keyNecoRelease ≠ keyCurrent := by decide

@[simp] theorem keyBootServer_ne_keyCurrent : keyBootServer lrn ≠ keyCurrent :=
  (keyCurrent_ne_keyBootServer lrn).symm

@[simp] theorem keyNecoRelease_ne_keyStatus : keyNecoRelease ≠ keyStatus lrn :=
  (keyStatus_ne_keyNecoRelease lrn).symm

@[simp] theorem keyBootServer_ne_keyStatus : keyBootServer lrn ≠ keyStatus lrn' :=
  (keyStatus_ne_keyBootServer lrn' lrn).symm

@[simp] theorem keyBootServer_ne_keyNecoRelease : keyBootServer lrn ≠ keyNecoRelease :=
  (keyNecoRelease_ne_keyBootServer lrn).symm

@[simp] theorem status_keyCurrent : withPrefix keyStatusPrefix keyCurrent = true := by decide

@[simp] theorem status_keyStatus : withPrefix keyStatusPrefix (keyStatus lrn) = true := by
  rw [withPrefix, hasPrefix_iff, keyStatus, String.toList_append]
  exact List.IsPrefix.trans (by decide : _ <+: keyWorkerStatusPrefix.toList) (List.prefix_append ..)

@[simp] theorem status_keyNecoRelease : withPrefix keyStatusPrefix keyNecoRelease = false := by
  decide

@[simp] theorem status_keyBootServer : withPrefix keyStatusPrefix (keyBootServer lrn) = false :=
  withPrefix_apart (p := "status/") "" _ 0 (by decide) (by decide) (by decide)

@[simp] theorem workers_keyCurrent : withPrefix keyWorkerStatusPrefix keyCurrent = false := by decide

@[simp] theorem workers_keyStatus : withPrefix keyWorkerStatusPrefix (keyStatus lrn) = true :=
  hasPrefix_append ..

@[simp] theorem workers_keyNecoRelease :
    withPrefix keyWorkerStatusPrefix keyNecoRelease = false := by decide

@[simp] theorem workers_keyBootServer :
    withPrefix keyWorkerStatusPrefix (keyBootServer lrn) = false :=
  withPrefix_apart (p := "status/bootservers/") "" _ 0 (by decide) (by decide) (by decide)

@[simp] theorem servers_keyCurrent : withPrefix keyBootserversPrefix keyCurrent = false := by decide

@[simp] theorem servers_keyStatus : withPrefix keyBootserversPrefix (keyStatus lrn) = false :=
  withPrefix_apart (p := "info/bootservers/") "" _ 0 (by decide) (by decide) (by decide)

@[simp] theorem servers_keyNecoRelease :
    withPrefix keyBootserversPrefix keyNecoRelease = false := by decide

@[simp] theorem servers_keyBootServer :
    withPrefix keyBootserversPrefix (keyBootServer lrn) = true := hasPrefix_append ..

@[simp] theorem info_keyBootServer : withPrefix keyInfoPrefix (keyBootServer lrn) = true := by
  rw [withPrefix, hasPrefix_iff, keyBootServer, String.toList_append]
  exact List.IsPrefix.trans (by decide : _ <+: "info/bootservers/".toList) (List.prefix_append ..)

@[simp] theorem info_keyNecoRelease : withPrefix keyInfoPrefix keyNecoRelease = true := by decide

/-- The keys that the update process reads. -/
def Seen (key : String) : Bool :=
  withPrefix keyStatusPrefix key || withPrefix keyBootserversPrefix key || key = keyNecoRelease

theorem getElem?_of_withPrefix (pre : String) {key : String} (s : String) (i : Nat) {c : Char}
    (char : pre.toList[i]? = some c) (inside : withPrefix (pre ++ s) key = true) :
    key.toList[i]? = some c := by
  obtain ⟨rest, same⟩ := hasPrefix_iff.mp inside
  have bound := (List.getElem?_eq_some_iff.mp char).1
  rw [← same, String.toList_append, List.append_assoc, List.getElem?_append_left bound, char]

/-- A key that the update process reads begins with `s`, or its third letter is an `f`. -/
theorem letter_of_seen {key : String} (seen : Seen key = true) :
    key.toList[0]? = some 's' ∨ key.toList[2]? = some 'f' := by
  simp only [Seen, Bool.or_eq_true, decide_eq_true_eq] at seen
  rcases seen with (status | server) | rfl
  · exact .inl (getElem?_of_withPrefix "status/" "" 0 rfl status)
  · exact .inr (getElem?_of_withPrefix "info/bootservers/" "" 2 rfl server)
  · exact .inr rfl

theorem not_seen_contents {key : String} (inside : withPrefix keyContentsPrefix key = true) :
    Seen key = false := by
  by_contra seen
  have first := getElem?_of_withPrefix "contents/" "" 0 rfl inside
  have third := getElem?_of_withPrefix "contents/" "" 2 rfl inside
  rcases letter_of_seen (by simpa using seen) with letter | letter
  · cases first.symm.trans letter
  · cases third.symm.trans letter

theorem not_seen_install {key : String} (inside : withPrefix (keyInstall lrn) key = true) :
    Seen key = false := by
  by_contra seen
  have first := getElem?_of_withPrefix keyInstallPrefix (itoa lrn) 0 rfl inside
  have third := getElem?_of_withPrefix keyInstallPrefix (itoa lrn) 2 rfl inside
  rcases letter_of_seen (by simpa using seen) with letter | letter
  · cases first.symm.trans letter
  · cases third.symm.trans letter

@[simp] theorem seen_keyCurrent : Seen keyCurrent = true := by simp [Seen]

@[simp] theorem seen_keyStatus : Seen (keyStatus lrn) = true := by simp [Seen]

@[simp] theorem seen_keyNecoRelease : Seen keyNecoRelease = true := by simp [Seen]

@[simp] theorem seen_keyBootServer : Seen (keyBootServer lrn) = true := by simp [Seen]

/-- What the update process reads is neither among the contents nor among what is installed. -/
theorem contents_of_seen {key : String} (seen : Seen key = true) :
    withPrefix keyContentsPrefix key = false := by
  by_contra inside
  cases seen.symm.trans (not_seen_contents (by simpa using inside))

theorem install_of_seen {key : String} (seen : Seen key = true) :
    hasPrefix key (keyInstall lrn) = false := by
  by_contra inside
  cases seen.symm.trans (not_seen_install lrn (Bool.eq_true_of_not_eq_false inside))

theorem status_of_workers {key : String} (inside : withPrefix keyWorkerStatusPrefix key = true) :
    withPrefix keyStatusPrefix key = true :=
  hasPrefix_iff.mpr ((by decide : _ <+: keyWorkerStatusPrefix.toList).trans (hasPrefix_iff.mp inside))

theorem seen_of_workers {key : String} (inside : withPrefix keyWorkerStatusPrefix key = true) :
    Seen key = true := by
  simp [Seen, status_of_workers inside]

end Ranges

/-! ### Transactions and changes -/

section Refinement

variable (codec : Codec)

/-- The transactions that stand for a change, on the store `s`. -/
def Implements (s : Etcd) : Change → List (Write String String) → Prop
  | .putRequest req, w => w = [.put keyCurrent (codec.marshalRequest req)]
  | .putReconfigureRequest req, w => w = [.put keyCurrent (codec.marshalRequest req),
      .deleteRange (withPrefix keyWorkerStatusPrefix)]
  | .clearStatusAndContents, w => (s.get keyCurrent).isSome = true ∧
      w = [.deleteRange (withPrefix keyStatusPrefix), .deleteRange (withPrefix keyContentsPrefix)]
  | .putStatus lrn st _, w => IsInt lrn ∧ w = [.put (keyStatus lrn) (codec.marshalStatus st)]
  | .updateNecoRelease version, w => w = [.put keyNecoRelease version]
  | .registerBootserver lrn, w => IsInt lrn ∧ w = [.put (keyBootServer lrn) ""]
  | .deleteBootServer lrn, w => IsRegistered s lrn ∧ w = deletion lrn
  | .other, w => Quiet Seen s.pairs w

/-- The transactions `txns` stand for the history `h`. -/
inductive Represents : List (List (Write String String)) → List Change → Prop
  | nil : Represents [] []
  | concat {txns : List (List (Write String String))} {h : List Change} {c : Change}
      {w : List (Write String String)} : Represents txns h → Implements codec (replay txns) c w →
      Represents (txns ++ [w]) (h ++ [c])

theorem Represents.length_eq {codec : Codec} {txns : List (List (Write String String))}
    {h : List Change} (represents : Represents codec txns h) : txns.length = h.length := by
  induction represents with
  | nil => rfl
  | concat _ _ ih => simp [ih]

/-- A store holds what the history model says. -/
structure Stored (s : Etcd) (st : Store) : Prop where
  current : s.get keyCurrent =
    st.current.map fun (req, m) => ⟨keyCurrent, codec.marshalRequest req, m⟩
  status : ∀ lrn, (s.get (keyStatus lrn)).map (·.value) =
    (st.statuses.lookup lrn).map codec.marshalStatus
  workers : ∀ p ∈ s.pairs, withPrefix keyWorkerStatusPrefix p.key = true →
    ∃ lrn, IsInt lrn ∧ p.key = keyStatus lrn
  release : releaseOf s = st.latest
  registry : Registry s
  servers : ∀ lrn, lrn ∈ st.bootservers ↔ IsRegistered s lrn

variable {codec} {s : Etcd} {c : Change} {w : List (Write String String)}

/-- Only these keys are put below the prefixes that are read. -/
theorem Implements.puts (implements : Implements codec s c w) {key value : String}
    (put : .put key value ∈ w) : key = keyCurrent ∨ (∃ lrn, IsInt lrn ∧ key = keyStatus lrn) ∨
      key = keyNecoRelease ∨ (∃ lrn, IsInt lrn ∧ key = keyBootServer lrn) ∨ Seen key = false := by
  cases c with
  | putRequest req =>
    cases implements
    simp only [List.mem_singleton, Write.put.injEq] at put
    exact .inl put.1
  | putReconfigureRequest req =>
    cases implements
    simp only [List.mem_cons, Write.put.injEq, reduceCtorEq, List.not_mem_nil, or_false] at put
    exact .inl put.1
  | clearStatusAndContents =>
    obtain ⟨_, rfl⟩ := implements
    simp at put
  | putStatus lrn st o =>
    obtain ⟨int, rfl⟩ := implements
    simp only [List.mem_singleton, Write.put.injEq] at put
    exact .inr (.inl ⟨lrn, int, put.1⟩)
  | updateNecoRelease version =>
    cases implements
    simp only [List.mem_singleton, Write.put.injEq] at put
    exact .inr (.inr (.inl put.1))
  | registerBootserver lrn =>
    obtain ⟨int, rfl⟩ := implements
    simp only [List.mem_singleton, Write.put.injEq] at put
    exact .inr (.inr (.inr (.inl ⟨lrn, int, put.1⟩)))
  | deleteBootServer lrn =>
    obtain ⟨_, rfl⟩ := implements
    simp [deletion] at put
  | other => exact .inr (.inr (.inr (.inr (implements.puts key value put))))

theorem Stored.pairs_commit {st : Store} (stored : Stored codec s st)
    (implements : Implements codec s c w) :
    (∀ p ∈ (s.commit w).pairs, withPrefix keyWorkerStatusPrefix p.key = true →
      ∃ lrn, IsInt lrn ∧ p.key = keyStatus lrn) ∧ Registry (s.commit w) := by
  constructor
  · intro p member inside
    rcases mem_commit member with old | ⟨value, put⟩
    · exact stored.workers p old inside
    · rcases implements.puts put with same | found | same | ⟨lrn, _, same⟩ | unseen
      · rw [same, workers_keyCurrent] at inside
        cases inside
      · exact found
      · rw [same, workers_keyNecoRelease] at inside
        cases inside
      · rw [same, workers_keyBootServer] at inside
        cases inside
      · cases unseen.symm.trans (seen_of_workers inside)
  · intro p member inside
    rcases mem_commit member with old | ⟨value, put⟩
    · exact stored.registry p old inside
    · replace inside : withPrefix keyBootserversPrefix p.key = true := inside
      rcases implements.puts put with same | ⟨lrn, _, same⟩ | same | found | unseen
      · rw [same, servers_keyCurrent] at inside
        cases inside
      · rw [same, servers_keyStatus] at inside
        cases inside
      · rw [same, servers_keyNecoRelease] at inside
        cases inside
      · exact found
      · simp [Seen, inside] at unseen

section Apply

variable (st : Store) (rev : Nat) (lrn : Int)

@[simp] theorem current_register :
    (st.apply rev (.registerBootserver lrn)).current = st.current := by
  rw [Store.apply]
  split <;> rfl

@[simp] theorem statuses_register :
    (st.apply rev (.registerBootserver lrn)).statuses = st.statuses := by
  rw [Store.apply]
  split <;> rfl

@[simp] theorem latest_register :
    (st.apply rev (.registerBootserver lrn)).latest = st.latest := by
  rw [Store.apply]
  split <;> rfl

end Apply

/-- One transaction does to the store what its change does in the model. -/
theorem Stored.commit {st : Store} (stored : Stored codec s st) (ordered : KeyOrdered st.bootservers)
    (implements : Implements codec s c w) :
    Stored codec (s.commit w) (st.apply (s.revision + 1) c) := by
  obtain ⟨workers, registry⟩ := stored.pairs_commit implements
  obtain ⟨current, status, _, release, _, servers⟩ := stored
  simp only [releaseOf, IsRegistered] at release servers
  -- The keys that are read are told apart from those that the transaction writes.
  suffices fields : (s.commit w).get keyCurrent = (st.apply (s.revision + 1) c).current.map
        (fun (req, m) => ⟨keyCurrent, codec.marshalRequest req, m⟩) ∧
      (∀ lrn, ((s.commit w).get (keyStatus lrn)).map (·.value) =
        ((st.apply (s.revision + 1) c).statuses.lookup lrn).map codec.marshalStatus) ∧
      releaseOf (s.commit w) = (st.apply (s.revision + 1) c).latest ∧
      ∀ lrn, lrn ∈ (st.apply (s.revision + 1) c).bootservers ↔ IsRegistered (s.commit w) lrn from
    ⟨fields.1, fields.2.1, workers, fields.2.2.1, registry, fields.2.2.2⟩
  cases c with
  | putRequest req =>
    cases implements
    simp [KV.get_commit, Write.at, releaseOf, IsRegistered, Store.apply, status, release, servers]
  | putReconfigureRequest req =>
    cases implements
    simp [KV.get_commit, Write.at, releaseOf, IsRegistered, Store.apply, release, servers]
  | clearStatusAndContents =>
    obtain ⟨_, rfl⟩ := implements
    simp [KV.get_commit, Write.at, releaseOf, IsRegistered, Store.apply, contents_of_seen, release,
      servers]
  | putStatus lrn st' o =>
    obtain ⟨_, rfl⟩ := implements
    refine ⟨?_, fun i => ?_, ?_, ?_⟩
    · simp [KV.get_commit, Write.at, Store.apply, current]
    · by_cases same : i = lrn
      · subst same
        simp [KV.get_commit, Write.at, Store.apply]
      · simp [KV.get_commit, Write.at, Store.apply, same, status, AList.lookup_insert_ne]
    · simp [KV.get_commit, Write.at, Store.apply, releaseOf, release]
    · simp [KV.get_commit, Write.at, Store.apply, IsRegistered, servers]
  | updateNecoRelease version =>
    cases implements
    simp [KV.get_commit, Write.at, releaseOf, IsRegistered, Store.apply, current, status, servers]
  | registerBootserver lrn =>
    obtain ⟨_, rfl⟩ := implements
    refine ⟨?_, ?_, ?_, fun i => ?_⟩
    · simp [KV.get_commit, Write.at, current]
    · simp [KV.get_commit, Write.at, status]
    · simp [KV.get_commit, Write.at, releaseOf, release]
    · rw [bootservers_apply]
      by_cases same : i = lrn
      · subst same
        by_cases old : i ∈ st.bootservers <;> simp [IsRegistered, KV.get_commit, Write.at, old]
      · by_cases old : lrn ∈ st.bootservers <;>
          simp [IsRegistered, KV.get_commit, Write.at, old, same, servers]
  | deleteBootServer lrn =>
    obtain ⟨_, rfl⟩ := implements
    refine ⟨?_, ?_, ?_, fun i => ?_⟩
    · simp [deletion, KV.get_commit, Write.at, Store.apply, install_of_seen, current]
    · simp [deletion, KV.get_commit, Write.at, Store.apply, install_of_seen, status]
    · simp [deletion, KV.get_commit, Write.at, Store.apply, install_of_seen, releaseOf, release]
    · rw [bootservers_apply, ordered.nodup.mem_erase_iff]
      by_cases same : i = lrn <;>
        simp [deletion, IsRegistered, KV.get_commit, Write.at, install_of_seen, same, servers]
  | other =>
    have quiet : Quiet Seen s.pairs w := implements
    simp [quiet.get_commit, releaseOf, IsRegistered, Store.apply, current, status, release, servers]

/-- The store after transactions that stand for a history is the store of the history. -/
theorem Represents.stored {txns : List (List (Write String String))} {h : List Change}
    (effective : Effective txns) (represents : Represents codec txns h) :
    Stored codec (replay txns) (store h) := by
  induction represents with
  | nil =>
    refine ⟨rfl, fun _ => rfl, fun p member => ?_, rfl, fun p member => ?_, fun lrn => ?_⟩
    · cases member
    · cases member
    · simp [Store.empty, IsRegistered]
  | @concat txns h c w represents implements ih =>
    obtain ⟨before, _⟩ := effective_concat.mp effective
    have next := (ih before).commit (bootservers_ordered h) implements
    rw [before.revision, represents.length_eq] at next
    rw [replay_concat, store_concat]
    exact next

/-! ### Reads -/

/-- The loop over statuses builds the map of the records that it reads. -/
theorem foldlM_collectStatus (l : List (Pair String String)) (sorted : Sorted l)
    (records : ∀ p ∈ l, ∃ lrn st, IsInt lrn ∧ p.key = keyStatus lrn ∧
      p.value = codec.marshalStatus st) :
    ∀ m : Statuses, ∃ m', l.foldlM (collectStatus codec) m = some m' ∧
      ∀ lrn, m'.lookup lrn = (l.find? (·.key = keyStatus lrn)).elim (m.lookup lrn) fun p =>
        codec.unmarshalStatus p.value := by
  induction l with
  | nil => exact fun m => ⟨m, rfl, fun _ => rfl⟩
  | cons p rest ih =>
    intro m
    obtain ⟨first, sortedRest⟩ := List.pairwise_cons.mp sorted
    obtain ⟨i, st, int, key, value⟩ := records p (List.mem_cons_self ..)
    obtain ⟨m', built, lookups⟩ := ih sortedRest
      (fun q later => records q (List.mem_cons_of_mem p later)) (m.insert i st)
    refine ⟨m', ?_, fun lrn => ?_⟩
    · have head : collectStatus codec m p = some (m.insert i st) := by
        simp [collectStatus, key, value, codec.status, keyStatus, lrnOfKey_append int]
      rw [List.foldlM_cons, head]
      exact built
    · rw [lookups, List.find?_cons, key]
      by_cases same : i = lrn
      · subst same
        -- No later record is of the same server.
        have absent : rest.find? (·.key = keyStatus i) = none := by
          rw [List.find?_eq_none]
          intro q later
          simpa [key] using (first q later).ne'
        simp [absent, value, codec.status]
      · simp [same, AList.lookup_insert_ne (Ne.symm same)]

theorem Stored.statusesOf {st : Store} (stored : Stored codec s st) :
    ∃ m, statusesOf codec s = some m ∧ ∀ lrn, m.lookup lrn = st.statuses.lookup lrn := by
  have records : ∀ p ∈ s.getRange (withPrefix keyWorkerStatusPrefix), ∃ lrn st', IsInt lrn ∧
      p.key = keyStatus lrn ∧ p.value = codec.marshalStatus st' := by
    intro p member
    obtain ⟨here, inside⟩ := KV.mem_getRange.mp member
    obtain ⟨lrn, int, key⟩ := stored.workers p here inside
    have status := stored.status lrn
    rw [KV.get_eq_some.mpr ⟨here, key⟩] at status
    obtain ⟨st', _, same⟩ := Option.map_eq_some_iff.mp status.symm
    exact ⟨lrn, st', int, key, same.symm⟩
  obtain ⟨m, built, lookups⟩ := foldlM_collectStatus _ (s.sorted_getRange _) records ∅
  refine ⟨m, built, fun lrn => ?_⟩
  have found : (s.getRange (withPrefix keyWorkerStatusPrefix)).find? (·.key = keyStatus lrn) =
      s.get (keyStatus lrn) := by
    ext p
    rw [find?_eq_some_iff (s.sorted_getRange _), KV.get_eq_some, KV.mem_getRange]
    constructor
    · rintro ⟨⟨here, _⟩, key⟩
      exact ⟨here, key⟩
    · rintro ⟨here, key⟩
      exact ⟨⟨here, by rw [key, workers_keyStatus]⟩, key⟩
  have status := stored.status lrn
  rw [lookups, found]
  cases current : s.get (keyStatus lrn) with
  | none =>
    rw [current] at status
    exact (Option.map_eq_none_iff.mp status.symm).symm
  | some p =>
    rw [current] at status
    obtain ⟨st', known, same⟩ := Option.map_eq_some_iff.mp status.symm
    replace same : codec.marshalStatus st' = p.value := same
    rw [known, Option.elim_some, ← same]
    exact codec.status st'

theorem Stored.snapshotServers {st : Store} (stored : Stored codec s st)
    (ordered : KeyOrdered st.bootservers) : snapshotServers s = some st.bootservers := by
  obtain ⟨servers, built, ordered', members⟩ := snapshotServers_registry stored.registry
  rw [built, Option.some.injEq]
  exact ordered'.eq_of_mem_iff ordered fun lrn => (members lrn).trans (stored.servers lrn).symm

end Refinement

end Neco.Storage
