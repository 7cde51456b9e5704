import Neco.Storage.Refinement
import Neco.Updater.Action
import Neco.Updater.Release
import Neco.Lib.Json

/-!
# The storage implements the history model

In every run of the operations of `storage`, every read returns what the model says, and every
watcher is told the changes it is told in the model. In particular `NewSnapshot` returns one
consistent view although it reads four times.
-/

namespace Neco.Storage

open KeyValue

/-! ### Snapshots -/

/-- Two snapshots with the same statuses, in whatever order. -/
structure Agrees (ss ss' : Snapshot) : Prop where
  revision : ss.revision = ss'.revision
  request : ss.request = ss'.request
  statuses : ∀ lrn, ss.statuses.lookup lrn = ss'.statuses.lookup lrn
  latest : ss.latest = ss'.latest
  servers : ss.servers = ss'.servers

theorem Agrees.nextAction {V : Type} [DecidableEq V] {ss ss' : Snapshot} (agrees : Agrees ss ss')
    (newVersion : String → Option V) (timeout now : Int) :
    nextAction newVersion timeout now ss = nextAction newVersion timeout now ss' := by
  have aborted (version : String) : anyAborted version ss.statuses = anyAborted version ss'.statuses := by
    rw [Bool.eq_iff_iff, anyAborted_iff, anyAborted_iff]
    simp only [agrees.statuses]
  have completed (version : String) (lrns : List Int) :
      updateCompleted version lrns ss.statuses = updateCompleted version lrns ss'.statuses := by
    rw [Bool.eq_iff_iff, updateCompleted_iff, updateCompleted_iff]
    simp only [agrees.statuses]
  simp only [Neco.nextAction, agrees.latest, agrees.request, agrees.servers, aborted, completed]

section Snapshot

variable {codec : Codec} {db : Db} {h : List Change}

theorem Represents.current (represents : Represents codec db.txns h) :
    Stored codec db.current (store h) := represents.stored db.effective

theorem Represents.revision (represents : Represents codec db.txns h) : db.revision = h.length :=
  represents.length_eq

theorem Stored.requestOf {s : Etcd} {st : Store} (stored : Stored codec s st) :
    requestOf codec s = .ok (st.current.map Prod.fst) := by
  rw [Storage.requestOf, stored.current]
  cases st.current with
  | none => rfl
  | some request => simp [codec.request, decoded, Except.map]

theorem readAt_later {db' : Db} (later : db.Later db') :
    readAt db' db.revision =
      if db.revision < db'.compacted then .error (.read .compacted) else .ok db.current := by
  rw [readAt, later.read]
  split <;> rfl

/-- `GetRequestWithRev` returns the request of the model with its mod revision. -/
theorem Represents.getRequestWithRev (represents : Represents codec db.txns h) :
    getRequestWithRev codec db = match (store h).current with
      | none => (.error .notFound, h.length)
      | some request => (.ok request, h.length) := by
  rw [Storage.getRequestWithRev, represents.current.current, represents.revision]
  cases (store h).current with
  | none => rfl
  | some request => simp [codec.request]

end Snapshot

/-! ### Every operation is a change -/

/-- The functions of `storage` that write, what other programs write, and compaction. -/
inductive Op where
  | putRequest (req : UpdateRequest) (leaderKey : String)
  | putReconfigureRequest (req : UpdateRequest) (leaderKey : String)
  | putStatus (lrn : Int) (st : UpdateStatus)
  /-- One turn of `ClearStatusAndContents` that has read the state `seen`. -/
  | clearStatusAndContents (seen : Db)
  | registerBootserver (lrn : Int)
  | deleteBootServer (lrn : Int)
  | updateNecoRelease (version leaderKey : String)
  | other (writes : List (Write String String))
  | compact (rev : Nat)

def Op.run (codec : Codec) (db : Db) : Op → Db
  | .putRequest req leaderKey => (Storage.putRequest codec db req leaderKey).2
  | .putReconfigureRequest req leaderKey => (Storage.putReconfigureRequest codec db req leaderKey).2
  | .putStatus lrn st => Storage.putStatus codec db lrn st
  | .clearStatusAndContents seen => (Storage.clearStatusAndContents codec seen db).2
  | .registerBootserver lrn => Storage.registerBootserver db lrn
  | .deleteBootServer lrn => (Storage.deleteBootServer db lrn).2
  | .updateNecoRelease version leaderKey => (Storage.updateNecoRelease db version leaderKey).2
  | .other writes => db.commit writes
  | .compact rev => db.compact rev

/-- LRNs are of type `int`, reads are of the past, and other programs keep away from the keys of
the update process. -/
def Op.Valid (db : Db) : Op → Prop
  | .putStatus lrn _ => IsInt lrn
  | .clearStatusAndContents seen => seen.Later db
  | .registerBootserver lrn => IsInt lrn
  | .other writes => Quiet Seen db.current.pairs writes
  | _ => True

/-- Whether `neco recover`, having read the request after `n` transactions, clears the store. -/
def clears (h : List Change) (n : Nat) : Bool :=
  match (store (h.take n)).current with
  | some (req, modRev) => req.stop && (store h).current.map Prod.snd == some modRev
  | none => false

/-- A transaction that the model does not look at. -/
def otherChange (db : Db) (writes : List (Write String String)) : List Change :=
  if writes.any (·.changes db.current.pairs) then [.other] else []

/-- What an operation adds to the history. -/
def Op.changes (db : Db) (h : List Change) : Op → List Change
  | .putRequest req leaderKey => if (db.current.get leaderKey).isSome then [.putRequest req] else []
  | .putReconfigureRequest req leaderKey =>
    if (db.current.get leaderKey).isSome then [.putReconfigureRequest req] else []
  | .putStatus lrn st => [.putStatus lrn st 0]
  | .clearStatusAndContents seen => if clears h seen.revision then [.clearStatusAndContents] else []
  | .registerBootserver lrn => [.registerBootserver lrn]
  | .deleteBootServer lrn => if lrn ∈ (store h).bootservers then [.deleteBootServer lrn]
    else otherChange db (deletion lrn)
  | .updateNecoRelease version leaderKey =>
    if (db.current.get leaderKey).isSome then [.updateNecoRelease version] else []
  | .other writes => otherChange db writes
  | .compact _ => []

section Op

variable {codec : Codec} {db : Db} {h : List Change}

theorem Represents.commit (represents : Represents codec db.txns h) {c : Change}
    {w : List (Write String String)} (implements : Implements codec db.current c w)
    (changes : w.any (·.changes db.current.pairs) = true) :
    Represents codec (db.commit w).txns (h ++ [c]) := by
  rw [Database.commit, dif_pos changes]
  exact .concat represents implements

theorem Represents.guarded (represents : Represents codec db.txns h) {c : Change}
    {w : List (Write String String)} (implements : Implements codec db.current c w)
    (changes : w.any (·.changes db.current.pairs) = true) (leaderKey : String) :
    Represents codec (guarded db leaderKey w).2.txns
      (h ++ if (db.current.get leaderKey).isSome then [c] else []) := by
  rw [Storage.guarded]
  split
  · exact represents.commit implements changes
  · rw [List.append_nil]
    exact represents

theorem Represents.other (represents : Represents codec db.txns h) {w : List (Write String String)}
    (quiet : Quiet Seen db.current.pairs w) :
    Represents codec (db.commit w).txns (h ++ otherChange db w) := by
  rw [otherChange]
  split
  next changes => exact represents.commit (c := .other) quiet changes
  next unchanged =>
    rw [List.append_nil, Database.commit, dif_neg unchanged]
    exact represents

/-- Deleting a server that is not registered changes nothing that is read. -/
theorem quiet_deletion {s : Etcd} {lrn : Int} (absent : ¬IsRegistered s lrn) :
    Quiet Seen s.pairs (deletion lrn) where
  puts key value member := by simp [deletion] at member
  deletes deleted member p here seen := by
    simp only [deletion, List.mem_cons, Write.deleteRange.injEq, List.not_mem_nil, or_false] at member
    rcases member with rfl | rfl
    · simp only [decide_eq_false_iff_not]
      intro key
      exact absent (isRegistered_iff.mpr ⟨p, here, key⟩)
    · exact install_of_seen lrn seen

/-- A history that is represented in the past is the beginning of the present one. -/
theorem Represents.past {seen : Db} (represents : Represents codec db.txns h)
    (later : seen.Later db) : Represents codec seen.txns (h.take seen.revision) := by
  obtain ⟨more, same⟩ := later
  have general {txns : List (List (Write String String))} {h : List Change}
      (represents : Represents codec txns h) (n : Nat) :
      Represents codec (txns.take n) (h.take n) := by
    induction represents with
    | nil => simpa using Represents.nil
    | @concat txns h c w before implements ih =>
      have length := before.length_eq
      by_cases inside : n ≤ txns.length
      · rw [List.take_append_of_le_length inside, List.take_append_of_le_length (length ▸ inside)]
        exact ih
      · rw [List.take_of_length_le (by simp; omega), List.take_of_length_le (by simp; omega)]
        exact .concat before implements
  have taken := general represents seen.revision
  rwa [← same, Database.revision, List.take_left] at taken

theorem Represents.clear {seen : Db} (represents : Represents codec db.txns h)
    (later : seen.Later db) :
    Represents codec (clearStatusAndContents codec seen db).2.txns
      (h ++ if clears h seen.revision then [.clearStatusAndContents] else []) := by
  have read := (represents.past later).getRequestWithRev
  have stored := represents.current
  rw [clearStatusAndContents, clears, read]
  cases old : (store (h.take seen.revision)).current with
  | none => simpa using represents
  | some request =>
    obtain ⟨req, modRev⟩ := request
    have positive : 0 < modRev := by
      have past := (represents.past later).current.current
      rw [old] at past
      exact (seen.current.versioned _ (KV.get_eq_some.mp past).1).1
    have sameRev : db.current.modRevision keyCurrent = modRev ↔
        (store h).current.map Prod.snd = some modRev := by
      rw [KV.modRevision, stored.current]
      cases (store h).current with
      | none => simp [positive.ne]
      | some request => simp
    cases stopped : req.stop with
    | false => simpa [stopped] using represents
    | true =>
      by_cases same : (store h).current.map Prod.snd = some modRev
      · have present : (db.current.get keyCurrent).isSome = true := by
          rw [stored.current]
          obtain ⟨request, found, _⟩ := Option.map_eq_some_iff.mp same
          rw [found]
          rfl
        have changed := represents.commit (c := .clearStatusAndContents) ⟨present, rfl⟩ (by
          obtain ⟨p, found⟩ := Option.isSome_iff_exists.mp present
          obtain ⟨here, key⟩ := KV.get_eq_some.mp found
          simp only [List.any_cons, Write.changes, Bool.or_eq_true, List.any_eq_true]
          exact .inl ⟨p, here, by rw [key, status_keyCurrent]⟩)
        simpa [stopped, sameRev, same] using changed
      · simpa [stopped, sameRev, same] using represents

/-- Every operation does to etcd what the model says. -/
theorem Represents.run (represents : Represents codec db.txns h) {op : Op} (valid : op.Valid db) :
    Represents codec (op.run codec db).txns (h ++ op.changes db h) := by
  cases op with
  | putRequest req leaderKey =>
    exact represents.guarded (c := .putRequest req) rfl rfl leaderKey
  | putReconfigureRequest req leaderKey =>
    exact represents.guarded (c := .putReconfigureRequest req) rfl rfl leaderKey
  | putStatus lrn st => exact represents.commit (c := .putStatus lrn st 0) ⟨valid, rfl⟩ rfl
  | clearStatusAndContents seen => exact represents.clear valid
  | registerBootserver lrn =>
    exact represents.commit (c := .registerBootserver lrn) ⟨valid, rfl⟩ rfl
  | deleteBootServer lrn =>
    simp only [Op.run, Op.changes, deleteBootServer]
    split
    next member =>
      have registered := (represents.current.servers lrn).mp member
      refine represents.commit (c := .deleteBootServer lrn) ⟨registered, rfl⟩ ?_
      obtain ⟨p, here, key⟩ := isRegistered_iff.mp registered
      simp only [deletion, List.any_cons, Write.changes, Bool.or_eq_true, List.any_eq_true]
      exact .inl ⟨p, here, by simp [key]⟩
    next absent =>
      exact represents.other (quiet_deletion fun here => absent ((represents.current.servers lrn).mpr here))
  | updateNecoRelease version leaderKey =>
    exact represents.guarded (c := .updateNecoRelease version) rfl rfl leaderKey
  | other writes => exact represents.other valid
  | compact rev =>
    rw [Op.changes, List.append_nil, Op.run, Database.txns_compact]
    exact represents

end Op

/-- What etcd can hold and the history that it stands for, after any operations. -/
inductive Runs (codec : Codec) : Db → List Change → Prop
  | start : Runs codec .empty []
  | step {db : Db} {h : List Change} (op : Op) : Runs codec db h → op.Valid db →
      Runs codec (op.run codec db) (h ++ op.changes db h)

theorem Runs.represents {codec : Codec} {db : Db} {h : List Change} (runs : Runs codec db h) :
    Represents codec db.txns h := by
  induction runs with
  | start => exact .nil
  | step _ _ valid ih => exact ih.run valid

/-! ### A run -/

def conditionCode : UpdateCondition → Nat
  | .notRunning => 0
  | .running => 1
  | .abort => 2
  | .complete => 3

def conditionOf : Nat → Option UpdateCondition
  | 0 => some .notRunning
  | 1 => some .running
  | 2 => some .abort
  | 3 => some .complete
  | _ => none

theorem conditionOf_conditionCode (cond : UpdateCondition) :
    conditionOf (conditionCode cond) = some cond := by
  cases cond <;> rfl

def requestFormat : Json.Format (String × List Int × Bool × Int) :=
  .fields (.field "version" .string) (.fields (.field "servers" (.array .int))
    (.fields (.field "stop" .bool) (.field "started_at" .int)))

def statusFormat : Json.Format (String × Nat × Nat × String) :=
  .fields (.field "version" .string) (.fields (.field "step" .nat)
    (.fields (.field "cond" .nat) (.field "message" .string)))

/-- Records in JSON under the names of their tags; an instant is written as a number. -/
def jsonCodec : Codec where
  marshalRequest req := requestFormat.marshal (req.version, req.servers, req.stop, req.startedAt)
  unmarshalRequest text := (requestFormat.unmarshal text).map
    fun (version, servers, stop, startedAt) => ⟨version, servers, stop, startedAt⟩
  marshalStatus st := statusFormat.marshal (st.version, st.step, conditionCode st.cond, st.message)
  unmarshalStatus text := do
    let (version, step, code, message) ← statusFormat.unmarshal text
    return ⟨version, step, ← conditionOf code, message⟩
  request req := by
    rw [Json.Format.unmarshal_marshal]
    rfl
  status st := by
    simp [Json.Format.unmarshal_marshal, conditionOf_conditionCode]

/-- An updater becomes the leader, a server is registered, and the first release is installed. -/
def someOps : List Op :=
  [.other [.put "leader/updater/1" ""], .registerBootserver 0,
    .updateNecoRelease "2024.01.05-1" "leader/updater/1",
    .putRequest ⟨"2024.01.05-1", [0], false, 0⟩ "leader/updater/1",
    .putStatus 0 ⟨"2024.01.05-1", 1, .running, ""⟩]

/-- Etcd and the history after operations that begin with an empty etcd. -/
def performed (codec : Codec) (ops : List Op) : Db × List Change :=
  ops.foldl (fun (db, h) op => (op.run codec db, h ++ op.changes db h)) (.empty, [])

example : (performed jsonCodec someOps).2 = [.other, .registerBootserver 0,
    .updateNecoRelease "2024.01.05-1", .putRequest ⟨"2024.01.05-1", [0], false, 0⟩,
    .putStatus 0 ⟨"2024.01.05-1", 1, .running, ""⟩ 0] := by decide +kernel

theorem runs_someOps :
    Runs jsonCodec (performed jsonCodec someOps).1 (performed jsonCodec someOps).2 := by
  have int : IsInt 0 := by decide
  have quiet : Op.Valid .empty (.other [.put "leader/updater/1" ""]) := by
    refine ⟨fun key value member => ?_, fun deleted member => ?_⟩
    · simp only [List.mem_singleton, Write.put.injEq] at member
      rw [member.1]
      decide
    · simp at member
  exact .step (.putStatus 0 _) (.step (.putRequest _ _) (.step (.updateNecoRelease _ _)
    (.step (.registerBootserver 0) (.step (.other _) .start quiet) int) trivial) trivial) int

/-! ### Reads and watchers of every run -/

/-- The reads of `storage` return what the model says. -/
structure Reads (codec : Codec) (db : Db) (st : Store) : Prop where
  request : getRequestWithRev codec db = match st.current with
    | none => (.error .notFound, db.revision)
    | some request => (.ok request, db.revision)
  status : ∀ lrn, getStatus codec db lrn = match st.statuses.lookup lrn with
    | none => .error .notFound
    | some st => .ok st
  statuses : ∃ statuses, getStatuses codec db = .ok statuses ∧
    ∀ lrn, statuses.lookup lrn = st.statuses.lookup lrn
  release : getNecoRelease db = st.latest
  servers : snapshotServers db.current = some st.bootservers

theorem Represents.reads {codec : Codec} {db : Db} {h : List Change}
    (represents : Represents codec db.txns h) : Reads codec db (store h) where
  request := by
    rw [represents.getRequestWithRev, represents.revision]
  status lrn := by
    have stored := represents.current.status lrn
    rw [getStatus]
    cases known : (store h).statuses.lookup lrn with
    | none =>
      rw [known] at stored
      rw [Option.map_eq_none_iff.mp stored]
    | some st =>
      rw [known] at stored
      obtain ⟨p, found, value⟩ := Option.map_eq_some_iff.mp stored
      simp only [found, value, codec.status]
  statuses := by
    obtain ⟨statuses, built, lookups⟩ := represents.current.statusesOf
    exact ⟨statuses, by rw [getStatuses, built, decoded], lookups⟩
  release := represents.current.release
  servers := represents.current.snapshotServers (bootservers_ordered h)

/-- Whatever operations have run, in whatever order and with whatever other programs between them,
etcd holds one request, one status for each worker, one release and the registered servers, those
that the changes so far have left. -/
theorem storage_simulates (codec : Codec) (db : Db) (h : List Change) (runs : Runs codec db h) :
    db.revision = h.length ∧ Reads codec db (store h) :=
  ⟨runs.represents.revision, runs.represents.reads⟩

theorem storage_simulates_someOps :
    Runs jsonCodec (performed jsonCodec someOps).1 (performed jsonCodec someOps).2 ∧
    (performed jsonCodec someOps).1.revision = (performed jsonCodec someOps).2.length ∧
    Reads jsonCodec (performed jsonCodec someOps).1 (store (performed jsonCodec someOps).2) :=
  ⟨runs_someOps, storage_simulates _ _ _ runs_someOps⟩

/-- `NewSnapshot` returns the view at its first read, whatever is committed between its four
reads; the updater decides on it as the model does. It fails only when that revision has been
compacted. -/
theorem snapshot_consistent {V : Type} [DecidableEq V] (codec : Codec)
    (newVersion : String → Option V) (timeout now : Int) (db₀ db₁ db₂ db₃ : Db) (h : List Change)
    (represents : Represents codec db₀.txns h) (later₁ : db₀.Later db₁) (later₂ : db₀.Later db₂)
    (later₃ : db₀.Later db₃) :
    (newSnapshot codec db₀ db₁ db₂ db₃ = .error (.read .compacted) ∧
      ∃ db ∈ [db₁, db₂, db₃], db₀.revision < db.compacted) ∨
    ∃ ss, newSnapshot codec db₀ db₁ db₂ db₃ = .ok ss ∧ Agrees ss (Neco.newSnapshot h) ∧
      nextAction newVersion timeout now ss =
        nextAction newVersion timeout now (Neco.newSnapshot h) := by
  have stored := represents.current
  obtain ⟨statuses, built, lookups⟩ := stored.statusesOf
  have agrees : Agrees ⟨db₀.revision, (store h).current.map Prod.fst, statuses, (store h).latest,
      (store h).bootservers⟩ (Neco.newSnapshot h) := ⟨represents.revision, rfl, lookups, rfl, rfl⟩
  have servers := stored.snapshotServers (bootservers_ordered h)
  simp only [newSnapshot, getStatusesAt, stored.requestOf, readAt_later later₁, readAt_later later₂,
    readAt_later later₃]
  by_cases lost₁ : db₀.revision < db₁.compacted
  · refine .inl ⟨?_, db₁, by simp, lost₁⟩
    rw [if_pos lost₁]
    rfl
  by_cases lost₂ : db₀.revision < db₂.compacted
  · refine .inl ⟨?_, db₂, by simp, lost₂⟩
    rw [if_neg lost₁, if_pos lost₂]
    simp only [bind, Except.bind, servers, decoded]
  by_cases lost₃ : db₀.revision < db₃.compacted
  · refine .inl ⟨?_, db₃, by simp, lost₃⟩
    rw [if_neg lost₁, if_neg lost₂, if_pos lost₃]
    simp only [bind, Except.bind, servers, decoded]
  refine .inr ⟨_, ?_, agrees, agrees.nextAction newVersion timeout now⟩
  rw [if_neg lost₁, if_neg lost₂, if_neg lost₃]
  simp only [bind, Except.bind, servers, decoded, built, stored.release]
  rfl

/-- A snapshot of the run above; another server is registered before its third read. -/
theorem snapshot_consistent_someOps : ∃ ss, newSnapshot jsonCodec (performed jsonCodec someOps).1
    (performed jsonCodec someOps).1 (performed jsonCodec (someOps ++ [.registerBootserver 1])).1
    (performed jsonCodec (someOps ++ [.registerBootserver 1])).1 = .ok ss ∧
    Agrees ss (Neco.newSnapshot (performed jsonCodec someOps).2) := by
  have later : (performed jsonCodec someOps).1.Later
      (performed jsonCodec (someOps ++ [.registerBootserver 1])).1 := by
    rw [performed, performed, List.foldl_append]
    exact Database.later_commit _ _
  rcases snapshot_consistent jsonCodec newNecoRelease 0 0 _ _ _ _ _ runs_someOps.represents
      List.prefix_rfl later later with ⟨_, db, member, lost⟩ | ⟨ss, found, agrees, _⟩
  · have kept : db.compacted = 0 := by
      simp only [List.mem_cons, List.not_mem_nil, or_false] at member
      rcases member with rfl | rfl | rfl <;> decide +kernel
    omega
  · exact ⟨ss, found, agrees⟩

/-! ### Watchers -/

/-- What a change puts under a key that the update process reads. -/
def putOf (codec : Codec) : Change → Option (String × String)
  | .putRequest req | .putReconfigureRequest req => some (keyCurrent, codec.marshalRequest req)
  | .putStatus lrn st _ => some (keyStatus lrn, codec.marshalStatus st)
  | .updateNecoRelease version => some (keyNecoRelease, version)
  | .registerBootserver lrn => some (keyBootServer lrn, "")
  | .clearStatusAndContents | .deleteBootServer _ | .other => none

/-- What `f` tells of the changes after a revision, each with its own. -/
def tellAfter {α : Type} (f : Change → Option α) (rev : Nat) (h : List Change) : List (Nat × α) :=
  (h.zipIdx 1).filterMap fun (c, r) => if rev < r then (f c).map (r, ·) else none

theorem tellAfter_concat {α : Type} (f : Change → Option α) (rev : Nat) (h : List Change)
    (c : Change) : tellAfter f rev (h ++ [c]) = tellAfter f rev h ++
      (if rev < h.length + 1 then (f c).map (h.length + 1, ·) else none).toList := by
  rw [tellAfter, List.zipIdx_append, List.filterMap_append, ← tellAfter, Nat.add_comm 1]
  congr 1

theorem tellAfter_congr {α : Type} {f g : Change → Option α} (rev : Nat) {h : List Change}
    (same : ∀ c ∈ h, f c = g c) : tellAfter f rev h = tellAfter g rev h := by
  refine List.filterMap_congr fun cr member => ?_
  simp only [same cr.1 (List.fst_mem_of_mem_zipIdx member)]

/-- What a handler of `StatusWatcher` is called with for a change. -/
def noticeOf : Change → Option Notice
  | .putRequest req | .putReconfigureRequest req => some (.request req)
  | .putStatus lrn st _ => some (.status lrn st)
  | _ => none

def statusOf : Change → Option (Int × UpdateStatus)
  | .putStatus lrn st _ => some (lrn, st)
  | _ => none

section Watch

variable {codec : Codec} {range : String → Bool} {db : Db} {h : List Change}

theorem Implements.told {s : Etcd} {c : Change} {w : List (Write String String)}
    (implements : Implements codec s c w) (covered : ∀ key, range key = true → Seen key = true) :
    (w.filterMap Write.put?).filter (fun put => range put.1) =
      ((putOf codec c).filter fun put => range put.1).toList := by
  have single (put : String × String) : [put].filter (fun put => range put.1) =
      ((some put).filter fun put => range put.1).toList := by
    by_cases inside : range put.1 = true <;> simp [Option.filter, inside]
  cases c with
  | putRequest req =>
    cases implements
    exact single _
  | putReconfigureRequest req =>
    cases implements
    exact single _
  | clearStatusAndContents =>
    obtain ⟨_, rfl⟩ := implements
    rfl
  | putStatus lrn st o =>
    obtain ⟨_, rfl⟩ := implements
    exact single _
  | updateNecoRelease version =>
    cases implements
    exact single _
  | registerBootserver lrn =>
    obtain ⟨_, rfl⟩ := implements
    exact single _
  | deleteBootServer lrn =>
    obtain ⟨_, rfl⟩ := implements
    rfl
  | other =>
    have quiet : Quiet Seen s.pairs w := implements
    rw [putOf, Option.filter_none, Option.toList_none, List.filter_eq_nil_iff]
    intro put member inside
    obtain ⟨write, here, same⟩ := List.mem_filterMap.mp member
    cases write with
    | put key value =>
      cases same
      cases (covered key inside).symm.trans (quiet.puts key value here)
    | deleteRange deleted => cases same

/-- A watcher of puts is told those of the changes after its revision, in their order. -/
theorem Represents.puts (represents : Represents codec db.txns h)
    (covered : ∀ key, range key = true → Seen key = true) (rev : Nat) :
    puts (db.rangeAfter range rev) =
      tellAfter (fun c => (putOf codec c).filter fun put => range put.1) rev h := by
  obtain ⟨txns, effective, _⟩ := db
  simp only [Storage.puts, Database.rangeAfter] at represents ⊢
  induction represents with
  | nil => rfl
  | @concat txns h c w represents implements ih =>
    obtain ⟨before, _⟩ := effective_concat.mp effective
    rw [Database.eventsAfter_concat rev before, List.filter_append, List.filterMap_append,
      ih before, tellAfter_concat, ← represents.length_eq]
    congr 1
    split
    next =>
      have told := filterMap_filter_eventsOf range (txns.length + 1) (replay txns).pairs w
      rw [implements.told covered] at told
      rw [List.filter_map, List.filterMap_map, Option.toList_map, ← told, List.map_filterMap]
      rfl
    next => rfl

theorem Represents.getElem? {txns : List (List (Write String String))}
    (represents : Represents codec txns h) {k : Nat} {c : Change} (changed : h[k]? = some c) :
    ∃ w, txns[k]? = some w ∧ Implements codec (replay (txns.take k)) c w := by
  induction represents with
  | nil => cases changed
  | @concat txns h c' w represents implements ih =>
    have length := represents.length_eq
    by_cases inside : k < h.length
    · rw [List.getElem?_append_left inside] at changed
      obtain ⟨w', here, implemented⟩ := ih changed
      refine ⟨w', ?_, ?_⟩
      · rw [List.getElem?_append_left (length ▸ inside), here]
      · rwa [List.take_append_of_le_length (length ▸ inside.le)]
    · have bound := (List.getElem?_eq_some_iff.mp changed).1
      have last : k = h.length := by
        rw [List.length_append, List.length_singleton] at bound
        omega
      subst last
      simp only [List.getElem?_concat_length, Option.some.injEq] at changed
      subst changed
      rw [← length, List.take_left]
      exact ⟨w, by simp, implements⟩

/-- The changes that a watcher is told of, for any kind of event. -/
theorem Represents.mem_rangeAfter (represents : Represents codec db.txns h) {rev r : Nat}
    {e : Event String String} : (r, e) ∈ db.rangeAfter range rev ↔ range e.key = true ∧ rev < r ∧
      ∃ k c w, r = k + 1 ∧ h[k]? = some c ∧ db.txns[k]? = some w ∧
        Implements codec (replay (db.txns.take k)) c w ∧
        e ∈ eventsOf r (replay (db.txns.take k)).pairs w := by
  rw [Database.rangeAfter, List.mem_filter, Database.mem_eventsAfter db.effective, and_comm]
  refine and_congr_right fun _ => and_congr_right fun _ => ⟨?_, ?_⟩
  · rintro ⟨k, w, rfl, here, told⟩
    have inside : k < h.length := represents.length_eq ▸ (List.getElem?_eq_some_iff.mp here).1
    obtain ⟨w', here', implements⟩ := represents.getElem? (List.getElem?_eq_getElem inside)
    cases here.symm.trans here'
    exact ⟨k, _, w, rfl, List.getElem?_eq_getElem inside, here, implements, told⟩
  · rintro ⟨k, c, w, rfl, _, here, _, told⟩
    exact ⟨k, w, rfl, here, told⟩

/-- A watcher waits for one of the changes after its revision. -/
theorem Represents.exists_event (represents : Represents codec db.txns h) {rev : Nat}
    {p : Event String String → Prop} {q : Change → Prop}
    (told : ∀ s c w r, Implements codec s c w → q c →
      ∃ e ∈ eventsOf r s.pairs w, range e.key = true ∧ p e)
    (changed : ∃ c ∈ h.drop rev, q c) : ∃ re ∈ db.rangeAfter range rev, p re.2 := by
  obtain ⟨c, member, wanted⟩ := changed
  obtain ⟨i, dropped⟩ := List.mem_iff_getElem?.mp member
  rw [List.getElem?_drop] at dropped
  obtain ⟨w, here, implements⟩ := represents.getElem? dropped
  obtain ⟨e, event, inside, good⟩ := told _ c w (rev + i + 1) implements wanted
  exact ⟨(rev + i + 1, e), represents.mem_rangeAfter.mpr
    ⟨inside, by omega, _, c, w, rfl, dropped, here, implements, event⟩, good⟩

theorem Represents.exists_change (represents : Represents codec db.txns h) {rev : Nat}
    {p : Event String String → Prop} {q : Change → Prop}
    (told : ∀ s c w r, Implements codec s c w → ∀ e ∈ eventsOf r s.pairs w, range e.key = true →
      p e → q c) (event : ∃ re ∈ db.rangeAfter range rev, p re.2) : ∃ c ∈ h.drop rev, q c := by
  obtain ⟨⟨r, e⟩, member, wanted⟩ := event
  obtain ⟨inside, after, k, c, w, rfl, changed, _, implements, event⟩ := represents.mem_rangeAfter.mp member
  refine ⟨c, List.mem_iff_getElem?.mpr ⟨k - rev, ?_⟩, told _ c w _ implements e event inside wanted⟩
  rw [List.getElem?_drop, show rev + (k - rev) = k by omega, changed]

/-- Other programs tell a watcher nothing about the keys that are read. -/
theorem not_seen_of_other {s : Etcd} {w : List (Write String String)} {r : Nat}
    (implements : Implements codec s .other w) {e : Event String String}
    (event : e ∈ eventsOf r s.pairs w) : Seen e.key = false := by
  have quiet : Quiet Seen s.pairs w := implements
  have silent : (eventsOf r s.pairs w).filter (fun e => Seen e.key) = [] := quiet.eventsOf s.sorted
  simpa using List.filter_eq_nil_iff.mp silent e event

/-- Only `neco recover` deletes the request. -/
theorem Implements.deletes {s : Etcd} {c : Change} {w : List (Write String String)} {r : Nat}
    (implements : Implements codec s c w) {e : Event String String} (event : e ∈ eventsOf r s.pairs w)
    (key : e.key = keyCurrent) (deleted : e.put? = none) : c = .clearStatusAndContents := by
  rcases mem_eventsOf event with ⟨_, _, rfl, _⟩ | ⟨_, range, rfl, member, inside⟩
  · cases deleted
  rw [Event.key_delete] at key
  subst key
  cases c with
  | clearStatusAndContents => rfl
  | other => cases (not_seen_of_other implements event).symm.trans seen_keyCurrent
  | putReconfigureRequest req =>
    cases implements
    simp only [List.mem_cons, reduceCtorEq, Write.deleteRange.injEq, List.not_mem_nil, or_false,
      false_or] at member
    cases (member ▸ inside).symm.trans workers_keyCurrent
  | deleteBootServer lrn =>
    obtain ⟨_, rfl⟩ := implements
    simp only [deletion, List.mem_cons, Write.deleteRange.injEq, List.not_mem_nil, or_false]
      at member
    rcases member with rfl | rfl
    · exact absurd (of_decide_eq_true inside) (keyCurrent_ne_keyBootServer lrn)
    · cases inside.symm.trans (install_of_seen lrn seen_keyCurrent)
  | putRequest req => simp [show w = _ from implements] at member
  | putStatus lrn st o => simp [implements.2] at member
  | updateNecoRelease version => simp [show w = _ from implements] at member
  | registerBootserver lrn => simp [implements.2] at member

/-- The request is deleted when `neco recover` has cleared the store, and only then. -/
theorem Represents.deletion (represents : Represents codec db.txns h) (rev : Nat) :
    ((db.rangeAfter (· = keyCurrent) rev).any fun (_, e) => e.put?.isNone) = true ↔
      .clearStatusAndContents ∈ h.drop rev := by
  rw [List.any_eq_true]
  constructor
  · intro event
    obtain ⟨c, member, rfl⟩ := represents.exists_change (p := fun e => e.put?.isNone = true)
      (q := (· = .clearStatusAndContents)) (fun s c w r implements e event key deleted =>
        implements.deletes event (of_decide_eq_true key) (Option.isNone_iff_eq_none.mp deleted)) event
    exact member
  · intro member
    refine represents.exists_event (p := fun e => e.put?.isNone = true)
      (q := (· = .clearStatusAndContents)) ?_ ⟨_, member, rfl⟩
    rintro s _ w r implements rfl
    obtain ⟨present, rfl⟩ := implements
    obtain ⟨p, found⟩ := Option.isSome_iff_exists.mp present
    obtain ⟨here, key⟩ := KV.get_eq_some.mp found
    refine ⟨.delete keyCurrent, List.mem_append_left _ (List.mem_map.mpr ⟨p, ?_, ?_⟩), ?_, rfl⟩
    · rw [List.mem_filter, key]
      exact ⟨here, status_keyCurrent⟩
    · rw [key]
    · simp

/-- Changes below `info/` are told to its watchers. -/
theorem Implements.tellsInfo {s : Etcd} {c : Change} {w : List (Write String String)} (r : Nat)
    (implements : Implements codec s c w) (info : c.isInfo = true) :
    ∃ e ∈ eventsOf r s.pairs w, withPrefix keyInfoPrefix e.key = true := by
  cases c with
  | updateNecoRelease version =>
    cases implements
    exact ⟨.put keyNecoRelease version, List.mem_cons_self .., info_keyNecoRelease⟩
  | registerBootserver lrn =>
    obtain ⟨_, rfl⟩ := implements
    exact ⟨.put (keyBootServer lrn) "", List.mem_cons_self .., info_keyBootServer lrn⟩
  | deleteBootServer lrn =>
    obtain ⟨registered, rfl⟩ := implements
    obtain ⟨p, here, key⟩ := isRegistered_iff.mp registered
    refine ⟨.delete (keyBootServer lrn), List.mem_append_left _ (List.mem_map.mpr ⟨p, ?_, ?_⟩),
      info_keyBootServer lrn⟩
    · simpa using ⟨here, key⟩
    · rw [key]
  | putRequest _ => cases info
  | putReconfigureRequest _ => cases info
  | clearStatusAndContents => cases info
  | putStatus _ _ _ => cases info
  | other => cases info

/-- A key below `info/` is not below a prefix that begins with another letter. -/
theorem not_info {pre key : String} (letter : Char) (first : pre.toList[0]? = some letter)
    (other : letter ≠ 'i') (below : withPrefix pre key = true) :
    withPrefix keyInfoPrefix key = false := by
  rw [← Bool.not_eq_true]
  intro info
  have here := getElem?_of_withPrefix pre "" 0 first (by simpa using below)
  have there := getElem?_of_withPrefix keyInfoPrefix "" 0 rfl (by simpa using info)
  exact other (Option.some.inj (here.symm.trans there))

theorem Implements.below {s : Etcd} {c : Change} {w : List (Write String String)} {r : Nat}
    (implements : Implements codec s c w) (status : c.isStatus = true) {e : Event String String}
    (event : e ∈ eventsOf r s.pairs w) :
    withPrefix keyStatusPrefix e.key = true ∨ withPrefix keyContentsPrefix e.key = true := by
  rcases mem_eventsOf event with ⟨key, value, rfl, member⟩ | ⟨key, range, rfl, member, inside⟩
  · rw [Event.key_put]
    cases c with
    | putRequest req => simp_all [show w = _ from implements]
    | putReconfigureRequest req => simp_all [show w = _ from implements]
    | clearStatusAndContents => simp [implements.2] at member
    | putStatus lrn st o => simp_all [implements.2]
    | updateNecoRelease _ => cases status
    | registerBootserver _ => cases status
    | deleteBootServer _ => cases status
    | other => cases status
  · rw [Event.key_delete]
    cases c with
    | putRequest req => simp [show w = _ from implements] at member
    | putReconfigureRequest req =>
      simp only [show w = _ from implements, List.mem_cons, reduceCtorEq, Write.deleteRange.injEq,
        List.not_mem_nil, or_false, false_or] at member
      exact .inl (status_of_workers (member ▸ inside))
    | clearStatusAndContents =>
      simp only [implements.2, List.mem_cons, Write.deleteRange.injEq, List.not_mem_nil, or_false]
        at member
      rcases member with rfl | rfl
      · exact .inl inside
      · exact .inr inside
    | putStatus lrn st o => simp [implements.2] at member
    | updateNecoRelease _ => cases status
    | registerBootserver _ => cases status
    | deleteBootServer _ => cases status
    | other => cases status

theorem info_or_status (c : Change) : c.isInfo = true ∨ c.isStatus = true ∨ c = .other := by
  cases c <;> simp [Change.isInfo, Change.isStatus]

/-- There are events below `info/` when a server or the release has changed, or something else
there. -/
theorem Represents.info (represents : Represents codec db.txns h) (rev : Nat) :
    let told := !(db.rangeAfter (withPrefix keyInfoPrefix) rev).isEmpty
    ((h.drop rev).any Change.isInfo = true → told = true) ∧
      (told = true → ∃ c ∈ h.drop rev, c.isInfo = true ∨ c = .other) := by
  intro told
  have nonempty : told = true ↔ ∃ re ∈ db.rangeAfter (withPrefix keyInfoPrefix) rev, True := by
    simp only [told, Bool.not_eq_true', List.isEmpty_eq_false_iff_exists_mem, and_true]
  rw [nonempty, List.any_eq_true]
  constructor
  · refine represents.exists_event (p := fun _ => True) (q := fun c => c.isInfo = true) ?_
    intro s c w r implements info
    obtain ⟨e, event, inside⟩ := implements.tellsInfo r info
    exact ⟨e, event, inside, trivial⟩
  · refine represents.exists_change (p := fun _ => True) ?_
    intro s c w r implements e event info _
    rcases info_or_status c with isInfo | isStatus | other
    · exact .inl isInfo
    · rcases implements.below isStatus event with status | contents
      · cases info.symm.trans (not_info 's' rfl (by decide) status)
      · cases info.symm.trans (not_info 'c' rfl (by decide) contents)
    · exact .inr other

theorem Represents.isInt (represents : Represents codec db.txns h) {lrn : Int} {st : UpdateStatus}
    {o : Nat} (member : .putStatus lrn st o ∈ h) : IsInt lrn := by
  obtain ⟨k, changed⟩ := List.mem_iff_getElem?.mp member
  obtain ⟨_, _, int, _⟩ := represents.getElem? changed
  exact int

theorem decodeStatus_keyStatus {lrn : Int} (int : IsInt lrn) (st : UpdateStatus) :
    decodeStatus codec (keyStatus lrn) (codec.marshalStatus st) = some (lrn, st) := by
  simp [decodeStatus, keyStatus, lrnOfKey_append int, codec.status]

/-- The watchers of `storage` that ask for `rev + 1` and what follows are told what the model's
watchers are told. -/
structure Told (codec : Codec) (db : Db) (h : List Change) (rev : Nat) : Prop where
  status : statusWatcher codec db rev = .ok (tellAfter (fun c => (noticeOf c).map some) rev h)
  worker : workerWatcher codec db rev = .ok (tellAfter (fun c => (statusOf c).map some) rev h)
  request : waitRequest codec db rev = .ok (tellAfter (fun c => c.request?.map some) rev h).head?
  deletion : waitRequestDeletion db rev = .ok (decide (.clearStatusAndContents ∈ h.drop rev))
  info : ∃ told, waitInfo db rev = .ok told ∧ ((h.drop rev).any Change.isInfo = true → told = true) ∧
    (told = true → ∃ c ∈ h.drop rev, c.isInfo = true ∨ c = .other)

/-- The watchers of `storage` that ask for `rev + 1` are told that it has been compacted. -/
structure Lost (codec : Codec) (db : Db) (rev : Nat) : Prop where
  status : statusWatcher codec db rev = .error (.read .compacted)
  worker : workerWatcher codec db rev = .error (.read .compacted)
  request : waitRequest codec db rev = .error (.read .compacted)
  deletion : waitRequestDeletion db rev = .error (.read .compacted)
  info : waitInfo db rev = .error (.read .compacted)

theorem tellAfter_map {α β : Type} (f : Change → Option α) (g : α → β) (rev : Nat)
    (h : List Change) : (tellAfter f rev h).map (fun told => (told.1, g told.2)) =
      tellAfter (fun c => (f c).map g) rev h := by
  rw [tellAfter, List.map_filterMap, tellAfter]
  refine List.filterMap_congr fun (c, r) _ => ?_
  by_cases after : rev < r <;> simp [after, Function.comp_def]

/-- A watcher that decodes what is put is told what `f` says of the changes. -/
theorem Represents.told {α : Type} (represents : Represents codec db.txns h)
    (covered : ∀ key, range key = true → Seen key = true) (rev : Nat)
    (decode : String → String → α) (f : Change → Option α)
    (decoded : ∀ c ∈ h, ((putOf codec c).filter fun put => range put.1).map
      (fun put => decode put.1 put.2) = f c) :
    (Storage.puts (db.rangeAfter range rev)).map (fun (r, key, value) => (r, decode key value)) =
      tellAfter f rev h := by
  rw [represents.puts covered, ← tellAfter_congr rev decoded]
  exact tellAfter_map _ (fun put : String × String => decode put.1 put.2) rev h

theorem watch_kept {rev : Nat} (kept : db.compacted ≤ rev + 1) :
    watch db range rev = .ok (db.rangeAfter range rev) := by
  rw [watch, Database.watch, if_neg (Nat.not_lt.mpr kept)]
  rfl

theorem watch_lost {rev : Nat} (lost : rev + 1 < db.compacted) :
    watch db range rev = .error (.read .compacted) := by
  rw [watch, Database.watch, if_pos lost]
  rfl

theorem Represents.watches (represents : Represents codec db.txns h) {rev : Nat}
    (kept : db.compacted ≤ rev + 1) : Told codec db h rev where
  status := by
    rw [statusWatcher, watch_kept kept]
    refine congrArg Except.ok (represents.told (fun key status => by simp [Seen, status]) rev
      (dispatch codec) _ ?_)
    intro c member
    cases c with
    | putRequest req => simp [putOf, noticeOf, Option.filter, dispatch, codec.request]
    | putReconfigureRequest req => simp [putOf, noticeOf, Option.filter, dispatch, codec.request]
    | putStatus lrn st o =>
      simp [putOf, noticeOf, Option.filter, dispatch, decodeStatus_keyStatus (represents.isInt member)]
    | updateNecoRelease version => simp [putOf, noticeOf, Option.filter]
    | registerBootserver lrn => simp [putOf, noticeOf, Option.filter]
    | clearStatusAndContents => rfl
    | deleteBootServer lrn => rfl
    | other => rfl
  worker := by
    rw [workerWatcher, watch_kept kept]
    refine congrArg Except.ok (represents.told (fun key => seen_of_workers) rev
      (decodeStatus codec) _ ?_)
    intro c member
    cases c with
    | putRequest req => simp [putOf, statusOf, Option.filter]
    | putReconfigureRequest req => simp [putOf, statusOf, Option.filter]
    | putStatus lrn st o =>
      simp [putOf, statusOf, Option.filter, decodeStatus_keyStatus (represents.isInt member)]
    | updateNecoRelease version => simp [putOf, statusOf, Option.filter]
    | registerBootserver lrn => simp [putOf, statusOf, Option.filter]
    | clearStatusAndContents => rfl
    | deleteBootServer lrn => rfl
    | other => rfl
  request := by
    rw [waitRequest, watch_kept kept]
    refine congrArg Except.ok ((List.head?_map ..).symm.trans ?_)
    have covered : ∀ key, decide (key = keyCurrent) = true → Seen key = true := by simp
    refine congrArg List.head? (represents.told covered rev
      (fun _ value => codec.unmarshalRequest value) _ ?_)
    intro c member
    cases c with
    | putRequest req => simp [putOf, Change.request?, Option.filter, codec.request]
    | putReconfigureRequest req => simp [putOf, Change.request?, Option.filter, codec.request]
    | putStatus lrn st o => simp [putOf, Change.request?, Option.filter]
    | updateNecoRelease version => simp [putOf, Change.request?, Option.filter]
    | registerBootserver lrn => simp [putOf, Change.request?, Option.filter]
    | clearStatusAndContents => rfl
    | deleteBootServer lrn => rfl
    | other => rfl
  deletion := by
    rw [waitRequestDeletion, watch_kept kept]
    exact congrArg Except.ok (Bool.eq_iff_iff.mpr ((represents.deletion rev).trans
      decide_eq_true_iff.symm))
  info := by
    rw [waitInfo, watch_kept kept]
    exact ⟨_, rfl, represents.info rev⟩

theorem lost_of_compacted {rev : Nat} (lost : rev + 1 < db.compacted) : Lost codec db rev := by
  constructor
  · rw [statusWatcher, watch_lost lost]; rfl
  · rw [workerWatcher, watch_lost lost]; rfl
  · rw [waitRequest, watch_lost lost]; rfl
  · rw [waitRequestDeletion, watch_lost lost]; rfl
  · rw [waitInfo, watch_lost lost]; rfl

end Watch

/-- After any operations, compactions among them, a watcher that asks for a revision that is still
there is told every request and every status since, with their revisions and in their order, and
nothing else; `WaitRequestDeletion` and `WaitInfo` return for the changes that they wait for. When
the revision has been compacted, each of them fails. -/
theorem storage_watches (codec : Codec) (db : Db) (h : List Change) (runs : Runs codec db h)
    (rev : Nat) : (db.compacted ≤ rev + 1 → Told codec db h rev) ∧
      (rev + 1 < db.compacted → Lost codec db rev) :=
  ⟨runs.represents.watches, lost_of_compacted⟩

/-- After the third transaction has been compacted, watchers can begin with it and not before. -/
theorem storage_watches_compacted :
    let (db, h) := performed jsonCodec (someOps ++ [.compact 3])
    Runs jsonCodec db h ∧ db.compacted = 3 ∧ Told jsonCodec db h 2 ∧ Lost jsonCodec db 1 := by
  have runs : Runs jsonCodec (performed jsonCodec (someOps ++ [.compact 3])).1
      (performed jsonCodec (someOps ++ [.compact 3])).2 := by
    rw [performed, List.foldl_append]
    exact .step (.compact 3) runs_someOps trivial
  have compacted : (performed jsonCodec (someOps ++ [.compact 3])).1.compacted = 3 := by
    decide +kernel
  exact ⟨runs, compacted, (storage_watches _ _ _ runs 2).1 (by omega),
    (storage_watches _ _ _ runs 1).2 (by omega)⟩

end Neco.Storage
