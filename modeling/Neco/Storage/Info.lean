import Neco.Storage.Keys
import Mathlib.Data.List.Induction

/-!
# Boot servers in etcd

How boot servers are registered and unregistered, the list of them that `NewSnapshot` builds,
and what a server has installed. The list of the history model is the one that `NewSnapshot`
builds from the keys.
-/

namespace Neco

open KeyValue

/-- `ErrNotFound` and `ErrNoLeader`. -/
inductive StorageError where
  | notFound
  | noLeader
  deriving DecidableEq, Repr

/-- The transaction of `RegisterBootserver`. -/
def registration (lrn : Int) : List (Write String String) := [.put (keyBootServer lrn) ""]

def registerBootserver (kv : Etcd) (lrn : Int) : Etcd := kv.commit (registration lrn)

/-- The transaction of `DeleteBootServer` deletes the registration and what the server has
installed. -/
def deletion (lrn : Int) : List (Write String String) :=
  [.deleteRange fun key => key = keyBootServer lrn,
    .deleteRange fun key => hasPrefix key (keyInstall lrn)]

/-- `DeleteBootServer`: only after the transaction the answer tells whether there was a
registration. -/
def deleteBootServer (kv : Etcd) (lrn : Int) : Except StorageError Unit × Etcd :=
  let next := kv.commit (deletion lrn)
  let deleted := (kv.getRange fun key => key = keyBootServer lrn).length
  (if deleted = 0 then .error .notFound else .ok (), next)

/-- `RecordContainerTag`; `findContainerImage` looks up the tag of an image among the current
artifacts. -/
def recordContainerTag (findContainerImage : String → Option String) (kv : Etcd) (lrn : Int)
    (name : String) : Option Etcd :=
  (findContainerImage name).map fun tag => kv.put (keyContainer lrn name) tag

/-- The value of a key, as `GetContainerTag` and `GetDebVersion` return it. -/
def getInstalled (kv : Etcd) (key : String) : Except StorageError String :=
  match kv.get key with
  | some p => .ok p.value
  | none => .error .notFound

def getContainerTag (kv : Etcd) (lrn : Int) (name : String) : Except StorageError String :=
  getInstalled kv (keyContainer lrn name)

def getDebVersion (kv : Etcd) (lrn : Int) (name : String) : Except StorageError String :=
  getInstalled kv (keyDeb lrn name)

/-- The list of boot servers that `NewSnapshot` builds; it fails on a key without a number. -/
def snapshotServers (kv : Etcd) : Option (List Int) :=
  (kv.getRange fun key => hasPrefix key keyBootserversPrefix).mapM fun p =>
    lrnOfKey keyBootserversPrefix p.key

/-! ### The list of boot servers -/

/-- The order of the keys of boot servers. -/
abbrev KeyOrdered (lrns : List Int) : Prop :=
  lrns.Pairwise fun a b => keyBootServer a < keyBootServer b

/-- An ordered list is determined by its members. -/
theorem KeyOrdered.eq_of_mem_iff {l l' : List Int} (ordered : KeyOrdered l)
    (ordered' : KeyOrdered l') (same : ∀ lrn, lrn ∈ l ↔ lrn ∈ l') : l = l' :=
  Ordered.eq_of_mem_iff ordered ordered' same

theorem KeyOrdered.nodup {l : List Int} (ordered : KeyOrdered l) : l.Nodup :=
  ordered.imp fun less same => less.ne (congrArg keyBootServer same)

def IsRegistered (kv : Etcd) (lrn : Int) : Prop := (kv.get (keyBootServer lrn)).isSome

instance (kv : Etcd) (lrn : Int) : Decidable (IsRegistered kv lrn) :=
  inferInstanceAs (Decidable (_ = true))

/-- The keys of boot servers are all written by `RegisterBootserver`. -/
def Registry (kv : Etcd) : Prop :=
  ∀ p ∈ kv.pairs, hasPrefix p.key keyBootserversPrefix = true →
    ∃ lrn, IsInt lrn ∧ p.key = keyBootServer lrn

theorem isRegistered_iff {kv : Etcd} {lrn : Int} :
    IsRegistered kv lrn ↔ ∃ p ∈ kv.pairs, p.key = keyBootServer lrn := by
  simp [IsRegistered, Option.isSome_iff_exists, KV.get_eq_some]

theorem lrnOfKey_keyBootServer {lrn : Int} (int : IsInt lrn) :
    lrnOfKey keyBootserversPrefix (keyBootServer lrn) = some lrn := lrnOfKey_append int

/-- The keys of registered servers give a list in their order. -/
theorem mapM_lrnOfKey {l : List (Pair String String)} (sorted : Sorted l)
    (keys : ∀ p ∈ l, ∃ lrn, IsInt lrn ∧ p.key = keyBootServer lrn) :
    ∃ lrns, (l.mapM fun p => lrnOfKey keyBootserversPrefix p.key) = some lrns ∧
      KeyOrdered lrns ∧ ∀ lrn, lrn ∈ lrns ↔ ∃ p ∈ l, p.key = keyBootServer lrn := by
  induction l with
  | nil => exact ⟨[], rfl, .nil, by simp⟩
  | cons p rest ih =>
    obtain ⟨first, sortedRest⟩ := List.pairwise_cons.mp sorted
    obtain ⟨lrn, int, key⟩ := keys p (List.mem_cons_self ..)
    obtain ⟨lrns, built, ordered, members⟩ := ih sortedRest fun q member =>
      keys q (List.mem_cons_of_mem p member)
    refine ⟨lrn :: lrns, ?_, List.pairwise_cons.mpr ⟨fun i member => ?_, ordered⟩, fun i => ?_⟩
    · simp [List.mapM_cons, key, lrnOfKey_keyBootServer int, built]
    · obtain ⟨q, later, keyQ⟩ := (members i).mp member
      exact key ▸ keyQ ▸ first q later
    · rw [List.mem_cons, members, List.exists_mem_cons_iff, key, keyBootServer_injective.eq_iff]
      exact or_congr_left eq_comm

/-- `NewSnapshot` builds the list of the registered servers in the order of their keys. -/
theorem snapshotServers_registry {kv : Etcd} (registry : Registry kv) :
    ∃ servers, snapshotServers kv = some servers ∧ KeyOrdered servers ∧
      ∀ lrn, lrn ∈ servers ↔ IsRegistered kv lrn := by
  have keys (p : Pair String String)
      (member : p ∈ kv.getRange fun key => hasPrefix key keyBootserversPrefix) :
      ∃ lrn, IsInt lrn ∧ p.key = keyBootServer lrn :=
    registry p (KV.mem_getRange.mp member).1 (KV.mem_getRange.mp member).2
  obtain ⟨servers, built, ordered, members⟩ := mapM_lrnOfKey (kv.sorted_getRange _) keys
  refine ⟨servers, built, ordered, fun lrn => ?_⟩
  rw [members, isRegistered_iff]
  constructor
  · rintro ⟨p, member, key⟩
    exact ⟨p, (KV.mem_getRange.mp member).1, key⟩
  · rintro ⟨p, member, key⟩
    exact ⟨p, KV.mem_getRange.mpr ⟨member, key ▸ hasPrefix_append ..⟩, key⟩

/-! ### The keys of a history -/

/-- What a transaction of the history model does to the keys of boot servers. -/
def applyKeys (kv : Etcd) (_rev : Nat) : Change → Etcd
  | .registerBootserver lrn => registerBootserver kv lrn
  | .deleteBootServer lrn => (deleteBootServer kv lrn).2
  | _ => kv

/-- The registrations after the transactions `h`. -/
def infoKeys (h : List Change) : Etcd := History.replay applyKeys .empty h

/-- LRNs are of type `int`. -/
def Change.IntLrn : Change → Prop
  | .registerBootserver lrn => IsInt lrn
  | _ => True

theorem bootservers_apply (s : Store) (rev : Nat) (c : Change) :
    (s.apply rev c).bootservers =
      match c with
      | .registerBootserver lrn =>
        if lrn ∈ s.bootservers then s.bootservers
        else s.bootservers.orderedInsert (fun a b => keyBootServer a ≤ keyBootServer b) lrn
      | .deleteBootServer lrn => s.bootservers.erase lrn
      | _ => s.bootservers := by
  cases c with
  | registerBootserver lrn =>
    simp only [Store.apply]
    split <;> rfl
  | _ => rfl

/-- The servers of the history model are in the order of their keys. -/
theorem bootservers_ordered (h : List Change) : KeyOrdered (store h).bootservers := by
  induction h using List.reverseRecOn with
  | nil => exact .nil
  | append_singleton h c ih =>
    rw [store_concat, bootservers_apply]
    split
    next lrn =>
      split
      · exact ih
      next new =>
        -- The insertion keeps the weak order, and the new key is not among the old ones.
        have total : Std.Total fun a b => keyBootServer a ≤ keyBootServer b :=
          ⟨fun a b => le_total (keyBootServer a) (keyBootServer b)⟩
        have trans : IsTrans Int fun a b => keyBootServer a ≤ keyBootServer b :=
          ⟨fun _ _ _ => le_trans⟩
        have weak : (store h).bootservers.Pairwise fun a b => keyBootServer a ≤ keyBootServer b :=
          ih.imp fun less => less.le
        have nodup := (List.perm_orderedInsert (fun a b => keyBootServer a ≤ keyBootServer b) lrn
          (store h).bootservers).nodup_iff.mpr (List.nodup_cons.mpr ⟨new, ih.nodup⟩)
        exact ((weak.orderedInsert lrn).and nodup).imp fun both =>
          lt_of_le_of_ne both.1 (keyBootServer_injective.ne both.2)
    · exact ih.sublist (List.erase_sublist ..)
    · exact ih

theorem get_deleteBootServer (kv : Etcd) (lrn : Int) (key : String) :
    (deleteBootServer kv lrn).2.get key =
      if key = keyBootServer lrn ∨ hasPrefix key (keyInstall lrn) = true then none
      else kv.get key := by
  simp only [deleteBootServer, deletion, KV.get_commit, List.foldl_cons, List.foldl_nil, Write.at]
  by_cases installed : hasPrefix key (keyInstall lrn) = true
  · simp [installed]
  · simp [installed]

/-- The range of what is installed holds no registrations. -/
theorem keyInstall_keyBootServer (lrn lrn' : Int) :
    hasPrefix (keyBootServer lrn') (keyInstall lrn) = false := by
  rw [← Bool.not_eq_true, hasPrefix_iff]
  rintro ⟨rest, same⟩
  rw [keyInstall, keyBootServer_eq, String.toList_append, String.toList_append] at same
  -- The third letters of the two prefixes differ.
  have third : some 's' = some 'f' := congrArg (·[2]?) same
  cases third

theorem isRegistered_deleteBootServer (kv : Etcd) (lrn lrn' : Int) :
    IsRegistered (deleteBootServer kv lrn).2 lrn' ↔ lrn' ≠ lrn ∧ IsRegistered kv lrn' := by
  rw [IsRegistered, get_deleteBootServer, keyInstall_keyBootServer]
  by_cases same : lrn' = lrn
  · simp [same]
  · simp [same, keyBootServer_injective.eq_iff, IsRegistered]

theorem isRegistered_registerBootserver (kv : Etcd) (lrn lrn' : Int) :
    IsRegistered (registerBootserver kv lrn) lrn' ↔ lrn' = lrn ∨ IsRegistered kv lrn' := by
  rw [IsRegistered, registerBootserver, registration, ← KV.put, KV.get_put]
  by_cases same : lrn' = lrn
  · simp [same]
  · simp [same, keyBootServer_injective.eq_iff, IsRegistered]

/-- The servers of the history model are those registered in etcd. -/
theorem mem_bootservers_iff (h : List Change) (lrn : Int) :
    lrn ∈ (store h).bootservers ↔ IsRegistered (infoKeys h) lrn := by
  induction h using List.reverseRecOn with
  | nil => simp [Store.empty, infoKeys, IsRegistered]
  | append_singleton h c ih =>
    rw [store_concat, bootservers_apply, infoKeys, History.replay_concat]
    cases c with
    | registerBootserver i =>
      rw [applyKeys, isRegistered_registerBootserver, ← infoKeys, ← ih]
      dsimp only
      split
      next old => exact ⟨.inr, fun here => here.elim (· ▸ old) id⟩
      · exact List.mem_orderedInsert ..
    | deleteBootServer i =>
      rw [applyKeys, isRegistered_deleteBootServer, ← infoKeys, ← ih]
      exact (bootservers_ordered h).nodup.mem_erase_iff
    | _ => exact ih

theorem mem_bootservers_registered (lrns : List Int) (lrn : Int) :
    lrn ∈ (store (lrns.map .registerBootserver)).bootservers ↔ lrn ∈ lrns := by
  induction lrns using List.reverseRecOn with
  | nil => simp [Store.empty]
  | append_singleton lrns i ih =>
    rw [mem_bootservers_iff] at ih ⊢
    rw [List.map_append, List.map_singleton, infoKeys, History.replay_concat, ← infoKeys, applyKeys,
      isRegistered_registerBootserver, ih, List.mem_append, List.mem_singleton, or_comm]

theorem registry_infoKeys (h : List Change) (ints : ∀ c ∈ h, c.IntLrn) : Registry (infoKeys h) := by
  induction h using List.reverseRecOn with
  | nil => exact fun p member => nomatch member
  | append_singleton h c ih =>
    have before := ih fun d member => ints d (List.mem_append_left _ member)
    have int := ints c (List.mem_append_right _ (List.mem_singleton_self c))
    rw [infoKeys, History.replay_concat]
    cases c with
    | registerBootserver lrn =>
      intro p member inRange
      rcases KV.mem_put.mp member with rfl | ⟨old, _⟩
      · exact ⟨lrn, int, rfl⟩
      · exact before p old inRange
    | deleteBootServer lrn =>
      intro p member
      rw [KV.mem_pairs_iff, applyKeys, get_deleteBootServer] at member
      split at member
      · cases member
      · exact before p (KV.mem_pairs_iff.mpr member)
    | _ => exact before

end Neco
