import Neco.Storage.Info

/-!
# Unregistering a boot server

`DeleteBootServer` deletes the range of all keys that begin with `install/<LRN>`. The LRN of
another server may continue that prefix, and the range is deleted also when the server was not
registered. What it deletes is right exactly when the store holds no such keys.
-/

namespace Neco

open KeyValue

/-- `DeleteBootServer` deletes the registration of `lrn` and the records of its containers and
packages and nothing else, the other servers keep theirs, and `ErrNotFound` means that the store
is unchanged. -/
structure TouchesOnly (kv : Etcd) (lrn : Int) : Prop where
  deleted : ∀ key, (deleteBootServer kv lrn).2.get key =
    if key = keyBootServer lrn ∨ hasPrefix key (keyContainer lrn "") = true ∨
      hasPrefix key (keyDeb lrn "") = true then none else kv.get key
  registration : ∀ other, other ≠ lrn →
    (IsRegistered (deleteBootServer kv lrn).2 other ↔ IsRegistered kv other)
  containers : ∀ other name, other ≠ lrn →
    getContainerTag (deleteBootServer kv lrn).2 other name = getContainerTag kv other name
  debs : ∀ other name, other ≠ lrn →
    getDebVersion (deleteBootServer kv lrn).2 other name = getDebVersion kv other name
  notFound : (deleteBootServer kv lrn).1 = .error .notFound → (deleteBootServer kv lrn).2 = kv

/-- The keys with the prefix `install/<LRN>` are records of the server itself, and there are
none when it is not registered. -/
structure OwnKeys (kv : Etcd) (lrn : Int) : Prop where
  own : ∀ p ∈ kv.pairs, hasPrefix p.key (keyInstall lrn) = true →
    hasPrefix p.key (keyContainer lrn "") = true ∨ hasPrefix p.key (keyDeb lrn "") = true
  unregistered : ¬IsRegistered kv lrn → ∀ p ∈ kv.pairs, hasPrefix p.key (keyInstall lrn) = false

/-! ### The keys of different servers -/

/-- A number ends at the first slash. -/
theorem takeWhile_itoa (lrn : Int) (rest : List Char) :
    ((itoa lrn).toList ++ '/' :: rest).takeWhile (· ≠ '/') = (itoa lrn).toList := by
  rw [List.takeWhile_append_of_pos]
  · simp
  · intro c member
    have other : c ≠ '/' := fun same => slash_not_mem_itoa lrn (same ▸ member)
    simpa using other

/-- The directory of one server holds no key of another. -/
theorem lrn_eq_of_hasPrefix {a b : Int} {s t : String}
    (inside : hasPrefix (keyInstallPrefix ++ itoa a ++ ("/" ++ s))
      (keyInstallPrefix ++ itoa b ++ ("/" ++ t)) = true) : a = b := by
  rw [hasPrefix_iff] at inside
  obtain ⟨rest, same⟩ := inside
  simp only [String.toList_append, List.append_assoc, List.append_cancel_left_eq] at same
  have firsts := congrArg (List.takeWhile (· ≠ '/')) same
  rw [show "/".toList = ['/'] from rfl, List.cons_append, List.cons_append, takeWhile_itoa,
    takeWhile_itoa] at firsts
  exact (itoa_injective (String.toList_inj.mp firsts)).symm

theorem keyContainer_eq (lrn : Int) (name : String) :
    keyContainer lrn name = keyInstallPrefix ++ itoa lrn ++ ("/" ++ ("containers/" ++ name)) := by
  rw [keyContainer, show "/containers/" = "/" ++ "containers/" from rfl]
  simp only [String.append_assoc]

theorem keyDeb_eq (lrn : Int) (name : String) :
    keyDeb lrn name = keyInstallPrefix ++ itoa lrn ++ ("/" ++ ("debs/" ++ name)) := by
  rw [keyDeb, show "/debs/" = "/" ++ "debs/" from rfl]
  simp only [String.append_assoc]

/-! ### What `DeleteBootServer` answers -/

theorem deleteBootServer_answer (kv : Etcd) (lrn : Int) :
    (deleteBootServer kv lrn).1 = if IsRegistered kv lrn then .ok () else .error .notFound := by
  have none_iff : (kv.getRange fun key => key = keyBootServer lrn).length = 0 ↔
      ¬IsRegistered kv lrn := by
    rw [List.length_eq_zero_iff, isRegistered_iff, List.eq_nil_iff_forall_not_mem]
    simp [KV.mem_getRange]
  by_cases here : IsRegistered kv lrn
  · simp [deleteBootServer, none_iff, here]
  · simp [deleteBootServer, none_iff, here]

/-- The directories of a server are in the range that is deleted. -/
theorem hasPrefix_keyInstall {lrn : Int} {key : String}
    (inside : hasPrefix key (keyContainer lrn "") = true ∨ hasPrefix key (keyDeb lrn "") = true) :
    hasPrefix key (keyInstall lrn) = true := by
  simp only [hasPrefix_iff, keyContainer_eq, keyDeb_eq] at inside ⊢
  rw [keyInstall]
  have shorter (rest : String) :
      (keyInstallPrefix ++ itoa lrn).toList <+: (keyInstallPrefix ++ itoa lrn ++ rest).toList := by
    rw [String.toList_append (s := keyInstallPrefix ++ itoa lrn)]
    exact List.prefix_append ..
  exact inside.elim (shorter _).trans (shorter _).trans

/-- `DeleteBootServer` deletes the right keys exactly if the range holds only the records of the
server itself. -/
theorem deleted_iff (kv : Etcd) (lrn : Int) :
    (∀ key, (deleteBootServer kv lrn).2.get key =
      if key = keyBootServer lrn ∨ hasPrefix key (keyContainer lrn "") = true ∨
        hasPrefix key (keyDeb lrn "") = true then none else kv.get key) ↔
    ∀ p ∈ kv.pairs, hasPrefix p.key (keyInstall lrn) = true →
      hasPrefix p.key (keyContainer lrn "") = true ∨ hasPrefix p.key (keyDeb lrn "") = true := by
  constructor
  · intro right p member inRange
    have gone := right p.key
    rw [get_deleteBootServer, if_pos (.inr inRange), KV.mem_pairs_iff.mp member] at gone
    split at gone
    next intended =>
      refine intended.resolve_left fun registration => ?_
      rw [registration, keyInstall_keyBootServer] at inRange
      cases inRange
    · cases gone
  · intro own key
    rw [get_deleteBootServer]
    by_cases intended : key = keyBootServer lrn ∨ hasPrefix key (keyContainer lrn "") = true ∨
        hasPrefix key (keyDeb lrn "") = true
    · rw [if_pos intended, if_pos (intended.imp_right hasPrefix_keyInstall)]
    · rw [if_neg intended]
      split
      next inRange =>
        -- Nothing in the range has this key.
        symm
        rw [KV.get_eq_none]
        rintro p member rfl
        exact intended (.inr (own p member (inRange.resolve_left fun same => intended (.inl same))))
      · rfl

/-- What is deleted is right for the other servers. -/
theorem installed_kept {kv : Etcd} {lrn other : Int} (different : other ≠ lrn) {s : String}
    (right : ∀ key, (deleteBootServer kv lrn).2.get key =
      if key = keyBootServer lrn ∨ hasPrefix key (keyContainer lrn "") = true ∨
        hasPrefix key (keyDeb lrn "") = true then none else kv.get key) :
    getInstalled (deleteBootServer kv lrn).2 (keyInstallPrefix ++ itoa other ++ ("/" ++ s)) =
      getInstalled kv (keyInstallPrefix ++ itoa other ++ ("/" ++ s)) := by
  rw [getInstalled, right, if_neg, getInstalled]
  rintro (registration | inside | inside)
  · have inRange := hasPrefix_append (keyInstall other) ("/" ++ s)
    rw [keyInstall, registration] at inRange
    exact absurd inRange (Bool.eq_false_iff.mp (keyInstall_keyBootServer other lrn))
  · rw [keyContainer_eq] at inside
    exact different (lrn_eq_of_hasPrefix inside)
  · rw [keyDeb_eq] at inside
    exact different (lrn_eq_of_hasPrefix inside)

/-- **Unregistering a boot server touches only that server** exactly if the keys that begin with
`install/<LRN>` are its own records, and there are none when it is not registered. -/
theorem delete_touches_only_iff (kv : Etcd) (lrn : Int) : TouchesOnly kv lrn ↔ OwnKeys kv lrn := by
  constructor
  · intro touches
    refine ⟨(deleted_iff kv lrn).mp touches.deleted, fun absent p member => ?_⟩
    have same := touches.notFound (by rw [deleteBootServer_answer, if_neg absent])
    rw [← Bool.not_eq_true]
    intro inRange
    have gone := get_deleteBootServer kv lrn p.key
    rw [same, KV.mem_pairs_iff.mp member, if_pos (.inr inRange)] at gone
    cases gone
  · intro own
    have right := (deleted_iff kv lrn).mpr own.own
    refine ⟨right, fun other different => ?_, fun other name different => ?_,
      fun other name different => ?_, fun notFound => ?_⟩
    · rw [isRegistered_deleteBootServer, and_iff_right different]
    · rw [getContainerTag, getContainerTag, keyContainer_eq]
      exact installed_kept different right
    · rw [getDebVersion, getDebVersion, keyDeb_eq]
      exact installed_kept different right
    · rw [deleteBootServer_answer] at notFound
      split at notFound
      · cases notFound
      next absent =>
        refine KV.commit_unchanged ?_
        have none : ∀ p ∈ kv.pairs, p.key ≠ keyBootServer lrn := by
          simpa [isRegistered_iff] using absent
        have install := own.unregistered absent
        simp only [deletion, List.any_cons, List.any_nil, Write.changes, Bool.or_false, Bool.or_eq_false_iff,
          List.any_eq_false]
        exact ⟨fun p member => by simpa using none p member, fun p member => by
          simpa using install p member⟩

/-- Servers 1 and 10 are registered and have installed etcd; server 2 has left, but what it had
installed is still recorded. -/
def twoServers : Etcd :=
  (((registerBootserver (registerBootserver .empty 1) 10).put (keyContainer 1 "etcd") "3.5.9.1").put
    (keyContainer 10 "etcd") "3.5.9.1").put (keyDeb 2 "etcdpasswd") "1.4.0"

/-- Unregistering server 1 deletes what server 10 has installed, and unregistering server 2
deletes keys although it returns `ErrNotFound`. -/
theorem delete_touches_others :
    (¬TouchesOnly twoServers 1 ∧ getContainerTag twoServers 10 "etcd" = .ok "3.5.9.1" ∧
      getContainerTag (deleteBootServer twoServers 1).2 10 "etcd" = .error .notFound) ∧
    (¬TouchesOnly twoServers 2 ∧ (deleteBootServer twoServers 2).1 = .error .notFound ∧
      getDebVersion twoServers 2 "etcdpasswd" = .ok "1.4.0" ∧
      getDebVersion (deleteBootServer twoServers 2).2 2 "etcdpasswd" = .error .notFound) := by
  have had : getContainerTag twoServers 10 "etcd" = .ok "3.5.9.1" := by decide +kernel
  have lost : getContainerTag (deleteBootServer twoServers 1).2 10 "etcd" = .error .notFound := by
    decide +kernel
  have answer : (deleteBootServer twoServers 2).1 = .error .notFound := by decide +kernel
  have had' : getDebVersion twoServers 2 "etcdpasswd" = .ok "1.4.0" := by decide +kernel
  have lost' : getDebVersion (deleteBootServer twoServers 2).2 2 "etcdpasswd" = .error .notFound := by
    decide +kernel
  refine ⟨⟨fun touches => ?_, had, lost⟩, fun touches => ?_, answer, had', lost'⟩
  · cases (lost.symm.trans (touches.containers 10 "etcd" (by decide))).trans had
  · rw [touches.notFound answer, had'] at lost'
    cases lost'

end Neco
