import Neco.Storage.Info
import Neco.Worker.Etcd

/-!
# etcd restarts are staggered

A binary search needs the numeric order, but the servers of a request are in the order of
their keys. The positions that the servers find themselves at are all different exactly when
the two orders agree.
-/

namespace Neco.Restart

/-- The restarts of the boot servers `servers`: their positions are 0 to n-1, they wait for
different times, and one of them removes the members that have left, the others none. -/
structure Staggered (servers : List Int) : Prop where
  positions : Set.BijOn (searchInts servers) {lrn | lrn ∈ servers} (Set.Iio servers.length)
  delays : ∀ a ∈ servers, ∀ b ∈ servers, a ≠ b →
    restartDelay (searchInts servers a) ≠ restartDelay (searchInts servers b)
  cleanup : servers ≠ [] → ∃ first ∈ servers, ∀ req members, req.servers = servers →
    removed members (restart req first) = (members.filter (·.hasLeft servers)).map (·.id) ∧
      ∀ lrn ∈ servers, lrn ≠ first → removed members (restart req lrn) = []

/-- Different positions give different delays. -/
theorem restartDelay_injective : Function.Injective restartDelay := by
  intro i j same
  simp only [restartDelay, etcdRestartTimeout] at same
  omega

/-- Everything rests on the positions. -/
theorem staggered_iff_positions (servers : List Int) : Staggered servers ↔
    Set.BijOn (searchInts servers) {lrn | lrn ∈ servers} (Set.Iio servers.length) := by
  refine ⟨Staggered.positions, fun positions => ⟨positions, ?_, ?_⟩⟩
  · intro a memberA b memberB different same
    exact different (positions.injOn memberA memberB (restartDelay_injective same))
  · intro some
    obtain ⟨first, member, zero⟩ := positions.surjOn (List.length_pos_iff.mpr some)
    refine ⟨first, member, fun req members same => ⟨?_, fun lrn memberLrn other => ?_⟩⟩
    · rw [restart, removed_restartEtcd, same, zero, if_pos rfl]
    · rw [restart, removed_restartEtcd, same, if_neg]
      exact fun zero' => other (positions.injOn memberLrn member (zero'.trans zero.symm))

/-- The positions of a list without repetitions are 0 to n-1 exactly if it is sorted. -/
theorem positions_iff_sorted (servers : List Int) :
    Set.BijOn (searchInts servers) {lrn | lrn ∈ servers} (Set.Iio servers.length) ↔
      servers.Pairwise (· < ·) := by
  constructor
  · intro positions
    rw [← BinarySearch.onto_iff_sorted]
    exact fun k bound => positions.surjOn bound
  · intro sorted
    have found {k : Nat} (bound : k < servers.length) : searchInts servers servers[k] = k :=
      BinarySearch.position_getElem sorted bound
    refine ⟨fun lrn member => ?_, fun a memberA b memberB same => ?_, fun k bound => ?_⟩
    · obtain ⟨k, bound, rfl⟩ := List.getElem_of_mem member
      exact (found bound).trans_lt bound
    · obtain ⟨i, boundI, rfl⟩ := List.getElem_of_mem memberA
      obtain ⟨j, boundJ, rfl⟩ := List.getElem_of_mem memberB
      rw [found boundI, found boundJ] at same
      subst same
      rfl
    · have inside : k < servers.length := bound
      exact ⟨servers[k], List.getElem_mem inside, found inside⟩

/-- A list in the order of the keys is sorted exactly if the keys agree with the numbers. -/
theorem sorted_iff_keys_agree {servers : List Int} (ordered : KeyOrdered servers) :
    servers.Pairwise (· < ·) ↔
      ∀ a ∈ servers, ∀ b ∈ servers, a < b → keyBootServer a < keyBootServer b := by
  constructor
  · intro sorted a memberA b memberB less
    rw [List.pairwise_iff_getElem] at sorted
    have ordered := List.pairwise_iff_getElem.mp ordered
    obtain ⟨i, boundI, rfl⟩ := List.getElem_of_mem memberA
    obtain ⟨j, boundJ, rfl⟩ := List.getElem_of_mem memberB
    rcases lt_trichotomy i j with before | rfl | after
    · exact ordered i j boundI boundJ before
    · exact absurd less (lt_irrefl _)
    · exact absurd less (sorted j i boundJ boundI after).not_gt
  · intro agree
    refine ordered.imp_of_mem fun {a b} memberA memberB key => ?_
    rcases lt_trichotomy a b with less | rfl | greater
    · exact less
    · exact absurd key (lt_irrefl _)
    · exact absurd (agree b memberB a memberA greater) key.not_gt

/-- **etcd restarts are staggered** exactly if the registered LRNs are in the same order as
their keys: for the list that `NewSnapshot` builds and puts into the request. -/
theorem restarts_staggered_iff (kv : Etcd) (registry : Registry kv) :
    ∃ servers, snapshotServers kv = some servers ∧ (∀ lrn, lrn ∈ servers ↔ IsRegistered kv lrn) ∧
      (Staggered servers ↔ ∀ a b, IsRegistered kv a → IsRegistered kv b → a < b →
        keyBootServer a < keyBootServer b) := by
  obtain ⟨servers, built, ordered, members⟩ := snapshotServers_registry registry
  refine ⟨servers, built, members, ?_⟩
  rw [staggered_iff_positions, positions_iff_sorted, sorted_iff_keys_agree ordered]
  simp only [members]
  exact ⟨fun agree a b here there => agree a here b there,
    fun agree a here b there => agree a b here there⟩

/-- etcd after the registration of the servers `lrns`. -/
def registered (lrns : List Int) : Etcd := infoKeys (lrns.map .registerBootserver)

theorem registry_registered (lrns : List Int) (ints : ∀ lrn ∈ lrns, IsInt lrn) :
    Registry (registered lrns) := by
  refine registry_infoKeys _ fun c member => ?_
  obtain ⟨lrn, here, rfl⟩ := List.mem_map.mp member
  exact ints lrn here

theorem restarts_staggered_three : snapshotServers (registered [2, 0, 1]) = some [0, 1, 2] ∧
    Staggered [0, 1, 2] := by
  obtain ⟨servers, built, members, iff⟩ :=
    restarts_staggered_iff (registered [2, 0, 1]) (registry_registered _ (by decide))
  have same : snapshotServers (registered [2, 0, 1]) = some [0, 1, 2] := by decide +kernel
  cases built.symm.trans same
  refine ⟨same, iff.mpr fun a b here there => ?_⟩
  have agree : ∀ a ∈ [0, 1, 2], ∀ b ∈ [0, 1, 2], a < b → keyBootServer a < keyBootServer b := by
    decide +kernel
  exact agree a ((members a).mpr here) b ((members b).mpr there)

/-- The key of server 10 is before that of server 2: server 2 finds itself at position 0, and
server 10 behind the end. -/
theorem restarts_not_staggered : snapshotServers (registered [2, 10]) = some [10, 2] ∧
    searchInts [10, 2] 2 = 0 ∧ searchInts [10, 2] 10 = 2 ∧ ¬Staggered [10, 2] := by
  have behind : searchInts [10, 2] 10 = 2 := by decide +kernel
  refine ⟨by decide +kernel, by decide +kernel, behind, fun staggered => ?_⟩
  have inside : searchInts [10, 2] 10 < 2 := staggered.positions.mapsTo (List.mem_cons_self ..)
  omega

end Neco.Restart
