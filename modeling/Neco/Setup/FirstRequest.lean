import Neco.Setup.Stages
import Neco.System

/-!
# What the initial setup leaves behind

Every boot server registers itself; then the leader records the release and puts the first
request, with the LRNs in the order into which `Setup` has sorted its argument.
-/

namespace Neco.Setup

/-- `sort.Ints`. -/
def sortInts (lrns : List Int) : List Int := lrns.insertionSort (· ≤ ·)

theorem mem_sortInts {lrns : List Int} {lrn : Int} : lrn ∈ sortInts lrns ↔ lrn ∈ lrns :=
  (List.perm_insertionSort _ lrns).mem_iff

/-- Distinct LRNs are strictly sorted. -/
theorem sorted_sortInts (b : BootServers) : (sortInts b.lrns).Pairwise (· < ·) := by
  have weak : (sortInts b.lrns).Pairwise (· ≤ ·) := List.pairwise_insertionSort _ b.lrns
  have nodup : (sortInts b.lrns).Nodup := (List.perm_insertionSort _ b.lrns).nodup_iff.mpr b.nodup
  exact (weak.and nodup).imp fun both => lt_of_le_of_ne both.1 both.2

/-- The first request. -/
def firstRequest (b : BootServers) (version : String) (startedAt : Int) : UpdateRequest :=
  ⟨version, sortInts b.lrns, false, startedAt⟩

/-- The history at the end of `Setup`: all servers of `b` and no others have registered, in any
order and among other transactions, and the last transaction puts the first request. -/
def Done (b : BootServers) (h : List Change) : Prop :=
  ∃ (info : List Change) (version : String) (startedAt : Int),
    (∀ c ∈ info, c.isStatus = false) ∧
    (∀ lrn, lrn ∈ (store info).bootservers ↔ lrn ∈ b.lrns) ∧
    h = info ++ [.putRequest (firstRequest b version startedAt)]

/-- The update process after the setup: no updater is active yet. -/
structure Finished (b : BootServers) (s : Neco.System) : Prop where
  history : Done b s.history
  updaters : ∀ u, s.updaters u = .idle

end Neco.Setup
