import Neco.Update
import Mathlib.Data.Finset.Dedup
import Mathlib.Data.Finset.Basic

/-!
# When a worker gives up, and when it goes on

`UpdateAborted` is read from the statuses of all workers before a worker joins an
update; a `Barrier` tells it, step by step, that every member has arrived.
-/

namespace Neco

/-- One status as `UpdateAborted` classifies it for the worker `mylrn`. -/
def statusAborts (version : String) (mylrn lrn : Int) (u : UpdateStatus) : Bool :=
  if u.version != version then false
  else match u.cond with
    | .complete => false
    | .abort => true
    | _ => !(u.step == 1 && lrn != mylrn)

/-- `UpdateAborted`: some status for the version is neither complete nor the first
step of another worker. -/
def updateAborted (version : String) (mylrn : Int) (statuses : Statuses) : Bool :=
  statuses.entries.any fun entry => statusAborts version mylrn entry.1 entry.2

theorem updateAborted_iff (version : String) (mylrn : Int) (statuses : Statuses) :
    updateAborted version mylrn statuses = true ↔
      ∃ lrn u, statuses.lookup lrn = some u ∧ statusAborts version mylrn lrn u = true := by
  simp only [updateAborted, List.any_eq_true]
  constructor
  · rintro ⟨⟨lrn, u⟩, member, aborts⟩
    exact ⟨lrn, u, AList.mem_lookup_iff.mpr member, aborts⟩
  · rintro ⟨lrn, u, found, aborts⟩
    exact ⟨⟨lrn, u⟩, AList.mem_lookup_iff.mp found, aborts⟩

theorem updateAborted_eq_false_iff (version : String) (mylrn : Int) (statuses : Statuses) :
    updateAborted version mylrn statuses = false ↔
      ∀ lrn u, statuses.lookup lrn = some u → statusAborts version mylrn lrn u = false := by
  rw [← Bool.not_eq_true, updateAborted_iff]
  push Not
  simp only [Bool.not_eq_true]

/-- The boot servers that have not arrived at the check point yet. -/
abbrev Barrier := Finset Int

def newBarrier (lrns : List Int) : Barrier := lrns.toFinset

/-- `Barrier.Check` removes the arriving server; the second component says that
nobody is missing any more. -/
def Barrier.check (b : Barrier) (lrn : Int) : Barrier × Bool :=
  (Finset.erase b lrn, decide (Finset.erase b lrn = ∅))

@[simp] theorem mem_newBarrier (lrns : List Int) (lrn : Int) :
    lrn ∈ newBarrier lrns ↔ lrn ∈ lrns := List.mem_toFinset

end Neco
