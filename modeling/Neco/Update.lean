import Mathlib.Data.List.AList

/-!
# Update requests and worker statuses

The records neco-updater and neco-worker exchange through etcd, and the
predicate both use to tell that an update has finished.
-/

namespace Neco

/-- The request under `status/current`. Times are nanoseconds. -/
structure UpdateRequest where
  version : String
  servers : List Int
  stop : Bool
  startedAt : Int
  deriving DecidableEq, Repr

def UpdateRequest.isMember (r : UpdateRequest) (lrn : Int) : Bool :=
  r.servers.any fun n => n == lrn

@[simp] theorem UpdateRequest.isMember_iff (r : UpdateRequest) (lrn : Int) :
    r.isMember lrn = true ↔ lrn ∈ r.servers := by
  simp [UpdateRequest.isMember]

inductive UpdateCondition where
  | notRunning
  | running
  | abort
  | complete
  deriving DecidableEq, Repr

/-- The report of one worker under `status/bootservers/<LRN>`. -/
structure UpdateStatus where
  version : String
  step : Nat
  cond : UpdateCondition
  message : String
  deriving DecidableEq, Repr

/-- Worker statuses by LRN. -/
abbrev Statuses := AList fun _ : Int => UpdateStatus

/-- `neco.UpdateCompleted`: every listed server reports completion of `version`. -/
def updateCompleted (version : String) (lrns : List Int) (statuses : Statuses) : Bool :=
  lrns.all fun lrn =>
    match statuses.lookup lrn with
    | none => false
    | some st => st.version == version && st.cond == .complete

theorem updateCompleted_iff (version : String) (lrns : List Int) (statuses : Statuses) :
    updateCompleted version lrns statuses = true ↔
      ∀ lrn ∈ lrns, ∃ st, statuses.lookup lrn = some st ∧
        st.version = version ∧ st.cond = .complete := by
  simp only [updateCompleted, List.all_eq_true]
  constructor
  · intro all lrn member
    have here := all lrn member
    cases found : statuses.lookup lrn with
    | none => simp [found] at here
    | some st => exact ⟨st, rfl, by simpa [found] using here⟩
  · intro all lrn member
    obtain ⟨st, found, version, cond⟩ := all lrn member
    simp [found, version, cond]

end Neco
