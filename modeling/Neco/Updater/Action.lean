import Neco.Storage.Store

/-!
# What neco-updater does next

`NextAction` decides from a snapshot. `newVersion` stands for
`version.NewVersion` of hashicorp/go-version: it fails, or returns the version in
the canonical form on which `Equal` is equality.
-/

namespace Neco

inductive Action where
  | error
  | waitInfo
  | reconfigure
  | newVersion
  | waitWorkers
  | stop
  | waitClear
  deriving DecidableEq, Repr

variable {V : Type} [DecidableEq V]

/-- Whether some status reports an abort of `version`. -/
def anyAborted (version : String) (statuses : Statuses) : Bool :=
  statuses.entries.any fun entry => entry.2.version == version && entry.2.cond == .abort

theorem anyAborted_iff (version : String) (statuses : Statuses) :
    anyAborted version statuses = true ↔
      ∃ lrn st, statuses.lookup lrn = some st ∧ st.version = version ∧ st.cond = .abort := by
  simp only [anyAborted, List.any_eq_true, Bool.and_eq_true, beq_iff_eq]
  constructor
  · rintro ⟨⟨lrn, st⟩, member, aborted⟩
    exact ⟨lrn, st, AList.mem_lookup_iff.mpr member, aborted⟩
  · rintro ⟨lrn, st, found, aborted⟩
    exact ⟨⟨lrn, st⟩, AList.mem_lookup_iff.mp found, aborted⟩

/-- `NextAction` at the time `now`. -/
def nextAction (newVersion : String → Option V) (timeout now : Int) (ss : Snapshot) : Action :=
  if ss.latest = "" then .waitInfo
  else match newVersion ss.latest with
  | none => .error
  | some latestVer =>
    match ss.request with
    | none => .newVersion
    | some req =>
      if req.stop then .waitClear
      else if anyAborted req.version ss.statuses then .stop
      else if !updateCompleted req.version req.servers ss.statuses then
        if now - req.startedAt > timeout then .stop else .waitWorkers
      else if req.servers ≠ ss.servers then .reconfigure
      else match newVersion req.version with
        | none => .error
        | some requestVer => if latestVer ≠ requestVer then .newVersion else .waitInfo

end Neco
