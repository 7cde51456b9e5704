import Neco.Update

/-!
# The status handler of neco-updater

`waitComplete` hands every worker status that `WorkerWatcher.Watch` delivers to a
`statusHandler`, which keeps its own map of statuses, tells the notifier how the update
ended and answers whether the wait is over.
-/

namespace Neco

/-- What the handler sends to the notifier. -/
inductive Notification where
  | failure (req : UpdateRequest) (message : String)
  | succeeded (req : UpdateRequest)
  deriving DecidableEq, Repr

def Notification.isFailure : Notification → Bool
  | .failure _ _ => true
  | .succeeded _ => false

structure StatusHandler where
  req : UpdateRequest
  statuses : Statuses

/-- The answer to one status: the handler afterwards, what it has notified, and whether
the wait is over. -/
structure Handled where
  handler : StatusHandler
  notified : Option Notification
  ended : Bool

/-- A status put by a worker, with the time at which the updater receives it. -/
structure StatusPut where
  time : Int
  lrn : Int
  st : UpdateStatus
  deriving DecidableEq, Repr

def StatusHandler.handleStatus (h : StatusHandler) (lrn : Int) (st : UpdateStatus) : Handled :=
  if st.version != h.req.version then ⟨h, none, false⟩
  else
    let h := { h with statuses := h.statuses.insert lrn st }
    match st.cond with
    | .abort => ⟨h, some (.failure h.req ("update request was aborted: " ++ st.message)), true⟩
    | _ =>
      if updateCompleted h.req.version h.req.servers h.statuses then
        ⟨h, some (.succeeded h.req), true⟩
      else ⟨h, none, false⟩

/-- The answers of the handler folded over `puts`. -/
def StatusHandler.handled (h : StatusHandler) : List StatusPut → List Handled
  | [] => []
  | put :: rest =>
    let answer := h.handleStatus put.lrn put.st
    answer :: answer.handler.handled rest

/-! ### The answer by the status -/

section

variable (h : StatusHandler) (lrn : Int) (st : UpdateStatus)

theorem StatusHandler.handleStatus_abort (version : st.version = h.req.version)
    (aborted : st.cond = .abort) :
    h.handleStatus lrn st = ⟨⟨h.req, h.statuses.insert lrn st⟩,
      some (.failure h.req ("update request was aborted: " ++ st.message)), true⟩ := by
  simp [StatusHandler.handleStatus, version, aborted]

theorem StatusHandler.handleStatus_report (version : st.version = h.req.version)
    (unaborted : st.cond ≠ .abort) :
    h.handleStatus lrn st =
      if updateCompleted h.req.version h.req.servers (h.statuses.insert lrn st) then
        ⟨⟨h.req, h.statuses.insert lrn st⟩, some (.succeeded h.req), true⟩
      else ⟨⟨h.req, h.statuses.insert lrn st⟩, none, false⟩ := by
  cases cond : st.cond with
  | abort => exact absurd cond unaborted
  | notRunning | running | complete => simp [StatusHandler.handleStatus, version, cond]

end

end Neco
