import Neco.StateSetter.Config

/-!
# What is known about a machine and which state it should have

The status that serf and Alertmanager report for the address of a machine, and the decision
about its state from these and from the metrics of its hardware.
-/

namespace Neco.StateSetter

structure Machine where
  serial : String
  type : String
  ipv4Addr : String
  state : MachineState
deriving DecidableEq, Repr

/-! ### Serf -/

structure SerfMember where
  addr : String
  status : String
  tags : Labels
deriving DecidableEq, Repr

structure SerfStatus where
  status : String
  systemdUnitsFailed : Option String
deriving DecidableEq, Repr

def systemdUnitsFailedTag : String := "systemd-units-failed"

/-- The map that `GetSerfStatus` builds from the members. -/
def serfStatusMap (members : List SerfMember) : String → Option SerfStatus :=
  members.foldl
    (fun map m =>
      Function.update map m.addr (some ⟨m.status, m.tags.lookup systemdUnitsFailedTag⟩))
    fun _ => none

/-! ### Alerts -/

structure AlertStatus where
  alertName : String
  state : MachineState
deriving DecidableEq, Repr

/-- `model.AlertNameLabel`. -/
def alertNameLabel : String := "alertname"

def isSubsetAlertLabels (triggerLabels actualLabels : Labels) : Bool :=
  triggerLabels.all fun label => actualLabels.lookup label.1 = some label.2

/-- The alerts with a name, in the order in which Alertmanager returns them. -/
def alertsByName (rawAlerts : List Labels) (name : String) : List Labels :=
  rawAlerts.filter fun labels => labels.lookup alertNameLabel = some name

/-- The machines by a key; of two with one key the later one stays. -/
def machinesBy (key : Machine → String) (machines : List Machine) : String → Option Machine :=
  machines.foldl (fun map m => Function.update map (key m) (some m)) fun _ => none

/-- The machine that an alert is about. -/
def alertTarget (machines : List Machine) (t : TriggerAlert) (alert : Labels) : Option Machine := do
  let mut target := none
  if t.addressLabel ≠ "" then
    let address ← alert.lookup t.addressLabel
    target := some (← machinesBy Machine.ipv4Addr machines address)
  if t.serialLabel ≠ "" then
    let serial ← alert.lookup t.serialLabel
    target := some (← machinesBy Machine.serial machines serial)
  target

/-- One alert is compared with one trigger. -/
def recordAlert (machines : List Machine) (t : TriggerAlert)
    (statuses : String → Option AlertStatus) (alert : Labels) : String → Option AlertStatus :=
  if isSubsetAlertLabels t.labels alert then
    match alertTarget machines t alert with
    | none => statuses
    | some target =>
      -- A less severe state does not replace `unreachable`.
      if (statuses target.ipv4Addr).any (·.state = .unreachable) then statuses
      else Function.update statuses target.ipv4Addr (some ⟨t.name, t.state⟩)
  else statuses

/-- The map that `GetAlertStatuses` builds from the alerts. -/
def alertStatusMap (triggerAlerts : List TriggerAlert) (rawAlerts : List Labels)
    (machines : List Machine) : String → Option AlertStatus :=
  triggerAlerts.foldl
    (fun statuses t => (alertsByName rawAlerts t.name).foldl (recordAlert machines t) statuses)
    fun _ => none

/-! ### The decision -/

abbrev Metrics := List (String × MetricFamily)

structure MachineStateSource where
  serial : String
  ipv4 : String
  serfStatus : Option SerfStatus
  alertStatus : Option AlertStatus
  machineType : Option MachineType
  metrics : Option Metrics
deriving DecidableEq, Repr

def newMachineStateSource (m : Machine) (serfStatuses : String → Option SerfStatus)
    (alertStatuses : String → Option AlertStatus) (machineTypes : String → Option MachineType) :
    MachineStateSource where
  serial := m.serial
  ipv4 := m.ipv4Addr
  serfStatus := serfStatuses m.ipv4Addr
  alertStatus := alertStatuses m.ipv4Addr
  machineType := machineTypes m.type
  metrics := none

/-- `checkTarget` for a metric that was found. -/
def checkTarget (mf : MetricFamily) (target : TargetMetric) : MachineState :=
  let matched := Selector.match? target.selector mf
  if matched.isEmpty then .unhealthy
  else
    let healthyCount := matched.countP (·.gauge = some 0)
    match target.minimumHealthyCount with
    | none => if healthyCount ≠ matched.length then .unhealthy else .healthy
    | some minCount => if healthyCount < minCount then .unhealthy else .healthy

/-- The loop of `decideByMonitorHW` over the targets. -/
def checkTargets (metrics : Metrics) : List TargetMetric → MachineState
  | [] => .healthy
  | target :: rest =>
    match metrics.lookup target.name with
    | none => .unhealthy
    | some mf =>
      match checkTarget mf target with
      | .healthy => checkTargets metrics rest
      | res => res

namespace MachineStateSource

def decideByMonitorHW (mss : MachineStateSource) : MachineState :=
  match mss.machineType with
  | none => .unhealthy
  | some type =>
    if type.metricsCheckList.isEmpty then .healthy
    else
      match mss.metrics with
      | none => .unhealthy
      | some metrics => checkTargets metrics type.metricsCheckList

def decideMachineStateCandidate (mss : MachineStateSource) : MachineState :=
  match mss.serfStatus with
  | none => .unreachable
  | some serf =>
    if serf.status ≠ "alive" then .unreachable
    else
      match mss.alertStatus with
      | some alert => if alert.state = .unhealthy then .unhealthyImmediate else alert.state
      | none =>
        if serf.systemdUnitsFailed.any (· ≠ "") then .unhealthy
        else
          match mss.decideByMonitorHW with
          | .healthy =>
            -- Without the tag the machine is starting up.
            if serf.systemdUnitsFailed.isNone then .empty else .healthy
          | state => state

end MachineStateSource

/-! ### The states that can be decided -/

theorem checkTarget_cases (mf : MetricFamily) (target : TargetMetric) :
    checkTarget mf target = .healthy ∨ checkTarget mf target = .unhealthy := by
  unfold checkTarget
  dsimp only
  repeat' split
  all_goals simp

theorem checkTargets_cases (metrics : Metrics) (targets : List TargetMetric) :
    checkTargets metrics targets = .healthy ∨ checkTargets metrics targets = .unhealthy := by
  induction targets with
  | nil => exact .inl rfl
  | cons target rest ih =>
    simp only [checkTargets]
    cases metrics.lookup target.name with
    | none => exact .inr rfl
    | some mf =>
      rcases checkTarget_cases mf target with state | state
      · simpa only [state] using ih
      · exact .inr (by simp only [state])

namespace MachineStateSource

theorem decideByMonitorHW_cases (mss : MachineStateSource) :
    mss.decideByMonitorHW = .healthy ∨ mss.decideByMonitorHW = .unhealthy := by
  unfold decideByMonitorHW
  split
  · exact .inr rfl
  · split
    · exact .inl rfl
    · split
      · exact .inr rfl
      · exact checkTargets_cases ..

/-- Without an alert the state is one of sabakan's, or is left as it is. -/
theorem decide_of_no_alert {mss : MachineStateSource} (noAlert : mss.alertStatus = none) :
    mss.decideMachineStateCandidate ∈
      [MachineState.healthy, .unhealthy, .unreachable, .empty] := by
  unfold decideMachineStateCandidate
  rw [noAlert]
  split
  · decide
  · split
    · decide
    · dsimp only
      split
      · decide
      · rcases mss.decideByMonitorHW_cases with state | state
        · rw [state]
          dsimp only
          split <;> decide
        · rw [state]
          dsimp only
          decide

/-- With an alert a machine that is not unreachable has the state of the alert. -/
theorem decide_of_alert {mss : MachineStateSource} {alert : AlertStatus}
    (firing : mss.alertStatus = some alert) :
    mss.decideMachineStateCandidate = .unreachable ∨
      mss.decideMachineStateCandidate =
        if alert.state = .unhealthy then .unhealthyImmediate else alert.state := by
  unfold decideMachineStateCandidate
  rw [firing]
  split
  · exact .inl rfl
  · split
    · exact .inl rfl
    · exact .inr rfl

/-- `unhealthy` is never decided by an alert. -/
theorem noAlert_of_unhealthy {mss : MachineStateSource}
    (unhealthy : mss.decideMachineStateCandidate = .unhealthy) : mss.alertStatus = none := by
  cases firing : mss.alertStatus with
  | none => rfl
  | some alert =>
    rcases decide_of_alert firing with state | state
    · cases unhealthy.symm.trans state
    · rw [unhealthy] at state
      split at state
      · cases state
      next other => exact absurd state.symm other

theorem alert_of_immediate {mss : MachineStateSource}
    (immediate : mss.decideMachineStateCandidate = .unhealthyImmediate) :
    mss.alertStatus ≠ none := by
  intro noAlert
  have decided := decide_of_no_alert noAlert
  rw [immediate] at decided
  revert decided
  decide

end MachineStateSource
end Neco.StateSetter
