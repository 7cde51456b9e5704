import Neco.StateSetter.HealthCheck
import Neco.Lib.Program

/-!
# The controller of sabakan-state-setter

One call of `runOnce` lists the machines, decides which state each should have, retires the
machines that are to be retired, and sends the new states to sabakan. A machine is reported as
unhealthy only after it has been judged so for the grace period of its type; the controller
keeps the time when it first was.
-/

namespace Neco.StateSetter

open Program

/-- What the controller asks of its environment. The machine for which the metrics are read is
named besides its address. -/
inductive Call
  | getAllMachines
  | serfMembers
  | getAlerts
  | connectMetricsServer (serial ipv4 : String)
  | cryptsDelete (serial : String)
  | tpmClear (serial : String)
  | now
  | updateSabakanState (serial : String) (state : MachineState)
deriving DecidableEq, Repr

/-- The answers; `none` and `false` stand for errors. -/
@[reducible] def Reply : Call → Type
  | .getAllMachines => Option (List Machine)
  | .serfMembers => Option (List SerfMember)
  | .getAlerts => Option (List Labels)
  | .connectMetricsServer _ _ => Option Metrics
  | .cryptsDelete _ => Bool
  | .tpmClear _ => Bool
  | .now => Int
  | .updateSabakanState _ _ => Bool

/-- A computation of the controller. It logs errors and goes on, so it does not fail. -/
abbrev Prog := Program.Prog Call Reply Empty

structure Controller where
  machineTypes : String → Option MachineType
  /-- The alerts to look for; `none` when no Alertmanager is configured. -/
  triggerAlerts : Option (List TriggerAlert)
  unhealthyMachines : String → Option Int

def newController (config : ParsedConfig) : Controller where
  machineTypes := config.machineTypes
  triggerAlerts := config.alertMonitor.map (·.triggerAlerts)
  unhealthyMachines := fun _ => none

namespace Controller

/-- `RegisterUnhealthy`: whether the machine has been unhealthy for longer than the grace
period of its type. -/
def registerUnhealthy (c : Controller) (m : Machine) (now : Int) : Bool × Controller :=
  match c.unhealthyMachines m.serial with
  | none =>
    (false, { c with unhealthyMachines := Function.update c.unhealthyMachines m.serial (some now) })
  | some startTime =>
    match c.machineTypes m.type with
    | none => (true, c)
    | some type => (startTime + type.gracePeriod < now, c)

def clearUnhealthy (c : Controller) (m : Machine) : Controller :=
  { c with unhealthyMachines := Function.update c.unhealthyMachines m.serial none }

/-- `GetAlertStatuses`; an error counts as no alerts. -/
def getAlertStatuses (c : Controller) (machines : List Machine) :
    Prog (String → Option AlertStatus) :=
  match c.triggerAlerts with
  | none => return fun _ => none
  | some triggerAlerts => do
    let payload ← Prog.ask Call.getAlerts
    match payload with
    | none => return fun _ => none
    | some rawAlerts => return alertStatusMap triggerAlerts rawAlerts machines

end Controller

/-- The states in which a machine is checked. -/
def MachineState.isChecked : MachineState → Bool
  | .uninitialized => true
  | .healthy => true
  | .unhealthy => true
  | .unreachable => true
  | _ => false

/-- The goroutine of `machineHealthCheck` for one machine. -/
def connectMetrics (mss : MachineStateSource) : Prog MachineStateSource :=
  -- There is nothing to read for an unknown type.
  if mss.machineType.all (·.metricsCheckList.isEmpty) then return mss
  else do
    let metrics ← Prog.ask (Call.connectMetricsServer mss.serial mss.ipv4)
    return { mss with metrics := metrics }

/-- One step of the loop that decides the new states. -/
def recordCandidate (newStateMap : String → Option MachineState) (mss : MachineStateSource) :
    String → Option MachineState :=
  let newState := mss.decideMachineStateCandidate
  if newState = .empty then newStateMap
  else Function.update newStateMap mss.serial (some newState)

namespace Controller

def machineHealthCheck (c : Controller) (machines : List Machine)
    (serfStatus : String → Option SerfStatus) (alertStatuses : String → Option AlertStatus) :
    Prog (String → Option MachineState) := do
  let sources := (machines.filter (·.state.isChecked)).map fun m =>
    newMachineStateSource m serfStatus alertStatuses c.machineTypes
  let sources ← sources.mapM connectMetrics
  return sources.foldl recordCandidate fun _ => none

end Controller

/-- One step of the loop of `machineRetire`. -/
def retireMachine (newStateMap : String → Option MachineState) (m : Machine) :
    Prog (String → Option MachineState) :=
  if m.state ≠ .retiring then return newStateMap
  else do
    let deleted ← Prog.ask (Call.cryptsDelete m.serial)
    if deleted then do
      let cleared ← Prog.ask (Call.tpmClear m.serial)
      if cleared then return Function.update newStateMap m.serial (some .retired)
      else return newStateMap
    else return newStateMap

def machineRetire (machines : List Machine) : Prog (String → Option MachineState) :=
  machines.foldlM retireMachine fun _ => none

/-- One step of the loop of `runOnce` over the machines. -/
def setMachineState (newStateMap : String → Option MachineState) (now : Int) (c : Controller)
    (m : Machine) : Prog Controller :=
  match newStateMap m.serial with
  | none => return c.clearUnhealthy m
  | some newState =>
    if newState = m.state ∨ newState = .unhealthyImmediate ∧ m.state = .unhealthy then
      return c.clearUnhealthy m
    else if newState = .unhealthyImmediate then do
      let c := c.clearUnhealthy m
      let _ ← Prog.ask (Call.updateSabakanState m.serial .unhealthy)
      return c
    else if newState = .unhealthy then
      -- Wait for the grace period.
      let (exceeded, c) := c.registerUnhealthy m now
      if exceeded then do
        let _ ← Prog.ask (Call.updateSabakanState m.serial .unhealthy)
        return c
      else return c
    else do
      let c := c.clearUnhealthy m
      let _ ← Prog.ask (Call.updateSabakanState m.serial newState)
      return c

inductive RunResult
  | done
  /-- The connection to serf is lost, which ends the process. -/
  | serfError
deriving DecidableEq, Repr

def Controller.runOnce (c : Controller) : Prog (RunResult × Controller) := do
  let machines ← Prog.ask Call.getAllMachines
  match machines with
  | none => return (.done, c)
  | some machines =>
    if machines.isEmpty then return (.done, c)
    else do
      let members ← Prog.ask Call.serfMembers
      match members with
      | none => return (.serfError, c)
      | some members => do
        let alertStatuses ← c.getAlertStatuses machines
        let health ← c.machineHealthCheck machines (serfStatusMap members) alertStatuses
        let retire ← machineRetire machines
        -- The result of the retirement goes over that of the health check.
        let newStateMap := fun serial => (retire serial).or (health serial)
        let now ← Prog.ask Call.now
        let c ← machines.foldlM (setMachineState newStateMap now) c
        return (.done, c)

end Neco.StateSetter
