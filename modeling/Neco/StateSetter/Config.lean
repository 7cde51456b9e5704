import Neco.Storage.Keys
import Neco.Lib.Fallible
import Mathlib.Logic.Function.Basic
import Mathlib.Data.Rat.Defs

/-!
# The configuration of sabakan-state-setter

The states of machines, the machine types with the metrics that they are judged by, and the
alerts that change the state of a machine. `parseConfig` is modelled from the decoded YAML on.
-/

namespace Neco.StateSetter

/-- `sabakan.MachineState`, a type of strings. -/
inductive MachineState
  | uninitialized
  | healthy
  | unhealthy
  | unreachable
  | updating
  | retiring
  | retired
  /-- `stateUnhealthyImmediate`, which only the controller uses. -/
  | unhealthyImmediate
  /-- The empty string: `doNotChangeState`, and a state that sabakan reports and
  `toMachineState` does not know. -/
  | empty
  /-- Any other string, as a configuration may contain. -/
  | other (s : String)
deriving DecidableEq, Repr

/-- A map from names to values, with one pair for each name. -/
abbrev Labels := List (String × String)

/-! ### Metrics -/

/-- A metric of Prometheus. Of the value of a gauge only whether it is 0 is looked at; the
values of type `float64` that are not rational differ from 0. -/
structure Metric where
  label : Labels
  gauge : Option Rat
deriving DecidableEq, Repr

structure MetricFamily where
  metric : List Metric
deriving DecidableEq, Repr

structure Selector where
  labels : Labels
  labelPrefix : Labels
deriving DecidableEq, Repr

/-- Whether the first label of each name has a value that passes the test. -/
def hasLabels (test : String → String → Bool) (wanted : Labels) (m : Metric) : Bool :=
  wanted.all fun want =>
    match m.label.find? (·.1 = want.1) with
    | none => false
    | some label => test label.2 want.2

namespace Selector

def isMetricMatchedLabels (s : Selector) (m : Metric) : Bool :=
  hasLabels (fun value want => value = want) s.labels m

def isMetricHasPrefix (s : Selector) (m : Metric) : Bool :=
  hasLabels hasPrefix s.labelPrefix m

/-- `selector.Match`, with a selector that may be `nil`. -/
def match? : Option Selector → MetricFamily → List Metric
  | none, mf => mf.metric
  | some s, mf => mf.metric.filter fun m => s.isMetricMatchedLabels m && s.isMetricHasPrefix m

end Selector

structure TargetMetric where
  name : String
  selector : Option Selector
  minimumHealthyCount : Option Int
deriving DecidableEq, Repr

/-! ### The configuration -/

/-- A machine type; the grace period is in nanoseconds. -/
structure MachineType where
  name : String
  metricsCheckList : List TargetMetric
  gracePeriod : Int
deriving DecidableEq, Repr

structure TriggerAlert where
  name : String
  labels : Labels
  addressLabel : String
  serialLabel : String
  state : MachineState
deriving DecidableEq, Repr

structure AlertMonitor where
  alertmanagerEndpoint : String
  triggerAlerts : List TriggerAlert
deriving DecidableEq, Repr

structure Config where
  shutdownSchedule : String
  machineTypes : List MachineType
  alertMonitor : Option AlertMonitor
deriving DecidableEq, Repr

/-- What `parseConfig` returns. -/
structure ParsedConfig where
  shutdownSchedule : String
  machineTypes : String → Option MachineType
  alertMonitor : Option AlertMonitor

inductive ConfigError
  /-- "machine-types are not defined" -/
  | noMachineTypes
  /-- "exactly one of `address-label` and `serial-label` is required for %q" -/
  | notOneLabel (name : String)
  /-- "invalid state %q in %q" -/
  | invalidState (state : MachineState) (name : String)
deriving DecidableEq, Repr

/-- `time.Hour`. -/
def hour : Int := 3600000000000

/-- The default of the grace period. -/
def MachineType.withDefault (t : MachineType) : MachineType :=
  if t.gracePeriod = 0 then { t with gracePeriod := hour } else t

/-- The map of the machine types; of two types with one name the later one stays. -/
def machineTypeMap (types : List MachineType) : String → Option MachineType :=
  types.foldl (fun map t => Function.update map t.name (some t.withDefault)) fun _ => none

def checkTriggerAlert (t : TriggerAlert) : Except ConfigError Unit :=
  if t.addressLabel.isEmpty = t.serialLabel.isEmpty then throw (.notOneLabel t.name)
  else
    match t.state with
    | .unreachable => pure ()
    | .unhealthy => pure ()
    | state => throw (.invalidState state t.name)

def checkAlertMonitor : Option AlertMonitor → Except ConfigError Unit
  | none => pure ()
  | some monitor => forM monitor.triggerAlerts checkTriggerAlert

def parseConfig (cfg : Config) : Except ConfigError ParsedConfig :=
  if cfg.machineTypes.isEmpty then throw .noMachineTypes
  else do
    checkAlertMonitor cfg.alertMonitor
    return ⟨cfg.shutdownSchedule, machineTypeMap cfg.machineTypes, cfg.alertMonitor⟩

/-! ### What is accepted -/

theorem state_of_checkTriggerAlert {t : TriggerAlert} (accepted : checkTriggerAlert t = .ok ()) :
    t.state = .unreachable ∨ t.state = .unhealthy := by
  unfold checkTriggerAlert at accepted
  split at accepted
  · cases accepted
  · split at accepted
    next state => exact .inl state
    next state => exact .inr state
    · cases accepted

/-- An accepted alert names machines by exactly one of its two labels. -/
theorem oneLabel_of_checkTriggerAlert {t : TriggerAlert} (accepted : checkTriggerAlert t = .ok ()) :
    t.addressLabel ≠ "" ∧ t.serialLabel = "" ∨ t.addressLabel = "" ∧ t.serialLabel ≠ "" := by
  unfold checkTriggerAlert at accepted
  split at accepted
  · cases accepted
  next differ =>
    have empty : ∀ s : String, s.isEmpty = decide (s = "") := fun s => by
      rw [Bool.eq_iff_iff, String.isEmpty_iff, decide_eq_true_eq]
    rw [empty, empty] at differ
    by_cases address : t.addressLabel = "" <;> by_cases serial : t.serialLabel = "" <;> simp_all

/-- Every trigger of an accepted configuration has passed its check. -/
theorem triggerAlert_checked {cfg : Config} {parsed : ParsedConfig}
    (accepted : parseConfig cfg = .ok parsed) {monitor : AlertMonitor}
    (configured : parsed.alertMonitor = some monitor) {t : TriggerAlert}
    (member : t ∈ monitor.triggerAlerts) : checkTriggerAlert t = .ok () := by
  unfold parseConfig at accepted
  split at accepted
  · cases accepted
  · obtain ⟨_, checked, same⟩ := Fallible.bind_eq_ok.mp accepted
    cases same
    rw [show cfg.alertMonitor = some monitor from configured] at checked
    exact Fallible.mem_of_forM checked t member

/-- An accepted alert makes a machine unreachable or unhealthy. -/
theorem triggerAlert_state {cfg : Config} {parsed : ParsedConfig}
    (accepted : parseConfig cfg = .ok parsed) {monitor : AlertMonitor}
    (configured : parsed.alertMonitor = some monitor) {t : TriggerAlert}
    (member : t ∈ monitor.triggerAlerts) : t.state = .unreachable ∨ t.state = .unhealthy :=
  state_of_checkTriggerAlert (triggerAlert_checked accepted configured member)

end Neco.StateSetter
