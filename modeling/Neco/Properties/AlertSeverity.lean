import Neco.Lib.Table
import Neco.StateSetter.HealthCheck

/-!
# Alerts yield the severest state

`GetAlertStatuses` compares every trigger with every alert of its name and writes into one map,
in which only `unreachable` is protected. Whatever the order of the triggers, alerts and
machines, a machine has an entry iff some alert matches some trigger and names it, and the entry
is `unreachable` iff one of these triggers says so.
-/

namespace Neco.StateSetter

/-- The alert has the name and all the labels of the trigger. -/
def TriggerAlert.Matches (t : TriggerAlert) (alert : Labels) : Prop :=
  alert.lookup alertNameLabel = some t.name ∧
    ∀ label ∈ t.labels, alert.lookup label.1 = some label.2

/-- The alert names the machine through the address label or the serial label of the trigger. -/
def TriggerAlert.Names (t : TriggerAlert) (alert : Labels) (m : Machine) : Prop :=
  t.addressLabel ≠ "" ∧ alert.lookup t.addressLabel = some m.ipv4Addr ∨
    t.serialLabel ≠ "" ∧ alert.lookup t.serialLabel = some m.serial

structure DistinctMachines (machines : List Machine) : Prop where
  serials : (machines.map Machine.serial).Nodup
  addresses : (machines.map Machine.ipv4Addr).Nodup

/-! ### The machine of an alert -/

theorem isSubsetAlertLabels_iff (triggerLabels actualLabels : Labels) :
    isSubsetAlertLabels triggerLabels actualLabels = true ↔
      ∀ label ∈ triggerLabels, actualLabels.lookup label.1 = some label.2 := by
  simp [isSubsetAlertLabels]

theorem machinesBy_eq_some {key : Machine → String} {machines : List Machine}
    (nodup : (machines.map key).Nodup) {k : String} {m : Machine} :
    machinesBy key machines k = some m ↔ m ∈ machines ∧ key m = k := by
  have found : machinesBy key machines k = some m ↔ ∃ x ∈ machines, key x = k ∧ id x = m :=
    Table.assign_eq_some nodup
  rw [found]
  constructor
  · rintro ⟨x, member, same, rfl⟩
    exact ⟨member, same⟩
  · rintro ⟨member, same⟩
    exact ⟨m, member, same, rfl⟩

/-- With distinct machines an alert is about the machine that it names. -/
theorem alertTarget_eq_some {machines : List Machine} (distinct : DistinctMachines machines)
    {t : TriggerAlert} (checked : checkTriggerAlert t = .ok ()) {alert : Labels} {m : Machine} :
    alertTarget machines t alert = some m ↔ m ∈ machines ∧ t.Names alert m := by
  rcases oneLabel_of_checkTriggerAlert checked with ⟨address, serial⟩ | ⟨address, serial⟩
  · have target : alertTarget machines t alert =
        (alert.lookup t.addressLabel).bind (machinesBy Machine.ipv4Addr machines) := by
      simp [alertTarget, address, serial]
    rw [target]
    simp only [Option.bind_eq_some_iff, machinesBy_eq_some distinct.addresses, TriggerAlert.Names,
      address, serial, ne_eq, not_true, not_false_eq_true, true_and, false_and, or_false]
    constructor
    · rintro ⟨value, found, member, rfl⟩
      exact ⟨member, found⟩
    · rintro ⟨member, found⟩
      exact ⟨_, found, member, rfl⟩
  · have target : alertTarget machines t alert =
        (alert.lookup t.serialLabel).bind (machinesBy Machine.serial machines) := by
      simp [alertTarget, address, serial]
    rw [target]
    simp only [Option.bind_eq_some_iff, machinesBy_eq_some distinct.serials, TriggerAlert.Names,
      address, serial, ne_eq, not_true, not_false_eq_true, true_and, false_and, false_or]
    constructor
    · rintro ⟨value, found, member, rfl⟩
      exact ⟨member, found⟩
    · rintro ⟨member, found⟩
      exact ⟨_, found, member, rfl⟩

/-! ### The loops as writes to one table -/

/-- What one alert compared with one trigger writes. -/
def alertWrite (machines : List Machine) (t : TriggerAlert) (alert : Labels) :
    Option (String × AlertStatus) :=
  if isSubsetAlertLabels t.labels alert then
    (alertTarget machines t alert).map fun target => (target.ipv4Addr, ⟨t.name, t.state⟩)
  else none

/-- The writes of `GetAlertStatuses`, in their order. -/
def alertWrites (triggerAlerts : List TriggerAlert) (rawAlerts : List Labels)
    (machines : List Machine) : List (String × AlertStatus) :=
  triggerAlerts.flatMap fun t => (alertsByName rawAlerts t.name).filterMap (alertWrite machines t)

def AlertStatus.isUnreachable (status : AlertStatus) : Bool := status.state = .unreachable

theorem recordAlert_eq_write (machines : List Machine) (t : TriggerAlert)
    (statuses : String → Option AlertStatus) (alert : Labels) :
    recordAlert machines t statuses alert =
      (alertWrite machines t alert).elim statuses (Table.write AlertStatus.isUnreachable statuses) := by
  unfold recordAlert alertWrite
  split
  · cases alertTarget machines t alert with
    | none => rfl
    | some target => rfl
  · rfl

theorem foldl_recordAlert (machines : List Machine) (t : TriggerAlert) (alerts : List Labels) :
    ∀ statuses, alerts.foldl (recordAlert machines t) statuses =
      (alerts.filterMap (alertWrite machines t)).foldl (Table.write AlertStatus.isUnreachable)
        statuses := by
  induction alerts with
  | nil => exact fun _ => rfl
  | cons alert rest ih =>
    intro statuses
    rw [List.foldl_cons, recordAlert_eq_write, ih, List.filterMap_cons]
    cases alertWrite machines t alert with
    | none => rfl
    | some w => rfl

theorem alertStatusMap_eq_latch (triggerAlerts : List TriggerAlert) (rawAlerts : List Labels)
    (machines : List Machine) :
    alertStatusMap triggerAlerts rawAlerts machines =
      Table.latch AlertStatus.isUnreachable (alertWrites triggerAlerts rawAlerts machines) := by
  unfold alertStatusMap Table.latch alertWrites
  rw [List.foldl_flatMap]
  simp only [foldl_recordAlert]

section

variable {machines : List Machine} {triggerAlerts : List TriggerAlert} {rawAlerts : List Labels}

/-- A write comes from an alert that matches a trigger and names a machine. -/
theorem mem_alertWrites (distinct : DistinctMachines machines)
    (checked : ∀ t ∈ triggerAlerts, checkTriggerAlert t = .ok ()) {w : String × AlertStatus} :
    w ∈ alertWrites triggerAlerts rawAlerts machines ↔
      ∃ t ∈ triggerAlerts, ∃ alert ∈ rawAlerts, t.Matches alert ∧
        ∃ m ∈ machines, t.Names alert m ∧ w = (m.ipv4Addr, ⟨t.name, t.state⟩) := by
  simp only [alertWrites, alertsByName, List.mem_flatMap, List.mem_filterMap, List.mem_filter,
    decide_eq_true_eq, alertWrite, Option.ite_none_right_eq_some, isSubsetAlertLabels_iff,
    Option.map_eq_some_iff]
  constructor
  · rintro ⟨t, member, alert, ⟨firing, name⟩, labels, m, target, rfl⟩
    obtain ⟨known, names⟩ := (alertTarget_eq_some distinct (checked t member)).mp target
    exact ⟨t, member, alert, firing, ⟨name, labels⟩, m, known, names, rfl⟩
  · rintro ⟨t, member, alert, firing, ⟨name, labels⟩, m, known, names, rfl⟩
    exact ⟨t, member, alert, ⟨firing, name⟩, labels, m,
      (alertTarget_eq_some distinct (checked t member)).mpr ⟨known, names⟩, rfl⟩

/-- Some alert matches a trigger of the kind `P` and names the machine. -/
def Alerted (triggerAlerts : List TriggerAlert) (rawAlerts : List Labels) (m : Machine)
    (P : TriggerAlert → Prop) : Prop :=
  ∃ t ∈ triggerAlerts, ∃ alert ∈ rawAlerts, t.Matches alert ∧ t.Names alert m ∧ P t

/-- Writes under the address of a machine are about that machine. -/
theorem alerted_of_write (distinct : DistinctMachines machines)
    (checked : ∀ t ∈ triggerAlerts, checkTriggerAlert t = .ok ()) {m : Machine}
    (known : m ∈ machines) (P : TriggerAlert → Prop) (Q : AlertStatus → Prop)
    (same : ∀ t : TriggerAlert, Q ⟨t.name, t.state⟩ ↔ P t) :
    (∃ w ∈ alertWrites triggerAlerts rawAlerts machines, w.1 = m.ipv4Addr ∧ Q w.2) ↔
      Alerted triggerAlerts rawAlerts m P := by
  constructor
  · rintro ⟨w, written, address, holds⟩
    obtain ⟨t, member, alert, firing, fits, m', known', names, rfl⟩ :=
      (mem_alertWrites distinct checked).mp written
    cases List.inj_on_of_nodup_map distinct.addresses known' known address
    exact ⟨t, member, alert, firing, fits, names, (same t).mp holds⟩
  · rintro ⟨t, member, alert, firing, fits, names, holds⟩
    exact ⟨_, (mem_alertWrites distinct checked).mpr
      ⟨t, member, alert, firing, fits, m, known, names, rfl⟩, rfl, (same t).mpr holds⟩

end

/-! ### The state of an entry -/

/-- The states that `GetAlertStatuses` reports, told by what is written. -/
theorem alertStatusMap_state {machines : List Machine} {triggerAlerts : List TriggerAlert}
    {rawAlerts : List Labels} (distinct : DistinctMachines machines)
    (checked : ∀ t ∈ triggerAlerts, checkTriggerAlert t = .ok ()) (address : String) :
    (alertStatusMap triggerAlerts rawAlerts machines address).map (·.state) =
      if (alertStatusMap triggerAlerts rawAlerts machines address).any AlertStatus.isUnreachable
      then some .unreachable
      else if (alertStatusMap triggerAlerts rawAlerts machines address).isSome
      then some .unhealthy else none := by
  cases found : alertStatusMap triggerAlerts rawAlerts machines address with
  | none => rfl
  | some status =>
    rw [alertStatusMap_eq_latch] at found
    obtain ⟨t, member, _, _, _, m, _, _, written⟩ :=
      (mem_alertWrites distinct checked).mp (Table.mem_of_latch found)
    cases written
    rcases state_of_checkTriggerAlert (checked t member) with state | state <;>
      simp [AlertStatus.isUnreachable, state]

/-- The states depend only on which writes are made. -/
theorem alertStatusMap_congr {machines machines' : List Machine}
    {triggerAlerts triggerAlerts' : List TriggerAlert} {rawAlerts rawAlerts' : List Labels}
    (distinct : DistinctMachines machines) (distinct' : DistinctMachines machines')
    (checked : ∀ t ∈ triggerAlerts, checkTriggerAlert t = .ok ())
    (checked' : ∀ t ∈ triggerAlerts', checkTriggerAlert t = .ok ())
    (same : ∀ w, w ∈ alertWrites triggerAlerts' rawAlerts' machines' ↔
      w ∈ alertWrites triggerAlerts rawAlerts machines) (address : String) :
    (alertStatusMap triggerAlerts' rawAlerts' machines' address).map (·.state) =
      (alertStatusMap triggerAlerts rawAlerts machines address).map (·.state) := by
  have some_iff : (alertStatusMap triggerAlerts' rawAlerts' machines' address).isSome =
      (alertStatusMap triggerAlerts rawAlerts machines address).isSome := by
    rw [Bool.eq_iff_iff, alertStatusMap_eq_latch, alertStatusMap_eq_latch, Table.latch_isSome,
      Table.latch_isSome]
    simp only [same]
  have top_iff : (alertStatusMap triggerAlerts' rawAlerts' machines' address).any
        AlertStatus.isUnreachable =
      (alertStatusMap triggerAlerts rawAlerts machines address).any AlertStatus.isUnreachable := by
    rw [Bool.eq_iff_iff, alertStatusMap_eq_latch, alertStatusMap_eq_latch, Table.latch_any,
      Table.latch_any]
    simp only [same]
  rw [alertStatusMap_state distinct checked, alertStatusMap_state distinct' checked', some_iff,
    top_iff]

theorem DistinctMachines.perm {machines machines' : List Machine} (perm : machines'.Perm machines)
    (distinct : DistinctMachines machines) : DistinctMachines machines' :=
  ⟨(perm.map _).nodup_iff.mpr distinct.serials, (perm.map _).nodup_iff.mpr distinct.addresses⟩

/-- With the triggers of an accepted configuration and distinct machines: a machine has an entry
iff some alert matches some trigger and names the machine; its state is `unreachable` iff the
trigger of such a pair says so, and `unhealthy` otherwise; and no order matters. -/
theorem alert_severity {cfg : Config} {parsed : ParsedConfig} {monitor : AlertMonitor}
    (accepted : parseConfig cfg = .ok parsed) (configured : parsed.alertMonitor = some monitor)
    (rawAlerts : List Labels) (machines : List Machine) (distinct : DistinctMachines machines) :
    (∀ m ∈ machines,
      ((alertStatusMap monitor.triggerAlerts rawAlerts machines m.ipv4Addr).isSome = true ↔
        Alerted monitor.triggerAlerts rawAlerts m fun _ => True) ∧
      ∀ status, alertStatusMap monitor.triggerAlerts rawAlerts machines m.ipv4Addr = some status →
        (status.state = .unreachable ↔
          Alerted monitor.triggerAlerts rawAlerts m (·.state = .unreachable)) ∧
        (¬ Alerted monitor.triggerAlerts rawAlerts m (·.state = .unreachable) →
          status.state = .unhealthy)) ∧
    ∀ (triggerAlerts' : List TriggerAlert) (rawAlerts' : List Labels) (machines' : List Machine),
      triggerAlerts'.Perm monitor.triggerAlerts → rawAlerts'.Perm rawAlerts →
      machines'.Perm machines → ∀ address,
        (alertStatusMap triggerAlerts' rawAlerts' machines' address).map (·.state) =
          (alertStatusMap monitor.triggerAlerts rawAlerts machines address).map (·.state) := by
  have checked : ∀ t ∈ monitor.triggerAlerts, checkTriggerAlert t = .ok () :=
    fun t member => triggerAlert_checked accepted configured member
  refine ⟨fun m known => ⟨?_, fun status found => ?_⟩, ?_⟩
  · rw [alertStatusMap_eq_latch, Table.latch_isSome,
      ← alerted_of_write distinct checked known (fun _ => True) (fun _ => True) fun _ => Iff.rfl]
    simp only [and_true]
  · have severest : status.state = .unreachable ↔
        Alerted monitor.triggerAlerts rawAlerts m (·.state = .unreachable) := by
      -- the guard of the loop makes the table a latch for this state
      rw [← alerted_of_write distinct checked known (·.state = .unreachable)
        (AlertStatus.isUnreachable · = true) fun t => by simp [AlertStatus.isUnreachable],
        ← Table.latch_any, ← alertStatusMap_eq_latch, found]
      simp [AlertStatus.isUnreachable]
    refine ⟨severest, fun otherwise => ?_⟩
    have state : (alertStatusMap monitor.triggerAlerts rawAlerts machines m.ipv4Addr).map
        (·.state) = _ := alertStatusMap_state distinct checked m.ipv4Addr
    have below : status.state ≠ .unreachable := fun state => otherwise (severest.mp state)
    rw [found] at state
    simpa [AlertStatus.isUnreachable, below] using state
  · intro triggerAlerts' rawAlerts' machines' triggers alerts permuted address
    have checked' : ∀ t ∈ triggerAlerts', checkTriggerAlert t = .ok () :=
      fun t member => checked t (triggers.mem_iff.mp member)
    have distinct' := distinct.perm permuted
    refine alertStatusMap_congr distinct distinct' checked checked' (fun w => ?_) address
    rw [mem_alertWrites distinct' checked', mem_alertWrites distinct checked]
    simp only [triggers.mem_iff, alerts.mem_iff, permuted.mem_iff]

/-- A disk error by serial and an unreachable node by address. -/
def twoTriggers : AlertMonitor where
  alertmanagerEndpoint := "http://alertmanager/"
  triggerAlerts := [⟨"NodeDown", [], "instance", "", .unreachable⟩,
    ⟨"DiskError", [("severity", "error")], "", "serial", .unhealthy⟩]

/-- Both alerts are about the first of two machines, the less severe one is compared last. -/
theorem alert_severity_twoTriggers :
    (alertStatusMap twoTriggers.triggerAlerts
      [[("alertname", "DiskError"), ("serial", "a"), ("severity", "error")],
        [("alertname", "NodeDown"), ("instance", "10.0.0.1")]]
      [⟨"a", "", "10.0.0.1", .healthy⟩, ⟨"b", "", "10.0.0.2", .healthy⟩] "10.0.0.1").map
        (·.state) = some .unreachable := by
  have distinct : DistinctMachines
      [⟨"a", "", "10.0.0.1", .healthy⟩, ⟨"b", "", "10.0.0.2", .healthy⟩] :=
    ⟨by decide, by decide⟩
  have accepted : parseConfig ⟨"", [⟨"boot", [], 0⟩], some twoTriggers⟩ =
      .ok ⟨"", machineTypeMap [⟨"boot", [], 0⟩], some twoTriggers⟩ := rfl
  have severity := alert_severity accepted rfl
    [[("alertname", "NodeDown"), ("instance", "10.0.0.1")],
      [("alertname", "DiskError"), ("serial", "a"), ("severity", "error")]] _ distinct
  rw [severity.2 _ _ _ (.refl _) (.swap _ _ []) (.refl _)]
  decide +kernel

end Neco.StateSetter
