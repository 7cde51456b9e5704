import Neco.Lib.Reordered
import Neco.Lib.Table
import Neco.StateSetter.HealthCheck

/-!
# The health decision and its specification

`decideMachineStateCandidate` returns early on three levels: over the sources of information,
over the check list, and over the labels of a selector. Here its result is told by conditions
on the machine alone, in which no order occurs.
-/

namespace Neco.StateSetter

/-! ### The specification -/

/-- The metric has all exact labels of the selector, and labels with all its prefixes. -/
def Metric.Satisfies (m : Metric) (s : Selector) : Prop :=
  (∀ want ∈ s.labels, want ∈ m.label) ∧
    ∀ want ∈ s.labelPrefix, ∃ value, (want.1, value) ∈ m.label ∧ hasPrefix value want.2 = true

/-- Without a selector every metric is selected. -/
def Metric.Selected (m : Metric) (selector : Option Selector) : Prop :=
  ∀ s, selector = some s → m.Satisfies s

open Classical in
/-- The number of the metrics that a target selects. -/
noncomputable def TargetMetric.selected (target : TargetMetric) (mf : MetricFamily) : Nat :=
  mf.metric.countP fun m => m.Selected target.selector

open Classical in
/-- The number of the selected gauges with the value 0. -/
noncomputable def TargetMetric.good (target : TargetMetric) (mf : MetricFamily) : Nat :=
  mf.metric.countP fun m => m.Selected target.selector ∧ m.gauge = some 0

/-- A metric is selected and enough of the selected ones are good, all of them when the target
sets no minimum. -/
def TargetMetric.Met (target : TargetMetric) (mf : MetricFamily) : Prop :=
  (∃ m ∈ mf.metric, m.Selected target.selector) ∧
    target.minimumHealthyCount.getD (target.selected mf) ≤ (target.good mf : Int)

namespace MachineStateSource

/-- The family of the metrics with a name. -/
def family (mss : MachineStateSource) (name : String) : Option MetricFamily :=
  mss.metrics.bind (·.lookup name)

/-- The machine type is known and every target of its check list is met. -/
def HardwareHealthy (mss : MachineStateSource) : Prop :=
  ∃ type, mss.machineType = some type ∧
    ∀ target ∈ type.metricsCheckList, ∃ mf, mss.family target.name = some mf ∧ target.Met mf

/-- Serf knows the machine as alive. -/
def Alive (mss : MachineStateSource) : Prop :=
  ∃ serf, mss.serfStatus = some serf ∧ serf.status = "alive"

/-- An alert with the state is present. -/
def AlertedAs (mss : MachineStateSource) (state : MachineState) : Prop :=
  ∃ alert, mss.alertStatus = some alert ∧ alert.state = state

/-- The value of the tag `systemd-units-failed`. -/
def tag (mss : MachineStateSource) : Option String :=
  mss.serfStatus.bind (·.systemdUnitsFailed)

open Classical in
/-- The state that the machine should have. -/
noncomputable def specifiedState (mss : MachineStateSource) : MachineState :=
  if ¬ mss.Alive ∨ mss.AlertedAs .unreachable then .unreachable
  else if mss.AlertedAs .unhealthy then .unhealthyImmediate
  else if mss.tag = some "" ∧ mss.HardwareHealthy then .healthy
  else if mss.tag = none ∧ mss.HardwareHealthy then .empty
  else .unhealthy

/-- No metric has two labels of one name. -/
def DistinctLabels (mss : MachineStateSource) : Prop :=
  ∀ name mf, mss.family name = some mf → ∀ m ∈ mf.metric, (m.label.map Prod.fst).Nodup

/-- The alert has a state that `parseConfig` admits. -/
def AdmittedAlert (mss : MachineStateSource) : Prop :=
  ∀ alert, mss.alertStatus = some alert → alert.state = .unreachable ∨ alert.state = .unhealthy

end MachineStateSource

/-! ### The selector -/

theorem hasLabels_iff (test : String → String → Bool) (wanted : Labels) {m : Metric}
    (nodup : (m.label.map Prod.fst).Nodup) : hasLabels test wanted m = true ↔
      ∀ want ∈ wanted, ∃ value, (want.1, value) ∈ m.label ∧ test value want.2 = true := by
  simp only [hasLabels, List.all_eq_true]
  refine forall₂_congr fun want _ => ?_
  cases found : m.label.find? (·.1 = want.1) with
  | none =>
    simp only [Bool.false_eq_true, false_iff]
    rintro ⟨value, member, -⟩
    rw [(Table.find?_key nodup).mpr ⟨member, rfl⟩] at found
    cases found
  | some label =>
    obtain ⟨member, named⟩ := (Table.find?_key nodup).mp found
    constructor
    · intro passed
      exact ⟨label.2, named ▸ member, passed⟩
    · rintro ⟨value, member', passed⟩
      rw [(Table.find?_key nodup).mpr ⟨member', rfl⟩] at found
      cases found
      exact passed

theorem Selector.match?_iff (selector : Option Selector) (mf : MetricFamily) {m : Metric}
    (nodup : (m.label.map Prod.fst).Nodup) (member : m ∈ mf.metric) :
    m ∈ Selector.match? selector mf ↔ m.Selected selector := by
  cases selector with
  | none => simp [Selector.match?, Metric.Selected, member]
  | some s =>
    simp only [Selector.match?, Selector.isMetricMatchedLabels, Selector.isMetricHasPrefix,
      List.mem_filter, member, Bool.and_eq_true, hasLabels_iff _ _ nodup, true_and,
      Metric.Selected, Option.some.injEq, forall_eq', Metric.Satisfies, decide_eq_true_eq]
    refine and_congr_left fun _ => forall₂_congr fun want _ => ?_
    constructor
    · rintro ⟨value, here, rfl⟩
      exact here
    · intro here
      exact ⟨want.2, here, rfl⟩

/-! ### The check list -/

section

variable {mf : MetricFamily} (nodup : ∀ m ∈ mf.metric, (m.label.map Prod.fst).Nodup)

include nodup

open Classical in
theorem Selector.match?_eq_filter (selector : Option Selector) :
    Selector.match? selector mf = mf.metric.filter fun m => m.Selected selector := by
  cases selector with
  | none => simp [Selector.match?, Metric.Selected]
  | some s =>
    refine List.filter_congr fun m member => ?_
    have same := Selector.match?_iff (some s) mf (nodup m member) member
    simp only [Selector.match?, List.mem_filter, member, true_and] at same
    rw [Bool.eq_iff_iff, same, decide_eq_true_eq]

theorem length_match? (target : TargetMetric) :
    (Selector.match? target.selector mf).length = target.selected mf := by
  classical
  rw [Selector.match?_eq_filter nodup, TargetMetric.selected, List.countP_eq_length_filter]

theorem countP_match? (target : TargetMetric) :
    (Selector.match? target.selector mf).countP (·.gauge = some 0) = target.good mf := by
  classical
  rw [Selector.match?_eq_filter nodup, TargetMetric.good, List.countP_filter]
  refine List.countP_congr fun m _ => ?_
  simp [and_comm]

theorem match?_isEmpty (target : TargetMetric) :
    (Selector.match? target.selector mf).isEmpty = false ↔
      ∃ m ∈ mf.metric, m.Selected target.selector := by
  classical
  rw [Selector.match?_eq_filter nodup, List.isEmpty_eq_false_iff_exists_mem]
  simp

/-- The good metrics are among the selected ones. -/
theorem TargetMetric.good_le_selected (target : TargetMetric) :
    target.good mf ≤ target.selected mf := by
  rw [← countP_match? nodup, ← length_match? nodup]
  exact List.countP_le_length

theorem checkTarget_iff (target : TargetMetric) :
    checkTarget mf target = .healthy ↔ target.Met mf := by
  have le := target.good_le_selected nodup
  simp only [checkTarget, length_match? nodup, countP_match? nodup, TargetMetric.Met,
    ← match?_isEmpty nodup]
  cases (Selector.match? target.selector mf).isEmpty with
  | true => simp
  | false =>
    cases target.minimumHealthyCount with
    | none =>
      simp only [Bool.false_eq_true, if_false, Option.getD_none, true_and]
      split
      · simp
        omega
      · simp
        omega
    | some minCount =>
      simp only [Bool.false_eq_true, if_false, Option.getD_some, true_and]
      split
      · simp
        omega
      · simp
        omega

end

theorem checkTargets_iff (metrics : Metrics)
    (nodup : ∀ name mf, metrics.lookup name = some mf → ∀ m ∈ mf.metric,
      (m.label.map Prod.fst).Nodup) (targets : List TargetMetric) :
    checkTargets metrics targets = .healthy ↔
      ∀ target ∈ targets, ∃ mf, metrics.lookup target.name = some mf ∧ target.Met mf := by
  induction targets with
  | nil => simp [checkTargets]
  | cons target rest ih =>
    rw [List.forall_mem_cons, ← ih, checkTargets]
    cases found : metrics.lookup target.name with
    | none => simp
    | some mf =>
      have here := checkTarget_iff (nodup _ _ found) target
      rcases checkTarget_cases mf target with state | state
      · simp [state, here.mp state]
      · have unmet : ¬ target.Met mf := fun met => by
          rw [here.mpr met] at state
          cases state
        simp [state, unmet]

namespace MachineStateSource

variable {mss : MachineStateSource}

theorem decideByMonitorHW_iff (distinct : mss.DistinctLabels) :
    mss.decideByMonitorHW = .healthy ↔ mss.HardwareHealthy := by
  unfold decideByMonitorHW HardwareHealthy
  cases mss.machineType with
  | none => simp
  | some type =>
    simp only [Option.some.injEq, exists_eq_left']
    cases list : type.metricsCheckList with
    | nil => simp
    | cons target rest =>
      cases known : mss.metrics with
      | none =>
        refine iff_of_false (by simp) fun all => ?_
        obtain ⟨mf, found, -⟩ := all target (List.mem_cons_self ..)
        simp [family, known] at found
      | some metrics =>
        have lookup : ∀ name, mss.family name = metrics.lookup name := fun name => by
          simp [family, known]
        simp only [lookup]
        exact checkTargets_iff metrics (fun name mf found => distinct name mf
          ((lookup name).trans found)) _

/-- A decision without alerts, told by the hardware. -/
theorem decide_alive (distinct : mss.DistinctLabels) {serf : SerfStatus}
    (known : mss.serfStatus = some serf) (alive : serf.status = "alive")
    (quiet : mss.alertStatus = none) :
    (mss.HardwareHealthy → serf.systemdUnitsFailed = some "" →
      mss.decideMachineStateCandidate = .healthy) ∧
    (mss.HardwareHealthy → serf.systemdUnitsFailed = none →
      mss.decideMachineStateCandidate = .empty) ∧
    (¬ mss.HardwareHealthy ∨ (∃ failed, serf.systemdUnitsFailed = some failed ∧ failed ≠ "") →
      mss.decideMachineStateCandidate = .unhealthy) := by
  have hardware := decideByMonitorHW_iff distinct
  simp only [decideMachineStateCandidate, known, alive, quiet, ne_eq, not_true, if_false]
  refine ⟨fun healthy tag => ?_, fun healthy tag => ?_, ?_⟩
  · simp [tag, hardware.mpr healthy]
  · simp [tag, hardware.mpr healthy]
  · rintro (broken | ⟨failed, tag, some_⟩)
    · rcases mss.decideByMonitorHW_cases with state | state
      · exact absurd (hardware.mp state) broken
      · rw [state]
        split <;> rfl
    · simp [tag, some_]

/-- The decision equals its specification. -/
theorem decide_eq_specified (distinct : mss.DistinctLabels) (admitted : mss.AdmittedAlert) :
    mss.decideMachineStateCandidate = mss.specifiedState := by
  unfold specifiedState
  cases known : mss.serfStatus with
  | none =>
    rw [if_pos (.inl fun ⟨_, found, _⟩ => by rw [known] at found; cases found)]
    simp [decideMachineStateCandidate, known]
  | some serf =>
    by_cases alive : serf.status = "alive"
    · have up : mss.Alive := ⟨serf, known, alive⟩
      have tag : mss.tag = serf.systemdUnitsFailed := by simp [MachineStateSource.tag, known]
      cases firing : mss.alertStatus with
      | some alert =>
        have as_ : ∀ state, mss.AlertedAs state ↔ alert.state = state := fun state => by
          simp [AlertedAs, firing]
        rcases admitted alert firing with state | state
        · rw [if_pos (.inr ((as_ _).mpr state))]
          simp [decideMachineStateCandidate, known, alive, firing, state]
        · rw [if_neg (by simp [up, as_, state]), if_pos ((as_ _).mpr state)]
          simp [decideMachineStateCandidate, known, alive, firing, state]
      | none =>
        have quiet : ∀ state, ¬ mss.AlertedAs state := fun state => by simp [AlertedAs, firing]
        obtain ⟨healthy, starting, unhealthy⟩ := decide_alive distinct known alive firing
        rw [if_neg (by simp [up, quiet]), if_neg (quiet _), tag]
        -- what remains is the hardware and the tag
        by_cases hardware : mss.HardwareHealthy
        · cases units : serf.systemdUnitsFailed with
          | none => simp [starting hardware units, hardware]
          | some failed =>
            by_cases clean : failed = ""
            · subst clean
              simp [healthy hardware units, hardware]
            · simp [unhealthy (.inr ⟨failed, units, clean⟩), clean]
        · simp [unhealthy (.inl hardware), hardware]
    · rw [if_pos (.inl fun ⟨_, found, ok⟩ => by rw [known] at found; cases found; exact alive ok)]
      simp [decideMachineStateCandidate, known, alive]

end MachineStateSource

/-! ### The order of the check list, of the metrics and of their labels -/

structure Metric.Same (m m' : Metric) : Prop where
  label : m.label.Perm m'.label
  gauge : m.gauge = m'.gauge

structure Selector.Same (s s' : Selector) : Prop where
  labels : s.labels.Perm s'.labels
  labelPrefix : s.labelPrefix.Perm s'.labelPrefix

structure TargetMetric.Same (target target' : TargetMetric) : Prop where
  name : target.name = target'.name
  selector : Option.Rel Selector.Same target.selector target'.selector
  minimumHealthyCount : target.minimumHealthyCount = target'.minimumHealthyCount

/-- The sources agree up to the order of the check list, of the metrics of each family and of the
labels of metrics and selectors. -/
structure MachineStateSource.Same (mss mss' : MachineStateSource) : Prop where
  serfStatus : mss.serfStatus = mss'.serfStatus
  alertStatus : mss.alertStatus = mss'.alertStatus
  machineType : Option.Rel
    (fun type type' => Reordered TargetMetric.Same type.metricsCheckList type'.metricsCheckList)
    mss.machineType mss'.machineType
  family : ∀ name, Option.Rel (fun mf mf' => Reordered Metric.Same mf.metric mf'.metric)
    (mss.family name) (mss'.family name)

theorem Metric.Same.satisfies {m m' : Metric} (same : m.Same m') {s s' : Selector}
    (selector : s.Same s') : m.Satisfies s ↔ m'.Satisfies s' := by
  simp only [Metric.Satisfies, same.label.mem_iff, selector.labels.mem_iff,
    selector.labelPrefix.mem_iff]

theorem Metric.Same.selected {m m' : Metric} (same : m.Same m') {s s' : Option Selector}
    (selector : Option.Rel Selector.Same s s') : m.Selected s ↔ m'.Selected s' := by
  cases selector with
  | none => simp [Metric.Selected]
  | some here => simpa [Metric.Selected] using same.satisfies here

theorem TargetMetric.Same.met {target target' : TargetMetric} (same : target.Same target')
    {mf mf' : MetricFamily} (metrics : Reordered Metric.Same mf.metric mf'.metric) :
    target.Met mf ↔ target'.Met mf' := by
  classical
  have selected : target.selected mf = target'.selected mf' :=
    metrics.countP_eq fun m m' here => by
      rw [decide_eq_decide, here.selected same.selector]
  have good : target.good mf = target'.good mf' :=
    metrics.countP_eq fun m m' here => by
      rw [decide_eq_decide, here.selected same.selector, here.gauge]
  unfold TargetMetric.Met
  rw [same.minimumHealthyCount, selected, good,
    metrics.exists_iff fun m m' here => here.selected same.selector]

namespace MachineStateSource

variable {mss mss' : MachineStateSource}

theorem Same.hardwareHealthy (same : mss.Same mss') :
    mss.HardwareHealthy ↔ mss'.HardwareHealthy := by
  refine Reordered.rel_exists_iff same.machineType fun type type' targets => ?_
  refine targets.forall_iff fun target target' here => ?_
  rw [here.name]
  exact Reordered.rel_exists_iff (same.family _) fun mf mf' metrics => here.met metrics

theorem Same.specifiedState (same : mss.Same mss') :
    mss.specifiedState = mss'.specifiedState := by
  have alive : mss.Alive = mss'.Alive := by rw [Alive, Alive, same.serfStatus]
  have alerted : mss.AlertedAs = mss'.AlertedAs := by
    funext state
    rw [AlertedAs, AlertedAs, same.alertStatus]
  have tag : mss.tag = mss'.tag := by rw [MachineStateSource.tag, same.serfStatus]; rfl
  unfold MachineStateSource.specifiedState
  rw [alive, alerted, tag, propext same.hardwareHealthy]

theorem Same.distinctLabels (same : mss.Same mss') (distinct : mss.DistinctLabels) :
    mss'.DistinctLabels := by
  intro name mf' found' m' member'
  have families := same.family name
  rw [found'] at families
  cases found : mss.family name with
  | none =>
    rw [found] at families
    cases families
  | some mf =>
    rw [found] at families
    obtain ⟨metrics⟩ := families
    obtain ⟨m, member, here⟩ := metrics.exists_left member'
    exact (here.label.map _).nodup_iff.mp (distinct name mf found m member)

/-- For metrics with distinct label names and alerts that `parseConfig` admits, the decision is
the specified one, and no order of the check list, of the metrics or of labels changes it. -/
theorem health_decision (mss : MachineStateSource) (distinct : mss.DistinctLabels)
    (admitted : mss.AdmittedAlert) :
    mss.decideMachineStateCandidate = mss.specifiedState ∧
      ∀ mss', mss.Same mss' → mss'.decideMachineStateCandidate = mss.decideMachineStateCandidate := by
  have decided := decide_eq_specified distinct admitted
  refine ⟨decided, fun mss' same => ?_⟩
  have admitted' : mss'.AdmittedAlert := fun alert firing =>
    admitted alert (same.alertStatus.trans firing)
  rw [decided, same.specifiedState, decide_eq_specified (same.distinctLabels distinct) admitted']

/-- One of two fans is good, which is the minimum. -/
def oneFan : MachineStateSource where
  serial := "a"
  ipv4 := "10.0.0.1"
  serfStatus := some ⟨"alive", some ""⟩
  alertStatus := none
  machineType := some ⟨"boot", [⟨"fan_health", some ⟨[("kind", "fan")], [("slot", "s")]⟩, some 1⟩], hour⟩
  metrics := some [("fan_health", ⟨[⟨[("kind", "fan"), ("slot", "s1")], some 0⟩,
    ⟨[("slot", "s2"), ("kind", "fan")], some 2⟩]⟩)]

theorem health_decision_oneFan : oneFan.specifiedState = .healthy := by
  have distinct : oneFan.DistinctLabels := by
    intro name mf found
    have all : ∀ mf ∈ oneFan.family name, ∀ m ∈ mf.metric, (m.label.map Prod.fst).Nodup := by
      by_cases same : name = "fan_health"
      · subst same
        decide +kernel
      · have other : (name == "fan_health") = false := by simpa using same
        simp [family, oneFan, List.lookup_cons, other]
    exact all mf found
  rw [← (health_decision oneFan distinct fun alert firing => by cases firing).1]
  decide +kernel

end MachineStateSource
end Neco.StateSetter
