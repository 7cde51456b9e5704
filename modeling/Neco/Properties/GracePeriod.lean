import Neco.StateSetter.Outcome
import Mathlib.Data.List.DropRight
import Mathlib.Data.List.Induction

/-!
# The grace period measures the current streak

The registry of unhealthy machines is a summary of the past calls: it holds a machine exactly
when the latest calls that listed it judged it as unhealthy, with the time of the first of them.
So a machine is set to unhealthy, unless by an alert, exactly when it has been judged so without
a break for longer than its grace period.
-/

namespace Neco.StateSetter

open Program

/-! ### Past calls -/

/-- The controller after a sequence of calls. -/
def after (config : ParsedConfig) (h : List Answers) : Controller :=
  h.foldl (fun c e => (c.runOnce.eval e).2) (newController config)

/-- Whether a call lists a machine. -/
def lists (serial : String) (e : Answers) : Bool := (listed e).any (·.serial = serial)

/-- Whether a call judges a machine as unhealthy that sabakan does not know to be so. -/
def suspects (config : ParsedConfig) (serial : String) (e : Answers) : Bool :=
  (listed e).any fun m => m.serial = serial &&
    (newController config).candidate e m = some .unhealthy && m.state ≠ .unhealthy

/-- The calls that list a machine. -/
def listings (h : List Answers) (serial : String) : List Answers := h.filter (lists serial)

/-- The unbroken run of the latest calls that suspect a machine, among those that list it. -/
def streak (config : ParsedConfig) (h : List Answers) (serial : String) : List Answers :=
  (listings h serial).rtakeWhile (suspects config serial)

theorem after_concat (config : ParsedConfig) (h : List Answers) (e : Answers) :
    after config (h ++ [e]) = ((after config h).runOnce.eval e).2 := by
  simp [after]

theorem config_after (config : ParsedConfig) (h : List Answers) :
    (after config h).machineTypes = config.machineTypes ∧
      (after config h).triggerAlerts = (newController config).triggerAlerts := by
  induction h using List.reverseRecOn with
  | nil => exact ⟨rfl, rfl⟩
  | append_singleton h e ih =>
    rw [after_concat, (config_runOnce _ e).1, (config_runOnce _ e).2]
    exact ih

/-- The registry has no part in the judgement. -/
theorem newState_congr {c c' : Controller} (types : c'.machineTypes = c.machineTypes)
    (alerts : c'.triggerAlerts = c.triggerAlerts) (e : Answers) (m : Machine) :
    c'.newState e m = c.newState e m := by
  obtain ⟨_, _, _⟩ := c
  obtain ⟨_, _, _⟩ := c'
  cases types
  cases alerts
  rfl

theorem newState_after (config : ParsedConfig) (h : List Answers) (e : Answers) (m : Machine) :
    (after config h).newState e m = (newController config).newState e m :=
  newState_congr (config_after config h).1 (config_after config h).2 e m

/-- A machine that is retired is not judged. -/
theorem newState_unhealthy {c : Controller} {e : Answers} {m : Machine} :
    c.newState e m = some .unhealthy ↔ c.candidate e m = some .unhealthy := by
  unfold Controller.newState
  split
  next retired =>
    have unchecked : c.candidate e m = none := by
      simp [Controller.candidate, retired.1, MachineState.isChecked]
    simp [unchecked]
  · rfl

theorem suspects_iff {config : ParsedConfig} {e : Answers} (distinct : Distinct e) {m : Machine}
    (member : m ∈ listed e) : suspects config m.serial e = true ↔
      (newController config).newState e m = some .unhealthy ∧ m.state ≠ .unhealthy := by
  simp only [suspects, List.any_eq_true, Bool.and_eq_true, decide_eq_true_eq, newState_unhealthy]
  constructor
  · rintro ⟨m', member', ⟨same, unhealthy⟩, other⟩
    rw [← distinct.eq_of_serial member' member same]
    exact ⟨unhealthy, other⟩
  · rintro ⟨unhealthy, other⟩
    exact ⟨m, member, ⟨rfl, unhealthy⟩, other⟩

/-! ### The registry -/

/-- The registry holds the time of the first call of the streak. -/
theorem registry_eq_streak (config : ParsedConfig) {h : List Answers}
    (distinct : ∀ e ∈ h, Distinct e) (serial : String) :
    (after config h).unhealthyMachines serial =
      (streak config h serial).head?.map fun e => e .now := by
  induction h using List.reverseRecOn with
  | nil => rfl
  | append_singleton h e ih =>
    obtain ⟨past, present⟩ := List.forall_mem_append.mp distinct
    have distinctE : Distinct e := present e (List.mem_singleton.mpr rfl)
    rw [after_concat, streak, listings, List.filter_append]
    by_cases listing : lists serial e = true
    · obtain ⟨m, member, same⟩ := List.any_eq_true.mp listing
      have same : m.serial = serial := by simpa using same
      subst same
      rw [registry_listed distinctE _ member, newState_after, ih past, Machine.registered,
        List.filter_cons_of_pos listing, List.filter_nil]
      by_cases suspected : suspects config m.serial e = true
      · -- The streak goes on, or begins with this call.
        rw [if_pos ((suspects_iff distinctE member).mp suspected),
          List.rtakeWhile_concat_pos _ _ _ suspected, streak, listings, List.head?_append]
        cases (List.rtakeWhile (suspects config m.serial) (h.filter (lists m.serial))).head? <;> rfl
      · rw [if_neg fun unhealthy => suspected ((suspects_iff distinctE member).mpr unhealthy),
          List.rtakeWhile_concat_neg _ _ _ suspected]
        rfl
    · have absent : ∀ m ∈ listed e, m.serial ≠ serial := by
        intro m member same
        exact listing (List.any_eq_true.mpr ⟨m, member, by simpa using same⟩)
      rw [registry_unlisted _ absent, ih past, List.filter_cons_of_neg listing, List.filter_nil,
        List.append_nil]
      rfl

/-- A streak is one of the latest call. -/
theorem latest_of_streak {config : ParsedConfig} {h : List Answers} {serial : String}
    (begun : streak config h serial ≠ []) :
    ((listings h serial).getLast?).any (suspects config serial) = true := by
  rw [streak, ne_eq, List.rtakeWhile_eq_nil_iff] at begun
  simp only [not_forall, not_not] at begun
  obtain ⟨some, suspected⟩ := begun
  rw [List.getLast?_eq_some_getLast some]
  exact suspected

/-! ### The end of the grace period -/

theorem exceeded_iff {c : Controller} {m : Machine} {type : MachineType}
    (known : c.machineTypes m.type = some type) (now : Int) :
    (c.registerUnhealthy m now).1 = true ↔
      ∃ t, c.unhealthyMachines m.serial = some t ∧ t + type.gracePeriod < now := by
  unfold Controller.registerUnhealthy
  cases c.unhealthyMachines m.serial with
  | none => simp
  | some startTime => simp [known]

/-- Only an alert makes a machine unhealthy at once. -/
theorem sent_unhealthy_iff {c : Controller} {now : Int} {m : Machine} {new : Option MachineState}
    (noAlert : new ≠ some .unhealthyImmediate) :
    c.sent now m new = some .unhealthy ↔
      (new = some .unhealthy ∧ m.state ≠ .unhealthy) ∧ (c.registerUnhealthy m now).1 = true := by
  cases new with
  | none => simp [Controller.sent]
  | some newState =>
    have other : newState ≠ .unhealthyImmediate := fun same => noAlert (congrArg some same)
    simp only [Controller.sent, other, false_and, or_false, if_false, Option.some.injEq]
    split
    next same =>
      subst same
      simp
    next changed =>
      split
      next unhealthy =>
        subst unhealthy
        simp [Ne.symm changed]
      next notUnhealthy => simp [notUnhealthy]

theorem newState_ne_immediate {c : Controller} {e : Answers} {m : Machine}
    (noAlert : c.alertStatuses e m.ipv4Addr = none) :
    c.newState e m ≠ some .unhealthyImmediate := by
  unfold Controller.newState Controller.candidate
  split
  · simp
  · split
    · intro immediate
      exact MachineStateSource.alert_of_immediate (Option.some.inj immediate)
        ((alertStatus_source c m).trans noAlert)
    · simp

/-- A machine is judged as unhealthy only without an alert. -/
theorem noAlert_of_newState {c : Controller} {e : Answers} {m : Machine}
    (unhealthy : c.newState e m = some .unhealthy) : c.alertStatuses e m.ipv4Addr = none := by
  rw [newState_unhealthy, Controller.candidate] at unhealthy
  split at unhealthy
  · rw [← alertStatus_source]
    exact MachineStateSource.noAlert_of_unhealthy (Option.some.inj unhealthy)
  · cases unhealthy

/-- After any sequence of calls the registry holds a machine with a time exactly when the latest
call that listed it suspects it, and the time is that of the first call of the streak. A further
call sets a machine of a known type to unhealthy without an alert exactly when it suspects the
machine and the streak began so early that the grace period is over. -/
theorem grace_period_exact (config : ParsedConfig) (h : List Answers)
    (distinct : ∀ e ∈ h, Distinct e) :
    (∀ serial t, (after config h).unhealthyMachines serial = some t ↔
      ((listings h serial).getLast?).any (suspects config serial) = true ∧
      (streak config h serial).head?.map (fun first => first .now) = some t) ∧
    ∀ e, Distinct e → ∀ m ∈ listed e, ∀ type, config.machineTypes m.type = some type →
      (.updateSabakanState m.serial .unhealthy ∈ (after config h).runOnce.trace e ∧
          (newController config).alertStatuses e m.ipv4Addr = none ↔
        suspects config m.serial e = true ∧
          ∃ t, (streak config h m.serial).head?.map (fun first => first .now) = some t ∧
            t + type.gracePeriod < e .now) := by
  constructor
  · intro serial t
    rw [registry_eq_streak config distinct serial]
    refine ⟨fun found => ⟨latest_of_streak fun none => ?_, found⟩, And.right⟩
    rw [none] at found
    cases found
  · intro e distinctE m member type known
    have known' : (after config h).machineTypes m.type = some type := by
      rw [(config_after config h).1, known]
    rw [update_mem_trace distinctE _ member, newState_after, suspects_iff distinctE member,
      ← registry_eq_streak config distinct, ← exceeded_iff known' (e .now)]
    constructor
    · rintro ⟨sends, noAlert⟩
      exact (sent_unhealthy_iff (newState_ne_immediate noAlert)).mp sends
    · rintro ⟨suspected, exceeded⟩
      have noAlert := noAlert_of_newState suspected.1
      exact ⟨(sent_unhealthy_iff (newState_ne_immediate noAlert)).mpr ⟨suspected, exceeded⟩,
        noAlert⟩

/-- A machine with a failed unit, at a given time. -/
def failing (now : Int) : Answers
  | .getAllMachines => some [⟨"1", "type1", "10.0.0.1", .healthy⟩]
  | .serfMembers => some [⟨"10.0.0.1", "alive", [(systemdUnitsFailedTag, "a.service")]⟩]
  | .getAlerts => some []
  | .connectMetricsServer _ _ => none
  | .cryptsDelete _ => true
  | .tpmClear _ => true
  | .now => now
  | .updateSabakanState _ _ => true

/-- One machine type with a grace period of 60. -/
def oneType : ParsedConfig := ⟨"", machineTypeMap [⟨"type1", [], 60⟩], none⟩

theorem grace_period_exact_failing :
    (after oneType [failing 10, failing 40]).unhealthyMachines "1" = some 10 ∧
      .updateSabakanState "1" .unhealthy ∈
        (after oneType [failing 10, failing 40]).runOnce.trace (failing 71) ∧
      .updateSabakanState "1" .unhealthy ∉
        (after oneType [failing 10, failing 40]).runOnce.trace (failing 70) := by
  have streaks := grace_period_exact oneType [failing 10, failing 40] (by decide +kernel)
  have further (now : Int) (distinct : Distinct (failing now)) :=
    streaks.2 (failing now) distinct ⟨"1", "type1", "10.0.0.1", .healthy⟩
      (List.mem_singleton.mpr rfl) ⟨"type1", [], 60⟩ (by decide +kernel)
  have began : (streak oneType [failing 10, failing 40] "1").head?.map (fun first => first .now) =
      some 10 := by decide +kernel
  refine ⟨(streaks.1 "1" 10).mpr (by decide +kernel), ?_, fun sent => ?_⟩
  · exact ((further 71 (by decide +kernel)).mpr ⟨by decide +kernel, 10, began, by decide⟩).1
  · obtain ⟨_, t, start, elapsed⟩ := (further 70 (by decide +kernel)).mp ⟨sent, rfl⟩
    rw [began] at start
    cases start
    revert elapsed
    decide

end Neco.StateSetter
