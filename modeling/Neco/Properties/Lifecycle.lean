import Neco.StateSetter.Outcome

/-!
# State changes stay inside the lifecycle

With an accepted configuration the controller sends sabakan only changes that the lifecycle of
machines allows: a machine that is in use becomes healthy, unhealthy or unreachable, and a
retiring one becomes retired once its disk keys are deleted and its TPM is cleared.
-/

namespace Neco.StateSetter

open Program

/-! ### Alerts -/

/-- The states of alerts satisfy a property. -/
def AlertStates (P : MachineState → Prop) (statuses : String → Option AlertStatus) : Prop :=
  ∀ address a, statuses address = some a → P a.state

theorem AlertStates.recordAlert {P : MachineState → Prop} {t : TriggerAlert}
    (configured : P t.state) {statuses : String → Option AlertStatus}
    (before : AlertStates P statuses) (machines : List Machine) (alert : Labels) :
    AlertStates P (recordAlert machines t statuses alert) := by
  unfold StateSetter.recordAlert
  split
  · cases alertTarget machines t alert with
    | none => exact before
    | some target =>
      dsimp only
      split
      · exact before
      · intro address a found
        by_cases own : address = target.ipv4Addr
        · rw [own, Function.update_self] at found
          cases found
          exact configured
        · rw [Function.update_of_ne own] at found
          exact before address a found
  · exact before

/-- The state of an alert is one of the configured states. -/
theorem alertStates_alertStatusMap {P : MachineState → Prop} {triggerAlerts : List TriggerAlert}
    (configured : ∀ t ∈ triggerAlerts, P t.state) (rawAlerts : List Labels)
    (machines : List Machine) :
    AlertStates P (alertStatusMap triggerAlerts rawAlerts machines) := by
  refine List.foldlRecOn triggerAlerts _ nofun fun statuses before t member => ?_
  exact List.foldlRecOn _ _ before fun _ before alert _ =>
    before.recordAlert (configured t member) machines alert

theorem alertStates_alertStatuses {P : MachineState → Prop} {c : Controller}
    (configured : ∀ triggerAlerts, c.triggerAlerts = some triggerAlerts →
      ∀ t ∈ triggerAlerts, P t.state) (e : Answers) :
    AlertStates P (c.alertStatuses e) := by
  unfold Controller.alertStatuses Controller.getAlertStatuses
  split
  · nofun
  next triggerAlerts found =>
    simp only [Prog.ask_bind, Prog.eval_call]
    split
    · nofun
    · exact alertStates_alertStatusMap (configured triggerAlerts found) _ _

/-! ### The states that are sent -/

/-- The states that the health check can find with an accepted configuration. -/
theorem candidate_state {c : Controller} {e : Answers}
    (alerts : AlertStates (fun st => st = .unreachable ∨ st = .unhealthy) (c.alertStatuses e))
    {m : Machine} {st : MachineState} (judged : c.candidate e m = some st) :
    m.state.isChecked = true ∧
      st ∈ [MachineState.healthy, .unhealthy, .unreachable, .unhealthyImmediate] := by
  unfold Controller.candidate at judged
  split at judged
  next checked =>
    cases judged
    refine ⟨checked.1, ?_⟩
    cases firing : (c.source e m).alertStatus with
    | none =>
      have decided := MachineStateSource.decide_of_no_alert firing
      simp only [List.mem_cons, List.not_mem_nil, or_false] at decided ⊢
      rcases decided with healthy | unhealthy | unreachable | empty
      · exact .inl healthy
      · exact .inr (.inl unhealthy)
      · exact .inr (.inr (.inl unreachable))
      · exact absurd empty checked.2
    | some a =>
      have state := alerts m.ipv4Addr a (alertStatus_source c m ▸ firing)
      rcases MachineStateSource.decide_of_alert firing with decided | decided
      · simp [decided]
      · rcases state with unreachable | unhealthy
        · simp [decided, unreachable]
        · simp [decided, unhealthy]
  · cases judged

/-- A change of the state of a machine that the lifecycle allows. The last part says that in the
same call the disk keys were deleted, then the TPM was cleared, and then the state was sent. -/
def Allowed (e : Answers) (calls : List Call) (m : Machine) (st : MachineState) : Prop :=
  m.state ∈ [MachineState.uninitialized, .healthy, .unhealthy, .unreachable] ∧
      st ∈ [MachineState.healthy, .unhealthy, .unreachable] ∧ st ≠ m.state ∨
    m.state = .retiring ∧ st = .retired ∧
      e (.cryptsDelete m.serial) = true ∧ e (.tpmClear m.serial) = true ∧
      [.cryptsDelete m.serial, .tpmClear m.serial, .updateSabakanState m.serial .retired].Sublist
        calls

theorem isChecked_iff {st : MachineState} : st.isChecked = true ↔
    st ∈ [MachineState.uninitialized, .healthy, .unhealthy, .unreachable] := by
  cases st <;> simp [MachineState.isChecked]

/-- The keys are deleted, and then the TPM is cleared. -/
theorem sublist_machineRetire {e : Answers} {machines : List Machine} {m : Machine}
    (member : m ∈ machines) (retiring : m.state = .retiring)
    (deleted : e (.cryptsDelete m.serial) = true) :
    [.cryptsDelete m.serial, .tpmClear m.serial].Sublist ((machineRetire machines).trace e) := by
  obtain ⟨done, rest, rfl⟩ := List.append_of_mem member
  have iteration := Prog.trace_sublist_foldlM e retireMachine done rest m fun _ => none
  rwa [trace_retireMachine, if_pos retiring, if_pos deleted] at iteration

theorem allowed_of_sent {c : Controller} {e : Answers} (distinct : Distinct e)
    (alerts : AlertStates (fun st => st = .unreachable ∨ st = .unhealthy) (c.alertStatuses e))
    {m : Machine} (member : m ∈ listed e) {st : MachineState}
    (sends : c.sent (e .now) m (c.newState e m) = some st) : Allowed e (c.runOnce.trace e) m st := by
  by_cases retired : m.state = .retiring ∧ e (.cryptsDelete m.serial) = true ∧
      e (.tpmClear m.serial) = true
  · have sent : st = .retired := by
      rw [Controller.newState, if_pos retired] at sends
      simpa [Controller.sent, retired.1, eq_comm] using sends
    subst sent
    refine .inr ⟨retired.1, rfl, retired.2.1, retired.2.2, ?_⟩
    -- The states are sent after all retirements.
    obtain ⟨before, between, _, trace⟩ := trace_runOnce c e
    have last : [.updateSabakanState m.serial .retired].Sublist ((c.setStates e).trace e) :=
      List.singleton_sublist.mpr
        ((mem_trace_setStates distinct c).mpr ⟨m, member, .retired, sends, rfl⟩)
    have first := (sublist_machineRetire member retired.1 retired.2.1).trans
      ((List.sublist_append_right before _).trans (List.sublist_append_left _ between))
    rw [trace]
    exact first.append last
  · rw [Controller.newState, if_neg retired] at sends
    cases judged : c.candidate e m with
    | none =>
      rw [judged] at sends
      cases sends
    | some newState =>
      obtain ⟨checked, state⟩ := candidate_state alerts judged
      refine .inl ⟨isChecked_iff.mp checked, ?_⟩
      rw [judged] at sends
      simp only [Controller.sent] at sends
      split at sends
      · cases sends
      next changed =>
        split at sends
        next immediate =>
          cases sends
          refine ⟨by decide, fun same => changed (.inr ⟨immediate, same.symm⟩)⟩
        next notImmediate =>
          have kept : newState ∈ [MachineState.healthy, .unhealthy, .unreachable] := by
            simpa [notImmediate] using state
          have other : newState ≠ m.state := fun same => changed (.inl same)
          split at sends
          next unhealthy =>
            subst unhealthy
            split at sends
            · cases sends
              exact ⟨kept, other⟩
            · cases sends
          · cases sends
            exact ⟨kept, other⟩

/-- The calls of one `runOnce` stay inside the lifecycle. -/
structure InLifecycle (e : Answers) (calls : List Call) : Prop where
  /-- A state is sent only for a listed machine. -/
  known : ∀ serial st, .updateSabakanState serial st ∈ calls → ∃ m ∈ listed e, m.serial = serial
  allowed : ∀ m ∈ listed e, ∀ st,
    .updateSabakanState m.serial st ∈ calls → Allowed e calls m st
  /-- Machines that are updating, retired or in an unknown state keep it. -/
  untouched : ∀ m ∈ listed e,
    m.state ∉ [MachineState.uninitialized, .healthy, .unhealthy, .unreachable, .retiring] →
    ∀ st, .updateSabakanState m.serial st ∉ calls
  /-- Only what belongs to a retiring machine is deleted and cleared. -/
  erased : ∀ serial, .cryptsDelete serial ∈ calls ∨ .tpmClear serial ∈ calls →
    ∃ m ∈ listed e, m.serial = serial ∧ m.state = .retiring
  internal : ∀ serial, .updateSabakanState serial .unhealthyImmediate ∉ calls ∧
    .updateSabakanState serial .empty ∉ calls

theorem Allowed.cases {e : Answers} {calls : List Call} {m : Machine} {st : MachineState}
    (allowed : Allowed e calls m st) :
    m.state ∈ [MachineState.uninitialized, .healthy, .unhealthy, .unreachable, .retiring] ∧
      st ∈ [MachineState.healthy, .unhealthy, .unreachable, .retired] := by
  rcases allowed with ⟨before, after, _⟩ | ⟨retiring, retired, _⟩
  · exact ⟨List.mem_append_left [MachineState.retiring] before,
      List.mem_append_left [MachineState.retired] after⟩
  · simp [retiring, retired]

theorem erased_of_trace {c : Controller} {e : Answers} (distinct : Distinct e) {call : Call}
    (called : call ∈ c.runOnce.trace e) {serial : String}
    (erases : call = .cryptsDelete serial ∨ call = .tpmClear serial) :
    ∃ m ∈ listed e, m.serial = serial ∧ m.state = .retiring := by
  have writes : call.isRead = false := by
    rcases erases with rfl | rfl <;> rfl
  rw [mem_trace_runOnce c writes, mem_trace_machineRetire, mem_trace_setStates distinct] at called
  rcases called with ⟨m, member, retiring, call | ⟨_, call⟩⟩ | ⟨_, _, _, _, call⟩
  · subst call
    exact ⟨m, member, by simpa using erases, retiring⟩
  · subst call
    exact ⟨m, member, by simpa using erases, retiring⟩
  · subst call
    simp at erases

/-- With an accepted configuration, and whatever the environment answers, the calls of `runOnce`
stay inside the lifecycle. -/
theorem lifecycle_respected {cfg : Config} {parsed : ParsedConfig}
    (accepted : parseConfig cfg = .ok parsed) (registry : String → Option Int) {e : Answers}
    (distinct : Distinct e) :
    InLifecycle e ({ newController parsed with unhealthyMachines := registry }.runOnce.trace e) := by
  let c : Controller := { newController parsed with unhealthyMachines := registry }
  have alerts : AlertStates (fun st => st = .unreachable ∨ st = .unhealthy)
      (c.alertStatuses e) := by
    refine alertStates_alertStatuses (fun triggerAlerts configured t member => ?_) e
    obtain ⟨monitor, found, rfl⟩ := Option.map_eq_some_iff.mp configured
    exact triggerAlert_state accepted found member
  have allowed (m : Machine) (member : m ∈ listed e) (st : MachineState)
      (sent : .updateSabakanState m.serial st ∈ c.runOnce.trace e) :
      Allowed e (c.runOnce.trace e) m st :=
    allowed_of_sent distinct alerts member ((update_mem_trace distinct c member).mp sent)
  -- a state is sent only for a listed machine, and then it is an allowed one
  have never (serial : String) (st : MachineState)
      (internal : st ∉ [MachineState.healthy, .unhealthy, .unreachable, .retired]) :
      .updateSabakanState serial st ∉ c.runOnce.trace e := by
    intro sent
    obtain ⟨m, member, rfl⟩ := listed_of_update distinct c sent
    exact internal (allowed m member st sent).cases.2
  exact
    { known := fun serial st sent => listed_of_update distinct c sent
      allowed := allowed
      untouched := fun m member other st sent => other (allowed m member st sent).cases.1
      erased := fun serial erases => by
        rcases erases with called | called
        · exact erased_of_trace distinct called (.inl rfl)
        · exact erased_of_trace distinct called (.inr rfl)
      internal := fun serial => ⟨never serial _ (by decide), never serial _ (by decide)⟩ }

/-- A configuration with one machine type and one alert. -/
def alertConfig : Config where
  shutdownSchedule := ""
  machineTypes := [⟨"type1", [], 0⟩]
  alertMonitor := some ⟨"alertmanager", [⟨"DiskFailure", [], "", "serial", .unhealthy⟩]⟩

/-- An alert is firing for one machine, and another one is to be retired. -/
def alertAndRetirement : Answers
  | .getAllMachines =>
    some [⟨"1", "type1", "10.0.0.1", .healthy⟩, ⟨"2", "type1", "10.0.0.2", .retiring⟩,
      ⟨"3", "type1", "10.0.0.3", .retired⟩]
  | .serfMembers => some [⟨"10.0.0.1", "alive", [(systemdUnitsFailedTag, "")]⟩]
  | .getAlerts => some [[(alertNameLabel, "DiskFailure"), ("serial", "1")]]
  | .connectMetricsServer _ _ => none
  | .cryptsDelete _ => true
  | .tpmClear _ => true
  | .now => 0
  | .updateSabakanState _ _ => true

theorem lifecycle_respected_alert :
    let parsed : ParsedConfig :=
      ⟨"", machineTypeMap alertConfig.machineTypes, alertConfig.alertMonitor⟩
    parseConfig alertConfig = .ok parsed ∧
      (newController parsed).runOnce.trace alertAndRetirement =
        [.getAllMachines, .serfMembers, .getAlerts, .cryptsDelete "2", .tpmClear "2", .now,
          .updateSabakanState "1" .unhealthy, .updateSabakanState "2" .retired] ∧
      InLifecycle alertAndRetirement ((newController parsed).runOnce.trace alertAndRetirement) :=
  ⟨rfl, by decide +kernel, lifecycle_respected (show parseConfig alertConfig = .ok _ from rfl) _
    (by decide +kernel)⟩

end Neco.StateSetter
