import Neco.StateSetter.Controller
import Neco.Lib.Keyed

/-!
# What a call of `runOnce` does

A call is determined by the answers to the questions of the controller. No two machines of a
list have one serial, so each machine is treated as if it were the only one: its new state
depends on what was answered about it, its entry in the registry of unhealthy machines changes
with that state, and at most one state is sent for it.
-/

namespace Neco.StateSetter

open Program

abbrev Answers := (call : Call) → Reply call

/-- The machines of a call that comes to setting states; a call that fails before lists none. -/
def listed (e : Answers) : List Machine :=
  match e .getAllMachines, e .serfMembers with
  | some machines, some _ => machines
  | _, _ => []

/-- No two machines have one serial. -/
def Distinct (e : Answers) : Prop := ((listed e).map Machine.serial).Nodup

instance (e : Answers) : Decidable (Distinct e) := inferInstanceAs (Decidable (List.Nodup _))

namespace Controller

variable (c : Controller) (e : Answers)

def alertStatuses : String → Option AlertStatus := (c.getAlertStatuses (listed e)).eval e

/-- What is known about a machine when its state is decided. -/
def source (m : Machine) : MachineStateSource :=
  (connectMetrics (newMachineStateSource m (serfStatusMap ((e .serfMembers).getD []))
    (c.alertStatuses e) c.machineTypes)).eval e

/-- The result of the health check for a machine. -/
def candidate (m : Machine) : Option MachineState :=
  if m.state.isChecked ∧ (c.source e m).decideMachineStateCandidate ≠ .empty then
    some (c.source e m).decideMachineStateCandidate
  else none

/-- The result of the retirement and of the health check for a machine. -/
def newState (m : Machine) : Option MachineState :=
  if m.state = .retiring ∧ e (.cryptsDelete m.serial) = true ∧ e (.tpmClear m.serial) = true then
    some .retired
  else c.candidate e m

/-- The map of new states that `runOnce` builds. -/
def newStateMap : String → Option MachineState := fun serial =>
  ((machineRetire (listed e)).eval e serial).or
    ((c.machineHealthCheck (listed e) (serfStatusMap ((e .serfMembers).getD []))
      (c.alertStatuses e)).eval e serial)

/-- The loop of `runOnce` over the machines. -/
def setStates : Prog Controller := (listed e).foldlM (setMachineState (c.newStateMap e) (e .now)) c

end Controller

/-! ### The calls -/

/-- The calls that change nothing. -/
def Call.isRead : Call → Bool
  | .cryptsDelete _ => false
  | .tpmClear _ => false
  | .updateSabakanState _ _ => false
  | _ => true

section Calls

variable {e : Answers}

theorem trace_getAlertStatuses (c : Controller) (machines : List Machine) :
    ∀ call ∈ (c.getAlertStatuses machines).trace e, call.isRead = true := by
  unfold Controller.getAlertStatuses
  split
  · exact List.forall_mem_nil _
  · simp only [Prog.ask_bind, Prog.trace_call]
    intro call member
    rcases List.mem_cons.mp member with rfl | later
    · rfl
    · split at later <;> cases later

theorem trace_connectMetrics (mss : MachineStateSource) :
    ∀ call ∈ (connectMetrics mss).trace e, call.isRead = true := by
  unfold connectMetrics
  split
  · exact List.forall_mem_nil _
  · simp [Call.isRead]

theorem trace_machineHealthCheck (c : Controller) (machines : List Machine)
    (serfStatus : String → Option SerfStatus) (alertStatuses : String → Option AlertStatus) :
    ∀ call ∈ (c.machineHealthCheck machines serfStatus alertStatuses).trace e,
      call.isRead = true := by
  intro call member
  simp only [Controller.machineHealthCheck, Prog.trace_bind, Prog.pure_eq, Prog.trace_ret,
    List.append_nil, Prog.trace_mapM, List.mem_flatMap] at member
  obtain ⟨mss, _, here⟩ := member
  exact trace_connectMetrics mss call here

/-- A call that comes to setting states. -/
theorem runOnce_listed (c : Controller) {e : Answers} (some : listed e ≠ []) :
    c.runOnce.trace e =
        .getAllMachines :: .serfMembers :: ((c.getAlertStatuses (listed e)).trace e ++
          ((c.machineHealthCheck (listed e) (serfStatusMap ((e .serfMembers).getD []))
            (c.alertStatuses e)).trace e ++
          ((machineRetire (listed e)).trace e ++ .now :: (c.setStates e).trace e))) ∧
      (c.runOnce.eval e).2 = (c.setStates e).eval e := by
  cases found : e .getAllMachines with
  | none => simp [listed, found] at some
  | some machines =>
    cases members : e .serfMembers with
    | none => simp [listed, found, members] at some
    | some serf =>
      have list : listed e = machines := by simp [listed, found, members]
      rw [list] at some
      unfold Controller.setStates Controller.newStateMap
      simp [Controller.runOnce, found, members, some, Controller.alertStatuses, list]

/-- A call that comes to nothing. -/
theorem runOnce_nil (c : Controller) {e : Answers} (none : listed e = []) :
    (c.runOnce.trace e = [.getAllMachines] ∨
        c.runOnce.trace e = [.getAllMachines, .serfMembers]) ∧
      (c.runOnce.eval e).2 = c := by
  cases found : e .getAllMachines with
  | none => simp [Controller.runOnce, found]
  | some machines =>
    cases members : e .serfMembers with
    | none =>
      simp only [Controller.runOnce, Prog.ask_bind, Prog.trace_call, Prog.eval_call, found]
      split <;> simp [members]
    | some serf =>
      have list : machines = [] := by simpa [listed, found, members] using none
      simp [Controller.runOnce, found, list]

/-- A call of `runOnce` reads, retires machines, reads the clock and sets states. -/
theorem trace_runOnce (c : Controller) (e : Answers) :
    ∃ before between : List Call, (∀ call ∈ before ++ between, call.isRead = true) ∧
      c.runOnce.trace e =
        before ++ (machineRetire (listed e)).trace e ++ between ++ (c.setStates e).trace e := by
  by_cases none : listed e = []
  · refine ⟨c.runOnce.trace e, [], ?_, by simp [Controller.setStates, machineRetire, none]⟩
    rcases (runOnce_nil c none).1 with trace | trace <;> simp [trace, Call.isRead]
  · refine ⟨.getAllMachines :: .serfMembers :: ((c.getAlertStatuses (listed e)).trace e ++
      (c.machineHealthCheck (listed e) (serfStatusMap ((e .serfMembers).getD []))
        (c.alertStatuses e)).trace e), [.now], ?_, ?_⟩
    · simp only [List.cons_append, List.append_assoc, List.forall_mem_cons, List.forall_mem_append]
      exact ⟨rfl, rfl, trace_getAlertStatuses _ _, trace_machineHealthCheck _ _ _ _, rfl,
        List.forall_mem_nil _⟩
    · rw [(runOnce_listed c none).1]
      simp

theorem eval_runOnce (c : Controller) (e : Answers) :
    (c.runOnce.eval e).2 = (c.setStates e).eval e := by
  by_cases none : listed e = []
  · rw [(runOnce_nil c none).2, Controller.setStates, none]
    rfl
  · exact (runOnce_listed c none).2

end Calls

/-! ### The new state of a machine -/

section NewState

variable {e : Answers}

theorem serial_source (c : Controller) (m : Machine) : (c.source e m).serial = m.serial := by
  unfold Controller.source connectMetrics
  split <;> rfl

theorem alertStatus_source (c : Controller) (m : Machine) :
    (c.source e m).alertStatus = c.alertStatuses e m.ipv4Addr := by
  unfold Controller.source connectMetrics
  split <;> rfl

/-- A serial names one machine. -/
theorem Distinct.eq_of_serial (distinct : Distinct e) {m m' : Machine} (member : m ∈ listed e)
    (member' : m' ∈ listed e) (same : m.serial = m'.serial) : m = m' :=
  List.inj_on_of_nodup_map distinct member member' same

theorem recordCandidate_other {map : String → Option MachineState} {mss : MachineStateSource}
    {serial : String} (other : serial ≠ mss.serial) : recordCandidate map mss serial = map serial := by
  simp only [recordCandidate]
  split
  · rfl
  · exact Function.update_of_ne other ..

theorem eval_machineHealthCheck (distinct : Distinct e) (c : Controller) {m : Machine}
    (member : m ∈ listed e) :
    (c.machineHealthCheck (listed e) (serfStatusMap ((e .serfMembers).getD []))
      (c.alertStatuses e)).eval e m.serial = c.candidate e m := by
  have loop : (c.machineHealthCheck (listed e) (serfStatusMap ((e .serfMembers).getD []))
      (c.alertStatuses e)).eval e = ((listed e).filter (·.state.isChecked)).foldl
        (fun map m => recordCandidate map (c.source e m)) fun _ => none := by
    simp only [Controller.machineHealthCheck, Prog.eval_bind, Prog.pure_eq, Prog.eval_ret,
      Prog.eval_mapM, List.map_map, List.foldl_map]
    rfl
  have others (map : String → Option MachineState) (x : Machine) (serial : String)
      (other : serial ≠ x.serial) : recordCandidate map (c.source e x) serial = map serial :=
    recordCandidate_other (by rwa [serial_source])
  rw [loop]
  by_cases checked : m.state.isChecked = true
  · -- The round of the machine itself writes its serial, and no other round does.
    let own (x : Machine) (old : Option MachineState) : Option MachineState :=
      if (c.source e x).decideMachineStateCandidate = .empty then old
      else some (c.source e x).decideMachineStateCandidate
    have once : (((listed e).filter (·.state.isChecked)).map Machine.serial).Nodup :=
      distinct.sublist (List.filter_sublist.map _)
    have owned (map : String → Option MachineState) (x : Machine) :
        recordCandidate map (c.source e x) x.serial = own x (map x.serial) := by
      simp only [recordCandidate, own]
      split
      · rfl
      · rw [serial_source, Function.update_self]
    refine (Keyed.foldl_own id Machine.serial own others owned once
      (List.mem_filter.mpr ⟨member, checked⟩) _).trans ?_
    simp [own, Controller.candidate, checked]
  · -- No other machine has the serial.
    refine (Keyed.foldl_other id Machine.serial others ?_ _).trans ?_
    · intro x here same
      obtain ⟨listedX, checkedX⟩ := List.mem_filter.mp here
      exact checked (distinct.eq_of_serial listedX member same ▸ checkedX)
    · simp [Controller.candidate, checked]

theorem eval_machineRetire (distinct : Distinct e) {m : Machine} (member : m ∈ listed e) :
    (machineRetire (listed e)).eval e m.serial =
      if m.state = .retiring ∧ e (.cryptsDelete m.serial) = true ∧ e (.tpmClear m.serial) = true
      then some .retired else none := by
  let own (x : Machine) (old : Option MachineState) : Option MachineState :=
    if x.state = .retiring ∧ e (.cryptsDelete x.serial) = true ∧ e (.tpmClear x.serial) = true
    then some .retired else old
  have others (map : String → Option MachineState) (x : Machine) (serial : String)
      (other : serial ≠ x.serial) : (retireMachine map x).eval e serial = map serial := by
    unfold retireMachine
    split
    · rfl
    · simp only [Prog.ask_bind, Prog.eval_call]
      split
      · simp only [Prog.eval_call]
        split
        · exact Function.update_of_ne other ..
        · rfl
      · rfl
  have owned (map : String → Option MachineState) (x : Machine) :
      (retireMachine map x).eval e x.serial = own x (map x.serial) := by
    by_cases retiring : x.state = .retiring
    · cases deleted : e (.cryptsDelete x.serial) <;> cases cleared : e (.tpmClear x.serial) <;>
        simp [retireMachine, own, retiring, deleted, cleared]
    · simp [retireMachine, own, retiring]
  rw [machineRetire, Prog.eval_foldlM]
  exact Keyed.foldl_own id Machine.serial own others owned distinct member _

theorem newStateMap_eq (distinct : Distinct e) (c : Controller) {m : Machine}
    (member : m ∈ listed e) : c.newStateMap e m.serial = c.newState e m := by
  simp only [Controller.newStateMap, eval_machineRetire distinct member,
    eval_machineHealthCheck distinct c member, Controller.newState]
  split <;> rfl

end NewState

/-! ### One machine -/

/-- What the registry holds for a machine after a call. -/
def Machine.registered (m : Machine) (now : Int) (new : Option MachineState) (old : Option Int) :
    Option Int :=
  if new = some .unhealthy ∧ m.state ≠ .unhealthy then some (old.getD now) else none

/-- The state that is sent for a machine. -/
def Controller.sent (c : Controller) (now : Int) (m : Machine) :
    Option MachineState → Option MachineState
  | none => none
  | some newState =>
    if newState = m.state ∨ newState = .unhealthyImmediate ∧ m.state = .unhealthy then none
    else if newState = .unhealthyImmediate then some .unhealthy
    else if newState = .unhealthy then
      if (c.registerUnhealthy m now).1 then some .unhealthy else none
    else some newState

section OneMachine

variable {e : Answers}

theorem registerUnhealthy_snd (c : Controller) (m : Machine) (now : Int) :
    (c.registerUnhealthy m now).2 =
      { c with
        unhealthyMachines := Function.update c.unhealthyMachines m.serial
          (some ((c.unhealthyMachines m.serial).getD now)) } := by
  unfold Controller.registerUnhealthy
  cases found : c.unhealthyMachines m.serial with
  | none => rfl
  | some startTime =>
    have same : Function.update c.unhealthyMachines m.serial (some startTime) =
        c.unhealthyMachines := by rw [← found, Function.update_eq_self]
    rw [Option.getD_some, same]
    dsimp only
    split <;> rfl

/-- Only the entry of the machine changes. -/
theorem eval_setMachineState (map : String → Option MachineState) (now : Int) (c : Controller)
    (m : Machine) :
    (setMachineState map now c m).eval e =
      { c with
        unhealthyMachines := Function.update c.unhealthyMachines m.serial
          (m.registered now (map m.serial) (c.unhealthyMachines m.serial)) } := by
  unfold setMachineState Machine.registered
  cases new : map m.serial with
  | none => simp [Controller.clearUnhealthy]
  | some newState =>
    dsimp only
    split
    next unchanged =>
      -- nothing is sent; the entry goes, since the machine is not newly unhealthy
      have healthy : ¬(some newState = some .unhealthy ∧ m.state ≠ .unhealthy) := by
        rintro ⟨unhealthy, other⟩
        cases unhealthy
        rcases unchanged with same | ⟨immediate, _⟩
        · exact other same.symm
        · cases immediate
      rw [if_neg healthy]
      rfl
    next changed =>
      split
      next immediate =>
        subst immediate
        rfl
      · split
        next unhealthy =>
          -- the only case with a grace period
          subst unhealthy
          have waits : some MachineState.unhealthy = some .unhealthy ∧ m.state ≠ .unhealthy :=
            ⟨rfl, fun same => changed (.inl same.symm)⟩
          rw [if_pos waits, ← registerUnhealthy_snd]
          split <;> rfl
        next notUnhealthy =>
          rw [if_neg fun both => notUnhealthy (Option.some.inj both.1)]
          rfl

theorem trace_setMachineState (map : String → Option MachineState) (now : Int) (c : Controller)
    (m : Machine) :
    (setMachineState map now c m).trace e =
      (c.sent now m (map m.serial)).toList.map (.updateSabakanState m.serial) := by
  unfold setMachineState Controller.sent
  cases map m.serial with
  | none => rfl
  | some newState =>
    dsimp only
    split
    · rfl
    · split
      · rfl
      · split
        · split <;> rfl
        · rfl

end OneMachine

/-! ### All machines -/

section AllMachines

variable {e : Answers}

/-- The configuration is never changed. -/
theorem config_foldl (map : String → Option MachineState) (now : Int) (machines : List Machine)
    (c : Controller) :
    let after := machines.foldl (fun c m => (setMachineState map now c m).eval e) c
    after.machineTypes = c.machineTypes ∧ after.triggerAlerts = c.triggerAlerts := by
  induction machines generalizing c with
  | nil => exact ⟨rfl, rfl⟩
  | cons m rest ih =>
    rw [List.foldl_cons, eval_setMachineState]
    exact ih _

theorem config_runOnce (c : Controller) (e : Answers) :
    (c.runOnce.eval e).2.machineTypes = c.machineTypes ∧
      (c.runOnce.eval e).2.triggerAlerts = c.triggerAlerts := by
  rw [eval_runOnce, Controller.setStates, Prog.eval_foldlM]
  exact config_foldl ..

theorem registry_other (map : String → Option MachineState) (now : Int) (c : Controller)
    (m : Machine) (serial : String) (other : serial ≠ m.serial) :
    ((setMachineState map now c m).eval e).unhealthyMachines serial =
      c.unhealthyMachines serial := by
  rw [eval_setMachineState]
  exact Function.update_of_ne other ..

theorem registry_unlisted (c : Controller) {serial : String}
    (absent : ∀ m ∈ listed e, m.serial ≠ serial) :
    (c.runOnce.eval e).2.unhealthyMachines serial = c.unhealthyMachines serial := by
  rw [eval_runOnce, Controller.setStates, Prog.eval_foldlM]
  exact Keyed.foldl_other Controller.unhealthyMachines Machine.serial
    (registry_other _ _) absent c

theorem registry_listed (distinct : Distinct e) (c : Controller) {m : Machine}
    (member : m ∈ listed e) :
    (c.runOnce.eval e).2.unhealthyMachines m.serial =
      m.registered (e .now) (c.newState e m) (c.unhealthyMachines m.serial) := by
  have owned (c' : Controller) (x : Machine) :
      ((setMachineState (c.newStateMap e) (e .now) c' x).eval e).unhealthyMachines x.serial =
        x.registered (e .now) (c.newStateMap e x.serial) (c'.unhealthyMachines x.serial) := by
    rw [eval_setMachineState]
    exact Function.update_self ..
  rw [eval_runOnce, Controller.setStates, Prog.eval_foldlM, ← newStateMap_eq distinct c member]
  exact Keyed.foldl_own Controller.unhealthyMachines Machine.serial
    (fun x old => x.registered (e .now) (c.newStateMap e x.serial) old)
    (registry_other _ _) owned distinct member c

/-- Whether the grace period is over depends on the entry of the machine and on its type. -/
theorem sent_congr {c c' : Controller} {m : Machine} (types : c'.machineTypes = c.machineTypes)
    (entry : c'.unhealthyMachines m.serial = c.unhealthyMachines m.serial) (now : Int)
    (new : Option MachineState) : c'.sent now m new = c.sent now m new := by
  have exceeded : (c'.registerUnhealthy m now).1 = (c.registerUnhealthy m now).1 := by
    unfold Controller.registerUnhealthy
    rw [types, entry]
    split
    · rfl
    · split <;> rfl
  simp only [Controller.sent, exceeded]

/-- The loop over the machines sends what each machine is sent by itself. -/
theorem mem_trace_setStates (distinct : Distinct e) (c : Controller) {call : Call} :
    call ∈ (c.setStates e).trace e ↔ ∃ m ∈ listed e, ∃ st,
      c.sent (e .now) m (c.newState e m) = some st ∧ call = .updateSabakanState m.serial st := by
  have here (done rest : List Machine) (m : Machine) (split : listed e = done ++ m :: rest) :
      call ∈ (setMachineState (c.newStateMap e) (e .now)
        (done.foldl (fun c' x => (setMachineState (c.newStateMap e) (e .now) c' x).eval e) c)
        m).trace e ↔ ∃ st, c.sent (e .now) m (c.newState e m) = some st ∧
          call = .updateSabakanState m.serial st := by
    have member : m ∈ listed e := split ▸ List.mem_append_right _ (List.mem_cons_self ..)
    have once : ((done ++ m :: rest).map Machine.serial).Nodup := split ▸ distinct
    -- The machines before have changed neither the types nor the entry of this one.
    have entry := Keyed.foldl_before Controller.unhealthyMachines Machine.serial
      (registry_other (e := e) (c.newStateMap e) (e .now)) once c
    rw [trace_setMachineState, newStateMap_eq distinct c member,
      sent_congr (config_foldl _ _ done c).1 entry]
    simp only [List.mem_map, Option.mem_toList, eq_comm (a := call)]
  rw [Controller.setStates, Prog.mem_trace_foldlM]
  constructor
  · rintro ⟨done, m, rest, split, member⟩
    exact ⟨m, split ▸ List.mem_append_right _ (List.mem_cons_self ..),
      (here done rest m split).mp member⟩
  · rintro ⟨m, member, sends⟩
    obtain ⟨done, rest, split⟩ := List.append_of_mem member
    exact ⟨done, m, rest, split, (here done rest m split).mpr sends⟩

/-- Only the loops over the machines change anything. -/
theorem mem_trace_runOnce (c : Controller) {call : Call} (writes : call.isRead = false) :
    call ∈ c.runOnce.trace e ↔
      call ∈ (machineRetire (listed e)).trace e ∨ call ∈ (c.setStates e).trace e := by
  obtain ⟨before, between, reads, trace⟩ := trace_runOnce c e
  have notRead : call ∉ before ++ between := by
    intro member
    cases writes.symm.trans (reads call member)
  simp only [List.mem_append, not_or] at notRead
  simp [trace, notRead.1, notRead.2]

/-- The calls of the retirement, in their order. -/
theorem trace_retireMachine (map : String → Option MachineState) (m : Machine) :
    (retireMachine map m).trace e =
      if m.state = .retiring then
        .cryptsDelete m.serial ::
          if e (.cryptsDelete m.serial) = true then [.tpmClear m.serial] else []
      else [] := by
  by_cases retiring : m.state = .retiring
  · cases deleted : e (.cryptsDelete m.serial) with
    | false => simp [retireMachine, retiring, deleted]
    | true => cases cleared : e (.tpmClear m.serial) <;>
        simp [retireMachine, retiring, deleted, cleared]
  · simp [retireMachine, retiring]

theorem mem_trace_machineRetire {machines : List Machine} {call : Call} :
    call ∈ (machineRetire machines).trace e ↔ ∃ m ∈ machines, m.state = .retiring ∧
      (call = .cryptsDelete m.serial ∨
        e (.cryptsDelete m.serial) = true ∧ call = .tpmClear m.serial) := by
  have one (m : Machine) : (call ∈ if m.state = .retiring then
        .cryptsDelete m.serial ::
          if e (.cryptsDelete m.serial) = true then [.tpmClear m.serial] else []
      else []) ↔ m.state = .retiring ∧ (call = .cryptsDelete m.serial ∨
        e (.cryptsDelete m.serial) = true ∧ call = .tpmClear m.serial) := by
    split <;> simp_all
  simp only [machineRetire, Prog.mem_trace_foldlM, trace_retireMachine, one]
  constructor
  · rintro ⟨done, m, rest, rfl, retired⟩
    exact ⟨m, List.mem_append_right _ (List.mem_cons_self ..), retired⟩
  · rintro ⟨m, member, retired⟩
    obtain ⟨done, rest, split⟩ := List.append_of_mem member
    exact ⟨done, m, rest, split, retired⟩

/-- The state that a call sends for a machine. -/
theorem update_mem_trace (distinct : Distinct e) (c : Controller) {m : Machine}
    (member : m ∈ listed e) {st : MachineState} :
    .updateSabakanState m.serial st ∈ c.runOnce.trace e ↔
      c.sent (e .now) m (c.newState e m) = some st := by
  rw [mem_trace_runOnce c rfl, mem_trace_machineRetire, mem_trace_setStates distinct]
  constructor
  · rintro (⟨m', _, _, call | ⟨_, call⟩⟩ | ⟨m', member', st', sends, call⟩)
    · cases call
    · cases call
    · injection call with serial state
      rw [distinct.eq_of_serial member member' serial, sends, state]
  · exact fun sends => .inr ⟨m, member, st, sends, rfl⟩

theorem listed_of_update (distinct : Distinct e) (c : Controller) {serial : String}
    {st : MachineState} (sent : .updateSabakanState serial st ∈ c.runOnce.trace e) :
    ∃ m ∈ listed e, m.serial = serial := by
  rw [mem_trace_runOnce c rfl, mem_trace_machineRetire, mem_trace_setStates distinct] at sent
  rcases sent with ⟨m', _, _, call | ⟨_, call⟩⟩ | ⟨m, member, _, _, call⟩
  · cases call
  · cases call
  · injection call with serial
    exact ⟨m, member, serial.symm⟩

/-! ### No question is asked twice -/

end AllMachines
end Neco.StateSetter
