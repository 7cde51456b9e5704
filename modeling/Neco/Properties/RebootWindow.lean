import Neco.Rebooter.Config
import Neco.Lib.Fallible

/-!
# The reboot window of the commands and of the daemon

`neco rebooter add` and `reboot-worker` choose an entry of `rebootTimes` by the labels of the
node and record only its name. The daemon resolves the name through a map in which the last
entry of a name stays. The two apply one window iff that entry is open when the chosen one is.
-/

namespace Neco.Rebooter

open Program (Prog)
open Fallible (bind_eq_ok pure_eq_ok mem_of_mapM)

/-! ### Windows -/

def Schedule.isWithin (s : Schedule) (now : Int) : Bool := decide (s.next now - now ≤ second * 60)

def RebootTime.isOpen (rt : RebootTime) (now : Int) : Bool :=
  !rt.deny.any (·.isWithin now) && rt.allow.any (·.isWithin now)

/-- At the clock reading `now` none of the deny schedules of the entry and at least one of its
allow schedules is within schedule. -/
def RebootTimes.OpenAt (parseStandard : String → Except String Schedule) (rt : RebootTimes)
    (now : Int) : Prop :=
  (∀ spec ∈ rt.times.deny, ∀ s, parseStandard spec = .ok s → s.isWithin now = false) ∧
    ∃ spec ∈ rt.times.allow, ∃ s, parseStandard spec = .ok s ∧ s.isWithin now = true

theorem outcome_isWithinSchedule (answer : (c : Call) → Reply c) (s : Schedule) :
    (isWithinSchedule s).outcome answer = .ok (s.isWithin (answer .now)) := rfl

/-- The daemon finds an entry rebootable when the window under its reboot time is open. -/
theorem Controller.outcome_isRebootable (c : Controller) (entry : RebootListEntry)
    (answer : (c : Call) → Reply c) : (c.isRebootable entry).outcome answer =
      .ok ((c.rebootTimes.lookup entry.rebootTime).any (·.isOpen (answer .now))) := by
  unfold Controller.isRebootable
  cases c.rebootTimes.lookup entry.rebootTime with
  | none => rfl
  | some rt =>
    have tested := outcome_isWithinSchedule answer
    simp only [Prog.outcome_bind, Prog.outcome_anyM tested, Option.any_some, RebootTime.isOpen]
    cases rt.deny.any (·.isWithin (answer .now)) with
    | true => rfl
    | false => simpa [bind, Except.bind] using Prog.outcome_anyM tested rt.allow

theorem RebootTimes.openAt_iff {parseStandard : String → Except String Schedule}
    {rt : RebootTimes} {parsed : RebootTime} (ok : rt.parse parseStandard = .ok parsed)
    (now : Int) : rt.OpenAt parseStandard now ↔ parsed.isOpen now = true := by
  -- The schedules of the daemon are the ones that the two lists of texts are read as.
  simp only [RebootTimes.parse, bind_eq_ok, pure_eq_ok] at ok
  obtain ⟨denied, deny, allowed, allow, rfl⟩ := ok
  simp only [OpenAt, RebootTime.isOpen, Bool.and_eq_true, Bool.not_eq_true', List.any_eq_false,
    List.any_eq_true, mem_of_mapM deny, mem_of_mapM allow, Bool.not_eq_true]
  refine and_congr ?_ ?_
  · constructor
    · rintro closed s ⟨spec, member, read⟩
      exact closed spec member s read
    · intro closed spec member s read
      exact closed s ⟨spec, member, read⟩
  · constructor
    · rintro ⟨spec, member, s, read, within⟩
      exact ⟨s, ⟨spec, member, read⟩, within⟩
    · rintro ⟨s, ⟨spec, member, read⟩, within⟩
      exact ⟨spec, member, s, read, within⟩

/-! ### What the commands register -/

/-- `add` or `reboot-worker`, run with some nodes of the cluster among which `node` is found under
its name, registers the entry for `node`. -/
def Registers (config : CommandConfig) (node : KubeNode) (entry : RebootListEntry) : Prop :=
  entry.node = node.name ∧
    ((∃ nodes dryRun names answer, validateNode node.name nodes = some node ∧
      .registerRebootListEntry entry ∈ (rebooterAdd config nodes dryRun names).trace answer) ∨
    ∃ nodes dryRun machines answer, kubernetesNodeAddrs nodes node.name = some node ∧
      .registerRebootListEntry entry ∈ (rebootMachines config nodes dryRun machines).trace answer)

/-- Every entry that the program registers comes from `source`. -/
def Call.RegistersFrom (source : RebootListEntry → Prop) (c : Call) : Prop :=
  ∀ entry, c = .registerRebootListEntry entry → source entry

theorem rebooterAdd_uses (config : CommandConfig) (nodes : List KubeNode) (dryRun : Bool)
    (names : List String) : (rebooterAdd config nodes dryRun names).Uses
      (Call.RegistersFrom fun entry => ∃ name node, validateNode name nodes = some node ∧
        nodeEntry config node = .ok (some entry)) := by
  refine Prog.Uses.foldlM names (fun _ name _ => ?_) ()
  rw [newListEntry_eq]
  cases found : validateNode name nodes with
  | none => trivial
  | some node =>
    dsimp only
    split
    · trivial
    · trivial
    next entry made =>
      split
      · trivial
      · refine ⟨?_, fun _ => trivial⟩
        rintro _ ⟨⟩
        exact ⟨name, node, found, made⟩

theorem rebootMachines_uses (config : CommandConfig) (nodes : List KubeNode) (dryRun : Bool)
    (machines : List Machine) : (rebootMachines config nodes dryRun machines).Uses
      (Call.RegistersFrom fun entry => ∃ name node, kubernetesNodeAddrs nodes name = some node ∧
        nodeEntry config node = .ok (some entry)) := by
  refine Prog.Uses.bind (Prog.Uses.foldlM _ (fun _ node member => ?_) ()) fun _ => trivial
  obtain ⟨machine, _, found⟩ := List.mem_filterMap.mp member
  split
  · trivial
  · trivial
  next entry made =>
    split
    · trivial
    · refine ⟨?_, fun _ => trivial⟩
      rintro _ ⟨⟩
      split at found
      · cases found
      next addr _ _ => exact ⟨addr, node, found, made⟩

theorem nodeEntry_node {config : CommandConfig} {node : KubeNode} {entry : RebootListEntry}
    (made : nodeEntry config node = .ok (some entry)) : entry.node = node.name := by
  unfold nodeEntry at made
  split at made
  · cases made
  · split at made
    · cases made
    · cases made
      rfl

theorem validateNode_name {name : String} {nodes : List KubeNode} {node : KubeNode}
    (found : validateNode name nodes = some node) : node.name = name := by
  simpa [validateNode] using List.find?_some found

theorem kubernetesNodeAddrs_name {name : String} {nodes : List KubeNode} {node : KubeNode}
    (found : kubernetesNodeAddrs nodes name = some node) : node.name = name := by
  rw [kubernetesNodeAddrs, Table.assign_eq_find?, Option.map_eq_some_iff] at found
  obtain ⟨first, found, rfl⟩ := found
  simpa using List.find?_some found

/-- Replies for a program that does not look at any but the clock. -/
def clockAt (now : Int) : (c : Call) → Reply c
  | .now => now
  | .shuffle groups => groups
  | .isNecoRebooterEnabled => true
  | .enableNecoRebooter _ => ()
  | .getRebootListEntry _ => .error .notFound
  | .getRebootListEntries => []
  | .removeRebootListEntry _ _ => .ok ()
  | .updateRebootListEntry _ => .ok ()
  | .registerRebootListEntry _ => ()
  | .getProcessingGroup => ""
  | .updateProcessingGroup _ => ()
  | .getRebootsEntries => []
  | .registerRebootsEntry _ _ => ()
  | .updateRebootsEntry _ => .ok ()

/-- The commands register for a node what its labels say. -/
theorem registers_iff (config : CommandConfig) (node : KubeNode) (entry : RebootListEntry) :
    Registers config node entry ↔ nodeEntry config node = .ok (some entry) := by
  constructor
  · rintro ⟨named, ⟨nodes, dryRun, names, answer, found, made⟩ |
      ⟨nodes, dryRun, machines, answer, found, made⟩⟩
    · obtain ⟨name, node', found', entered⟩ :=
        (rebooterAdd_uses config nodes dryRun names).mem_trace made _ rfl
      -- the entry has the name under which its node was found
      rw [nodeEntry_node entered, validateNode_name found'] at named
      rw [named, found] at found'
      cases found'
      exact entered
    · obtain ⟨name, node', found', entered⟩ :=
        (rebootMachines_uses config nodes dryRun machines).mem_trace made _ rfl
      rw [nodeEntry_node entered, kubernetesNodeAddrs_name found'] at named
      rw [named, found] at found'
      cases found'
      exact entered
  · intro entered
    have here : validateNode node.name [node] = some node := by simp [validateNode]
    refine ⟨nodeEntry_node entered, .inl ⟨[node], false, [node.name], clockAt 0, here, ?_⟩⟩
    simp [rebooterAdd, newListEntry_eq, here, entered, ask, Prog.ask]

/-! ### The two choices -/

/-- The first entry of `rebootTimes` all of whose labels match the node. -/
def RebooterConfig.selected (config : RebooterConfig) (node : KubeNode) : Option RebootTimes :=
  config.rebootTimes.find? fun rt => rt.matchLabels.all fun label =>
    (node.labels.lookup label.1).getD "" == label.2

/-- The last entry of `rebootTimes` with a name. -/
def RebooterConfig.lastNamed (config : RebooterConfig) (name : String) : Option RebootTimes :=
  config.rebootTimes.reverse.find? (·.name = name)

theorem matchRebootTimes_commands (config : RebooterConfig) (node : KubeNode) :
    matchRebootTimes node config.commands.rebootTimes =
      (config.selected node).map RebootTimes.rule := by
  rw [matchRebootTimes, RebooterConfig.commands, List.find?_map, RebooterConfig.selected]
  rfl

theorem nodeEntry_commands (config : RebooterConfig) (node : KubeNode) (entry : RebootListEntry) :
    nodeEntry config.commands node = .ok (some entry) ↔
      ∃ group rt, node.labels.lookup config.groupLabelKey = some group ∧
        config.selected node = some rt ∧ entry = ⟨0, node.name, group, rt.name, .pending⟩ := by
  have key : config.commands.groupLabelKey = config.groupLabelKey := rfl
  unfold nodeEntry
  rw [matchRebootTimes_commands, key]
  cases node.labels.lookup config.groupLabelKey with
  | none => simp
  | some group =>
    cases config.selected node with
    | none => simp
    | some rt => simp [RebootTimes.rule, eq_comm]

/-- The daemon and the commands apply one window to the node: the entry registered for it is
rebootable iff the chosen entry of `rebootTimes` is open, and nothing is registered when there is
none. -/
def WindowsAgree (parseStandard : String → Except String Schedule) (config : RebooterConfig)
    (times : List (String × RebootTime)) (node : KubeNode) : Prop :=
  (∀ rt, config.selected node = some rt → ∀ entry, Registers config.commands node entry →
    ∀ answer, ((newController times).isRebootable entry).outcome answer = .ok true ↔
      rt.OpenAt parseStandard (answer .now)) ∧
  (config.selected node = none → ∀ entry, ¬ Registers config.commands node entry)

/-- If the node has a group, the last entry with the name of the chosen one is open at the same
clock readings. -/
def NameKeepsWindow (parseStandard : String → Except String Schedule) (config : RebooterConfig)
    (node : KubeNode) : Prop :=
  (node.labels.lookup config.groupLabelKey).isSome = true →
    ∀ rt last, config.selected node = some rt → config.lastNamed rt.name = some last →
      ∀ now, last.OpenAt parseStandard now ↔ rt.OpenAt parseStandard now

section

variable {parseStandard : String → Except String Schedule} {config : RebooterConfig}
  {times : List (String × RebootTime)}

theorem lastNamed_isSome {name : String} {rt : RebootTimes} (member : rt ∈ config.rebootTimes)
    (named : rt.name = name) : ∃ last ∈ config.rebootTimes, config.lastNamed name = some last := by
  cases found : config.lastNamed name with
  | none =>
    have all := List.find?_eq_none.mp found rt (List.mem_reverse.mpr member)
    exact absurd named (by simpa using all)
  | some last => exact ⟨last, List.mem_reverse.mp (List.mem_of_find?_eq_some found), rfl⟩

/-- The daemon applies the window of the last entry of a name. -/
theorem isRebootable_lastNamed (accepted : config.getRebootTime parseStandard = .ok times)
    {entry : RebootListEntry} {last : RebootTimes} (member : last ∈ config.rebootTimes)
    (named : config.lastNamed entry.rebootTime = some last) (answer : (c : Call) → Reply c) :
    ((newController times).isRebootable entry).outcome answer = .ok true ↔
      last.OpenAt parseStandard (answer .now) := by
  obtain ⟨parsed, found⟩ := RebooterConfig.getRebootTime_ok accepted
  obtain ⟨window, ok⟩ := parsed last member
  have under : times.lookup entry.rebootTime = some window := by
    rw [found, show config.rebootTimes.reverse.find? (·.name = entry.rebootTime) = some last
      from named]
    simp [ok, Except.toOption]
  rw [Controller.outcome_isRebootable, RebootTimes.openAt_iff ok]
  simp [newController, under]

/-- For every configuration that `GetRebootTime` accepts and every node: commands and daemon apply
one window iff the last entry with the chosen name is open when the chosen entry is. -/
theorem windows_agree_iff (accepted : config.getRebootTime parseStandard = .ok times)
    (node : KubeNode) :
    WindowsAgree parseStandard config times node ↔ NameKeepsWindow parseStandard config node := by
  unfold WindowsAgree
  simp only [registers_iff, nodeEntry_commands]
  constructor
  · rintro ⟨agree, -⟩ grouped rt last chosen named now
    obtain ⟨group, grouped⟩ := Option.isSome_iff_exists.mp grouped
    have inside := List.mem_reverse.mp (List.mem_of_find?_eq_some named)
    have same := agree rt chosen _ ⟨group, rt, grouped, chosen, rfl⟩ (clockAt now)
    rw [isRebootable_lastNamed accepted inside named] at same
    exact same
  · intro keeps
    refine ⟨?_, ?_⟩
    · rintro rt chosen entry ⟨group, rt', grouped, chosen', rfl⟩ answer
      cases chosen.symm.trans chosen'
      obtain ⟨last, inside, named⟩ := lastNamed_isSome (List.mem_of_find?_eq_some chosen) rfl
      rw [isRebootable_lastNamed accepted inside named]
      exact keeps (by simp [grouped]) rt last chosen named (answer .now)
    · rintro nothing entry ⟨_, rt, _, chosen, _⟩
      cases nothing.symm.trans chosen

/-- When no two entries have one name, the name stands for the chosen entry. -/
theorem nameKeepsWindow_of_nodup (nodup : (config.rebootTimes.map (·.name)).Nodup)
    (node : KubeNode) : NameKeepsWindow parseStandard config node := by
  rintro - rt last chosen named now
  have inside := List.mem_reverse.mp (List.mem_of_find?_eq_some named)
  have same : last.name = rt.name := by simpa using List.find?_some named
  rw [List.inj_on_of_nodup_map nodup inside (List.mem_of_find?_eq_some chosen) same]

end

/-! ### A configuration without names -/

/-- `cron.ParseStandard` on the one expression used below. -/
def parseEveryMinute (spec : String) : Except String Schedule :=
  if spec = "* * * * *" then .ok nextFullMinute else .error "expected exactly 5 fields"

/-- `name` is left out, as the documentation allows: nodes of the role `cs` may be rebooted at
any time, those of the role `ss` at no time. -/
def unnamedTimes : RebooterConfig where
  rebootTimes := [⟨"", [("cke.cybozu.com/role", "cs")], ⟨[], ["* * * * *"]⟩⟩,
    ⟨"", [("cke.cybozu.com/role", "ss")], ⟨[], []⟩⟩]
  groupLabelKey := "topology.kubernetes.io/zone"

def csNode : KubeNode :=
  ⟨"10.69.0.4", [("cke.cybozu.com/role", "cs"), ("topology.kubernetes.io/zone", "rack0")]⟩

/-- The configuration is accepted, and the entry registered for the node is never rebootable,
although the one entry that matches it is always open. -/
theorem windows_disagree : unnamedTimes.getRebootTime parseEveryMinute =
      .ok [("", ⟨[], []⟩), ("", ⟨[], [nextFullMinute]⟩)] ∧
    ¬ WindowsAgree parseEveryMinute unnamedTimes [("", ⟨[], []⟩), ("", ⟨[], [nextFullMinute]⟩)]
      csNode := by
  refine ⟨rfl, fun agree => ?_⟩
  have registered : Registers unnamedTimes.commands csNode
      ⟨0, "10.69.0.4", "rack0", "", .pending⟩ := (registers_iff _ _ _).mpr rfl
  have always : RebootTimes.OpenAt parseEveryMinute
      ⟨"", [("cke.cybozu.com/role", "cs")], ⟨[], ["* * * * *"]⟩⟩ 0 :=
    ⟨by simp, "* * * * *", by simp, nextFullMinute, rfl, by decide⟩
  have rebootable := (agree.1 _ rfl _ registered (clockAt 0)).mpr always
  rw [Controller.outcome_isRebootable] at rebootable
  revert rebootable
  decide

/-- The same with names. -/
def namedTimes : RebooterConfig :=
  { unnamedTimes with
    rebootTimes := [⟨"cs", [("cke.cybozu.com/role", "cs")], ⟨[], ["* * * * *"]⟩⟩,
      ⟨"ss", [("cke.cybozu.com/role", "ss")], ⟨[], []⟩⟩] }

theorem windows_agree_namedTimes : WindowsAgree parseEveryMinute namedTimes
    [("ss", ⟨[], []⟩), ("cs", ⟨[], [nextFullMinute]⟩)] csNode :=
  (windows_agree_iff rfl csNode).mpr (nameKeepsWindow_of_nodup (by decide) csNode)

end Neco.Rebooter
