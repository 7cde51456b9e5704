import Neco.Lib.Fallible
import Neco.Lib.Table
import Neco.Rebooter.Commands

/-!
# The configuration of neco-rebooter, and `reboot-worker`

The daemon and the commands load one configuration. The commands pick an entry of `rebootTimes`
by the labels of a node and record its name; the daemon looks the name up in the map that
`GetRebootTime` builds.
-/

namespace Neco.Rebooter

structure Times where
  deny : List String
  allow : List String
deriving DecidableEq, Repr

structure RebootTimes where
  name : String
  /-- `labelSelector.matchLabels` -/
  matchLabels : List (String × String)
  times : Times
deriving DecidableEq, Repr

structure RebooterConfig where
  rebootTimes : List RebootTimes
  groupLabelKey : String
deriving DecidableEq, Repr

/-- What the commands read of an entry. -/
def RebootTimes.rule (rt : RebootTimes) : RebootTimesRule := ⟨rt.name, rt.matchLabels⟩

/-- What the commands read of the configuration. -/
def RebooterConfig.commands (config : RebooterConfig) : CommandConfig :=
  ⟨config.rebootTimes.map RebootTimes.rule, config.groupLabelKey⟩

section Daemon

-- `cron.ParseStandard`, with the schedule taken in the time zone of the configuration.
variable (parseStandard : String → Except String Schedule)

/-- The body of the loop of `GetRebootTime`. -/
def RebootTimes.parse (rt : RebootTimes) : Except String RebootTime := do
  let deny ← rt.times.deny.mapM parseStandard
  let allow ← rt.times.allow.mapM parseStandard
  return ⟨deny, allow⟩

/-- `GetRebootTime`. The map is the list of its assignments, the latest one first. -/
def RebooterConfig.getRebootTime (config : RebooterConfig) :
    Except String (List (String × RebootTime)) :=
  config.rebootTimes.foldlM
    (fun rebootTime rt => do
      let parsed ← rt.parse parseStandard
      return (rt.name, parsed) :: rebootTime) []

end Daemon

def newController (rt : List (String × RebootTime)) : Controller := ⟨rt⟩

/-! ### `neco rebooter reboot-worker` -/

/-- A machine of sabakan, with the fields that the command looks at. -/
structure Machine where
  serial : String
  role : String
  ipv4 : List String
  bmc : String
deriving DecidableEq, Repr

/-- The entry that a command registers for a node of the cluster. -/
def nodeEntry (config : CommandConfig) (kubeNode : KubeNode) :
    Except String (Option RebootListEntry) :=
  match kubeNode.labels.lookup config.groupLabelKey with
  | none => .error ("node has no groupKey label (" ++ config.groupLabelKey ++ ")")
  | some group =>
    match matchRebootTimes kubeNode config.rebootTimes with
    | none => .ok none
    | some rt => .ok (some ⟨0, kubeNode.name, group, rt.name, .pending⟩)

/-- The nodes of the cluster by their names. -/
def kubernetesNodeAddrs (nodes : List KubeNode) : String → Option KubeNode :=
  Table.assign KubeNode.name id nodes

/-- The machines that are nodes of the cluster, as these nodes. -/
def kubernetesNodeMachine (nodes : List KubeNode) (machines : List Machine) : List KubeNode :=
  machines.filterMap fun machine =>
    match machine.ipv4 with
    | [] => none
    | addr :: _ => kubernetesNodeAddrs nodes addr

def nonKubernetesNodeMachine (nodes : List KubeNode) (machines : List Machine) : List Machine :=
  machines.filter fun machine =>
    match machine.ipv4 with
    | [] => false
    | addr :: _ => (kubernetesNodeAddrs nodes addr).isNone

/-- `rebootMachines`. It returns the machines outside the cluster that it then restarts through
their BMC. -/
def rebootMachines (config : CommandConfig) (nodes : List KubeNode) (dryRun : Bool)
    (machines : List Machine) : Prog (List Machine) := do
  (kubernetesNodeMachine nodes machines).foldlM (fun _ node =>
    match nodeEntry config node with
    | .error message => .fail (.command message)
    | .ok none => return ()
    | .ok (some entry) => if dryRun then return () else ask (.registerRebootListEntry entry)) ()
  return (nonKubernetesNodeMachine nodes machines).filter fun machine =>
    machine.role ≠ "boot" ∧ machine.bmc ≠ "" ∧ !dryRun

/-- `add` registers what `reboot-worker` registers for the same node. -/
theorem newListEntry_eq (config : CommandConfig) (nodes : List KubeNode) (node : String) :
    newListEntry config nodes node =
      match validateNode node nodes with
      | none => .error (node ++ " is not a valid node IP address")
      | some kubeNode => nodeEntry config kubeNode := rfl

/-! ### The map of `GetRebootTime` -/

/-- Every entry of an accepted configuration is parsed, and the schedules under a name are those
of the last entry of that name. -/
theorem RebooterConfig.getRebootTime_ok {parseStandard : String → Except String Schedule}
    {config : RebooterConfig} : ∀ {times : List (String × RebootTime)},
    config.getRebootTime parseStandard = .ok times →
      (∀ rt ∈ config.rebootTimes, ∃ parsed, rt.parse parseStandard = .ok parsed) ∧
      ∀ name, times.lookup name = (config.rebootTimes.reverse.find? (·.name = name)).bind
        fun rt => (rt.parse parseStandard).toOption := by
  obtain ⟨entries, key⟩ := config
  unfold RebooterConfig.getRebootTime
  dsimp only
  induction entries using List.reverseRecOn with
  | nil =>
    intro times accepted
    cases accepted
    simp
  | append_singleton entries rt ih =>
    intro times accepted
    obtain ⟨earlier, before, added⟩ := Fallible.foldlM_concat_eq_ok.mp accepted
    obtain ⟨window, last, same⟩ := Fallible.bind_eq_ok.mp added
    obtain ⟨parsed, found⟩ := ih before
    cases same
    constructor
    · intro rt' member
      rcases List.mem_append.mp member with inside | same
      · exact parsed rt' inside
      · rw [List.mem_singleton.mp same]
        exact ⟨window, last⟩
    · -- The last assignment is the first one in the list, and the last entry is found first.
      intro name
      rw [List.reverse_append, List.reverse_singleton, List.singleton_append, List.find?_cons,
        List.lookup_cons]
      by_cases same : rt.name = name
      · subst same
        simp [last, Except.toOption]
      · have other : (name == rt.name) = false := by simpa using Ne.symm same
        simp [other, same, found]

end Neco.Rebooter
