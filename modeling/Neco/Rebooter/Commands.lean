import Neco.Rebooter.Controller

/-!
# The commands of `neco rebooter`

The subcommands that change the reboot list or the switch of neco-rebooter.
-/

namespace Neco.Rebooter

/-- A node of the Kubernetes cluster. -/
structure KubeNode where
  name : String
  labels : List (String × String)
deriving DecidableEq, Repr

/-- A rule of the configuration: which nodes get which reboot time. -/
structure RebootTimesRule where
  name : String
  matchLabels : List (String × String)
deriving DecidableEq, Repr

structure CommandConfig where
  rebootTimes : List RebootTimesRule
  groupLabelKey : String
deriving DecidableEq, Repr

def validateNode (node : String) (kubernetesNodes : List KubeNode) : Option KubeNode :=
  kubernetesNodes.find? (·.name = node)

/-- The first rule all of whose labels the node carries; a missing label reads as empty. -/
def matchRebootTimes (node : KubeNode) (rebootTimes : List RebootTimesRule) :
    Option RebootTimesRule :=
  rebootTimes.find? fun rt => rt.matchLabels.all fun label =>
    (node.labels.lookup label.1).getD "" == label.2

/-- The entry that `add` registers for a node. A node without a matching reboot time is
reported and skipped. -/
def newListEntry (config : CommandConfig) (kubernetesNodes : List KubeNode) (node : String) :
    Except String (Option RebootListEntry) :=
  match validateNode node kubernetesNodes with
  | none => .error (node ++ " is not a valid node IP address")
  | some kubeNode =>
    match kubeNode.labels.lookup config.groupLabelKey with
    | none => .error ("node has no groupKey label (" ++ config.groupLabelKey ++ ")")
    | some group =>
      match matchRebootTimes kubeNode config.rebootTimes with
      | none => .ok none
      | some rt => .ok (some ⟨0, kubeNode.name, group, rt.name, .pending⟩)

def rebooterAdd (config : CommandConfig) (kubernetesNodes : List KubeNode) (dryRun : Bool)
    (nodes : List String) : Prog Unit :=
  nodes.foldlM (fun _ node =>
    match newListEntry config kubernetesNodes node with
    | .error message => .fail (.command message)
    | .ok none => return ()
    | .ok (some entry) => if dryRun then return () else ask (.registerRebootListEntry entry)) ()

def rebooterCancel (index : Int) : Prog Unit := do
  let entry ← orFail (← ask (.getRebootListEntry index))
  updateRebootListEntry { entry with status := .cancelled }

def rebooterCancelAll : Prog Unit := do
  let entries ← ask .getRebootListEntries
  entries.foldlM (fun _ entry => updateRebootListEntry { entry with status := .cancelled }) ()

def rebooterEnable (flag : Bool) : Prog Unit := ask (.enableNecoRebooter flag)

inductive Command
  | add (kubernetesNodes : List KubeNode) (dryRun : Bool) (nodes : List String)
  | cancel (index : Int)
  | cancelAll
  | enable
  | disable
deriving DecidableEq, Repr

def Command.prog (config : CommandConfig) : Command → Prog Unit
  | add kubernetesNodes dryRun nodes => rebooterAdd config kubernetesNodes dryRun nodes
  | cancel index => rebooterCancel index
  | cancelAll => rebooterCancelAll
  | enable => rebooterEnable true
  | disable => rebooterEnable false

/-- What a command asks of the storage: it reads, adds pending entries, cancels entries and
turns neco-rebooter on and off. -/
def Call.ofCommand : Call → Prop
  | enableNecoRebooter _ => True
  | getRebootListEntry _ => True
  | getRebootListEntries => True
  | updateRebootListEntry entry => entry.status = .cancelled
  | registerRebootListEntry entry => entry.status = .pending
  | _ => False

theorem newListEntry_pending {config : CommandConfig} {kubernetesNodes : List KubeNode}
    {node : String} {entry : RebootListEntry}
    (returned : newListEntry config kubernetesNodes node = .ok (some entry)) :
    entry.status = .pending := by
  unfold newListEntry at returned
  split at returned
  · cases returned
  · split at returned
    · cases returned
    · split at returned
      · cases returned
      · cases returned
        rfl

theorem uses_updateRebootListEntry {allowed : Call → Prop} {e : RebootListEntry}
    (permitted : allowed (.updateRebootListEntry e)) : (updateRebootListEntry e).Uses allowed := by
  refine ⟨permitted, fun r => ?_⟩
  cases r <;> trivial

/-- The calls of every command are those of `Call.ofCommand`. -/
theorem Command.uses (config : CommandConfig) (command : Command) :
    (command.prog config).Uses Call.ofCommand := by
  cases command with
  | add kubernetesNodes dryRun nodes =>
    refine Program.Prog.Uses.foldlM nodes (fun _ node _ => ?_) ()
    split
    · trivial
    · trivial
    next entry returned =>
      split
      · trivial
      · exact ⟨newListEntry_pending returned, fun _ => trivial⟩
  | cancel index =>
    refine ⟨trivial, fun r => ?_⟩
    cases r with
    | error e => trivial
    | ok entry => exact uses_updateRebootListEntry rfl
  | cancelAll =>
    refine ⟨trivial, fun entries => ?_⟩
    refine Program.Prog.Uses.foldlM entries (fun _ entry _ => ?_) ()
    exact uses_updateRebootListEntry rfl
  | enable => exact ⟨trivial, fun _ => trivial⟩
  | disable => exact ⟨trivial, fun _ => trivial⟩

end Neco.Rebooter
