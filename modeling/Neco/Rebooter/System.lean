import Neco.Rebooter.Commands
import Neco.Lib.Run

/-!
# The neco-rebooter system

One controller process, which may crash and be started again, any number of commands, and
CKE, all working on the same stores. Each step of a program is one operation of etcd or of
CKE's storage; everything else may happen between two of them.
-/

namespace Neco.Rebooter

/-- What a run has seen and done so far, recorded as a ghost. -/
structure Observed where
  /-- The list and the queue as the run has read them. -/
  list : Option (List RebootListEntry)
  queue : Option (List RebootQueueEntry)
  /-- The list entries it has registered queue entries for. -/
  registered : List RebootListEntry
  /-- It has moved to another processing group. -/
  moved : Bool
  /-- Its last call has registered a queue entry for this list entry. -/
  enqueueing : Option RebootListEntry
deriving DecidableEq, Repr

def Observed.nothing : Observed := ⟨none, none, [], false, none⟩

/-- Records the reply to a call. -/
def Observed.note (o : Observed) : (c : Call) → Reply c → Observed
  | .getRebootListEntries, entries => { o with list := some entries, enqueueing := none }
  | .getRebootsEntries, entries => { o with queue := some entries, enqueueing := none }
  | .registerRebootsEntry _ origin, _ =>
    { o with registered := o.registered ++ [origin], enqueueing := some origin }
  | .updateProcessingGroup _, _ => { o with moved := true, enqueueing := none }
  | _, _ => { o with enqueueing := none }

/-- A run of the controller between two of its steps. -/
structure Run where
  prog : Prog (List String)
  progress : Progress
  seen : Observed

/-- A controller process that has been elected. -/
structure Process where
  leaderKey : Nat
  allGroups : List String
  run : Option Run

/-- A command between two of its steps. -/
structure Client where
  prog : Prog Unit
  progress : Progress

structure System where
  store : Store
  process : Option Process
  clients : List Client
  elections : Nat

def System.initial : System := ⟨.empty, none, [], 0⟩

structure Config where
  controller : Controller
  commands : CommandConfig

inductive CkeAction
  /-- Moves an entry between queued, draining and rebooting. -/
  | setStatus (index : Int) (status : RebootStatus)
  | setDrainBackOffCount (index : Int) (count : Nat)
  | delete (index : Int)
deriving DecidableEq, Repr

inductive Action
  | elect
  | crash
  /-- The leader key is deleted: the session expired, or the process resigned. -/
  | expire
  /-- The ticker starts a run. -/
  | tick
  | controller (input : Input)
  | command (command : Command)
  | client (position : Nat) (input : Input)
  | kill (position : Nat)
  | cke (action : CkeAction)
deriving DecidableEq, Repr

/-- A process goes on with the rest of its run. A run that fails ends the process. -/
def Process.resume (p : Process) (seen : Observed) : Prog (List String) → Option Process
  | .ret allGroups => some { p with allGroups := allGroups, run := none }
  | .fail _ => none
  | .call c next => some { p with run := some ⟨.call c next, .start, seen⟩ }

/-- One step of the run in progress. -/
def System.stepRun (s : System) (p : Process) (run : Run) (input : Input) : Option System :=
  match run.prog with
  | .call c next =>
    match serve .controller input s.store c run.progress with
    | none => none
    | some (.proceed progress) =>
      some { s with process := some { p with run := some { run with progress := progress } } }
    | some (.reply r store) =>
      some { s with store := store, process := p.resume (run.seen.note c r) (next r) }
  | _ => none

/-- One step of a command. -/
def System.stepClient (s : System) (position : Nat) (client : Client) (input : Input) :
    Option System :=
  match client.prog with
  | .call c next =>
    match serve .user input s.store c client.progress with
    | none => none
    | some (.proceed progress) =>
      some { s with clients := s.clients.set position { client with progress := progress } }
    | some (.reply r store) =>
      some { s with store := store, clients := s.clients.set position ⟨next r, .start⟩ }
  | _ => none

/-- A step of CKE. It never revives a cancelled entry. -/
def Store.cke (s : Store) : CkeAction → Option Store
  | .setStatus index status =>
    if status = .cancelled then none
    else some (s.changeQueued index fun q =>
      if q.status = .cancelled then q else { q with status := status })
  | .setDrainBackOffCount index count =>
    some (s.changeQueued index fun q => { q with drainBackOffCount := count })
  | .delete index => (s.queue.find? (·.entry.index = index)).map s.deleteQueued

def System.step (cfg : Config) (s : System) : Action → Option System
  | .elect =>
    match s.process, s.store.leaderKey with
    | none, none =>
      some { s with
        store := { s.store with leaderKey := some s.elections }
        process := some ⟨s.elections, [], none⟩
        elections := s.elections + 1 }
    | _, _ => none
  | .crash => some { s with process := none }
  | .expire => some { s with store := { s.store with leaderKey := none } }
  | .tick =>
    match s.process with
    | some ⟨leaderKey, allGroups, none⟩ =>
      some { s with process := some ⟨leaderKey, allGroups,
        some ⟨cfg.controller.runOnce leaderKey allGroups, .start, .nothing⟩⟩ }
    | _ => none
  | .controller input =>
    match s.process with
    | some p =>
      match p.run with
      | some run => s.stepRun p run input
      | none => none
    | none => none
  | .command command =>
    some { s with clients := s.clients ++ [⟨command.prog cfg.commands, .start⟩] }
  | .client position input =>
    match s.clients[position]? with
    | some client => s.stepClient position client input
    | none => none
  | .kill position => some { s with clients := s.clients.eraseIdx position }
  | .cke action => (s.store.cke action).map fun store => { s with store := store }

/-- The run in progress. -/
def System.run (s : System) : Option Run := s.process.bind (·.run)

/-- The call that the run in progress is at. -/
def System.current (s : System) : Option Call :=
  match s.run with
  | some ⟨.call c _, _, _⟩ => some c
  | _ => none

/-- `s` is reached from the empty stores by steps that all meet `ok`. -/
def Reached (cfg : Config) (ok : System → Action → Prop) (s : System) : Prop :=
  Transition.RunFrom (System.step cfg) ok .initial s

/-! ### A configuration -/

/-- One reboot time that suits every node at any time; nodes are grouped by zone. -/
def openConfig : Config where
  controller := ⟨[("any", ⟨[], [nextFullMinute]⟩)]⟩
  commands := ⟨[⟨"any", []⟩], "zone"⟩

def nodeIn (zone name : String) : KubeNode := ⟨name, [("zone", zone)]⟩

/-- An entry for the node `n` of zone `a`. -/
def entryForN (index : Int) (status : RebootListEntryStatus) : RebootListEntry :=
  ⟨index, "n", "a", "any", status⟩

/-- A user starts a command as the client at `position`, and it takes `steps` steps. -/
def userRuns (position : Nat) (command : Command) (steps : Nat) : List Action :=
  .command command :: List.replicate steps (.client position ⟨0, []⟩)

/-- The run in progress takes `steps` steps. -/
def controllerRuns (steps : Nat) (order : List String) : List Action :=
  List.replicate steps (.controller ⟨0, order⟩)

/-- The state after a list of actions from the empty stores. -/
def System.play (cfg : Config) (ok : System → Action → Prop) [∀ s a, Decidable (ok s a)]
    (actions : List Action) : System :=
  Transition.after (System.step cfg) ok .initial actions

theorem reached_play (cfg : Config) (ok : System → Action → Prop) [∀ s a, Decidable (ok s a)]
    (actions : List Action) : Reached cfg ok (System.play cfg ok actions) :=
  Transition.runFrom_after _ _ _ _

end Neco.Rebooter
