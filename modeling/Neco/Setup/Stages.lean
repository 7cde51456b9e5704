import Neco.Storage.Keys
import Neco.Lib.Run
import Mathlib.Logic.Function.Basic

/-!
# The stages of the initial setup

`neco setup` runs on all boot servers at once. Twice a server records that it has finished a
stage and then polls until all servers have: before etcd and Vault are restarted, and after.
Each `Finish` and each `GetFinished` is one step of the system.
-/

namespace Neco.Setup

/-- The boot servers given to `Setup`. -/
structure BootServers where
  lrns : List Int
  nodup : lrns.Nodup
  ints : ∀ lrn ∈ lrns, IsInt lrn

inductive Stage where
  | beforeRestart
  | afterRestart
  deriving DecidableEq, Repr

/-- The constants `stageBeforeRestart` and `stageAfterRestart`. -/
def Stage.number : Stage → Int
  | .beforeRestart => 0
  | .afterRestart => 1

/-- `Storage.Finish`. -/
def finish (kv : Etcd) (lrn : Int) (stage : Stage) : Etcd :=
  kv.put (keyFinish lrn) (itoa stage.number)

/-- The loop of `GetFinished` over the keys; it fails on a key or a value that is no number. -/
def collectFinished (stage : Stage) (lrns : List Int) (kv : KeyValue.Pair String String) :
    Option (List Int) := do
  let current ← atoi kv.value.toList
  if current ≠ stage.number then
    return lrns
  let lrn ← lrnOfKey keyFinishPrefix kv.key
  return lrns ++ [lrn]

/-- `Storage.GetFinished`. -/
def getFinished (kv : Etcd) (stage : Stage) : Option (List Int) :=
  (kv.getRange fun key => hasPrefix key keyFinishPrefix).foldlM (collectFinished stage) []

/-- The condition under which a server leaves the loop of a stage. -/
def allFinished (b : BootServers) (kv : Etcd) (stage : Stage) : Bool :=
  match getFinished kv stage with
  | some finished => finished.length == b.lrns.length
  | none => false

/-- Where `Setup` is on one server. -/
inductive Phase where
  /-- before the first `Finish` -/
  | preparing
  /-- in the loop of `stageBeforeRestart` -/
  | waitingBefore
  /-- before the second `Finish` -/
  | restarting
  /-- in the loop of `stageAfterRestart` -/
  | waitingAfter (nRetries : Nat)
  | completed
  | failed
  deriving DecidableEq, Repr

structure System where
  kv : Etcd
  phases : Int → Phase
  /-- Who has finished which stage, and who has left the loop of which stage. -/
  finished : List (Int × Stage)
  left : List (Int × Stage)

inductive Action where
  | finish (lrn : Int)
  | poll (lrn : Int)
  /-- `GetFinished` returns an error. -/
  | pollError (lrn : Int)
  /-- `Setup` returns an error, or its process is killed. -/
  | fail (lrn : Int)
  deriving DecidableEq, Repr

def System.enter (s : System) (lrn : Int) (phase : Phase) : System :=
  { s with phases := Function.update s.phases lrn phase }

/-- A server finishes a stage and enters its loop. -/
def System.finish (s : System) (lrn : Int) (stage : Stage) (phase : Phase) : System :=
  { s.enter lrn phase with
    kv := Setup.finish s.kv lrn stage
    finished := s.finished ++ [(lrn, stage)] }

/-- A server polls in the loop of a stage. -/
def System.poll (b : BootServers) (s : System) (lrn : Int) (stage : Stage) (phase : Phase) :
    System :=
  if allFinished b s.kv stage then { s.enter lrn phase with left := s.left ++ [(lrn, stage)] }
  else s

def System.step (b : BootServers) (s : System) : Action → Option System
  | .finish lrn =>
    if lrn ∈ b.lrns then
      match s.phases lrn with
      | .preparing => some (s.finish lrn .beforeRestart .waitingBefore)
      | .restarting => some (s.finish lrn .afterRestart (.waitingAfter 0))
      | _ => none
    else none
  | .poll lrn =>
    match s.phases lrn with
    | .waitingBefore => some (s.poll b lrn .beforeRestart .restarting)
    | .waitingAfter _ => some (s.poll b lrn .afterRestart .completed)
    | _ => none
  | .pollError lrn =>
    match s.phases lrn with
    | .waitingBefore => some (s.enter lrn .failed)
    -- etcd is being restarted, so the second loop tries again
    | .waitingAfter nRetries =>
      if nRetries < 10 then some (s.enter lrn (.waitingAfter (nRetries + 1)))
      else some (s.enter lrn .failed)
    | _ => none
  | .fail lrn => some (s.enter lrn .failed)

/-- The server is still in the loop of the stage. -/
def System.Inside (s : System) (lrn : Int) : Stage → Prop
  | .beforeRestart => s.phases lrn = .waitingBefore
  | .afterRestart => ∃ nRetries, s.phases lrn = .waitingAfter nRetries

instance (s : System) (lrn : Int) : ∀ stage, Decidable (s.Inside lrn stage)
  | .beforeRestart => inferInstanceAs (Decidable (s.phases lrn = .waitingBefore))
  | .afterRestart =>
    match phase : s.phases lrn with
    | .waitingAfter nRetries => .isTrue ⟨nRetries, phase⟩
    | .preparing | .waitingBefore | .restarting | .completed | .failed =>
      .isFalse fun ⟨_, inside⟩ => nomatch phase.symm.trans inside

def System.initial : System := ⟨.empty, fun _ => .preparing, [], []⟩

/-- `s` is reached in a run of the setup whose steps all meet `ok`. -/
def Reached (b : BootServers) (ok : System → Action → Prop) (s : System) : Prop :=
  Transition.RunFrom (System.step b) ok .initial s

/-- The state after a list of actions. -/
def System.play (b : BootServers) (ok : System → Action → Prop) [∀ s a, Decidable (ok s a)]
    (actions : List Action) : System :=
  Transition.after (System.step b) ok .initial actions

theorem reached_play (b : BootServers) (ok : System → Action → Prop)
    [∀ s a, Decidable (ok s a)] (actions : List Action) : Reached b ok (.play b ok actions) :=
  Transition.runFrom_after _ _ _ _

end Neco.Setup
