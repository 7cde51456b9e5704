import Neco.Lib.BinarySearch
import Neco.Lib.Program
import Neco.Storage.Keys

/-!
# Restarting etcd at the end of an update

When a worker has completed all steps it restarts the etcd of its boot server. The position of
its LRN in the request delays the restart, and the first server removes the etcd members that
are no longer boot servers.
-/

namespace Neco.Restart

/-- `etcdserverpb.Member`. -/
structure Member where
  id : Nat
  name : String
  deriving DecidableEq, Repr

inductive Call where
  /-- `time.Sleep`, in nanoseconds -/
  | sleep (duration : Int)
  | stopService (name : String)
  | startService (name : String)
  | waitEtcdForVault
  | get (key : String)
  | waitEtcdSync (revision : Nat)
  | memberList
  | memberRemove (id : Nat)
  deriving DecidableEq, Repr

@[reducible] def Reply : Call → Type
  | .sleep _ => Unit
  | .stopService _ => Except String Unit
  | .startService _ => Except String Unit
  | .waitEtcdForVault => Except String Unit
  -- the revision of the answer
  | .get _ => Except String Nat
  | .waitEtcdSync _ => Except String Unit
  | .memberList => Except String (List Member)
  | .memberRemove _ => Except String Unit

abbrev Prog := Program.Prog Call Reply String Unit

/-- `sort.SearchInts`. -/
def searchInts (a : List Int) (x : Int) : Nat := BinarySearch.position a x

def etcdRestartTimeout : Int := 60 * 1000000000

def etcdService : String := "etcd-container"

/-- Whether `removeEtcdMembers` removes a member: its name is not that of a listed server. -/
def Member.hasLeft (servers : List Int) (member : Member) : Bool :=
  if !hasPrefix member.name "boot-" then true
  else match atoi (member.name.toList.drop 5) with
    | none => true
    | some lrn => !servers.any fun server => lrn == server

/-- The loop over the members to remove. -/
def removeAll : List Member → Prog
  | [] => .ret ()
  | member :: rest => .call (.memberRemove member.id) fun
    | .error err => .fail err
    | .ok () => removeAll rest

def removeEtcdMembers (req : UpdateRequest) : Prog :=
  .call .memberList fun
  | .error err => .fail err
  | .ok members => removeAll (members.filter (·.hasLeft req.servers))

/-- How long `RestartEtcd` waits before it stops etcd. A `time.Duration` has room for this with
more than a hundred million servers. -/
def restartDelay (index : Nat) : Int := etcdRestartTimeout * index + 1000000000

/-- `operator.RestartEtcd`; the process exits whatever it returns. -/
def restartEtcd (index : Nat) (req : UpdateRequest) : Prog :=
  .call (.sleep (restartDelay index)) fun _ =>
  .call (.stopService etcdService) fun
  | .error err => .fail err
  | .ok () => .call (.startService etcdService) fun
    | .error err => .fail err
    | .ok () => .call .waitEtcdForVault fun
      | .error err => .fail err
      | .ok () => .call (.get "/") fun
        | .error err => .fail err
        | .ok revision => .call (.waitEtcdSync revision) fun
          | .error err => .fail err
          | .ok () =>
            if index ≠ 0 then .ret ()
            else .call (.sleep (6 * 1000000000)) fun _ => removeEtcdMembers req

/-- The end of `runStep` on the server `mylrn` after the last step. -/
def restart (req : UpdateRequest) (mylrn : Int) : Prog :=
  restartEtcd (searchInts req.servers mylrn) req

/-! ### Which members are removed -/

/-- An environment in which everything succeeds and etcd has the given members. -/
def healthy (members : List Member) : (c : Call) → Reply c
  | .sleep _ => ()
  | .stopService _ => .ok ()
  | .startService _ => .ok ()
  | .waitEtcdForVault => .ok ()
  | .get _ => .ok 0
  | .waitEtcdSync _ => .ok ()
  | .memberList => .ok members
  | .memberRemove _ => .ok ()

/-- The members that a program removes in a healthy environment. -/
def removed (members : List Member) (p : Prog) : List Nat :=
  (p.trace (healthy members)).filterMap fun
    | .memberRemove id => some id
    | _ => none

theorem removed_removeAll (members : List Member) (leaving : List Member) :
    removed members (removeAll leaving) = leaving.map (·.id) := by
  induction leaving with
  | nil => rfl
  | cons member rest ih => exact congrArg (member.id :: ·) ih

/-- Only the server with index 0 removes members, and it removes those that have left. -/
theorem removed_restartEtcd (members : List Member) (index : Nat) (req : UpdateRequest) :
    removed members (restartEtcd index req) =
      if index = 0 then (members.filter (·.hasLeft req.servers)).map (·.id) else [] := by
  cases index with
  | zero => exact removed_removeAll members _
  | succ n => rfl

end Neco.Restart
