import Neco.BootIPSetter.Netif
import Neco.Lib.BinarySearch
import Neco.Updater.Release

/-!
# The addresses of a boot server

`selectDHCPServerAddr` chooses an address from the names of the etcd members, `decideOps` and
`runOps` bring the interface to the wanted addresses, and `runOnce` puts them together.
-/

namespace Neco.BootIPSetter

open Program.Prog (attempt)

/-! ### Choosing the address -/

def virtualIPAddrActiveBootServer : String := "10.71.255.6"

def dhcpServerAddressList : List String :=
  ["10.71.255.1", "10.71.255.2", "10.71.255.3", "10.71.255.4", "10.71.255.5"]

inductive SelectError
  | invalidRack (rack : Int)
  | notBoot (name : String)
  | notNumber (name : String)
deriving DecidableEq, Repr

/-- The text of the error, but for the error of `Atoi` at the end of the third. -/
def SelectError.text : SelectError → String
  | invalidRack rack => "invalid rack number: " ++ toString rack
  | notBoot name => "failed to cut rack number from etcd member name: " ++ name
  | notNumber name => "failed to convert rack number: name=" ++ name

/-- The number in the name of an etcd member. -/
def rackOf (name : String) : Except SelectError Int :=
  match name.toList with
  | 'b' :: 'o' :: 'o' :: 't' :: '-' :: s =>
    match atoi s with
    | some r => .ok r
    | none => .error (.notNumber name)
  | _ => .error (.notBoot name)

/-- `slices.BinarySearch`. -/
def binarySearch (l : List Int) (target : Int) : Nat × Bool :=
  (BinarySearch.position l target, l[BinarySearch.position l target]? = some target)

def selectDHCPServerAddr (etcdMembers : List String) (rack : Int) : Except SelectError String := do
  if rack < 0 then
    throw (.invalidRack rack)
  let rackList ← etcdMembers.mapM rackOf
  match binarySearch (rackList.insertionSort (· ≤ ·)) rack with
  | (n, true) => return dhcpServerAddressList.getD (n % dhcpServerAddressList.length) ""
  | (_, false) => return ""

/-! ### Setting the addresses -/

inductive Op
  | up
  | down
  | add (address : String)
  | delete (address : String)
  | deleteAll
deriving DecidableEq, Repr

def Op.text : Op → String
  | up => "up"
  | down => "down"
  | add address => "add:" ++ address
  | delete address => "delete:" ++ address
  | deleteAll => "deleteAll"

def decideOps (currentAddrs nextAddrs : List String) : List Op :=
  if nextAddrs.length = 0 then [.deleteAll, .down]
  else
    .up :: ((nextAddrs.filter (· ∉ currentAddrs)).map .add ++
      (currentAddrs.filter (· ∉ nextAddrs)).map .delete)

def NetworkInterface.runOp (n : NetworkInterface) : Op → Prog Unit
  | .up => n.up
  | .down => n.down
  | .add address => n.addAddr address
  | .delete address => n.deleteAddr address
  | .deleteAll => n.deleteAllAddr

def NetworkInterface.runOps (n : NetworkInterface) (ops : List Op) : Prog Unit :=
  ops.foldlM (fun _ op => do
    orFail ("failed to run operation " ++ op.text) (← (n.runOp op).attempt)) ()

/-- One round: `members` is the reply of etcd. Errors of the interface are counted and ignored. -/
def runOnce (n : NetworkInterface) (members : Except String (List String)) (rack : Int)
    (errorCounter : Nat) : Prog Nat :=
  match members with
  | .error e => .fail ("failed to get member list: " ++ e)
  | .ok members =>
    match selectDHCPServerAddr members rack with
    | .error e => .fail ("failed to select dhcp server address: " ++ e.text)
    | .ok dhcpAddr => do
      let nextAddrs := if dhcpAddr ≠ "" then [dhcpAddr, virtualIPAddrActiveBootServer] else []
      match ← n.listAddrs.attempt with
      | .error _ => return errorCounter + 1
      | .ok currentAddrs => do
        match ← (n.runOps (decideOps currentAddrs nextAddrs)).attempt with
        | .error _ => return errorCounter + 1
        | .ok () => return errorCounter

end Neco.BootIPSetter
