import Neco.Lib.IPv4
import Neco.Lib.Program
import Mathlib.Data.List.Sort

/-!
# The network interface of boot-ip-setter

The methods of `networkInterface` as programs over the requests of the netlink library, and a
link that answers these requests. Addresses of IPv6 do not occur.
-/

namespace Neco.BootIPSetter

/-- An address of a link with the length of its network mask. -/
structure IfAddr where
  ip : IPv4.Addr
  ones : Nat
deriving DecidableEq, Repr

inductive Netlink
  | linkByName (name : String)
  | linkSetUp
  | linkSetDown
  | addrList
  | addrAdd (addr : IfAddr)
  | addrDel (addr : IfAddr)
deriving DecidableEq, Repr

@[reducible] def Netlink.Reply : Netlink → Type
  | linkByName _ => Except String Unit
  | linkSetUp => Except String Unit
  | linkSetDown => Except String Unit
  | addrList => Except String (List IfAddr)
  | addrAdd _ => Except String Unit
  | addrDel _ => Except String Unit

/-- A program that fails with the text of its error. -/
abbrev Prog := Program.Prog Netlink Netlink.Reply String

abbrev ask (request : Netlink) : Prog request.Reply := Program.Prog.ask request

/-- `fmt.Errorf("...: %w", err)` on an error. -/
def orFail {α : Type} (context : String) : Except String α → Prog α
  | .ok a => .ret a
  | .error e => .fail (context ++ ": " ++ e)

/-- `netlink.ParseAddr`, of which only this is assumed: an IPv4 address in its usual text, followed
by `/32`, is read as this address with a mask of 32 bits. -/
structure AddrParser where
  parseAddr : String → Except String IfAddr
  parseAddr_text : ∀ a, parseAddr (IPv4.text a ++ "/32") = .ok ⟨a, 32⟩

/-- An interface, with the library that it is worked on with. -/
structure NetworkInterface where
  linkName : String
  netlink : AddrParser

namespace NetworkInterface

variable (n : NetworkInterface)

def findLink : Prog Unit := do
  orFail ("failed to find " ++ n.linkName) (← ask (.linkByName n.linkName))

def up : Prog Unit := do
  n.findLink
  orFail ("failed to up " ++ n.linkName) (← ask .linkSetUp)

def down : Prog Unit := do
  n.findLink
  orFail ("failed to down " ++ n.linkName) (← ask .linkSetDown)

def listAddrs : Prog (List String) := do
  n.findLink
  let addrList ← orFail ("failed to list addresses on " ++ n.linkName) (← ask .addrList)
  return (addrList.map fun a => IPv4.text a.ip).insertionSort (· ≤ ·)

def addAddr (addr : String) : Prog Unit :=
  match n.netlink.parseAddr (addr ++ "/32") with
  | .error e => .fail e
  | .ok a => do
    n.findLink
    orFail ("failed to add " ++ IPv4.text a.ip ++ " to " ++ n.linkName) (← ask (.addrAdd a))

def deleteAddr (addr : String) : Prog Unit :=
  match n.netlink.parseAddr (addr ++ "/32") with
  | .error e => .fail e
  | .ok a => do
    n.findLink
    orFail ("failed to delete " ++ IPv4.text a.ip ++ " from " ++ n.linkName) (← ask (.addrDel a))

def deleteAllAddr : Prog Unit := do
  -- the error of `LinkByName` is returned as it is here
  match ← ask (.linkByName n.linkName) with
  | .error e => .fail e
  | .ok () => do
    let addrList ← orFail ("failed to list addresses on " ++ n.linkName) (← ask .addrList)
    addrList.foldlM (fun _ a => do
      orFail ("failed to delete " ++ IPv4.text a.ip ++ " from " ++ n.linkName)
        (← ask (.addrDel a))) ()

end NetworkInterface

/-! ### A link -/

structure Link where
  isUp : Bool
  addrs : List IfAddr
  nodup : addrs.Nodup

namespace Link

def add (a : IfAddr) (l : Link) : Link :=
  if absent : a ∈ l.addrs then l
  else
    { l with
      addrs := l.addrs ++ [a]
      nodup := by simpa using l.nodup.concat absent }

def remove (a : IfAddr) (l : Link) : Link :=
  { l with
    addrs := l.addrs.filter (· ≠ a)
    nodup := l.nodup.filter _ }

/-- A link that exists, rejects to add an address twice and to delete one that it does not have. -/
def respond : (request : Netlink) → Link → request.Reply × Link
  | .linkByName _, l => (.ok (), l)
  | .linkSetUp, l => (.ok (), { l with isUp := true })
  | .linkSetDown, l => (.ok (), { l with isUp := false })
  | .addrList, l => (.ok l.addrs, l)
  | .addrAdd a, l => if a ∈ l.addrs then (.error "file exists", l) else (.ok (), l.add a)
  | .addrDel a, l =>
    if a ∈ l.addrs then (.ok (), l.remove a) else (.error "cannot assign requested address", l)

@[simp] theorem add_isUp (a : IfAddr) (l : Link) : (l.add a).isUp = l.isUp := by
  unfold add
  split <;> rfl

@[simp] theorem mem_add {a b : IfAddr} {l : Link} : b ∈ (l.add a).addrs ↔ b ∈ l.addrs ∨ b = a := by
  unfold add
  split
  next present =>
    constructor
    · exact .inl
    · rintro (member | rfl)
      · exact member
      · exact present
  next => simp

@[simp] theorem remove_isUp (a : IfAddr) (l : Link) : (l.remove a).isUp = l.isUp := rfl

@[simp] theorem mem_remove {a b : IfAddr} {l : Link} :
    b ∈ (l.remove a).addrs ↔ b ∈ l.addrs ∧ b ≠ a := by
  simp [remove]

end Link

end Neco.BootIPSetter
