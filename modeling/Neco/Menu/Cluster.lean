import Neco.Menu.Menu
import Neco.Lib.Table

/-!
# The cluster of a menu

`NewCluster` numbers the racks, their nodes and their ToR switches, and hands out the addresses
of the links between spines and ToRs by a running counter. Where the code dereferences a
pointer that may be nil, indexes a slice or shifts by a number that may be negative, the model
returns a panic.
-/

namespace Neco.PlacematMenu

inductive Panic
  | nilPointer
  | indexOutOfRange
  | negativeShift
deriving DecidableEq, Repr

/-- Follows a pointer. -/
def deref {α : Type} : Option α → Except Panic α
  | some a => .ok a
  | none => .error .nilPointer

/-- Indexes a slice. -/
def index {α : Type} (l : List α) (i : Nat) : Except Panic α :=
  match l[i]? with
  | some a => .ok a
  | none => .error .indexOutOfRange

def offsetInternetHost : Int := 1
def offsetInternetCore : Int := 2
def offsetExternalCore : Int := 1
def offsetExternal : Int := 2
def offsetOperationCore : Int := 1
def offsetOperation : Int := 2
def offsetNodenetToR : Int := 1
def offsetNodenetBoot : Int := 3
def offsetNodenetServers : Int := 4
def offsetBMCHost : Int := 1
def offsetNTP1 : Int := 1
def offsetNTP2 : Int := 2
def offsetNTPCore : Int := 3

structure Node (IP Mask : Type) where
  name : String
  fullName : String
  spec : Option NodeSpec
  serial : String
  node0Address : IPNet IP Mask
  node1Address : IPNet IP Mask
  node2Address : IPNet IP Mask
  tor1Address : IPNet IP Mask
  tor2Address : IPNet IP Mask

structure BootNode (IP Mask : Type) extends Node IP Mask where
  bastionAddress : IPNet IP Mask

structure ToR (IP Mask : Type) where
  name : String
  spineAddresses : List (IPNet IP Mask)
  nodeAddress : IPNet IP Mask
  nodeInterface : String

structure Rack (IP Mask : Type) where
  name : String
  shortName : String
  index : Nat
  asn : Int
  nodeNetworkPrefixSize : Int
  tor1 : ToR IP Mask
  tor2 : ToR IP Mask
  bootNode : BootNode IP Mask
  csList : List (Node IP Mask)
  ssList : List (Node IP Mask)
  node0Network : IPNet IP Mask
  node1Network : IPNet IP Mask
  node2Network : IPNet IP Mask

structure Core (IP Mask : Type) where
  internetAddress : IPNet IP Mask
  spineAddresses : List (IPNet IP Mask)
  operationAddress : IPNet IP Mask
  externalAddress : IPNet IP Mask
  proxyAddress : Option IP
  coreNTPAddress : Option (IPNet IP Mask)
  ntpServers : List (IPNet IP Mask)

structure Spine (IP Mask : Type) where
  name : String
  shortName : String
  coreAddress : IPNet IP Mask
  torAddresses : List (IPNet IP Mask)
  bmcAddress : IPNet IP Mask

structure Cluster (IP Mask : Type) where
  network : Network IP Mask
  /-- The addresses of the operation and external namespaces, of the internet and BMC networks. -/
  operation : IPNet IP Mask
  external : IPNet IP Mask
  internet : IPNet IP Mask
  bmc : IPNet IP Mask
  core : Core IP Mask
  spines : List (Spine IP Mask)
  racks : List (Rack IP Mask)
  image : List ImageSpec
  deviceclasses : List DeviceClassSpec

section

variable {IP Mask : Type}

def Spine.tor1Address (s : Spine IP Mask) (rackIdx : Nat) : Except Panic (IPNet IP Mask) :=
  index s.torAddresses (rackIdx * 2)

def Spine.tor2Address (s : Spine IP Mask) (rackIdx : Nat) : Except Panic (IPNet IP Mask) :=
  index s.torAddresses (rackIdx * 2 + 1)

variable (env : Env IP Mask)

def addToIPNet (netAddr : IPNet IP Mask) (offset : Int) : IPNet IP Mask :=
  ⟨env.ipAdd netAddr.ip offset, netAddr.mask⟩

def addToIP (netIP : IP) (offset : Int) (prefixSize : Int) : IPNet IP Mask :=
  ⟨env.ipAdd netIP offset, env.cidrMask prefixSize 32⟩

/-- `1 << n` in an `int`. -/
def shiftOne (n : Int) : Except Panic Int :=
  if n < 0 then .error .negativeShift
  else if n < 64 then .ok (wrap64 (2 ^ n.toNat))
  -- every bit is shifted out
  else .ok 0

def makeNodeNetwork (base : IP) (rangeSize rangeMask : Int) (nodeIdx : Nat) :
    Except Panic (IPNet IP Mask) := do
  let size ← shiftOne rangeSize
  return ⟨env.ipAdd base (wrap64 (size * nodeIdx)), env.cidrMask rangeMask 32⟩

/-! ### Racks -/

/-- A server of a rack: `offset` is its place behind the first address for servers. -/
def newNode (rackName name : String) (spec : Option NodeSpec)
    (node0Network node1Network node2Network : IPNet IP Mask) (boot : BootNode IP Mask)
    (offset : Int) : Node IP Mask where
  name := name
  fullName := rackName ++ "-" ++ name
  spec := spec
  serial := env.sha1 (rackName ++ "-" ++ name)
  node0Address := addToIP env node0Network.ip (offsetNodenetServers + offset) 32
  node1Address := addToIPNet env node1Network (offsetNodenetServers + offset)
  node2Address := addToIPNet env node2Network (offsetNodenetServers + offset)
  tor1Address := boot.tor1Address
  tor2Address := boot.tor2Address

def newToR (rackIdx torIdx : Nat) (spine : Int) (nodeNetwork : IPNet IP Mask) : ToR IP Mask where
  name := "rack" ++ toString rackIdx ++ "-tor" ++ toString torIdx
  spineAddresses := []
  nodeAddress := addToIPNet env nodeNetwork offsetNodenetToR
  nodeInterface := "eth" ++ toString spine

/-- The last node of a type stays in the map. -/
def nodeSpecs (nodes : List NodeMenu) : String → Option NodeSpec :=
  Table.assign NodeMenu.type NodeMenu.spec nodes

/-- The rack of a menu, when its three node networks are known. -/
def buildRack (network : Network IP Mask) (nodeSpecs : String → Option NodeSpec) (spine : Int)
    (rackMenu : RackMenu) (rackIdx : Nat) (node0Network node1Network node2Network : IPNet IP Mask) :
    Rack IP Mask :=
  let name := "rack" ++ toString rackIdx
  let bootNode : BootNode IP Mask := {
    name := "boot"
    fullName := "boot-" ++ toString rackIdx
    spec := nodeSpecs nodeTypeBoot
    serial := env.sha1 ("boot-" ++ toString rackIdx)
    node0Address := addToIP env node0Network.ip offsetNodenetBoot 32
    node1Address := addToIPNet env node1Network offsetNodenetBoot
    node2Address := addToIPNet env node2Network offsetNodenetBoot
    tor1Address := addToIPNet env node1Network offsetNodenetToR
    tor2Address := addToIPNet env node2Network offsetNodenetToR
    bastionAddress := addToIP env network.bastion.ip rackIdx 32 }
  { name := name
    shortName := "r" ++ toString rackIdx
    index := rackIdx
    asn := network.asnBase + rackIdx
    nodeNetworkPrefixSize := network.nodeRangeMask
    tor1 := newToR env rackIdx 1 spine node1Network
    tor2 := newToR env rackIdx 2 spine node2Network
    bootNode := bootNode
    -- servers are named from 1 on, and the addresses of ss follow those of cs
    csList := (List.range rackMenu.cs.toNat).map fun csIdx =>
      newNode env name ("cs" ++ toString (csIdx + 1)) (nodeSpecs nodeTypeCS)
        node0Network node1Network node2Network bootNode csIdx
    ssList := (List.range rackMenu.ss.toNat).map fun ssIdx =>
      newNode env name ("ss" ++ toString (ssIdx + 1)) (nodeSpecs nodeTypeSS)
        node0Network node1Network node2Network bootNode (ssIdx + rackMenu.cs)
    node0Network := node0Network
    node1Network := node1Network
    node2Network := node2Network }

/-- One round of the loop over the racks. A nil in the list of racks is only met when its numbers
of servers are read. -/
def newRack (network : Network IP Mask) (nodeSpecs : String → Option NodeSpec) (spine : Int)
    (rackMenu : Option RackMenu) (rackIdx : Nat) : Except Panic (Rack IP Mask) := do
  let size := network.nodeRangeSize
  let mask := network.nodeRangeMask
  let node0Network ← makeNodeNetwork env network.nodeBase size mask (rackIdx * 3 + 0)
  let node1Network ← makeNodeNetwork env network.nodeBase size mask (rackIdx * 3 + 1)
  let node2Network ← makeNodeNetwork env network.nodeBase size mask (rackIdx * 3 + 2)
  let rackMenu ← deref rackMenu
  return buildRack env network nodeSpecs spine rackMenu rackIdx node0Network node1Network
    node2Network

/-! ### Spines -/

/-- The state of the loop over the ToRs: the next address, the addresses of the spine so far, and
the ToRs that have been connected. -/
structure Connecting (IP Mask : Type) where
  spineTorBaseAddr : IPNet IP Mask
  torAddresses : List (IPNet IP Mask)
  tors : List (ToR IP Mask)

/-- One address for the spine and the next one for the ToR. -/
def connectToR (state : Connecting IP Mask) (tor : ToR IP Mask) : Connecting IP Mask :=
  let torSide := addToIPNet env state.spineTorBaseAddr 1
  { spineTorBaseAddr := addToIPNet env torSide 1
    torAddresses := state.torAddresses ++ [state.spineTorBaseAddr]
    tors := state.tors ++ [{ tor with spineAddresses := tor.spineAddresses ++ [torSide] }] }

/-- The state of the loop over the spines. -/
structure Wiring (IP Mask : Type) where
  coreSpineBaseAddr : IPNet IP Mask
  spineTorBaseAddr : IPNet IP Mask
  spineAddresses : List (IPNet IP Mask)
  spines : List (Spine IP Mask)
  tors : List (ToR IP Mask)

def connectSpine (network : Network IP Mask) (w : Wiring IP Mask) (spineIdx : Nat) :
    Wiring IP Mask :=
  let spineSide := addToIPNet env w.coreSpineBaseAddr 1
  -- every ToR of every rack, in the order of the racks
  let connected := w.tors.foldl (connectToR env) ⟨w.spineTorBaseAddr, [], []⟩
  { coreSpineBaseAddr := addToIPNet env spineSide 1
    spineTorBaseAddr := connected.spineTorBaseAddr
    spineAddresses := w.spineAddresses ++ [w.coreSpineBaseAddr]
    spines := w.spines ++ [{
      name := "spine" ++ toString (spineIdx + 1)
      shortName := "s" ++ toString (spineIdx + 1)
      coreAddress := spineSide
      torAddresses := connected.torAddresses
      bmcAddress := addToIPNet env network.bmc (spineIdx + 2) }]
    tors := connected.tors }

/-- The flat list of the ToRs holds the pointers of the racks: what is appended to a ToR there is
seen in its rack. -/
def shareToRs : List (Rack IP Mask) → List (ToR IP Mask) → List (Rack IP Mask)
  | rack :: racks, tor1 :: tor2 :: tors =>
    { rack with tor1 := tor1, tor2 := tor2 } :: shareToRs racks tors
  -- there are two ToRs for each rack
  | _, _ => []

/-- The spines and the addresses of their links. -/
def connectSpines (network : Network IP Mask) (spine : Int) (racks : List (Rack IP Mask)) :
    Wiring IP Mask :=
  (List.range spine.toNat).foldl (connectSpine env network)
    { coreSpineBaseAddr := network.coreSpine
      spineTorBaseAddr := ⟨network.spineTor, env.cidrMask 31 32⟩
      spineAddresses := []
      spines := []
      tors := racks.flatMap fun rack => [rack.tor1, rack.tor2] }

/-- The cluster of a menu, when its racks are known. -/
def buildCluster (menu : Menu IP Mask) (network : Network IP Mask) (inventory : InventorySpec)
    (ntp : IPNet IP Mask) (racks : List (Rack IP Mask)) : Cluster IP Mask :=
  let wiring := connectSpines env network inventory.spine racks
  { network := network
    operation := addToIPNet env network.coreOperation offsetOperation
    external := addToIPNet env network.coreExternal offsetExternal
    internet := addToIPNet env network.internet offsetInternetHost
    bmc := addToIPNet env network.bmc offsetBMCHost
    core := {
      internetAddress := addToIPNet env network.internet offsetInternetCore
      spineAddresses := wiring.spineAddresses
      operationAddress := addToIPNet env network.coreOperation offsetOperationCore
      externalAddress := addToIPNet env network.coreExternal offsetExternalCore
      proxyAddress := network.proxy
      coreNTPAddress := some (addToIPNet env ntp offsetNTPCore)
      ntpServers := [addToIPNet env ntp offsetNTP1, addToIPNet env ntp offsetNTP2] }
    spines := wiring.spines
    racks := shareToRs racks wiring.tors
    image := menu.images
    deviceclasses := menu.deviceclasses }

/-- `addToIPNet` dereferences the network it is given; `ntp` is the one that may be nil. -/
def newCluster (menu : Menu IP Mask) : Except Panic (Cluster IP Mask) := do
  let network ← deref menu.network
  let inventory ← deref menu.inventory
  let ntp ← deref network.ntp
  let racks ← inventory.rack.zipIdx.mapM fun (rackMenu, rackIdx) =>
    newRack env network (nodeSpecs menu.nodes) inventory.spine rackMenu rackIdx
  return buildCluster env menu network inventory ntp racks

end

end Neco.PlacematMenu
