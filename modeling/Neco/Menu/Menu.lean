import Neco.Updater.Release

/-!
# Menus of placemat-menu

The documents of a menu as they are decoded from YAML, and `Parse`, which validates them one
after another. The functions of the packages `net`, `netutil` and `crypto/sha1`, and the files
with the IPAM configuration, are those of an environment: nothing is assumed of them here.
-/

namespace Neco.PlacematMenu

/-! ### Addresses and networks -/

structure IPNet (IP Mask : Type) where
  ip : IP
  mask : Mask
deriving DecidableEq, Repr

/-- The fields of sabakan's IPAM configuration that are read. -/
structure IPAMConfig where
  nodeIPv4Pool : String
  nodeIPv4Offset : String
  nodeRangeSize : UInt64
  nodeRangeMask : UInt64
  nodeIPPerNode : UInt64
  nodeIndexOffset : UInt64
  bmcIPv4Pool : String
deriving DecidableEq, Repr

structure Env (IP Mask : Type) where
  parseIP : String → Option IP
  parseCIDR : String → Except String (IP × IPNet IP Mask)
  equal : IP → IP → Bool
  ipString : IP → String
  netString : IPNet IP Mask → String
  cidrMask : Int → Int → Mask
  ipAdd : IP → Int → IP
  /-- The hash of a text in hexadecimal digits. -/
  sha1 : String → String
  /-- Opens and decodes the file that a menu names. -/
  readIPAM : String → Except String IPAMConfig

/-! ### Documents -/

structure Exposed where
  loadbalancer : String
  bastion : String
  egress : String
  global : String
deriving DecidableEq, Repr

structure NetworkSpec where
  ipamConfig : String
  asnBase : Int
  internet : String
  spineTor : String
  coreSpine : String
  coreExternal : String
  coreOperation : String
  proxy : String
  ntp : String
  pod : String
  exposed : Exposed
deriving DecidableEq, Repr

structure RackMenu where
  cs : Int
  ss : Int
deriving DecidableEq, Repr

/-- The racks are pointers: a null in the list of the document is a nil. -/
structure InventorySpec where
  spine : Int
  rack : List (Option RackMenu)
deriving DecidableEq, Repr

structure SMPSpec where
  cpus : Int
  cores : Int
  threads : Int
  dies : Int
  sockets : Int
deriving DecidableEq, Repr

structure DiskSpec where
  deviceClass : String
  count : Int
  size : String
deriving DecidableEq, Repr

structure NodeSpec where
  cpu : Int
  smp : Option SMPSpec
  memory : String
  numaNodes : Int
  diskCount : Int
  diskSize : String
  disks : List DiskSpec
  image : String
  data : List String
  uefi : Bool
  cloudInitTemplate : String
  tpm : Bool
deriving DecidableEq, Repr

def nodeTypeBoot : String := "boot"
def nodeTypeCS : String := "cs"
def nodeTypeSS : String := "ss"

structure NodeMenu where
  type : String
  spec : NodeSpec
deriving DecidableEq, Repr

/-- Images and device classes are passed on as they are. -/
structure ImageSpec where
  document : String
deriving DecidableEq, Repr

structure DeviceClassSpec where
  document : String
deriving DecidableEq, Repr

inductive Document
  | network (spec : NetworkSpec)
  | inventory (spec : InventorySpec)
  | node (node : NodeMenu)
  | image (spec : ImageSpec)
  | deviceClass (spec : DeviceClassSpec)
  | unknown (kind : String)
  /-- A document that does not unmarshal, with the error. -/
  | broken (error : String)
deriving DecidableEq, Repr

/-! ### Networks -/

/-- A network as `newNetworkMenu` returns it. A nil is left in `proxy` and `ntp` only. -/
structure Network (IP Mask : Type) where
  ipamConfigFile : String
  nodeBase : IP
  nodeRangeSize : Int
  nodeRangeMask : Int
  bmc : IPNet IP Mask
  asnBase : Int
  asnCore : Int
  asnExternal : Int
  asnSpine : Int
  internet : IPNet IP Mask
  coreSpine : IPNet IP Mask
  coreExternal : IPNet IP Mask
  coreOperation : IPNet IP Mask
  spineTor : IP
  proxy : Option IP
  ntp : Option (IPNet IP Mask)
  pod : IPNet IP Mask
  bastion : IPNet IP Mask
  loadBalancer : IPNet IP Mask
  egress : IPNet IP Mask
  global : IPNet IP Mask

def offsetASNCore : Int := -3
def offsetASNExternal : Int := -2
def offsetASNSpine : Int := -1

/-- A value of `int64`, wrapped around. -/
def wrap64 (n : Int) : Int := (n + 2 ^ 63) % 2 ^ 64 - 2 ^ 63

/-- The conversion of a `uint` to `int`: numbers from `2 ^ 63` on become negative. -/
def toInt (n : UInt64) : Int := wrap64 n.toNat

section

variable {IP Mask : Type} (env : Env IP Mask)

def parseNetworkCIDR (s : String) : Except String (IP × IPNet IP Mask) := do
  let (ip, network) ← env.parseCIDR s
  if !env.equal ip network.ip then
    throw ("host part of network address must be 0: " ++ s)
  return (ip, network)

/-- The network of `parseNetworkCIDR`. -/
def networkCIDR (s : String) : Except String (IPNet IP Mask) := do
  let (_, network) ← parseNetworkCIDR env s
  return network

/-- The number of `node-ipv4-offset`, octet by octet. -/
def nodeOffset (offset : String) : Except String Int :=
  if offset = "" then .ok 0
  else
    (offset.toList.splitOn '.').foldlM (fun nodeOffset b =>
      match atoi b with
      -- an octet may be any number, and neither their count nor the sum is checked
      | some n => .ok (wrap64 (wrap64 (nodeOffset * 256) + n))
      | none => .error ("invalid node-ipv4-offset: " ++ offset)) 0

/-- An optional field: absent when its text is empty. -/
def optional {α : Type} (text : String) (read : String → Except String α) :
    Except String (Option α) :=
  if text = "" then .ok none else (read text).map some

/-- The checks of the address of `field`. -/
def readIP (field text : String) : Except String IP :=
  match env.parseIP text with
  | some ip => .ok ip
  | none => .error ("Invalid IP address of " ++ field ++ ": " ++ text)

def checkIPAM (ic : IPAMConfig) : Except String Unit :=
  if ic.nodeIPPerNode ≠ 3 then .error "node-ip-per-node in IPAM config must be 3"
  else if ic.nodeIndexOffset ≠ 3 then .error "node-index-offset in IPAM config must be 3"
  else .ok ()

def newNetworkMenu (spec : NetworkSpec) : Except String (Network IP Mask) := do
  let ic ← env.readIPAM spec.ipamConfig
  checkIPAM ic
  -- the pool gives the first address only, its mask is not used
  let (nodePool, _) ← parseNetworkCIDR env ic.nodeIPv4Pool
  let offset ← nodeOffset ic.nodeIPv4Offset
  let bmc ← networkCIDR env ic.bmcIPv4Pool
  let internet ← networkCIDR env spec.internet
  let coreOperation ← networkCIDR env spec.coreOperation
  let coreSpine ← networkCIDR env spec.coreSpine
  let coreExternal ← networkCIDR env spec.coreExternal
  let spineTor ← readIP env "Spine ToR" spec.spineTor
  let proxy ← optional spec.proxy (readIP env "proxy")
  let ntp ← optional spec.ntp (networkCIDR env)
  let pod ← networkCIDR env spec.pod
  let bastion ← networkCIDR env spec.exposed.bastion
  let loadBalancer ← networkCIDR env spec.exposed.loadbalancer
  let egress ← networkCIDR env spec.exposed.egress
  let global ← networkCIDR env spec.exposed.global
  return {
    ipamConfigFile := spec.ipamConfig
    nodeBase := env.ipAdd nodePool offset
    nodeRangeSize := toInt ic.nodeRangeSize
    nodeRangeMask := toInt ic.nodeRangeMask
    bmc, asnBase := spec.asnBase
    -- the AS numbers before the base are those of the core, the outside and the spines
    asnCore := spec.asnBase + offsetASNCore
    asnExternal := spec.asnBase + offsetASNExternal
    asnSpine := spec.asnBase + offsetASNSpine
    internet, coreSpine, coreExternal, coreOperation, spineTor, proxy, ntp, pod, bastion
    loadBalancer, egress, global }

end

/-! ### Parse -/

def InventorySpec.validate (i : InventorySpec) : Except String Unit :=
  if ¬ i.spine > 0 then .error "spine in Inventory must be more than 0" else .ok ()

def NodeSpec.validate (n : NodeSpec) : Except String Unit :=
  if n.diskCount > 0 ∧ n.disks.length > 0 then .error "DiskCount and Disks are exclusive" else .ok ()

def NodeMenu.validate (n : NodeMenu) : Except String Unit :=
  if n.spec.cpu = 0 ∧ n.spec.smp = none then .error "cpu in Node must be more than 0"
  else n.spec.validate

structure Menu (IP Mask : Type) where
  network : Option (Network IP Mask)
  inventory : Option InventorySpec
  images : List ImageSpec
  deviceclasses : List DeviceClassSpec
  nodes : List NodeMenu

section

variable {IP Mask : Type} (env : Env IP Mask)

def Menu.empty : Menu IP Mask := ⟨none, none, [], [], []⟩

/-- What `Parse` does with one document. -/
def Menu.addDocument (menu : Menu IP Mask) : Document → Except String (Menu IP Mask)
  | .network spec => do
    let network ← newNetworkMenu env spec
    return { menu with network := some network }
  | .inventory spec => do
    spec.validate
    return { menu with inventory := some spec }
  | .node node => do
    node.validate
    return { menu with nodes := menu.nodes ++ [node] }
  | .image spec => return { menu with images := menu.images ++ [spec] }
  | .deviceClass spec => return { menu with deviceclasses := menu.deviceclasses ++ [spec] }
  | .unknown kind => throw ("unknown resource: " ++ kind)
  | .broken error => throw error

def parse (documents : List Document) : Except String (Menu IP Mask) :=
  documents.foldlM (Menu.addDocument env) .empty

end

end Neco.PlacematMenu
