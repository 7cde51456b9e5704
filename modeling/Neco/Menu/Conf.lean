import Neco.Menu.ClusterSpec

/-!
# The configuration files of a cluster

Each generator computes the arguments of a template and writes one file for them. A file is
modelled by its template, its name in the output directory and its arguments; the templates only
print them, but for the one of the spines, which looks up the addresses of the ToRs.
-/

namespace Neco.PlacematMenu

/-! ### Arguments of the templates -/

structure SpineArgs where
  name : String
  coreAddress : String
  tor1Address : String := ""
  tor2Address : String := ""
deriving DecidableEq, Repr

structure NodeArgs where
  name : String
  bastionAddress : String := ""
  node1Address : String
  node2Address : String
deriving DecidableEq, Repr

structure ToRArgs where
  nodeInterface : String
  spineAddresses : List String
deriving DecidableEq, Repr

structure RackArgs where
  name : String
  index : Nat
  asn : Int
  tor1 : ToRArgs
  tor2 : ToRArgs
  bootNode : NodeArgs
  csList : List NodeArgs
  ssList : List NodeArgs
deriving DecidableEq, Repr

structure BirdCoreArgs where
  internet : String
  asnCore : Int
  asnSpine : Int
  spines : List SpineArgs
deriving DecidableEq, Repr

structure BirdSpineArgs where
  spineIdx : Nat
  asnCore : Int
  asnSpine : Int
  loadBalancer : String
  bastion : String
  egress : String
  global : String
  bmc : String
  bmcAddress : String
  coreSpineAddress : String
  racks : List RackArgs
deriving DecidableEq, Repr

structure BirdRackArgs where
  asnSpine : Int
  spines : List SpineArgs
  rack : RackArgs
deriving DecidableEq, Repr

structure SeedYamlArgs where
  name : String
  rack : RackArgs
deriving DecidableEq, Repr

structure SetupIPTablesArgs where
  internet : String
  ntp : String
deriving DecidableEq, Repr

structure ChronyIgnitionArgs where
  ntpServers : List String
  gateway : String
  chronyTag : String
deriving DecidableEq, Repr

structure MachineSpec where
  serial : String
  labels : List (String × String)
  rack : Nat
  role : String
  bmcType : String
deriving DecidableEq, Repr

inductive Args
  | birdCore (args : BirdCoreArgs)
  | birdSpine (args : BirdSpineArgs)
  | birdRack (args : BirdRackArgs)
  | machinesYaml (racks : List RackArgs)
  | seedYaml (args : SeedYamlArgs)
  | setupIPTables (args : SetupIPTablesArgs)
  | chronyIgnition (args : ChronyIgnitionArgs)
  | machines (ms : List MachineSpec)
  | text (text : String)
  | none
deriving DecidableEq, Repr

/-- A file in the output directory. The template of a seed is a file of the input directory. -/
structure ConfFile where
  input : String
  output : String
  args : Args
deriving DecidableEq, Repr

section

variable {IP Mask : Type} (env : Env IP Mask)

def torArgs (tor : ToR IP Mask) : ToRArgs where
  nodeInterface := tor.nodeInterface
  spineAddresses := tor.spineAddresses.map fun address => env.ipString address.ip

def nodeArgs (node : Node IP Mask) : NodeArgs where
  name := node.name
  node1Address := env.ipString node.node1Address.ip
  node2Address := env.ipString node.node2Address.ip

def newRackArgs (rack : Rack IP Mask) : RackArgs where
  name := rack.name
  index := rack.index
  asn := rack.asn
  tor1 := torArgs env rack.tor1
  tor2 := torArgs env rack.tor2
  bootNode := {
    name := rack.bootNode.fullName
    bastionAddress := env.netString rack.bootNode.bastionAddress
    node1Address := env.ipString rack.bootNode.node1Address.ip
    node2Address := env.ipString rack.bootNode.node2Address.ip }
  csList := rack.csList.map (nodeArgs env)
  ssList := rack.ssList.map (nodeArgs env)

/-! ### Bird -/

def Cluster.generateBirdCoreConf (c : Cluster IP Mask) : List ConfFile :=
  [⟨"/bird_core.conf", "bird_core.conf", .birdCore {
    internet := env.ipString c.internet.ip
    asnCore := c.network.asnCore
    asnSpine := c.network.asnSpine
    spines := c.spines.map fun spine =>
      { name := spine.name, coreAddress := env.ipString spine.coreAddress.ip } }⟩]

def Cluster.birdSpineArgs (c : Cluster IP Mask) (spineIdx : Nat) :
    Except Panic BirdSpineArgs := do
  let coreSpineAddress ← index c.core.spineAddresses spineIdx
  return {
    spineIdx := spineIdx
    asnCore := c.network.asnCore
    asnSpine := c.network.asnSpine
    loadBalancer := env.netString c.network.loadBalancer
    bastion := env.netString c.network.bastion
    egress := env.netString c.network.egress
    global := env.netString c.network.global
    bmc := env.netString c.network.bmc
    -- computed again, not taken from the spine
    bmcAddress := env.ipString (addToIP env c.network.bmc.ip (spineIdx + 2) 20).ip
    coreSpineAddress := env.ipString coreSpineAddress.ip
    racks := c.racks.map (newRackArgs env) }

/-- The neighbors that `bird_spine.conf` prints for a rack. -/
def spineNeighbors (spineIdx : Nat) (rack : RackArgs) :
    Except Panic (List (String × String)) := do
  let tor1 ← index rack.tor1.spineAddresses spineIdx
  let tor2 ← index rack.tor2.spineAddresses spineIdx
  return [(rack.name ++ "-tor1", tor1), (rack.name ++ "-tor2", tor2)]

/-- `bird_spine.conf` is printed after the addresses have been looked up. -/
def exportBirdSpine (args : BirdSpineArgs) (output : String) : Except Panic ConfFile := do
  let _ ← args.racks.mapM (spineNeighbors args.spineIdx)
  return ⟨"/bird_spine.conf", output, .birdSpine args⟩

def Cluster.generateBirdSpineConf (c : Cluster IP Mask) : Except Panic (List ConfFile) :=
  (List.range c.spines.length).mapM fun spineIdx => do
    let args ← c.birdSpineArgs env spineIdx
    exportBirdSpine args ("bird_spine" ++ toString (spineIdx + 1) ++ ".conf")

/-- The spine as rack `rackIdx` sees it. -/
def rackSpineArgs (rackIdx : Nat) (spine : Spine IP Mask) : Except Panic SpineArgs := do
  let tor1 ← spine.tor1Address rackIdx
  let tor2 ← spine.tor2Address rackIdx
  return {
    name := spine.name
    coreAddress := env.ipString spine.coreAddress.ip
    tor1Address := env.ipString tor1.ip
    tor2Address := env.ipString tor2.ip }

def Cluster.birdRackArgs (c : Cluster IP Mask) (rack : Rack IP Mask) (rackIdx : Nat) :
    Except Panic BirdRackArgs := do
  let spines ← c.spines.mapM (rackSpineArgs env rackIdx)
  return { asnSpine := c.network.asnSpine, spines := spines, rack := newRackArgs env rack }

def Cluster.generateBirdRackConf (c : Cluster IP Mask) : Except Panic (List ConfFile) := do
  let files ← c.racks.zipIdx.mapM fun (rack, rackIdx) => do
    let args ← c.birdRackArgs env rack rackIdx
    let name := "bird_rack" ++ toString rackIdx
    return [⟨"/bird_rack-tor1.conf", name ++ "-tor1.conf", Args.birdRack args⟩,
      ⟨"/bird_rack-tor2.conf", name ++ "-tor2.conf", Args.birdRack args⟩]
  return files.flatten

/-! ### Nodes -/

/-- A seed is written for a node whose specification has a template. -/
def seedFile (spec : Option NodeSpec) (name output : String) (rack : RackArgs) :
    Except Panic (List ConfFile) := do
  let spec ← deref spec
  if spec.cloudInitTemplate ≠ "" then
    return [⟨spec.cloudInitTemplate, "seed_" ++ output ++ ".yml", .seedYaml ⟨name, rack⟩⟩]
  return []

def serverSeed (rack : Rack IP Mask) (node : Node IP Mask) : Except Panic (List ConfFile) :=
  let name := rack.name ++ "-" ++ node.name
  seedFile node.spec name name (newRackArgs env rack)

def rackSeeds (rack : Rack IP Mask) (rackIdx : Nat) : Except Panic (List ConfFile) := do
  -- the name is made from the place of the rack, the file from its index
  let boot ← seedFile rack.bootNode.spec ("boot-" ++ toString rackIdx)
    ("boot-" ++ toString rack.index) (newRackArgs env rack)
  let cs ← rack.csList.mapM (serverSeed env rack)
  let ss ← rack.ssList.mapM (serverSeed env rack)
  return boot ++ cs.flatten ++ ss.flatten

def Cluster.generateSeedYaml (c : Cluster IP Mask) : Except Panic (List ConfFile) := do
  let files ← c.racks.zipIdx.mapM fun (rack, rackIdx) => rackSeeds env rack rackIdx
  return files.flatten

def Cluster.generateMachinesYaml (c : Cluster IP Mask) : List ConfFile :=
  [⟨"/machines.tpl", "machines.yml", .machinesYaml (c.racks.map (newRackArgs env))⟩]

def generateNetworkYaml : List ConfFile :=
  [⟨"", "network.yml", .text "version: 2\nethernets: \x7b\x7d\n"⟩]

def sabakanMachine (serial : String) (rack : Nat) (role : String) : MachineSpec where
  serial := serial
  labels := [("product", "vm"), ("machine-type", "qemu"), ("datacenter", "dc1")]
  rack := rack
  role := role
  bmcType := "IPMI-2.0"

def Cluster.generateSabakanData (c : Cluster IP Mask) : List ConfFile :=
  [⟨"", "sabakan/machines.json", .machines (c.racks.flatMap fun rack =>
    sabakanMachine rack.bootNode.serial rack.index "boot" ::
      (rack.csList.map (fun cs => sabakanMachine cs.serial rack.index "cs") ++
        rack.ssList.map (fun ss => sabakanMachine ss.serial rack.index "ss")))⟩]

/-! ### Setup scripts and time servers -/

/-- `String` of a pointer to a network prints a nil as such. -/
def pointerString (network : Option (IPNet IP Mask)) : String :=
  network.elim "<nil>" env.netString

def Cluster.generateSetupScripts (c : Cluster IP Mask) : List ConfFile :=
  [⟨"/setup-iptables.sh", "setup-iptables", .setupIPTables
    { internet := env.netString c.network.global, ntp := pointerString env c.network.ntp }⟩,
   ⟨"/setup-iptables-spine.sh", "setup-iptables-spine", .text (env.netString c.bmc)⟩,
   ⟨"/setup-default-gateway.sh", "setup-default-gateway-operation",
    .text (env.ipString c.core.operationAddress.ip)⟩,
   ⟨"/setup-default-gateway.sh", "setup-default-gateway-external",
    .text (env.ipString c.core.externalAddress.ip)⟩]

def Cluster.generateChronyIgnition (c : Cluster IP Mask) (chronyTag : String) :
    Except Panic (List ConfFile) := do
  -- unlike in the setup scripts, a nil is followed
  let coreNTPAddress ← deref c.core.coreNTPAddress
  return [⟨"/chrony-ign.yml", "chrony-ign.yml", .chronyIgnition {
    ntpServers := c.core.ntpServers.map env.netString
    gateway := env.ipString coreNTPAddress.ip
    chronyTag := chronyTag }⟩]

def generateSquidConf : List ConfFile := [⟨"/squid.conf", "squid.conf", .none⟩]

def Cluster.generateConfFiles (c : Cluster IP Mask) (chronyTag : String) :
    Except Panic (List ConfFile) := do
  let birdCore := c.generateBirdCoreConf env
  let birdRack ← c.generateBirdRackConf env
  let birdSpine ← c.generateBirdSpineConf env
  let machines := c.generateMachinesYaml env
  let seeds ← c.generateSeedYaml env
  let chrony ← c.generateChronyIgnition env chronyTag
  return birdCore ++ birdRack ++ birdSpine ++ machines ++ generateNetworkYaml ++ seeds ++ chrony ++
    generateSquidConf ++ c.generateSetupScripts env ++ c.generateSabakanData

/-- `sabakanDir` is the absolute path of the directory for sabakan. -/
def Cluster.generate (c : Cluster IP Mask) (sabakanDir chronyTag : String) :
    Except Panic (Placemat.ClusterSpec × List ConfFile) := do
  let spec ← c.generateClusterSpec env sabakanDir
  let files ← c.generateConfFiles env chronyTag
  return (spec, files)

end

end Neco.PlacematMenu
