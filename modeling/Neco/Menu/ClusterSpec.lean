import Neco.Menu.Cluster
import Neco.BootIPSetter.IP

/-!
# The placemat cluster of a cluster

`generateClusterSpec` lists the networks, the nodes and the network namespaces that placemat
starts. Namespaces name the networks they are attached to, so that the same names are written
in several places.
-/

namespace Neco.PlacematMenu

/-! ### Types of placemat -/

namespace Placemat

structure NetworkSpec where
  kind : String := "Network"
  name : String
  type : String := "internal"
  useNAT : Bool := false
  address : String := ""
deriving DecidableEq, Repr

structure NodeVolumeSpec where
  kind : String
  name : String
  image : String := ""
  userData : String := ""
  networkConfig : String := ""
  size : String := ""
  path : String := ""
  copyOnWrite : Bool := false
  cache : String := ""
  format : String := ""
  deviceClass : String := ""
deriving DecidableEq, Repr

structure NodeSpec where
  kind : String := "Node"
  name : String
  interfaces : List String
  volumes : List NodeVolumeSpec
  ignitionFile : String := ""
  cpu : Int
  smp : Option SMPSpec := none
  memory : String
  numaNodes : Int := 0
  networkDeviceQueue : Int := 0
  uefi : Bool := false
  tpm : Bool := false
  serial : String := ""
deriving DecidableEq, Repr

structure NetNSInterfaceSpec where
  network : String
  addresses : List String
deriving DecidableEq, Repr

structure NetNSAppSpec where
  name : String
  command : List String
deriving DecidableEq, Repr

structure NetNSSpec where
  kind : String := "NetworkNamespace"
  name : String
  interfaces : List NetNSInterfaceSpec
  apps : List NetNSAppSpec := []
  initScripts : List String := []
deriving DecidableEq, Repr

structure ClusterSpec where
  networks : List NetworkSpec
  images : List ImageSpec
  deviceClasses : List DeviceClassSpec
  nodes : List NodeSpec
  netNSs : List NetNSSpec
deriving DecidableEq, Repr

end Placemat

open Placemat (NodeVolumeSpec NetNSInterfaceSpec NetNSAppSpec NetNSSpec ClusterSpec)

section

variable {IP Mask : Type} (env : Env IP Mask)

/-! ### Networks -/

def Cluster.appendNetworks (c : Cluster IP Mask) : List Placemat.NetworkSpec :=
  -- Internet Network
  [{ name := "internet", type := "external", useNAT := true,
      address := env.netString c.internet }] ++
  -- Core Network
  c.spines.map (fun spine => { name := "core-to-" ++ spine.shortName }) ++
  [{ name := "core-to-ext" }, { name := "core-to-op" }] ++
  (if c.core.proxyAddress.isSome then [{ name := "core-node0" }] else []) ++
  (if c.core.coreNTPAddress.isSome then [{ name := "core-ntp" }] else []) ++
  -- BMC Network
  [{ name := "bmc", type := "bmc", address := env.netString c.bmc }] ++
  -- Spine to ToR Network
  c.spines.flatMap (fun spine => c.racks.flatMap fun rack =>
    [{ name := spine.shortName ++ "-to-" ++ rack.shortName ++ "-1" },
     { name := spine.shortName ++ "-to-" ++ rack.shortName ++ "-2" }]) ++
  -- Rack Network
  c.racks.flatMap (fun rack =>
    [{ name := rack.shortName ++ "-node1" }, { name := rack.shortName ++ "-node2" }])

/-! ### Nodes -/

def createBootNode (rack : Rack IP Mask) (sabakanDir : String) :
    Except Panic Placemat.NodeSpec := do
  let spec ← deref rack.bootNode.spec
  let root : List NodeVolumeSpec :=
    if spec.image ≠ "" then
      { kind := "image", name := "root", image := spec.image, copyOnWrite := true,
        cache := "writeback" } ::
      if spec.cloudInitTemplate ≠ "" then
        [{ kind := "localds", name := "seed",
            userData := "seed_" ++ rack.bootNode.fullName ++ ".yml",
            networkConfig := "network.yml" }]
      else []
    else [{ kind := "raw", name := "root", size := "30G" }]
  return {
    name := rack.bootNode.fullName
    interfaces := [rack.shortName ++ "-node1", rack.shortName ++ "-node2"]
    volumes := root ++ [{ kind := "hostPath", name := "sabakan", path := sabakanDir }]
    cpu := spec.cpu
    smp := spec.smp
    memory := spec.memory
    numaNodes := spec.numaNodes
    uefi := spec.uefi
    tpm := spec.tpm
    serial := rack.bootNode.serial }

/-- The size of a disk: the first text that is not empty. -/
def sizeOr (size default : String) : String := if size ≠ "" then size else default

def workerVolumes (spec : NodeSpec) : List NodeVolumeSpec :=
  let diskSize := sizeOr spec.diskSize "50G"
  (List.range spec.diskCount.toNat).map (fun i =>
    { kind := "raw", name := "data" ++ toString (i + 1), size := diskSize, cache := "none",
      format := "raw" }) ++
  spec.disks.zipIdx.flatMap (fun (v, i) =>
    (List.range v.count.toNat).map fun j =>
      { kind := "raw", name := "data" ++ toString (i + 1) ++ "-" ++ toString (j + 1),
        size := sizeOr v.size diskSize, cache := "none", format := "raw",
        deviceClass := v.deviceClass }) ++
  spec.data.zipIdx.map (fun (dataImg, i) =>
    { kind := "image", name := "extra" ++ toString i, image := dataImg, copyOnWrite := true })

def createWorkerNode (rack : Rack IP Mask) (node : Node IP Mask) :
    Except Panic Placemat.NodeSpec := do
  let spec ← deref node.spec
  return {
    name := rack.name ++ "-" ++ node.name
    interfaces := [rack.shortName ++ "-node1", rack.shortName ++ "-node2"]
    volumes := workerVolumes spec
    cpu := spec.cpu
    smp := spec.smp
    memory := spec.memory
    numaNodes := spec.numaNodes
    networkDeviceQueue := (spec.smp.elim spec.cpu SMPSpec.cpus) * 2
    uefi := spec.uefi
    tpm := spec.tpm
    serial := node.serial }

def createChronyNode : Placemat.NodeSpec where
  name := "chrony"
  interfaces := ["core-ntp"]
  volumes := [{ kind := "image", name := "root", image := "flatcar", copyOnWrite := true,
                cache := "writeback" }]
  ignitionFile := "chrony.ign"
  cpu := 2
  memory := "4G"

/-- The boot server of a rack and its servers. -/
def rackNodes (sabakanDir : String) (rack : Rack IP Mask) :
    Except Panic (List Placemat.NodeSpec) := do
  let boot ← createBootNode rack sabakanDir
  let cs ← rack.csList.mapM (createWorkerNode rack)
  let ss ← rack.ssList.mapM (createWorkerNode rack)
  return boot :: (cs ++ ss)

def Cluster.appendNodes (c : Cluster IP Mask) (sabakanDir : String) :
    Except Panic (List Placemat.NodeSpec) := do
  let nodes ← c.racks.mapM (rackNodes sabakanDir)
  return nodes.flatten ++ [createChronyNode]

/-! ### Network namespaces -/

def birdApp (name : String) : NetNSAppSpec where
  name := "bird"
  command := ["/usr/sbin/bird", "-f", "-c", "/etc/bird/bird_" ++ name ++ ".conf", "-s",
    "/var/run/bird/bird_" ++ name ++ ".ctl"]

def Cluster.coreNetNs (c : Cluster IP Mask) : NetNSSpec where
  name := "core"
  interfaces :=
    [⟨"internet", [env.netString c.core.internetAddress]⟩,
     ⟨"core-to-ext", [env.netString c.core.externalAddress]⟩,
     ⟨"core-to-op", [env.netString c.core.operationAddress]⟩] ++
    (c.core.proxyAddress.map fun ip => ⟨"core-node0", [env.ipString ip ++ "/32"]⟩).toList ++
    (c.core.coreNTPAddress.map fun ntp => ⟨"core-ntp", [env.netString ntp]⟩).toList ++
    c.core.spineAddresses.zipIdx.map fun (spine, i) =>
      ⟨"core-to-s" ++ toString (i + 1), [env.netString spine]⟩
  apps := [birdApp "core", ⟨"squid", ["/usr/sbin/squid", "-N"]⟩]
  initScripts := ["setup-iptables"]

/-- The interfaces of a spine to the two ToRs of a rack. -/
def spineToRack (spine : Spine IP Mask) (rack : Rack IP Mask) (i : Nat) :
    Except Panic (List NetNSInterfaceSpec) := do
  let tor1 ← spine.tor1Address i
  let tor2 ← spine.tor2Address i
  return [⟨spine.shortName ++ "-to-" ++ rack.shortName ++ "-1", [env.netString tor1]⟩,
    ⟨spine.shortName ++ "-to-" ++ rack.shortName ++ "-2", [env.netString tor2]⟩]

def Cluster.spineNetNs (c : Cluster IP Mask) (spine : Spine IP Mask) (i : Nat) :
    Except Panic NetNSSpec := do
  let tors ← c.racks.zipIdx.mapM fun (rack, i) => spineToRack env spine rack i
  return {
    name := "spine" ++ toString (i + 1)
    interfaces :=
      [⟨"core-to-" ++ spine.shortName, [env.netString spine.coreAddress]⟩,
       ⟨"bmc", [env.netString spine.bmcAddress]⟩] ++ tors.flatten
    apps := [birdApp spine.name]
    initScripts := ["setup-iptables-spine"] }

/-- The interface of a ToR to a spine. -/
def torToSpine (rack : Rack IP Mask) (tor : ToR IP Mask) (torIdx : Nat) (spine : Spine IP Mask)
    (i : Nat) : Except Panic NetNSInterfaceSpec := do
  let address ← index tor.spineAddresses i
  return ⟨spine.shortName ++ "-to-" ++ rack.shortName ++ "-" ++ toString torIdx,
    [env.netString address]⟩

def dnsmasqCommand (name : String) (tor : ToR IP Mask) : List String :=
  ["/usr/sbin/dnsmasq", "--keep-in-foreground",
    "--pid-file=/var/run/dnsmasq_" ++ name ++ ".pid", "--log-facility=-"] ++
  BootIPSetter.dhcpServerAddressList.flatMap fun ip =>
    ["--dhcp-relay", env.ipString tor.nodeAddress.ip ++ "," ++ ip]

def Cluster.createToRNetNs (c : Cluster IP Mask) (rack : Rack IP Mask) (tor : ToR IP Mask)
    (torIdx : Nat) : Except Panic NetNSSpec := do
  let name := rack.name ++ "-tor" ++ toString torIdx
  let spines ← c.spines.zipIdx.mapM fun (spine, i) => torToSpine env rack tor torIdx spine i
  return {
    name := name
    interfaces := spines ++ [⟨rack.shortName ++ "-node" ++ toString torIdx,
      [env.netString tor.nodeAddress]⟩]
    apps := [birdApp name, ⟨"dnsmasq", dnsmasqCommand env name tor⟩] }

/-- The namespaces of the two ToRs of a rack. -/
def Cluster.rackNetNss (c : Cluster IP Mask) (rack : Rack IP Mask) :
    Except Panic (List NetNSSpec) := do
  let tor1 ← c.createToRNetNs env rack rack.tor1 1
  let tor2 ← c.createToRNetNs env rack rack.tor2 2
  return [tor1, tor2]

def Cluster.externalNetNs (c : Cluster IP Mask) : NetNSSpec where
  name := "external"
  interfaces := [⟨"core-to-ext", [env.netString c.external]⟩]
  initScripts := ["setup-default-gateway-external"]

def Cluster.operationNetNs (c : Cluster IP Mask) : NetNSSpec where
  name := "operation"
  interfaces := [⟨"core-to-op", [env.netString c.operation]⟩]
  initScripts := ["setup-default-gateway-operation"]

def Cluster.appendNetworkNamespaces (c : Cluster IP Mask) : Except Panic (List NetNSSpec) := do
  let spines ← c.spines.zipIdx.mapM fun (spine, i) => c.spineNetNs env spine i
  let tors ← c.racks.mapM (c.rackNetNss env)
  return [c.coreNetNs env] ++ spines ++ tors.flatten ++
    [c.externalNetNs env, c.operationNetNs env]

def Cluster.generateClusterSpec (c : Cluster IP Mask) (sabakanDir : String) :
    Except Panic ClusterSpec := do
  let networks := c.appendNetworks env
  let nodes ← c.appendNodes sabakanDir
  let netNSs ← c.appendNetworkNamespaces env
  return { networks, images := c.image, deviceClasses := c.deviceclasses, nodes, netNSs }

end

end Neco.PlacematMenu
