import Neco.Menu.Menu
import Neco.Lib.Fallible
import Neco.Lib.IPv4
import Mathlib.Data.List.Induction

/-!
# Accepted menus

What `Parse` leaves of the documents it accepts: the last network, the last inventory, and every
node.
-/

namespace Neco.PlacematMenu

open Fallible

/-! ### Documents -/

def Document.network? : Document → Option NetworkSpec
  | .network spec => some spec
  | .inventory _ | .node _ | .image _ | .deviceClass _ | .unknown _ | .broken _ => none

def Document.inventory? : Document → Option InventorySpec
  | .inventory spec => some spec
  | .network _ | .node _ | .image _ | .deviceClass _ | .unknown _ | .broken _ => none

def Document.node? : Document → Option NodeMenu
  | .node menu => some menu
  | .network _ | .inventory _ | .image _ | .deviceClass _ | .unknown _ | .broken _ => none

/-- The last document of a kind. -/
def last {α : Type} (kind : Document → Option α) (documents : List Document) : Option α :=
  (documents.filterMap kind).getLast?

def lastNetwork : List Document → Option NetworkSpec := last Document.network?

def lastInventory : List Document → Option InventorySpec := last Document.inventory?

theorem last_concat {α : Type} (kind : Document → Option α) (documents : List Document)
    (document : Document) :
    last kind (documents ++ [document]) = (kind document).or (last kind documents) := by
  unfold last
  cases here : kind document <;> simp [here]

theorem exists_last {α : Type} (kind : Document → Option α) {documents : List Document}
    {document : Document} {a : α} (member : document ∈ documents) (here : kind document = some a) :
    ∃ b, last kind documents = some b := by
  have some : documents.filterMap kind ≠ [] :=
    List.ne_nil_of_mem (List.mem_filterMap.mpr ⟨document, member, here⟩)
  exact ⟨_, List.getLast?_eq_some_getLast some⟩

section

variable {IP Mask : Type} {env : Env IP Mask}

/-! ### Networks -/

/-- What a network keeps of its document. -/
structure Network.Read (env : Env IP Mask) (spec : NetworkSpec) (network : Network IP Mask) :
    Prop where
  ipam : ∃ ic, env.readIPAM spec.ipamConfig = .ok ic ∧
    network.nodeRangeSize = toInt ic.nodeRangeSize
  spineTor : env.parseIP spec.spineTor = some network.spineTor
  ntp : network.ntp = none ↔ spec.ntp = ""

theorem optional_eq_none {α : Type} {text : String} {read : String → Except String α}
    {value : Option α} (returned : optional text read = .ok value) : value = none ↔ text = "" := by
  unfold optional at returned
  split at returned
  next absent =>
    cases returned
    simp [absent]
  next present =>
    cases here : read text with
    | error e =>
      rw [here] at returned
      cases returned
    | ok a =>
      rw [here] at returned
      cases returned
      simp [present]

theorem readIP_eq_ok {field text : String} {ip : IP} :
    readIP env field text = .ok ip ↔ env.parseIP text = some ip := by
  unfold readIP
  cases env.parseIP text <;> simp

theorem read_newNetworkMenu {spec : NetworkSpec} {network : Network IP Mask}
    (made : newNetworkMenu env spec = .ok network) : network.Read env spec := by
  simp only [newNetworkMenu, bind_eq_ok, pure_eq_ok, readIP_eq_ok] at made
  -- one value and one check for each line of the function
  obtain ⟨ic, ipam, _, -, _, -, _, -, _, -, _, -, _, -, _, -, _, -, _, spineTor, _, -, _, ntp, _, -,
    _, -, _, -, _, -, _, -, rfl⟩ := made
  exact ⟨⟨ic, ipam, rfl⟩, spineTor, optional_eq_none ntp⟩

/-! ### Parse -/

/-- The menu that `Parse` has built from the documents it has read so far. -/
structure Menu.Holds (env : Env IP Mask) (documents : List Document) (menu : Menu IP Mask) :
    Prop where
  network : Option.Rel (fun spec network => network.Read env spec) (lastNetwork documents)
    menu.network
  inventory : lastInventory documents = menu.inventory
  nodes : documents.filterMap Document.node? = menu.nodes

theorem Menu.Holds.exists_network {documents : List Document} {menu : Menu IP Mask}
    {spec : NetworkSpec} (holds : menu.Holds env documents)
    (last : lastNetwork documents = some spec) :
    ∃ network, menu.network = some network ∧ network.Read env spec := by
  have rel := holds.network
  rw [last] at rel
  cases found : menu.network with
  | none =>
    rw [found] at rel
    cases rel
  | some network =>
    rw [found] at rel
    cases rel with
    | some read => exact ⟨network, rfl, read⟩

/-- One document replaces the network or the inventory, or adds a node. -/
theorem Menu.Holds.addDocument {documents : List Document} {document : Document}
    {menu menu' : Menu IP Mask} (holds : menu.Holds env documents)
    (accepted : menu.addDocument env document = .ok menu') :
    menu'.Holds env (documents ++ [document]) := by
  obtain ⟨network, inventory, nodes⟩ := holds
  -- a document of another kind leaves each of the three parts as it was
  have keepsNetwork (other : document.network? = none) : Option.Rel
      (fun spec network => network.Read env spec) (lastNetwork (documents ++ [document]))
      menu.network := by
    rw [lastNetwork, last_concat, other]
    exact network
  have keepsInventory (other : document.inventory? = none) :
      lastInventory (documents ++ [document]) = menu.inventory := by
    rw [lastInventory, last_concat, other]
    exact inventory
  have keepsNodes (other : document.node? = none) :
      (documents ++ [document]).filterMap Document.node? = menu.nodes := by
    simp [nodes, other]
  cases document with
  | network spec =>
    obtain ⟨made, read, same⟩ := bind_eq_ok.mp accepted
    cases same
    refine ⟨?_, keepsInventory rfl, keepsNodes rfl⟩
    rw [lastNetwork, last_concat]
    exact .some (read_newNetworkMenu read)
  | inventory spec =>
    obtain ⟨_, -, same⟩ := bind_eq_ok.mp accepted
    cases same
    refine ⟨keepsNetwork rfl, ?_, keepsNodes rfl⟩
    rw [lastInventory, last_concat]
    rfl
  | node node =>
    obtain ⟨_, -, same⟩ := bind_eq_ok.mp accepted
    cases same
    refine ⟨keepsNetwork rfl, keepsInventory rfl, ?_⟩
    simp [nodes, Document.node?]
  | image spec =>
    cases accepted
    exact ⟨keepsNetwork rfl, keepsInventory rfl, keepsNodes rfl⟩
  | deviceClass spec =>
    cases accepted
    exact ⟨keepsNetwork rfl, keepsInventory rfl, keepsNodes rfl⟩
  | unknown kind => cases accepted
  | broken error => cases accepted

theorem holds_parse {documents : List Document} {menu : Menu IP Mask}
    (accepted : parse env documents = .ok menu) : menu.Holds env documents := by
  unfold parse at accepted
  induction documents using List.reverseRecOn generalizing menu with
  | nil =>
    cases accepted
    exact ⟨.none, rfl, rfl⟩
  | append_singleton documents document ih =>
    obtain ⟨before, earlier, added⟩ := foldlM_concat_eq_ok.mp accepted
    exact (ih earlier).addDocument added

end

/-! ### A menu with two racks -/

/-- An environment with IPv4 addresses only, one IPAM configuration and texts in place of hashes. -/
def ipv4Env (ipam : IPAMConfig) : Env IPv4.Addr Nat where
  parseIP text := IPv4.parse text.toList
  parseCIDR text :=
    match text.toList.splitOn '/' with
    | [address, ones] =>
      match IPv4.parse address, IPv4.readOctet ones with
      | some ip, some ones =>
        .ok (ip, ⟨ip >>> (32 - ones) <<< (32 - ones), ones⟩)
      | _, _ => .error ("invalid CIDR address: " ++ text)
    | _ => .error ("invalid CIDR address: " ++ text)
  equal := (· == ·)
  ipString := IPv4.text
  netString network := IPv4.text network.ip ++ "/" ++ toString network.mask
  cidrMask ones _ := ones.toNat
  ipAdd ip n := ip + BitVec.ofInt 32 n
  sha1 text := text
  readIPAM _ := .ok ipam

def twoRacksIPAM : IPAMConfig where
  nodeIPv4Pool := "10.69.0.0/20"
  nodeIPv4Offset := ""
  nodeRangeSize := 6
  nodeRangeMask := 26
  nodeIPPerNode := 3
  nodeIndexOffset := 3
  bmcIPv4Pool := "10.72.16.0/20"

def twoRacksNetwork (ntp : String) : NetworkSpec where
  ipamConfig := "ipam.json"
  asnBase := 64600
  internet := "10.0.0.0/24"
  spineTor := "10.0.1.0"
  coreSpine := "10.0.2.0/31"
  coreExternal := "10.0.3.0/24"
  coreOperation := "10.0.4.0/24"
  proxy := "10.0.49.3"
  ntp := ntp
  pod := "10.64.0.0/14"
  exposed := ⟨"10.72.32.0/20", "10.72.48.0/26", "172.19.0.0/24", "172.19.0.0/24"⟩

def twoRacksNode : NodeSpec where
  cpu := 1
  smp := none
  memory := "2G"
  numaNodes := 0
  diskCount := 0
  diskSize := ""
  disks := []
  image := ""
  data := []
  uefi := false
  cloudInitTemplate := ""
  tpm := false

def twoRacks (ntp : String) : List Document :=
  [.network (twoRacksNetwork ntp), .inventory ⟨2, [some ⟨2, 0⟩, some ⟨1, 1⟩]⟩,
   .node ⟨"boot", twoRacksNode⟩, .node ⟨"cs", twoRacksNode⟩, .node ⟨"ss", twoRacksNode⟩]

end Neco.PlacematMenu
