import Neco.Properties.ClusterShape
import Neco.Properties.MenuParse

/-!
# Building accepted menus

`Parse` takes `ntp` and `proxy` as optional fields. The generators treat both as optional too, but
`NewCluster` reads `ntp` first and dereferences it. The menus that can be built are told here by
their documents: besides `ntp`, a null in the list of racks and a size of node ranges that is
negative as an `int` stop `NewCluster`. Once there is a cluster nothing else can fail.
-/

namespace Neco.PlacematMenu

open Fallible

section

variable {IP Mask : Type} {env : Env IP Mask}

variable (env) in
/-- `NewCluster` followed by `Generate`. -/
def build (menu : Menu IP Mask) (sabakanDir chronyTag : String) :
    Except Panic (Placemat.ClusterSpec × List ConfFile) := do
  let c ← newCluster env menu
  c.generate env sabakanDir chronyTag

/-! ### Clusters -/

theorem newCluster_without_ntp {menu : Menu IP Mask} {network : Network IP Mask}
    {inventory : InventorySpec} (hasNetwork : menu.network = some network)
    (hasInventory : menu.inventory = some inventory) (absent : network.ntp = none) :
    newCluster env menu = .error .nilPointer := by
  rw [newCluster, hasNetwork, hasInventory]
  change (deref network.ntp >>= _) = _
  rw [absent]
  rfl

/-- Once there is a cluster, everything is generated. -/
theorem succeeds_build {menu : Menu IP Mask} {inventory : InventorySpec}
    (hasInventory : menu.inventory = some inventory) (typed : menu.Typed)
    (sabakanDir chronyTag : String) :
    Succeeds (build env menu sabakanDir chronyTag) ↔ Succeeds (newCluster env menu) := by
  constructor
  · intro built
    obtain ⟨c, built, -⟩ := succeeds_bind.mp built
    exact ⟨c, built⟩
  · intro built
    refine built.bind fun c built => ?_
    have shape := shape_newCluster hasInventory built
    have specified := specified_newCluster typed built
    have ntp : c.core.coreNTPAddress ≠ none := by
      obtain ⟨_, _, _, _, -, -, -, -, rfl⟩ := (newCluster_eq_ok env).mp built
      exact Option.some_ne_none _
    exact .bind (succeeds_generateClusterSpec shape specified sabakanDir) fun _ _ =>
      .bind (succeeds_generateConfFiles shape specified ntp chronyTag) fun _ _ => succeeds_pure _

/-! ### Documents -/

theorem toInt_nonneg (n : UInt64) : 0 ≤ toInt n ↔ n.toNat < 2 ^ 63 := by
  have bound := n.toNat_lt
  unfold toInt wrap64
  omega

/-- An accepted menu with a network, an inventory and nodes of the three types can be built iff
its network has an `ntp`, no rack of its inventory is null, and the size of its node ranges is
not negative as an `int` if there are racks at all. -/
theorem accepted_menu_builds_iff {documents : List Document} {menu : Menu IP Mask}
    (accepted : parse env documents = .ok menu)
    (hasNetwork : ∃ spec, Document.network spec ∈ documents)
    (hasInventory : ∃ spec, Document.inventory spec ∈ documents)
    (hasNodes : ∀ type ∈ [nodeTypeBoot, nodeTypeCS, nodeTypeSS],
      ∃ node, Document.node node ∈ documents ∧ node.type = type) (sabakanDir chronyTag : String) :
    ∃ spec inventory ic, lastNetwork documents = some spec ∧
      lastInventory documents = some inventory ∧ env.readIPAM spec.ipamConfig = .ok ic ∧
      (Succeeds (build env menu sabakanDir chronyTag) ↔ spec.ntp ≠ "" ∧ none ∉ inventory.rack ∧
        (inventory.rack ≠ [] → ic.nodeRangeSize.toNat < 2 ^ 63)) := by
  have holds := holds_parse accepted
  obtain ⟨spec, lastSpec⟩ := hasNetwork.elim fun _ member =>
    exists_last Document.network? member rfl
  obtain ⟨inventory, lastInv⟩ := hasInventory.elim fun _ member =>
    exists_last Document.inventory? member rfl
  -- The last documents are the ones in the menu.
  have hasInv : menu.inventory = some inventory := holds.inventory.symm.trans lastInv
  obtain ⟨network, hasNet, read⟩ := holds.exists_network lastSpec
  have typed : menu.Typed := by
    intro type member
    obtain ⟨node, member, same⟩ := hasNodes type member
    refine ⟨node, ?_, same⟩
    rw [← holds.nodes]
    exact List.mem_filterMap.mpr ⟨_, member, rfl⟩
  obtain ⟨ic, ipam, size⟩ := read.ipam
  refine ⟨spec, inventory, ic, lastSpec, lastInv, ipam, ?_⟩
  rw [succeeds_build hasInv typed, succeeds_newCluster hasNet hasInv, size, toInt_nonneg]
  refine and_congr (not_congr read.ntp) ?_
  constructor
  · intro all
    refine ⟨fun member => (all none member).2 rfl, fun racks => ?_⟩
    obtain ⟨rackMenu, member⟩ := List.exists_mem_of_ne_nil _ racks
    exact (all rackMenu member).1
  · rintro ⟨present, small⟩ rackMenu member
    refine ⟨small (List.ne_nil_of_mem member), ?_⟩
    rintro rfl
    exact present member

end

/-- A menu with an `ntp` and two racks is built. -/
theorem accepted_menu_builds_twoRacks : ∃ menu,
    parse (ipv4Env twoRacksIPAM) (twoRacks "10.0.5.0/24") = .ok menu ∧
      Succeeds (build (ipv4Env twoRacksIPAM) menu "/tmp/sabakan" "1.0") := by
  obtain ⟨menu, accepted⟩ : Succeeds (parse (ipv4Env twoRacksIPAM) (twoRacks "10.0.5.0/24")) :=
    succeeds_of_isOk (by decide +kernel)
  obtain ⟨spec, inventory, ic, lastSpec, lastInv, ipam, builds⟩ :=
    accepted_menu_builds_iff accepted ⟨_, List.mem_cons_self ..⟩ ⟨_, by simp [twoRacks]; rfl⟩
      (by simp [twoRacks, nodeTypeBoot, nodeTypeCS, nodeTypeSS]) "/tmp/sabakan" "1.0"
  cases lastSpec
  cases lastInv
  cases ipam
  exact ⟨menu, accepted, builds.mpr (by decide)⟩

/-- The same menu without its `ntp` is accepted, and `NewCluster` dereferences a nil. -/
theorem accepted_menu_without_ntp_panics : ∃ menu,
    parse (ipv4Env twoRacksIPAM) (twoRacks "") = .ok menu ∧
      newCluster (ipv4Env twoRacksIPAM) menu = .error .nilPointer := by
  obtain ⟨menu, accepted⟩ : Succeeds (parse (ipv4Env twoRacksIPAM) (twoRacks "")) :=
    succeeds_of_isOk (by decide +kernel)
  have holds := holds_parse accepted
  obtain ⟨network, hasNetwork, read⟩ := holds.exists_network rfl
  exact ⟨menu, accepted, newCluster_without_ntp hasNetwork holds.inventory.symm (read.ntp.mpr rfl)⟩

end Neco.PlacematMenu
