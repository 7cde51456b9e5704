import Neco.Menu.Conf
import Neco.Lib.Fallible
import Mathlib.Data.List.Induction
import Mathlib.Logic.Function.Iterate

/-!
# The shape of a cluster

The loops of `NewCluster` hand out addresses by a running counter. Here the counter is solved:
every address is told by the place of its spine and its ToR. What the generators need of a
cluster is collected in `Cluster.Shape`.
-/

namespace Neco.PlacematMenu

open Fallible

theorem deref_eq_ok {α : Type} {p : Option α} {a : α} : deref p = .ok a ↔ p = some a := by
  cases p <;> simp [deref]

theorem index_eq_ok {α : Type} {l : List α} {i : Nat} {a : α} :
    index l i = .ok a ↔ l[i]? = some a := by
  unfold index
  cases l[i]? <;> simp

/-- A loop numbers the elements of a list by their places. -/
theorem getElem?_zipIdx_eq_some {α : Type} {l : List α} {i j : Nat} {x : α}
    (found : l.zipIdx[i]? = some (x, j)) : j = i ∧ l[i]? = some x := by
  simp only [List.getElem?_zipIdx, Option.map_eq_some_iff, Nat.zero_add] at found
  obtain ⟨y, there, same⟩ := found
  cases same
  exact ⟨rfl, there⟩

section

variable {IP Mask : Type} (env : Env IP Mask)

/-! ### The counter -/

/-- The address `k` places behind an address. -/
def nthAddress (base : IPNet IP Mask) (k : Nat) : IPNet IP Mask :=
  (addToIPNet env · 1)^[k] base

theorem addToIPNet_nthAddress (base : IPNet IP Mask) (k : Nat) :
    addToIPNet env (nthAddress env base k) 1 = nthAddress env base (k + 1) :=
  (Function.iterate_succ_apply' (addToIPNet env · 1) k base).symm

theorem nthAddress_nthAddress (base : IPNet IP Mask) (j k : Nat) :
    nthAddress env (nthAddress env base j) k = nthAddress env base (j + k) := by
  unfold nthAddress
  rw [Nat.add_comm, Function.iterate_add_apply]

def ToR.connect (tor : ToR IP Mask) (addresses : List (IPNet IP Mask)) : ToR IP Mask :=
  { tor with spineAddresses := tor.spineAddresses ++ addresses }

@[simp] theorem ToR.connect_nil (tor : ToR IP Mask) : tor.connect [] = tor := by
  simp [connect]

@[simp] theorem ToR.connect_connect (tor : ToR IP Mask) (first second : List (IPNet IP Mask)) :
    (tor.connect first).connect second = tor.connect (first ++ second) := by
  simp [connect]

/-- The loop over the ToRs uses up two addresses for each of them. -/
theorem foldl_connectToR (base : IPNet IP Mask) (tors : List (ToR IP Mask)) :
    tors.foldl (connectToR env) ⟨base, [], []⟩ =
      { spineTorBaseAddr := nthAddress env base (2 * tors.length)
        torAddresses := (List.range tors.length).map fun k => nthAddress env base (2 * k)
        tors := tors.mapIdx fun k tor => tor.connect [nthAddress env base (2 * k + 1)] } := by
  induction tors using List.reverseRecOn with
  | nil => rfl
  | append_singleton tors tor ih =>
    -- the last ToR takes the two addresses that the earlier ones have left
    rw [List.foldl_append, ih]
    simp [connectToR, ToR.connect, addToIPNet_nthAddress, List.range_succ, List.mapIdx_append,
      Nat.mul_add]

/-- The spine with number `i` in front of `n` ToRs. -/
def spineAt (network : Network IP Mask) (n i : Nat) : Spine IP Mask where
  name := "spine" ++ toString (i + 1)
  shortName := "s" ++ toString (i + 1)
  coreAddress := nthAddress env network.coreSpine (2 * i + 1)
  torAddresses := (List.range n).map fun k =>
    nthAddress env ⟨network.spineTor, env.cidrMask 31 32⟩ (2 * n * i + 2 * k)
  bmcAddress := addToIPNet env network.bmc (i + 2)

/-- The addresses of the ToR with number `k` among `n`. -/
def torSides (network : Network IP Mask) (s n k : Nat) : List (IPNet IP Mask) :=
  (List.range s).map fun i =>
    nthAddress env ⟨network.spineTor, env.cidrMask 31 32⟩ (2 * n * i + 2 * k + 1)

@[simp] theorem torSides_zero (network : Network IP Mask) (n k : Nat) :
    torSides env network 0 n k = [] := rfl

theorem torSides_succ (network : Network IP Mask) (s n k : Nat) :
    torSides env network (s + 1) n k = torSides env network s n k ++
      [nthAddress env ⟨network.spineTor, env.cidrMask 31 32⟩ (2 * n * s + 2 * k + 1)] := by
  simp [torSides, List.range_succ]

/-- The loop over the spines, with the ToRs as they are after `s` rounds. -/
theorem foldl_connectSpine (network : Network IP Mask) (tors : List (ToR IP Mask)) (s : Nat) :
    (List.range s).foldl (connectSpine env network)
        ⟨network.coreSpine, ⟨network.spineTor, env.cidrMask 31 32⟩, [], [], tors⟩ =
      { coreSpineBaseAddr := nthAddress env network.coreSpine (2 * s)
        spineTorBaseAddr :=
          nthAddress env ⟨network.spineTor, env.cidrMask 31 32⟩ (2 * tors.length * s)
        spineAddresses := (List.range s).map fun i => nthAddress env network.coreSpine (2 * i)
        spines := (List.range s).map (spineAt env network tors.length)
        tors := tors.mapIdx fun k tor => tor.connect (torSides env network s tors.length k) } := by
  induction s with
  | zero =>
    have kept : (tors.mapIdx fun _ tor => tor) = tors := by
      rw [List.mapIdx_eq_iff]
      simp
    simp [nthAddress, kept]
  | succ s ih =>
    -- one more round appends one address to each ToR and leaves their number as it is
    rw [List.range_succ, List.foldl_append, ih]
    simp [connectSpine, foldl_connectToR, addToIPNet_nthAddress, nthAddress_nthAddress, spineAt,
      torSides_succ, Nat.mul_add, Nat.add_assoc, Function.comp_def]

/-! ### Racks -/

theorem shareToRs_mapIdx (racks : List (Rack IP Mask)) (f : Nat → ToR IP Mask → ToR IP Mask) :
    shareToRs racks ((racks.flatMap fun rack => [rack.tor1, rack.tor2]).mapIdx f) =
      racks.mapIdx fun r rack =>
        { rack with tor1 := f (2 * r) rack.tor1, tor2 := f (2 * r + 1) rack.tor2 } := by
  induction racks generalizing f with
  | nil => rfl
  | cons rack racks ih =>
    -- the ToRs of the rack behind have moved by two places
    have shift (r : Nat) : 2 * (r + 1) = 2 * r + 1 + 1 := rfl
    simp only [List.flatMap_cons, List.cons_append, List.nil_append, List.mapIdx_cons, shareToRs,
      ih, shift, Nat.mul_zero, Nat.zero_add]

theorem newRack_eq_ok {network : Network IP Mask} {specs : String → Option NodeSpec} {spine : Int}
    {rackMenu : Option RackMenu} {r : Nat} {rack : Rack IP Mask}
    (built : newRack env network specs spine rackMenu r = .ok rack) :
    ∃ menu node0 node1 node2, rackMenu = some menu ∧
      buildRack env network specs spine menu r node0 node1 node2 = rack := by
  simp only [newRack, bind_eq_ok, deref_eq_ok, pure_eq_ok] at built
  obtain ⟨node0, -, node1, -, node2, -, menu, present, built⟩ := built
  exact ⟨menu, node0, node1, node2, present, built⟩

theorem newCluster_eq_ok {menu : Menu IP Mask} {c : Cluster IP Mask} :
    newCluster env menu = .ok c ↔ ∃ network inventory ntp racks, menu.network = some network ∧
      menu.inventory = some inventory ∧ network.ntp = some ntp ∧
      (inventory.rack.zipIdx.mapM fun (rackMenu, rackIdx) => newRack env network
        (nodeSpecs menu.nodes) inventory.spine rackMenu rackIdx) = .ok racks ∧
      buildCluster env menu network inventory ntp racks = c := by
  simp only [newCluster, bind_eq_ok, deref_eq_ok, pure_eq_ok]
  constructor
  · rintro ⟨network, hasNetwork, inventory, hasInventory, ntp, hasNTP, racks, built, same⟩
    exact ⟨network, inventory, ntp, racks, hasNetwork, hasInventory, hasNTP, built, same⟩
  · rintro ⟨network, inventory, ntp, racks, hasNetwork, hasInventory, hasNTP, built, same⟩
    exact ⟨network, hasNetwork, inventory, hasInventory, ntp, hasNTP, racks, built, same⟩

/-! ### The shape -/

/-- The rack with number `r`, and the addresses of its ToRs towards `s` spines, when there are `n`
racks. -/
structure Rack.Shape (rack : Rack IP Mask) (network : Network IP Mask) (s n r : Nat) : Prop where
  name : rack.name = "rack" ++ toString r
  shortName : rack.shortName = "r" ++ toString r
  tor1 : rack.tor1.spineAddresses = torSides env network s (2 * n) (2 * r)
  tor2 : rack.tor2.spineAddresses = torSides env network s (2 * n) (2 * r + 1)

/-- A cluster with `s` spines and `n` racks. -/
structure Cluster.Shape (c : Cluster IP Mask) (s n : Nat) : Prop where
  spines : c.spines = (List.range s).map (spineAt env c.network (2 * n))
  core : c.core.spineAddresses.length = s
  racks_length : c.racks.length = n
  rack : ∀ r (rack : Rack IP Mask), c.racks[r]? = some rack → rack.Shape env c.network s n r

variable {env}

theorem length_tors (racks : List (Rack IP Mask)) :
    (racks.flatMap fun rack => [rack.tor1, rack.tor2]).length = 2 * racks.length := by
  simp [List.length_flatMap, Nat.mul_comm]

theorem buildCluster_racks (menu : Menu IP Mask) (network : Network IP Mask)
    (inventory : InventorySpec) (ntp : IPNet IP Mask) (racks : List (Rack IP Mask)) :
    (buildCluster env menu network inventory ntp racks).racks = racks.mapIdx fun r rack =>
      let sides := torSides env network inventory.spine.toNat (2 * racks.length)
      { rack with
        tor1 := rack.tor1.connect (sides (2 * r))
        tor2 := rack.tor2.connect (sides (2 * r + 1)) } := by
  simp only [buildCluster, connectSpines, foldl_connectSpine, length_tors, shareToRs_mapIdx]

/-- The clusters that `newCluster` builds have the shape that the menu asks for. -/
theorem shape_newCluster {menu : Menu IP Mask} {inventory : InventorySpec} {c : Cluster IP Mask}
    (hasInventory : menu.inventory = some inventory) (built : newCluster env menu = .ok c) :
    c.Shape env inventory.spine.toNat inventory.rack.length := by
  obtain ⟨network, inventory', ntp, racks, -, same, -, looped, rfl⟩ :=
    (newCluster_eq_ok env).mp built
  cases hasInventory.symm.trans same
  have length : racks.length = inventory.rack.length := by
    simpa using length_mapM looped
  rw [← length]
  constructor
  · simp only [buildCluster, connectSpines, foldl_connectSpine, length_tors]
  · simp [buildCluster, connectSpines, foldl_connectSpine]
  · simp [buildCluster_racks]
  · -- a rack is numbered by its place, and starts with ToRs without addresses
    intro r rack found
    rw [buildCluster_racks, List.getElem?_mapIdx, Option.map_eq_some_iff] at found
    obtain ⟨first, found, rfl⟩ := found
    obtain ⟨⟨rackMenu, r'⟩, there, built⟩ := getElem?_mapM looped found
    obtain ⟨rfl, -⟩ := getElem?_zipIdx_eq_some there
    obtain ⟨_, _, _, _, -, rfl⟩ := newRack_eq_ok env built
    exact ⟨rfl, rfl, rfl, rfl⟩

/-! ### What `newCluster` needs -/

theorem succeeds_deref {α : Type} {p : Option α} : Succeeds (deref p) ↔ p ≠ none := by
  cases p <;> simp [deref]

theorem succeeds_index {α : Type} {l : List α} {i : Nat} : Succeeds (index l i) ↔ i < l.length := by
  unfold index
  by_cases inside : i < l.length <;> simp [inside]

theorem succeeds_makeNodeNetwork {base : IP} {size mask : Int} {i : Nat} :
    Succeeds (makeNodeNetwork env base size mask i) ↔ 0 ≤ size := by
  rw [makeNodeNetwork, succeeds_bind_iff fun a => iff_of_true (succeeds_pure _) trivial, and_true,
    shiftOne]
  split
  next negative => simp [Int.not_le.mpr negative]
  next nonneg =>
    refine iff_of_true ?_ (Int.not_lt.mp nonneg)
    split <;> exact succeeds_ok _

theorem succeeds_newRack {network : Network IP Mask} {specs : String → Option NodeSpec}
    {spine : Int} {rackMenu : Option RackMenu} {r : Nat} :
    Succeeds (newRack env network specs spine rackMenu r) ↔
      0 ≤ network.nodeRangeSize ∧ rackMenu ≠ none := by
  -- what follows the three networks does not depend on them
  have rest (node0 node1 node2 : IPNet IP Mask) : Succeeds (do
      let rackMenu ← deref rackMenu
      return buildRack env network specs spine rackMenu r node0 node1 node2) ↔ rackMenu ≠ none := by
    rw [succeeds_bind_iff fun a => iff_of_true (succeeds_pure _) trivial, and_true, succeeds_deref]
  unfold newRack
  rw [succeeds_bind_iff fun node0 => succeeds_bind_iff fun node1 => succeeds_bind_iff fun node2 =>
    rest node0 node1 node2]
  simp only [succeeds_makeNodeNetwork]
  tauto

/-- The menus that `newCluster` takes. -/
theorem succeeds_newCluster {menu : Menu IP Mask} {network : Network IP Mask}
    {inventory : InventorySpec} (hasNetwork : menu.network = some network)
    (hasInventory : menu.inventory = some inventory) :
    Succeeds (newCluster env menu) ↔ network.ntp ≠ none ∧
      ∀ rackMenu ∈ inventory.rack, 0 ≤ network.nodeRangeSize ∧ rackMenu ≠ none := by
  have racks : Succeeds (inventory.rack.zipIdx.mapM fun (rackMenu, rackIdx) => newRack env network
      (nodeSpecs menu.nodes) inventory.spine rackMenu rackIdx) ↔
      ∀ rackMenu ∈ inventory.rack, 0 ≤ network.nodeRangeSize ∧ rackMenu ≠ none := by
    simp only [succeeds_mapM, succeeds_newRack, Prod.forall, List.mk_mem_zipIdx_iff_getElem?]
    constructor
    · intro all rackMenu member
      obtain ⟨r, found⟩ := List.mem_iff_getElem?.mp member
      exact all rackMenu r found
    · intro all rackMenu r found
      exact all rackMenu (List.mem_of_getElem? found)
  constructor
  · -- a cluster was built, so everything on the way was there
    rintro ⟨c, built⟩
    obtain ⟨_, _, ntp, made, same, same', hasNTP, looped, -⟩ := (newCluster_eq_ok env).mp built
    cases hasNetwork.symm.trans same
    cases hasInventory.symm.trans same'
    exact ⟨by simp [hasNTP], racks.mp ⟨made, looped⟩⟩
  · rintro ⟨present, all⟩
    obtain ⟨ntp, hasNTP⟩ := Option.ne_none_iff_exists'.mp present
    obtain ⟨made, looped⟩ := racks.mpr all
    exact ⟨_, (newCluster_eq_ok env).mpr
      ⟨network, inventory, ntp, made, hasNetwork, hasInventory, hasNTP, looped, rfl⟩⟩

/-! ### What the generators need -/

/-- The servers have a specification. -/
structure Rack.Specified (rack : Rack IP Mask) : Prop where
  boot : rack.bootNode.spec ≠ none
  cs : ∀ cs ∈ rack.csList, cs.spec ≠ none
  ss : ∀ ss ∈ rack.ssList, ss.spec ≠ none

def Cluster.Specified (c : Cluster IP Mask) : Prop := ∀ rack ∈ c.racks, rack.Specified

/-- The menu has a node of each type. -/
def Menu.Typed (menu : Menu IP Mask) : Prop :=
  ∀ type ∈ [nodeTypeBoot, nodeTypeCS, nodeTypeSS], ∃ node ∈ menu.nodes, node.type = type

theorem specified_newCluster {menu : Menu IP Mask} {c : Cluster IP Mask} (typed : menu.Typed)
    (built : newCluster env menu = .ok c) : c.Specified := by
  obtain ⟨network, inventory, ntp, racks, -, -, -, looped, rfl⟩ := (newCluster_eq_ok env).mp built
  have present (type : String) (member : type ∈ [nodeTypeBoot, nodeTypeCS, nodeTypeSS]) :
      nodeSpecs menu.nodes type ≠ none := Table.assign_ne_none.mpr (typed type member)
  intro rack member
  obtain ⟨r, found⟩ := List.mem_iff_getElem?.mp member
  rw [buildCluster_racks, List.getElem?_mapIdx, Option.map_eq_some_iff] at found
  obtain ⟨first, found, rfl⟩ := found
  obtain ⟨⟨rackMenu, r'⟩, -, built⟩ := getElem?_mapM looped found
  obtain ⟨_, _, _, _, -, rfl⟩ := newRack_eq_ok env built
  -- the wiring has changed the ToRs only
  constructor
  · exact present nodeTypeBoot (by simp)
  · intro cs member
    obtain ⟨_, -, rfl⟩ := List.mem_map.mp member
    exact present nodeTypeCS (by simp)
  · intro ss member
    obtain ⟨_, -, rfl⟩ := List.mem_map.mp member
    exact present nodeTypeSS (by simp)

theorem succeeds_appendNodes {c : Cluster IP Mask} (specified : c.Specified) (sabakanDir : String) :
    Succeeds (c.appendNodes sabakanDir) := by
  refine .bind (succeeds_mapM.mpr fun rack member => ?_) fun _ _ => succeeds_pure _
  have worker (node : Node IP Mask) (present : node.spec ≠ none) :
      Succeeds (createWorkerNode rack node) :=
    .bind (succeeds_deref.mpr present) fun _ _ => succeeds_pure _
  have specified := specified rack member
  refine .bind (.bind (succeeds_deref.mpr specified.boot) fun _ _ => succeeds_pure _) fun _ _ => ?_
  refine .bind (succeeds_mapM.mpr fun cs there => worker cs (specified.cs cs there)) fun _ _ => ?_
  exact .bind (succeeds_mapM.mpr fun ss there => worker ss (specified.ss ss there)) fun _ _ =>
    succeeds_pure _

theorem Cluster.Shape.spines_length {c : Cluster IP Mask} {s n : Nat} (shape : c.Shape env s n) :
    c.spines.length = s := by
  simp [shape.spines]

theorem Cluster.Shape.spine {c : Cluster IP Mask} {s n i : Nat} {spine : Spine IP Mask}
    (shape : c.Shape env s n) (there : c.spines[i]? = some spine) :
    i < s ∧ spine = spineAt env c.network (2 * n) i := by
  rw [shape.spines, List.getElem?_map, Option.map_eq_some_iff] at there
  obtain ⟨k, found, rfl⟩ := there
  obtain ⟨lower, rfl⟩ := List.getElem?_eq_some_iff.mp found
  rw [List.length_range] at lower
  exact ⟨lower, by rw [List.getElem_range]⟩

theorem Cluster.Shape.rack_lt {c : Cluster IP Mask} {s n r : Nat} {rack : Rack IP Mask}
    (shape : c.Shape env s n) (there : c.racks[r]? = some rack) : r < n :=
  shape.racks_length ▸ (List.getElem?_eq_some_iff.mp there).1

/-- A spine has the addresses of the ToRs of every rack. -/
theorem Cluster.Shape.torAddresses {c : Cluster IP Mask} {s n r : Nat} (shape : c.Shape env s n)
    {spine : Spine IP Mask} (member : spine ∈ c.spines) (inside : r < n) :
    Succeeds (spine.tor1Address r) ∧ Succeeds (spine.tor2Address r) := by
  rw [shape.spines, List.mem_map] at member
  obtain ⟨i, -, rfl⟩ := member
  have length : (spineAt env c.network (2 * n) i).torAddresses.length = 2 * n := by
    simp [spineAt]
  constructor
  · exact succeeds_index.mpr (by omega)
  · exact succeeds_index.mpr (by omega)

theorem length_torSides (network : Network IP Mask) (s n k : Nat) :
    (torSides env network s n k).length = s := by
  simp [torSides]

theorem succeeds_appendNetworkNamespaces {c : Cluster IP Mask} {s n : Nat}
    (shape : c.Shape env s n) : Succeeds (c.appendNetworkNamespaces env) := by
  refine .bind (succeeds_mapM.mpr ?_) fun _ _ =>
    .bind (succeeds_mapM.mpr ?_) fun _ _ => succeeds_pure _
  · -- a spine looks up two addresses for each rack
    rintro ⟨spine, i⟩ there
    have member := List.mem_of_getElem? (List.mk_mem_zipIdx_iff_getElem?.mp there)
    refine .bind (succeeds_mapM.mpr ?_) fun _ _ => succeeds_pure _
    rintro ⟨rack, r⟩ there
    have inside : r < n := shape.rack_lt (List.mk_mem_zipIdx_iff_getElem?.mp there)
    obtain ⟨tor1, tor2⟩ := shape.torAddresses member inside
    exact .bind tor1 fun _ _ => .bind tor2 fun _ _ => succeeds_pure _
  · -- a ToR looks up one address for each spine
    intro rack member
    obtain ⟨r, there⟩ := List.mem_iff_getElem?.mp member
    have tor (tor : ToR IP Mask) (t : Nat) (long : tor.spineAddresses.length = s) :
        Succeeds (c.createToRNetNs env rack tor t) := by
      refine .bind (succeeds_mapM.mpr ?_) fun _ _ => succeeds_pure _
      rintro ⟨spine, i⟩ there
      obtain ⟨inside, -⟩ := shape.spine (List.mk_mem_zipIdx_iff_getElem?.mp there)
      exact .bind (succeeds_index.mpr (long ▸ inside)) fun _ _ => succeeds_pure _
    have shaped := shape.rack r rack there
    refine .bind (tor rack.tor1 1 ?_) fun _ _ =>
      .bind (tor rack.tor2 2 ?_) fun _ _ => succeeds_pure _
    · rw [shaped.tor1, length_torSides]
    · rw [shaped.tor2, length_torSides]

theorem succeeds_generateClusterSpec {c : Cluster IP Mask} {s n : Nat} (shape : c.Shape env s n)
    (specified : c.Specified) (sabakanDir : String) :
    Succeeds (c.generateClusterSpec env sabakanDir) :=
  .bind (succeeds_appendNodes specified sabakanDir) fun _ _ =>
    .bind (succeeds_appendNetworkNamespaces shape) fun _ _ => succeeds_pure _

theorem succeeds_generateBirdRackConf {c : Cluster IP Mask} {s n : Nat} (shape : c.Shape env s n) :
    Succeeds (c.generateBirdRackConf env) := by
  refine .bind (succeeds_mapM.mpr ?_) fun _ _ => succeeds_pure _
  rintro ⟨rack, r⟩ there
  have inside : r < n := shape.rack_lt (List.mk_mem_zipIdx_iff_getElem?.mp there)
  refine .bind (.bind (succeeds_mapM.mpr fun spine member => ?_) fun _ _ => succeeds_pure _)
    fun _ _ => succeeds_pure _
  obtain ⟨tor1, tor2⟩ := shape.torAddresses member inside
  exact .bind tor1 fun _ _ => .bind tor2 fun _ _ => succeeds_pure _

theorem birdSpineArgs_eq_ok {c : Cluster IP Mask} {i : Nat} {args : BirdSpineArgs}
    (built : c.birdSpineArgs env i = .ok args) :
    args.spineIdx = i ∧ args.racks = c.racks.map (newRackArgs env) := by
  simp only [Cluster.birdSpineArgs, bind_eq_ok, pure_eq_ok] at built
  obtain ⟨_, -, rfl⟩ := built
  exact ⟨rfl, rfl⟩

/-- The template of the spines finds the addresses it looks up. -/
theorem succeeds_generateBirdSpineConf {c : Cluster IP Mask} {s n : Nat} (shape : c.Shape env s n) :
    Succeeds (c.generateBirdSpineConf env) := by
  refine succeeds_mapM.mpr fun i there => ?_
  rw [shape.spines_length, List.mem_range] at there
  have core : i < c.core.spineAddresses.length := by
    rwa [shape.core]
  refine .bind (.bind (succeeds_index.mpr core) fun _ _ => succeeds_pure _) fun args built => ?_
  obtain ⟨index, racks⟩ := birdSpineArgs_eq_ok built
  refine .bind (succeeds_mapM.mpr fun rackArgs member => ?_) fun _ _ => succeeds_pure _
  rw [racks] at member
  obtain ⟨rack, there', rfl⟩ := List.mem_map.mp member
  obtain ⟨r, found⟩ := List.mem_iff_getElem?.mp there'
  have shaped := shape.rack r rack found
  rw [index]
  refine .bind (succeeds_index.mpr ?_) fun _ _ => .bind (succeeds_index.mpr ?_) fun _ _ =>
    succeeds_pure _
  · simpa [newRackArgs, torArgs, shaped.tor1, length_torSides] using there
  · simpa [newRackArgs, torArgs, shaped.tor2, length_torSides] using there

theorem succeeds_generateSeedYaml {c : Cluster IP Mask} (specified : c.Specified) :
    Succeeds (c.generateSeedYaml env) := by
  have seed {spec : Option NodeSpec} (name output : String) (args : RackArgs)
      (present : spec ≠ none) : Succeeds (seedFile spec name output args) := by
    refine .bind (succeeds_deref.mpr present) fun spec _ => ?_
    split
    · exact succeeds_pure _
    · exact succeeds_pure _
  refine .bind (succeeds_mapM.mpr ?_) fun _ _ => succeeds_pure _
  rintro ⟨rack, r⟩ there
  have specified :=
    specified rack (List.mem_of_getElem? (List.mk_mem_zipIdx_iff_getElem?.mp there))
  refine .bind (seed _ _ _ specified.boot) fun _ _ => ?_
  refine .bind (succeeds_mapM.mpr fun cs there => seed _ _ _ (specified.cs cs there)) fun _ _ => ?_
  exact .bind (succeeds_mapM.mpr fun ss there => seed _ _ _ (specified.ss ss there)) fun _ _ =>
    succeeds_pure _

theorem succeeds_generateConfFiles {c : Cluster IP Mask} {s n : Nat} (shape : c.Shape env s n)
    (specified : c.Specified) (ntp : c.core.coreNTPAddress ≠ none) (chronyTag : String) :
    Succeeds (c.generateConfFiles env chronyTag) := by
  refine .bind (succeeds_generateBirdRackConf shape) fun _ _ => ?_
  refine .bind (succeeds_generateBirdSpineConf shape) fun _ _ => ?_
  refine .bind (succeeds_generateSeedYaml specified) fun _ _ => ?_
  refine .bind (.bind (succeeds_deref.mpr ntp) fun _ _ => succeeds_pure _) fun _ _ => ?_
  exact succeeds_pure _

end

end Neco.PlacematMenu
