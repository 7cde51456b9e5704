import Neco.Properties.ClusterShape
import Neco.Properties.MenuParse
import Mathlib.Data.List.ProdSigma

/-!
# Links between spines and ToRs

The two ends of a link are addressed by a running counter in `NewCluster`, and both addresses are
read back in four places: the namespace of the spine, the namespace of the ToR, the bird
configuration of the spine and that of the rack. All of them agree.

Strategy: the names of the links are told apart first. Then, for one link, the interfaces on it
are collected from the namespaces one by one; only the ones of its spine and of its ToR have any.
-/

namespace Neco.PlacematMenu

open Fallible

/-! ### Names of links -/

/-- The network between spine `i` and ToR `t` of rack `r`. -/
def linkName (i r t : Nat) : String :=
  "s" ++ toString (i + 1) ++ "-to-" ++ ("r" ++ toString r) ++ "-" ++ toString t

/-- The names of the generators, whose last part is written out for the two ToRs. -/
theorem linkName_eq (i r : Nat) {t : Nat} {last : String} (written : "-" ++ toString t = last) :
    "s" ++ toString (i + 1) ++ "-to-" ++ ("r" ++ toString r) ++ last = linkName i r t := by
  subst written
  unfold linkName
  exact String.append_assoc.symm

theorem linkName_one (i r : Nat) :
    "s" ++ toString (i + 1) ++ "-to-" ++ ("r" ++ toString r) ++ "-1" = linkName i r 1 :=
  linkName_eq i r rfl

theorem linkName_two (i r : Nat) :
    "s" ++ toString (i + 1) ++ "-to-" ++ ("r" ++ toString r) ++ "-2" = linkName i r 2 :=
  linkName_eq i r rfl

theorem splitOn_linkName (i r t : Nat) : (linkName i r t).toList.splitOn '-' =
    ['s' :: Nat.toDigits 10 (i + 1), ['t', 'o'], 'r' :: Nat.toDigits 10 r, Nat.toDigits 10 t] := by
  have field (cs : List Char) (absent : '-' ∉ cs) : cs.splitOn '-' = [cs] :=
    List.splitOn_eq_singleton absent
  have digits (n : Nat) : '-' ∉ Nat.toDigits 10 n := IPv4.not_mem_toDigits rfl n
  have shape : (linkName i r t).toList = ('s' :: Nat.toDigits 10 (i + 1)) ++ '-' ::
      (['t', 'o'] ++ '-' :: (('r' :: Nat.toDigits 10 r) ++ '-' :: Nat.toDigits 10 t)) := by
    simp [linkName]
  rw [shape]
  simp only [List.splitOn_append_cons_self]
  rw [field _ (by simp [digits]), field _ (by simp), field _ (by simp [digits]), field _ (digits t)]
  rfl

theorem linkName_inj {i r t i' r' t' : Nat} :
    linkName i r t = linkName i' r' t' ↔ i = i' ∧ r = r' ∧ t = t' := by
  constructor
  · intro same
    have fields := congrArg (fun name => name.toList.splitOn '-') same
    simp only [splitOn_linkName, List.cons.injEq, true_and, and_true] at fields
    obtain ⟨spine, rack, tor⟩ := fields
    exact ⟨Nat.succ.inj (Numeral.toDigits_injective spine), Numeral.toDigits_injective rack,
      Numeral.toDigits_injective tor⟩
  · rintro ⟨rfl, rfl, rfl⟩
    rfl

/-- The names of all other networks start with another letter. -/
theorem ne_linkName {name : String} (other : name.toList.head? ≠ some 's') (i r t : Nat) :
    name ≠ linkName i r t := by
  rintro rfl
  simp [linkName] at other

/-! ### Attachments -/

/-- The addresses of the interfaces on a network. -/
def addressesOn (network : String) (interfaces : List Placemat.NetNSInterfaceSpec) :
    List (List String) :=
  (interfaces.filter (·.network = network)).map (·.addresses)

theorem addressesOn_append (network : String) (first second : List Placemat.NetNSInterfaceSpec) :
    addressesOn network (first ++ second) =
      addressesOn network first ++ addressesOn network second := by
  simp [addressesOn]

theorem addressesOn_eq_flatMap (network : String) (l : List Placemat.NetNSInterfaceSpec) :
    addressesOn network l =
      l.flatMap fun x => if x.network = network then [x.addresses] else [] := by
  induction l with
  | nil => rfl
  | cons x rest ih =>
    rw [List.flatMap_cons, ← ih, addressesOn, addressesOn, List.filter_cons]
    by_cases here : x.network = network <;> simp [here]

theorem addressesOn_flatten (network : String) (l : List (List Placemat.NetNSInterfaceSpec)) :
    addressesOn network l.flatten = l.flatMap (addressesOn network) := by
  induction l with
  | nil => rfl
  | cons first rest ih => rw [List.flatten_cons, addressesOn_append, ih, List.flatMap_cons]

theorem addressesOn_eq_nil {network : String} {interfaces : List Placemat.NetNSInterfaceSpec}
    (absent : ∀ x ∈ interfaces, x.network ≠ network) : addressesOn network interfaces = [] := by
  rw [addressesOn, List.filter_eq_nil_iff.mpr (by simpa using absent), List.map_nil]

/-- A namespace on a network: its name, for each interface it has there. -/
def attached (network : String) (ns : Placemat.NetNSSpec) : List (String × List String) :=
  (addressesOn network ns.interfaces).map fun addresses => (ns.name, addresses)

/-- What is attached to a network: the name of a node or a namespace, and the addresses that its
interface has there. The addresses of nodes are not given in the cluster file. -/
def attachments (spec : Placemat.ClusterSpec) (network : String) : List (String × List String) :=
  spec.nodes.flatMap (fun node => (node.interfaces.filter (· = network)).map fun _ =>
    (node.name, [])) ++
  spec.netNSs.flatMap (attached network)

/-- When one place of a list contributes, the list yields what that place does. -/
theorem flatMap_eq_single {α β : Type} {l : List α} {g : α → List β} {i : Nat} {v : List β}
    (inside : i < l.length) (here : ∀ x, l[i]? = some x → g x = v)
    (others : ∀ j x, l[j]? = some x → j ≠ i → g x = []) : l.flatMap g = v := by
  -- the places before it and behind it contribute nothing
  have before : (l.take i).flatMap g = [] := by
    refine List.flatMap_eq_nil_iff.mpr fun x member => ?_
    obtain ⟨j, found⟩ := List.mem_iff_getElem?.mp member
    rw [List.getElem?_take] at found
    split at found
    next lower => exact others j x found (Nat.ne_of_lt lower)
    · cases found
  have after : (l.drop (i + 1)).flatMap g = [] := by
    refine List.flatMap_eq_nil_iff.mpr fun x member => ?_
    obtain ⟨j, found⟩ := List.mem_iff_getElem?.mp member
    rw [List.getElem?_drop] at found
    exact others _ x found (by omega)
  calc l.flatMap g = (l.take i ++ l[i] :: l.drop (i + 1)).flatMap g := by
        rw [List.getElem_cons_drop, List.take_append_drop]
    _ = g l[i] := by
        rw [List.flatMap_append, List.flatMap_cons, before, after, List.nil_append, List.append_nil]
    _ = v := here _ (List.getElem?_eq_getElem inside)

section

variable {IP Mask : Type} {env : Env IP Mask}

/-! ### Addresses of links -/

/-- The number of addresses in front of the link of spine `i` and ToR `t` of rack `r`, when there
are `n` racks. -/
def linkOffset (n i r t : Nat) : Nat := 2 * (2 * n * i + 2 * r + t - 1)

/-- The counter, by the place of the ToR among the ToRs of all racks. -/
theorem linkOffset_eq (n i r : Nat) {t : Nat} (first : 1 ≤ t) :
    2 * (2 * n) * i + 2 * (2 * r + t - 1) = linkOffset n i r t := by
  have spines : 2 * (2 * n) * i = 2 * (2 * n * i) := Nat.mul_assoc ..
  unfold linkOffset
  omega

variable (env) in
def spineSide (network : Network IP Mask) (n i r t : Nat) : IPNet IP Mask :=
  nthAddress env ⟨network.spineTor, env.cidrMask 31 32⟩ (linkOffset n i r t)

variable (env) in
def torSide (network : Network IP Mask) (n i r t : Nat) : IPNet IP Mask :=
  nthAddress env ⟨network.spineTor, env.cidrMask 31 32⟩ (linkOffset n i r t + 1)

theorem tor1Address_spineAt (network : Network IP Mask) {n r : Nat} (inside : r < n) (i : Nat) :
    (spineAt env network (2 * n) i).tor1Address r = .ok (spineSide env network n i r 1) := by
  rw [Spine.tor1Address, index_eq_ok, spineAt, List.getElem?_map,
    List.getElem?_range (by omega : r * 2 < 2 * n), Option.map_some, spineSide,
    ← linkOffset_eq n i r (by decide), Nat.mul_comm r 2]
  rfl

theorem tor2Address_spineAt (network : Network IP Mask) {n r : Nat} (inside : r < n) (i : Nat) :
    (spineAt env network (2 * n) i).tor2Address r = .ok (spineSide env network n i r 2) := by
  rw [Spine.tor2Address, index_eq_ok, spineAt, List.getElem?_map,
    List.getElem?_range (by omega : r * 2 + 1 < 2 * n), Option.map_some, spineSide,
    ← linkOffset_eq n i r (by decide), Nat.mul_comm r 2]
  rfl

theorem getElem?_torSides (network : Network IP Mask) (n r : Nat) {s i t : Nat} (inside : i < s)
    (first : 1 ≤ t) : (torSides env network s (2 * n) (2 * r + t - 1))[i]? =
      some (torSide env network n i r t) := by
  rw [torSides, List.getElem?_map, List.getElem?_range inside, Option.map_some, torSide,
    ← linkOffset_eq n i r first]

/-! ### Namespaces -/

theorem spineToRack_spineAt {network : Network IP Mask} {n r : Nat} {rack : Rack IP Mask}
    (named : rack.shortName = "r" ++ toString r) (inside : r < n) (i : Nat) :
    spineToRack env (spineAt env network (2 * n) i) rack r =
      .ok [⟨linkName i r 1, [env.netString (spineSide env network n i r 1)]⟩,
        ⟨linkName i r 2, [env.netString (spineSide env network n i r 2)]⟩] := by
  rw [spineToRack, tor1Address_spineAt network inside, tor2Address_spineAt network inside, named,
    ← linkName_one, ← linkName_two]
  rfl

theorem torToSpine_spineAt {network : Network IP Mask} {s n r t i : Nat} {rack : Rack IP Mask}
    {tor : ToR IP Mask} (named : rack.shortName = "r" ++ toString r)
    (sides : tor.spineAddresses = torSides env network s (2 * n) (2 * r + t - 1)) (inside : i < s)
    (first : 1 ≤ t) : torToSpine env rack tor t (spineAt env network (2 * n) i) i =
      .ok ⟨linkName i r t, [env.netString (torSide env network n i r t)]⟩ := by
  rw [torToSpine, sides, index_eq_ok.mpr (getElem?_torSides network n r inside first), named]
  rfl

/-- On a link, the namespace of its spine has one address and those of the other spines none. -/
theorem addressesOn_spineNetNs {c : Cluster IP Mask} {s n i i' r t : Nat} {ns : Placemat.NetNSSpec}
    (shape : c.Shape env s n) (tor : t = 1 ∨ t = 2) (inside : r < n)
    (built : c.spineNetNs env (spineAt env c.network (2 * n) i') i' = .ok ns) :
    addressesOn (linkName i r t) ns.interfaces =
      if i' = i then [[env.netString (spineSide env c.network n i r t)]] else [] := by
  simp only [Cluster.spineNetNs, bind_eq_ok, pure_eq_ok] at built
  obtain ⟨tors, looped, rfl⟩ := built
  have length : tors.length = n := by
    simpa [shape.racks_length] using length_mapM looped
  -- The interfaces to rack `r'` are the two of its ToRs.
  have each (r' : Nat) (l : List Placemat.NetNSInterfaceSpec) (found : tors[r']? = some l) :
      l = [⟨linkName i' r' 1, [env.netString (spineSide env c.network n i' r' 1)]⟩,
        ⟨linkName i' r' 2, [env.netString (spineSide env c.network n i' r' 2)]⟩] := by
    obtain ⟨⟨rack, r''⟩, there, made⟩ := getElem?_mapM looped found
    obtain ⟨rfl, there⟩ := getElem?_zipIdx_eq_some there
    have named := (shape.rack r'' rack there).shortName
    exact Except.ok.inj (made.symm.trans (spineToRack_spineAt named (shape.rack_lt there) i'))
  -- The first two interfaces are those to the core and to the BMC network.
  have front : addressesOn (linkName i r t)
      [⟨"core-to-" ++ (spineAt env c.network (2 * n) i').shortName,
        [env.netString (spineAt env c.network (2 * n) i').coreAddress]⟩,
       ⟨"bmc", [env.netString (spineAt env c.network (2 * n) i').bmcAddress]⟩] = [] := by
    refine addressesOn_eq_nil ?_
    simp only [List.forall_mem_cons]
    exact ⟨ne_linkName (by simp) i r t, ne_linkName (by simp) i r t, by simp⟩
  rw [addressesOn_append, addressesOn_flatten, front, List.nil_append]
  by_cases same : i' = i
  · subst same
    rw [if_pos rfl]
    refine flatMap_eq_single (i := r) (by omega) ?_ ?_
    · intro l found
      rw [each r l found]
      rcases tor with rfl | rfl <;> simp [addressesOn, linkName_inj]
    · intro r' l found other
      rw [each r' l found]
      simp [addressesOn, linkName_inj, other]
  · rw [if_neg same]
    refine List.flatMap_eq_nil_iff.mpr fun l member => ?_
    obtain ⟨r', found⟩ := List.mem_iff_getElem?.mp member
    rw [each r' l found]
    simp [addressesOn, linkName_inj, same]

/-- On a link, the namespace of its ToR has one address and those of the other ToRs none. -/
theorem addressesOn_createToRNetNs {c : Cluster IP Mask} {s n i r r' t t' : Nat}
    {rack : Rack IP Mask} {tor : ToR IP Mask} {ns : Placemat.NetNSSpec} (shape : c.Shape env s n)
    (named : rack.shortName = "r" ++ toString r')
    (sides : tor.spineAddresses = torSides env c.network s (2 * n) (2 * r' + t' - 1))
    (first : 1 ≤ t') (inside : i < s) (built : c.createToRNetNs env rack tor t' = .ok ns) :
    addressesOn (linkName i r t) ns.interfaces =
      if r' = r ∧ t' = t then [[env.netString (torSide env c.network n i r t)]] else [] := by
  simp only [Cluster.createToRNetNs, bind_eq_ok, pure_eq_ok] at built
  obtain ⟨spines, looped, rfl⟩ := built
  have length : spines.length = s := by
    simpa [shape.spines_length] using length_mapM looped
  have each (i' : Nat) (x : Placemat.NetNSInterfaceSpec) (found : spines[i']? = some x) :
      x = ⟨linkName i' r' t', [env.netString (torSide env c.network n i' r' t')]⟩ := by
    obtain ⟨⟨spine, i''⟩, there, made⟩ := getElem?_mapM looped found
    obtain ⟨rfl, there⟩ := getElem?_zipIdx_eq_some there
    obtain ⟨lower, rfl⟩ := shape.spine there
    exact Except.ok.inj (made.symm.trans (torToSpine_spineAt named sides lower first))
  -- The last interface is the one to the servers of the rack.
  have back : addressesOn (linkName i r t) [⟨rack.shortName ++ "-node" ++ toString t',
      [env.netString tor.nodeAddress]⟩] = [] := by
    refine addressesOn_eq_nil ?_
    rw [named]
    simp only [List.forall_mem_cons]
    exact ⟨ne_linkName (by simp) i r t, by simp⟩
  rw [addressesOn_append, back, List.append_nil, addressesOn_eq_flatMap]
  by_cases same : r' = r ∧ t' = t
  · obtain ⟨rfl, rfl⟩ := same
    rw [if_pos ⟨rfl, rfl⟩]
    refine flatMap_eq_single (i := i) (by omega) ?_ ?_
    · intro x found
      rw [each i x found, if_pos rfl]
    · intro i' x found other
      rw [each i' x found, if_neg fun same => other (linkName_inj.mp same).1]
  · rw [if_neg same]
    refine List.flatMap_eq_nil_iff.mpr fun x member => ?_
    obtain ⟨i', found⟩ := List.mem_iff_getElem?.mp member
    rw [each i' x found, if_neg fun equal => same (linkName_inj.mp equal).2]

/-! ### The cluster file -/

/-- Servers are attached to the two networks of their rack. -/
theorem interfaces_rackNodes {rack : Rack IP Mask} {dir : String} {nodes : List Placemat.NodeSpec}
    (made : rackNodes dir rack = .ok nodes) : ∀ node ∈ nodes,
      node.interfaces = [rack.shortName ++ "-node1", rack.shortName ++ "-node2"] := by
  have worker {server : Node IP Mask} {node : Placemat.NodeSpec}
      (made : createWorkerNode rack server = .ok node) :
      node.interfaces = [rack.shortName ++ "-node1", rack.shortName ++ "-node2"] := by
    simp only [createWorkerNode, bind_eq_ok, pure_eq_ok] at made
    obtain ⟨spec, -, rfl⟩ := made
    rfl
  simp only [rackNodes, createBootNode, bind_eq_ok, pure_eq_ok] at made
  obtain ⟨_, ⟨spec, -, rfl⟩, cs, csMade, ss, ssMade, rfl⟩ := made
  intro node member
  rcases List.mem_cons.mp member with rfl | member
  · rfl
  · rcases List.mem_append.mp member with member | member
    · obtain ⟨server, -, made⟩ := (mem_of_mapM csMade).mp member
      exact worker made
    · obtain ⟨server, -, made⟩ := (mem_of_mapM ssMade).mp member
      exact worker made

theorem interfaces_ne_linkName {c : Cluster IP Mask} {s n : Nat} {dir : String}
    {nodes : List Placemat.NodeSpec} (shape : c.Shape env s n) (made : c.appendNodes dir = .ok nodes)
    (i r t : Nat) : ∀ node ∈ nodes, ∀ name ∈ node.interfaces, name ≠ linkName i r t := by
  simp only [Cluster.appendNodes, bind_eq_ok, pure_eq_ok] at made
  obtain ⟨lists, looped, rfl⟩ := made
  intro node member name there
  refine ne_linkName ?_ i r t
  rcases List.mem_append.mp member with member | member
  · obtain ⟨l, memberList, member⟩ := List.mem_flatten.mp member
    obtain ⟨rack, memberRack, made⟩ := (mem_of_mapM looped).mp memberList
    obtain ⟨r', found⟩ := List.mem_iff_getElem?.mp memberRack
    rw [interfaces_rackNodes made node member, (shape.rack r' rack found).shortName] at there
    simp only [List.mem_cons, List.not_mem_nil, or_false] at there
    rcases there with rfl | rfl <;> simp
  · rw [List.mem_singleton.mp member] at there
    rw [List.mem_singleton.mp there]
    decide

/-- The namespaces other than those of spines and ToRs are on no link. -/
theorem addressesOn_coreNetNs (c : Cluster IP Mask) (i r t : Nat) :
    addressesOn (linkName i r t) (c.coreNetNs env).interfaces = [] := by
  refine addressesOn_eq_nil fun x member => ne_linkName ?_ i r t
  simp only [Cluster.coreNetNs, List.mem_append, List.mem_cons, List.not_mem_nil, or_false,
    Option.mem_toList, Option.map_eq_some_iff, List.mem_map] at member
  rcases member with ((((rfl | rfl | rfl) | ⟨_, -, rfl⟩) | ⟨_, -, rfl⟩) | ⟨_, -, rfl⟩) <;> simp

theorem addressesOn_externalNetNs (c : Cluster IP Mask) (i r t : Nat) :
    addressesOn (linkName i r t) (c.externalNetNs env).interfaces = [] := by
  refine addressesOn_eq_nil fun x member => ne_linkName ?_ i r t
  rw [List.mem_singleton.mp member]
  simp

theorem addressesOn_operationNetNs (c : Cluster IP Mask) (i r t : Nat) :
    addressesOn (linkName i r t) (c.operationNetNs env).interfaces = [] := by
  refine addressesOn_eq_nil fun x member => ne_linkName ?_ i r t
  rw [List.mem_singleton.mp member]
  simp

theorem attached_spines {c : Cluster IP Mask} {s n i r t : Nat} {spines : List Placemat.NetNSSpec}
    (shape : c.Shape env s n) (spine : i < s) (rack : r < n) (tor : t = 1 ∨ t = 2)
    (looped : (c.spines.zipIdx.mapM fun (spine, i) => c.spineNetNs env spine i) = .ok spines) :
    spines.flatMap (attached (linkName i r t)) =
      [("spine" ++ toString (i + 1), [env.netString (spineSide env c.network n i r t)])] := by
  have each (i' : Nat) (ns : Placemat.NetNSSpec) (found : spines[i']? = some ns) :
      ns.name = "spine" ++ toString (i' + 1) ∧ addressesOn (linkName i r t) ns.interfaces =
        if i' = i then [[env.netString (spineSide env c.network n i r t)]] else [] := by
    obtain ⟨⟨spine, i''⟩, there, built⟩ := getElem?_mapM looped found
    obtain ⟨rfl, there⟩ := getElem?_zipIdx_eq_some there
    obtain ⟨-, rfl⟩ := shape.spine there
    refine ⟨?_, addressesOn_spineNetNs shape tor rack built⟩
    simp only [Cluster.spineNetNs, bind_eq_ok, pure_eq_ok] at built
    obtain ⟨_, -, rfl⟩ := built
    rfl
  have length : spines.length = s := by
    simpa [shape.spines_length] using length_mapM looped
  refine flatMap_eq_single (i := i) (by omega) ?_ ?_
  · intro ns found
    obtain ⟨name, addresses⟩ := each i ns found
    rw [attached, addresses, name, if_pos rfl]
    rfl
  · intro i' ns found other
    rw [attached, (each i' ns found).2, if_neg other]
    rfl

theorem name_createToRNetNs {c : Cluster IP Mask} {rack : Rack IP Mask} {tor : ToR IP Mask}
    {t : Nat} {ns : Placemat.NetNSSpec} (built : c.createToRNetNs env rack tor t = .ok ns) :
    ns.name = rack.name ++ "-tor" ++ toString t := by
  simp only [Cluster.createToRNetNs, bind_eq_ok, pure_eq_ok] at built
  obtain ⟨_, -, rfl⟩ := built
  rfl

theorem attached_tors {c : Cluster IP Mask} {s n i r t : Nat}
    {tors : List (List Placemat.NetNSSpec)} (shape : c.Shape env s n) (spine : i < s)
    (rack : r < n) (tor : t = 1 ∨ t = 2)
    (looped : c.racks.mapM (c.rackNetNss env) = .ok tors) :
    tors.flatten.flatMap (attached (linkName i r t)) =
      [("rack" ++ toString r ++ "-tor" ++ toString t,
        [env.netString (torSide env c.network n i r t)])] := by
  have each (r' : Nat) (l : List Placemat.NetNSSpec) (found : tors[r']? = some l) :
      l.flatMap (attached (linkName i r t)) =
        if r' = r then [("rack" ++ toString r ++ "-tor" ++ toString t,
          [env.netString (torSide env c.network n i r t)])] else [] := by
    obtain ⟨rack, there, built⟩ := getElem?_mapM looped found
    have shaped := shape.rack r' rack there
    simp only [Cluster.rackNetNss, bind_eq_ok, pure_eq_ok] at built
    obtain ⟨tor1, built1, tor2, built2, rfl⟩ := built
    -- at most one of the two ToRs of a rack is on the link
    have on1 := addressesOn_createToRNetNs (r := r) (t := t) shape shaped.shortName shaped.tor1
      (by decide) spine built1
    have on2 := addressesOn_createToRNetNs (r := r) (t := t) shape shaped.shortName shaped.tor2
      (by decide) spine built2
    simp only [List.flatMap_cons, List.flatMap_nil, attached, on1, on2,
      name_createToRNetNs built1, name_createToRNetNs built2, shaped.name]
    by_cases same : r' = r
    · subst same
      rcases tor with rfl | rfl <;> simp
    · simp [same]
  have length : tors.length = n := by
    rw [length_mapM looped, shape.racks_length]
  rw [← List.flatMap_id, List.flatMap_assoc]
  simp only [id]
  refine flatMap_eq_single (i := r) (by omega) ?_ ?_
  · intro l found
    rw [each r l found, if_pos rfl]
  · intro r' l found other
    rw [each r' l found, if_neg other]

/-- What the cluster file attaches to a link: its spine and its ToR. -/
theorem attachments_link {c : Cluster IP Mask} {s n i r t : Nat} {dir : String}
    {spec : Placemat.ClusterSpec} (shape : c.Shape env s n) (spine : i < s) (rack : r < n)
    (tor : t = 1 ∨ t = 2) (generated : c.generateClusterSpec env dir = .ok spec) :
    attachments spec (linkName i r t) =
      [("spine" ++ toString (i + 1), [env.netString (spineSide env c.network n i r t)]),
       ("rack" ++ toString r ++ "-tor" ++ toString t,
         [env.netString (torSide env c.network n i r t)])] := by
  simp only [Cluster.generateClusterSpec, Cluster.appendNetworkNamespaces, bind_eq_ok,
    pure_eq_ok] at generated
  obtain ⟨nodes, nodesMade, _, ⟨spines, spinesMade, tors, torsMade, rfl⟩, rfl⟩ := generated
  have servers : (nodes.flatMap fun node => (node.interfaces.filter (· = linkName i r t)).map
      fun _ => (node.name, ([] : List String))) = [] := by
    refine List.flatMap_eq_nil_iff.mpr fun node member => ?_
    have off := interfaces_ne_linkName shape nodesMade i r t node member
    rw [List.filter_eq_nil_iff.mpr (by simpa using off), List.map_nil]
  have namespaces : ([c.coreNetNs env] ++ spines ++ tors.flatten ++
      [c.externalNetNs env, c.operationNetNs env]).flatMap (attached (linkName i r t)) =
        spines.flatMap (attached (linkName i r t)) ++
          tors.flatten.flatMap (attached (linkName i r t)) := by
    simp only [List.flatMap_append, List.flatMap_cons, List.flatMap_nil, attached,
      addressesOn_coreNetNs, addressesOn_externalNetNs, addressesOn_operationNetNs, List.map_nil,
      List.nil_append, List.append_nil]
  rw [attached_spines shape spine rack tor spinesMade, attached_tors shape spine rack tor torsMade]
    at namespaces
  rw [attachments, servers]
  exact namespaces

/-- The network of a link is listed once. -/
theorem networks_link {c : Cluster IP Mask} {s n i r t : Nat} (shape : c.Shape env s n)
    (spine : i < s) (rack : r < n) (tor : t = 1 ∨ t = 2) :
    (c.appendNetworks env).filter (·.name = linkName i r t) = [{ name := linkName i r t }] := by
  have off (l : List Placemat.NetworkSpec) (starts : ∀ x ∈ l, x.name.toList.head? ≠ some 's') :
      l.filter (·.name = linkName i r t) = [] :=
    List.filter_eq_nil_iff.mpr fun x member => by
      simpa using ne_linkName (starts x member) i r t
  have rackNames (r' : Nat) (rack : Rack IP Mask) (there : c.racks[r']? = some rack) :=
    (shape.rack r' rack there).shortName
  -- The pair of links of one spine and one rack.
  have pair (i' r' : Nat) (rack : Rack IP Mask) (there : c.racks[r']? = some rack) :
      ([{ name := (spineAt env c.network (2 * n) i').shortName ++ "-to-" ++ rack.shortName ++ "-1" },
        { name := (spineAt env c.network (2 * n) i').shortName ++ "-to-" ++ rack.shortName ++ "-2" }]
        : List Placemat.NetworkSpec).filter (·.name = linkName i r t) =
      if i' = i ∧ r' = r then [{ name := linkName i r t }] else [] := by
    rw [rackNames r' rack there, spineAt, linkName_one, linkName_two]
    by_cases same : i' = i ∧ r' = r
    · obtain ⟨rfl, rfl⟩ := same
      rcases tor with rfl | rfl <;> simp [linkName_inj]
    · rw [if_neg same]
      simp only [List.filter_eq_nil_iff, List.forall_mem_cons, decide_eq_true_eq, linkName_inj]
      exact ⟨fun equal => same ⟨equal.1, equal.2.1⟩,
        fun equal => same ⟨equal.1, equal.2.1⟩, by simp⟩
  have links : (c.spines.flatMap fun spine => c.racks.flatMap fun rack =>
      ([{ name := spine.shortName ++ "-to-" ++ rack.shortName ++ "-1" },
        { name := spine.shortName ++ "-to-" ++ rack.shortName ++ "-2" }]
        : List Placemat.NetworkSpec)).filter (·.name = linkName i r t) =
      [{ name := linkName i r t }] := by
    simp only [List.filter_flatMap]
    refine flatMap_eq_single (i := i) (by rwa [shape.spines_length]) ?_ ?_
    · intro x found
      obtain ⟨-, rfl⟩ := shape.spine found
      refine flatMap_eq_single (i := r) (by rwa [shape.racks_length]) ?_ ?_
      · intro y there
        rw [pair i r y there, if_pos ⟨rfl, rfl⟩]
      · intro r' y there other
        rw [pair i r' y there, if_neg fun equal => other equal.2]
    · intro i' x found other
      obtain ⟨-, rfl⟩ := shape.spine found
      refine List.flatMap_eq_nil_iff.mpr fun y member => ?_
      obtain ⟨r', there⟩ := List.mem_iff_getElem?.mp member
      rw [pair i' r' y there, if_neg fun equal => other equal.1]
  have servers : (c.racks.flatMap fun rack =>
      ([{ name := rack.shortName ++ "-node1" }, { name := rack.shortName ++ "-node2" }]
        : List Placemat.NetworkSpec)).filter (·.name = linkName i r t) = [] := by
    refine off _ fun x member => ?_
    obtain ⟨rack, there, member⟩ := List.mem_flatMap.mp member
    obtain ⟨r', there⟩ := List.mem_iff_getElem?.mp there
    rw [rackNames r' rack there] at member
    simp only [List.mem_cons, List.not_mem_nil, or_false] at member
    rcases member with rfl | rfl <;> simp
  -- none of the other networks has a name that starts with s
  unfold Cluster.appendNetworks
  simp only [List.filter_append, links, servers]
  rw [off _ (by simp), off _ (by simp), off _ (by simp), off _ (by split <;> simp),
    off _ (by split <;> simp), off _ (by simp)]
  rfl

/-! ### All addresses -/

/-- The addresses of both ends of all links. -/
def Cluster.linkAddresses (c : Cluster IP Mask) : List (IPNet IP Mask) :=
  c.spines.flatMap (·.torAddresses) ++
    c.racks.flatMap fun rack => rack.tor1.spineAddresses ++ rack.tor2.spineAddresses

/-- The numbers of the addresses on the side of the spines and on the side of `n` ToRs. -/
def spineOffsets (s n : Nat) : List Nat :=
  (List.range s).flatMap fun i => (List.range n).map fun k => 2 * n * i + 2 * k

def torOffsets (s n : Nat) : List Nat :=
  (List.range n).flatMap fun k => (List.range s).map fun i => 2 * n * i + 2 * k + 1

/-- A pair is told from the number that the counter gives it. -/
theorem counter_inj {n i k i' k' : Nat} (lower : k < n) (lower' : k' < n)
    (same : n * i + k = n * i' + k') : i = i' ∧ k = k' := by
  -- `i` is the quotient and `k` the rest
  have quotient := congrArg (· / n) same
  simp only [Nat.mul_add_div (Nat.zero_lt_of_lt lower), Nat.div_eq_of_lt lower,
    Nat.div_eq_of_lt lower', Nat.add_zero] at quotient
  subst quotient
  exact ⟨rfl, Nat.add_left_cancel same⟩

theorem nodup_offsets (s n : Nat) : (spineOffsets s n ++ torOffsets s n).Nodup := by
  have doubled (i : Nat) : 2 * n * i = 2 * (n * i) := Nat.mul_assoc ..
  have spines : spineOffsets s n =
      (List.range s ×ˢ List.range n).map fun p => 2 * n * p.1 + 2 * p.2 := by
    simp [spineOffsets, SProd.sprod, List.product, List.map_flatMap, Function.comp_def]
  have tors : torOffsets s n =
      (List.range n ×ˢ List.range s).map fun p => 2 * n * p.2 + 2 * p.1 + 1 := by
    simp [torOffsets, SProd.sprod, List.product, List.map_flatMap, Function.comp_def]
  refine List.nodup_append.mpr ⟨?_, ?_, ?_⟩
  · rw [spines]
    refine List.Nodup.map_on ?_ (List.nodup_range.product List.nodup_range)
    rintro ⟨i, k⟩ member ⟨i', k'⟩ member' same
    simp only [List.mem_product, List.mem_range] at member member'
    simp only [doubled] at same
    obtain ⟨rfl, rfl⟩ := counter_inj member.2 member'.2 (by omega : n * i + k = n * i' + k')
    rfl
  · rw [tors]
    refine List.Nodup.map_on ?_ (List.nodup_range.product List.nodup_range)
    rintro ⟨k, i⟩ member ⟨k', i'⟩ member' same
    simp only [List.mem_product, List.mem_range] at member member'
    simp only [doubled] at same
    obtain ⟨rfl, rfl⟩ := counter_inj member.1 member'.1 (by omega : n * i + k = n * i' + k')
    rfl
  · -- One side has the even numbers and the other one the odd numbers.
    intro x member y member' same
    rw [spines, List.mem_map] at member
    rw [tors, List.mem_map] at member'
    obtain ⟨p, -, rfl⟩ := member
    obtain ⟨p', -, rfl⟩ := member'
    rw [doubled, doubled] at same
    omega

theorem offsets_lt {s n x : Nat} (member : x ∈ spineOffsets s n ++ torOffsets s n) :
    x < 2 * (s * n) := by
  have last {i k : Nat} (lower : i < s) (inside : k < n) : 2 * n * i + 2 * k + 1 < 2 * (s * n) := by
    have rounds : n * (i + 1) ≤ n * s := Nat.mul_le_mul_left n lower
    rw [Nat.mul_add, Nat.mul_comm n s] at rounds
    have doubled : 2 * n * i = 2 * (n * i) := Nat.mul_assoc ..
    omega
  simp only [spineOffsets, torOffsets, List.mem_append, List.mem_flatMap, List.mem_map,
    List.mem_range] at member
  rcases member with ⟨i, lower, k, inside, rfl⟩ | ⟨k, inside, i, lower, rfl⟩
  · exact Nat.lt_of_succ_lt (last lower inside)
  · exact last lower inside

theorem length_offsets (s n : Nat) :
    (spineOffsets s n ++ torOffsets s n).length = 2 * (s * n) := by
  simp [spineOffsets, torOffsets, List.length_flatMap, Nat.mul_comm n s, Nat.two_mul]

theorem flatMap_eq_range {α β : Type} {l : List α} {g : α → List β} {h : Nat → List β}
    (each : ∀ i x, l[i]? = some x → g x = h i) : l.flatMap g = (List.range l.length).flatMap h := by
  induction l using List.reverseRecOn with
  | nil => rfl
  | append_singleton l x ih =>
    have earlier := ih fun i y found => each i y (List.getElem?_append_left
      (List.getElem?_eq_some_iff.mp found).1 ▸ found)
    have last : g x = h l.length := each l.length x (by simp)
    rw [List.flatMap_append, earlier, List.length_append, List.length_singleton, List.range_succ,
      List.flatMap_append, List.flatMap_singleton, List.flatMap_singleton, last]

/-- Two at a time. -/
theorem flatMap_range_two {β : Type} (f : Nat → List β) (n : Nat) :
    (List.range n).flatMap (fun r => f (2 * r) ++ f (2 * r + 1)) =
      (List.range (2 * n)).flatMap f := by
  induction n with
  | zero => rfl
  | succ n ih =>
    have doubled : 2 * (n + 1) = 2 * n + 1 + 1 := rfl
    simp [List.range_succ, ih, doubled]

theorem linkAddresses_eq {c : Cluster IP Mask} {s n : Nat} (shape : c.Shape env s n) :
    c.linkAddresses = (spineOffsets s (2 * n) ++ torOffsets s (2 * n)).map
      (nthAddress env ⟨c.network.spineTor, env.cidrMask 31 32⟩) := by
  have spines : c.spines.flatMap (·.torAddresses) = (spineOffsets s (2 * n)).map
      (nthAddress env ⟨c.network.spineTor, env.cidrMask 31 32⟩) := by
    rw [shape.spines, spineOffsets, List.map_flatMap, List.flatMap_map]
    simp [spineAt, Function.comp_def]
  have tors : (c.racks.flatMap fun rack => rack.tor1.spineAddresses ++ rack.tor2.spineAddresses) =
      (torOffsets s (2 * n)).map (nthAddress env ⟨c.network.spineTor, env.cidrMask 31 32⟩) := by
    rw [flatMap_eq_range (h := fun r => torSides env c.network s (2 * n) (2 * r) ++
      torSides env c.network s (2 * n) (2 * r + 1)) fun r rack there => by
        rw [(shape.rack r rack there).tor1, (shape.rack r rack there).tor2],
      flatMap_range_two, shape.racks_length, torOffsets, List.map_flatMap]
    simp only [List.map_map]
    rfl
  rw [Cluster.linkAddresses, spines, tors, List.map_append]

/-! ### Bird -/

/-- The neighbors in the configuration of a spine are the ToR sides of its links. -/
theorem spineNeighbors_newRackArgs {c : Cluster IP Mask} {s n i r : Nat} {rack : Rack IP Mask}
    (shape : c.Shape env s n) (spine : i < s) (there : c.racks[r]? = some rack) :
    spineNeighbors i (newRackArgs env rack) =
      .ok [("rack" ++ toString r ++ "-tor1", env.ipString (torSide env c.network n i r 1).ip),
        ("rack" ++ toString r ++ "-tor2", env.ipString (torSide env c.network n i r 2).ip)] := by
  have shaped := shape.rack r rack there
  have side (tor : ToR IP Mask) (t : Nat) (first : 1 ≤ t)
      (sides : tor.spineAddresses = torSides env c.network s (2 * n) (2 * r + t - 1)) :
      index (torArgs env tor).spineAddresses i =
        .ok (env.ipString (torSide env c.network n i r t).ip) := by
    rw [index_eq_ok, torArgs, sides, List.getElem?_map, getElem?_torSides c.network n r spine first]
    rfl
  simp only [spineNeighbors, newRackArgs, side rack.tor1 1 (by decide) shaped.tor1,
    side rack.tor2 2 (by decide) shaped.tor2, shaped.name]
  rfl

theorem birdSpine_files {c : Cluster IP Mask} {s n : Nat} (shape : c.Shape env s n) :
    ∃ files, c.generateBirdSpineConf env = .ok files ∧ ∀ i < s, ∃ args,
      ⟨"/bird_spine.conf", "bird_spine" ++ toString (i + 1) ++ ".conf", .birdSpine args⟩ ∈ files ∧
      args.spineIdx = i ∧ args.racks = c.racks.map (newRackArgs env) := by
  obtain ⟨files, generated⟩ := succeeds_generateBirdSpineConf shape
  refine ⟨files, generated, fun i spine => ?_⟩
  obtain ⟨file, made⟩ := succeeds_mapM.mp ⟨files, generated⟩ i (by
    rwa [List.mem_range, shape.spines_length])
  have member : file ∈ files := (mem_of_mapM generated).mpr ⟨i, by
    rwa [List.mem_range, shape.spines_length], made⟩
  simp only [exportBirdSpine, bind_eq_ok, pure_eq_ok] at made
  obtain ⟨args, built, _, -, rfl⟩ := made
  exact ⟨args, member, birdSpineArgs_eq_ok built⟩

/-- The spines in the configuration of a rack are the spine sides of its links. -/
theorem rackSpineArgs_spineAt (network : Network IP Mask) {n r : Nat} (inside : r < n) (i : Nat) :
    rackSpineArgs env r (spineAt env network (2 * n) i) =
      .ok { name := "spine" ++ toString (i + 1)
            coreAddress := env.ipString (nthAddress env network.coreSpine (2 * i + 1)).ip
            tor1Address := env.ipString (spineSide env network n i r 1).ip
            tor2Address := env.ipString (spineSide env network n i r 2).ip } := by
  rw [rackSpineArgs, tor1Address_spineAt network inside, tor2Address_spineAt network inside]
  rfl

theorem spines_birdRackArgs {c : Cluster IP Mask} {s n r i : Nat} {rack : Rack IP Mask}
    {args : BirdRackArgs} (shape : c.Shape env s n) (inside : r < n)
    (built : c.birdRackArgs env rack r = .ok args) (spine : i < s) :
    ∃ spine, args.spines[i]? = some spine ∧ spine.name = "spine" ++ toString (i + 1) ∧
      spine.tor1Address = env.ipString (spineSide env c.network n i r 1).ip ∧
      spine.tor2Address = env.ipString (spineSide env c.network n i r 2).ip := by
  simp only [Cluster.birdRackArgs, bind_eq_ok, pure_eq_ok] at built
  obtain ⟨spines, looped, rfl⟩ := built
  have there : i < spines.length := by
    rwa [length_mapM looped, shape.spines_length]
  obtain ⟨x, found, made⟩ := getElem?_mapM looped (List.getElem?_eq_getElem there)
  obtain ⟨-, rfl⟩ := shape.spine found
  rw [rackSpineArgs_spineAt c.network inside] at made
  refine ⟨spines[i], List.getElem?_eq_getElem there, ?_⟩
  rw [← Except.ok.inj made]
  exact ⟨rfl, rfl, rfl⟩

theorem birdRack_files {c : Cluster IP Mask} {s n : Nat} (shape : c.Shape env s n) :
    ∃ files, c.generateBirdRackConf env = .ok files ∧ ∀ r < n, ∃ rack args,
      c.birdRackArgs env rack r = .ok args ∧
      ⟨"/bird_rack-tor1.conf", "bird_rack" ++ toString r ++ "-tor1.conf", .birdRack args⟩ ∈ files ∧
      ⟨"/bird_rack-tor2.conf", "bird_rack" ++ toString r ++ "-tor2.conf", .birdRack args⟩ ∈ files := by
  obtain ⟨files, generated⟩ := succeeds_generateBirdRackConf shape
  refine ⟨files, generated, fun r inside => ?_⟩
  simp only [Cluster.generateBirdRackConf, bind_eq_ok, pure_eq_ok] at generated
  obtain ⟨lists, looped, rfl⟩ := generated
  have there : r < lists.length := by
    rw [length_mapM looped]
    simpa [shape.racks_length] using inside
  have member : lists[r] ∈ lists := List.getElem_mem there
  obtain ⟨⟨rack, r'⟩, found, made⟩ := getElem?_mapM looped (List.getElem?_eq_getElem there)
  obtain ⟨rfl, -⟩ := getElem?_zipIdx_eq_some found
  simp only [bind_eq_ok, pure_eq_ok] at made
  obtain ⟨args, built, same⟩ := made
  refine ⟨rack, args, built, List.mem_flatten.mpr ⟨_, member, ?_⟩,
    List.mem_flatten.mpr ⟨_, member, ?_⟩⟩
  · rw [← same]
    simp
  · rw [← same]
    simp

/-! ### IPv4 -/

/-- The address of the spine on a link, counted from the first address of all links. -/
def linkEnd (base : IPv4.Addr) (n i r t : Nat) : IPv4.Addr :=
  base + BitVec.ofNat 32 (2 * (2 * n * i + 2 * r + t - 1))

variable (env) in
/-- `IPAdd` counts the addresses from the first one on, up to the one with the number `m`. -/
def Counts (v4 : IPv4.Addr → IP) (base : IPv4.Addr) (m : Nat) : Prop :=
  ∀ k < m, env.ipAdd (v4 (base + BitVec.ofNat 32 k)) 1 = v4 (base + BitVec.ofNat 32 (k + 1))

/-- Sums outside of 32 bits matter only when the addresses go beyond the last one. -/
theorem counts_of_adds {v4 : IPv4.Addr → IP} {base : IPv4.Addr} {m : Nat}
    (adds : ∀ (a : IPv4.Addr) (k : Nat), a.toNat + k < 2 ^ 32 →
      env.ipAdd (v4 a) k = v4 (a + BitVec.ofNat 32 k))
    (wraps : 2 ^ 32 < base.toNat + m → ∀ a k, env.ipAdd (v4 a) k = v4 (a + BitVec.ofInt 32 k)) :
    Counts env v4 base (m - 1) := by
  intro k small
  rw [BitVec.ofNat_add, ← BitVec.add_assoc]
  by_cases inside : base.toNat + m ≤ 2 ^ 32
  · refine adds _ 1 ?_
    rw [BitVec.toNat_add, BitVec.toNat_ofNat, Nat.mod_eq_of_lt (by omega : k < 2 ^ 32),
      Nat.mod_eq_of_lt (by omega)]
    omega
  · exact wraps (by omega) _ 1

theorem nthAddress_v4 {v4 : IPv4.Addr → IP} {base : IPv4.Addr} {m : Nat}
    (counts : Counts env v4 base m) (mask : Mask) {k : Nat} (last : k ≤ m) :
    nthAddress env ⟨v4 base, mask⟩ k = ⟨v4 (base + BitVec.ofNat 32 k), mask⟩ := by
  induction k with
  | zero => simp [nthAddress]
  | succ k ih => rw [← addToIPNet_nthAddress, ih (by omega), addToIPNet, counts k (by omega)]

/-- The wiring of a cluster with `s` spines and `n` racks, as the generated files tell it. -/
structure Wired (env : Env IP Mask) (v4 : IPv4.Addr → IP) (c : Cluster IP Mask) (base : IPv4.Addr)
    (s n : Nat) : Prop where
  /-- Each link is a network of the cluster file. -/
  listed : ∀ dir spec, c.generateClusterSpec env dir = .ok spec → ∀ i < s, ∀ r < n, ∀ t,
    t = 1 ∨ t = 2 → spec.networks.filter (·.name = linkName i r t) = [{ name := linkName i r t }]
  /-- Nothing but its spine and its ToR is attached to it. -/
  attached : ∀ dir spec, c.generateClusterSpec env dir = .ok spec → ∀ i < s, ∀ r < n, ∀ t,
    t = 1 ∨ t = 2 → attachments spec (linkName i r t) =
      [("spine" ++ toString (i + 1),
        [env.netString ⟨v4 (linkEnd base n i r t), env.cidrMask 31 32⟩]),
       ("rack" ++ toString r ++ "-tor" ++ toString t,
        [env.netString ⟨v4 (linkEnd base n i r t + 1), env.cidrMask 31 32⟩])]
  /-- No two ends of links have one address. -/
  distinct : (c.linkAddresses.map (·.ip)).Nodup ∧ c.linkAddresses.length = 4 * s * n
  /-- A spine is configured with the addresses of the ToRs. -/
  birdSpine : ∃ files, c.generateBirdSpineConf env = .ok files ∧ ∀ i < s, ∃ args,
    ⟨"/bird_spine.conf", "bird_spine" ++ toString (i + 1) ++ ".conf", .birdSpine args⟩ ∈ files ∧
    args.spineIdx = i ∧ ∀ r < n, ∃ rack, args.racks[r]? = some rack ∧
      spineNeighbors i rack =
        .ok [("rack" ++ toString r ++ "-tor1", env.ipString (v4 (linkEnd base n i r 1 + 1))),
          ("rack" ++ toString r ++ "-tor2", env.ipString (v4 (linkEnd base n i r 2 + 1)))]
  /-- The ToRs of a rack are configured with the addresses of the spines. -/
  birdRack : ∃ files, c.generateBirdRackConf env = .ok files ∧ ∀ r < n, ∃ args,
    ⟨"/bird_rack-tor1.conf", "bird_rack" ++ toString r ++ "-tor1.conf", .birdRack args⟩ ∈ files ∧
    ⟨"/bird_rack-tor2.conf", "bird_rack" ++ toString r ++ "-tor2.conf", .birdRack args⟩ ∈ files ∧
    ∀ i < s, ∃ spine, args.spines[i]? = some spine ∧ spine.name = "spine" ++ toString (i + 1) ∧
      spine.tor1Address = env.ipString (v4 (linkEnd base n i r 1)) ∧
      spine.tor2Address = env.ipString (v4 (linkEnd base n i r 2))

theorem linkOffset_lt {s n i r t : Nat} (spine : i < s) (rack : r < n) (tor : t = 1 ∨ t = 2) :
    linkOffset n i r t + 1 < 4 * s * n := by
  have spines : 2 * n * i + 2 * n ≤ 2 * n * s := by
    rw [← Nat.mul_succ]
    exact Nat.mul_le_mul_left _ spine
  have total : 2 * (2 * n * s) = 4 * s * n := by
    rw [← Nat.mul_assoc, ← Nat.mul_assoc, Nat.mul_right_comm]
  unfold linkOffset
  omega

theorem spineSide_v4 {v4 : IPv4.Addr → IP} {network : Network IP Mask} {base : IPv4.Addr}
    {s n i r t : Nat} (counts : Counts env v4 base (4 * s * n - 1))
    (first : network.spineTor = v4 base) (spine : i < s) (rack : r < n) (tor : t = 1 ∨ t = 2) :
    spineSide env network n i r t = ⟨v4 (linkEnd base n i r t), env.cidrMask 31 32⟩ := by
  have last := linkOffset_lt spine rack tor
  rw [spineSide, first, nthAddress_v4 counts _ (by omega)]
  rfl

theorem torSide_v4 {v4 : IPv4.Addr → IP} {network : Network IP Mask} {base : IPv4.Addr}
    {s n i r t : Nat} (counts : Counts env v4 base (4 * s * n - 1))
    (first : network.spineTor = v4 base) (spine : i < s) (rack : r < n) (tor : t = 1 ∨ t = 2) :
    torSide env network n i r t = ⟨v4 (linkEnd base n i r t + 1), env.cidrMask 31 32⟩ := by
  have last := linkOffset_lt spine rack tor
  rw [torSide, first, nthAddress_v4 counts _ (by omega), BitVec.ofNat_add, ← BitVec.add_assoc]
  rfl

theorem distinct_linkAddresses {v4 : IPv4.Addr → IP} (injective : Function.Injective v4)
    {c : Cluster IP Mask} {base : IPv4.Addr} {s n : Nat}
    (counts : Counts env v4 base (4 * s * n - 1)) (shape : c.Shape env s n)
    (first : c.network.spineTor = v4 base) (fits : 4 * s * n ≤ 2 ^ 32) :
    (c.linkAddresses.map (·.ip)).Nodup := by
  rw [linkAddresses_eq shape, List.map_map]
  refine List.Nodup.map_on ?_ (nodup_offsets s (2 * n))
  intro x member y member' same
  have total : 2 * (s * (2 * n)) = 4 * s * n := by
    rw [Nat.mul_left_comm s, ← Nat.mul_assoc, ← Nat.mul_assoc]
  -- below `2 ^ 32` the numbers are told apart by their addresses
  have lower := offsets_lt member
  have lower' := offsets_lt member'
  simp only [Function.comp_apply, first] at same
  rw [nthAddress_v4 counts _ (by omega), nthAddress_v4 counts _ (by omega)] at same
  have numbers := congrArg BitVec.toNat ((BitVec.add_right_inj base).mp (injective same))
  rw [BitVec.toNat_ofNat, BitVec.toNat_ofNat, Nat.mod_eq_of_lt (by omega),
    Nat.mod_eq_of_lt (by omega)] at numbers
  exact numbers

/-- Every cluster that `newCluster` builds is wired consistently, when the addresses for its links
suffice. `IPAdd` has to add inside 32 bits only, unless the links go beyond the last address. -/
theorem spine_tor_wiring_consistent {v4 : IPv4.Addr → IP} (injective : Function.Injective v4)
    {menu : Menu IP Mask} {network : Network IP Mask} {inventory : InventorySpec}
    {base : IPv4.Addr} {c : Cluster IP Mask}
    (adds : ∀ (a : IPv4.Addr) (k : Nat), a.toNat + k < 2 ^ 32 →
      env.ipAdd (v4 a) k = v4 (a + BitVec.ofNat 32 k))
    (wraps : 2 ^ 32 < base.toNat + 4 * inventory.spine.toNat * inventory.rack.length →
      ∀ a k, env.ipAdd (v4 a) k = v4 (a + BitVec.ofInt 32 k))
    (hasNetwork : menu.network = some network)
    (hasInventory : menu.inventory = some inventory) (first : network.spineTor = v4 base)
    (fits : 4 * inventory.spine.toNat * inventory.rack.length ≤ 2 ^ 32)
    (built : newCluster env menu = .ok c) :
    Wired env v4 c base inventory.spine.toNat inventory.rack.length ∧
      (menu.Typed → ∀ dir, ∃ spec, c.generateClusterSpec env dir = .ok spec) := by
  have shape := shape_newCluster hasInventory built
  have spineTor : c.network.spineTor = v4 base := by
    obtain ⟨_, _, _, _, same, -, -, -, rfl⟩ := (newCluster_eq_ok env).mp built
    cases hasNetwork.symm.trans same
    exact first
  have counts := counts_of_adds adds wraps
  refine ⟨⟨?_, ?_, ⟨?_, ?_⟩, ?_, ?_⟩, ?_⟩
  · intro dir spec generated i spine r rack t tor
    simp only [Cluster.generateClusterSpec, bind_eq_ok, pure_eq_ok] at generated
    obtain ⟨_, -, _, -, rfl⟩ := generated
    exact networks_link shape spine rack tor
  · intro dir spec generated i spine r rack t tor
    rw [attachments_link shape spine rack tor generated,
      spineSide_v4 counts spineTor spine rack tor, torSide_v4 counts spineTor spine rack tor]
  · exact distinct_linkAddresses injective counts shape spineTor fits
  · rw [linkAddresses_eq shape, List.length_map, length_offsets, Nat.mul_left_comm _ 2,
      ← Nat.mul_assoc, ← Nat.mul_assoc]
  · obtain ⟨files, generated, each⟩ := birdSpine_files shape
    refine ⟨files, generated, fun i spine => ?_⟩
    obtain ⟨args, member, index, racks⟩ := each i spine
    refine ⟨args, member, index, fun r inside => ?_⟩
    have there : r < c.racks.length := by
      rwa [shape.racks_length]
    refine ⟨newRackArgs env c.racks[r], by rw [racks]; simp [there], ?_⟩
    rw [spineNeighbors_newRackArgs shape spine (List.getElem?_eq_getElem there),
      torSide_v4 counts spineTor spine inside (.inl rfl),
      torSide_v4 counts spineTor spine inside (.inr rfl)]
  · obtain ⟨files, generated, each⟩ := birdRack_files shape
    refine ⟨files, generated, fun r inside => ?_⟩
    obtain ⟨rack, args, made, tor1, tor2⟩ := each r inside
    refine ⟨args, tor1, tor2, fun i spine => ?_⟩
    obtain ⟨x, found, name, first, second⟩ := spines_birdRackArgs shape inside made spine
    rw [spineSide_v4 counts spineTor spine inside (.inl rfl)] at first
    rw [spineSide_v4 counts spineTor spine inside (.inr rfl)] at second
    exact ⟨x, found, name, first, second⟩
  · intro typed dir
    exact succeeds_generateClusterSpec shape (specified_newCluster typed built) dir

end

/-- A menu with two spines and two racks. -/
theorem spine_tor_wiring_twoRacks : ∃ menu c,
    parse (ipv4Env twoRacksIPAM) (twoRacks "10.0.5.0/24") = .ok menu ∧
    newCluster (ipv4Env twoRacksIPAM) menu = .ok c ∧
    Wired (ipv4Env twoRacksIPAM) id c 0x0a000100#32 2 2 := by
  obtain ⟨menu, accepted⟩ : Succeeds (parse (ipv4Env twoRacksIPAM) (twoRacks "10.0.5.0/24")) :=
    succeeds_of_isOk (by decide +kernel)
  have holds := holds_parse accepted
  obtain ⟨network, hasNetwork, read⟩ := holds.exists_network rfl
  have hasInventory := holds.inventory.symm
  obtain ⟨ic, ipam, size⟩ := read.ipam
  cases ipam
  have ntp : network.ntp ≠ none := (not_congr read.ntp).mpr (by decide)
  obtain ⟨c, built⟩ := (succeeds_newCluster hasNetwork hasInventory).mpr
    ⟨ntp, fun rackMenu member => ⟨by rw [size]; decide, by rintro rfl; revert member; decide⟩⟩
  have first : network.spineTor = 0x0a000100#32 :=
    Option.some.inj (read.spineTor.symm.trans (by decide +kernel))
  exact ⟨menu, c, accepted, built, (spine_tor_wiring_consistent Function.injective_id
    (fun _ _ _ => rfl) (fun _ _ _ => rfl) hasNetwork hasInventory first (by decide) built).1⟩

end Neco.PlacematMenu
