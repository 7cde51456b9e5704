import Neco.Properties.AddressSetter
import Neco.Lib.Fallible
import Mathlib.Data.List.GetD
import Mathlib.Data.List.Perm.Basic
import Mathlib.Algebra.Group.Nat.Defs
import Mathlib.Data.Nat.ModEq

/-!
# The DHCP server addresses

Each boot server chooses its address from the names of the etcd members alone. The choice is a
function of the rank of its number, so that the servers agree and the addresses are shared out
evenly.
-/

namespace Neco.BootIPSetter

/-! ### Names -/

/-- The texts of integers: digits, with or without a sign. -/
inductive Decimal : List Char → Int → Prop
  | plain {ds : List Char} (some : ds ≠ []) (digits : ∀ c ∈ ds, c.isDigit = true) :
      Decimal ds (Nat.ofDigitChars 10 ds 0 : Nat)
  | plus {ds : List Char} (some : ds ≠ []) (digits : ∀ c ∈ ds, c.isDigit = true) :
      Decimal ('+' :: ds) (Nat.ofDigitChars 10 ds 0 : Nat)
  | minus {ds : List Char} (some : ds ≠ []) (digits : ∀ c ∈ ds, c.isDigit = true) :
      Decimal ('-' :: ds) (-(Nat.ofDigitChars 10 ds 0 : Nat))

/-- The name is `boot-` with the text of `rack`, a value of `int`. -/
def NamesRack (name : String) (rack : Int) : Prop :=
  ∃ cs, name.toList = "boot-".toList ++ cs ∧ Decimal cs rack ∧ IsInt rack

theorem digits?_eq_some {ds : List Char} {n : Nat} : digits? ds = some n ↔
    ds ≠ [] ∧ (∀ c ∈ ds, c.isDigit = true) ∧ Nat.ofDigitChars 10 ds 0 = n := by
  rw [digits?, Nat.ofDigitChars_eq_foldl]
  split
  next bad =>
    simp only [Bool.or_eq_true, List.isEmpty_iff, Bool.not_eq_true', List.all_eq_false] at bad
    refine iff_of_false (by simp) ?_
    rintro ⟨some, digits, -⟩
    rcases bad with none | ⟨c, member, other⟩
    · exact some none
    · exact other (digits c member)
  next good =>
    simp only [Bool.or_eq_true, List.isEmpty_iff, Bool.not_eq_true', not_or, Bool.not_eq_false,
      List.all_eq_true] at good
    rw [Option.some.injEq, and_iff_right good.1, and_iff_right good.2]

theorem digits_of_cast {ds : List Char} {k : Int}
    (read : (do let a ← digits? ds; pure (a : Int) : Option Int) = some k) :
    ds ≠ [] ∧ (∀ c ∈ ds, c.isDigit = true) ∧ (Nat.ofDigitChars 10 ds 0 : Nat) = k := by
  cases value : digits? ds with
  | none =>
    rw [value] at read
    cases read
  | some n =>
    rw [value] at read
    cases read
    obtain ⟨some, digits, rfl⟩ := digits?_eq_some.mp value
    exact ⟨some, digits, rfl⟩

theorem decimal_of_atoi {cs : List Char} {n : Int} (read : atoi cs = some n) :
    Decimal cs n ∧ IsInt n := by
  unfold atoi at read
  obtain ⟨m, signed, kept⟩ := Option.bind_eq_some_iff.mp read
  split at kept
  next int =>
    cases kept
    refine ⟨?_, int⟩
    split at signed <;> obtain ⟨k, value, rfl⟩ := Option.map_eq_some_iff.mp signed <;>
      obtain ⟨some, digits, rfl⟩ := digits_of_cast value
    · exact .minus some digits
    · exact .plus some digits
    · exact .plain some digits
  · cases kept

theorem atoi_plus {cs : List Char} {n : Nat} (value : digits? cs = some n) (int : IsInt n) :
    atoi ('+' :: cs) = some (n : Int) := by
  unfold atoi
  split
  next sign => cases sign
  next same =>
    cases same
    have signed : ((do let a ← digits? cs; pure (a : Int)) : Option Int).map (fun n => n) =
        some (n : Int) := by
      rw [value]
      rfl
    rw [signed]
    exact (Option.bind_some ..).trans (if_pos int)
  next other => exact absurd rfl (other cs)

theorem atoi_eq_some {cs : List Char} {n : Int} :
    atoi cs = some n ↔ Decimal cs n ∧ IsInt n := by
  refine ⟨decimal_of_atoi, ?_⟩
  rintro ⟨decimal, int⟩
  cases decimal with
  | plain some digits => exact atoi_digits (digits?_eq_some.mpr ⟨some, digits, rfl⟩) int
  | plus some digits => exact atoi_plus (digits?_eq_some.mpr ⟨some, digits, rfl⟩) int
  | minus some digits => exact atoi_minus (digits?_eq_some.mpr ⟨some, digits, rfl⟩) int

/-- The names that `selectDHCPServerAddr` accepts. -/
theorem rackOf_eq_ok {name : String} {rack : Int} :
    rackOf name = .ok rack ↔ NamesRack name rack := by
  unfold rackOf NamesRack
  split
  next cs named =>
    have cut : ∀ cs', name.toList = "boot-".toList ++ cs' ↔ cs' = cs := by
      intro cs'
      rw [named]
      exact ⟨fun same => ((List.append_right_inj "boot-".toList).mp same).symm,
        fun same => by rw [same]; rfl⟩
    simp only [cut, exists_eq_left, ← atoi_eq_some]
    cases atoi cs <;> simp
  next other =>
    refine iff_of_false (by simp) ?_
    rintro ⟨cs, named, -⟩
    exact other cs named

/-! ### The choice -/

/-- The number of a name, 0 for a name without one. -/
def numberOf (name : String) : Int := (rackOf name).toOption.getD 0

theorem mapM_rackOf {names : List String} (named : ∀ name ∈ names, ∃ rack, NamesRack name rack) :
    names.mapM rackOf = .ok (names.map numberOf) := by
  rw [Fallible.mapM_eq_ok, List.forall₂_map_right_iff, List.forall₂_same]
  intro name member
  obtain ⟨rack, names_⟩ := named name member
  have here : rackOf name = .ok rack := rackOf_eq_ok.mpr names_
  rw [numberOf, here]
  rfl

theorem mapM_rackOf_error {names : List String} {name : String} (member : name ∈ names)
    (malformed : ∀ rack, ¬ NamesRack name rack) : ∃ e, names.mapM rackOf = .error e := by
  rw [← Fallible.not_succeeds, Fallible.succeeds_mapM]
  intro all
  obtain ⟨rack, read⟩ := all name member
  exact malformed rack (rackOf_eq_ok.mp read)

/-- The rank of a number: how many are below it. -/
def rank (numbers : List Int) (rack : Int) : Nat := numbers.countP (· < rack)

/-- The address with the rank of a member, and none for the others. -/
def addressOf (numbers : List Int) (rack : Int) : String :=
  if rack ∈ numbers then
    dhcpServerAddressList.getD (rank numbers rack % dhcpServerAddressList.length) ""
  else ""

/-- A search in the sorted numbers finds a member at its rank. -/
theorem binarySearch_sorted (numbers : List Int) (rack : Int) :
    binarySearch (numbers.insertionSort (· ≤ ·)) rack =
      (rank numbers rack, decide (rack ∈ numbers)) := by
  have perm : (numbers.insertionSort (· ≤ ·)).Perm numbers := List.perm_insertionSort ..
  have sorted := List.pairwise_insertionSort (· ≤ ·) numbers
  generalize numbers.insertionSort (· ≤ ·) = l at perm sorted
  have position : BinarySearch.position l rack = rank numbers rack := by
    rw [BinarySearch.position_eq_countP sorted, rank, perm.countP_eq]
  have found : l[rank numbers rack]? = some rack ↔ rack ∈ numbers := by
    rw [rank, ← perm.countP_eq, BinarySearch.getElem?_countP sorted, perm.mem_iff]
  rw [binarySearch, position]
  exact Prod.ext rfl (decide_eq_decide.mpr found)

theorem selectDHCPServerAddr_eq {names : List String} {numbers : List Int}
    (read : names.mapM rackOf = .ok numbers) {rack : Int} (nonneg : 0 ≤ rack) :
    selectDHCPServerAddr names rack = .ok (addressOf numbers rack) := by
  have searched := binarySearch_sorted numbers rack
  simp only [selectDHCPServerAddr, if_neg (not_lt.mpr nonneg), read, bind, Except.bind, searched,
    addressOf]
  by_cases member : rack ∈ numbers
  · simp only [member, decide_true, if_true]
    rfl
  · simp only [member, decide_false, if_false]
    rfl

/-! ### Ranks -/

section Ranks

variable {numbers : List Int}

/-- In the sorted numbers a member stands at its rank. -/
theorem getElem?_rank {rack : Int} (member : rack ∈ numbers) :
    (numbers.insertionSort (· ≤ ·))[rank numbers rack]? = some rack := by
  have found := congrArg Prod.snd (binarySearch_sorted numbers rack)
  have position := congrArg Prod.fst (binarySearch_sorted numbers rack)
  simp only [binarySearch, decide_eq_decide] at found position
  rw [← position]
  exact found.mpr member

theorem rank_lt {rack : Int} (member : rack ∈ numbers) : rank numbers rack < numbers.length := by
  obtain ⟨inside, -⟩ := List.getElem?_eq_some_iff.mp (getElem?_rank member)
  rwa [List.length_insertionSort] at inside

theorem rank_injective {rack rack' : Int} (member : rack ∈ numbers) (member' : rack' ∈ numbers)
    (same : rank numbers rack = rank numbers rack') : rack = rack' := by
  have here := getElem?_rank member
  rw [same, getElem?_rank member'] at here
  exact (Option.some.inj here).symm

/-- The ranks of distinct numbers are the numbers from 0 on. -/
theorem map_rank_perm (distinct : numbers.Nodup) :
    (numbers.map (rank numbers)).Perm (List.range numbers.length) := by
  have nodup : (numbers.map (rank numbers)).Nodup :=
    distinct.map_on fun _ member _ member' => rank_injective member member'
  refine (List.subperm_of_subset nodup ?_).perm_of_length_le (by simp)
  intro k member
  obtain ⟨rack, here, rfl⟩ := List.mem_map.mp member
  exact List.mem_range.mpr (rank_lt here)

/-- How many of the first numbers have the remainder `k`. -/
theorem countP_range_mod {k : Nat} (small : k < 5) (m : Nat) :
    (List.range m).countP (· % 5 = k) = (m + 4 - k) / 5 := by
  induction m with
  | zero =>
    rw [List.range_zero, List.countP_nil]
    omega
  | succ m ih =>
    rw [List.range_succ, List.countP_append, ih, List.countP_singleton]
    split
    next last =>
      have last : m % 5 = k := of_decide_eq_true last
      omega
    next other =>
      have other : m % 5 ≠ k := fun same => other (decide_eq_true same)
      omega

end Ranks

/-! ### Addresses -/

/-- Different places of the list hold different addresses. -/
theorem getD_addressList_inj {i j : Nat} (inside : i < 5) (inside' : j < 5) :
    dhcpServerAddressList.getD i "" = dhcpServerAddressList.getD j "" ↔ i = j := by
  have distinct : dhcpServerAddressList.Nodup := by decide
  rw [List.getD_eq_getElem _ _ inside, List.getD_eq_getElem _ _ inside']
  exact distinct.getElem_inj_iff

theorem getD_addressList_mem {i : Nat} (inside : i < 5) :
    dhcpServerAddressList.getD i "" ∈ dhcpServerAddressList := by
  rw [List.getD_eq_getElem _ _ inside]
  exact List.getElem_mem _

theorem addressOf_member {numbers : List Int} {rack : Int} (member : rack ∈ numbers) :
    addressOf numbers rack = dhcpServerAddressList.getD (rank numbers rack % 5) "" := if_pos member

/-- The members that get the `k`-th address. -/
theorem countP_addressOf {numbers : List Int} (distinct : numbers.Nodup) {k : Nat} (small : k < 5) :
    numbers.countP (addressOf numbers · = dhcpServerAddressList.getD k "") =
      (numbers.length + 4 - k) / 5 := by
  have ranked : numbers.countP (addressOf numbers · = dhcpServerAddressList.getD k "") =
      (numbers.map (rank numbers)).countP (· % 5 = k) := by
    rw [List.countP_map]
    refine List.countP_congr fun rack member => ?_
    rw [decide_eq_true_iff, addressOf_member member,
      getD_addressList_inj (Nat.mod_lt _ (by decide)) small]
    exact decide_eq_true_iff.symm
  rw [ranked, (map_rank_perm distinct).countP_eq, countP_range_mod small]

/-- What the choice is like for members with the names `names` and the numbers `numbers`. -/
structure Shared (names : List String) (numbers : List Int) : Prop where
  /-- The members get an address, and the other racks get none. -/
  members : ∀ rack, 0 ≤ rack →
    ((∃ a ∈ dhcpServerAddressList, selectDHCPServerAddr names rack = .ok a) ↔ rack ∈ numbers)
  others : ∀ rack, 0 ≤ rack → rack ∉ numbers → selectDHCPServerAddr names rack = .ok ""
  agreed : ∀ names' : List String, names'.Perm names → ∀ rack, 0 ≤ rack →
    selectDHCPServerAddr names' rack = selectDHCPServerAddr names rack
  congruent : ∀ r ∈ numbers, ∀ r' ∈ numbers,
    selectDHCPServerAddr names r = selectDHCPServerAddr names r' ↔
      rank numbers r ≡ rank numbers r' [MOD dhcpServerAddressList.length]
  balanced : ∀ a ∈ dhcpServerAddressList, ∀ b ∈ dhcpServerAddressList,
    numbers.countP (selectDHCPServerAddr names · = .ok a) ≤
      numbers.countP (selectDHCPServerAddr names · = .ok b) + 1
  distinct : numbers.length ≤ 5 → (numbers.map (selectDHCPServerAddr names)).Nodup

theorem eq_map_numberOf {names : List String} {numbers : List Int}
    (named : List.Forall₂ NamesRack names numbers) : numbers = names.map numberOf := by
  induction named with
  | nil => rfl
  | cons first _ ih =>
    rw [List.map_cons, ← ih, numberOf, rackOf_eq_ok.mpr first]
    rfl

theorem shared_of_named {names : List String} {numbers : List Int}
    (named : List.Forall₂ NamesRack names numbers) (nonneg : ∀ r ∈ numbers, 0 ≤ r)
    (distinct : numbers.Nodup) : Shared names numbers := by
  -- every name is read, so the address depends on the numbers only
  have wellFormed : ∀ name ∈ names, ∃ rack, NamesRack name rack := by
    intro name member
    obtain ⟨i, inside, rfl⟩ := List.mem_iff_getElem.mp member
    exact ⟨_, List.forall₂_iff_get.mp named |>.2 i inside (named.length_eq ▸ inside)⟩
  have select {rack : Int} (from_ : 0 ≤ rack) :
      selectDHCPServerAddr names rack = .ok (addressOf numbers rack) := by
    rw [selectDHCPServerAddr_eq (mapM_rackOf wellFormed) from_, eq_map_numberOf named]
  have selected : ∀ r ∈ numbers, selectDHCPServerAddr names r =
      .ok (dhcpServerAddressList.getD (rank numbers r % 5) "") := fun r member => by
    rw [select (nonneg r member), addressOf_member member]
  have same : ∀ r ∈ numbers, ∀ r' ∈ numbers,
      selectDHCPServerAddr names r = selectDHCPServerAddr names r' ↔
        rank numbers r % 5 = rank numbers r' % 5 := fun r member r' member' => by
    rw [selected r member, selected r' member', Except.ok.injEq,
      getD_addressList_inj (Nat.mod_lt _ (by decide)) (Nat.mod_lt _ (by decide))]
  constructor
  case members =>
    intro rack from_
    rw [select from_]
    constructor
    · -- a rack that is not listed gets the empty address, which is none of the five
      rintro ⟨a, member, given⟩
      by_contra other
      rw [addressOf, if_neg other] at given
      cases given
      revert member
      decide
    · intro member
      rw [addressOf_member member]
      exact ⟨_, getD_addressList_mem (Nat.mod_lt _ (by decide)), rfl⟩
  case others =>
    intro rack from_ other
    rw [select from_, addressOf, if_neg other]
  case agreed =>
    intro names' perm rack from_
    have reordered : (names'.map numberOf).Perm (names.map numberOf) := perm.map numberOf
    rw [selectDHCPServerAddr_eq (mapM_rackOf wellFormed) from_, selectDHCPServerAddr_eq
      (mapM_rackOf fun name member => wellFormed name (perm.subset member)) from_]
    simp only [addressOf, rank, reordered.mem_iff, reordered.countP_eq]
  case congruent => exact same
  case balanced =>
    have counted {k : Nat} (small : k < 5) : numbers.countP
        (selectDHCPServerAddr names · = .ok (dhcpServerAddressList.getD k "")) =
          (numbers.length + 4 - k) / 5 := by
      rw [← countP_addressOf distinct small]
      refine List.countP_congr fun rack member => ?_
      simp only [select (nonneg rack member), Except.ok.injEq]
    intro a here b there
    obtain ⟨i, inside, rfl⟩ := List.mem_iff_getElem.mp here
    obtain ⟨j, inside', rfl⟩ := List.mem_iff_getElem.mp there
    rw [← List.getD_eq_getElem _ "" inside, ← List.getD_eq_getElem _ "" inside',
      counted inside, counted inside']
    have : i < 5 := inside
    have : j < 5 := inside'
    omega
  case distinct =>
    intro few
    refine distinct.map_on fun r member r' member' equal => rank_injective member member' ?_
    have bound := rank_lt member
    have bound' := rank_lt member'
    have congruent := (same r member r' member').mp equal
    omega

/-- Servers that see the same members, in any order, choose alike; the members share the
addresses evenly by their ranks; and one malformed name is an error for every rack. -/
theorem dhcp_addresses_shared :
    (∀ (names : List String) (numbers : List Int), List.Forall₂ NamesRack names numbers →
      (∀ r ∈ numbers, 0 ≤ r) → numbers.Nodup → Shared names numbers) ∧
    ∀ (names : List String) (name : String), name ∈ names → (∀ rack, ¬ NamesRack name rack) →
      ∀ rack, ∃ e, selectDHCPServerAddr names rack = .error e := by
  refine ⟨fun names numbers => shared_of_named, fun names name member malformed rack => ?_⟩
  obtain ⟨e, failed⟩ := mapM_rackOf_error member malformed
  by_cases negative : rack < 0
  · exact ⟨.invalidRack rack, by simp only [selectDHCPServerAddr, if_pos negative]; rfl⟩
  · exact ⟨e, by simp only [selectDHCPServerAddr, if_neg negative, failed]; rfl⟩

/-- Seven members, as they are named in a test of the source. -/
theorem dhcp_addresses_sevenMembers :
    Shared ["boot-1", "boot-100", "boot-5", "boot-9", "boot-10", "boot-99", "boot-999"]
        [1, 100, 5, 9, 10, 99, 999] ∧
      ∃ e, selectDHCPServerAddr ["boot-0", "invalid-name", "boot-2"] 0 = .error e := by
  have named (name : String) (rack : Int) (read : rackOf name = .ok rack) : NamesRack name rack :=
    rackOf_eq_ok.mp read
  refine ⟨dhcp_addresses_shared.1 _ _ ?_ (by decide) (by decide),
    dhcp_addresses_shared.2 _ "invalid-name" (by decide) (fun rack wellFormed => ?_) 0⟩
  · exact .cons (named _ _ (by decide)) (.cons (named _ _ (by decide))
      (.cons (named _ _ (by decide)) (.cons (named _ _ (by decide)) (.cons (named _ _ (by decide))
        (.cons (named _ _ (by decide)) (.cons (named _ _ (by decide)) .nil))))))
  · have malformed : rackOf "invalid-name" = .error (.notBoot "invalid-name") := by decide
    cases malformed.symm.trans (rackOf_eq_ok.mpr wellFormed)

/-! ### One round -/

/-- An address is chosen from the list. -/
theorem selected_mem {names : List String} {rack : Int} {address : String}
    (selected : selectDHCPServerAddr names rack = .ok address) (some : address ≠ "") :
    address ∈ dhcpServerAddressList := by
  by_cases negative : rack < 0
  · simp only [selectDHCPServerAddr, if_pos negative] at selected
    cases selected
  cases read : names.mapM rackOf with
  | error e =>
    simp only [selectDHCPServerAddr, if_neg negative, read] at selected
    cases selected
  | ok numbers =>
    rw [selectDHCPServerAddr_eq read (not_lt.mp negative), addressOf] at selected
    split at selected <;> cases selected
    · exact getD_addressList_mem (Nat.mod_lt _ (by decide))
    · exact absurd rfl some

/-- What a server with this address has on its interface. -/
theorem wanted_text {names : List String} {rack : Int} {address : String}
    (selected : selectDHCPServerAddr names rack = .ok address) :
    ∃ wanted : List IPv4.Addr, wanted.Nodup ∧ wanted.map IPv4.text =
      if address ≠ "" then [address, virtualIPAddrActiveBootServer] else [] := by
  by_cases some : address ≠ ""
  · rw [if_pos some]
    have listed : ∀ a ∈ dhcpServerAddressList, ∃ ip : IPv4.Addr, a = IPv4.text ip ∧
        ip ≠ 0x0a47ff06#32 := by
      have texts : dhcpServerAddressList = [0x0a47ff01#32, 0x0a47ff02#32, 0x0a47ff03#32,
          0x0a47ff04#32, 0x0a47ff05#32].map IPv4.text := by decide
      rw [texts]
      intro a member
      obtain ⟨ip, here, rfl⟩ := List.mem_map.mp member
      refine ⟨ip, rfl, ?_⟩
      rintro rfl
      revert here
      decide
    obtain ⟨ip, rfl, other⟩ := listed address (selected_mem selected some)
    exact ⟨[ip, 0x0a47ff06#32], by simpa using other, rfl⟩
  · rw [if_neg some]
    exact ⟨[], List.nodup_nil, rfl⟩

/-- A round with a reply of etcd succeeds and settles the link at the address of the server. -/
theorem runOnce_settles (n : NetworkInterface) {l : Link} (slash32 : ∀ a ∈ l.addrs, a.ones = 32)
    {names : List String} {rack : Int} {address : String}
    (selected : selectDHCPServerAddr names rack = .ok address) (errorCounter : Nat) :
    ∃ wanted final, wanted.map IPv4.text =
        (if address ≠ "" then [address, virtualIPAddrActiveBootServer] else []) ∧
      (runOnce n (.ok names) rack errorCounter).runOn Link.respond l = (.ok errorCounter, final) ∧
      Settled wanted final := by
  obtain ⟨wanted, distinct, texts⟩ := wanted_text selected
  obtain ⟨final, accepted, settled⟩ := decideOps_accepted slash32 distinct
  refine ⟨wanted, final, texts, ?_, settled⟩
  have listed : n.listAddrs.attempt.runOn Link.respond l = (.ok (.ok l.listed), l) := by
    rw [Program.Prog.runOn_attempt, runOn_listAddrs]
  have ran : (n.runOps (decideOps l.listed (wanted.map IPv4.text))).attempt.runOn Link.respond l =
      (.ok (.ok ()), final) := by
    rw [Program.Prog.runOn_attempt, runOps_accepted n accepted]
  simp only [runOnce, selected, ← texts]
  rw [Program.Prog.runOn_bind listed, Program.Prog.runOn_bind ran]
  rfl

end Neco.BootIPSetter
