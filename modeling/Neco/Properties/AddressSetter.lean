import Neco.BootIPSetter.IP
import Mathlib.Data.String.Basic

/-!
# The address setter converges

From any addresses of a link, the operations that `decideOps` chooses are all accepted and end
with the wanted addresses. A run that stops anywhere leaves a link from which the next one ends
in the same state, and no address that was there and is wanted is missing in between.
-/

namespace Neco.BootIPSetter

open Program (Prog)

/-! ### Operations that a link accepts -/

/-- The link without addresses. -/
def Link.clear (l : Link) : Link := ⟨l.isUp, [], List.nodup_nil⟩

/-- The link accepts the operation and is then `l'`. -/
inductive Accepted : Op → Link → Link → Prop
  | up (l : Link) : Accepted .up l { l with isUp := true }
  | down (l : Link) : Accepted .down l { l with isUp := false }
  | add {a : IPv4.Addr} {l : Link} (absent : ⟨a, 32⟩ ∉ l.addrs) :
      Accepted (.add (IPv4.text a)) l (l.add ⟨a, 32⟩)
  | delete {a : IPv4.Addr} {l : Link} (present : ⟨a, 32⟩ ∈ l.addrs) :
      Accepted (.delete (IPv4.text a)) l (l.remove ⟨a, 32⟩)
  | deleteAll (l : Link) : Accepted .deleteAll l l.clear

inductive AcceptedAll : List Op → Link → Link → Prop
  | nil (l : Link) : AcceptedAll [] l l
  | cons {op : Op} {ops : List Op} {l m l' : Link} (first : Accepted op l m)
      (rest : AcceptedAll ops m l') : AcceptedAll (op :: ops) l l'

/-- Addresses of `s` come from `l` or `l'`, and those of both are in `s`. -/
structure Between (l l' s : Link) : Prop where
  only : ∀ a ∈ s.addrs, a ∈ l.addrs ∨ a ∈ l'.addrs
  both : ∀ a ∈ l.addrs, a ∈ l'.addrs → a ∈ s.addrs

theorem Between.left (l l' : Link) : Between l l' l := ⟨fun _ => .inl, fun _ member _ => member⟩

theorem Between.right (l l' : Link) : Between l l' l' := ⟨fun _ => .inr, fun _ _ member => member⟩

section Run

variable (n : NetworkInterface)

/-- The loop of `DeleteAllAddr`. -/
def NetworkInterface.deleteEach (addrList : List IfAddr) : Prog Unit :=
  addrList.foldlM (fun _ a => do
    orFail ("failed to delete " ++ IPv4.text a.ip ++ " from " ++ n.linkName)
      (← ask (.addrDel a))) ()

theorem deleteEach_accepted {addrList : List IfAddr} (nodup : addrList.Nodup) : ∀ {l : Link},
    (∀ a ∈ addrList, a ∈ l.addrs) →
    (n.deleteEach addrList).runOn Link.respond l =
        (.ok (), addrList.foldl (fun l a => l.remove a) l) ∧
      ∀ s, (n.deleteEach addrList).Passes Link.respond l s → ∀ a ∈ s.addrs, a ∈ l.addrs := by
  induction addrList with
  | nil =>
    rintro l -
    refine ⟨rfl, ?_⟩
    rintro s rfl a member
    exact member
  | cons a rest ih =>
    intro l present
    obtain ⟨apart, nodup⟩ := List.nodup_cons.mp nodup
    have accepted : Link.respond (.addrDel a) l = (.ok (), l.remove a) :=
      if_pos (present a (List.mem_cons_self ..))
    -- the others are still there when it is gone
    obtain ⟨ran, passed⟩ := ih nodup (l := l.remove a) fun b member =>
      Link.mem_remove.mpr ⟨present b (List.mem_cons_of_mem a member), fun same =>
        apart (same ▸ member)⟩
    have step : n.deleteEach (a :: rest) = ask (.addrDel a) >>= fun r =>
        orFail ("failed to delete " ++ IPv4.text a.ip ++ " from " ++ n.linkName) r >>= fun _ =>
          n.deleteEach rest := rfl
    rw [step]
    constructor
    · change ((orFail _ (Link.respond (.addrDel a) l).1 >>= _).runOn Link.respond
        (Link.respond (.addrDel a) l).2) = _
      rw [accepted]
      exact ran
    · rintro s (rfl | later)
      · exact fun b member => member
      · rw [accepted] at later
        exact fun b member => (Link.mem_remove.mp (passed s later b member)).1

theorem addrs_foldl_remove (addrList : List IfAddr) (l : Link) :
    (addrList.foldl (fun l a => l.remove a) l).isUp = l.isUp ∧
      (addrList.foldl (fun l a => l.remove a) l).addrs = l.addrs.filter (· ∉ addrList) := by
  induction addrList generalizing l with
  | nil => simp
  | cons a rest ih =>
    obtain ⟨up, addrs⟩ := ih (l.remove a)
    refine ⟨up, ?_⟩
    rw [List.foldl_cons, addrs, Link.remove, List.filter_filter]
    refine List.filter_congr fun b _ => ?_
    by_cases same : b = a <;> simp [same]

theorem foldl_remove_addrs (l : Link) : l.addrs.foldl (fun l a => l.remove a) l = l.clear := by
  obtain ⟨up, addrs⟩ := addrs_foldl_remove l.addrs l
  have none : l.addrs.filter (· ∉ l.addrs) = [] := by simp
  rw [none] at addrs
  generalize l.addrs.foldl (fun l a => l.remove a) l = cleared at up addrs
  obtain ⟨isUp, list, nodup⟩ := cleared
  subst up addrs
  rfl

/-- A method that finds the link and makes one request, which is accepted. -/
theorem request_accepted (request : Netlink) (later : request.Reply → Prog Unit) {l l' : Link}
    (replied : later (Link.respond request l).1 = .ret ()) (after : (Link.respond request l).2 = l') :
    (n.findLink >>= fun _ => ask request >>= later).runOn Link.respond l = (.ok (), l') ∧
      ∀ s, (n.findLink >>= fun _ => ask request >>= later).Passes Link.respond l s →
        Between l l' s := by
  constructor
  · change (later (Link.respond request l).1).runOn Link.respond (Link.respond request l).2 = _
    rw [replied, after]
    rfl
  · rintro s (rfl | rfl | last)
    · exact .left ..
    · exact .left ..
    · change (later (Link.respond request l).1).Passes Link.respond
        (Link.respond request l).2 s at last
      rw [replied, after] at last
      cases last
      exact .right ..

/-- An accepted operation succeeds, and addresses that stay are there all the time. -/
theorem runOp_accepted {op : Op} {l l' : Link} (accepted : Accepted op l l') :
    (n.runOp op).runOn Link.respond l = (.ok (), l') ∧
      ∀ s, (n.runOp op).Passes Link.respond l s → Between l l' s := by
  cases accepted with
  | up => exact request_accepted n .linkSetUp (orFail _) rfl rfl
  | down => exact request_accepted n .linkSetDown (orFail _) rfl rfl
  | @add a l absent =>
    have added : Link.respond (.addrAdd ⟨a, 32⟩) l = (.ok (), l.add ⟨a, 32⟩) := if_neg absent
    simp only [NetworkInterface.runOp, NetworkInterface.addAddr, n.netlink.parseAddr_text]
    exact request_accepted n (.addrAdd ⟨a, 32⟩) (orFail _) (by rw [added]; rfl) (by rw [added])
  | @delete a l present =>
    have deleted : Link.respond (.addrDel ⟨a, 32⟩) l = (.ok (), l.remove ⟨a, 32⟩) := if_pos present
    simp only [NetworkInterface.runOp, NetworkInterface.deleteAddr, n.netlink.parseAddr_text]
    exact request_accepted n (.addrDel ⟨a, 32⟩) (orFail _) (by rw [deleted]; rfl) (by rw [deleted])
  | deleteAll =>
    obtain ⟨ran, passed⟩ := deleteEach_accepted n l.nodup fun _ member => member
    constructor
    · rw [← foldl_remove_addrs]
      exact ran
    · rintro s (rfl | rfl | later)
      · exact .left ..
      · exact .left ..
      · refine ⟨fun a member => .inl (passed s later a member), fun a _ member => ?_⟩
        cases member

/-! ### Runs of several operations -/

theorem runOps_cons (op : Op) (ops : List Op) : n.runOps (op :: ops) =
    (n.runOp op).attempt >>= fun r =>
      orFail ("failed to run operation " ++ op.text) r >>= fun _ => n.runOps ops := by
  rw [NetworkInterface.runOps, List.foldlM_cons, Prog.bind_assoc]
  rfl

theorem runOps_accepted {ops : List Op} {l l' : Link} (accepted : AcceptedAll ops l l') :
    (n.runOps ops).runOn Link.respond l = (.ok (), l') := by
  induction accepted with
  | nil => rfl
  | @cons op ops l m l' first rest ih =>
    have ran : (n.runOp op).attempt.runOn Link.respond l = (.ok (.ok ()), m) := by
      rw [Prog.runOn_attempt, (runOp_accepted n first).1]
    rw [runOps_cons, Prog.runOn_bind ran]
    exact ih

/-- The addresses have masks of 32 bits, and those of `kept` are there. -/
structure Good (kept : List IfAddr) (l : Link) : Prop where
  slash32 : ∀ a ∈ l.addrs, a.ones = 32
  kept : ∀ a ∈ kept, a ∈ l.addrs

theorem Good.between {kept : List IfAddr} {l l' s : Link} (before : Good kept l)
    (after : Good kept l') (between : Between l l' s) : Good kept s :=
  ⟨fun a member => (between.only a member).elim (before.slash32 a) (after.slash32 a),
    fun a member => between.both a (before.kept a member) (after.kept a member)⟩

/-- The operation deletes none of the addresses. -/
def Op.spares (kept : List IfAddr) : Op → Prop
  | delete address => ∀ a ∈ kept, IPv4.text a.ip ≠ address
  | deleteAll => kept = []
  | _ => True

theorem Good.accepted {kept : List IfAddr} {op : Op} {l l' : Link} (good : Good kept l)
    (spares : op.spares kept) (accepted : Accepted op l l') : Good kept l' := by
  cases accepted with
  | up => exact ⟨good.slash32, good.kept⟩
  | down => exact ⟨good.slash32, good.kept⟩
  | add absent =>
    refine ⟨fun b member => ?_, fun b member => Link.mem_add.mpr (.inl (good.kept b member))⟩
    rcases Link.mem_add.mp member with old | rfl
    · exact good.slash32 b old
    · rfl
  | delete present =>
    refine ⟨fun b member => good.slash32 b (Link.mem_remove.mp member).1, fun b member => ?_⟩
    refine Link.mem_remove.mpr ⟨good.kept b member, ?_⟩
    rintro rfl
    exact spares _ member rfl
  | deleteAll =>
    cases spares
    exact ⟨List.forall_mem_nil _, List.forall_mem_nil _⟩

/-- In every state of a run the masks have 32 bits and what no operation deletes is there. -/
theorem passes_runOps {kept : List IfAddr} {ops : List Op} {l l' s : Link}
    (accepted : AcceptedAll ops l l') (good : Good kept l) (spares : ∀ op ∈ ops, op.spares kept)
    (passes : (n.runOps ops).Passes Link.respond l s) : Good kept s := by
  induction accepted with
  | nil =>
    cases passes
    exact good
  | @cons op ops l m l' first rest ih =>
    obtain ⟨ran, between⟩ := runOp_accepted n first
    have next : Good kept m := good.accepted (spares op (List.mem_cons_self ..)) first
    rw [runOps_cons] at passes
    rcases Prog.passes_bind passes with during | ⟨r, returned, later⟩
    · exact good.between next (between s (Prog.passes_attempt.mp during))
    · rw [Prog.runOn_attempt, ran] at returned later
      cases returned
      exact ih next (fun op member => spares op (List.mem_cons_of_mem _ member)) later

theorem runOps_append (done rest : List Op) :
    n.runOps (done ++ rest) = n.runOps done >>= fun _ => n.runOps rest := by
  rw [NetworkInterface.runOps, List.foldlM_append]
  rfl

end Run

/-! ### The operations that are decided -/

/-- What `ListAddrs` returns. -/
def Link.listed (l : Link) : List String :=
  (l.addrs.map fun a => IPv4.text a.ip).insertionSort (· ≤ ·)

theorem runOn_listAddrs (n : NetworkInterface) (l : Link) :
    n.listAddrs.runOn Link.respond l = (.ok l.listed, l) := rfl

theorem Link.mem_listed {l : Link} {address : String} :
    address ∈ l.listed ↔ ∃ a ∈ l.addrs, IPv4.text a.ip = address := by
  rw [Link.listed, (List.perm_insertionSort ..).mem_iff, List.mem_map]

/-- The address is on the link with a mask of 32 bits. -/
theorem Link.text_mem_listed {l : Link} (slash32 : ∀ a ∈ l.addrs, a.ones = 32) {ip : IPv4.Addr} :
    IPv4.text ip ∈ l.listed ↔ ⟨ip, 32⟩ ∈ l.addrs := by
  rw [Link.mem_listed]
  constructor
  · rintro ⟨⟨ip', ones⟩, member, same⟩
    cases slash32 _ member
    cases IPv4.text_injective same
    exact member
  · intro member
    exact ⟨_, member, rfl⟩

theorem Link.nodup_listed {l : Link} (slash32 : ∀ a ∈ l.addrs, a.ones = 32) : l.listed.Nodup := by
  refine (List.perm_insertionSort ..).nodup_iff.mpr (l.nodup.map_on ?_)
  rintro ⟨ip, ones⟩ member ⟨ip', ones'⟩ member' same
  cases slash32 _ member
  cases slash32 _ member'
  cases IPv4.text_injective same
  rfl

/-- Addresses that are not there are accepted one after another. -/
theorem acceptedAll_add {addresses : List String} (nodup : addresses.Nodup) : ∀ {l : Link},
    (∀ address ∈ addresses, ∃ ip, address = IPv4.text ip ∧ ⟨ip, 32⟩ ∉ l.addrs) →
    ∃ l', AcceptedAll (addresses.map .add) l l' ∧ l'.isUp = l.isUp ∧
      ∀ a, a ∈ l'.addrs ↔ a ∈ l.addrs ∨ a.ones = 32 ∧ IPv4.text a.ip ∈ addresses := by
  induction addresses with
  | nil =>
    rintro l -
    exact ⟨l, .nil l, rfl, by simp⟩
  | cons address rest ih =>
    intro l absent
    obtain ⟨apart, others⟩ := List.nodup_cons.mp nodup
    obtain ⟨ip, rfl, free⟩ := absent address (List.mem_cons_self ..)
    -- the others are still absent when this one is there
    obtain ⟨l', accepted, up, addrs⟩ := ih others (l := l.add ⟨ip, 32⟩) fun other member => by
      obtain ⟨ip', rfl, free'⟩ := absent other (List.mem_cons_of_mem _ member)
      refine ⟨ip', rfl, fun present => ?_⟩
      rcases Link.mem_add.mp present with old | new
      · exact free' old
      · cases new
        exact apart member
    -- texts tell addresses of one length apart
    refine ⟨l', .cons (.add free) accepted, by rw [up, Link.add_isUp], fun a => ?_⟩
    rw [addrs, Link.mem_add, List.mem_cons, or_assoc, and_or_left]
    refine or_congr_right (or_congr_left ?_)
    constructor
    · rintro rfl
      exact ⟨rfl, rfl⟩
    · obtain ⟨ip', ones⟩ := a
      rintro ⟨rfl, same⟩
      cases IPv4.text_injective same
      rfl

/-- Addresses that are there are accepted to be deleted one after another. -/
theorem acceptedAll_delete {addresses : List String} (nodup : addresses.Nodup) : ∀ {l : Link},
    (∀ a ∈ l.addrs, a.ones = 32) →
    (∀ address ∈ addresses, ∃ ip, address = IPv4.text ip ∧ ⟨ip, 32⟩ ∈ l.addrs) →
    ∃ l', AcceptedAll (addresses.map .delete) l l' ∧ l'.isUp = l.isUp ∧
      ∀ a, a ∈ l'.addrs ↔ a ∈ l.addrs ∧ IPv4.text a.ip ∉ addresses := by
  induction addresses with
  | nil =>
    rintro l - -
    exact ⟨l, .nil l, rfl, by simp⟩
  | cons address rest ih =>
    intro l slash32 present
    obtain ⟨apart, others⟩ := List.nodup_cons.mp nodup
    obtain ⟨ip, rfl, there⟩ := present address (List.mem_cons_self ..)
    have rest32 : ∀ a ∈ (l.remove ⟨ip, 32⟩).addrs, a.ones = 32 := fun a member =>
      slash32 a (Link.mem_remove.mp member).1
    obtain ⟨l', accepted, up, addrs⟩ := ih others rest32 fun other member => by
      obtain ⟨ip', rfl, there'⟩ := present other (List.mem_cons_of_mem _ member)
      refine ⟨ip', rfl, Link.mem_remove.mpr ⟨there', fun same => ?_⟩⟩
      cases same
      exact apart member
    refine ⟨l', .cons (.delete there) accepted, up, fun a => ?_⟩
    rw [addrs, Link.mem_remove, List.mem_cons, not_or, and_assoc]
    refine and_congr_right fun member => and_congr_left fun _ => not_congr ?_
    constructor
    · rintro rfl
      rfl
    · intro same
      obtain ⟨ip', ones⟩ := a
      cases slash32 _ member
      cases IPv4.text_injective same
      rfl

theorem AcceptedAll.append {ops ops' : List Op} {l m l' : Link} (first : AcceptedAll ops l m)
    (later : AcceptedAll ops' m l') : AcceptedAll (ops ++ ops') l l' := by
  induction first with
  | nil => exact later
  | cons accepted _ ih => exact .cons accepted (ih later)

/-- The link has the wanted addresses and no others, and it is up unless there are none. -/
structure Settled (wanted : List IPv4.Addr) (l : Link) : Prop where
  addrs : ∀ a, a ∈ l.addrs ↔ a.ip ∈ wanted ∧ a.ones = 32
  isUp : l.isUp = true ↔ wanted ≠ []

theorem decideOps_accepted {l : Link} (slash32 : ∀ a ∈ l.addrs, a.ones = 32)
    {wanted : List IPv4.Addr} (distinct : wanted.Nodup) :
    ∃ l', AcceptedAll (decideOps l.listed (wanted.map IPv4.text)) l l' ∧ Settled wanted l' := by
  by_cases empty : wanted = []
  · subst empty
    refine ⟨{ l.clear with isUp := false }, .cons (.deleteAll l) (.cons (.down _) (.nil _)), ?_⟩
    exact ⟨by simp [Link.clear], by simp⟩
  have text_mem {ip : IPv4.Addr} : IPv4.text ip ∈ wanted.map IPv4.text ↔ ip ∈ wanted :=
    List.mem_map_of_injective IPv4.text_injective
  rw [decideOps, if_neg (by simpa using empty)]
  -- the missing addresses are added first
  obtain ⟨added, adds, up, grown⟩ := acceptedAll_add (l := { l with isUp := true })
    (((List.nodup_map_iff IPv4.text_injective).mpr distinct).filter (· ∉ l.listed))
    (fun address member => by
      obtain ⟨here, absent⟩ := List.mem_filter.mp member
      obtain ⟨ip, _, rfl⟩ := List.mem_map.mp here
      refine ⟨ip, rfl, fun present => ?_⟩
      exact of_decide_eq_true absent ((Link.text_mem_listed slash32).mpr present))
  have added32 : ∀ a ∈ added.addrs, a.ones = 32 := fun a member =>
    ((grown a).mp member).elim (slash32 a) And.left
  -- then the other addresses are deleted
  obtain ⟨l', deletes, up', shrunk⟩ := acceptedAll_delete
    ((Link.nodup_listed slash32).filter (· ∉ wanted.map IPv4.text)) added32
    (fun address member => by
      obtain ⟨a, present, rfl⟩ := Link.mem_listed.mp (List.mem_filter.mp member).1
      refine ⟨a.ip, rfl, (grown _).mpr (.inl ?_)⟩
      exact (Link.text_mem_listed slash32).mp (Link.mem_listed.mpr ⟨a, present, rfl⟩))
  refine ⟨l', .cons (.up l) (adds.append deletes), fun a => ?_, ?_⟩
  · have there : a ∈ l.addrs → IPv4.text a.ip ∈ l.listed ∧ a.ones = 32 := fun member =>
      ⟨Link.mem_listed.mpr ⟨a, member, rfl⟩, slash32 a member⟩
    have back : IPv4.text a.ip ∈ l.listed → a.ones = 32 → a ∈ l.addrs := by
      obtain ⟨ip, ones⟩ := a
      rintro listed rfl
      exact (Link.text_mem_listed slash32).mp listed
    simp only [shrunk, grown, List.mem_filter, decide_eq_true_iff, text_mem]
    tauto
  · rw [up', up]
    simpa using empty

/-- None of the operations deletes a wanted address. -/
theorem decideOps_spares (current : List String) (wanted : List IPv4.Addr) (addrs : List IfAddr) :
    ∀ op ∈ decideOps current (wanted.map IPv4.text),
      op.spares (addrs.filter fun a => a.ip ∈ wanted) := by
  intro op member
  rw [decideOps] at member
  split at member
  next empty =>
    have none : wanted = [] := by simpa using empty
    rcases List.mem_cons.mp member with rfl | last
    · simp [Op.spares, none]
    · cases List.mem_singleton.mp last
      trivial
  · rcases List.mem_cons.mp member with rfl | later
    · trivial
    rcases List.mem_append.mp later with add | delete
    · obtain ⟨address, _, rfl⟩ := List.mem_map.mp add
      trivial
    · obtain ⟨address, unwanted, rfl⟩ := List.mem_map.mp delete
      rintro a kept rfl
      have wants : a.ip ∈ wanted := of_decide_eq_true (List.mem_filter.mp kept).2
      exact of_decide_eq_true (List.mem_filter.mp unwanted).2 (List.mem_map_of_mem wants)

/-- The same addresses, in any order, and the same state of the link. -/
structure Link.Same (l l' : Link) : Prop where
  addrs : l.addrs.Perm l'.addrs
  isUp : l.isUp = l'.isUp

theorem Settled.same {wanted : List IPv4.Addr} {l l' : Link} (first : Settled wanted l)
    (second : Settled wanted l') : l.Same l' where
  addrs := (List.perm_ext_iff_of_nodup l.nodup l'.nodup).mpr fun a =>
    (first.addrs a).trans (second.addrs a).symm
  isUp := Bool.eq_iff_iff.mpr (first.isUp.trans second.isUp.symm)

/-- On a link whose addresses have masks of 32 bits, the operations for a list of distinct wanted
addresses succeed and settle the link. In every state on the way the addresses to keep are
there, and a new run from that state ends in the same state. The states on the way include
those after each of the operations. -/
theorem address_setter_converges (n : NetworkInterface) {l : Link}
    (slash32 : ∀ a ∈ l.addrs, a.ones = 32) {wanted : List IPv4.Addr} (distinct : wanted.Nodup) :
    ∃ final, (n.runOps (decideOps l.listed (wanted.map IPv4.text))).runOn Link.respond l =
        (.ok (), final) ∧ Settled wanted final ∧
      (∀ stopped, (n.runOps (decideOps l.listed (wanted.map IPv4.text))).Passes Link.respond l
          stopped →
        (∀ a ∈ l.addrs, a.ip ∈ wanted → a ∈ stopped.addrs) ∧
        ∃ again, (n.runOps (decideOps stopped.listed (wanted.map IPv4.text))).runOn Link.respond
            stopped = (.ok (), again) ∧ again.Same final) ∧
      ∀ done rest, decideOps l.listed (wanted.map IPv4.text) = done ++ rest →
        (n.runOps (decideOps l.listed (wanted.map IPv4.text))).Passes Link.respond l
          ((n.runOps done).runOn Link.respond l).2 := by
  obtain ⟨final, accepted, settled⟩ := decideOps_accepted slash32 distinct
  have good : Good (l.addrs.filter fun a => a.ip ∈ wanted) l :=
    ⟨slash32, fun a member => (List.mem_filter.mp member).1⟩
  refine ⟨final, runOps_accepted n accepted, settled, fun stopped passes => ?_, ?_⟩
  · have still := passes_runOps n accepted good (decideOps_spares l.listed wanted l.addrs) passes
    constructor
    · intro a member wants
      exact still.kept a (List.mem_filter.mpr ⟨member, decide_eq_true wants⟩)
    · obtain ⟨again, accepted', settled'⟩ := decideOps_accepted still.slash32 distinct
      exact ⟨again, runOps_accepted n accepted', settled'.same settled⟩
  · intro done rest split
    rw [split, runOps_append]
    exact (Prog.passes_end (n.runOps done) l).left _

/-- A parser for addresses with masks of 32 bits. -/
def slash32Parser : AddrParser where
  parseAddr s :=
    match s.toList.splitOn '/' with
    | [ip, ['3', '2']] => (IPv4.parse ip).elim (.error "invalid CIDR address") fun a => .ok ⟨a, 32⟩
    | _ => .error "invalid CIDR address"
  parseAddr_text a := by
    have split : (IPv4.text a ++ "/32").toList.splitOn '/' = [IPv4.chars a, ['3', '2']] := by
      rw [String.toList_append, IPv4.toList_text]
      exact (List.splitOn_append_cons_self _ _).trans
        (congrArg₂ _ (List.splitOn_eq_singleton (IPv4.not_mem_chars rfl (by decide) a)) (by decide))
    simp only [split, IPv4.parse_chars, Option.elim_some]

/-- A server that moves from one DHCP address to another. -/
theorem address_setter_converges_moved :
    let l : Link := ⟨true, [⟨0x0a47ff01#32, 32⟩, ⟨0x0a47ff06#32, 32⟩], by decide⟩
    ∃ final, ((NetworkInterface.mk "boot" slash32Parser).runOps
        [.up, .add "10.71.255.2", .delete "10.71.255.1"]).runOn Link.respond l = (.ok (), final) ∧
      Settled [0x0a47ff02#32, 0x0a47ff06#32] final := by
  intro l
  have distinct : [0x0a47ff02#32, 0x0a47ff06#32].Nodup := by decide
  obtain ⟨final, ran, settled, -⟩ := address_setter_converges ⟨"boot", slash32Parser⟩ (l := l)
    (by decide) distinct
  exact ⟨final, ran, settled⟩

end Neco.BootIPSetter
