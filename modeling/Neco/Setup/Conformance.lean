import Neco.Setup.Knowledge

/-!
# The setup conforms

Each function of `Setup` is taken from what the server knows before it to what it knows after
it. The leader's part is proved by evaluating its requests on the shape of the two servers of
Vault, which nobody else changes.
-/

namespace Neco.Bootstrap

open Program Neco.Setup KeyValue

variable {V : Vault} {b : BootServers} {artifacts : Artifacts} {lrn : Int} {k : Know} {l : Lead}
  {s t : Site V}

/-! ### Calls on the own host -/

/-- The calls that leave the site alone. -/
def Host.quiet : Host → Bool
  | .startService _ => false
  | .restartService _ => false
  | .waitEtcdForVault => false
  | .updateNecoConfig => false
  | _ => true

theorem serveHost_quiet {op : Host} (quiet : op.quiet = true) {v : Unit}
    (served : s.serveHost artifacts lrn op = .done v t) : t = s := by
  cases op with
  | findContainerImage name =>
    simp only [Site.serveHost] at served
    split at served
    · cases served
      rfl
    · cases served
  | startService name => cases quiet
  | restartService name => cases quiet
  | waitEtcdForVault => cases quiet
  | updateNecoConfig => cases quiet
  | _ =>
    cases served
    rfl

theorem conforms_host {op : Host} (quiet : op.quiet = true)
    (found : ∀ name, op = .findContainerImage name →
      (artifacts.findContainerImage name).isSome = true) :
    Obeys V b artifacts lrn (request (.host op)) (Knows b artifacts lrn k l)
      fun _ => Knows b artifacts lrn k l := by
  refine conforms_same nofun (fun s _ _ => ?_) fun s v t fresh clock served =>
    serveHost_quiet quiet served
  cases op with
  | findContainerImage name => exact found name rfl
  | startService name => cases quiet
  | restartService name => cases quiet
  | waitEtcdForVault => cases quiet
  | _ => trivial

/-- Such a call leaves the site alone even when it fails. -/
theorem answer_quiet {op : Host} (quiet : op.quiet = true) {choice : Choice V}
    {r : Reply (.host op)} (answered : s.answer b artifacts lrn choice (.host op) = some (r, t)) :
    t = s := by
  cases choice with
  | fault =>
    cases answered
    rfl
  | lost fresh clock =>
    cases answered
    simp only [Site.lost]
    split
    next served => exact serveHost_quiet quiet (perform_of_serve served)
    · rfl
  | serve fresh clock =>
    simp only [Site.answer] at answered
    split at answered
    · cases answered
    · split at answered
      next served =>
        cases answered
        exact serveHost_quiet quiet (perform_of_serve served)
      · cases answered
        rfl
      · cases answered

theorem conforms_onlyIf {c : Bool} {p : Prog Unit} {P : Site V → Prop}
    (body : Obeys V b artifacts lrn p P fun _ => P) :
    Obeys V b artifacts lrn (onlyIf c p) P fun _ => P := by
  cases c with
  | true => exact body
  | false => exact fun _ holds => holds

theorem conforms_installTools {name : String}
    (found : (artifacts.findContainerImage name).isSome = true) :
    Obeys V b artifacts lrn (installTools name) (Knows b artifacts lrn k l)
      fun _ => Knows b artifacts lrn k l := by
  refine (conforms_host rfl ?_).bind fun _ => ?_
  · rintro name' ⟨⟩
    exact found
  refine (conforms_host rfl fun _ same => by cases same).bind fun _ => ?_
  exact conforms_host rfl fun _ same => by cases same

/-! ### The first certificates -/

/-- The development server has changed nothing. -/
theorem Knows.sameDev (knows : Knows b artifacts lrn k l s) {d : V.State}
    (same : V.contents d = s.dev) : Knows b artifacts lrn k l { s with devServer := d } := by
  have ready (ready : s.Ready) : Site.Ready { s with devServer := d } := by
    rwa [Site.Ready, Site.dev, same]
  refine { knows with filed := ?_, unsigned := ?_, served := ?_, leads := fun leader => ?_ }
  · rw [Site.dev, same]
    exact knows.filed
  · rw [Site.dev, same]
    exact knows.unsigned
  · exact fun here => ⟨(knows.served here).1, (knows.served here).2.imp ready id⟩
  · refine { knows.leads leader with dev := ?_, collected := ?_ }
    · rw [Site.dev, same]
      exact (knows.leads leader).dev
    · rw [Site.dev, same]
      exact (knows.leads leader).collected

/-- The server finds the development server ready when it answers. -/
theorem Knows.ready (knows : Knows b artifacts lrn k l s) (served : k.served = true)
    (running : s.devState = .running) : s.Ready := by
  refine (knows.served served).2.resolve_right ?_
  rw [running]
  decide

/-- The ledger has what etcd and Vault need to start. -/
structure Ledger.Certifies (ledger : Ledger) : Prop where
  cas : ∀ ca, ledger.cas ca = true
  owners : ∀ owner ∈ [Owner.server, .etcdPeer, .vault], (ledger.owners owner).isSome = true

theorem Knows.certified (knows : Knows b artifacts lrn k l s) (certifies : k.ledger.Certifies) :
    s.Certified lrn :=
  ⟨k.ledger, knows.filed, certifies.cas, certifies.owners⟩

/-- The server holds its first certificates and has told so. -/
def Certified (b : BootServers) (artifacts : Artifacts) (lrn : Int) (k : Know) (l : Lead)
    (s : Site V) : Prop :=
  ∃ ledger : Ledger, ledger.Certifies ∧
    Knows b artifacts lrn { k with ledger, unsigned := false, served := false } l s

/-- The ledger after `setupLocalCerts` has written the files of three secrets. -/
def Ledger.local (ledger : Ledger) (server peer client : Secret) : Ledger :=
  (((((ledger.hold .server server.ttl).trust (some .server)).hold .etcdPeer peer.ttl).trust
    (some .etcdPeer)).hold .vault client.ttl).trust (some .etcdClient)

theorem Ledger.certifies_local (ledger : Ledger) (server peer client : Secret) :
    (ledger.local server peer client).Certifies where
  cas ca := by cases ca <;> simp [Ledger.local, Ledger.hold, Ledger.trust]
  owners owner member := by
    simp only [List.mem_cons, List.not_mem_nil, or_false] at member
    rcases member with rfl | rfl | rfl <;> simp [Ledger.local, Ledger.hold, Ledger.trust]

theorem stable_cancelled : (world V b artifacts lrn).Stable fun s => s.cancelled lrn = true :=
  fun _ _ before rely => rely.cancelled before

/-- The server has been told to stop before it could get its certificates. -/
def Stopped (b : BootServers) (artifacts : Artifacts) (lrn : Int) (k : Know) (l : Lead)
    (s : Site V) : Prop :=
  Knows b artifacts lrn k l s ∧ s.cancelled lrn = true

theorem Stopped.stable : (world V b artifacts lrn).Stable (Stopped b artifacts lrn k l) :=
  stable_and Knows.stable stable_cancelled

/-- A certificate of the development server comes from the root of its authority. -/
theorem conforms_devIssue [V.Documented] (served : k.served = true) (ca : CA) :
    Obeys V b artifacts lrn (request (.dev (.issue ca))) (Knows b artifacts lrn k l)
      fun secret s => Knows b artifacts lrn k l s ∧ Root ca secret.signer s := by
  refine conforms_request (fun s knows => knows.permits nofun fun _ => ?_)
    (fun _ => stable_and Knows.stable stable_root) ?_
  · exact (knows.served served).2.symm
  · intro s secret t fresh clock knows good _ answered
    obtain ⟨running, _, issued, rfl⟩ := perform_dev answered
    have admitted := (knows.ready served running).2.admits_issue ca
    obtain ⟨⟨root, _⟩, same⟩ := Vault.served good.devToken admitted issued
    refine ⟨knows.sameDev same, ?_⟩
    rw [Root, Site.dev, same]
    exact root

/-- The server tells the leader that it has its certificates. -/
theorem conforms_writeDone [V.Documented] (served : k.served = true) :
    Obeys V b artifacts lrn (request (.dev (.write (bootstrapDonePath lrn))))
      (Knows b artifacts lrn k l)
      fun _ => Knows b artifacts lrn { k with unsigned := false, served := false } l := by
  refine conforms_request (fun s knows => knows.permits nofun fun _ => ?_) (fun _ => Knows.stable) ?_
  · exact (knows.served served).2.symm.imp id fun ready => ⟨ready, .inl rfl⟩
  · intro s v t fresh clock knows good _ answered
    obtain ⟨running, _, written, rfl⟩ := perform_dev answered
    have engine := (knows.ready served running).2.engine
    have after := (Vault.served good.devToken (by exact engine) written).2
    refine
      { knows with
        filed := ?_
        unsigned := fun same => by cases same
        served := fun same => by cases same
        leads := fun leader => ?_ }
    · rw [Site.dev, after]
      exact knows.filed
    · have before := knows.leads leader
      refine { before with dev := ?_, collected := ?_ }
      · rw [Site.dev, after]
        exact before.dev
      · rw [Site.dev, after]
        exact fun i member => List.mem_cons_of_mem _ (before.collected i member)

theorem conforms_issueLocalCerts [V.Documented] (first : k.stage = none)
    (served : k.served = true) :
    Obeys V b artifacts lrn (issueLocalCerts lrn) (Knows b artifacts lrn k l)
      fun _ => Certified b artifacts lrn k l := by
  refine (conforms_host rfl fun _ same => by cases same).bind fun _ => ?_
  refine (conforms_host rfl fun _ same => by cases same).bind fun _ => ?_
  refine (conforms_devIssue (by exact served) .server).bind fun server => ?_
  refine (conforms_dumpCertFiles (by exact first) server .server ?_).bind fun _ => ?_
  · rintro ca ⟨⟩
    rfl
  refine (conforms_host rfl fun _ same => by cases same).bind fun _ => ?_
  refine (conforms_devIssue (by exact served) .etcdPeer).bind fun peer => ?_
  refine (conforms_dumpCertFiles (by exact first) peer .etcdPeer ?_).bind fun _ => ?_
  · rintro ca ⟨⟩
    rfl
  refine (conforms_devIssue (by exact served) .etcdClient).bind fun client => ?_
  refine (conforms_dumpCertFiles (by exact first) client .vault ?_).bind fun _ => ?_
  · rintro ca ⟨⟩
    rfl
  refine (conforms_writeDone (by exact served)).mono (fun _ knows => knows) fun _ s knows => ?_
  exact ⟨k.ledger.local server peer client, k.ledger.certifies_local server peer client, knows⟩

theorem conforms_setupLocalCerts [V.Documented] (first : k.stage = none)
    (unsigned : k.unsigned = true) :
    Obeys V b artifacts lrn (setupLocalCerts lrn) (Knows b artifacts lrn k l) fun _ s =>
      Certified b artifacts lrn k l s ∨ Stopped b artifacts lrn k l s := by
  refine Conforms.bind (M := fun found s =>
    if found = true then Knows b artifacts lrn { k with served := true } l s
    else Stopped b artifacts lrn k l s) ?_ fun found => ?_
  · refine conforms_request (fun s knows => knows.permits nofun fun _ => trivial) (fun found => ?_) ?_
    · cases found with
      | true => exact Knows.stable
      | false => exact Stopped.stable
    · intro s found t fresh clock knows good _ answered
      obtain ⟨rfl, ⟨rfl, here⟩ | ⟨rfl, cancelled⟩⟩ := perform_awaitSecret answered
      · exact { knows with served := fun _ => ⟨unsigned, .inl ⟨here.1, good.ready here.2⟩⟩ }
      · exact ⟨knows, cancelled⟩
  · cases found with
    | true =>
      exact (conforms_issueLocalCerts (k := { k with served := true }) first rfl).mono
        (fun _ knows => knows) fun _ _ certified => .inl certified
    | false => exact fun s stopped => .inr stopped

/-! ### The leader's development server -/

/-- The requests with which the leader sets a server of Vault up. -/
def VaultOp.configures : VaultOp → Bool
  | .issue _ => false
  | .write _ => false
  | _ => true

/-- They depend on the shape of the server only. -/
theorem Contents.admits_shape {c : Contents} {op : VaultOp} : c.shape.Admits op ↔ c.Admits op := by
  cases op <;> exact Iff.rfl

theorem Contents.shape_after {c : Contents} {op : VaultOp} (config : op.configures = true)
    {x : op.Value} : (c.after op x).shape = c.shape.after op x := by
  cases op with
  | write path => cases config
  | _ => rfl

/-- The requests for which the leader needs the development server. -/
def VaultOp.AskedOf (c : Contents) : VaultOp → Prop
  | .unmountSecret => c.engine = some 2
  | .setting _ => False
  | _ => True

theorem conforms_devConfig [V.Documented] (leader : isLeader b lrn = true)
    (running : l.devState = .running)
    (idle : k.served = false) {op : VaultOp} (config : op.configures = true)
    (admitted : l.dev.Admits op) (asked : op.AskedOf l.dev) :
    Obeys V b artifacts lrn (request (.dev op)) (Knows b artifacts lrn k l)
      fun x => Knows b artifacts lrn k { l with dev := l.dev.after op x } := by
  refine conforms_request (fun s knows => knows.permits nofun fun _ => ?_) (fun _ => Knows.stable) ?_
  · have leads := knows.leads leader
    rw [← leads.dev] at admitted asked
    have up := leads.devState.trans running
    cases op with
    | issue ca => cases config
    | write path => cases config
    | setting x => exact asked.elim
    | unmountSecret => exact ⟨leader, up, asked⟩
    | _ => exact ⟨leader, up, Contents.admits_shape.mp admitted⟩
  · intro s x t fresh clock knows good _ answered
    have leads := knows.leads leader
    obtain ⟨_, d, served, rfl⟩ := perform_dev answered
    rw [← leads.dev, Contents.admits_shape] at admitted
    have after := (Vault.served good.devToken admitted served).2
    have secrets : (V.contents d).secrets = s.dev.secrets := by
      rw [after]
      cases op with
      | write path => cases config
      | unmountSecret =>
        -- the engine of version 2 holds no secrets
        rw [← leads.dev] at asked
        have engine : s.dev.engine = some 2 := asked
        rw [good.unmounted (by rw [engine]; decide)]
        rfl
      | _ => rfl
    refine
      { knows with
        filed := knows.filed.mono ?_
        unsigned := fun here => ?_
        served := fun here => by cases idle.symm.trans here
        leads := fun _ => { leads with dev := ?_, collected := ?_ } }
    · change RootsGrow s.dev.roots (V.contents d).roots
      rw [after]
      exact Contents.roots_after admitted
    · rw [Site.dev, secrets]
      exact knows.unsigned here
    · rw [Site.dev, after, Contents.shape_after config, leads.dev]
    · rw [Site.dev, secrets]
      exact leads.collected

/-- The roots of the authorities are `pems`, in the order of `CA.all`. -/
def Anchors (roots : CA → Option String) (pems : List String) : Prop :=
  CA.all.map roots = pems.map some

/-- The leader has written `secret/bootstrap`: the others go on. -/
theorem conforms_writeBootstrap [V.Documented] (leader : isLeader b lrn = true)
    (running : l.devState = .running) (idle : k.served = false) (signs : l.dev.Signs) :
    Obeys V b artifacts lrn (request (.dev (.write bootstrapPath))) (Knows b artifacts lrn k l)
      fun _ => Knows b artifacts lrn k l := by
  refine conforms_request (fun s knows => knows.permits nofun fun _ => ?_) (fun _ => Knows.stable) ?_
  · have leads := knows.leads leader
    rw [← leads.dev] at signs
    refine .inr ⟨⟨leads.devState.trans running, signs.root, signs.role, signs.engine⟩, ?_⟩
    exact .inr ⟨leader, rfl⟩
  · intro s x t fresh clock knows good _ answered
    have leads := knows.leads leader
    obtain ⟨_, d, written, rfl⟩ := perform_dev answered
    rw [← leads.dev] at signs
    have after := (Vault.served good.devToken (by exact signs.engine) written).2
    refine
      { knows with
        filed := ?_
        unsigned := fun here => ?_
        served := fun here => by cases idle.symm.trans here
        leads := fun _ => { leads with dev := ?_, collected := ?_ } }
    · rw [Site.dev, after]
      exact knows.filed
    · rw [Site.dev, after]
      exact fun member => (List.mem_cons.mp member).elim (bootstrapDonePath_ne lrn)
        (knows.unsigned here)
    · rw [Site.dev, after]
      exact leads.dev
    · rw [Site.dev, after]
      exact fun i member => List.mem_cons_of_mem _ (leads.collected i member)

theorem conforms_createCA [V.Documented] (leader : isLeader b lrn = true)
    (running : l.devState = .running) (idle : k.served = false) (new : l.dev = .development) :
    Obeys V b artifacts lrn createCA (Knows b artifacts lrn k l) fun pems s =>
      ∃ d : Contents, d.Signs ∧ Anchors d.roots pems ∧
        Knows b artifacts lrn k { l with dev := d } s := by
  have start : l = { l with dev := .development } := by rw [← new]
  -- Each request is evaluated on what the requests before it have left.
  have step {d : Contents} (op : VaultOp) (config : op.configures = true) (admitted : d.Admits op)
      (asked : op.AskedOf d) : Obeys V b artifacts lrn (request (.dev op))
        (Knows b artifacts lrn k { l with dev := d })
        fun x => Knows b artifacts lrn k { l with dev := d.after op x } :=
    conforms_devConfig (l := { l with dev := d }) leader running idle config admitted asked
  rw [start]
  refine Conforms.bind (M := fun _ => Knows b artifacts lrn k
    { l with dev := { Contents.development with mounted := fun _ => true } }) ?_ fun _ => ?_
  · refine (step (.mount .server) rfl (by exact rfl) trivial).bind fun _ => ?_
    refine (step (.mount .etcdPeer) rfl (by exact rfl) trivial).bind fun _ => ?_
    refine (step (.mount .etcdClient) rfl (by exact rfl) trivial).bind fun _ => ?_
    have all : Function.update (Function.update (Function.update (fun _ => false) CA.server true)
        CA.etcdPeer true) CA.etcdClient true = fun _ => true := by
      funext ca
      cases ca <;> rfl
    intro s knows
    rwa [← all]
  refine (step (.generateRoot .server) rfl (by exact ⟨rfl, rfl⟩) trivial).bind fun serverPem => ?_
  refine (step (.generateRoot .etcdPeer) rfl (by exact ⟨rfl, rfl⟩) trivial).bind fun peerPem => ?_
  refine (step (.generateRoot .etcdClient) rfl (by exact ⟨rfl, rfl⟩) trivial).bind
    fun clientPem => ?_
  refine (step (.writeRole .server _) rfl (by exact rfl) trivial).bind fun _ => ?_
  refine (step (.writeRole .etcdPeer _) rfl (by exact rfl) trivial).bind fun _ => ?_
  refine (step (.writeRole .etcdClient _) rfl (by exact rfl) trivial).bind fun _ => ?_
  refine (step .unmountSecret rfl (by exact rfl) (by exact rfl)).bind fun _ => ?_
  refine (step .mountSecret rfl (by exact rfl) trivial).bind fun _ => ?_
  refine (conforms_writeBootstrap leader (by exact running) idle ?_).bind fun _ => ?_
  · exact ⟨fun ca => by cases ca <;> rfl, fun ca => by cases ca <;> rfl, rfl⟩
  · intro s knows
    refine ⟨_, ?_, ?_, knows⟩
    · exact ⟨fun ca => by cases ca <;> rfl, fun ca => by cases ca <;> rfl, rfl⟩
    · rfl

/-- The leader waits until all servers have told that they are done. -/
theorem conforms_awaitDone (leader : isLeader b lrn = true) (lrns : List Int) :
    ∀ l : Lead, Obeys V b artifacts lrn (lrns.forM awaitDone) (Knows b artifacts lrn k l)
      fun _ => Knows b artifacts lrn k { l with collected := l.collected ++ lrns } := by
  induction lrns with
  | nil =>
    intro l s knows
    rwa [List.append_nil]
  | cons i rest ih =>
    intro l
    refine Conforms.bind (M := fun _ =>
      Knows b artifacts lrn k { l with collected := l.collected ++ [i] }) ?_ fun _ => ?_
    · refine Conforms.bind (M := fun found s => found = true →
        Knows b artifacts lrn k { l with collected := l.collected ++ [i] } s) ?_ fun found => ?_
      · refine conforms_request (fun s knows => knows.permits nofun fun _ => trivial) ?_ ?_
        · exact fun found s t before rely here => Knows.stable s t (before here) rely
        · rintro s found t fresh clock knows _ _ answered rfl
          obtain ⟨rfl, ⟨_, here⟩ | ⟨none, _⟩⟩ := perform_awaitSecret answered
          · have leads := knows.leads leader
            refine { knows with leads := fun _ => { leads with collected := fun j member => ?_ } }
            rcases List.mem_append.mp member with old | new
            · exact leads.collected j old
            · rw [List.mem_singleton.mp new]
              exact here.2
          · cases none
      · cases found with
        | true => exact fun s knows => knows rfl
        | false => trivial
    · refine (ih { l with collected := l.collected ++ [i] }).mono (fun _ knows => knows) ?_
      intro _ s knows
      rwa [List.append_assoc] at knows

/-- The leader has set up the authorities with the roots `pems`, and everybody has its first
certificates. -/
def AllSigned (b : BootServers) (artifacts : Artifacts) (lrn : Int) (k : Know) (l : Lead)
    (lrns : List Int) (pems : List String) (s : Site V) : Prop :=
  ∃ (d : Contents) (ledger : Ledger), Anchors d.roots pems ∧ ledger.Certifies ∧
    Knows b artifacts lrn { k with ledger, unsigned := false, served := false }
      { l with dev := d, collected := lrns } s

theorem conforms_signCerts [V.Documented] (leader : isLeader b lrn = true) (first : k.stage = none)
    (unsigned : k.unsigned = true) (idle : k.served = false) (running : l.devState = .running)
    (new : l.dev = .development) (none : l.collected = []) {lrns : List Int} (own : lrn ∈ lrns) :
    Obeys V b artifacts lrn (signCerts lrn lrns) (Knows b artifacts lrn k l)
      (AllSigned b artifacts lrn k l lrns) := by
  refine (conforms_createCA leader running idle new).bind fun pems => ?_
  refine Conforms.of_exists fun d => Conforms.assume fun signs => Conforms.assume fun anchors => ?_
  refine (conforms_setupLocalCerts (by exact first) (by exact unsigned)).bind fun _ => ?_
  refine Conforms.of_or ?_ ?_
  · refine Conforms.of_exists fun ledger => Conforms.assume fun certifies => ?_
    refine (conforms_awaitDone leader lrns _).bind fun _ s knows => ?_
    exact ⟨d, ledger, anchors, certifies, by rwa [none] at knows⟩
  · -- A leader that is told to stop does not find itself among those that are done.
    refine ((conforms_awaitDone leader lrns _).mono (fun _ stopped => stopped.1) fun _ _ => id).bind
      fun _ s knows => ?_
    have done := (knows.leads leader).collected lrn (List.mem_append_right _ own)
    exact absurd done (knows.unsigned unsigned)

/-- Whether a call starts or stops the development server. -/
def Call.turnsDev : Call → Bool
  | .startDev => true
  | .stopDev _ => true
  | _ => false

theorem devState_perform {fresh : V.Chance × String} {clock : Int} {c : Call} {v : Value c}
    (plain : c.turnsDev = false) (served : s.perform b artifacts fresh clock lrn c = .done v t) :
    t.devState = s.devState := by
  cases c with
  | startDev => cases plain
  | stopDev succeeded => cases plain
  | host op =>
    cases op <;> simp only [Site.perform, Site.serveHost] at served <;>
      (repeat' split at served) <;> cases served <;> rfl
  | _ =>
    simp only [Site.perform] at served
    repeat' split at served
    all_goals
      cases served
    all_goals rfl

theorem devState_answer {choice : Choice V} {c : Call} {r : Reply c} (plain : c.turnsDev = false)
    (answered : s.answer b artifacts lrn choice c = some (r, t)) : t.devState = s.devState := by
  cases choice with
  | fault =>
    simp only [Site.answer] at answered
    split at answered
    · cases answered
      rfl
    · cases answered
  | lost fresh clock =>
    simp only [Site.answer] at answered
    split at answered
    · cases answered
      unfold Site.lost
      split
      · rfl
      · split
        next served => exact devState_perform plain (perform_of_serve served)
        · rfl
    · cases answered
  | serve fresh clock =>
    simp only [Site.answer] at answered
    split at answered
    · cases answered
    · split at answered
      next served =>
        cases answered
        exact devState_perform plain (perform_of_serve served)
      · cases answered
        rfl
      · cases answered

/-- The program neither starts nor stops the development server. -/
abbrev LeavesDev {α : Type} (p : Prog α) : Prop := p.Uses fun c => c.turnsDev = false

theorem leavesDev_request {c : Call} (plain : c.turnsDev = false) : LeavesDev (request c) :=
  ⟨plain, fun r => by cases r <;> trivial⟩

theorem leavesDev_dumpCertFiles {secret : Secret} {caFile : Option CA} {owner : Owner} :
    LeavesDev (dumpCertFiles secret caFile owner) := by
  refine (leavesDev_request rfl).bind fun _ => (leavesDev_request rfl).bind fun _ => ?_
  cases caFile with
  | none => trivial
  | some ca => exact leavesDev_request rfl

theorem leavesDev_setupLocalCerts : LeavesDev (setupLocalCerts lrn) := by
  refine (leavesDev_request rfl).bind fun found => ?_
  cases found with
  | false => trivial
  | true =>
    refine (leavesDev_request rfl).bind fun _ => (leavesDev_request rfl).bind fun _ => ?_
    refine (leavesDev_request rfl).bind fun _ => leavesDev_dumpCertFiles.bind fun _ => ?_
    refine (leavesDev_request rfl).bind fun _ => (leavesDev_request rfl).bind fun _ => ?_
    refine leavesDev_dumpCertFiles.bind fun _ => (leavesDev_request rfl).bind fun _ => ?_
    exact leavesDev_dumpCertFiles.bind fun _ => leavesDev_request rfl

theorem leavesDev_signCerts (lrn : Int) (lrns : List Int) : LeavesDev (signCerts lrn lrns) := by
  refine Prog.Uses.bind ?_ fun pems => leavesDev_setupLocalCerts.bind fun _ => Prog.Uses.bind ?_ ?_
  · refine (Prog.Uses.forM _ fun _ _ => leavesDev_request rfl).bind fun _ => ?_
    refine (leavesDev_request rfl).bind fun _ => (leavesDev_request rfl).bind fun _ => ?_
    refine (leavesDev_request rfl).bind fun _ => (leavesDev_request rfl).bind fun _ => ?_
    refine (leavesDev_request rfl).bind fun _ => (leavesDev_request rfl).bind fun _ => ?_
    refine (leavesDev_request rfl).bind fun _ => (leavesDev_request rfl).bind fun _ => ?_
    exact (leavesDev_request rfl).bind fun _ => trivial
  · refine Prog.Uses.forM _ fun i _ => (leavesDev_request rfl).bind fun found => ?_
    cases found <;> trivial
  · exact fun _ => trivial

theorem conforms_startDev [V.Documented] (leader : isLeader b lrn = true)
    (unstarted : l.devState = .notStarted) (idle : k.served = false) (none : l.collected = []) :
    Obeys V b artifacts lrn (request .startDev) (Knows b artifacts lrn k l)
      fun _ => Knows b artifacts lrn k { l with devState := .running, dev := .development } := by
  refine conforms_request (fun s knows => knows.permits nofun fun _ => ?_) (fun _ => Knows.stable) ?_
  · exact ⟨leader, (knows.leads leader).devState.trans unstarted⟩
  · intro s v t fresh clock knows good _ answered
    cases answered
    have leads := knows.leads leader
    have same := good.unstarted (leads.devState.trans unstarted)
    have contents : V.contents V.development = .development := Vault.Documented.development
    refine
      { knows with
        filed := by
          have filed := knows.filed
          rwa [Site.dev, same] at filed
        unsigned := fun _ member => ?_
        served := fun here => by cases idle.symm.trans here
        leads := fun _ => ?_ }
    · rw [Site.dev, contents] at member
      cases member
    · exact
        { leads with
          going := fun same => by cases same
          devState := rfl
          dev := congrArg Contents.shape contents
          collected := fun i member => by
            rw [show ({ l with devState := .running, dev := .development } : Lead).collected = []
              from none] at member
            cases member }

theorem conforms_prepareCA_leader [V.Documented] (leader : isLeader b lrn = true)
    (first : k.stage = none)
    (unsigned : k.unsigned = true) (idle : k.served = false) (unstarted : l.devState = .notStarted)
    (none : l.collected = []) {lrns : List Int} (own : ∀ i ∈ b.lrns, i ∈ lrns)
    (member : lrn ∈ b.lrns) :
    Obeys V b artifacts lrn (prepareCA true lrn lrns) (Knows b artifacts lrn k l)
      (AllSigned b artifacts lrn k { l with devState := .stopped } lrns) := by
  refine (conforms_startDev leader unstarted idle none).bind fun _ => ?_
  have signs : Obeys V b artifacts lrn (signCerts lrn lrns)
      (Knows b artifacts lrn k { l with devState := .running, dev := .development })
      (AllSigned b artifacts lrn k { l with devState := .running, dev := .development } lrns) :=
    conforms_signCerts leader first unsigned idle (by exact rfl) (by exact rfl) (by exact none)
      (own lrn member)
  have stable : (world V b artifacts lrn).Stable fun s => s.devState = .running :=
    fun s t running rely => (rely.leader leader).devState.trans running
  -- `prepareCA` stops the server in any case: while it runs, only the leader can stop it.
  have caught := Conforms.attempt stable
    (fun c s r t plain running _ answer => by
      obtain ⟨_, choice, answered⟩ := answer
      exact (devState_answer plain answered).trans running)
    (leavesDev_signCerts lrn lrns) signs
  refine (caught.mono (fun s knows => ⟨knows, (knows.leads leader).devState⟩) fun _ _ => id).bind
    fun result => ?_
  refine Conforms.call (fun _ s => ∀ pems, result = .ok pems →
      AllSigned b artifacts lrn k { l with devState := .stopped } lrns pems s) ?_ ?_ ?_ fun _ => ?_
  · rintro s ⟨running, signed⟩ good
    refine ⟨fun _ => by rw [running]; decide, nofun, leader, fun succeeded i here => ?_⟩
    cases result with
    | error e => cases succeeded
    | ok pems =>
      obtain ⟨d, ledger, _, _, knows⟩ := signed pems rfl
      exact (knows.leads leader).collected i (own i here)
  · rintro r s t signed rely pems same
    obtain ⟨d, ledger, anchors, certifies, knows⟩ := signed pems same
    exact ⟨d, ledger, anchors, certifies, Knows.stable s t knows rely⟩
  · rintro s r t ⟨running, signed⟩ ⟨_, choice, answered⟩ pems rfl
    obtain ⟨d, ledger, anchors, certifies, knows⟩ := signed pems rfl
    cases choice with
    | fault => cases answered
    | lost fresh clock => cases answered
    | serve fresh clock =>
      cases answered
      refine ⟨d, ledger, anchors, certifies, ?_⟩
      have leads := knows.leads leader
      exact
        { knows with
          served := fun here => by cases here
          leads := fun _ => { leads with devState := rfl, going := fun same => by cases same } }
  · cases result with
    | ok pems => exact fun s signed => signed pems rfl
    | error e => trivial

theorem conforms_prepareCA_follower [V.Documented] (first : k.stage = none)
    (unsigned : k.unsigned = true) {lrns : List Int} :
    Obeys V b artifacts lrn (prepareCA false lrn lrns) (Knows b artifacts lrn k l) fun _ s =>
      Certified b artifacts lrn k l s ∨ Stopped b artifacts lrn k l s :=
  (conforms_setupLocalCerts first unsigned).bind fun _ _ => id

/-! ### etcd and Vault -/

/-- A service that the server may start. -/
theorem conforms_startService {name : String} (running : Bool) (other : name ≠ "etcd-container")
    (may : ∀ s : Site V, Knows b artifacts lrn k l s → MayStart b s lrn name)
    (started : running = true → k.running = true ∨ name = "vault") :
    Obeys V b artifacts lrn (request (.host (.startService name))) (Knows b artifacts lrn k l)
      fun _ => Knows b artifacts lrn { k with running } l := by
  refine conforms_request (fun s knows => knows.permits nofun fun _ => may s knows)
    (fun _ => Knows.stable) ?_
  intro s v t fresh clock knows _ _ answered
  simp only [Site.perform, Site.serveHost, if_neg other] at answered
  cases answered
  refine knows.setMachine ⟨knows.filed.trusted, knows.filed.held⟩
    (fun here => List.mem_cons_of_mem _ (knows.started here)) (fun here => ?_) knows.unsealed
    knows.led knows.configured fun idle => ?_
  · rcases started here with before | rfl
    · simp [knows.running before]
    · simp
  · rw [serving_start, Bool.or_eq_false_iff] at idle
    exact idle.2

theorem Knows.setEtcd (knows : Knows b artifacts lrn k l s) (up : Bool) :
    Knows b artifacts lrn { k with etcd := up } l
      { s with etcd := Function.update s.etcd lrn up } :=
  { knows with
    etcd := fun here => (Function.update_self ..).trans here
    leads := fun leader => { knows.leads leader with } }

theorem conforms_startEtcd (certifies : k.ledger.Certifies) :
    Obeys V b artifacts lrn (request (.host (.startService "etcd-container")))
      (Knows b artifacts lrn k l)
      fun _ => Knows b artifacts lrn { k with started := true, etcd := false } l := by
  refine conforms_request (fun s knows => knows.permits nofun fun _ => ?_) (fun _ => Knows.stable) ?_
  · exact .inl ⟨rfl, .inr (knows.certified certifies)⟩
  · intro s v t fresh clock knows _ _ answered
    simp only [Site.perform, Site.serveHost, if_true] at answered
    cases answered
    have after : Knows b artifacts lrn { k with started := true } l (s.setMachine lrn
        { s.machines lrn with
          running := (s.machines lrn).running || "etcd-container" == "vault"
          services := "etcd-container" :: (s.machines lrn).services }) := by
      refine knows.setMachine ⟨knows.filed.trusted, knows.filed.held⟩
        (fun _ => List.mem_cons_self) (fun here => ?_) knows.unsealed knows.led knows.configured
        fun idle => ?_
      · simp [knows.running here]
      · rw [serving_start, Bool.or_eq_false_iff] at idle
        exact idle.2
    exact after.setEtcd false

theorem conforms_waitEtcdForVault (started : k.started = true) :
    Obeys V b artifacts lrn (request (.host .waitEtcdForVault)) (Knows b artifacts lrn k l)
      fun _ => Knows b artifacts lrn { k with etcd := true } l := by
  refine conforms_request (fun s knows => knows.permits nofun fun _ => knows.started started)
    (fun _ => Knows.stable) ?_
  intro s v t fresh clock knows _ _ answered
  obtain ⟨up, rfl⟩ := perform_waitEtcdForVault answered
  exact { knows with etcd := fun _ => up }

theorem conforms_etcdSetup (certifies : k.ledger.Certifies) :
    Obeys V b artifacts lrn etcdSetup (Knows b artifacts lrn k l)
      fun _ => Knows b artifacts lrn { k with started := true, etcd := true } l := by
  refine (conforms_host rfl fun _ same => by cases same).bind fun _ => ?_
  refine (conforms_startEtcd certifies).bind fun _ => ?_
  exact conforms_waitEtcdForVault rfl

/-- A server that has been told to stop does not get past the start of etcd. -/
theorem conforms_etcdSetup_stopped :
    Obeys V b artifacts lrn etcdSetup (Stopped b artifacts lrn k l) fun _ _ => False := by
  refine Conforms.bind (M := fun _ => Stopped b artifacts lrn k l) ?_ fun _ => ?_
  · refine conforms_request (fun s stopped => stopped.1.permits nofun fun _ => trivial)
      (fun _ => Stopped.stable) ?_
    intro s v t fresh clock stopped _ _ answered
    cases answered
    exact stopped
  refine Conforms.bind (M := fun _ _ => False) ?_ fun _ => Conforms.impossible
  refine conforms_request (fun s stopped => stopped.1.permits nofun fun _ => ?_) ?_ ?_
  · exact .inl ⟨rfl, .inl stopped.2⟩
  · exact fun _ s t never _ => never
  · intro s v t fresh clock stopped _ context _
    cases (context rfl).symm.trans stopped.2

theorem conforms_setupVault (certifies : k.ledger.Certifies) :
    Obeys V b artifacts lrn setupVault (Knows b artifacts lrn k l)
      fun _ => Knows b artifacts lrn { k with running := true } l := by
  refine (conforms_host rfl fun _ same => by cases same).bind fun _ => ?_
  refine conforms_startService true (by decide) (fun s knows => ?_) fun _ => .inr rfl
  exact .inr (.inl ⟨rfl, knows.certified certifies⟩)

theorem conforms_initVault [V.Documented] (leader : isLeader b lrn = true) (up : k.etcd = true)
    (running : k.running = true) (new : l.vault = .uninitialised) (hidden : l.unsealKey = none)
    (noToken : k.token = none) :
    Obeys V b artifacts lrn (request .initVault) (Knows b artifacts lrn k l) fun keys =>
      Knows b artifacts lrn k { l with vault := .initialised keys.1 keys.2 } := by
  refine conforms_request (fun s knows => knows.permits (fun _ => up) fun _ => ?_)
    (fun _ => Knows.stable) ?_
  · have leads := knows.leads leader
    exact ⟨leader, knows.running running, leads.vault.trans new, leads.unsealKey.trans hidden⟩
  · intro s keys t fresh clock knows _ _ answered
    have leads := knows.leads leader
    obtain ⟨_, served, rfl⟩ := perform_initVault answered
    obtain ⟨key, token, v, initialised, contents⟩ :=
      Vault.Documented.init fresh.1 s.vaultState (leads.vault.trans new)
    cases initialised.symm.trans served
    refine { knows with token := fun token here => ?_, leads := fun _ => ?_ }
    · rw [noToken] at here
      cases here
    · exact { leads with vault := contents }

/-- A key that the state of Vault accepts. -/
theorem conforms_unseal {key : String} (up : k.etcd = true) (running : k.running = true)
    (right : ∀ s : Site V, Knows b artifacts lrn k l s → Good b artifacts s →
      s.vault.unsealKey = some key) :
    Obeys V b artifacts lrn (request (.unsealVault key)) (Knows b artifacts lrn k l)
      fun _ => Knows b artifacts lrn { k with unsealed := true } l := by
  refine conforms_request (fun s knows => knows.permits (fun _ => up) fun good => ?_)
    (fun _ => Knows.stable) ?_
  · exact ⟨knows.running running, right s knows good⟩
  · intro s v t fresh clock knows _ _ answered
    rw [perform_unsealVault answered]
    exact knows.setMachine ⟨knows.filed.trusted, knows.filed.held⟩ knows.started knows.running
      (fun _ => rfl) knows.led knows.configured id

/-- The roots are those of the development server. -/
def VaultOp.Imports (roots : CA → Option String) : VaultOp → Prop
  | .generateRoot _ => False
  | .configCA ca pem => roots ca = some pem
  | _ => True

/-- The leader sets Vault up, with the authorities of the development server. When Vault serves
it, a leader of Vault has been elected. -/
theorem conforms_vaultConfig [V.Documented] (leader : isLeader b lrn = true) (up : k.etcd = true)
    (unsealed : k.unsealed = true) (noToken : k.token = none) {token : String}
    (valid : token ∈ l.vault.tokens) (hidden : l.unsealKey = none) {op : VaultOp}
    (config : op.configures = true) (admitted : l.vault.Admits op)
    (imports : op.Imports l.dev.roots) :
    Obeys V b artifacts lrn (request (.vault token op)) (Knows b artifacts lrn k l) fun x =>
      Knows b artifacts lrn { k with elected := true } { l with vault := l.vault.after op x } := by
  refine conforms_request (fun s knows => knows.permits (fun _ => up) fun _ => ?_)
    (fun _ => Knows.stable) ?_
  · have leads := knows.leads leader
    rw [← leads.vault] at valid admitted
    refine ⟨knows.unsealed unsealed, valid, ?_⟩
    have may : isLeader b lrn = true ∧ s.unsealKey = none ∧ s.vault.Admits op ∧
        (∀ ca, op ≠ .generateRoot ca) ∧
        ∀ ca pem, op = .configCA ca pem → s.dev.roots ca = some pem := by
      rw [← leads.dev] at imports
      refine ⟨leader, leads.unsealKey.trans hidden, admitted, ?_, ?_⟩
      · rintro ca rfl
        exact imports
      · rintro ca pem rfl
        exact imports
    cases op with
    | issue ca => cases config
    | _ => exact may
  · intro s x t fresh clock knows _ _ answered
    have leads := knows.leads leader
    rw [← leads.vault] at valid admitted
    obtain ⟨reached, _, served, rfl⟩ := perform_vault answered
    have after := (Vault.served valid admitted served).2
    refine
      { knows with
        elected := fun _ _ => (Bool.and_eq_true_iff.mp reached).2
        token := fun token known => ?_
        leads := fun _ => { leads with vault := ?_ } }
    · rw [noToken] at known
      cases known
    · rw [Site.vault, after]
      exact congrArg (fun c => c.after op x) leads.vault

theorem Anchors.roots {roots : CA → Option String} {pems : List String}
    (anchors : Anchors roots pems) : ∃ server peer client, pems = [server, peer, client] ∧
      roots .server = some server ∧ roots .etcdPeer = some peer ∧ roots .etcdClient = some client := by
  rcases pems with _ | ⟨server, _ | ⟨peer, _ | ⟨client, _ | ⟨more, rest⟩⟩⟩⟩ <;>
    simp only [Anchors, CA.all, List.map_cons, List.map_nil, List.cons.injEq, reduceCtorEq, and_false,
      and_true] at anchors
  exact ⟨server, peer, client, rfl, anchors⟩

/-- A transaction of `Setup`. -/
theorem Knows.transact (knows : Knows b artifacts lrn k l s) {c : Change}
    (kept : ∀ j, c ≠ .deleteBootServer j) {registered : Bool}
    (own : registered = true → k.registered = true ∨ c = .registerBootserver lrn) :
    Knows b artifacts lrn { k with registered } { l with requested := l.requested || c.isStatus }
      (s.commit c) := by
  refine { knows with registered := fun here => ?_, leads := fun leader => ?_ }
  · exact (registered_concat rfl kept lrn).mpr ((own here).imp knows.registered id)
  · have leads := knows.leads leader
    exact { leads with requested := by rw [requested_commit, leads.requested] }

/-- One that is not about the status of the update. -/
theorem Knows.note (knows : Knows b artifacts lrn k l s) {c : Change}
    (kept : ∀ j, c ≠ .deleteBootServer j) (plain : c.isStatus = false) {registered : Bool}
    (own : registered = true → k.registered = true ∨ c = .registerBootserver lrn) :
    Knows b artifacts lrn { k with registered } l (s.commit c) := by
  have after := knows.transact kept own
  rwa [plain, Bool.or_false] at after

theorem Knows.commit (knows : Knows b artifacts lrn k l s) :
    Knows b artifacts lrn k l (s.commit .other) :=
  knows.note (c := .other) (fun _ same => by cases same) rfl .inl

theorem conforms_putVaultRootToken (leader : isLeader b lrn = true) (up : k.etcd = true)
    (hidden : l.unsealKey = none) (token : String) :
    Obeys V b artifacts lrn (request (.putVaultRootToken token)) (Knows b artifacts lrn k l)
      fun _ => Knows b artifacts lrn k { l with rootToken := some token } := by
  refine conforms_request (fun s knows => knows.permits (fun _ => up) fun _ => ?_)
    (fun _ => Knows.stable) ?_
  · exact ⟨leader, (knows.leads leader).unsealKey.trans hidden⟩
  · intro s v t fresh clock knows _ _ answered
    cases answered
    have after := knows.commit
    exact { after with leads := fun _ => { after.leads leader with rootToken := rfl } }

theorem conforms_putVaultUnsealKey (leader : isLeader b lrn = true) (up : k.etcd = true)
    (first : k.stage = none) (elected : k.elected = true) (hidden : l.unsealKey = none)
    {key token : String} (current : l.vault.unsealKey = some key) (booted : l.vault.Booted)
    (stored : l.rootToken = some token) (valid : token ∈ l.vault.tokens) :
    Obeys V b artifacts lrn (request (.putVaultUnsealKey key)) (Knows b artifacts lrn k l)
      fun _ => Knows b artifacts lrn { k with key := some key } { l with unsealKey := some key } := by
  refine conforms_request (fun s knows => knows.permits (fun _ => up) fun _ => ?_)
    (fun _ => Knows.stable) ?_
  · have leads := knows.leads leader
    rw [← leads.vault] at current booted valid
    exact ⟨leader, leads.unsealKey.trans hidden, current, booted, knows.elected elected first, token,
      leads.rootToken.trans stored, valid⟩
  · intro s v t fresh clock knows _ _ answered
    cases answered
    have after := knows.commit
    refine { after with key := ?_, leads := fun _ => { after.leads leader with unsealKey := rfl } }
    rintro key ⟨⟩
    rfl

/-- The server has unsealed its Vault with the key in etcd. -/
def Unsealed (b : BootServers) (artifacts : Artifacts) (lrn : Int) (k : Know) (s : Site V) : Prop :=
  ∃ key l, l.requested = false ∧
    Knows b artifacts lrn { k with running := true, unsealed := true, key := some key } l s

theorem conforms_bootVault [V.Documented] (leader : isLeader b lrn = true) (first : k.stage = none)
    (up : k.etcd = true) (running : k.running = true) (new : l.vault = .uninitialised)
    (hidden : l.unsealKey = none) (noToken : k.token = none) (unrequested : l.requested = false)
    {pems : List String} (anchors : Anchors l.dev.roots pems) :
    Obeys V b artifacts lrn (bootVault pems) (Knows b artifacts lrn k l)
      fun _ => Unsealed b artifacts lrn k := by
  obtain ⟨server, peer, client, rfl, serverRoot, peerRoot, clientRoot⟩ := anchors.roots
  refine (conforms_initVault leader up running new hidden noToken).bind fun keys => ?_
  obtain ⟨unsealKey, rootToken⟩ := keys
  refine (conforms_unseal up running fun s knows _ => ?_).bind fun _ => ?_
  · rw [(knows.leads leader).vault]
    rfl
  have step {elected : Bool} {d : Contents} (op : VaultOp) (config : op.configures = true)
      (valid : rootToken ∈ d.tokens) (admitted : d.Admits op) (imports : op.Imports l.dev.roots) :
      Obeys V b artifacts lrn (request (.vault rootToken op))
        (Knows b artifacts lrn { k with unsealed := true, elected } { l with vault := d })
        fun x => Knows b artifacts lrn { k with unsealed := true, elected := true }
          { l with vault := d.after op x } :=
    conforms_vaultConfig (k := { k with unsealed := true, elected }) (l := { l with vault := d })
      leader up rfl noToken valid hidden config admitted imports
  have own : rootToken ∈ [rootToken] := List.mem_singleton_self _
  -- The first request that is served shows that Vault has a leader.
  refine (step (.setting _) rfl (by exact own) (by exact List.not_mem_nil) trivial).bind fun _ => ?_
  refine Conforms.bind (M := fun _ => Knows b artifacts lrn
    { k with unsealed := true, elected := true }
    { l with vault :=
      { Contents.initialised unsealKey rootToken with
        settings := [.enableAudit "stdout"], mounted := fun _ => true, roots := l.dev.roots } })
    ?_ fun _ => ?_
  · -- one authority after the other
    have import_ {d : Contents} (ca : CA) (pem : String) (valid : rootToken ∈ d.tokens)
        (free : d.mounted ca = false) (none : d.roots ca = none)
        (root : l.dev.roots ca = some pem) :
        Obeys V b artifacts lrn
          (do
            request (.vault rootToken (.mount ca))
            request (.vault rootToken (.configCA ca pem)))
          (Knows b artifacts lrn { k with unsealed := true, elected := true } { l with vault := d })
          fun _ => Knows b artifacts lrn { k with unsealed := true, elected := true }
            { l with vault := (d.after (.mount ca) ()).after (.configCA ca pem) () } :=
      (step (.mount ca) rfl valid free trivial).bind fun _ =>
        step (.configCA ca pem) rfl valid ⟨Function.update_self .., none⟩ root
    refine (import_ .server server (by exact own) (by exact rfl) (by exact rfl) serverRoot).bind
      fun _ => ?_
    refine (import_ .etcdPeer peer (by exact own) (by exact rfl) (by exact rfl) peerRoot).bind
      fun _ => ?_
    refine (import_ .etcdClient client (by exact own) (by exact rfl) (by exact rfl) clientRoot).bind
      fun _ => ?_
    have mounted : Function.update (Function.update (Function.update (fun _ => false) CA.server true)
        CA.etcdPeer true) CA.etcdClient true = fun _ => true := by
      funext ca
      cases ca <;> rfl
    have roots : Function.update (Function.update (Function.update (fun _ => none) CA.server
        (some server)) CA.etcdPeer (some peer)) CA.etcdClient (some client) = l.dev.roots := by
      funext ca
      cases ca <;> simp [serverRoot, peerRoot, clientRoot]
    intro s knows
    rw [← mounted, ← roots]
    exact knows
  refine (step (.writeRole .server _) rfl (by exact own) (by exact rfl) trivial).bind fun _ => ?_
  refine (step (.writeRole .etcdPeer _) rfl (by exact own) (by exact rfl) trivial).bind fun _ => ?_
  refine (step (.writeRole .etcdClient _) rfl (by exact own) (by exact rfl) trivial).bind fun _ => ?_
  refine (step (.writeHumanRole .etcdClient) rfl (by exact own) (by exact rfl) trivial).bind
    fun _ => ?_
  refine (step (.setting (.putPolicy "admin")) rfl (by exact own) ?_ trivial).bind fun _ => ?_
  · exact of_decide_eq_true rfl
  refine (step (.setting (.putPolicy "ca-admin")) rfl (by exact own) ?_ trivial).bind fun _ => ?_
  · exact of_decide_eq_true rfl
  refine (step (.setting (.enableAuth "approle")) rfl (by exact own) ?_ trivial).bind fun _ => ?_
  · exact of_decide_eq_true rfl
  -- The others wait for the unseal key, so the token is there before.
  refine (conforms_putVaultRootToken leader (by exact up) (by exact hidden) rootToken).bind
    fun _ => ?_
  refine (conforms_putVaultUnsealKey leader (by exact up) (by exact first) (by exact rfl)
    (by exact hidden) (by exact rfl) ?_ (by exact rfl) (by exact own)).mono (fun _ knows => knows) ?_
  · refine ⟨fun ca => ?_, fun ca => by cases ca <;> rfl⟩
    cases ca <;> simp [Contents.after, serverRoot, peerRoot, clientRoot]
  · intro _ s knows
    refine ⟨unsealKey, _, ?_, { knows with
      running := fun _ => knows.running running
      elected := fun _ => knows.elected rfl }⟩
    exact unrequested

theorem conforms_joinVault (certifies : k.ledger.Certifies) (up : k.etcd = true)
    (unrequested : l.requested = false) :
    Obeys V b artifacts lrn joinVault (Knows b artifacts lrn k l)
      fun _ => Unsealed b artifacts lrn k := by
  refine Conforms.bind (M := fun key => Knows b artifacts lrn { k with key := some key } l) ?_
    fun key => ?_
  · refine conforms_request (fun s knows => knows.permits (fun _ => up) fun _ => trivial)
      (fun _ => Knows.stable) ?_
    intro s key t fresh clock knows _ _ answered
    obtain ⟨stored, rfl⟩ := perform_awaitVaultUnsealKey answered
    refine { knows with key := ?_ }
    rintro key ⟨⟩
    exact stored
  refine (conforms_setupVault (by exact certifies)).bind fun _ => ?_
  refine (conforms_unseal (by exact up) (by exact rfl) fun s knows good => ?_).mono
    (fun _ knows => knows) ?_
  · exact (good.booted key (knows.key key rfl)).1
  · exact fun _ s knows => ⟨key, l, unrequested, knows⟩

/-! ### The root token and the final certificates -/

/-- The root token is stored before the unseal key, and stays until everybody has restarted. -/
theorem Knows.rootToken (knows : Knows b artifacts lrn k l s) (good : Good b artifacts s)
    (first : k.stage = none) {key : String} (known : k.key = some key) :
    ∃ token, s.rootToken = some token ∧ s.Valid token := by
  have stored : s.unsealKey.isSome = true := by
    rw [knows.key key known]
    rfl
  rcases good.token stored with all | there
  · have own := all lrn knows.member
    rw [Site.At, knows.stage, first] at own
    cases own
  · exact there

theorem conforms_getVaultRootToken (first : k.stage = none) (up : k.etcd = true) {key : String}
    (known : k.key = some key) :
    Obeys V b artifacts lrn (request .getVaultRootToken) (Knows b artifacts lrn k l)
      fun token => Knows b artifacts lrn { k with token := some token } l := by
  refine conforms_request (fun s knows => knows.permits (fun _ => up) fun good => ?_)
    (fun _ => Knows.stable) ?_
  · obtain ⟨token, stored, _⟩ := knows.rootToken good first known
    exact Option.isSome_iff_exists.mpr ⟨token, stored⟩
  · intro s token t fresh clock knows good _ answered
    obtain ⟨token', stored, valid⟩ := knows.rootToken good first known
    obtain ⟨read, rfl⟩ := perform_getVaultRootToken answered
    cases stored.symm.trans read
    refine { knows with token := ?_ }
    rintro token ⟨⟩
    refine ⟨valid, .inr ?_⟩
    rw [show ({ k with token := some token } : Know).stage = none from first]
    exact Option.some_ne_none _ ∘ Eq.symm

/-- Vault has changed nothing. -/
theorem Knows.sameVault (knows : Knows b artifacts lrn k l s) {v : V.State}
    (same : V.contents v = s.vault) : Knows b artifacts lrn k l { s with vaultState := v } := by
  refine { knows with token := fun token here => ?_, leads := fun leader => ?_ }
  · rw [Site.Valid, Site.vault, same]
    exact knows.token token here
  · exact { knows.leads leader with vault := same.trans (knows.leads leader).vault }

/-- What a server has that asks Vault for its final certificates. -/
structure Know.Asks (k : Know) (key token : String) : Prop where
  first : k.stage = none
  etcd : k.etcd = true
  unsealed : k.unsealed = true
  known : k.key = some key
  held : k.token = some token

theorem Know.Asks.ledger {key token : String} (asks : k.Asks key token) {ledger : Ledger} :
    ({ k with ledger } : Know).Asks key token :=
  ⟨asks.first, asks.etcd, asks.unsealed, asks.known, asks.held⟩

section Files

variable [V.Documented] {key token : String} (asks : k.Asks key token)
include asks

/-- A certificate of Vault is long-lived and comes from the same root as the first ones. -/
theorem conforms_issue (ca : CA) :
    Obeys V b artifacts lrn (request (.vault token (.issue ca))) (Knows b artifacts lrn k l)
      fun secret s => secret.ttl = ttl10Year ∧ Knows b artifacts lrn k l s ∧
        Root ca secret.signer s := by
  refine conforms_request (fun s knows => knows.permits (fun _ => asks.etcd) fun good => ?_)
    (fun _ => ?_) ?_
  · refine ⟨knows.unsealed asks.unsealed, (knows.token token asks.held).1, knows.member, ?_, ?_⟩
    · rw [knows.stage, asks.first]
      rfl
    · rw [knows.key key asks.known]
      rfl
  · exact stable_and (fun _ _ same _ => same) (stable_and Knows.stable stable_root)
  · intro s secret t fresh clock knows good _ answered
    obtain ⟨_, _, issued, rfl⟩ := perform_vault answered
    have booted := (good.booted key (knows.key key asks.known)).2
    obtain ⟨⟨root, role⟩, same⟩ :=
      Vault.served (knows.token token asks.held).1 (booted.admits_issue ca) issued
    refine ⟨Option.some.inj (role.symm.trans (booted.role ca)), knows.sameVault same, ?_⟩
    exact good.anchored ca _ root

/-- A server that has its token has a certificate issued and writes it to its files. -/
theorem conforms_reissue (owner : Owner) {caFile : Option CA}
    (own : ∀ ca ∈ caFile, ca = owner.ca) :
    Obeys V b artifacts lrn
      (do
        let secret ← request (.vault token (.issue owner.ca))
        dumpCertFiles secret caFile owner)
      (Knows b artifacts lrn k l) fun _ => Knows b artifacts lrn
        { k with ledger := (k.ledger.hold owner ttl10Year).trust caFile } l := by
  refine (conforms_issue asks owner.ca).bind fun secret => Conforms.assume fun ttl => ?_
  rw [← ttl]
  exact conforms_dumpCertFiles asks.first secret owner own

/-- The rule for a certificate in the middle of a function. -/
theorem conforms_reissue_then (owner : Owner) {caFile : Option CA}
    (own : ∀ ca ∈ caFile, ca = owner.ca) {rest : Prog Unit} {Q : Unit → Site V → Prop}
    (later : Obeys V b artifacts lrn rest (Knows b artifacts lrn
      { k with ledger := (k.ledger.hold owner ttl10Year).trust caFile } l) Q) :
    Obeys V b artifacts lrn
      (do
        let secret ← request (.vault token (.issue owner.ca))
        dumpCertFiles secret caFile owner
        rest)
      (Knows b artifacts lrn k l) Q :=
  Prog.bind_assoc .. ▸ (conforms_reissue asks owner own).bind fun _ => later

end Files

/-- The ledger after `reissueCerts`. -/
def Ledger.reissued (ledger : Ledger) : Ledger :=
  ((((ledger.hold .server ttl10Year).hold .etcdPeer ttl10Year).trust (some .etcdPeer)).hold .vault
    ttl10Year).trust (some .etcdClient)

/-- With the authorities of the first certificates all files are there. -/
theorem Ledger.complete_eq {ledger : Ledger} (cas : ∀ ca, ledger.cas ca = true) :
    (ledger.reissued.hold .etcdBackup ttl10Year).hold .neco ttl10Year = .complete := by
  refine congrArg₂ Ledger.mk ?_ ?_
  · funext ca
    cases ca
    · exact cas .server
    · rfl
    · rfl
  · funext owner
    cases owner <;> rfl

section Files

variable [V.Documented] {key token : String} (asks : k.Asks key token)
include asks

theorem conforms_reissueCerts :
    Obeys V b artifacts lrn (reissueCerts token) (Knows b artifacts lrn k l)
      fun _ => Knows b artifacts lrn { k with ledger := k.ledger.reissued } l := by
  refine (conforms_host rfl fun _ same => by cases same).bind fun _ => ?_
  refine conforms_reissue_then asks .server (fun _ none => by cases none) ?_
  refine (conforms_host rfl fun _ same => by cases same).bind fun _ => ?_
  refine conforms_reissue_then asks.ledger .etcdPeer ?_ ?_
  · rintro ca ⟨⟩
    rfl
  · refine conforms_reissue asks.ledger .vault ?_
    rintro ca ⟨⟩
    rfl

theorem conforms_setupEtcdBackup :
    Obeys V b artifacts lrn (setupEtcdBackup token) (Knows b artifacts lrn k l) fun _ =>
      Knows b artifacts lrn { k with ledger := k.ledger.hold .etcdBackup ttl10Year } l := by
  refine (conforms_host rfl fun _ same => by cases same).bind fun _ => ?_
  refine conforms_reissue_then asks .etcdBackup (fun _ none => by cases none) ?_
  refine (conforms_host rfl fun _ same => by cases same).bind fun _ => ?_
  exact conforms_host rfl fun _ same => by cases same

theorem conforms_setupNecoFiles :
    Obeys V b artifacts lrn (setupNecoFiles token) (Knows b artifacts lrn k l) fun _ =>
      Knows b artifacts lrn
        { k with ledger := k.ledger.hold .neco ttl10Year, configured := true } l := by
  refine conforms_reissue_then asks .neco (fun _ none => by cases none) ?_
  refine conforms_request (fun s knows => knows.permits nofun fun _ => trivial)
    (fun _ => Knows.stable) ?_
  intro s v t fresh clock knows _ _ answered
  cases answered
  exact knows.setMachine ⟨knows.filed.trusted, knows.filed.held⟩ knows.started knows.running
    knows.unsealed knows.led (fun _ => rfl) id

end Files

/-! ### The barriers -/

theorem conforms_registerBootserver (up : k.etcd = true) :
    Obeys V b artifacts lrn (request (.registerBootserver lrn)) (Knows b artifacts lrn k l)
      fun _ => Knows b artifacts lrn { k with registered := true } l := by
  refine conforms_request (fun s knows => knows.permits (fun _ => up) fun _ => ⟨rfl, knows.member⟩)
    (fun _ => Knows.stable) ?_
  intro s v t fresh clock knows _ _ answered
  cases answered
  exact knows.note (fun _ same => by cases same) rfl fun _ => .inr rfl

theorem conforms_recordContainerTag {name : String} (up : k.etcd = true)
    (found : (artifacts.findContainerImage name).isSome = true) :
    Obeys V b artifacts lrn (request (.recordContainerTag lrn name)) (Knows b artifacts lrn k l)
      fun _ => Knows b artifacts lrn { k with tags := k.tags ++ [name] } l := by
  refine conforms_request (fun s knows => knows.permits (fun _ => up) fun _ => ⟨rfl, found⟩)
    (fun _ => Knows.stable) ?_
  intro s v t fresh clock knows _ _ answered
  obtain ⟨kv, recorded, rfl⟩ := perform_recordContainerTag answered
  have after := knows.commit
  refine { after with tags := fun name' member idle => ?_, leads := fun leader => ?_ }
  · rw [tag_record (s := s.commit .other) recorded]
    split
    next same => rw [(keyContainer_injective same).2]
    next other =>
      rcases List.mem_append.mp member with old | new
      · exact after.tags name' old idle
      · exact absurd (congrArg (keyContainer lrn) (List.mem_singleton.mp new)) other
  · exact { after.leads leader with }

/-- What a server has done before the first barrier. -/
structure Know.Prepared (k : Know) : Prop where
  ledger : k.ledger = .complete
  configured : k.configured = true
  registered : k.registered = true
  tags : ∀ name ∈ ["etcd", "vault"], name ∈ k.tags

theorem Knows.prepared (knows : Knows b artifacts lrn k l s) (prepared : k.Prepared) :
    Prepared artifacts s lrn where
  filed := prepared.ledger ▸ knows.filed
  configured := knows.configured prepared.configured
  registered := knows.registered prepared.registered
  tags idle name member := knows.tags name (prepared.tags name member) idle

/-- A server finishes a stage. After the second one only the leader still uses its token. -/
theorem Knows.finish (knows : Knows b artifacts lrn k l s) {stage : Stage}
    (forward : stage = .beforeRestart → k.stage = none) (token : Option String)
    (keeps : ∀ x ∈ token, x ∈ k.token ∧ (isLeader b lrn = true ∨ stage = .beforeRestart)) :
    Knows b artifacts lrn { k with stage := some stage, token } l
      { s with finishes := Setup.finish s.finishes lrn stage } := by
  refine
    { knows with
      stage := (stage_finish s lrn lrn stage).trans (if_pos rfl)
      elected := nofun
      token := fun x here => ?_
      passed := fun stage' here => ?_
      leads := fun leader => { knows.leads leader with } }
  · obtain ⟨old, free⟩ := keeps x here
    refine ⟨(knows.token x old).1, free.imp id ?_⟩
    rintro rfl
    exact fun same => by cases same
  · have passed := knows.passed stage' here
    cases stage' with
    | beforeRestart =>
      intro i member
      rw [stage_finish]
      split
      · exact Option.some_ne_none _
      · exact passed i member
    | afterRestart =>
      intro i member
      have old := passed i member
      rw [Site.At, stage_finish]
      split
      next same =>
        subst same
        cases stage with
        | afterRestart => rfl
        | beforeRestart =>
          rw [Site.At, knows.stage, forward rfl] at old
          cases old
      · exact old

theorem conforms_finish {stage : Stage} (up : k.etcd = true) (prepared : k.Prepared)
    (forward : stage = .beforeRestart → k.stage = none)
    (led : stage = .afterRestart → k.led = true) (token : Option String)
    (keeps : ∀ x ∈ token, x ∈ k.token ∧ (isLeader b lrn = true ∨ stage = .beforeRestart)) :
    Obeys V b artifacts lrn (request (.finish lrn stage)) (Knows b artifacts lrn k l)
      fun _ => Knows b artifacts lrn { k with stage := some stage, token } l := by
  refine conforms_request (fun s knows => knows.permits (fun _ => up) fun _ => ?_)
    (fun _ => Knows.stable) ?_
  · refine ⟨rfl, knows.member, knows.prepared prepared, fun before => ?_,
      fun after => knows.led (led after)⟩
    rw [knows.stage, forward before]
    rfl
  · intro s v t fresh clock knows _ _ answered
    cases answered
    exact knows.commit.finish forward token keeps

/-- The key of a server that `GetFinished` lists holds the stage. -/
theorem at_of_record {p : Pair String String} {i : Int} {stage : Stage}
    (member : p ∈ s.finishes.pairs) (record : IsRecord p i stage) : s.At i stage := by
  have found : s.finishes.get (keyFinish i) = some p := KV.get_eq_some.mpr ⟨member, record.2.1⟩
  rw [Site.At, Site.stage, found, Option.map_some, record.2.2]

theorem at_of_finished (good : Good b artifacts s) {stage : Stage} {finished : List Int}
    (returned : getFinished s.finishes stage = some finished)
    (all : finished.length = b.lrns.length) : ∀ i ∈ b.lrns, s.At i stage := by
  have records : ∀ p ∈ s.finishes.pairs, ∃ i stage', IsRecord p i stage' := by
    intro p member
    obtain ⟨i, _, stage', record⟩ := good.records p member
    exact ⟨i, stage', record⟩
  obtain ⟨lrns, same, nodup, members⟩ := getFinished_records stage records
  cases returned.symm.trans same
  have inside : finished ⊆ b.lrns := by
    intro i member
    obtain ⟨p, here, record⟩ := (members i).mp member
    obtain ⟨j, other, stage', record'⟩ := good.records p here
    rwa [keyFinish_injective (record.2.1.symm.trans record'.2.1)]
  -- As many as there are boot servers, each of them once: these are all.
  have perm := (nodup.subperm inside).perm_of_length_le all.ge
  intro i member
  obtain ⟨p, here, record⟩ := (members i).mp (perm.mem_iff.mpr member)
  exact at_of_record here record

theorem conforms_awaitFinished {stage : Stage} (up : k.etcd = true) :
    Obeys V b artifacts lrn (request (.awaitFinished stage)) (Knows b artifacts lrn k l)
      fun _ => Knows b artifacts lrn { k with passed := some stage } l := by
  refine conforms_request (fun s knows => knows.permits (fun _ => up) fun _ => trivial)
    (fun _ => Knows.stable) ?_
  intro s v t fresh clock knows good _ answered
  obtain ⟨rfl, finished, returned, all⟩ := perform_awaitFinished answered
  refine { knows with passed := ?_ }
  rintro stage ⟨⟩
  have at_ := at_of_finished good returned all
  cases stage with
  | beforeRestart =>
    intro i member
    rw [at_ i member]
    exact Option.some_ne_none _
  | afterRestart => exact at_

/-! ### The parts of `Setup` -/

/-- What a server knows when it has passed the first barrier. -/
def Know.registering (k : Know) : Know :=
  { k with
    ledger := .complete, configured := true, registered := true,
    tags := k.tags ++ ["etcd"] ++ ["vault"], stage := some .beforeRestart,
    passed := some .beforeRestart }

theorem mem_tags {tags : List String} {name : String} (member : name ∈ ["etcd", "vault"]) :
    name ∈ tags ++ ["etcd"] ++ ["vault"] := by
  rw [List.append_assoc]
  exact List.mem_append_right tags member

theorem Know.prepared_registering (k : Know) : k.registering.Prepared :=
  ⟨rfl, rfl, rfl, fun _ => mem_tags⟩

theorem conforms_register [V.Documented] {key token : String} (asks : k.Asks key token)
    (cas : ∀ ca, k.ledger.cas ca = true) :
    Obeys V b artifacts lrn (register lrn token) (Knows b artifacts lrn k l)
      fun _ => Knows b artifacts lrn k.registering l := by
  refine (conforms_reissueCerts asks).bind fun _ => ?_
  refine (conforms_setupEtcdBackup asks.ledger).bind fun _ => ?_
  refine Conforms.bind (M := fun _ => Knows b artifacts lrn
    { k with ledger := .complete, configured := true } l) ?_ fun _ => ?_
  · rw [← Ledger.complete_eq cas]
    exact conforms_setupNecoFiles asks.ledger
  refine (conforms_registerBootserver (by exact asks.etcd)).bind fun _ => ?_
  refine (conforms_recordContainerTag (by exact asks.etcd) artifacts.etcd).bind fun _ => ?_
  refine (conforms_recordContainerTag (by exact asks.etcd) artifacts.vault).bind fun _ => ?_
  refine (conforms_finish (by exact asks.etcd) ?_ (fun _ => by exact asks.first) ?_ k.token ?_).bind
    fun _ => conforms_awaitFinished (by exact asks.etcd)
  · exact ⟨rfl, rfl, rfl, fun _ => mem_tags⟩
  · exact fun same => by cases same
  · exact fun x here => ⟨here, .inr rfl⟩

/-- etcd or Vault is restarted on the server. -/
theorem Knows.restart (knows : Knows b artifacts lrn k l s) (later : k.stage ≠ none) {m : Machine}
    (files : m.files = (s.machines lrn).files) (services : m.services = (s.machines lrn).services)
    (runs : k.running = true → m.running = true) (open_ : k.unsealed = true → m.unsealed = true)
    (config : k.configured = true → m.configured = true) :
    Knows b artifacts lrn { k with led := false } l (s.restart lrn m) := by
  have filed : Filed { m with led := false } s.dev.roots k.ledger := by
    refine ⟨fun ca known => ?_, fun owner ttl known => ?_⟩
    · rw [files]
      exact knows.filed.trusted ca known
    · rw [files]
      exact knows.filed.held owner ttl known
  have after : Knows b artifacts lrn { k with led := false } l
      (s.setMachine lrn { m with led := false }) := by
    refine knows.setMachine filed (fun here => ?_) runs open_ nofun config fun idle => ?_
    · rw [services]
      exact knows.started here
    · simp only [Machine.serving, services] at idle
      exact idle
  exact
    { after with
      elected := fun _ first => absurd first later
      leads := fun leader => { after.leads leader with } }

/-- What a server knows that restarts: it is between the two barriers. -/
structure Know.Restarts (k : Know) (key token : String) : Prop where
  stage : k.stage = some .beforeRestart
  passed : k.passed = some .beforeRestart
  started : k.started = true
  unsealed : k.unsealed = true
  configured : k.configured = true
  known : k.key = some key
  held : k.token = some token

theorem Know.Restarts.mayRestart {key token : String} (restarts : k.Restarts key token)
    (knows : Knows b artifacts lrn k l s) : lrn ∈ b.lrns ∧ (∀ i ∈ b.lrns, s.stage i ≠ none) ∧
      ¬s.At lrn .afterRestart := by
  refine ⟨knows.member, knows.passed .beforeRestart restarts.passed, fun after => ?_⟩
  rw [Site.At, knows.stage, restarts.stage] at after
  exact absurd (itoa_injective (Option.some.inj after)) (by decide)

section Restart

variable {key token : String} (restarts : k.Restarts key token)
include restarts

theorem conforms_restartEtcd :
    Obeys V b artifacts lrn (request (.host (.restartService "etcd-container")))
      (Knows b artifacts lrn k l)
      fun _ => Knows b artifacts lrn { k with led := false, etcd := false } l := by
  refine conforms_request (fun s knows => knows.permits nofun fun _ => restarts.mayRestart knows)
    (fun _ => Knows.stable) ?_
  intro s v t fresh clock knows _ _ answered
  simp only [Site.perform, Site.serveHost, String.reduceEq, if_false, if_true] at answered
  cases answered
  have later : k.stage ≠ none := by
    rw [restarts.stage]
    exact Option.some_ne_none _
  exact (knows.restart later rfl rfl knows.running knows.unsealed knows.configured).setEtcd false

/-- Vault is unsealed again when it is restarted. -/
theorem conforms_restartVault [V.Documented] (up : k.etcd = true) :
    Obeys V b artifacts lrn (request (.host (.restartService "vault")))
      (Knows b artifacts lrn k l) fun _ => Knows b artifacts lrn { k with led := false } l := by
  refine conforms_request (fun s knows => knows.permits nofun fun _ => restarts.mayRestart knows)
    (fun _ => Knows.stable) ?_
  intro s v t fresh clock knows good _ answered
  simp only [Site.perform, Site.serveHost, if_true] at answered
  cases answered
  have later : k.stage ≠ none := by
    rw [restarts.stage]
    exact Option.some_ne_none _
  -- `neco vault unseal` finds the configuration, etcd and the right key
  refine knows.restart later rfl rfl (fun _ => rfl) (fun _ => ?_) knows.configured
  have stored := knows.key key restarts.known
  have right := Vault.Documented.unsealing s.vaultState key (good.booted key stored).1
  simp [Site.unseals, stored, knows.configured restarts.configured, knows.etcd up, right]

theorem conforms_waitVaultLeader (up : k.etcd = true) :
    Obeys V b artifacts lrn (request (.waitVaultLeader token))
      (Knows b artifacts lrn k l) fun _ => Knows b artifacts lrn { k with led := true } l := by
  refine conforms_request (fun s knows => knows.permits (fun _ => up) fun _ => ?_)
    (fun _ => Knows.stable) ?_
  · exact ⟨knows.member, knows.unsealed restarts.unsealed, (knows.token token restarts.held).1⟩
  · intro s v t fresh clock knows _ _ answered
    obtain ⟨_, rfl⟩ := perform_waitVaultLeader answered
    exact knows.setMachine ⟨knows.filed.trusted, knows.filed.held⟩ knows.started knows.running
      knows.unsealed (fun _ => rfl) knows.configured id

end Restart

/-- What a server knows when it has passed the second barrier. -/
def Know.restarting (k : Know) (token : Option String) : Know :=
  { k with
    stage := some .afterRestart, token, etcd := true, led := true, passed := some .afterRestart }

theorem conforms_restartServers [V.Documented] (prepared : k.Prepared) {key token : String}
    (restarts : k.Restarts key token) (kept : Option String)
    (keeps : ∀ x ∈ kept, x ∈ k.token ∧ isLeader b lrn = true) :
    Obeys V b artifacts lrn (restartServers lrn token) (Knows b artifacts lrn k l)
      fun _ => Knows b artifacts lrn (k.restarting kept) l := by
  -- what the two restarts do not change
  have still {led etcd : Bool} : ({ k with led, etcd } : Know).Restarts key token :=
    { restarts with }
  refine (conforms_restartEtcd restarts).bind fun _ => ?_
  refine (conforms_waitEtcdForVault (by exact restarts.started)).bind fun _ => ?_
  refine (conforms_restartVault still (by exact rfl)).bind fun _ => ?_
  refine (conforms_waitVaultLeader still (by exact rfl)).bind fun _ => ?_
  refine (conforms_finish (by exact rfl) ?_ ?_ (fun _ => by exact rfl) kept fun x here => ?_).bind
    fun _ => conforms_awaitFinished (by exact rfl)
  · exact { prepared with }
  · exact fun same => by cases same
  · exact ⟨(keeps x here).1, .inl (keeps x here).2⟩

/-- The server has passed both barriers, and the leader has put the request. -/
def Completed (b : BootServers) (artifacts : Artifacts) (lrn : Int) (s : Site V) : Prop :=
  ∃ k l, k.passed = some .afterRestart ∧ (isLeader b lrn = true → l.requested = true) ∧
    Knows b artifacts lrn k l s

theorem conforms_getDebianVersion :
    Obeys V b artifacts lrn (request .getDebianVersion) (Knows b artifacts lrn k l)
      fun _ => Knows b artifacts lrn k l := by
  refine conforms_same nofun (fun _ _ _ => trivial) fun s v t fresh clock answered => ?_
  cases answered
  rfl

theorem conforms_now :
    Obeys V b artifacts lrn (request .now) (Knows b artifacts lrn k l)
      fun _ => Knows b artifacts lrn k l := by
  refine conforms_same nofun (fun _ _ _ => trivial) fun s v t fresh clock answered => ?_
  cases answered
  rfl

section Etcd

variable (up : k.etcd = true)
include up

theorem conforms_updateNecoRelease {key : String} (known : k.key = some key) (version : String) :
    Obeys V b artifacts lrn (request (.updateNecoRelease version)) (Knows b artifacts lrn k l)
      fun _ => Knows b artifacts lrn k l := by
  refine conforms_request (fun s knows => knows.permits (fun _ => up) fun _ => ?_)
    (fun _ => Knows.stable) ?_
  · exact Option.isSome_iff_exists.mpr ⟨key, knows.key key known⟩
  · intro s v t fresh clock knows _ _ answered
    rw [perform_updateNecoRelease answered]
    exact knows.note (fun _ same => by cases same) rfl .inl

theorem conforms_putProxyConfig {proxy : String} :
    Obeys V b artifacts lrn (request (.putProxyConfig proxy)) (Knows b artifacts lrn k l)
      fun _ => Knows b artifacts lrn k l := by
  refine conforms_request (fun s knows => knows.permits (fun _ => up) fun _ => trivial)
    (fun _ => Knows.stable) ?_
  intro s v t fresh clock knows _ _ answered
  cases answered
  exact knows.commit

theorem conforms_putGitHubToken {token : String} :
    Obeys V b artifacts lrn (request (.putGitHubToken token)) (Knows b artifacts lrn k l)
      fun _ => Knows b artifacts lrn k l := by
  refine conforms_request (fun s knows => knows.permits (fun _ => up) fun _ => trivial)
    (fun _ => Knows.stable) ?_
  intro s v t fresh clock knows _ _ answered
  cases answered
  exact knows.commit

theorem conforms_userAdd {name pre : String} :
    Obeys V b artifacts lrn (request (.userAdd name pre)) (Knows b artifacts lrn k l)
      fun _ => Knows b artifacts lrn k l := by
  refine conforms_same (fun _ => up) (fun _ _ _ => trivial) fun s v t fresh clock answered => ?_
  cases answered
  rfl

theorem conforms_enableEtcdAuth :
    Obeys V b artifacts lrn enableEtcdAuth (Knows b artifacts lrn k l)
      fun _ => Knows b artifacts lrn k l := by
  refine (conforms_userAdd up).bind fun _ => (conforms_userAdd up).bind fun _ => ?_
  refine (conforms_userAdd up).bind fun _ => (conforms_userAdd up).bind fun _ => ?_
  refine conforms_same (fun _ => up) (fun _ _ _ => trivial) fun s v t fresh clock answered => ?_
  cases answered
  rfl

end Etcd

/-- The leader revokes its token when nobody else needs it. -/
theorem conforms_revokeRootToken (leader : isLeader b lrn = true)
    (up : k.etcd = true) (passed : k.passed = some .afterRestart) (unsealed : k.unsealed = true)
    {token : String} (held : k.token = some token) :
    Obeys V b artifacts lrn (revokeRootToken token) (Knows b artifacts lrn k l)
      fun _ s => ∃ l', l'.requested = l.requested ∧
        Knows b artifacts lrn { k with token := none } l' s := by
  have stable : (world V b artifacts lrn).Stable fun s => ∃ l', l'.requested = l.requested ∧
      Knows b artifacts lrn { k with token := none } l' s := by
    rintro s t ⟨l', same, knows⟩ rely
    exact ⟨l', same, Knows.stable s t knows rely⟩
  refine Conforms.bind (M := fun _ s => ∃ l', l'.requested = l.requested ∧
    Knows b artifacts lrn { k with token := none } l' s) ?_ fun _ => ?_
  · refine conforms_request (fun s knows => knows.permits (fun _ => up) fun _ => ?_)
      (fun _ => stable) ?_
    · exact ⟨leader, knows.passed .afterRestart passed, knows.unsealed unsealed,
        (knows.token token held).1⟩
    · intro s v t fresh clock knows _ _ answered
      have leads := knows.leads leader
      obtain ⟨w, _, rfl⟩ := perform_revokeSelf answered
      refine ⟨{ l with vault := V.contents w }, rfl, ?_⟩
      exact { knows with
        token := fun _ none => by cases none
        leads := fun _ => { leads with vault := rfl } }
  · refine Conforms.of_exists fun l' => Conforms.assume fun same => ?_
    refine conforms_request (fun s knows => knows.permits (fun _ => up) fun _ => ?_)
      (fun _ => stable) ?_
    · exact ⟨leader, knows.passed .afterRestart passed⟩
    · intro s v t fresh clock knows _ _ answered
      cases answered
      have after := knows.commit
      exact ⟨{ l' with rootToken := none }, same,
        { after with leads := fun leader => { after.leads leader with rootToken := rfl } }⟩

theorem conforms_putRequest (leader : isLeader b lrn = true) (up : k.etcd = true)
    (passed : k.passed = some .afterRestart) {key : String} (known : k.key = some key)
    (unrequested : l.requested = false) (version : String) (startedAt : Int) :
    Obeys V b artifacts lrn (request (.putRequest (Setup.firstRequest b version startedAt)))
      (Knows b artifacts lrn k l)
      fun _ => Knows b artifacts lrn k { l with requested := true } := by
  have stored (s : Site V) (knows : Knows b artifacts lrn k l s) : s.unsealKey.isSome = true := by
    rw [knows.key key known]
    rfl
  refine conforms_request (fun s knows => knows.permits (fun _ => up) fun _ => ?_)
    (fun _ => Knows.stable) ?_
  · exact ⟨leader, stored s knows, knows.passed .afterRestart passed,
      (knows.leads leader).requested.trans unrequested, version, startedAt, rfl⟩
  · intro s v t fresh clock knows _ _ answered
    simp only [Site.perform, stored s knows, if_true] at answered
    cases answered
    have after := knows.transact (c := .putRequest (Setup.firstRequest b version startedAt))
      (fun _ same => by cases same) .inl
    rw [unrequested, Bool.false_or] at after
    exact after

theorem conforms_putFirstRequest [V.Documented] (leader : isLeader b lrn = true)
    (up : k.etcd = true) (passed : k.passed = some .afterRestart) (unsealed : k.unsealed = true)
    {key token : String} (known : k.key = some key) (held : k.token = some token)
    (unrequested : l.requested = false) (opts : Options) :
    Obeys V b artifacts lrn (putFirstRequest b opts token) (Knows b artifacts lrn k l)
      fun _ => Completed b artifacts lrn := by
  refine conforms_getDebianVersion.bind fun ver => ?_
  refine (conforms_updateNecoRelease up known ver).bind fun _ => ?_
  refine (conforms_onlyIf (conforms_putProxyConfig up)).bind fun _ => ?_
  refine conforms_now.bind fun startedAt => ?_
  refine (conforms_putRequest leader up passed known unrequested ver startedAt).bind fun _ => ?_
  -- Whether the token is revoked or not, nobody uses it any more.
  refine Conforms.bind (M := fun _ s => ∃ l', l'.requested = true ∧
    Knows b artifacts lrn { k with token := none } l' s) ?_ fun _ => ?_
  · rw [onlyIf]
    split
    · exact conforms_revokeRootToken leader up passed unsealed held
    · exact fun s knows => ⟨_, rfl, { knows with token := fun _ none => by cases none }⟩
  refine Conforms.of_exists fun l' => Conforms.assume fun requested => ?_
  refine (conforms_enableEtcdAuth (by exact up)).bind fun _ => ?_
  refine (conforms_onlyIf (conforms_putGitHubToken (by exact up))).mono (fun _ knows => knows) ?_
  exact fun _ s knows => ⟨{ k with token := none }, l', passed, fun _ => requested, knows⟩

/-! ### `Setup` -/

/-- What a server knows when it starts, and what the leader knows. -/
def Know.start : Know :=
  ⟨none, .empty, true, false, false, false, false, false, false, false, false, false, [], none, none,
    none⟩

def Lead.start : Lead :=
  ⟨.notStarted, .development, [], .uninitialised, none, none, false⟩

theorem conforms_startServices :
    Obeys V b artifacts lrn startServices (Completed b artifacts lrn)
      fun _ => Completed b artifacts lrn := by
  refine Conforms.of_exists fun k => Conforms.of_exists fun l => Conforms.assume fun passed =>
    Conforms.assume fun requested => ?_
  have may {name : String} (which : name = "neco-worker" ∨ name = "neco-updater") (s : Site V)
      (knows : Knows b artifacts lrn k l s) : MayStart b s lrn name :=
    .inr (.inr ⟨which, knows.passed .afterRestart passed⟩)
  refine Conforms.call (fun _ => Knows b artifacts lrn k l) ?_ (fun _ => Knows.stable) ?_ fun _ => ?_
  · exact fun s knows => knows.permits nofun fun _ => trivial
  · rintro s r t knows ⟨_, choice, answered⟩
    rwa [answer_quiet rfl answered]
  refine (conforms_startService k.running (by decide) (may (.inl rfl)) .inl).bind fun _ => ?_
  refine (conforms_startService k.running (by decide) (may (.inr rfl)) .inl).mono
    (fun _ knows => knows) ?_
  exact fun _ s knows => ⟨k, l, passed, requested, knows⟩

theorem conforms_completeSetup [V.Documented] (first : k.stage = none) (started : k.started = true)
    (up : k.etcd = true) (certifies : k.ledger.Certifies) (opts : Options) :
    Obeys V b artifacts lrn (completeSetup b opts lrn) (Unsealed b artifacts lrn k)
      fun _ => Completed b artifacts lrn := by
  refine Conforms.of_exists fun key => Conforms.of_exists fun l => Conforms.assume fun new => ?_
  refine (conforms_getVaultRootToken (by exact first) (by exact up) (by exact rfl)).bind
    fun token => ?_
  refine (conforms_register (by exact ⟨first, up, rfl, rfl, rfl⟩) (by exact certifies.cas)).bind
    fun _ => ?_
  -- After the second barrier only the leader still uses the root token.
  cases leader : isLeader b lrn with
  | true =>
    refine (conforms_restartServers (Know.prepared_registering _)
      (by exact ⟨rfl, rfl, started, rfl, rfl, rfl, rfl⟩) (some token)
      fun x here => ⟨by exact here, leader⟩).bind fun _ => ?_
    refine (conforms_putFirstRequest leader rfl rfl rfl rfl rfl new opts).bind fun _ => ?_
    exact conforms_startServices
  | false =>
    refine (conforms_restartServers (Know.prepared_registering _)
      (by exact ⟨rfl, rfl, started, rfl, rfl, rfl, rfl⟩) none fun x here => by cases here).bind
      fun _ => ?_
    refine Conforms.bind (M := fun _ => Completed b artifacts lrn) ?_ fun _ => conforms_startServices
    exact fun s knows => ⟨_, l, rfl, fun leads => absurd (leader.symm.trans leads) Bool.false_ne_true,
      knows⟩

theorem conforms_setup [V.Documented] (b : BootServers) (artifacts : Artifacts) (opts : Options)
    {lrn : Int} (member : lrn ∈ b.lrns) :
    Obeys V b artifacts lrn (setup b opts lrn) (Knows b artifacts lrn .start .start)
      fun _ => Completed b artifacts lrn := by
  refine (conforms_host rfl fun _ same => by cases same).bind fun _ => ?_
  refine (conforms_installTools artifacts.etcd).bind fun _ => ?_
  refine (conforms_installTools artifacts.vault).bind fun _ => ?_
  refine (conforms_host rfl fun _ same => by cases same).bind fun _ => ?_
  cases leader : isLeader b lrn with
  | true =>
    refine (conforms_prepareCA_leader leader rfl rfl rfl rfl rfl
      (fun i here => mem_sortInts.mpr here) member).bind fun pems => ?_
    refine Conforms.of_exists fun d => Conforms.of_exists fun ledger =>
      Conforms.assume fun anchors => Conforms.assume fun certifies => ?_
    refine (conforms_etcdSetup (by exact certifies)).bind fun _ => ?_
    refine Conforms.bind (M := fun _ => Unsealed b artifacts lrn
      { Know.start with
        ledger, unsigned := false, served := false, started := true, etcd := true,
        running := true }) ?_ fun _ => ?_
    · refine (conforms_setupVault (by exact certifies)).bind fun _ => ?_
      exact conforms_bootVault leader rfl rfl rfl rfl rfl rfl rfl anchors
    · exact conforms_completeSetup rfl rfl rfl certifies opts
  | false =>
    refine (conforms_prepareCA_follower rfl rfl).bind fun pems => ?_
    refine Conforms.bind (M := fun _ => Certified b artifacts lrn
      { Know.start with started := true, etcd := true } .start) ?_ fun _ => ?_
    · -- a follower that is told to stop leaves the loop without certificates
      refine Conforms.of_or ?_ ?_
      · refine Conforms.of_exists fun ledger => Conforms.assume fun certifies => ?_
        refine (conforms_etcdSetup (by exact certifies)).mono (fun _ knows => knows) ?_
        exact fun _ s knows => ⟨ledger, certifies, knows⟩
      · exact conforms_etcdSetup_stopped.mono (fun _ stopped => stopped) fun _ _ never => never.elim
    · refine Conforms.of_exists fun ledger => Conforms.assume fun certifies => ?_
      refine Conforms.bind (M := fun _ => Unsealed b artifacts lrn
        { Know.start with
          ledger, unsigned := false, served := false, started := true, etcd := true }) ?_ fun _ => ?_
      · exact conforms_joinVault (by exact certifies) (by exact rfl) (by exact rfl)
      · exact conforms_completeSetup rfl rfl rfl certifies opts

end Neco.Bootstrap
