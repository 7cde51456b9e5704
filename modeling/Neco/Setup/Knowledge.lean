import Neco.Setup.Guarantees

/-!
# What a server knows during the setup

`Knows` is the assertion that the proof of conformance carries through `Setup`: what the server
has done so far, and for the leader also what it has made of the shared state. The others keep
it, and every call of the server extends it.
-/

namespace Neco.Bootstrap

open Program Neco.Setup KeyValue

variable {V : Vault}

/-- What a server has done and learnt so far. -/
structure Know where
  stage : Option Stage
  ledger : Ledger
  /-- It has not yet told the leader that it is done, and the development server signs for it. -/
  unsigned : Bool
  served : Bool
  /-- etcd has been started, and answers. -/
  started : Bool
  etcd : Bool
  running : Bool
  unsealed : Bool
  /-- It has found Vault with a leader, before it finished a stage and after its restart. -/
  elected : Bool
  led : Bool
  configured : Bool
  registered : Bool
  tags : List String
  key : Option String
  token : Option String
  /-- The barrier that it has passed. -/
  passed : Option Stage

/-- What the leader has made of the shared state. -/
structure Lead where
  devState : DevState
  dev : Contents
  /-- The servers that have told that they are done. -/
  collected : List Int
  vault : Contents
  rootToken : Option String
  unsealKey : Option String
  requested : Bool

structure Leads (l : Lead) (s : Site V) : Prop where
  going : l.devState ≠ .abandoned
  devState : s.devState = l.devState
  dev : s.dev.shape = l.dev
  collected : ∀ i ∈ l.collected, bootstrapDonePath i ∈ s.dev.secrets
  vault : s.vault = l.vault
  rootToken : s.rootToken = l.rootToken
  unsealKey : s.unsealKey = l.unsealKey
  requested : s.requested = l.requested

/-- All servers have passed the stage. -/
def Passed (b : BootServers) (s : Site V) : Stage → Prop
  | .beforeRestart => ∀ i ∈ b.lrns, s.stage i ≠ none
  | .afterRestart => s.Restarted b

structure Knows (b : BootServers) (artifacts : Artifacts) (lrn : Int) (k : Know) (l : Lead)
    (s : Site V) : Prop where
  member : lrn ∈ b.lrns
  stage : s.stage lrn = k.stage.map fun stage => itoa stage.number
  filed : Filed (s.machines lrn) s.dev.roots k.ledger
  unsigned : k.unsigned = true → bootstrapDonePath lrn ∉ s.dev.secrets
  served : k.served = true → k.unsigned = true ∧ (s.Ready ∨ s.devState = .abandoned)
  started : k.started = true → "etcd-container" ∈ (s.machines lrn).services
  etcd : k.etcd = true → s.etcd lrn = true
  running : k.running = true → (s.machines lrn).running = true
  unsealed : k.unsealed = true → (s.machines lrn).unsealed = true
  elected : k.elected = true → k.stage = none → s.elected = true
  led : k.led = true → (s.machines lrn).led = true
  configured : k.configured = true → (s.machines lrn).configured = true
  registered : k.registered = true → lrn ∈ s.registered
  tags : ∀ name ∈ k.tags, (s.machines lrn).serving = false →
    s.tag lrn name = artifacts.findContainerImage name
  key : ∀ key ∈ k.key, s.unsealKey = some key
  /-- The token of a server that is not the leader is valid until it finishes. -/
  token : ∀ token ∈ k.token, s.Valid token ∧
    (isLeader b lrn = true ∨ k.stage ≠ some .afterRestart)
  passed : ∀ stage ∈ k.passed, Passed b s stage
  leads : isLeader b lrn = true → Leads l s

section Knows

variable {b : BootServers} {artifacts : Artifacts} {lrn : Int} {k : Know} {l : Lead} {s t : Site V}

theorem Leads.rely (leads : Leads l s) (left : LeftToLeader s t) : Leads l t where
  going := leads.going
  devState := left.devState.trans leads.devState
  dev := left.dev.trans leads.dev
  collected i member := left.secrets _ (leads.collected i member)
  vault := left.vault.trans leads.vault
  rootToken := left.rootToken.trans leads.rootToken
  unsealKey := left.unsealKey.trans leads.unsealKey
  requested := left.requested.trans leads.requested

/-- The leader alone changes the token, and not before all others have finished. -/
theorem Site.Valid.left {token : String} (left : LeftToLeader s t) (valid : s.Valid token) :
    t.Valid token := by
  rw [Site.Valid, left.vault]
  exact valid

theorem Passed.rely {i : Int} {stage : Stage} (rely : Rely b i s t) (passed : Passed b s stage) :
    Passed b t stage := by
  cases stage with
  | beforeRestart => exact fun j member => rely.recorded j (passed j member)
  | afterRestart => exact fun j member => rely.restarted j (passed j member)

theorem Knows.stable : (world V b artifacts lrn).Stable (Knows b artifacts lrn k l) := by
  intro s t knows rely
  have rely : Rely b lrn s t := rely
  refine
    { member := knows.member
      stage := rely.stage.trans knows.stage
      filed := rely.machine ▸ knows.filed.mono rely.roots
      unsigned := fun here => mt rely.done.mp (knows.unsigned here)
      served := ?_
      started := fun here => rely.machine ▸ knows.started here
      etcd := fun here => rely.etcd (knows.etcd here)
      running := fun here => rely.machine ▸ knows.running here
      unsealed := fun here => rely.machine ▸ knows.unsealed here
      elected := ?_
      led := fun here => rely.machine ▸ knows.led here
      configured := fun here => rely.machine ▸ knows.configured here
      registered := fun here => rely.registered lrn (knows.registered here)
      tags := ?_
      key := fun key here => rely.unsealKey key (knows.key key here)
      token := ?_
      passed := fun stage here => (knows.passed stage here).rely rely
      leads := fun leader => (knows.leads leader).rely (rely.leader leader) }
  · intro here
    obtain ⟨unsigned, ready | gone⟩ := knows.served here
    · exact ⟨unsigned, rely.ready ready (knows.unsigned unsigned)⟩
    · exact ⟨unsigned, .inr (rely.abandoned gone)⟩
  · intro here first
    refine rely.elected (knows.elected here first) ?_
    rw [knows.stage, first]
    rfl
  · intro name here idle
    have idle : (s.machines lrn).serving = false := rely.machine ▸ idle
    exact (rely.tag idle name).trans (knows.tags name here idle)
  · intro token here
    obtain ⟨valid, leader | before⟩ := knows.token token here
    · exact ⟨valid.left (rely.leader leader), .inl leader⟩
    · refine ⟨rely.token token valid fun after => before ?_, .inr before⟩
      -- The key of the server tells its stage.
      rw [Site.At, knows.stage, Option.map_eq_some_iff] at after
      obtain ⟨stage, known, same⟩ := after
      rw [known, Stage.number_injective (itoa_injective same)]

/-! ### Rules for calls -/

/-- From `P` on, a program of the server makes only permitted calls and returns in `M`. -/
abbrev Obeys {α : Type} (V : Vault) (b : BootServers) (artifacts : Artifacts) (lrn : Int) (p : Prog α)
    (P : Site V → Prop) (M : α → Site V → Prop) : Prop :=
  Conforms (world V b artifacts lrn) (permits b artifacts lrn) p P M

/-- The rule for a call whose error is returned. -/
theorem conforms_request {c : Call} {P : Site V → Prop} {M : Value c → Site V → Prop}
    (permitted : ∀ s, P s → permits b artifacts lrn s c)
    (stable : ∀ v, (world V b artifacts lrn).Stable (M v))
    (reached : ∀ s v t fresh clock, P s → Good b artifacts s →
      (c.takesContext = true → s.cancelled lrn = false) →
      s.perform b artifacts fresh clock lrn c = .done v t → M v t) :
    Obeys V b artifacts lrn (request c) P M := by
  refine Conforms.call (fun r s => ∀ v, r = .ok v → M v s) permitted ?_ ?_ ?_
  · intro r s t before rely v same
    exact stable v s t (before v same) rely
  · rintro s r t before ⟨good, choice, answered⟩ v rfl
    -- Only a call that is served returns a value.
    cases choice with
    | fault =>
      simp only [Site.answer] at answered
      split at answered <;> cases answered
    | lost fresh clock =>
      simp only [Site.answer] at answered
      split at answered <;> cases answered
    | serve fresh clock =>
      simp only [Site.answer] at answered
      split at answered
      · cases answered
      next context =>
        split at answered
        next value t' served =>
          cases answered
          refine reached s v t fresh clock before good (fun takes => ?_) (perform_of_serve served)
          simpa [takes] using context
        · cases answered
        · cases answered
  · intro r
    cases r with
    | ok v => exact fun s returned => returned v rfl
    | error e => trivial

theorem Knows.permits {c : Call} (knows : Knows b artifacts lrn k l s)
    (etcd : c.needsEtcd = true → k.etcd = true)
    (permitted : Good b artifacts s → Permits b artifacts lrn s c) : permits b artifacts lrn s c := by
  refine fun good => ⟨fun leader => ?_, fun needed => knows.etcd (etcd needed), permitted good⟩
  rw [(knows.leads leader).devState]
  exact (knows.leads leader).going

/-- A call that only reads, or whose effect is not looked at. -/
theorem conforms_same {c : Call} (etcd : c.needsEtcd = true → k.etcd = true)
    (permitted : ∀ s : Site V, Knows b artifacts lrn k l s → Good b artifacts s →
      Permits b artifacts lrn s c)
    (same : ∀ (s : Site V) v t fresh clock,
      s.perform b artifacts fresh clock lrn c = .done v t → t = s) :
    Obeys V b artifacts lrn (request c) (Knows b artifacts lrn k l)
      fun _ => Knows b artifacts lrn k l := by
  refine conforms_request (fun s knows => knows.permits etcd (permitted s knows))
    (fun _ => Knows.stable) ?_
  intro s v t fresh clock knows _ _ served
  rw [same s v t fresh clock served]
  exact knows

/-- An assertion about the machine of the server and the roots. -/
theorem stable_machine {P : Machine → (CA → Option String) → Prop}
    (mono : ∀ m roots roots', RootsGrow roots roots' → P m roots → P m roots') :
    (world V b artifacts lrn).Stable fun s => P (s.machines lrn) s.dev.roots := by
  intro s t before rely
  have rely : Rely b lrn s t := rely
  rw [show t.machines lrn = s.machines lrn from rely.machine]
  exact mono _ _ _ rely.roots before

theorem stable_and {P Q : Site V → Prop} (first : (world V b artifacts lrn).Stable P)
    (second : (world V b artifacts lrn).Stable Q) :
    (world V b artifacts lrn).Stable fun s => P s ∧ Q s :=
  fun s t ⟨p, q⟩ rely => ⟨first s t p rely, second s t q rely⟩

/-- The root `pem` belongs to the authority. -/
abbrev Root (ca : CA) (pem : String) (s : Site V) : Prop := s.dev.roots ca = some pem

theorem stable_root {ca : CA} {pem : String} : (world V b artifacts lrn).Stable (Root ca pem) :=
  stable_machine (P := fun _ roots => roots ca = some pem) fun _ _ _ grow => grow ca pem

/-! ### Files -/

/-- A step on the server's own machine. -/
theorem Knows.setMachine {m : Machine} (knows : Knows b artifacts lrn k l s) {ledger : Ledger}
    {started running unsealed led configured : Bool} (filed : Filed m s.dev.roots ledger)
    (start : started = true → "etcd-container" ∈ m.services)
    (runs : running = true → m.running = true) (open_ : unsealed = true → m.unsealed = true)
    (sees : led = true → m.led = true) (config : configured = true → m.configured = true)
    (idle : m.serving = false → (s.machines lrn).serving = false) :
    Knows b artifacts lrn { k with ledger, started, running, unsealed, led, configured } l
      (s.setMachine lrn m) := by
  have machine : (s.setMachine lrn m).machines lrn = m := Function.update_self ..
  exact
    { knows with
      filed := by rwa [machine]
      started := by rwa [machine]
      running := by rwa [machine]
      unsealed := by rwa [machine]
      led := by rwa [machine]
      configured := by rwa [machine]
      tags := fun name here => by
        rw [machine]
        exact fun still => knows.tags name here (idle still)
      leads := fun leader => { knows.leads leader with } }

theorem Knows.setFiles {files : File → Option Text} (knows : Knows b artifacts lrn k l s)
    {ledger : Ledger} (filed : Filed { s.machines lrn with files } s.dev.roots ledger) :
    Knows b artifacts lrn { k with ledger } l
      (s.setMachine lrn { s.machines lrn with files }) :=
  knows.setMachine filed knows.started knows.running knows.unsealed knows.led knows.configured id

/-- A file of an owner is overwritten. -/
theorem Filed.forget {m : Machine} {roots : CA → Option String} {ledger : Ledger}
    (filed : Filed m roots ledger) (owner : Owner) {file : File}
    (whose : file = .cert owner ∨ file = .key owner) (content : Option Text) :
    Filed { m with files := Function.update m.files file content } roots (ledger.forget owner) where
  trusted ca known := by
    obtain ⟨pem, root, present⟩ := filed.trusted ca known
    refine ⟨pem, root, ?_⟩
    rcases whose with rfl | rfl <;> simpa using present
  held owner' ttl known := by
    by_cases same : owner' = owner
    · subst same
      simp [Ledger.forget] at known
    · have known : ledger.owners owner' = some ttl := by
        simpa [Ledger.forget, same] using known
      obtain ⟨secret, ttls, root, cert, key⟩ := filed.held owner' ttl known
      refine ⟨secret, ttls, root, ?_, ?_⟩
      · rcases whose with rfl | rfl <;> simpa [same] using cert
      · rcases whose with rfl | rfl <;> simpa [same] using key

/-- A certificate is there when both of its files are. -/
theorem Filed.hold {m : Machine} {roots : CA → Option String} {ledger : Ledger} {owner : Owner}
    (filed : Filed m roots (ledger.forget owner)) {secret : Secret}
    (root : roots owner.ca = some secret.signer)
    (cert : m.files (.cert owner) = some (.certificate secret))
    (key : m.files (.key owner) = some (.privateKey secret)) :
    Filed m roots (ledger.hold owner secret.ttl) where
  trusted := filed.trusted
  held owner' ttl known := by
    by_cases same : owner' = owner
    · subst same
      have ttls : secret.ttl = ttl := by simpa [Ledger.hold] using known
      exact ⟨secret, ttls, root, cert, key⟩
    · refine filed.held owner' ttl ?_
      simpa [Ledger.hold, Ledger.forget, same] using known

/-- All files of an authority are the same. -/
theorem Filed.trust {m : Machine} {roots : CA → Option String} {ledger : Ledger}
    (filed : Filed m roots ledger) {ca : CA} {pem : String} (root : roots ca = some pem) :
    Filed { m with files := Function.update m.files (.ca ca) (some (.issuingCA pem)) } roots
      (ledger.trust (some ca)) where
  trusted ca' known := by
    by_cases same : ca' = ca
    · subst same
      exact ⟨pem, root, by simp⟩
    · have known : ledger.cas ca' = true := by simpa [Ledger.trust, same] using known
      simpa [same] using filed.trusted ca' known
  held owner ttl known := by simpa using filed.held owner ttl known

/-- `dumpCertFiles` leaves a certificate with its key, and the file of its authority. -/
theorem conforms_dumpCertFiles (first : k.stage = none) (secret : Secret) (owner : Owner)
    {caFile : Option CA} (own : ∀ ca ∈ caFile, ca = owner.ca) :
    Obeys V b artifacts lrn (dumpCertFiles secret caFile owner)
      (fun s => Knows b artifacts lrn k l s ∧ Root owner.ca secret.signer s)
      fun _ => Knows b artifacts lrn
        { k with ledger := (k.ledger.hold owner secret.ttl).trust caFile } l := by
  have writable (s : Site V) (ledger : Ledger) (knows : Knows b artifacts lrn { k with ledger } l s) :
      s.stage lrn = none := by
    rw [knows.stage, show ({ k with ledger } : Know).stage = none from first]
    rfl
  refine Conforms.bind (M := fun _ s =>
    Knows b artifacts lrn { k with ledger := k.ledger.forget owner } l s ∧
      Root owner.ca secret.signer s ∧
      (s.machines lrn).files (.cert owner) = some (.certificate secret)) ?_ fun _ => ?_
  · refine conforms_request (fun s ⟨knows, root⟩ => knows.permits nofun fun _ => ?_) ?_ ?_
    · exact ⟨writable s k.ledger knows, root⟩
    · refine fun _ => stable_and Knows.stable (stable_and stable_root ?_)
      exact stable_machine (P := fun m _ => m.files (.cert owner) = some (.certificate secret))
        fun _ _ _ _ => id
    · rintro s ⟨⟩ t fresh clock ⟨knows, root⟩ _ _ served
      cases served
      refine ⟨knows.setFiles (knows.filed.forget owner (.inl rfl) _), root, ?_⟩
      simp [Site.setMachine, Secret.text]
  refine Conforms.bind (M := fun _ s =>
    Knows b artifacts lrn { k with ledger := k.ledger.hold owner secret.ttl } l s ∧
      Root owner.ca secret.signer s) ?_ fun _ => ?_
  · refine conforms_request (fun s ⟨knows, root, _⟩ => knows.permits nofun fun _ => ?_) ?_ ?_
    · exact ⟨writable s _ knows, root⟩
    · exact fun _ => stable_and Knows.stable stable_root
    · rintro s ⟨⟩ t fresh clock ⟨knows, root, cert⟩ _ _ served
      cases served
      have again : (k.ledger.forget owner).forget owner = k.ledger.forget owner := by
        simp [Ledger.forget]
      have filed := knows.filed.forget owner (.inr rfl) (some (secret.text (.key owner)))
      rw [again] at filed
      refine ⟨knows.setFiles (filed.hold root ?_ ?_), root⟩
      · simpa using cert
      · simp [Secret.text]
  · cases caFile with
    | none => exact fun s knows => knows.1
    | some ca =>
      obtain rfl := own ca rfl
      refine conforms_request (fun s ⟨knows, root⟩ => knows.permits nofun fun _ => ?_)
        (fun _ => Knows.stable) ?_
      · exact ⟨writable s _ knows, root⟩
      · rintro s ⟨⟩ t fresh clock ⟨knows, root⟩ _ _ served
        cases served
        exact knows.setFiles (knows.filed.trust root)

end Knows

end Neco.Bootstrap
