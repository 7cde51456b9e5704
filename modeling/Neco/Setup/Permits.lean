import Neco.Setup.Site
import Neco.Properties.SetupBarrier
import Neco.Properties.Unregister

/-!
# What a server does during the setup

`Permits` says in which states `Setup` makes each of its calls, and `Good` what these calls keep
true of all servers together. Both are proved for every interleaving: a server knows its own
machine and its own keys exactly, of the rest it only knows what the others cannot take back.
Only the leader changes the authorities, the keys of Vault and the request, so it knows these
exactly too. Nobody asks Vault for anything that it does not promise.
-/

namespace Neco.Bootstrap

open Program Neco.Setup KeyValue

variable {V : Vault}

/-! ### Certificates and stages -/

/-- The value of the key of a server below `finish/`. -/
def Site.stage (s : Site V) (lrn : Int) : Option String :=
  (s.finishes.get (keyFinish lrn)).map (·.value)

def Site.At (s : Site V) (lrn : Int) (stage : Stage) : Prop :=
  s.stage lrn = some (itoa stage.number)

/-- The tag that a server has recorded for an image. -/
def Site.tag (s : Site V) (lrn : Int) (name : String) : Option String :=
  (s.installed.get (keyContainer lrn name)).map (·.value)

def Site.registered (s : Site V) : List Int := (store s.history).bootservers

/-- `Setup` has written something below `status/`. -/
def Site.requested (s : Site V) : Bool := s.own.any (·.isStatus)

/-- All authorities are there and have the role `system`. -/
structure Contents.Signs (c : Contents) : Prop where
  root : ∀ ca, (c.roots ca).isSome = true
  role : ∀ ca, (c.roles ca).isSome = true
  engine : c.engine = some 1

structure Contents.Booted (c : Contents) : Prop where
  root : ∀ ca, (c.roots ca).isSome = true
  role : ∀ ca, c.roles ca = some ttl10Year

def Site.Ready (s : Site V) : Prop := s.devState = .running ∧ s.dev.Signs

/-- Vault accepts the root token. -/
def Site.Valid (s : Site V) (token : String) : Prop := token ∈ s.vault.tokens

/-- A text belongs into a file: it is of the right kind and comes from the right root. -/
def Signed (roots : CA → Option String) : File → Text → Prop
  | .ca ca, .issuingCA pem => roots ca = some pem
  | .cert owner, .certificate secret => roots owner.ca = some secret.signer
  | .key owner, .privateKey secret => roots owner.ca = some secret.signer
  | _, _ => False

/-- Which files a server has: those of authorities, and for each owner a certificate with its
key, of some lifetime. -/
structure Ledger where
  cas : CA → Bool
  owners : Owner → Option String

namespace Ledger

def empty : Ledger := ⟨fun _ => false, fun _ => none⟩

/-- All files, with the certificates that Vault has issued. -/
def complete : Ledger := ⟨fun _ => true, fun _ => some ttl10Year⟩

def forget (l : Ledger) (owner : Owner) : Ledger :=
  { l with owners := Function.update l.owners owner none }

def hold (l : Ledger) (owner : Owner) (ttl : String) : Ledger :=
  { l with owners := Function.update l.owners owner (some ttl) }

def trust (l : Ledger) : Option CA → Ledger
  | none => l
  | some ca => { l with cas := Function.update l.cas ca true }

end Ledger

structure Filed (m : Machine) (roots : CA → Option String) (l : Ledger) : Prop where
  trusted : ∀ ca, l.cas ca = true →
    ∃ pem, roots ca = some pem ∧ m.files (.ca ca) = some (.issuingCA pem)
  held : ∀ owner ttl, l.owners owner = some ttl → ∃ secret : Secret, secret.ttl = ttl ∧
    roots owner.ca = some secret.signer ∧ m.files (.cert owner) = some (.certificate secret) ∧
      m.files (.key owner) = some (.privateKey secret)

/-- What etcd and Vault need to start: all authorities, and the first three certificates. -/
def Site.Certified (s : Site V) (lrn : Int) : Prop :=
  ∃ l, Filed (s.machines lrn) s.dev.roots l ∧ (∀ ca, l.cas ca = true) ∧
    ∀ owner ∈ [Owner.server, .etcdPeer, .vault], (l.owners owner).isSome = true

/-- What a server has done before it finishes the first stage. Its worker may install other
images later. -/
structure Prepared (artifacts : Artifacts) (s : Site V) (lrn : Int) : Prop where
  filed : Filed (s.machines lrn) s.dev.roots .complete
  configured : (s.machines lrn).configured = true
  registered : lrn ∈ s.registered
  tags : (s.machines lrn).serving = false →
    ∀ name ∈ ["etcd", "vault"], s.tag lrn name = artifacts.findContainerImage name

/-! ### What all servers keep true together -/

/-- All servers have finished the second stage. -/
def Site.Restarted (b : BootServers) (s : Site V) : Prop := ∀ lrn ∈ b.lrns, s.At lrn .afterRestart

/-- `Setup` writes one thing below `status/` at most: the first request. All servers and no
others were registered when it was put, and they had finished the second stage. -/
def Requested (b : BootServers) (s : Site V) : Prop :=
  s.requested = false ∨
  s.Restarted b ∧ ∃ info version startedAt later,
    s.history = info ++ .putRequest (Setup.firstRequest b version startedAt) :: later ∧
    (∀ lrn, lrn ∈ (store info).bootservers ↔ lrn ∈ b.lrns) ∧
    s.own.filter (·.isStatus) = [.putRequest (Setup.firstRequest b version startedAt)]

structure Good (b : BootServers) (artifacts : Artifacts) (s : Site V) : Prop where
  unstarted : s.devState = .notStarted → s.devServer = V.development
  devToken : devRootToken ∈ s.dev.tokens
  unmounted : s.dev.engine ≠ some 1 → s.dev.secrets = []
  ready : bootstrapPath ∈ s.dev.secrets → s.dev.Signs
  records : ∀ p ∈ s.finishes.pairs, ∃ lrn ∈ b.lrns, ∃ stage, IsRecord p lrn stage
  booted : ∀ key, s.unsealKey = some key → s.vault.unsealKey = some key ∧ s.vault.Booted
  token : s.unsealKey.isSome = true → s.Restarted b ∨ ∃ token, s.rootToken = some token ∧ s.Valid token
  prepared : ∀ lrn, s.stage lrn ≠ none → Prepared artifacts s lrn
  signed : ∀ lrn file text, (s.machines lrn).files file = some text → Signed s.dev.roots file text
  anchored : ∀ ca pem, s.vault.roots ca = some pem → s.dev.roots ca = some pem
  members : ∀ lrn ∈ s.registered, lrn ∈ b.lrns
  /-- Vault has a leader until the servers restart, and again when all have seen one. -/
  elected : s.unsealKey.isSome = true → ∀ i ∈ b.lrns, s.stage i = none → s.elected = true
  led : ∀ lrn ∈ b.lrns, (∀ i ∈ b.lrns, (s.machines i).led = true) → s.elected = true
  restarted : ∀ i, s.At i .afterRestart → (s.machines i).led = true
  /-- The update process is started after that. -/
  serving : ∀ i, (s.machines i).serving = true → s.Restarted b
  quiet : ∀ c ∈ s.history, c.isStatus = true → s.Restarted b
  requested : Requested b s

/-! ### When a server makes its calls -/

/-- Requests to the development server. Everybody has certificates issued and tells that it is
done; the rest is left to the leader, who lets the others go on when all is ready. -/
def MayAskDev (b : BootServers) (s : Site V) (lrn : Int) : VaultOp → Prop
  | .issue _ => s.devState = .abandoned ∨ s.Ready
  | .write path => s.devState = .abandoned ∨
      s.Ready ∧ (path = bootstrapDonePath lrn ∨ isLeader b lrn = true ∧ path = bootstrapPath)
  | .unmountSecret => isLeader b lrn = true ∧ s.devState = .running ∧ s.dev.engine = some 2
  | .setting _ => False
  | op => isLeader b lrn = true ∧ s.devState = .running ∧ s.dev.Admits op

/-- Requests to Vault. Everybody has certificates issued before it finishes the first stage; the
leader sets Vault up before it gives away the unseal key, with the authorities of the development
server. -/
def MayAskVault (b : BootServers) (s : Site V) (lrn : Int) : VaultOp → Prop
  | .issue _ => lrn ∈ b.lrns ∧ s.stage lrn = none ∧ s.unsealKey.isSome = true
  | op => isLeader b lrn = true ∧ s.unsealKey = none ∧ s.vault.Admits op ∧
      (∀ ca, op ≠ .generateRoot ca) ∧ ∀ ca pem, op = .configCA ca pem → s.dev.roots ca = some pem

/-- etcd is started with certificates, the services of the update process after all servers
have restarted. A cancelled `Setup` tries to start etcd without certificates, in vain. -/
def MayStart (b : BootServers) (s : Site V) (lrn : Int) (name : String) : Prop :=
  name = "etcd-container" ∧ (s.cancelled lrn = true ∨ s.Certified lrn) ∨
  name = "vault" ∧ s.Certified lrn ∨
  (name = "neco-worker" ∨ name = "neco-updater") ∧ s.Restarted b

/-- The states in which a server makes a call. -/
def Permits (b : BootServers) (artifacts : Artifacts) (lrn : Int) (s : Site V) : Call → Prop
  | .host (.findContainerImage name) => (artifacts.findContainerImage name).isSome = true
  | .host (.startService name) => MayStart b s lrn name
  | .host (.restartService _) => lrn ∈ b.lrns ∧ (∀ i ∈ b.lrns, s.stage i ≠ none) ∧
      ¬s.At lrn .afterRestart
  | .host .waitEtcdForVault => "etcd-container" ∈ (s.machines lrn).services
  | .host _ => True
  | .getDebianVersion => True
  | .now => True
  | .writeFile file text => s.stage lrn = none ∧ Signed s.dev.roots file text
  | .startDev => isLeader b lrn = true ∧ s.devState = .notStarted
  | .stopDev succeeded => isLeader b lrn = true ∧
      (succeeded = true → ∀ i ∈ b.lrns, bootstrapDonePath i ∈ s.dev.secrets)
  | .dev op => MayAskDev b s lrn op
  | .awaitSecret _ => True
  | .initVault => isLeader b lrn = true ∧ (s.machines lrn).running = true ∧
      s.vault = .uninitialised ∧ s.unsealKey = none
  | .unsealVault key => (s.machines lrn).running = true ∧ s.vault.unsealKey = some key
  | .vault token op => (s.machines lrn).unsealed = true ∧ s.Valid token ∧ MayAskVault b s lrn op
  | .revokeSelf token => isLeader b lrn = true ∧ s.Restarted b ∧
      (s.machines lrn).unsealed = true ∧ s.Valid token
  | .waitVaultLeader token => lrn ∈ b.lrns ∧ (s.machines lrn).unsealed = true ∧ s.Valid token
  | .putVaultRootToken _ => isLeader b lrn = true ∧ s.unsealKey = none
  | .putVaultUnsealKey key => isLeader b lrn = true ∧ s.unsealKey = none ∧
      s.vault.unsealKey = some key ∧ s.vault.Booted ∧ s.elected = true ∧
        ∃ token, s.rootToken = some token ∧ s.Valid token
  | .awaitVaultUnsealKey => True
  | .getVaultRootToken => s.rootToken.isSome = true
  | .deleteVaultRootToken => isLeader b lrn = true ∧ s.Restarted b
  | .registerBootserver i => i = lrn ∧ lrn ∈ b.lrns
  | .recordContainerTag i name => i = lrn ∧ (artifacts.findContainerImage name).isSome = true
  | .finish i stage => i = lrn ∧ lrn ∈ b.lrns ∧ Prepared artifacts s lrn ∧
      (stage = .beforeRestart → s.stage lrn = none) ∧
      (stage = .afterRestart → (s.machines lrn).led = true)
  | .awaitFinished _ => True
  | .updateNecoRelease _ => s.unsealKey.isSome = true
  | .putRequest req => isLeader b lrn = true ∧ s.unsealKey.isSome = true ∧ s.Restarted b ∧
      s.requested = false ∧ ∃ version startedAt,
        req = Setup.firstRequest b version startedAt
  | .putProxyConfig _ => True
  | .putGitHubToken _ => True
  | .userAdd _ _ => True
  | .authEnable => True

/-! ### What a server can rely on -/

/-- The parts of the development server that only the leader changes. -/
def Contents.shape (c : Contents) : Contents := { c with secrets := [] }

/-- What the others leave to the leader. -/
structure LeftToLeader (s t : Site V) : Prop where
  devState : t.devState = s.devState
  dev : t.dev.shape = s.dev.shape
  secrets : ∀ path ∈ s.dev.secrets, path ∈ t.dev.secrets
  vault : t.vault = s.vault
  rootToken : t.rootToken = s.rootToken
  unsealKey : t.unsealKey = s.unsealKey
  requested : t.requested = s.requested

/-- What a step of another server, of etcd, Vault or a service, or a signal does as the server
`lrn` sees it. -/
structure Rely (b : BootServers) (lrn : Int) (s t : Site V) : Prop where
  machine : t.machines lrn = s.machines lrn
  etcd : s.etcd lrn = true → t.etcd lrn = true
  cancelled : s.cancelled lrn = true → t.cancelled lrn = true
  stage : t.stage lrn = s.stage lrn
  tag : (s.machines lrn).serving = false → ∀ name, t.tag lrn name = s.tag lrn name
  done : bootstrapDonePath lrn ∈ t.dev.secrets ↔ bootstrapDonePath lrn ∈ s.dev.secrets
  roots : ∀ ca pem, s.dev.roots ca = some pem → t.dev.roots ca = some pem
  abandoned : s.devState = .abandoned → t.devState = .abandoned
  ready : s.Ready → bootstrapDonePath lrn ∉ s.dev.secrets → t.Ready ∨ t.devState = .abandoned
  unsealKey : ∀ key, s.unsealKey = some key → t.unsealKey = some key
  token : ∀ token, s.Valid token → ¬s.At lrn .afterRestart → t.Valid token
  elected : s.elected = true → s.stage lrn = none → t.elected = true
  registered : ∀ i ∈ s.registered, i ∈ t.registered
  recorded : ∀ i, s.stage i ≠ none → t.stage i ≠ none
  restarted : ∀ i, s.At i .afterRestart → t.At i .afterRestart
  leader : isLeader b lrn = true → LeftToLeader s t

def world (V : Vault) (b : BootServers) (artifacts : Artifacts) (lrn : Int) :
    World Call Reply (Site V) where
  answers c s r t := Good b artifacts s ∧ ∃ choice, s.answer b artifacts lrn choice c = some (r, t)
  rely := Rely b lrn

/-- The permission to make a call, for good states. The leader makes none after it has given up,
and etcd answers where it is needed. -/
def permits (b : BootServers) (artifacts : Artifacts) (lrn : Int) (s : Site V) (c : Call) : Prop :=
  Good b artifacts s → (isLeader b lrn = true → s.devState ≠ .abandoned) ∧
    (c.needsEtcd = true → s.etcd lrn = true) ∧ Permits b artifacts lrn s c

/-! ### The parts of the site -/

/-- More roots. -/
abbrev RootsGrow (roots roots' : CA → Option String) : Prop :=
  ∀ ca pem, roots ca = some pem → roots' ca = some pem

theorem Signed.mono {roots roots' : CA → Option String} (grow : RootsGrow roots roots')
    {file : File} {text : Text} (signed : Signed roots file text) : Signed roots' file text := by
  cases file <;> cases text <;> first | exact grow _ _ signed | exact signed.elim

theorem Filed.mono {m : Machine} {roots roots' : CA → Option String} {l : Ledger}
    (grow : RootsGrow roots roots') (filed : Filed m roots l) : Filed m roots' l where
  trusted ca known := by
    obtain ⟨pem, root, file⟩ := filed.trusted ca known
    exact ⟨pem, grow ca pem root, file⟩
  held owner ttl known := by
    obtain ⟨secret, same, root, files⟩ := filed.held owner ttl known
    exact ⟨secret, same, grow _ _ root, files⟩

theorem bootstrapDonePath_injective : Function.Injective bootstrapDonePath :=
  (append_left_injective "secret/bootstrap_done/").comp itoa_injective

theorem toList_bootstrapDonePath (lrn : Int) : (bootstrapDonePath lrn).toList =
    "secret/bootstrap_done/".toList ++ (itoa lrn).toList := String.toList_append ..

theorem bootstrapDonePath_ne (lrn : Int) : bootstrapDonePath lrn ≠ bootstrapPath := by
  intro same
  -- Only the path of a server has an underscore.
  have inside : '_' ∈ (bootstrapDonePath lrn).toList := by
    rw [toList_bootstrapDonePath]
    exact List.mem_append_left _ (by decide)
  rw [same] at inside
  exact absurd inside (by decide)

theorem keyContainer_injective {i j : Int} {name name' : String}
    (same : keyContainer i name = keyContainer j name') : i = j ∧ name = name' := by
  have lrns : i = j := by
    rw [keyContainer_eq, keyContainer_eq] at same
    apply lrn_eq_of_hasPrefix (s := "containers/" ++ name) (t := "containers/" ++ name')
    rw [same, hasPrefix_iff]
  subst lrns
  exact ⟨rfl, append_left_injective (keyInstallPrefix ++ itoa i ++ "/containers/") same⟩

theorem isLeader_unique {b : BootServers} {i j : Int} (first : isLeader b i = true)
    (second : isLeader b j = true) : i = j := by
  simp only [isLeader, decide_eq_true_eq] at first second
  exact Option.some.inj (first.symm.trans second)

theorem stage_finish (s : Site V) (i j : Int) (stage : Stage) :
    Site.stage { s with finishes := Setup.finish s.finishes i stage } j =
      if j = i then some (itoa stage.number) else s.stage j := by
  simp only [Site.stage, Setup.finish, KV.get_put, keyFinish_injective.eq_iff]
  split <;> rfl

theorem tag_record {artifacts : Artifacts} {s : Site V} {i : Int} {name : String} {kv : Etcd}
    (recorded : Neco.recordContainerTag artifacts.findContainerImage s.installed i name = some kv)
    (j : Int) (name' : String) :
    Site.tag { s with installed := kv } j name' =
      if keyContainer j name' = keyContainer i name then artifacts.findContainerImage name
      else s.tag j name' := by
  obtain ⟨tag, found, rfl⟩ := Option.map_eq_some_iff.mp recorded
  simp only [Site.tag, KV.get_put, found]
  split <;> rfl

theorem registered_concat {s t : Site V} {c : Change} (history : t.history = s.history ++ [c])
    (plain : ∀ i, c ≠ .deleteBootServer i) (i : Int) :
    i ∈ t.registered ↔ i ∈ s.registered ∨ c = .registerBootserver i := by
  simp only [Site.registered, history, mem_bootservers_iff, infoKeys, History.replay_concat]
  cases c with
  | registerBootserver j =>
    rw [applyKeys, isRegistered_registerBootserver, or_comm, Change.registerBootserver.injEq, eq_comm]
  | deleteBootServer j => exact absurd rfl (plain j)
  | _ => simp [applyKeys]

theorem requested_commit (s : Site V) (c : Change) :
    (s.commit c).requested = (s.requested || c.isStatus) := by
  simp [Site.requested, Site.commit]

theorem registered_commit (s : Site V) (i : Int) :
    i ∈ (s.commit .other).registered ↔ i ∈ s.registered := by
  rw [registered_concat rfl fun _ same => by cases same]
  simp

/-! ### Requests to Vault -/

namespace Contents

variable {c : Contents} {op : VaultOp} {x : op.Value}

/-- A root is set once. -/
theorem roots_after (admitted : c.Admits op) : RootsGrow c.roots (c.after op x).roots := by
  have set (ca : CA) (pem : String) (free : c.roots ca = none) :
      RootsGrow c.roots (Function.update c.roots ca (some pem)) := by
    intro ca' pem' old
    rw [Function.update_of_ne]
    · exact old
    · rintro rfl
      cases free.symm.trans old
  cases op with
  | generateRoot ca => exact set ca x admitted.2
  | configCA ca pem => exact set ca pem admitted.2
  | _ => exact fun _ _ => id

/-- A new root is generated or configured. -/
theorem root_of_after {ca : CA} {pem : String} (root : (c.after op x).roots ca = some pem) :
    c.roots ca = some pem ∨ op = .generateRoot ca ∨ op = .configCA ca pem := by
  cases op with
  | generateRoot ca' =>
    by_cases same : ca = ca'
    · exact .inr (.inl (same ▸ rfl))
    · exact .inl (by simpa [after, same] using root)
  | configCA ca' pem' =>
    by_cases same : ca = ca'
    · subst same
      have same : pem' = pem := by simpa [after] using root
      exact .inr (.inr (same ▸ rfl))
    · exact .inl (by simpa [after, same] using root)
  | _ => exact .inl root

theorem secrets_after (path : ∀ path, op ≠ .write path) (engine : op ≠ .unmountSecret) :
    (c.after op x).secrets = c.secrets := by
  cases op with
  | write p => exact absurd rfl (path p)
  | unmountSecret => exact absurd rfl engine
  | _ => rfl

theorem tokens_after : (c.after op x).tokens = c.tokens := by
  cases op <;> rfl

/-- Secrets are kept by an engine of version 1 only. -/
theorem unmounted_after (admitted : c.Admits op) (unmounted : c.engine ≠ some 1 → c.secrets = [])
    (other : (c.after op x).engine ≠ some 1) : (c.after op x).secrets = [] := by
  cases op with
  | write path => exact absurd admitted other
  | unmountSecret => rfl
  | mountSecret => exact absurd rfl other
  | _ => exact unmounted other

/-- A server that signs goes on to sign, unless the engine is taken away. -/
theorem Signs.after (signs : c.Signs) (admitted : c.Admits op) (engine : op ≠ .unmountSecret) :
    (c.after op x).Signs where
  root ca := by
    obtain ⟨pem, root⟩ := Option.isSome_iff_exists.mp (signs.root ca)
    rw [roots_after admitted ca pem root]
    rfl
  role ca := by
    cases op with
    | writeRole ca' ttl =>
      simp only [Contents.after, Function.update_apply]
      split
      · rfl
      · exact signs.role ca
    | _ => exact signs.role ca
  engine := by
    cases op with
    | unmountSecret => exact absurd rfl engine
    | mountSecret => rfl
    | _ => exact signs.engine

theorem Signs.admits_issue (signs : c.Signs) (ca : CA) : c.Admits (.issue ca) :=
  ⟨signs.root ca, signs.role ca⟩

theorem Booted.admits_issue (booted : c.Booted) (ca : CA) : c.Admits (.issue ca) :=
  ⟨booted.root ca, by rw [booted.role ca]; rfl⟩

end Contents

/-- The requests to the development server are among those that are promised to be served. -/
theorem MayAskDev.admits {b : BootServers} {s : Site V} {lrn : Int} {op : VaultOp}
    (may : MayAskDev b s lrn op) (going : s.devState ≠ .abandoned) :
    s.devState = .running ∧ s.dev.Admits op := by
  cases op with
  | issue ca =>
    have ready := may.resolve_left going
    exact ⟨ready.1, ready.2.admits_issue ca⟩
  | write path =>
    obtain ⟨ready, _⟩ := may.resolve_left going
    exact ⟨ready.1, ready.2.engine⟩
  | unmountSecret =>
    refine ⟨may.2.1, ?_⟩
    rw [Contents.Admits, may.2.2]
    rfl
  | setting x => exact may.elim
  | _ => exact may.2

theorem MayAskVault.admits {b : BootServers} {artifacts : Artifacts} {s : Site V} {lrn : Int}
    {op : VaultOp} (good : Good b artifacts s) (may : MayAskVault b s lrn op) :
    s.vault.Admits op := by
  cases op with
  | issue ca =>
    obtain ⟨key, known⟩ := Option.isSome_iff_exists.mp may.2.2
    exact (good.booted key known).2.admits_issue ca
  | _ => exact may.2.2.1

end Neco.Bootstrap
