import Neco.Setup.Vault
import Neco.Storage.Info
import Neco.Lib.Run

/-!
# The boot servers during the initial setup

What the programs of `Setup` share: the development server of Vault, etcd and Vault itself, and
what each server keeps on its host. Every call may fail, with or without its effect; otherwise
it is served, is refused because it makes no sense in the present state, or has to wait.
The keys in etcd are kept in parts, by their prefixes.

A member of etcd does not answer at once when it is started or restarted. Vault denies requests
while it has no leader, and loses its leader when etcd or Vault is restarted on some server;
otherwise it keeps it. Whatever else goes wrong in between counts as a call that fails.
The services that `Setup` starts in the end go on by themselves.
-/

namespace Neco.Bootstrap

open Program Neco.Setup

inductive DevState where
  | notStarted
  | running
  | stopped
  /-- The leader has stopped it because it could not go on. -/
  | abandoned
  deriving DecidableEq, Repr

/-- What is kept on a boot server. -/
structure Machine where
  files : File → Option Text
  /-- `NecoConfFile` exists. -/
  configured : Bool
  /-- The server of Vault is running, and has been unsealed. -/
  running : Bool
  unsealed : Bool
  /-- It has found Vault with a leader since it restarted etcd and Vault. -/
  led : Bool
  services : List String

namespace Machine

def initial : Machine := ⟨fun _ => none, false, false, false, false, []⟩

/-- The update process runs on the server. -/
def serving (m : Machine) : Bool :=
  m.services.contains "neco-worker" || m.services.contains "neco-updater"

end Machine

variable {V : Vault}

structure Site (V : Vault) where
  devState : DevState
  /-- The development server, or what it was when it was stopped. -/
  devServer : V.State
  /-- What Vault keeps in etcd. -/
  vaultState : V.State
  /-- Vault has a leader. -/
  elected : Bool
  /-- The servers whose member of etcd answers. -/
  etcd : Int → Bool
  machines : Int → Machine
  /-- The context of `Setup` is done on these servers. -/
  cancelled : Int → Bool
  rootToken : Option String
  unsealKey : Option String
  /-- The keys below `finish/` and below `install/`. -/
  finishes : Etcd
  installed : Etcd
  /-- All transactions of etcd so far, and those that `Setup` has made. -/
  history : List Change
  own : List Change

def Site.initial : Site V :=
  ⟨.notStarted, V.development, V.uninitialised, false, fun _ => false, fun _ => .initial,
    fun _ => false, none, none, .empty, .empty, [], []⟩

namespace Site

/-- What is known of the two servers of Vault. -/
abbrev dev (s : Site V) : Contents := V.contents s.devServer

abbrev vault (s : Site V) : Contents := V.contents s.vaultState

def setMachine (s : Site V) (lrn : Int) (m : Machine) : Site V :=
  { s with machines := Function.update s.machines lrn m }

def cancel (s : Site V) (lrn : Int) : Site V :=
  { s with cancelled := Function.update s.cancelled lrn true }

/-- A transaction of `Setup`. -/
def commit (s : Site V) (c : Change) : Site V :=
  { s with history := s.history ++ [c], own := s.own ++ [c] }

/-- Whether Vault can be asked at the server `lrn`. -/
def reachesVault (s : Site V) (lrn : Int) : Bool := (s.machines lrn).unsealed && s.elected

/-- Whether the key in etcd unseals Vault: `ExecStartPost` of its unit runs
`neco vault unseal`, which does nothing before the server is configured. -/
def unseals (s : Site V) (lrn : Int) : Bool :=
  match s.unsealKey with
  | some key => (s.machines lrn).configured && s.etcd lrn && V.unseals s.vaultState key
  | none => false

/-- etcd or Vault is restarted, and Vault may lose its leader. -/
def restart (s : Site V) (lrn : Int) (m : Machine) : Site V :=
  { s.setMachine lrn { m with led := false } with elected := false }

end Site

/-- How a call is answered when nothing goes wrong. -/
inductive Outcome (V : Vault) (α : Type) where
  | done (value : α) (site : Site V)
  | refused
  | blocked

/-- `CurrentArtifacts`: the tags of the container images, those of etcd and Vault among them. -/
structure Artifacts where
  findContainerImage : String → Option String
  etcd : (findContainerImage "etcd").isSome
  vault : (findContainerImage "vault").isSome

/-- What a server does on its own; of the services only etcd and Vault are looked at further. -/
def Site.serveHost (artifacts : Artifacts) (s : Site V) (lrn : Int) : Host → Outcome V Unit
  | .findContainerImage name =>
    if (artifacts.findContainerImage name).isSome then .done () s else .refused
  | .startService name =>
    let m := s.machines lrn
    let t := s.setMachine lrn
      { m with running := m.running || name == "vault", services := name :: m.services }
    if name = "etcd-container" then .done () { t with etcd := Function.update s.etcd lrn false }
    else .done () t
  | .restartService name =>
    let m := s.machines lrn
    if name = "vault" then
      .done () (s.restart lrn { m with running := true, unsealed := s.unseals lrn })
    else if name = "etcd-container" then
      .done () { s.restart lrn m with etcd := Function.update s.etcd lrn false }
    else .done () s
  | .waitEtcdForVault => if s.etcd lrn then .done () s else .blocked
  | .updateNecoConfig => .done () (s.setMachine lrn { s.machines lrn with configured := true })
  | _ => .done () s

/-- What the other side does with a call of the server `lrn`, once etcd answers if it is needed.
Vault and the version of the package are free to be what `fresh` says. -/
def Site.perform (b : BootServers) (artifacts : Artifacts) (fresh : V.Chance × String)
    (clock : Int) (s : Site V) (lrn : Int) : (c : Call) → Outcome V (Value c)
  | .host op => s.serveHost artifacts lrn op
  | .getDebianVersion => .done fresh.2 s
  | .now => .done clock s
  | .writeFile file text =>
    let m := s.machines lrn
    .done () (s.setMachine lrn { m with files := Function.update m.files file (some text) })
  | .startDev => .done () { s with devState := .running, devServer := V.development }
  | .stopDev succeeded =>
    .done () { s with devState := if succeeded then .stopped else .abandoned }
  | .dev op =>
    if s.devState = .running then
      match V.handle fresh.1 s.devServer devRootToken op with
      | some (value, devServer) => .done value { s with devServer }
      | none => .refused
    else .refused
  | .awaitSecret path =>
    if s.devState = .running ∧ path ∈ s.dev.secrets then .done true s
    else if s.cancelled lrn then .done false s
    else .blocked
  -- a server that is up answers; whether Vault is initialised is stored in etcd
  | .initVault =>
    if (s.machines lrn).running then
      match V.init fresh.1 s.vaultState with
      | some (keys, vaultState) => .done keys { s with vaultState }
      | none => .refused
    else .refused
  | .unsealVault key =>
    let m := s.machines lrn
    if m.running && V.unseals s.vaultState key then
      .done () (s.setMachine lrn { m with unsealed := true })
    else .refused
  | .vault token op =>
    if s.reachesVault lrn then
      match V.handle fresh.1 s.vaultState token op with
      | some (value, vaultState) => .done value { s with vaultState }
      | none => .refused
    else .refused
  | .revokeSelf token =>
    if s.reachesVault lrn then
      match V.revokeSelf fresh.1 s.vaultState token with
      | some vaultState => .done () { s with vaultState }
      | none => .refused
    else .refused
  -- it asks for something until it is answered
  | .waitVaultLeader token =>
    if s.reachesVault lrn ∧ token ∈ s.vault.tokens then
      .done () (s.setMachine lrn { s.machines lrn with led := true })
    else .blocked
  | .putVaultRootToken token => .done () { s.commit .other with rootToken := some token }
  | .putVaultUnsealKey key => .done () { s.commit .other with unsealKey := some key }
  | .awaitVaultUnsealKey =>
    match s.unsealKey with
    | some key => .done key s
    | none => .blocked
  | .getVaultRootToken =>
    match s.rootToken with
    | some token => .done token s
    | none => .refused
  | .deleteVaultRootToken => .done () { s.commit .other with rootToken := none }
  | .registerBootserver i => .done () (s.commit (.registerBootserver i))
  | .recordContainerTag i name =>
    match Neco.recordContainerTag artifacts.findContainerImage s.installed i name with
    | some installed => .done () { s.commit .other with installed }
    | none => .refused
  | .finish i stage => .done () { s.commit .other with finishes := Setup.finish s.finishes i stage }
  | .awaitFinished stage =>
    match getFinished s.finishes stage with
    | some finished => if finished.length = b.lrns.length then .done () s else .blocked
    | none => .refused
  -- these two transactions ask for the unseal key
  | .updateNecoRelease version =>
    if s.unsealKey.isSome then .done () (s.commit (.updateNecoRelease version)) else .refused
  | .putRequest req =>
    if s.unsealKey.isSome then .done () (s.commit (.putRequest req)) else .refused
  | .putProxyConfig _ => .done () (s.commit .other)
  | .putGitHubToken _ => .done () (s.commit .other)
  | .userAdd _ _ => .done () s
  | .authEnable => .done () s

/-! ### What a call has found that is served -/

section Performed

variable {b : BootServers} {artifacts : Artifacts} {fresh : V.Chance × String} {clock : Int}
  {s t : Site V} {lrn : Int}

theorem perform_dev {op : VaultOp} {x : op.Value}
    (served : s.perform b artifacts fresh clock lrn (.dev op) = .done x t) :
    s.devState = .running ∧ ∃ devServer,
      V.handle fresh.1 s.devServer devRootToken op = some (x, devServer) ∧
        t = { s with devServer } := by
  simp only [Site.perform] at served
  split at served
  next running =>
    split at served
    next answered =>
      cases served
      exact ⟨running, _, answered, rfl⟩
    · cases served
  · cases served

theorem perform_vault {token : String} {op : VaultOp} {x : op.Value}
    (served : s.perform b artifacts fresh clock lrn (.vault token op) = .done x t) :
    s.reachesVault lrn = true ∧ ∃ vaultState,
      V.handle fresh.1 s.vaultState token op = some (x, vaultState) ∧
        t = { s with vaultState } := by
  simp only [Site.perform] at served
  split at served
  next reached =>
    split at served
    next answered =>
      cases served
      exact ⟨reached, _, answered, rfl⟩
    · cases served
  · cases served

theorem perform_initVault {keys : String × String}
    (served : s.perform b artifacts fresh clock lrn .initVault = .done keys t) :
    ∃ vaultState, V.init fresh.1 s.vaultState = some (keys, vaultState) ∧
      t = { s with vaultState } := by
  simp only [Site.perform] at served
  split at served
  · split at served
    next answered =>
      cases served
      exact ⟨_, answered, rfl⟩
    · cases served
  · cases served

theorem perform_revokeSelf {token : String} {v : Unit}
    (served : s.perform b artifacts fresh clock lrn (.revokeSelf token) = .done v t) :
    ∃ vaultState, V.revokeSelf fresh.1 s.vaultState token = some vaultState ∧
      t = { s with vaultState } := by
  simp only [Site.perform] at served
  split at served
  · split at served
    next answered =>
      cases served
      exact ⟨_, answered, rfl⟩
    · cases served
  · cases served

theorem perform_unsealVault {key : String} {v : Unit}
    (served : s.perform b artifacts fresh clock lrn (.unsealVault key) = .done v t) :
    t = s.setMachine lrn { s.machines lrn with unsealed := true } := by
  simp only [Site.perform] at served
  split at served
  · cases served
    rfl
  · cases served

theorem perform_waitVaultLeader {token : String} {v : Unit}
    (served : s.perform b artifacts fresh clock lrn (.waitVaultLeader token) = .done v t) :
    s.elected = true ∧ t = s.setMachine lrn { s.machines lrn with led := true } := by
  simp only [Site.perform] at served
  split at served
  next reached =>
    cases served
    exact ⟨(Bool.and_eq_true_iff.mp reached.1).2, rfl⟩
  · cases served

theorem perform_waitEtcdForVault {v : Unit}
    (served : s.perform b artifacts fresh clock lrn (.host .waitEtcdForVault) = .done v t) :
    s.etcd lrn = true ∧ t = s := by
  simp only [Site.perform, Site.serveHost] at served
  split at served
  next up =>
    cases served
    exact ⟨up, rfl⟩
  · cases served

/-- The loop ends when the secret is there or the context is done. -/
theorem perform_awaitSecret {path : String} {found : Bool}
    (served : s.perform b artifacts fresh clock lrn (.awaitSecret path) = .done found t) :
    t = s ∧ (found = true ∧ s.devState = .running ∧ path ∈ s.dev.secrets ∨
      found = false ∧ s.cancelled lrn = true) := by
  simp only [Site.perform] at served
  split at served
  next here =>
    cases served
    exact ⟨rfl, .inl ⟨rfl, here⟩⟩
  · split at served
    next cancelled =>
      cases served
      exact ⟨rfl, .inr ⟨rfl, cancelled⟩⟩
    · cases served

theorem perform_awaitVaultUnsealKey {key : String}
    (served : s.perform b artifacts fresh clock lrn .awaitVaultUnsealKey = .done key t) :
    s.unsealKey = some key ∧ t = s := by
  simp only [Site.perform] at served
  split at served
  next stored =>
    cases served
    exact ⟨stored, rfl⟩
  · cases served

theorem perform_getVaultRootToken {token : String}
    (served : s.perform b artifacts fresh clock lrn .getVaultRootToken = .done token t) :
    s.rootToken = some token ∧ t = s := by
  simp only [Site.perform] at served
  split at served
  next stored =>
    cases served
    exact ⟨stored, rfl⟩
  · cases served

theorem perform_recordContainerTag {i : Int} {name : String} {v : Unit}
    (served : s.perform b artifacts fresh clock lrn (.recordContainerTag i name) = .done v t) :
    ∃ installed, Neco.recordContainerTag artifacts.findContainerImage s.installed i name =
      some installed ∧ t = { s.commit .other with installed } := by
  simp only [Site.perform] at served
  split at served
  next recorded =>
    cases served
    exact ⟨_, recorded, rfl⟩
  · cases served

theorem perform_awaitFinished {stage : Stage} {v : Unit}
    (served : s.perform b artifacts fresh clock lrn (.awaitFinished stage) = .done v t) :
    t = s ∧ ∃ finished, getFinished s.finishes stage = some finished ∧
      finished.length = b.lrns.length := by
  simp only [Site.perform] at served
  split at served
  next returned =>
    split at served
    next all =>
      cases served
      exact ⟨rfl, _, returned, all⟩
    · cases served
  · cases served

theorem perform_updateNecoRelease {version : String} {v : Unit}
    (served : s.perform b artifacts fresh clock lrn (.updateNecoRelease version) = .done v t) :
    t = s.commit (.updateNecoRelease version) := by
  simp only [Site.perform] at served
  split at served
  · cases served
    rfl
  · cases served

end Performed

def Site.serve (b : BootServers) (artifacts : Artifacts) (fresh : V.Chance × String)
    (clock : Int) (s : Site V) (lrn : Int) (c : Call) : Outcome V (Value c) :=
  if c.needsEtcd && !s.etcd lrn then .refused else s.perform b artifacts fresh clock lrn c

inductive Choice (V : Vault) where
  | serve (fresh : V.Chance × String) (clock : Int)
  /-- The call takes effect and fails. -/
  | lost (fresh : V.Chance × String) (clock : Int)
  | fault

/-- What a call leaves behind that takes effect and fails; a file may be cut short. -/
def Site.lost (b : BootServers) (artifacts : Artifacts) (fresh : V.Chance × String)
    (clock : Int) (s : Site V) (lrn : Int) : Call → Site V
  | .writeFile file _ =>
    let m := s.machines lrn
    s.setMachine lrn { m with files := Function.update m.files file none }
  | c =>
    match s.serve b artifacts fresh clock lrn c with
    | .done _ t => t
    | _ => s

/-- How a call of the server `lrn` can be answered. Reading the clock and killing the development
server do not fail. A development server that dies on its own is one whose requests fail. -/
def Site.answer (b : BootServers) (artifacts : Artifacts) (s : Site V) (lrn : Int)
    (choice : Choice V) (c : Call) : Option (Reply c × Site V) :=
  match choice with
  | .fault => if c.canFail then some (.error .fault, s) else none
  | .lost fresh clock =>
    if c.canFail then some (.error .fault, s.lost b artifacts fresh clock lrn c) else none
  | .serve fresh clock =>
    if c.takesContext && s.cancelled lrn then none
    else match s.serve b artifacts fresh clock lrn c with
      | .done value t => some (.ok value, t)
      | .refused => some (.error .refused, s)
      | .blocked => none

/-! ### The services that `Setup` starts -/

/-- The transactions of `neco-worker` and `neco-updater`. -/
def byServices : Change → Bool
  | .putRequest _ => true
  | .putReconfigureRequest _ => true
  | .putStatus _ _ _ => true
  | .updateNecoRelease _ => true
  | .other => true
  | .clearStatusAndContents => false
  | .registerBootserver _ => false
  | .deleteBootServer _ => false

/-- What the services of a server do in etcd. -/
inductive Work where
  | commit (c : Change)
  /-- The worker has installed a container image. -/
  | record (name tag : String)
  deriving DecidableEq, Repr

def Site.work (s : Site V) (lrn : Int) : Work → Option (Site V)
  | .commit c => if byServices c then some { s with history := s.history ++ [c] } else none
  | .record name tag => some
      { s with
        installed := s.installed.put (keyContainer lrn name) tag
        history := s.history ++ [.other] }

/-! ### Steps -/

structure System (V : Vault) where
  site : Site V
  procs : Int → Prog Unit

inductive Action (V : Vault) where
  | call (lrn : Int) (choice : Choice V)
  /-- `Setup` is told to stop. -/
  | cancel (lrn : Int)
  /-- Vault elects a leader. -/
  | elect
  /-- The member of etcd answers that has been started on a server. -/
  | etcdReady (lrn : Int)
  | work (lrn : Int) (work : Work)
  /-- Nothing happens for a while. -/
  | idle

/-- One more step; a server that has crashed takes no more steps. -/
def System.step (b : BootServers) (artifacts : Artifacts) (s : System V) :
    Action V → Option (System V)
  | .call lrn choice =>
    if lrn ∈ b.lrns then
      match s.procs lrn with
      | .call c next =>
        (s.site.answer b artifacts lrn choice c).map fun (reply, site) =>
          ⟨site, Function.update s.procs lrn (next reply)⟩
      | _ => none
    else none
  | .cancel lrn => some { s with site := s.site.cancel lrn }
  | .elect =>
    -- a sealed server does not stand for election
    if s.site.elected = false ∧ ∃ lrn ∈ b.lrns, (s.site.machines lrn).unsealed = true then
      some { s with site := { s.site with elected := true } }
    else none
  | .etcdReady lrn =>
    -- how many other members it needs is left open
    if lrn ∈ b.lrns ∧ s.site.etcd lrn = false ∧
        "etcd-container" ∈ (s.site.machines lrn).services then
      some { s with site := { s.site with etcd := Function.update s.site.etcd lrn true } }
    else none
  | .work lrn work =>
    if (s.site.machines lrn).serving then
      (s.site.work lrn work).map fun site => { s with site }
    else none
  | .idle => some s

def System.initial (b : BootServers) (opts : Int → Options) : System V :=
  ⟨.initial, fun lrn => setup b (opts lrn) lrn⟩

/-- `s` is reached in a run of `Setup` on all servers. -/
def Reached (b : BootServers) (artifacts : Artifacts) (opts : Int → Options)
    (s : System V) : Prop :=
  Transition.RunFrom (System.step b artifacts) Transition.always (.initial b opts) s

end Neco.Bootstrap
