import Neco.Worker.Operator

/-!
# What the steps of an update touch and install

Each service has its files, its units, its records and the step that takes care of them. A step
touches nothing that belongs to another service, which is read off its program once, whatever the
replies; so what one step has installed stays as it is during all others.
-/

namespace Neco.Deploy

open Program

/-! ### Services -/

/-- What the steps take care of. -/
inductive Service where
  | etcd
  | vault
  | setupHW
  | serf
  | setupSerfTags
  | ssh
  | sudoers
  | etcdpasswd
  | sabakan
  | stateSetter
  | cke
  | promtail
  deriving DecidableEq, Repr

namespace Service

/-- The files that a service is started with. -/
def paths : Service → List String
  | etcd => [serviceFile "etcd-container", EtcdProg.confFile]
  | vault => [serviceFile "vault", VaultProg.confFile]
  | setupHW => [serviceFile "setup-hw"]
  | serf => [serviceFile "serf", SerfProg.confFile]
  | setupSerfTags =>
    [serviceFile "setup-serf-tags", timerFile "setup-serf-tags", SetupSerfTags.binPath]
  | ssh => [Etcdpasswd.sshdConfFile]
  | sudoers => []
  | etcdpasswd => [Etcdpasswd.dropIn, Etcdpasswd.confFile]
  | sabakan => [SabakanProg.confFile, serviceFile "sabakan"]
  | stateSetter => []
  | cke => [CKE.confFile]
  | promtail => [Promtail.confFile, serviceFile "promtail"]

/-- The units of a service. -/
def units : Service → List String
  | etcd => ["etcd-container.service"]
  | vault => ["vault.service"]
  | setupHW => ["setup-hw.service"]
  | serf => ["serf.service"]
  | setupSerfTags => ["setup-serf-tags.timer"]
  | ssh => ["ssh.service"]
  | sudoers => []
  | etcdpasswd => ["ep-agent.service"]
  | sabakan => ["sabakan.service"]
  | stateSetter => ["sabakan-state-setter.service", "sabakan-state-setter.timer"]
  | cke => ["cke.service", "cke-localproxy.service"]
  | promtail => ["promtail.service"]

/-- The container image whose tag is recorded. -/
def image : Service → Option String
  | etcd => some "etcd"
  | vault => some "vault"
  | setupHW => some "setup-hw"
  | serf => some "serf"
  | sabakan => some "sabakan"
  | promtail => some "promtail"
  | _ => none

/-- The package whose version is recorded. -/
def package : Service → Option String
  | etcdpasswd => some "etcdpasswd"
  | _ => none

/-- Further files that a service depends on, or that its step writes. -/
def otherFiles : Service → List String
  | etcd => ["/etc/neco/config.yml"]
  | serf => [SerfProg.osReleasePath, SerfProg.serialPath]
  | ssh => [Etcdpasswd.sshdConfFile ++ ".tmp"]
  | sudoers => [Etcdpasswd.sudoersFile, Etcdpasswd.sudoersTmpFile]
  | sabakan => [SabakanProg.bashCompletionFile]
  | stateSetter => [timerFile "sabakan-state-setter"]
  | _ => []

/-- Everything that belongs to a service. -/
def parts (v : Service) : List Part :=
  (v.paths ++ v.otherFiles).map .file ++ v.units.map .unit ++ v.image.toList.map .tag ++
    v.package.toList.map .deb

end Service

/-- The services that a step takes care of. -/
def services : Nat → List Service
  | 2 => [.etcd]
  | 3 => [.vault]
  | 4 => [.vault]
  | 5 => [.setupHW]
  | 6 => [.serf]
  | 7 => [.setupSerfTags]
  | 8 => [.ssh, .sudoers, .etcdpasswd]
  | 9 => [.sabakan]
  | 10 => [.stateSetter]
  | 11 => [.cke]
  | 12 => [.cke]
  | 16 => [.promtail]
  | _ => []

/-- The call touches nothing but what belongs to the given services, and images. -/
def Within (vs : List Service) (c : Call) : Prop :=
  ∀ p ∈ c.touched, (∃ v ∈ vs, p ∈ v.parts) ∨ ∃ image, p = .image image

/-! ### What the programs touch -/

section Uses

variable {vs : List Service}

theorem uses_request {c : Call} (within : Within vs c) : (request c).Uses (Within vs) := by
  refine ⟨within, fun r => ?_⟩
  cases r with
  | error err => trivial
  | ok value => trivial

/-- A call that touches nothing is within everything. -/
theorem within_of_nil {c : Call} (nothing : c.touched = []) : Within vs c := by
  intro p member
  rw [nothing] at member
  cases member

theorem uses_ended {α : Type} (result : Except Error α) :
    (.ended result : Prog α).Uses (Within vs) := by
  cases result with
  | error err => trivial
  | ok a => trivial

theorem uses_attempt {α : Type} {p : Prog α} (uses : p.Uses (Within vs)) :
    p.attempt.Uses (Within vs) := by
  induction p with
  | ret a => trivial
  | fail err => trivial
  | call c next ih => exact ⟨uses.1, fun r => ih r (uses.2 r)⟩

/-- A file that belongs to one of the services. -/
def Owns (vs : List Service) (p : Part) : Prop := ∃ v ∈ vs, p ∈ v.parts

theorem within_single {c : Call} {p : Part} (touches : c.touched = [p]) (owned : Owns vs p) :
    Within vs c := by
  intro q member
  rw [touches, List.mem_singleton] at member
  exact member ▸ .inl owned

variable {name : String}

theorem uses_overwrite {data : String} (owned : Owns vs (.file name)) :
    (overwrite name data).Uses (Within vs) := by
  refine (uses_request (within_single rfl owned)).bind fun _ => ?_
  refine (uses_request (within_single rfl owned)).bind fun _ => ?_
  exact uses_request (within_of_nil rfl)

theorem uses_replaceFile {data : String} (owned : Owns vs (.file name)) :
    (replaceFile name data).Uses (Within vs) := by
  have writes : (overwrite name data >>= fun _ => .ret true).Uses (Within vs) :=
    (uses_overwrite owned).bind fun _ => trivial
  refine ⟨within_of_nil rfl, fun r => ?_⟩
  cases r with
  | error err =>
    cases err with
    | notExist => exact writes
    | notFound => trivial
    | failed message => trivial
  | ok current =>
    dsimp only
    split
    · trivial
    · exact writes

theorem uses_install {text : Except Error String} (owned : Owns vs (.file name)) :
    (install name text).Uses (Within vs) :=
  (uses_ended text).bind fun _ => uses_replaceFile owned

theorem uses_installIn {folder : String} {text : Except Error String}
    (owned : Owns vs (.file name)) : (installIn folder name text).Uses (Within vs) := by
  refine (uses_ended text).bind fun _ => ?_
  exact (uses_request (within_of_nil rfl)).bind fun _ => uses_replaceFile owned

theorem uses_startUnit {unit : String} (owned : Owns vs (.unit (name ++ "." ++ unit))) :
    (Systemd.startUnit name unit).Uses (Within vs) := by
  refine (uses_request (within_of_nil rfl)).bind fun _ => ?_
  refine (uses_request (within_single rfl owned)).bind fun _ => ?_
  exact uses_request (within_single rfl owned)

theorem uses_restartService (owned : Owns vs (.unit (name ++ ".service"))) :
    (Systemd.restartService name).Uses (Within vs) := by
  refine (uses_request (within_of_nil rfl)).bind fun _ => ?_
  refine (uses_request (within_single rfl owned)).bind fun _ => ?_
  exact uses_request (within_single rfl owned)

theorem uses_waitServiceStateChange (rounds : Nat) (state : String) :
    (Systemd.waitServiceStateChange name rounds state).Uses (Within vs) := by
  induction rounds generalizing state with
  | zero => trivial
  | succ rounds ih =>
    refine (uses_request (within_of_nil rfl)).bind fun state => ?_
    split
    · exact (uses_request (within_of_nil rfl)).bind fun _ => ih state
    · trivial

theorem uses_stopService (owned : Owns vs (.unit (name ++ ".service"))) :
    (Systemd.stopService name).Uses (Within vs) :=
  (uses_waitServiceStateChange 60 "").bind fun _ => uses_request (within_single rfl owned)

theorem uses_retryWithSleep {α : Type} {duration : Int} {f : Prog α} (uses : f.Uses (Within vs))
    (attempts : Nat) (err : Error) : (retryWithSleep duration f attempts err).Uses (Within vs) := by
  induction attempts generalizing err with
  | zero => trivial
  | succ attempts ih =>
    refine (uses_attempt uses).bind fun result => ?_
    cases result with
    | ok a => trivial
    | error err => exact (uses_request (within_of_nil rfl)).bind fun _ => ih err

variable {o : Operator}

theorem uses_needContainerImageUpdate : (needContainerImageUpdate o name).Uses (Within vs) := by
  refine ⟨within_of_nil rfl, fun r => ?_⟩
  cases r with
  | error err => cases err <;> trivial
  | ok tag => exact (uses_ended _).bind fun _ => trivial

theorem uses_needDebUpdate : (needDebUpdate o name).Uses (Within vs) := by
  refine ⟨within_of_nil rfl, fun r => ?_⟩
  cases r with
  | error err => cases err <;> trivial
  | ok tag => exact (uses_ended _).bind fun _ => trivial

theorem uses_installTools : (installTools o name).Uses (Within vs) :=
  (uses_ended _).bind fun _ => uses_request (within_of_nil rfl)

theorem uses_updateImage {tools : Prog Unit} (owned : Owns vs (.tag name))
    (uses : tools.Uses (Within vs)) : (updateImage o name tools).Uses (Within vs) := by
  refine uses_needContainerImageUpdate.bind fun need => ?_
  cases need with
  | true =>
    have records : (recordContainerTag o name).Uses (Within vs) :=
      (uses_ended _).bind fun _ => uses_request (within_single rfl owned)
    exact uses.bind fun _ => records.bind fun _ => trivial
  | false => trivial

theorem uses_recordImage (owned : Owns vs (.tag name)) :
    (updateImage o name (.ret ())).Uses (Within vs) := uses_updateImage owned trivial

theorem uses_asLeader {body : Prog Unit} (uses : body.Uses (Within vs)) :
    (asLeader body).Uses (Within vs) := by
  -- the operations of the election touch nothing of the server
  have shared (c : Contents.Call) : (request (.shared c)).Uses (Within vs) :=
    uses_request (within_of_nil rfl)
  refine (shared .newSession).bind fun r => ?_
  cases r with
  | error err => trivial
  | ok _ =>
    refine (shared .putLeaderKey).bind fun r => ?_
    cases r with
    | error err => exact (shared .closeSession).bind fun _ => trivial
    | ok _ =>
      refine (shared .waitDeletes).bind fun r => ?_
      cases r with
      | error err => exact (shared .closeSession).bind fun _ => trivial
      | ok _ =>
        refine (uses_attempt uses).bind fun result => ?_
        refine (shared .resign).bind fun _ => ?_
        exact (shared .closeSession).bind fun _ => uses_ended result

theorem uses_contentsCall (c : Contents.Call) : (contentsCall c).Uses (Within vs) := by
  cases c with
  | isActiveService service =>
    have asks : (Systemd.isActiveService service).Uses (Within vs) := by
      refine (uses_request (within_of_nil rfl)).bind fun (succeeded, output) => ?_
      dsimp only
      split
      · trivial
      · split <;> trivial
    exact (uses_attempt asks).bind fun _ => trivial
  | stat file =>
    refine ⟨within_of_nil rfl, fun r => ?_⟩
    cases r with
    | ok _ => trivial
    | error err => cases err <;> trivial
  | _ => exact uses_request (within_of_nil rfl)

/-- The steps for shared contents touch nothing of the server. -/
theorem uses_contentsStep (p : Contents.Prog) : (contentsStep p).Uses (Within vs) := by
  have everything : p.Uses fun _ => True := by
    induction p with
    | ret a => trivial
    | fail err => trivial
    | call c next ih => exact ⟨trivial, fun r => ih r⟩
  refine (everything.interpret fun c _ => uses_contentsCall c).bind fun result => ?_
  cases result with
  | error err => trivial
  | ok _ => trivial

variable {req : UpdateRequest}

theorem uses_etcdSetup {conf : String} : (etcdSetup o conf).Uses (Within [.etcd]) := by
  refine (uses_overwrite ⟨.etcd, by decide, by decide⟩).bind fun _ => ?_
  refine (uses_request (within_of_nil rfl)).bind fun _ => ?_
  refine (uses_request (within_of_nil rfl)).bind fun _ => ?_
  have owned : Owns [.etcd] (.file (serviceFile "etcd-container")) := ⟨.etcd, by decide, by decide⟩
  refine (uses_request (within_single rfl owned)).bind fun _ => ?_
  refine (uses_ended _).bind fun _ => ?_
  refine (uses_request (within_single rfl owned)).bind fun _ => ?_
  refine (uses_request (within_of_nil rfl)).bind fun _ => ?_
  refine (uses_startUnit ⟨.etcd, by decide, by decide⟩).bind fun _ => ?_
  exact uses_request (within_of_nil rfl)

theorem uses_updateEtcd : (updateEtcd o req).Uses (Within [.etcd]) := by
  refine (uses_updateImage ⟨.etcd, by decide, by decide⟩ uses_installTools).bind fun _ => ?_
  -- what follows the look at the members
  have replaces : (replaceEtcdFiles o req.servers >>= fun _ =>
      request (.writeFile "/etc/neco/config.yml" (EtcdProg.necoConfig o req.servers))).Uses
        (Within [.etcd]) := by
    refine Prog.Uses.bind ?_ fun _ =>
      uses_request (within_single rfl ⟨.etcd, by decide, by decide⟩)
    refine (uses_install ⟨.etcd, by decide, by decide⟩).bind fun _ => ?_
    exact (uses_install ⟨.etcd, by decide, by decide⟩).bind fun _ => trivial
  refine uses_asLeader ((uses_request (within_of_nil rfl)).bind fun members => ?_)
  dsimp only
  split
  · refine (uses_request (within_of_nil rfl)).bind fun _ => ?_
    refine Prog.Uses.bind ?_ fun _ => replaces
    refine (uses_request (within_of_nil rfl)).bind fun _ => ?_
    exact uses_etcdSetup.bind fun _ => uses_request (within_of_nil rfl)
  · exact replaces

theorem uses_stopUnlessMissing {vs : List Service} {svc : String}
    (owned : Owns vs (.unit (svc ++ ".service"))) : (stopService svc).Uses (Within vs) := by
  refine ⟨within_of_nil rfl, fun r => ?_⟩
  cases r with
  | error err => trivial
  | ok _ => exact uses_stopService owned

theorem uses_restoreService {vs : List Service} {svc : String}
    (owned : Owns vs (.unit (svc ++ "." ++ "service"))) :
    (restoreService svc).Uses (Within vs) := by
  refine ⟨within_of_nil rfl, fun r => ?_⟩
  cases r with
  | error err => trivial
  | ok _ => exact uses_startUnit owned

theorem uses_startServices : startServices.Uses (Within [.etcd, .vault]) := by
  refine (uses_restoreService ⟨.etcd, by decide, by decide⟩).bind fun _ => ?_
  exact uses_restoreService ⟨.vault, by decide, by decide⟩

theorem uses_updateVault : (updateVault o req).Uses (Within [.vault]) := by
  refine (uses_updateImage ⟨.vault, by decide, by decide⟩ uses_installTools).bind fun _ => ?_
  refine Prog.Uses.bind ?_ fun _ => ?_
  · refine (uses_install ⟨.vault, by decide, by decide⟩).bind fun _ => ?_
    exact (uses_install ⟨.vault, by decide, by decide⟩).bind fun _ => trivial
  · refine (uses_startUnit ⟨.vault, by decide, by decide⟩).bind fun _ => ?_
    exact uses_request (within_of_nil rfl)

theorem uses_updateSetupHW : (updateSetupHW o).Uses (Within [.setupHW]) := by
  refine (uses_recordImage ⟨.setupHW, by decide, by decide⟩).bind fun need => ?_
  refine (uses_installIn ⟨.setupHW, by decide, by decide⟩).bind fun replaced => ?_
  split
  · exact uses_restartService ⟨.setupHW, by decide, by decide⟩
  · trivial

theorem uses_readFile {path : String} {α : Type} {f : String → Prog α} {vs : List Service}
    (rest : ∀ text, (f text).Uses (Within vs)) :
    (request (.readFile path) >>= f).Uses (Within vs) :=
  (uses_request (within_of_nil rfl)).bind rest

theorem uses_replaceSerfFiles {lrns : List Int} :
    (replaceSerfFiles o lrns).Uses (Within [.serf]) := by
  refine (uses_installIn ⟨.serf, by decide, by decide⟩).bind fun _ => ?_
  refine Prog.Uses.bind (uses_readFile fun _ => uses_ended _) fun _ => ?_
  refine Prog.Uses.bind (uses_readFile fun _ => uses_ended _) fun _ => ?_
  refine Prog.Uses.bind (uses_readFile fun _ => trivial) fun _ => ?_
  exact (uses_install ⟨.serf, by decide, by decide⟩).bind fun _ => trivial

theorem uses_updateSerf : (updateSerf o req).Uses (Within [.serf]) := by
  refine (uses_updateImage ⟨.serf, by decide, by decide⟩ uses_installTools).bind fun need => ?_
  refine uses_replaceSerfFiles.bind fun replaced => ?_
  split
  · trivial
  · exact uses_asLeader (uses_restartService ⟨.serf, by decide, by decide⟩)

theorem uses_updateSetupSerfTags : (updateSetupSerfTags o req).Uses (Within [.setupSerfTags]) := by
  have writes {name data : String} (owned : Owns [.setupSerfTags] (.file name)) :
      (request (.writeFile name data)).Uses (Within [.setupSerfTags]) :=
    uses_request (within_single rfl owned)
  refine (uses_request (within_of_nil rfl)).bind fun _ => ?_
  refine (writes ⟨.setupSerfTags, by decide, by decide⟩).bind fun _ => ?_
  refine (writes ⟨.setupSerfTags, by decide, by decide⟩).bind fun _ => ?_
  refine (uses_replaceFile ⟨.setupSerfTags, by decide, by decide⟩).bind fun _ => ?_
  exact uses_startUnit ⟨.setupSerfTags, by decide, by decide⟩

/-- A file is written beside its place and then renamed. -/
theorem uses_writeAndRename {vs : List Service} {tmp data file : String}
    (beside : Owns vs (.file tmp)) (owned : Owns vs (.file file)) :
    (overwrite tmp data >>= fun _ => request (.rename tmp file)).Uses (Within vs) := by
  refine (uses_overwrite beside).bind fun _ => uses_request fun p member => ?_
  simp only [Call.touched, List.mem_cons, List.not_mem_nil, or_false] at member
  rcases member with rfl | rfl
  · exact .inl beside
  · exact .inl owned

theorem uses_installDebianPackage {token : String} {pkg : DebianPackage} :
    (installDebianPackage token pkg).Uses (Within [.sudoers, .etcdpasswd]) := by
  refine Prog.Uses.bind ?_ fun url => ?_
  · refine (uses_request (within_of_nil rfl)).bind fun releases => ?_
    split
    · trivial
    · split
      · trivial
      · split <;> trivial
  · refine (uses_retryWithSleep (uses_request (within_of_nil rfl)) 10 _).bind fun data => ?_
    exact uses_request (within_single rfl ⟨.etcdpasswd, by decide, by decide⟩)

/-- The first part of the step is about `sshd`. -/
theorem uses_updateSshd : (Etcdpasswd.installSshdConf >>= fun _ =>
    Systemd.restartService "ssh").Uses (Within [.ssh]) := by
  refine (uses_writeAndRename ⟨.ssh, by decide, by decide⟩ ⟨.ssh, by decide, by decide⟩).bind
    fun _ => ?_
  exact uses_restartService ⟨.ssh, by decide, by decide⟩

theorem uses_installSudoers : Etcdpasswd.installSudoers.Uses (Within [.sudoers]) := by
  refine ⟨within_of_nil rfl, fun r => ?_⟩
  cases r with
  | ok _ => trivial
  | error err =>
    cases err with
    | notExist =>
      exact uses_writeAndRename ⟨.sudoers, by decide, by decide⟩ ⟨.sudoers, by decide, by decide⟩
    | notFound => trivial
    | failed message => trivial

/-- What `UpdateEtcdpasswd` does after `sshd` has been restarted and `sudoers` is there. -/
def updateAgent (o : Operator) (req : UpdateRequest) : Prog Unit := do
  let replaced ← replaceEtcdpasswdFiles o req.servers
  let need ← needDebUpdate o "etcdpasswd"
  if need then
    let deb ← .ended (o.findDebianPackage "etcdpasswd")
    let token ← request .getGitHubToken
    installDebianPackage token deb
    recordDebVersion o "etcdpasswd"
  if replaced && !need then Systemd.restartService "ep-agent"

theorem updateEtcdpasswd_eq : updateEtcdpasswd o req =
    (Etcdpasswd.installSshdConf >>= fun _ => Systemd.restartService "ssh") >>= fun _ =>
      Etcdpasswd.installSudoers >>= fun _ => updateAgent o req := by
  rw [bind_assoc]
  rfl

theorem uses_updateAgent : (updateAgent o req).Uses (Within [.sudoers, .etcdpasswd]) := by
  refine Prog.Uses.bind ?_ fun replaced => ?_
  · refine (uses_installIn ⟨.etcdpasswd, by decide, by decide⟩).bind fun _ => ?_
    exact (uses_installIn ⟨.etcdpasswd, by decide, by decide⟩).bind fun _ => trivial
  refine uses_needDebUpdate.bind fun need => ?_
  have restarts {need : Bool} : (if (replaced && !need) = true then
      Systemd.restartService "ep-agent" else .ret ()).Uses (Within [.sudoers, .etcdpasswd]) := by
    split
    · exact uses_restartService ⟨.etcdpasswd, by decide, by decide⟩
    · trivial
  cases need with
  | false => exact restarts
  | true =>
    refine (uses_ended _).bind fun _ => ?_
    refine (uses_request (within_of_nil rfl)).bind fun _ => ?_
    refine uses_installDebianPackage.bind fun _ => ?_
    have records : (recordDebVersion o "etcdpasswd").Uses (Within [.sudoers, .etcdpasswd]) :=
      (uses_ended _).bind fun _ =>
        uses_request (within_single rfl ⟨.etcdpasswd, by decide, by decide⟩)
    exact records.bind fun _ => restarts

theorem Within.mono {vs ws : List Service} {c : Call} (within : Within vs c) (sub : vs ⊆ ws) :
    Within ws c := by
  intro p touched
  rcases within p touched with ⟨v, member, mine⟩ | image
  · exact .inl ⟨v, sub member, mine⟩
  · exact .inr image

theorem uses_updateEtcdpasswd :
    (updateEtcdpasswd o req).Uses (Within [.ssh, .sudoers, .etcdpasswd]) := by
  rw [updateEtcdpasswd_eq]
  refine (uses_updateSshd.mono fun c within => within.mono (by decide)).bind fun _ => ?_
  refine (uses_installSudoers.mono fun c within => within.mono (by decide)).bind fun _ => ?_
  exact uses_updateAgent.mono fun c within => within.mono (by decide)

theorem uses_updateSabakan : (updateSabakan o req).Uses (Within [.sabakan]) := by
  refine (uses_updateImage ⟨.sabakan, by decide, by decide⟩ ?_).bind fun _ => ?_
  · refine uses_installTools.bind fun _ => ?_
    refine (uses_request (within_of_nil rfl)).bind fun _ => ?_
    exact uses_request (within_single rfl ⟨.sabakan, by decide, by decide⟩)
  refine Prog.Uses.bind ?_ fun _ => ?_
  · refine (uses_installIn ⟨.sabakan, by decide, by decide⟩).bind fun _ => ?_
    exact (uses_installIn ⟨.sabakan, by decide, by decide⟩).bind fun _ => trivial
  refine (uses_restartService ⟨.sabakan, by decide, by decide⟩).bind fun _ => ?_
  refine ⟨within_of_nil rfl, fun r => ?_⟩
  cases r with
  | ok _ => exact uses_request (within_of_nil rfl)
  | error err => cases err <;> trivial

theorem uses_updateSabakanStateSetter :
    updateSabakanStateSetter.Uses (Within [.stateSetter]) := by
  have restarts : (Systemd.restartService "sabakan-state-setter").Uses (Within [.stateSetter]) :=
    uses_restartService ⟨.stateSetter, by decide, by decide⟩
  have timer : Owns [.stateSetter] (.unit "sabakan-state-setter.timer") :=
    ⟨.stateSetter, by decide, by decide⟩
  refine ⟨within_of_nil rfl, fun r => ?_⟩
  cases r with
  | ok _ =>
    refine (uses_request (within_single rfl timer)).bind fun _ => ?_
    refine (uses_request (within_single rfl timer)).bind fun _ => ?_
    refine (uses_request (within_single rfl ⟨.stateSetter, by decide, by decide⟩)).bind
      fun _ => restarts
  | error err =>
    cases err with
    | notExist => exact restarts
    | notFound => trivial
    | failed message => trivial

theorem uses_updateCKE : (updateCKE o req).Uses (Within [.cke]) := by
  refine (uses_installIn ⟨.cke, by decide, by decide⟩).bind fun _ => ?_
  refine (uses_contentsStep _).bind fun _ => ?_
  refine (uses_restartService ⟨.cke, by decide, by decide⟩).bind fun _ => ?_
  exact uses_restartService ⟨.cke, by decide, by decide⟩

theorem uses_updatePromtail : (updatePromtail o).Uses (Within [.promtail]) := by
  refine (uses_recordImage ⟨.promtail, by decide, by decide⟩).bind fun need => ?_
  refine Prog.Uses.bind ?_ fun replaced => ?_
  · refine (uses_installIn ⟨.promtail, by decide, by decide⟩).bind fun _ => ?_
    exact (uses_installIn ⟨.promtail, by decide, by decide⟩).bind fun _ => trivial
  split
  · trivial
  · exact uses_restartService ⟨.promtail, by decide, by decide⟩

theorem uses_fetchImages : (fetchImages o).Uses (Within []) := by
  have pulls (image : String) : (pull image).Uses (Within []) := by
    refine (uses_request (within_of_nil rfl)).bind fun images => ?_
    split
    · trivial
    · refine uses_retryWithSleep (uses_request fun p member => ?_) 3 _
      exact .inr ⟨image, List.mem_singleton.mp member⟩
  have all : (pullImages o).Uses (Within []) :=
    Prog.Uses.forM _ fun name _ => (uses_ended _).bind fun img => pulls _
  refine ⟨within_of_nil rfl, fun r => ?_⟩
  cases r with
  | ok _ => exact all
  | error err => cases err <;> first | exact all | trivial

/-- A step touches what belongs to its services and nothing else of the server. -/
theorem uses_runStep (step : Nat) : (runStep o req step).Uses (Within (services step)) := by
  rcases step with _ | _ | _ | _ | _ | _ | _ | _ | _ | _ | _ | _ | _ | _ | _ | _ | _ | _ | _ | step
  · trivial
  · exact uses_fetchImages
  · exact uses_updateEtcd
  · exact uses_stopUnlessMissing ⟨.vault, by decide, by decide⟩
  · exact uses_updateVault
  · exact uses_updateSetupHW
  · exact uses_updateSerf
  · exact uses_updateSetupSerfTags
  · exact uses_updateEtcdpasswd
  · exact uses_updateSabakan
  · exact uses_updateSabakanStateSetter
  · refine (uses_stopUnlessMissing ⟨.cke, by decide, by decide⟩).bind fun _ => ?_
    exact uses_stopUnlessMissing ⟨.cke, by decide, by decide⟩
  · exact uses_updateCKE
  · exact uses_contentsStep _
  · exact uses_contentsStep _
  · exact uses_contentsStep _
  · exact uses_updatePromtail
  · exact uses_contentsStep _
  · trivial
  · trivial

end Uses

/-! ### Installed services -/

/-- The text of `serf.json` that the step generates on the server. -/
def serfConf (o : Operator) (req : UpdateRequest) (s : Host) : Except Error String := do
  let text ← (s.files SerfProg.osReleasePath).elim (.error .notExist) .ok
  let name ← (SerfProg.osRelease "NAME" text).elim
    (.error (.failed "failed to get os type")) .ok
  let version ← (SerfProg.osRelease "VERSION_ID" text).elim
    (.error (.failed "failed to get os version")) .ok
  let serial ← (s.files SerfProg.serialPath).elim (.error .notExist) .ok
  return SerfProg.generateConf o (req.servers.filter (· ≠ o.mylrn)) name version (trimSpace serial)

namespace Service

variable (o : Operator) (req : UpdateRequest) (s : Host)

/-- The files of a service with the texts that the artifacts and the request ask for. -/
def contents : Service → List (String × Except Error String)
  | etcd => [(serviceFile "etcd-container", EtcdProg.generateService o),
      (EtcdProg.confFile, .ok (EtcdProg.generateConf o o.mylrn req.servers)),
      ("/etc/neco/config.yml", .ok (EtcdProg.necoConfig o req.servers))]
  | vault => [(serviceFile "vault", VaultProg.generateService o),
      (VaultProg.confFile, .ok (VaultProg.generateConf o o.mylrn req.servers))]
  | setupHW => [(serviceFile "setup-hw", SetupHW.generateService o)]
  | serf => [(serviceFile "serf", SerfProg.generateService o), (SerfProg.confFile, serfConf o req s)]
  | setupSerfTags => [(serviceFile "setup-serf-tags", .ok SetupSerfTags.service),
      (timerFile "setup-serf-tags", .ok SetupSerfTags.timer),
      (SetupSerfTags.binPath, .ok (SetupSerfTags.generateScript o req.version))]
  | ssh => [(Etcdpasswd.sshdConfFile, .ok Etcdpasswd.sshdConf)]
  -- a file that is there is left as it is
  | sudoers => []
  | etcdpasswd => [(Etcdpasswd.dropIn, .ok (Etcdpasswd.generateSystemdDropIn o)),
      (Etcdpasswd.confFile, .ok (Etcdpasswd.generateConf o req.servers))]
  | sabakan => [(SabakanProg.confFile, .ok (SabakanProg.generateConf o o.mylrn req.servers)),
      (serviceFile "sabakan", SabakanProg.generateService o)]
  | stateSetter => []
  | cke => [(CKE.confFile, .ok (CKE.generateConf o req.servers))]
  | promtail => [(Promtail.confFile, .ok (Promtail.generateConf o o.mylrn)),
      (serviceFile "promtail", Promtail.generateService o)]

/-- The files of older versions that are removed. -/
def removed : Service → List String
  | stateSetter => [timerFile "sabakan-state-setter"]
  | _ => []

/-- The units that are started with the files of a service. The timer of `setup-serf-tags` goes on
with the one that it was started with. -/
def started : Service → List String
  | setupSerfTags => []
  | stateSetter => []
  | v => v.units

end Service

/-- A file has the text that is asked for. -/
def Holds (s : Host) (file : String × Except Error String) : Prop :=
  ∃ data, file.2 = .ok data ∧ s.files file.1 = some data

/-- The files and the records of a service are as the artifacts and the request ask for. -/
structure Installed (o : Operator) (req : UpdateRequest) (v : Service) (s : Host) : Prop where
  files : ∀ file ∈ v.contents o req s, Holds s file
  gone : ∀ file ∈ v.removed, s.files file = none
  tag : ∀ name ∈ v.image, ∃ img, o.findContainerImage name = .ok img ∧ s.tags name = some img.tag
  deb : ∀ name ∈ v.package, ∃ deb, o.findDebianPackage name = .ok deb ∧
    s.debs name = some deb.release

/-- Systemd has loaded the unit files of a service that are there now. -/
def Loaded (v : Service) (s : Host) : Prop :=
  ∀ file ∈ v.paths, isUnitFile file = true → s.loaded file = s.files file

/-- A service runs, if it does, with the files that are there now, and would be started with
them. -/
structure Current (v : Service) (s : Host) : Prop where
  loaded : Loaded v s
  fresh : ∀ unit ∈ v.started, ∀ files, s.running unit = some files →
    ∀ file ∈ v.paths, files file = s.files file

/-- A service is installed, and runs as it is installed. -/
def UpToDate (o : Operator) (req : UpdateRequest) (v : Service) (s : Host) : Prop :=
  Installed o req v s ∧ Current v s

/-- A service that is installed runs as it is installed. -/
def Sound (o : Operator) (req : UpdateRequest) (v : Service) (s : Host) : Prop :=
  Installed o req v s → Current v s

section Frames

variable {env : Env} {o : Operator} {req : UpdateRequest} {v : Service} {s t : Host}

theorem contents_congr (files : ∀ file ∈ v.otherFiles, t.files file = s.files file) :
    v.contents o req t = v.contents o req s := by
  cases v with
  | serf =>
    have release := files SerfProg.osReleasePath (by decide)
    have serial := files SerfProg.serialPath (by decide)
    simp only [Service.contents, serfConf, release, serial]
  | _ => rfl

theorem mem_files_of_contents {file : String × Except Error String}
    (member : file ∈ v.contents o req s) : file.1 ∈ v.paths ++ v.otherFiles := by
  have all : (v.contents o req s).map Prod.fst ⊆ v.paths ++ v.otherFiles := by
    cases v <;> simp [Service.contents, Service.paths, Service.otherFiles]
  exact all (List.mem_map_of_mem member)

theorem Installed.congr (installed : Installed o req v s)
    (files : ∀ file ∈ v.paths ++ v.otherFiles, t.files file = s.files file)
    (tags : ∀ name ∈ v.image, t.tags name = s.tags name)
    (debs : ∀ name ∈ v.package, t.debs name = s.debs name) : Installed o req v t where
  files := by
    rw [contents_congr fun file member => files file (List.mem_append_right _ member)]
    intro file member
    obtain ⟨data, generated, there⟩ := installed.files file member
    exact ⟨data, generated, (files _ (mem_files_of_contents member)).trans there⟩
  gone file member := by
    have inside : file ∈ v.otherFiles := by
      cases v <;> first | exact member | cases member
    exact (files file (List.mem_append_right _ inside)).trans (installed.gone file member)
  tag name member := by
    obtain ⟨img, found, recorded⟩ := installed.tag name member
    exact ⟨img, found, (tags name member).trans recorded⟩
  deb name member := by
    obtain ⟨deb, found, recorded⟩ := installed.deb name member
    exact ⟨deb, found, (debs name member).trans recorded⟩

theorem Installed.calm (installed : Installed o req v s) (calm : Calm env s t) :
    Installed o req v t :=
  installed.congr (fun file _ => congrFun calm.files file) (fun name _ => congrFun calm.tags name)
    fun name _ => congrFun calm.debs name

theorem Loaded.calm (loaded : Loaded v s) (calm : Calm env s t) : Loaded v t := by
  intro file member isUnit
  rw [calm.loaded, calm.files]
  exact loaded file member isUnit

/-- A service whose unit files are loaded is started with the files that are there. -/
theorem Loaded.launch (loaded : Loaded v s) {file : String} (member : file ∈ v.paths) :
    s.launch file = s.files file := by
  rw [Host.launch]
  split
  next isUnit => exact loaded file member isUnit
  next => rfl

/-- A service that crashes comes back with the files that are there, and is started with them by
others. -/
theorem Current.calm (current : Current v s) (calm : Calm env s t) : Current v t where
  loaded := current.loaded.calm calm
  fresh unit member files active file inside := by
    rw [calm.files]
    rcases calm.running_cases unit with same | down | anew
    · exact current.fresh unit member files (same ▸ active) file inside
    · rw [down] at active
      cases active
    · rw [anew] at active
      cases active
      exact current.loaded.launch inside

theorem file_mem_parts {file : String} (member : file ∈ v.paths ++ v.otherFiles) :
    .file file ∈ v.parts := by
  simp only [Service.parts, List.mem_append, List.mem_map]
  exact .inl (.inl (.inl ⟨file, List.mem_append.mp member, rfl⟩))

theorem unit_mem_parts {unit : String} (member : unit ∈ v.started) : .unit unit ∈ v.parts := by
  have inside : unit ∈ v.units := by
    cases v <;> first | exact member | cases member
  simp only [Service.parts, List.mem_append, List.mem_map]
  exact .inl (.inl (.inr ⟨unit, inside, rfl⟩))

theorem tag_mem_parts {name : String} (member : name ∈ v.image) : .tag name ∈ v.parts := by
  simp only [Service.parts, List.mem_append, List.mem_map, Option.mem_toList]
  exact .inl (.inr ⟨name, member, rfl⟩)

theorem deb_mem_parts {name : String} (member : name ∈ v.package) : .deb name ∈ v.parts := by
  simp only [Service.parts, List.mem_append, List.mem_map, Option.mem_toList]
  exact .inr ⟨name, member, rfl⟩

variable {parts : List Part}

theorem Installed.changes (installed : Installed o req v s) (changes : Changes parts s t)
    (apart : ∀ p ∈ v.parts, p ∉ parts) : Installed o req v t :=
  installed.congr (fun file member => changes.files file (apart _ (file_mem_parts member)))
    (fun name member => changes.tags name (apart _ (tag_mem_parts member)))
    fun name member => changes.debs name (apart _ (deb_mem_parts member))

theorem Loaded.changes (loaded : Loaded v s) (changes : Changes parts s t)
    (apart : ∀ p ∈ v.parts, p ∉ parts) : Loaded v t := by
  intro file member isUnit
  rw [changes.files file (apart _ (file_mem_parts (List.mem_append_left _ member)))]
  -- a reload brings in the file that is there already
  rcases changes.loaded with same | reloaded
  · rw [same]
    exact loaded file member isUnit
  · rw [reloaded]

theorem Current.changes (current : Current v s) (changes : Changes parts s t)
    (apart : ∀ p ∈ v.parts, p ∉ parts) : Current v t where
  loaded := current.loaded.changes changes apart
  fresh unit member files active file inside := by
    rw [changes.files file (apart _ (file_mem_parts (List.mem_append_left _ inside)))]
    rw [changes.running unit (apart _ (unit_mem_parts member))] at active
    exact current.fresh unit member files active file inside

/-- Which service a part belongs to. -/
def owner (p : Part) : Option Service :=
  [.etcd, .vault, .setupHW, .serf, .setupSerfTags, .ssh, .sudoers, .etcdpasswd, .sabakan, .stateSetter,
    .cke, .promtail].find? fun v : Service => decide (p ∈ v.parts)

theorem owner_of_mem {p : Part} (member : p ∈ v.parts) : owner p = some v := by
  have all : ∀ p ∈ v.parts, owner p = some v := by
    cases v <;> decide
  exact all p member

theorem apart_of_within {vs : List Service} {c : Call} (within : Within vs c) (other : v ∉ vs) :
    ∀ p ∈ v.parts, p ∉ c.touched := by
  intro p member touched
  rcases within p touched with ⟨w, inside, mine⟩ | ⟨image, rfl⟩
  · have same : v = w := by
      have := (owner_of_mem member).symm.trans (owner_of_mem mine)
      exact Option.some.inj this
    exact other (same ▸ inside)
  · simp [Service.parts] at member

variable {α : Type} {p q : Prog α} {vs : List Service}

/-- What is installed stays so while other services are taken care of. -/
theorem Installed.frame (reached : Reaches (world env) p s q t) (uses : p.Uses (Within vs))
    (other : v ∉ vs) (installed : Installed o req v s) : Installed o req v t := by
  refine reached.keeps (P := Installed o req v) ?_ ?_ uses installed
  · intro s t holds calm
    exact holds.calm calm
  · intro c s r t within holds answered
    exact holds.changes (answers_changes answered) (apart_of_within within other)

theorem Loaded.frame (reached : Reaches (world env) p s q t) (uses : p.Uses (Within vs))
    (other : v ∉ vs) (loaded : Loaded v s) : Loaded v t := by
  refine reached.keeps (P := Loaded v) ?_ ?_ uses loaded
  · intro s t holds calm
    exact holds.calm calm
  · intro c s r t within holds answered
    exact holds.changes (answers_changes answered) (apart_of_within within other)

/-- What is up to date stays so while other services are taken care of. -/
theorem UpToDate.frame (reached : Reaches (world env) p s q t) (uses : p.Uses (Within vs))
    (other : v ∉ vs) (upToDate : UpToDate o req v s) : UpToDate o req v t := by
  refine reached.keeps (P := UpToDate o req v) ?_ ?_ uses upToDate
  · intro s t holds calm
    exact ⟨holds.1.calm calm, holds.2.calm calm⟩
  · intro c s r t within holds answered
    have apart := apart_of_within within other
    have changes := answers_changes answered
    exact ⟨holds.1.changes changes apart, holds.2.changes changes apart⟩

/-- What is sound stays so while other services are taken care of. -/
theorem Sound.frame (reached : Reaches (world env) p s q t) (uses : p.Uses (Within vs))
    (other : v ∉ vs) (sound : Sound o req v s) : Sound o req v t := by
  refine reached.keeps (P := Sound o req v) ?_ ?_ uses sound
  · intro s t holds calm installed
    refine (holds ?_).calm calm
    exact installed.congr (fun file _ => (congrFun calm.files file).symm)
      (fun name _ => (congrFun calm.tags name).symm) fun name _ => (congrFun calm.debs name).symm
  · intro c s r t within holds answered installed
    have apart := apart_of_within within other
    have changes := answers_changes answered
    refine (holds ?_).changes changes apart
    exact installed.congr
      (fun file member => (changes.files file (apart _ (file_mem_parts member))).symm)
      (fun name member => (changes.tags name (apart _ (tag_mem_parts member))).symm)
      fun name member => (changes.debs name (apart _ (deb_mem_parts member))).symm

end Frames
end Neco.Deploy
