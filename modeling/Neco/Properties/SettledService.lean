import Neco.Properties.Deployment

/-!
# Services whose step finds nothing new

Four services are restarted only when their step has replaced a file or recorded a new version. A
service that is installed is therefore left alone by every attempt of every step, complete or
not. That saves needless restarts; but an attempt that is stopped right before the restart leaves
an installed service that still runs with older files, and goes on so through all later attempts
unless it crashes.
-/

namespace Neco.Deploy

open Program

variable {env : Env} {o : Operator} {req : UpdateRequest} {v : Service} {s t : Host}

/-! ### Services that are left alone -/

/-- The call leaves a service alone. -/
def Spares (v : Service) (_ : Host) (c : Call) : Prop := ∀ p ∈ v.parts, p ∉ c.touched

section Settled

variable {P : Host → Prop}

theorem spares_of_nil {c : Call} (nothing : c.touched = []) : Spares v s c := by
  intro p _ touched
  rw [nothing] at touched
  cases touched

/-- A call whose answer is known: it may only fail otherwise. -/
theorem conforms_known {α : Type} {c : Call} {next : Reply c → Prog α} {value : Value c}
    {Q : α → Host → Prop} (stable : (world env).Stable P) (nothing : c.touched = [])
    (known : ∀ s r t, P s → s.serves env.packages c r t → r = .ok value ∧ t = s)
    (fails : ∀ message, ∃ err, next (.error (.failed message)) = .fail err)
    (rest : Conforms (world env) (Spares v) (next (.ok value)) P Q) :
    Conforms (world env) (Spares v) (.call c next) P Q := by
  refine ⟨fun s _ => spares_of_nil nothing, fun r => ?_⟩
  by_cases right : r = .ok value
  · subst right
    refine ⟨P, stable, fun s t holds answered => ?_, rest⟩
    obtain ⟨-, rfl⟩ := known s _ t holds (serves_of_ok answered)
    exact holds
  · -- any other answer is a failure
    by_cases failure : ∃ message, r = .error (.failed message)
    · obtain ⟨message, rfl⟩ := failure
      obtain ⟨err, ends⟩ := fails message
      refine ⟨fun _ => True, fun _ _ _ _ => trivial, fun _ _ _ _ => trivial, ?_⟩
      rw [ends]
      trivial
    · refine ⟨fun _ => False, fun _ _ never _ => never, fun s t holds answered => ?_,
        Conforms.impossible⟩
      rcases answered with served | ⟨-, -, failed, -⟩
      · exact right (known s r t holds served).1
      · exact failure failed

theorem conforms_request {c : Call} {value : Value c} (stable : (world env).Stable P)
    (nothing : c.touched = [])
    (known : ∀ s r t, P s → s.serves env.packages c r t → r = .ok value ∧ t = s) :
    Conforms (world env) (Spares v) (request c) P fun result s => result = value ∧ P s :=
  conforms_known stable nothing known (fun _ => ⟨_, rfl⟩) fun _ holds => ⟨rfl, holds⟩

/-- A read of a file that is there returns its text. -/
theorem serves_readFile {name text : String} {r : Reply (.readFile name)}
    (there : s.files name = some text) (served : s.serves env.packages (.readFile name) r t) :
    r = .ok text ∧ t = s := by
  rw [Host.serves, there] at served
  exact ⟨served.2, served.1⟩

theorem conforms_replaceFile {name data : String} (stable : (world env).Stable P)
    (there : ∀ s, P s → s.files name = some data) :
    Conforms (world env) (Spares v) (replaceFile name data) P
      fun replaced s => replaced = false ∧ P s := by
  refine conforms_known stable rfl
    (fun s _ _ holds served => serves_readFile (there s holds) served) (fun _ => ⟨_, rfl⟩) ?_
  dsimp only
  rw [if_pos rfl]
  exact fun _ holds => ⟨rfl, holds⟩

theorem conforms_ended {α : Type} {result : Except Error α} {a : α} (known : result = .ok a) :
    Conforms (world env) (Spares v) (.ended result : Prog α) P fun b s => b = a ∧ P s := by
  subst known
  exact fun _ holds => ⟨rfl, holds⟩

/-- A sequence goes on from the value that its first part is known to return. -/
theorem conforms_bind_known {α β : Type} {p : Prog α} {f : α → Prog β} {a : α}
    {Q : β → Host → Prop}
    (first : Conforms (world env) (Spares v) p P fun b s => b = a ∧ P s)
    (rest : Conforms (world env) (Spares v) (f a) P Q) :
    Conforms (world env) (Spares v) (p >>= f) P Q := by
  refine first.bind fun b => Conforms.assume fun same => ?_
  rw [same]
  exact rest

theorem conforms_install {name data : String} {text : Except Error String}
    (stable : (world env).Stable P) (made : text = .ok data)
    (there : ∀ s, P s → s.files name = some data) :
    Conforms (world env) (Spares v) (install name text) P
      fun replaced s => replaced = false ∧ P s :=
  conforms_bind_known (conforms_ended made) (conforms_replaceFile stable there)

theorem conforms_installIn {folder name data : String} {text : Except Error String}
    (stable : (world env).Stable P) (made : text = .ok data)
    (there : ∀ s, P s → s.files name = some data) :
    Conforms (world env) (Spares v) (installIn folder name text) P
      fun replaced s => replaced = false ∧ P s := by
  refine conforms_bind_known (conforms_ended made) (conforms_bind_known (a := ()) ?_ ?_)
  · exact conforms_request stable rfl fun s r t _ served => served
  · exact conforms_replaceFile stable there

theorem conforms_updateImage {name : String} {tools : Prog Unit} {img : ContainerImage}
    (stable : (world env).Stable P) (found : o.findContainerImage name = .ok img)
    (recorded : ∀ s, P s → s.tags name = some img.tag) :
    Conforms (world env) (Spares v) (updateImage o name tools) P
      fun need s => need = false ∧ P s := by
  have asks : Conforms (world env) (Spares v) (needContainerImageUpdate o name) P
      fun need s => need = false ∧ P s := by
    have known (s : Host) (r : Reply (.getContainerTag name)) (t : Host) (holds : P s)
        (served : s.serves env.packages (.getContainerTag name) r t) : r = .ok img.tag ∧ t = s := by
      rw [Host.serves, recorded s holds] at served
      exact ⟨served.2, served.1⟩
    refine conforms_known stable rfl known (fun _ => ⟨_, rfl⟩) ?_
    refine conforms_bind_known (conforms_ended found) fun s holds => ⟨?_, holds⟩
    exact bne_self_eq_false img.tag
  exact conforms_bind_known asks fun s holds => ⟨rfl, holds⟩

end Settled

/-! ### Installed services -/

theorem installed_stable : (world env).Stable (Installed o req v) :=
  fun _ _ holds calm => holds.calm calm

/-- The steps for other services leave a service alone. -/
theorem conforms_others {α : Type} {p : Prog α} {vs : List Service} (uses : p.Uses (Within vs))
    (other : v ∉ vs) : Conforms (world env) (Spares v) p (Installed o req v)
      fun _ => Installed o req v := by
  have kept (c : Call) (s : Host) (r : Reply c) (t : Host) (within : Within vs c)
      (holds : Installed o req v s) (answered : (world env).answers c s r t) :
      Installed o req v t :=
    holds.changes (answers_changes answered) (apart_of_within within other)
  have permitted (s : Host) (c : Call) (within : Within vs c) : Spares v s c :=
    apart_of_within within other
  exact (Conforms.quiet installed_stable permitted kept uses).mono (fun _ holds => holds)
    fun _ _ holds => holds.1

/-- What an installed service needs could be made. -/
theorem conforms_of_made {α β : Type} {p : Prog β} {P : Host → Prop} {Q : β → Host → Prop}
    {result : Except Error α} (made : ∀ s, P s → ∃ a, result = .ok a)
    (conforms : ∀ a, result = .ok a → Conforms (world env) (Spares v) p P Q) :
    Conforms (world env) (Spares v) p P Q := by
  cases result with
  | ok a => exact conforms a rfl
  | error err =>
    refine Conforms.impossible.mono (fun s holds => ?_) fun _ _ holds => holds
    obtain ⟨a, never⟩ := made s holds
    cases never

theorem Installed.made {name : String} {text : Except Error String}
    (installed : Installed o req v s) (member : (name, text) ∈ v.contents o req s) :
    ∃ data, text = .ok data := by
  obtain ⟨data, made, -⟩ := installed.files _ member
  exact ⟨data, made⟩

theorem Installed.there {name data : String} {text : Except Error String}
    (installed : Installed o req v s) (member : (name, text) ∈ v.contents o req s)
    (made : text = .ok data) : s.files name = some data := by
  obtain ⟨data', made', there⟩ := installed.files _ member
  cases made.symm.trans made'
  exact there

theorem Installed.recorded {name : String} {img : ContainerImage}
    (installed : Installed o req v s) (member : name ∈ v.image)
    (found : o.findContainerImage name = .ok img) : s.tags name = some img.tag := by
  obtain ⟨img', found', recorded⟩ := installed.tag name member
  cases found.symm.trans found'
  exact recorded

theorem Installed.found {name : String} (installed : Installed o req v s)
    (member : name ∈ v.image) : ∃ img, o.findContainerImage name = .ok img := by
  obtain ⟨img, found, -⟩ := installed.tag name member
  exact ⟨img, found⟩

theorem conforms_setupHW : Conforms (world env) (Spares .setupHW) (updateSetupHW o)
    (Installed o req .setupHW) fun _ _ => True := by
  have service (s : Host) : (serviceFile "setup-hw", SetupHW.generateService o) ∈
      Service.setupHW.contents o req s := List.mem_singleton.mpr rfl
  refine conforms_of_made (fun s installed => installed.found rfl) fun img found => ?_
  refine conforms_of_made (fun s installed => installed.made (service s)) fun data made => ?_
  refine conforms_bind_known (conforms_updateImage installed_stable found
    fun s installed => installed.recorded rfl found) ?_
  refine conforms_bind_known (conforms_installIn installed_stable made
    fun s installed => installed.there (service s) made) ?_
  exact fun _ _ => trivial

theorem conforms_promtail : Conforms (world env) (Spares .promtail) (updatePromtail o)
    (Installed o req .promtail) fun _ _ => True := by
  have conf (s : Host) : (Promtail.confFile, .ok (Promtail.generateConf o o.mylrn)) ∈
      Service.promtail.contents o req s := by simp [Service.contents]
  have service (s : Host) : (serviceFile "promtail", Promtail.generateService o) ∈
      Service.promtail.contents o req s := by simp [Service.contents]
  refine conforms_of_made (fun s installed => installed.found rfl) fun img found => ?_
  refine conforms_of_made (fun s installed => installed.made (service s)) fun data made => ?_
  refine conforms_bind_known (conforms_updateImage installed_stable found
    fun s installed => installed.recorded rfl found) ?_
  refine conforms_bind_known (a := false) ?_ fun _ _ => trivial
  refine conforms_bind_known (conforms_installIn installed_stable rfl
    fun s installed => installed.there (conf s) rfl) ?_
  refine conforms_bind_known (conforms_installIn installed_stable made
    fun s installed => installed.there (service s) made) ?_
  exact fun _ holds => ⟨rfl, holds⟩

/-- A read of a file whose text is known. -/
theorem conforms_readFile {P : Host → Prop} {name text : String}
    (stable : (world env).Stable P) (there : ∀ s, P s → s.files name = some text) :
    Conforms (world env) (Spares v) (request (.readFile name)) P
      fun result s => result = text ∧ P s :=
  conforms_request stable rfl fun s _ _ holds served => serves_readFile (there s holds) served

/-- The text of `serf.json` comes from what two files say. -/
theorem serfConf_eq_ok {data : String} (made : serfConf o req s = .ok data) :
    ∃ text name version serial, s.files SerfProg.osReleasePath = some text ∧
      SerfProg.osRelease "NAME" text = some name ∧
      SerfProg.osRelease "VERSION_ID" text = some version ∧
      s.files SerfProg.serialPath = some serial ∧
      data = SerfProg.generateConf o (req.servers.filter (· ≠ o.mylrn)) name version
        (trimSpace serial) := by
  unfold serfConf at made
  cases release : s.files SerfProg.osReleasePath with
  | none => simp [release, bind, Except.bind] at made
  | some text =>
    cases name : SerfProg.osRelease "NAME" text with
    | none => simp [release, name, bind, Except.bind] at made
    | some name' =>
      cases version : SerfProg.osRelease "VERSION_ID" text with
      | none => simp [release, name, version, bind, Except.bind] at made
      | some version' =>
        cases serial : s.files SerfProg.serialPath with
        | none => simp [release, name, version, serial, bind, Except.bind] at made
        | some serial' =>
          simp only [release, name, version, serial, bind, Except.bind, pure, Except.pure,
            Option.elim_some, Except.ok.injEq] at made
          exact ⟨text, name', version', serial', rfl, name, version, rfl, made.symm⟩

/-- `serf` is installed on a server with the given system. -/
structure SerfInstalled (o : Operator) (req : UpdateRequest) (text serial : String) (s : Host) :
    Prop where
  installed : Installed o req .serf s
  release : s.files SerfProg.osReleasePath = some text
  number : s.files SerfProg.serialPath = some serial

theorem SerfInstalled.stable {text serial : String} :
    (world env).Stable (SerfInstalled o req text serial) := by
  intro s t holds calm
  refine ⟨holds.installed.calm calm, ?_, ?_⟩
  · rw [calm.files]
    exact holds.release
  · rw [calm.files]
    exact holds.number

/-- What an installed `serf` has in its configuration. -/
theorem SerfInstalled.conf {text serial : String} (holds : SerfInstalled o req text serial s) :
    ∃ name version, SerfProg.osRelease "NAME" text = some name ∧
      SerfProg.osRelease "VERSION_ID" text = some version ∧
      s.files SerfProg.confFile = some (SerfProg.generateConf o
        (req.servers.filter (· ≠ o.mylrn)) name version (trimSpace serial)) := by
  obtain ⟨data, made, there⟩ := holds.installed.files (SerfProg.confFile, serfConf o req s)
    (by simp [Service.contents])
  obtain ⟨text', name, version, serial', release, nameIs, versionIs, number, rfl⟩ :=
    serfConf_eq_ok made
  cases holds.release.symm.trans release
  cases holds.number.symm.trans number
  exact ⟨name, version, nameIs, versionIs, there⟩

theorem conforms_serf : Conforms (world env) (Spares .serf) (updateSerf o req)
    (Installed o req .serf) fun _ _ => True := by
  -- the system is the same during the whole step, so the cases are told by it
  suffices each : ∀ system : String × String, Conforms (world env) (Spares .serf)
      (updateSerf o req) (SerfInstalled o req system.1 system.2) fun _ _ => True by
    refine (Conforms.of_exists each).mono (fun s installed => ?_) fun _ _ holds => holds
    have conf : (SerfProg.confFile, serfConf o req s) ∈ Service.serf.contents o req s := by
      simp [Service.contents]
    obtain ⟨data, made⟩ := installed.made conf
    obtain ⟨text, -, -, serial, release, -, -, number, -⟩ := serfConf_eq_ok made
    exact ⟨(text, serial), installed, release, number⟩
  rintro ⟨text, serial⟩
  have service (s : Host) : (serviceFile "serf", SerfProg.generateService o) ∈
      Service.serf.contents o req s := by simp [Service.contents]
  refine conforms_of_made (fun s holds => holds.installed.found rfl) fun img found => ?_
  refine conforms_of_made (fun s holds => holds.installed.made (service s)) fun data made => ?_
  -- both values are in the text of the system, or nothing could be installed
  have named : ∀ s, SerfInstalled o req text serial s → ∃ value,
      (SerfProg.osRelease "NAME" text).elim (.error (.failed "failed to get os type")) .ok =
        (.ok value : Except Error String) := by
    intro s holds
    obtain ⟨name, -, nameIs, -⟩ := holds.conf
    exact ⟨name, by rw [nameIs]; rfl⟩
  have versioned : ∀ s, SerfInstalled o req text serial s → ∃ value,
      (SerfProg.osRelease "VERSION_ID" text).elim
        (.error (.failed "failed to get os version")) .ok = (.ok value : Except Error String) := by
    intro s holds
    obtain ⟨-, version, -, versionIs, -⟩ := holds.conf
    exact ⟨version, by rw [versionIs]; rfl⟩
  refine conforms_of_made named fun name nameIs => ?_
  refine conforms_of_made versioned fun version versionIs => ?_
  have conf (s : Host) (holds : SerfInstalled o req text serial s) : s.files SerfProg.confFile =
      some (SerfProg.generateConf o (req.servers.filter (· ≠ o.mylrn)) name version
        (trimSpace serial)) := by
    obtain ⟨name', version', nameIs', versionIs', there⟩ := holds.conf
    rw [nameIs'] at nameIs
    rw [versionIs'] at versionIs
    cases nameIs
    cases versionIs
    exact there
  refine conforms_bind_known (conforms_updateImage SerfInstalled.stable found
    fun s holds => holds.installed.recorded rfl found) ?_
  refine conforms_bind_known (a := false) ?_ fun _ _ => trivial
  refine conforms_bind_known (conforms_installIn SerfInstalled.stable made
    fun s holds => holds.installed.there (service s) made) ?_
  refine conforms_bind_known (a := name) ?_ ?_
  · refine conforms_bind_known (conforms_readFile SerfInstalled.stable
      fun s holds => holds.release) ?_
    exact conforms_ended nameIs
  refine conforms_bind_known (a := version) ?_ ?_
  · refine conforms_bind_known (conforms_readFile SerfInstalled.stable
      fun s holds => holds.release) ?_
    exact conforms_ended versionIs
  refine conforms_bind_known (a := trimSpace serial) ?_ ?_
  · refine conforms_bind_known (conforms_readFile SerfInstalled.stable
      fun s holds => holds.number) ?_
    exact fun _ holds => ⟨rfl, holds⟩
  refine conforms_bind_known (conforms_install SerfInstalled.stable rfl conf) ?_
  exact fun _ holds => ⟨rfl, holds⟩

theorem conforms_agent : Conforms (world env) (Spares .etcdpasswd) (updateAgent o req)
    (Installed o req .etcdpasswd) fun _ _ => True := by
  have dropIn (s : Host) : (Etcdpasswd.dropIn, .ok (Etcdpasswd.generateSystemdDropIn o)) ∈
      Service.etcdpasswd.contents o req s := by simp [Service.contents]
  have conf (s : Host) : (Etcdpasswd.confFile, .ok (Etcdpasswd.generateConf o req.servers)) ∈
      Service.etcdpasswd.contents o req s := by simp [Service.contents]
  have found (s : Host) (installed : Installed o req .etcdpasswd s) :
      ∃ deb, o.findDebianPackage "etcdpasswd" = .ok deb := by
    obtain ⟨deb, found, -⟩ := installed.deb _ rfl
    exact ⟨deb, found⟩
  refine conforms_of_made found fun deb found => ?_
  refine conforms_bind_known (a := false) ?_ ?_
  · refine conforms_bind_known (conforms_installIn installed_stable rfl
      fun s installed => installed.there (dropIn s) rfl) ?_
    refine conforms_bind_known (conforms_installIn installed_stable rfl
      fun s installed => installed.there (conf s) rfl) ?_
    exact fun _ holds => ⟨rfl, holds⟩
  refine conforms_bind_known (a := false) ?_ fun _ _ => trivial
  have known (s : Host) (r : Reply (.getDebVersion "etcdpasswd")) (t : Host)
      (installed : Installed o req .etcdpasswd s)
      (served : s.serves env.packages (.getDebVersion "etcdpasswd") r t) :
      r = .ok deb.release ∧ t = s := by
    obtain ⟨deb', found', recorded⟩ := installed.deb _ rfl
    cases found.symm.trans found'
    rw [Host.serves, recorded] at served
    exact ⟨served.2, served.1⟩
  refine conforms_known installed_stable rfl known (fun _ => ⟨_, rfl⟩) ?_
  refine conforms_bind_known (conforms_ended found) fun s holds => ⟨?_, holds⟩
  exact bne_self_eq_false deb.release

/-- Every step leaves an installed service of this kind alone. -/
theorem conforms_runStep (only : v ∈ guarded) (step : Nat) :
    Conforms (world env) (Spares v) (runStep o req step) (Installed o req v)
      fun _ _ => True := by
  by_cases mine : v ∈ services step
  · have here := eq_step_of_mem only mine
    subst here
    simp only [guarded, List.mem_cons, List.not_mem_nil, or_false] at only
    rcases only with rfl | rfl | rfl | rfl
    · exact conforms_setupHW
    · exact conforms_serf
    · simp only [Service.step, runStep, updateEtcdpasswd_eq]
      refine (conforms_others uses_updateSshd (by decide)).bind fun _ => ?_
      exact (conforms_others uses_installSudoers (by decide)).bind fun _ => conforms_agent
    · exact conforms_promtail
  · exact (conforms_others (uses_runStep step) mine).mono (fun _ holds => holds)
      fun _ _ _ => trivial

/-! ### Attempts -/

/-- The programs that a worker runs on its server. -/
inductive Task (o : Operator) (req : UpdateRequest) : Prog Unit → Prop
  | startServices : Task o req startServices
  | runStep (step : Nat) : Task o req (runStep o req step)
  | restartEtcd (index : Nat) : Task o req (restartEtcd req index)

theorem Task.conforms (only : v ∈ guarded) {p : Prog Unit} (task : Task o req p) :
    Conforms (world env) (Spares v) p (Installed o req v) fun _ _ => True := by
  cases task with
  | startServices =>
    have other : v ∉ [Service.etcd, Service.vault] := by
      revert v
      decide
    exact (conforms_others uses_startServices other).mono (fun _ holds => holds) fun _ _ _ => trivial
  | runStep step => exact conforms_runStep only step
  | restartEtcd index =>
    have other : v ∉ [Service.etcd] := by
      revert v
      decide
    exact (conforms_others (uses_restartEtcd index) other).mono (fun _ holds => holds)
      fun _ _ _ => trivial

/-- An attempt of one of the programs, which succeeds, fails or is stopped somewhere. -/
def Attempted (env : Env) (o : Operator) (req : UpdateRequest) (s t : Host) : Prop :=
  ∃ p q u, Task o req p ∧ Calm env s u ∧ Reaches (world env) p u q t

theorem Task.executing (only : v ∈ guarded) {p : Prog Unit} (task : Task o req p)
    (installed : Installed o req v s) :
    Executing (world env) (Spares v) p (fun _ _ => True) s :=
  ⟨Installed o req v, installed_stable, installed, task.conforms only⟩

theorem Installed.attempted (only : v ∈ guarded) (installed : Installed o req v s)
    (attempted : Attempted env o req s t) : Installed o req v t := by
  obtain ⟨p, q, u, task, calm, reached⟩ := attempted
  have before := installed.calm calm
  have kept (c : Call) (s : Host) (r : Reply c) (t : Host) (spares : Spares v s c)
      (holds : Installed o req v s) (answered : (world env).answers c s r t) :
      Installed o req v t :=
    holds.changes (answers_changes answered) spares
  exact (task.executing only before).keeps installed_stable kept reached before

end Neco.Deploy
