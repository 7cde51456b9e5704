import Neco.Worker.Effects

/-!
# What an update leaves on a boot server

When all steps of an update have returned without an error and etcd has been restarted, every
service has the files and the records that the artifacts and the request ask for, and runs with
these files. Four services are restarted only when their step finds something new, so for them
this needs a server on which what is installed is also what runs.
-/

namespace Neco.Deploy

open Program

variable {env : Env} {o : Operator} {req : UpdateRequest} {v : Service} {s t u : Host}

/-! ### Restarts -/

theorem Installed.restarted {unit : String} (installed : Installed o req v s)
    (restarted : Restarted unit s t) : Installed o req v t :=
  installed.congr (fun file _ => congrFun restarted.files file)
    (fun name _ => congrFun restarted.tags name) fun name _ => congrFun restarted.debs name

/-- A restart brings an installed service up to date. -/
theorem upToDate_of_restarted {unit : String} (installed : Installed o req v s)
    (restarted : Restarted unit s t) (only : v.started = [unit]) : UpToDate o req v t := by
  refine ⟨installed.restarted restarted, ?_, ?_⟩
  · intro file _ _
    rw [restarted.loaded, restarted.files]
  · intro unit' member files active file _
    rw [only, List.mem_singleton] at member
    subst member
    rw [restarted.fresh files active, restarted.files]

theorem UpToDate.calm (upToDate : UpToDate o req v s) (calm : Calm env s t) : UpToDate o req v t :=
  ⟨upToDate.1.calm calm, upToDate.2.calm calm⟩

/-- A sound service that turns out to be installed, without anything having been done, is up to
date. -/
theorem Sound.upToDate (sound : Sound o req v s) (calm : Calm env s t)
    (installed : Installed o req v t) : UpToDate o req v t := by
  refine ⟨installed, (sound ?_).calm calm⟩
  exact installed.congr (fun file _ => (congrFun calm.files file).symm)
    (fun name _ => (congrFun calm.tags name).symm) fun name _ => (congrFun calm.debs name).symm

/-! ### Services with one or two files -/

/-- The two files of a service are written one after the other. -/
structure WroteBoth (env : Env) (f₁ d₁ f₂ d₂ : String) (replaced : Bool) (s t : Host) : Prop
    extends Kept env s t where
  first : t.files f₁ = some d₁
  second : t.files f₂ = some d₂
  others : ∀ file, file ≠ f₁ → file ≠ f₂ → t.files file = s.files file
  unchanged : replaced = false → Calm env s t

theorem wroteBoth {f₁ d₁ f₂ d₂ : String} {r₁ r₂ : Bool} (different : f₁ ≠ f₂)
    (first : Wrote env f₁ (some d₁) s t) (calm₁ : r₁ = false → Calm env s t)
    (second : Wrote env f₂ (some d₂) t u) (calm₂ : r₂ = false → Calm env t u) :
    WroteBoth env f₁ d₁ f₂ d₂ (r₁ || r₂) s u where
  toKept := first.toKept.trans second.toKept
  first := by
    rw [second.files, Function.update_of_ne different, first.files, Function.update_self]
  second := by rw [second.files, Function.update_self]
  others file ne₁ ne₂ := by
    rw [second.files, Function.update_of_ne ne₂, first.files, Function.update_of_ne ne₁]
  unchanged same := by
    obtain ⟨same₁, same₂⟩ := Bool.or_eq_false_iff.mp same
    exact (calm₁ same₁).trans (calm₂ same₂)

/-- Two files, both in folders of their own. -/
theorem ends_installBoth {g₁ f₁ g₂ f₂ : String} {x₁ x₂ : Except Error String} {replaced : Bool}
    (different : f₁ ≠ f₂)
    (ended : Ends (world env) (do
      let r1 ← installIn g₁ f₁ x₁
      let r2 ← installIn g₂ f₂ x₂
      .ret (r1 || r2)) s replaced t) :
    ∃ d₁ d₂, x₁ = .ok d₁ ∧ x₂ = .ok d₂ ∧ WroteBoth env f₁ d₁ f₂ d₂ replaced s t := by
  obtain ⟨r₁, s₁, one, rest⟩ := ends_bind.mp ended
  obtain ⟨r₂, s₂, two, last⟩ := ends_bind.mp rest
  obtain ⟨rfl, rfl⟩ := ends_ret.mp last
  obtain ⟨d₁, made₁, wrote₁, calm₁⟩ := ends_installIn one
  obtain ⟨d₂, made₂, wrote₂, calm₂⟩ := ends_installIn two
  exact ⟨d₁, d₂, made₁, made₂, wroteBoth different wrote₁ (fun same => (calm₁ same).1) wrote₂
    fun same => (calm₂ same).1⟩

/-- Two files, in folders that are there. -/
theorem ends_installPair {f₁ f₂ : String} {x₁ x₂ : Except Error String} {replaced : Bool}
    (different : f₁ ≠ f₂)
    (ended : Ends (world env) (do
      let r1 ← install f₁ x₁
      let r2 ← install f₂ x₂
      .ret (r1 || r2)) s replaced t) :
    ∃ d₁ d₂, x₁ = .ok d₁ ∧ x₂ = .ok d₂ ∧ WroteBoth env f₁ d₁ f₂ d₂ replaced s t := by
  obtain ⟨r₁, s₁, one, rest⟩ := ends_bind.mp ended
  obtain ⟨r₂, s₂, two, last⟩ := ends_bind.mp rest
  obtain ⟨rfl, rfl⟩ := ends_ret.mp last
  obtain ⟨d₁, made₁, wrote₁, calm₁⟩ := ends_install one
  obtain ⟨d₂, made₂, wrote₂, calm₂⟩ := ends_install two
  exact ⟨d₁, d₂, made₁, made₂, wroteBoth different wrote₁ (fun same => (calm₁ same).1) wrote₂
    fun same => (calm₂ same).1⟩

/-- A recorded tag is kept by what keeps the records. -/
theorem recorded_of_kept {name : String} (kept : Kept env s t)
    (recorded : ∃ img, o.findContainerImage name = .ok img ∧ s.tags name = some img.tag) :
    ∃ img, o.findContainerImage name = .ok img ∧ t.tags name = some img.tag := by
  rw [kept.tags]
  exact recorded

/-- An image service with two files. -/
theorem installed_of_both {name f₁ d₁ f₂ d₂ : String} {x₁ x₂ : Except Error String}
    {replaced : Bool} (contents : v.contents o req t = [(f₁, x₁), (f₂, x₂)])
    (image : v.image = some name) (package : v.package = none) (removed : v.removed = [])
    (recorded : ∃ img, o.findContainerImage name = .ok img ∧ s.tags name = some img.tag)
    (made₁ : x₁ = .ok d₁) (made₂ : x₂ = .ok d₂) (wrote : WroteBoth env f₁ d₁ f₂ d₂ replaced s t) :
    Installed o req v t where
  files file member := by
    rw [contents] at member
    simp only [List.mem_cons, List.not_mem_nil, or_false] at member
    rcases member with rfl | rfl
    · exact ⟨d₁, made₁, wrote.first⟩
    · exact ⟨d₂, made₂, wrote.second⟩
  gone file member := by
    rw [removed] at member
    cases member
  tag name' member := by
    rw [image, Option.mem_some_iff] at member
    subst member
    exact recorded_of_kept wrote.toKept recorded
  deb name' member := by
    rw [package] at member
    cases member

/-! ### The steps -/

theorem vault_upToDate {value : Unit} (alone : ¬env.pulled "vault.service")
    (down : s.running "vault.service" = none)
    (ended : Ends (world env) (updateVault o req) s value t) : UpToDate o req .vault t := by
  obtain ⟨_, s₁, image, rest⟩ := ends_bind.mp ended
  obtain ⟨_, s₂, files, rest⟩ := ends_bind.mp rest
  obtain ⟨_, s₃, started, slept⟩ := ends_bind.mp rest
  obtain ⟨recorded, -, stopped⟩ := ends_updateImage image
  obtain ⟨d₁, d₂, made₁, made₂, wrote⟩ := ends_installPair (by decide) files
  have installed : Installed o req .vault s₂ :=
    installed_of_both rfl rfl rfl rfl recorded made₁ made₂ wrote
  have still : s₂.running "vault.service" = none :=
    wrote.stopped _ alone (stopped (fun _ _ _ ended => ends_installTools ended) _ alone down)
  have restarted := ends_startUnit started alone still
  exact (upToDate_of_restarted installed restarted rfl).calm (ends_request_calm slept id)

/-- The step for Vault lets systemd read all files. -/
theorem vault_loads {value : Unit} (ended : Ends (world env) (updateVault o req) s value t) :
    t.loaded = t.files := by
  obtain ⟨_, s₁, -, rest⟩ := ends_bind.mp ended
  obtain ⟨_, s₂, -, rest⟩ := ends_bind.mp rest
  obtain ⟨_, s₃, started, slept⟩ := ends_bind.mp rest
  obtain ⟨files, -, -, loaded⟩ := ends_startUnit_loaded started
  have last := ends_request_calm slept id
  rw [last.loaded, last.files, loaded, files]

theorem setupHW_upToDate {value : Unit} (sound : Sound o req .setupHW s)
    (ended : Ends (world env) (updateSetupHW o) s value t) : UpToDate o req .setupHW t := by
  obtain ⟨need, s₁, image, rest⟩ := ends_bind.mp ended
  obtain ⟨replaced, s₂, files, rest⟩ := ends_bind.mp rest
  obtain ⟨recorded, calm₁, -⟩ := ends_updateImage image
  obtain ⟨data, made, wrote, calm₂⟩ := ends_installIn files
  have installed : Installed o req .setupHW s₂ := by
    refine ⟨fun file member => ?_, fun file member => ?_, fun name member => ?_,
      fun name member => ?_⟩
    · rw [List.mem_singleton.mp member]
      exact ⟨data, made, by rw [wrote.files, Function.update_self]⟩
    · cases member
    · cases member
      exact recorded_of_kept wrote.toKept recorded
    · cases member
  split at rest
  · exact upToDate_of_restarted installed (ends_restartService rest) rfl
  next unneeded =>
    -- nothing was done, so what is installed now was installed before
    obtain ⟨rfl, rfl⟩ := ends_ret.mp rest
    obtain ⟨none₁, none₂⟩ : need = false ∧ replaced = false := by
      simpa using unneeded
    exact sound.upToDate ((calm₁ none₁).trans (calm₂ none₂).1) installed

theorem promtail_upToDate {value : Unit} (sound : Sound o req .promtail s)
    (ended : Ends (world env) (updatePromtail o) s value t) : UpToDate o req .promtail t := by
  obtain ⟨need, s₁, image, rest⟩ := ends_bind.mp ended
  obtain ⟨replaced, s₂, files, rest⟩ := ends_bind.mp rest
  obtain ⟨recorded, calm₁, -⟩ := ends_updateImage image
  obtain ⟨d₁, d₂, made₁, made₂, wrote⟩ := ends_installBoth (by decide) files
  have installed : Installed o req .promtail s₂ :=
    installed_of_both rfl rfl rfl rfl recorded made₁ made₂ wrote
  split at rest
  next unneeded =>
    obtain ⟨rfl, rfl⟩ := ends_ret.mp rest
    obtain ⟨none₁, none₂⟩ : need = false ∧ replaced = false := by
      simpa using unneeded
    exact sound.upToDate ((calm₁ none₁).trans (wrote.unchanged none₂)) installed
  · exact upToDate_of_restarted installed (ends_restartService rest) rfl

theorem sabakan_upToDate {value : Unit}
    (ended : Ends (world env) (updateSabakan o req) s value t) : UpToDate o req .sabakan t := by
  obtain ⟨_, s₁, image, rest⟩ := ends_bind.mp ended
  obtain ⟨_, s₂, files, rest⟩ := ends_bind.mp rest
  obtain ⟨_, s₃, restarted, rest⟩ := ends_bind.mp rest
  obtain ⟨recorded, -, -⟩ := ends_updateImage image
  obtain ⟨d₁, d₂, made₁, made₂, wrote⟩ := ends_installBoth (by decide) files
  have installed : Installed o req .sabakan s₂ :=
    installed_of_both rfl rfl rfl rfl recorded made₁ made₂ wrote
  have now := upToDate_of_restarted installed (ends_restartService restarted) rfl
  -- the look at the key file and the wait for sabakan touch nothing
  refine now.frame rest (?_ : Prog.Uses (Within []) _) (by simp)
  refine ⟨within_of_nil rfl, fun r => ?_⟩
  cases r with
  | ok _ => exact uses_request (within_of_nil rfl)
  | error err => cases err <;> trivial

theorem cke_upToDate {value : Unit} (ended : Ends (world env) (updateCKE o req) s value t) :
    UpToDate o req .cke t := by
  obtain ⟨_, s₁, files, rest⟩ := ends_bind.mp ended
  obtain ⟨_, s₂, template, rest⟩ := ends_bind.mp rest
  obtain ⟨_, s₃, first, second⟩ := ends_bind.mp rest
  obtain ⟨data, made, wrote, -⟩ := ends_installIn files
  have there : Installed o req .cke s₁ := by
    refine ⟨fun file member => ?_, fun file member => ?_, fun name member => ?_,
      fun name member => ?_⟩
    · rw [List.mem_singleton.mp member]
      exact ⟨data, made, by rw [wrote.files, Function.update_self]⟩
    · cases member
    · cases member
    · cases member
  have installed : Installed o req .cke s₂ := by
    have quiet : (contentsStep (Contents.updateCKETemplate req)).Uses (Within []) :=
      uses_contentsStep _
    exact there.frame template quiet (by simp)
  have restarted₁ := ends_restartService first
  have restarted₂ := ends_restartService second
  refine ⟨(installed.restarted restarted₁).restarted restarted₂, ?_, ?_⟩
  · intro file _ _
    rw [restarted₂.loaded, restarted₂.files]
  · intro unit member files active file _
    simp only [Service.started, Service.units, List.mem_cons, List.not_mem_nil, or_false] at member
    rcases member with rfl | rfl
    · -- CKE itself was restarted before its proxy
      rw [restarted₂.files]
      rcases restarted₂.others _ (by decide) files active with before | now
      · rw [restarted₁.fresh files before, restarted₁.files]
      · rw [now]
    · rw [restarted₂.fresh files active, restarted₂.files]

theorem setupSerfTags_upToDate {value : Unit}
    (ended : Ends (world env) (updateSetupSerfTags o req) s value t) :
    UpToDate o req .setupSerfTags t := by
  obtain ⟨_, s₁, folder, rest⟩ := ends_bind.mp ended
  obtain ⟨_, s₂, service, rest⟩ := ends_bind.mp rest
  obtain ⟨_, s₃, timer, rest⟩ := ends_bind.mp rest
  obtain ⟨_, s₄, script, started⟩ := ends_bind.mp rest
  have wrote₁ := ends_writeFile service
  have wrote₂ := ends_writeFile timer
  have wrote₃ := (ends_replaceFile script).1
  obtain ⟨files, -, -, loaded⟩ := ends_startUnit_loaded started
  refine ⟨⟨fun file member => ?_, fun file member => ?_, fun name member => ?_,
    fun name member => ?_⟩, ?_, ?_⟩
  · simp only [Service.contents, List.mem_cons, List.not_mem_nil, or_false] at member
    rcases member with rfl | rfl | rfl
    · refine ⟨_, rfl, ?_⟩
      rw [files, wrote₃.files, Function.update_of_ne (by decide), wrote₂.files,
        Function.update_of_ne (by decide), wrote₁.files, Function.update_self]
    · refine ⟨_, rfl, ?_⟩
      rw [files, wrote₃.files, Function.update_of_ne (by decide), wrote₂.files,
        Function.update_self]
    · exact ⟨_, rfl, by rw [files, wrote₃.files, Function.update_self]⟩
  · cases member
  · cases member
  · cases member
  · intro file _ _
    rw [loaded, files]
  · intro unit member
    cases member

/-- What a read returns is in the file. -/
theorem ends_readFile {name text : String}
    (ended : Ends (world env) (request (.readFile name)) s text t) :
    Calm env s t ∧ s.files name = some text := by
  obtain ⟨s', ⟨rfl, read⟩, calm⟩ := ends_request ended
  refine ⟨calm, ?_⟩
  cases found : s'.files name with
  | none => simp [found] at read
  | some data =>
    rw [found] at read
    cases read
    rfl

/-- A value of `/etc/os-release`. -/
theorem ends_osRelease {key value message : String}
    (ended : Ends (world env) (do
      let text ← request (.readFile SerfProg.osReleasePath)
      .ended ((SerfProg.osRelease key text).elim (.error (.failed message)) .ok)) s value t) :
    Calm env s t ∧ ∃ text, s.files SerfProg.osReleasePath = some text ∧
      SerfProg.osRelease key text = some value := by
  obtain ⟨text, s₁, read, rest⟩ := ends_bind.mp ended
  obtain ⟨calm, there⟩ := ends_readFile read
  obtain ⟨parsed, rfl⟩ := ends_ended.mp rest
  refine ⟨calm, text, there, ?_⟩
  cases found : SerfProg.osRelease key text with
  | none => simp [found] at parsed
  | some value' =>
    rw [found] at parsed
    cases parsed
    rfl

theorem ends_replaceSerfFiles {replaced : Bool} (ended : Ends (world env)
    (replaceSerfFiles o (req.servers.filter (· ≠ o.mylrn))) s replaced t) :
    ∃ d₁ d₂, SerfProg.generateService o = .ok d₁ ∧ serfConf o req s = .ok d₂ ∧
      WroteBoth env (serviceFile "serf") d₁ SerfProg.confFile d₂ replaced s t := by
  obtain ⟨r₁, s₁, one, rest⟩ := ends_bind.mp ended
  obtain ⟨name, s₂, named, rest⟩ := ends_bind.mp rest
  obtain ⟨version, s₃, versioned, rest⟩ := ends_bind.mp rest
  obtain ⟨serial, s₄, numbered, rest⟩ := ends_bind.mp rest
  obtain ⟨r₂, s₅, two, last⟩ := ends_bind.mp rest
  obtain ⟨rfl, rfl⟩ := ends_ret.mp last
  obtain ⟨d₁, made₁, wrote₁, calm₁⟩ := ends_installIn one
  obtain ⟨calm₂, text, release, nameIs⟩ := ends_osRelease named
  obtain ⟨calm₃, text', release', versionIs⟩ := ends_osRelease versioned
  obtain ⟨number, s₆, read, trimmed⟩ := ends_bind.mp numbered
  obtain ⟨rfl, rfl⟩ := ends_ret.mp trimmed
  obtain ⟨calm₄, serialIs⟩ := ends_readFile read
  obtain ⟨d₂, made₂, wrote₂, calm₅⟩ := ends_install two
  -- the step has changed neither of the files that it reads
  have before (file : String) (other : file ≠ serviceFile "serf") : s₁.files file = s.files file := by
    rw [wrote₁.files, Function.update_of_ne other]
  rw [calm₂.files, release] at release'
  cases release'
  rw [before _ (by decide)] at release
  rw [calm₃.files, calm₂.files, before _ (by decide)] at serialIs
  have conf : serfConf o req s = .ok d₂ := by
    rw [← made₂]
    simp only [serfConf, release, serialIs, nameIs, versionIs, Option.elim_some, bind, Except.bind,
      pure, Except.pure]
  have calm := calm₂.trans (calm₃.trans calm₄)
  have later : Wrote env SerfProg.confFile (some d₂) s₁ t :=
    ⟨calm.kept.trans wrote₂.toKept, by rw [wrote₂.files, calm.files]⟩
  exact ⟨d₁, d₂, made₁, conf, wroteBoth (by decide) wrote₁ (fun same => (calm₁ same).1) later
    fun same => calm.trans (calm₅ same).1⟩

theorem serf_upToDate {value : Unit} (sound : Sound o req .serf s)
    (ended : Ends (world env) (updateSerf o req) s value t) : UpToDate o req .serf t := by
  obtain ⟨need, s₁, image, rest⟩ := ends_bind.mp ended
  obtain ⟨replaced, s₂, files, rest⟩ := ends_bind.mp rest
  obtain ⟨recorded, calm₁, -⟩ := ends_updateImage image
  obtain ⟨d₁, d₂, made₁, made₂, wrote⟩ := ends_replaceSerfFiles files
  have contents : Service.serf.contents o req s₂ =
      [(serviceFile "serf", SerfProg.generateService o), (SerfProg.confFile, serfConf o req s₁)] := by
    rw [contents_congr (s := s₁) fun file member => ?_]
    · rfl
    · -- the step writes neither of the two files that the text depends on
      simp only [Service.otherFiles, List.mem_cons, List.not_mem_nil, or_false] at member
      rcases member with rfl | rfl
      · exact wrote.others _ (by decide) (by decide)
      · exact wrote.others _ (by decide) (by decide)
  have installed : Installed o req .serf s₂ :=
    installed_of_both contents rfl rfl rfl recorded made₁ made₂ wrote
  split at rest
  next unneeded =>
    obtain ⟨rfl, rfl⟩ := ends_ret.mp rest
    obtain ⟨none₁, none₂⟩ : need = false ∧ replaced = false := by
      simpa using unneeded
    exact sound.upToDate ((calm₁ none₁).trans (wrote.unchanged none₂)) installed
  · obtain ⟨s₃, s₄, before, restarted, after⟩ := ends_asLeader rest
    have now := upToDate_of_restarted (installed.calm before) (ends_restartService restarted) rfl
    exact now.calm after

theorem stateSetter_upToDate {value : Unit}
    (ended : Ends (world env) updateSabakanStateSetter s value t) :
    UpToDate o req .stateSetter t := by
  -- only the absence of the old timer is asked for
  suffices gone : t.files (timerFile "sabakan-state-setter") = none by
    refine ⟨⟨fun file member => ?_, fun file member => ?_, fun name member => ?_,
      fun name member => ?_⟩, fun file member => ?_, fun unit member => ?_⟩
    · cases member
    · rw [List.mem_singleton.mp member]
      exact gone
    all_goals cases member
  obtain ⟨r, s', s'', answered, calm, rest⟩ := ends_call.mp ended
  cases r with
  | error err =>
    cases err with
    | notExist =>
      rcases answered with ⟨rfl, missing⟩ | ⟨-, -, ⟨message, wrong⟩, -⟩
      · rw [(ends_restartService rest).files, calm.files]
        cases found : s'.files (timerFile "sabakan-state-setter") with
        | none => rfl
        | some data => simp [found] at missing
      · cases wrong
    | notFound => exact (not_ends_fail rest).elim
    | failed message => exact (not_ends_fail rest).elim
  | ok _ =>
    obtain ⟨_, s₁, stopped, rest⟩ := ends_bind.mp rest
    obtain ⟨_, s₂, disabled, rest⟩ := ends_bind.mp rest
    obtain ⟨_, s₃, removed, restarted⟩ := ends_bind.mp rest
    obtain ⟨s₄, served, after⟩ := ends_request removed
    rw [(ends_restartService restarted).files, after.files]
    simp only [Host.serves] at served
    split at served
    · cases served.1
    · simp [served.2, Host.setFile]

theorem ends_etcdSetup {conf : String} {value : Unit}
    (ended : Ends (world env) (etcdSetup o conf) s value t) : t.tags = s.tags := by
  obtain ⟨_, s₁, written, rest⟩ := ends_bind.mp ended
  obtain ⟨_, s₂, folder, rest⟩ := ends_bind.mp rest
  obtain ⟨_, s₃, owned, rest⟩ := ends_bind.mp rest
  obtain ⟨_, s₄, opened, rest⟩ := ends_bind.mp rest
  obtain ⟨_, s₅, generated, rest⟩ := ends_bind.mp rest
  obtain ⟨_, s₆, filled, rest⟩ := ends_bind.mp rest
  obtain ⟨_, s₇, synced, rest⟩ := ends_bind.mp rest
  obtain ⟨_, s₈, started, waited⟩ := ends_bind.mp rest
  obtain ⟨_, rfl⟩ := ends_ended.mp generated
  obtain ⟨_, ⟨-, rfl⟩, calm₄⟩ := ends_request opened
  obtain ⟨_, ⟨-, rfl⟩, calm₆⟩ := ends_request filled
  rw [(ends_request_calm waited id).tags, (ends_startUnit_loaded started).2.1,
    (ends_request_calm synced fun served => served.2).tags, calm₆.tags]
  exact calm₄.tags.trans ((ends_request_calm owned fun served => served.2).tags.trans
    ((ends_request_calm folder fun served => served.2).tags.trans (ends_overwrite written).tags))

theorem etcd_installed {value : Unit} (ended : Ends (world env) (updateEtcd o req) s value t) :
    Installed o req .etcd t := by
  obtain ⟨_, s₁, image, rest⟩ := ends_bind.mp ended
  obtain ⟨⟨img, found, recorded⟩, -, -⟩ := ends_updateImage image
  obtain ⟨s₂, s₃, before, body, after⟩ := ends_asLeader rest
  refine Installed.calm ?_ after
  -- whether the member is new or not, the files are replaced from a server with the tag
  have replaces {s' : Host} (tags : s'.tags = s₁.tags) (ended : Ends (world env)
      (replaceEtcdFiles o req.servers >>= fun _ =>
        request (.writeFile "/etc/neco/config.yml" (EtcdProg.necoConfig o req.servers))) s' () s₃) :
      Installed o req .etcd s₃ := by
    obtain ⟨_, s₅, replaced, written⟩ := ends_bind.mp ended
    obtain ⟨_, s₆, service, rest⟩ := ends_bind.mp replaced
    obtain ⟨_, s₇, conf, last⟩ := ends_bind.mp rest
    obtain ⟨-, rfl⟩ := ends_ret.mp last
    obtain ⟨d₁, made₁, wrote₁, -⟩ := ends_install service
    obtain ⟨d₂, made₂, wrote₂, -⟩ := ends_install conf
    have wrote₃ := ends_writeFile written
    refine ⟨fun file member => ?_, fun file member => ?_, fun name member => ?_,
      fun name member => ?_⟩
    · simp only [Service.contents, List.mem_cons, List.not_mem_nil, or_false] at member
      rcases member with rfl | rfl | rfl
      · refine ⟨d₁, made₁, ?_⟩
        dsimp only
        rw [wrote₃.files, Function.update_of_ne (by decide), wrote₂.files,
          Function.update_of_ne (by decide), wrote₁.files, Function.update_self]
      · refine ⟨d₂, made₂, ?_⟩
        dsimp only
        rw [wrote₃.files, Function.update_of_ne (by decide), wrote₂.files, Function.update_self]
      · exact ⟨_, rfl, by rw [wrote₃.files, Function.update_self]⟩
    · cases member
    · cases member
      refine ⟨img, found, ?_⟩
      rw [wrote₃.tags, wrote₂.tags, wrote₁.tags, tags]
      exact recorded
    · cases member
  obtain ⟨members, s₄, listed, body⟩ := ends_bind.mp body
  have calm := before.trans (ends_request_calm listed id)
  dsimp only at body
  split at body
  · obtain ⟨_, s₅, slept, body⟩ := ends_bind.mp body
    obtain ⟨_, s₆, added, body⟩ := ends_bind.mp body
    obtain ⟨_, s₇, asked, setUp⟩ := ends_bind.mp added
    obtain ⟨_, s₈, done, synced⟩ := ends_bind.mp setUp
    refine replaces ?_ body
    rw [(ends_request_calm synced id).tags, ends_etcdSetup done, (ends_request_calm asked id).tags,
      (ends_request_calm slept id).tags, calm.tags]
  · exact replaces calm.tags body

/-- The first part of `UpdateEtcdpasswd`. -/
theorem ssh_upToDate {value : Unit} (ended : Ends (world env) (Etcdpasswd.installSshdConf >>=
    fun _ => Systemd.restartService "ssh") s value t) : UpToDate o req .ssh t := by
  obtain ⟨_, s₁, installed, restarted⟩ := ends_bind.mp ended
  obtain ⟨_, s₂, written, renamed⟩ := ends_bind.mp installed
  have wrote := ends_overwrite written
  obtain ⟨s₃, served, calm⟩ := ends_request renamed
  have there : s₂.files (Etcdpasswd.sshdConfFile ++ ".tmp") = some Etcdpasswd.sshdConf := by
    rw [wrote.files, Function.update_self]
  simp only [Host.serves, there] at served
  have inPlace : s₁.files Etcdpasswd.sshdConfFile = some Etcdpasswd.sshdConf := by
    rw [calm.files, served.2]
    simp [Host.setFile]
  refine upToDate_of_restarted ⟨fun file member => ?_, fun file member => ?_, fun name member => ?_,
    fun name member => ?_⟩ (ends_restartService restarted) rfl
  · rw [List.mem_singleton.mp member]
    exact ⟨_, rfl, inPlace⟩
  all_goals cases member

/-- A call that touches nothing leaves files and records as they are, even when it fails. -/
theorem ends_attempt_request {c : Call} {result : Except Error (Value c)}
    (nothing : c.touched = []) (ended : Ends (world env) (request c).attempt s result t) :
    t.files = s.files ∧ t.tags = s.tags ∧ t.debs = s.debs := by
  obtain ⟨r, s', s'', answered, calm, rest⟩ := ends_call.mp ended
  have same : t = s'' := by
    cases r with
    | error err => exact (ends_ret.mp rest).2
    | ok value => exact (ends_ret.mp rest).2
  have changes := answers_changes answered
  rw [nothing] at changes
  refine ⟨?_, ?_, ?_⟩
  · funext file
    rw [same, calm.files, changes.files file (by simp)]
  · funext name
    rw [same, calm.tags, changes.tags name (by simp)]
  · funext name
    rw [same, calm.debs, changes.debs name (by simp)]

theorem ends_download {url token data : String} {duration : Int} {attempts : Nat} {err : Error}
    (ended : Ends (world env)
      (retryWithSleep duration (request (.download url token)) attempts err) s data t) :
    t.files = s.files ∧ t.tags = s.tags ∧ t.debs = s.debs := by
  induction attempts generalizing s err with
  | zero => exact (not_ends_fail ended).elim
  | succ attempts ih =>
    obtain ⟨result, s₁, tried, rest⟩ := ends_bind.mp ended
    obtain ⟨files, tags, debs⟩ := ends_attempt_request rfl tried
    cases result with
    | ok data' =>
      obtain ⟨-, rfl⟩ := ends_ret.mp rest
      exact ⟨files, tags, debs⟩
    | error err' =>
      obtain ⟨_, s₂, slept, again⟩ := ends_bind.mp rest
      have calm := ends_request_calm slept id
      obtain ⟨files', tags', debs'⟩ := ih again
      exact ⟨files'.trans (calm.files.trans files), tags'.trans (calm.tags.trans tags),
        debs'.trans (calm.debs.trans debs)⟩

/-- Installing the package starts its service with the files that are there. -/
theorem ends_installDebianPackage {token : String} {pkg : DebianPackage} {value : Unit}
    (agent : env.packages.RestartsAgent) (named : pkg.name = "etcdpasswd")
    (ended : Ends (world env) (installDebianPackage token pkg) s value t) :
    t.files = s.files ∧ Current .etcdpasswd t := by
  obtain ⟨url, s₁, found, rest⟩ := ends_bind.mp ended
  obtain ⟨data, s₂, downloaded, installed⟩ := ends_bind.mp rest
  obtain ⟨releases, s₃, listed, rest⟩ := ends_bind.mp found
  have first := ends_request_calm listed id
  have same : s₁ = s₃ := by
    split at rest
    · exact (not_ends_fail rest).elim
    · split at rest
      · exact (not_ends_fail rest).elim
      · split at rest
        · exact (not_ends_fail rest).elim
        · exact (ends_ret.mp rest).2
  obtain ⟨files, -, -⟩ := ends_download downloaded
  rw [named] at installed
  obtain ⟨s₄, ⟨-, installs⟩, last⟩ := ends_request installed
  have kept : s₄.files = s₂.files := funext fun file =>
    (env.packages.changes installs).files file (by simp)
  obtain ⟨loaded, fresh⟩ := agent data s₂ s₄ installs
  refine ⟨?_, Current.calm ⟨fun file _ _ => congrFun loaded file, ?_⟩ last⟩
  · rw [last.files, kept, files, same, first.files]
  · intro unit member running active file _
    rw [List.mem_singleton.mp member] at active
    rw [fresh running active]

theorem name_of_found {name : String} {deb : DebianPackage}
    (found : o.findDebianPackage name = .ok deb) : deb.name = name := by
  rw [Operator.findDebianPackage] at found
  split at found
  next searched =>
    cases found
    simpa using List.find?_some searched
  next => cases found

/-- The rest of `UpdateEtcdpasswd`. -/
theorem agent_upToDate {value : Unit} (agent : env.packages.RestartsAgent)
    (sound : Sound o req .etcdpasswd s)
    (ended : Ends (world env) (updateAgent o req) s value t) : UpToDate o req .etcdpasswd t := by
  obtain ⟨replaced, s₁, files, rest⟩ := ends_bind.mp ended
  obtain ⟨need, s₂, asked, rest⟩ := ends_bind.mp rest
  obtain ⟨d₁, d₂, made₁, made₂, wrote⟩ := ends_installBoth (by decide) files
  obtain ⟨calm, otherwise⟩ := ends_needDebUpdate asked
  -- the files are there from now on; the record comes from the storage or is made
  have installed {s' : Host} (same : s'.files = s₂.files)
      (recorded : ∃ deb, o.findDebianPackage "etcdpasswd" = .ok deb ∧
        s'.debs "etcdpasswd" = some deb.release) : Installed o req .etcdpasswd s' := by
    refine ⟨fun file member => ?_, fun file member => ?_, fun name member => ?_,
      fun name member => ?_⟩
    · simp only [Service.contents, List.mem_cons, List.not_mem_nil, or_false] at member
      rcases member with rfl | rfl
      · exact ⟨d₁, made₁, by rw [same, calm.files]; exact wrote.first⟩
      · exact ⟨d₂, made₂, by rw [same, calm.files]; exact wrote.second⟩
    · cases member
    · cases member
    · cases member
      exact recorded
  cases need with
  | false =>
    have recorded : ∃ deb, o.findDebianPackage "etcdpasswd" = .ok deb ∧
        s₂.debs "etcdpasswd" = some deb.release := by
      rw [calm.debs]
      exact otherwise rfl
    cases replaced with
    | true => exact upToDate_of_restarted (installed rfl recorded) (ends_restartService rest) rfl
    | false =>
      obtain ⟨-, rfl⟩ := ends_ret.mp rest
      exact sound.upToDate ((wrote.unchanged rfl).trans calm) (installed rfl recorded)
  | true =>
    obtain ⟨deb, s₃, searched, rest⟩ := ends_bind.mp rest
    obtain ⟨_, s₄, token, rest⟩ := ends_bind.mp rest
    obtain ⟨_, s₅, package, rest⟩ := ends_bind.mp rest
    obtain ⟨_, s₆, recorded, last⟩ := ends_bind.mp rest
    obtain ⟨here, rfl⟩ := ends_ended.mp searched
    have before := ends_request_calm token id
    obtain ⟨same, current⟩ := ends_installDebianPackage agent (name_of_found here) package
    obtain ⟨deb', s₇, searched, put⟩ := ends_bind.mp recorded
    obtain ⟨found, rfl⟩ := ends_ended.mp searched
    obtain ⟨_, ⟨-, rfl⟩, after⟩ := ends_request put
    have unneeded : t = s₆ := by
      rw [Bool.not_true, Bool.and_false] at last
      exact (ends_ret.mp last).2
    subst unneeded
    refine ⟨installed ?_ ⟨deb', found, ?_⟩, ?_⟩
    · rw [after.files]
      exact same.trans before.files
    · simp [after.debs, Host.setDeb]
    · -- the record changes nothing of what the service runs with
      have still : Current .etcdpasswd (s₇.setDeb "etcdpasswd" deb'.release) :=
        ⟨current.loaded, current.fresh⟩
      exact still.calm after

/-! ### The stop of Vault and the restart of etcd -/

/-- The next stop of Vault finds what it needs. -/
def Stoppable (s : Host) : Prop :=
  s.running "vault.service" = none ∨ (s.files (serviceFile "vault")).isSome

/-- Steps that have nothing to do with Vault leave its service file where it is. -/
theorem vaultFile_frame {p q : Prog Unit} {vs : List Service}
    (reached : Reaches (world env) p s q t) (uses : p.Uses (Within vs)) (other : .vault ∉ vs)
    (there : (s.files (serviceFile "vault")).isSome = true) :
    (t.files (serviceFile "vault")).isSome = true := by
  refine reached.keeps (P := fun s => (s.files (serviceFile "vault")).isSome = true) ?_ ?_ uses there
  · intro s t holds calm
    rwa [calm.files]
  · intro c s r t within holds answered
    rwa [(answers_changes answered).files _ (apart_of_within within other _ (by decide))]

/-- They do not start Vault, if no other unit does. -/
theorem vaultDown_frame {p q : Prog Unit} {vs : List Service} (alone : ¬env.pulled "vault.service")
    (reached : Reaches (world env) p s q t) (uses : p.Uses (Within vs)) (other : .vault ∉ vs)
    (down : s.running "vault.service" = none) : t.running "vault.service" = none := by
  refine reached.keeps (P := fun s => s.running "vault.service" = none) ?_ ?_ uses down
  · exact fun s t holds calm => calm.kept.stopped _ alone holds
  · intro c s r t within holds answered
    rwa [(answers_changes answered).running _ (apart_of_within within other _ (by decide))]

/-- Vault is down after its stop, unless the look at its unit file has failed or another unit has
started it. -/
theorem vault_stopped {value : Unit} (looks : ¬env.faulty (.stat (serviceFile "vault")))
    (alone : ¬env.pulled "vault.service") (stoppable : Stoppable s)
    (ended : Ends (world env) stopVault s value t) : t.running "vault.service" = none := by
  obtain ⟨r, s', s'', answered, calm, rest⟩ := ends_call.mp ended
  rcases answered with ⟨rfl, looked⟩ | ⟨wrong, -⟩
  · cases r with
    | error err =>
      obtain ⟨-, rfl⟩ := ends_ret.mp rest
      refine calm.kept.stopped _ alone (stoppable.resolve_right fun there => ?_)
      rw [if_pos there] at looked
      cases looked
    | ok _ =>
      obtain ⟨u, -, last⟩ := ends_stopService rest
      refine last.kept.stopped _ alone ?_
      simp [Host.setRunning]
  · exact (looks wrong).elim

/-- The call stops and starts nothing. -/
def LeavesUnits (c : Restart.Call) : Prop :=
  (∀ name, c ≠ .stopService name) ∧ ∀ name, c ≠ .startService name

theorem uses_restartCall {c : Restart.Call} (leaves : LeavesUnits c) :
    (restartCall c).Uses (Within []) := by
  have asks (c : Call) (nothing : c.touched = []) : (request c).attempt.Uses (Within []) :=
    uses_attempt (uses_request (within_of_nil nothing))
  cases c with
  | stopService name => exact (leaves.1 name rfl).elim
  | startService name => exact (leaves.2 name rfl).elim
  | sleep duration => exact (asks _ rfl).bind fun _ => trivial
  | waitEtcdForVault => exact (asks _ rfl).bind fun _ => trivial
  | get key => exact (asks _ rfl).bind fun _ => trivial
  | waitEtcdSync revision => exact (asks _ rfl).bind fun _ => trivial
  | memberList => exact (asks _ rfl).bind fun _ => trivial
  | memberRemove id => exact (asks _ rfl).bind fun _ => trivial

theorem uses_removeAll (members : List Restart.Member) :
    (Restart.removeAll members).Uses LeavesUnits := by
  induction members with
  | nil => trivial
  | cons member rest ih =>
    refine ⟨by simp [LeavesUnits], fun r => ?_⟩
    cases r with
    | error err => trivial
    | ok _ => exact ih

/-- What `RestartEtcd` does after it has started etcd. -/
def afterRestart (index : Nat) (req : UpdateRequest) : Restart.Prog :=
  .call .waitEtcdForVault fun
  | .error err => .fail err
  | .ok () => .call (.get "/") fun
    | .error err => .fail err
    | .ok revision => .call (.waitEtcdSync revision) fun
      | .error err => .fail err
      | .ok () =>
        if index ≠ 0 then .ret ()
        else .call (.sleep (6 * 1000000000)) fun _ => Restart.removeEtcdMembers req

/-- It stops and starts nothing. -/
theorem uses_afterRestart (index : Nat) :
    (afterRestart index req).Uses LeavesUnits := by
  refine ⟨by simp [LeavesUnits], fun r => ?_⟩
  cases r with
  | error err => trivial
  | ok _ =>
    refine ⟨by simp [LeavesUnits], fun r => ?_⟩
    cases r with
    | error err => trivial
    | ok revision =>
      refine ⟨by simp [LeavesUnits], fun r => ?_⟩
      cases r with
      | error err => trivial
      | ok _ =>
        dsimp only
        split
        · trivial
        · refine ⟨by simp [LeavesUnits], fun _ => ?_⟩
          refine ⟨by simp [LeavesUnits], fun r => ?_⟩
          cases r with
          | error err => trivial
          | ok members => exact uses_removeAll _

theorem uses_restartEtcd (index : Nat) : (restartEtcd req index).Uses (Within [.etcd]) := by
  have everything : (Restart.restartEtcd index req).Uses fun c => ∀ name,
      (c = .stopService name → name = "etcd-container") ∧
        (c = .startService name → name = "etcd-container") := by
    refine ⟨fun name => by simp, fun _ => ⟨fun name => by simp [Restart.etcdService, eq_comm], fun r => ?_⟩⟩
    cases r with
    | error err => trivial
    | ok _ =>
      refine ⟨fun name => by simp [Restart.etcdService, eq_comm], fun r => ?_⟩
      cases r with
      | error err => trivial
      | ok _ =>
        exact (uses_afterRestart index).mono fun c others name =>
          ⟨fun same => (others.1 name same).elim, fun same => (others.2 name same).elim⟩
  refine everything.interpret fun c named => ?_
  by_cases stops : ∃ name, c = .stopService name
  · obtain ⟨name, rfl⟩ := stops
    rw [(named name).1 rfl]
    exact (uses_attempt (uses_stopService ⟨.etcd, by decide, by decide⟩)).bind fun _ => trivial
  by_cases starts : ∃ name, c = .startService name
  · obtain ⟨name, rfl⟩ := starts
    rw [(named name).2 rfl]
    exact (uses_attempt (uses_startUnit ⟨.etcd, by decide, by decide⟩)).bind fun _ => trivial
  have leaves : LeavesUnits c :=
    ⟨fun name same => stops ⟨name, same⟩, fun name same => starts ⟨name, same⟩⟩
  exact (uses_restartCall leaves).mono fun c within => within.mono (by simp)

/-- A service that is started by a call runs with the files that are there. -/
theorem Current.started {unit : String} (current : Current v s) (started : s.Started unit t) :
    Current v t := by
  have running (x : Option (String → Option String)) (launched : ∀ files, x = some files →
      files = s.launch) : Current v (s.setRunning unit x) := by
    refine ⟨current.loaded, fun unit' member files active file inside => ?_⟩
    by_cases same : unit' = unit
    · subst same
      have here : x = some files := by simpa [Host.setRunning] using active
      rw [launched files here]
      exact current.loaded.launch inside
    · have other : s.running unit' = some files := by
        simpa [Host.setRunning, Function.update_of_ne same] using active
      exact current.fresh unit' member files other file inside
  rcases started with rfl | rfl
  · exact running _ fun files same => by cases same; rfl
  · exact running none fun files same => by cases same

theorem Current.ends_startUnit {name unit : String} {value : Unit} (current : Current v s)
    (ended : Ends (world env) (Systemd.startUnit name unit) s value t) : Current v t := by
  obtain ⟨_, s₁, reloaded, ended⟩ := ends_bind.mp ended
  obtain ⟨_, s₂, enabled, started⟩ := ends_bind.mp ended
  obtain ⟨_, ⟨-, rfl⟩, first⟩ := ends_request reloaded
  obtain ⟨_, ⟨-, rfl⟩, second⟩ := ends_request enabled
  obtain ⟨s₃, ⟨-, launched⟩, last⟩ := ends_request started
  have loaded : Current v s.reload := ⟨fun _ _ _ => rfl, current.fresh⟩
  have before : Current v s₁ := loaded.calm first
  have after : Current v (s₁.setEnabled (name ++ "." ++ unit) true) := ⟨before.loaded, before.fresh⟩
  have now : Current v s₂ := after.calm second
  refine Current.calm ?_ last
  split at launched
  · exact launched ▸ now
  · exact now.started launched

/-- After the restart etcd runs with the files that the update has installed. -/
theorem etcd_upToDate {index : Nat} {value : Unit} (installed : Installed o req .etcd s)
    (loaded : Loaded .etcd s)
    (ended : Ends (world env) (restartEtcd req index) s value t) : UpToDate o req .etcd t := by
  have same : restartEtcd req index = (do
      let _ ← restartCall (.sleep (Restart.restartDelay index))
      match ← restartCall (.stopService "etcd-container") with
      | .error err => .fail (.failed err)
      | .ok () => match ← restartCall (.startService "etcd-container") with
        | .error err => .fail (.failed err)
        | .ok () => (afterRestart index req).interpret restartCall .failed) := by
    refine congrArg _ (funext fun _ => congrArg _ (funext fun r => ?_))
    cases r with
    | error err => rfl
    | ok _ =>
      refine congrArg _ (funext fun r => ?_)
      cases r with
      | error err => rfl
      | ok _ => rfl
  rw [same] at ended
  obtain ⟨_, s₁, slept, rest⟩ := ends_bind.mp ended
  have quiet : (restartCall (.sleep (Restart.restartDelay index))).Uses (Within []) :=
    uses_restartCall (by simp [LeavesUnits])
  have first : Installed o req .etcd s₁ := installed.frame slept quiet (by simp)
  have ready : Loaded .etcd s₁ := loaded.frame slept quiet (by simp)
  obtain ⟨r, s₂, stopped, rest⟩ := ends_bind.mp rest
  obtain ⟨result, s₃, attempted, mapped⟩ := ends_bind.mp stopped
  obtain ⟨rfl, rfl⟩ := ends_ret.mp mapped
  cases result with
  | error err => exact (not_ends_fail rest).elim
  | ok _ =>
    -- whoever starts it from now on starts it with the files that are there
    obtain ⟨u, before, after⟩ := ends_stopService (ends_attempt_ok.mp attempted)
    have down : Current .etcd (u.setRunning "etcd-container.service" none) := by
      have still : Loaded .etcd u := ready.calm before
      refine ⟨still, fun unit member files active => ?_⟩
      rw [List.mem_singleton.mp member] at active
      simp [Host.setRunning] at active
    have second : Installed o req .etcd s₂ := by
      refine (first.calm before).congr (fun file _ => congrFun after.files file)
        (fun name _ => congrFun after.tags name) fun name member => by cases member
    obtain ⟨r, s₄, started, rest⟩ := ends_bind.mp rest
    obtain ⟨result, s₅, attempted, mapped⟩ := ends_bind.mp started
    obtain ⟨rfl, rfl⟩ := ends_ret.mp mapped
    cases result with
    | error err => exact (not_ends_fail rest).elim
    | ok _ =>
      have started := ends_attempt_ok.mp attempted
      obtain ⟨files, tags, -, -⟩ := ends_startUnit_loaded started
      have third : Installed o req .etcd s₄ :=
        second.congr (fun file _ => congrFun files file) (fun name _ => congrFun tags name)
          fun name member => by cases member
      have now : UpToDate o req .etcd s₄ := ⟨third, (down.calm after).ends_startUnit started⟩
      have quiet : ((afterRestart index req).interpret restartCall Error.failed).Uses (Within []) :=
        (uses_afterRestart index).interpret fun c leaves => uses_restartCall leaves
      exact now.frame rest quiet (by simp)

/-! ### Whole updates -/

/-- The last step that takes care of a service. -/
def Service.step : Service → Nat
  | .etcd => 2
  | .vault => 4
  | .setupHW => 5
  | .serf => 6
  | .setupSerfTags => 7
  | .ssh => 8
  | .sudoers => 8
  | .etcdpasswd => 8
  | .sabakan => 9
  | .stateSetter => 10
  | .cke => 12
  | .promtail => 16

/-- The services that are restarted only when their step finds something new. -/
def guarded : List Service := [.setupHW, .serf, .etcdpasswd, .promtail]

theorem services_of_lt {step : Nat} (beyond : 16 < step) : services step = [] := by
  obtain ⟨k, rfl⟩ : ∃ k, step = k + 17 := ⟨step - 17, by omega⟩
  rfl

/-- No step after its last one touches a service. -/
theorem le_step_of_mem {step : Nat} (member : v ∈ services step) : step ≤ v.step := by
  have all : ∀ step ≤ 16, ∀ v ∈ services step, step ≤ v.step := by decide
  by_cases small : step ≤ 16
  · exact all step small v member
  · rw [services_of_lt (by omega)] at member
    cases member

/-- One step only takes care of a service that is restarted when something is new. -/
theorem eq_step_of_mem {step : Nat} (only : v ∈ guarded) (member : v ∈ services step) :
    step = v.step := by
  have all : ∀ step ≤ 16, ∀ v ∈ services step, v ∈ guarded → step = v.step := by decide
  by_cases small : step ≤ 16
  · exact all step small v member only
  · rw [services_of_lt (by omega)] at member
    cases member

section Update

/-- What the restart of Vault by the steps 3 and 4 needs. -/
structure VaultRestarts (env : Nat → Env) (s : Host) : Prop where
  /-- Step 3 takes a failure to look for the service file for its absence. -/
  looks : ¬(env 2).faulty (.stat (serviceFile "vault"))
  /-- Without the service file step 3 does nothing, so Vault has to be down then. -/
  missing : (s.files (serviceFile "vault")).isSome = true ∨
    s.running "vault.service" = none ∧ ∀ k < 2, ¬(env k).pulled "vault.service"
  /-- No unit that asks for Vault, such as `cke.service`, is started during the two steps. -/
  alone : ∀ k, 2 ≤ k → k < 4 → ¬(env k).pulled "vault.service"

variable {env : Nat → Env} {hosts : Nat → Host}
  (ran : ∀ k < 18, Ends (world (env k)) (runStep o req (k + 1)) (hosts k) () (hosts (k + 1)))

include ran

/-- What the steps between two moments keep holds at the second if it holds at the first. -/
theorem kept_between {P : Host → Prop} {j k : Nat} (le : j ≤ k) (bound : k ≤ 18)
    (keeps : ∀ i, j ≤ i → i < k → Reaches (world (env i)) (runStep o req (i + 1)) (hosts i) (.ret ())
      (hosts (i + 1)) → P (hosts i) → P (hosts (i + 1))) (now : P (hosts j)) : P (hosts k) := by
  induction k, le using Nat.le_induction with
  | base => exact now
  | succ k le ih =>
    have before := ih (by omega) fun i from_j below => keeps i from_j (by omega)
    exact keeps k le (by omega) (ran k (by omega)) before

theorem sound_at_step (only : v ∈ guarded) (sound : Sound o req v (hosts 0)) {k : Nat}
    (before : k < v.step) (bound : k ≤ 18) : Sound o req v (hosts k) := by
  refine kept_between ran (Nat.zero_le k) bound (fun i _ below reached holds => ?_) sound
  refine holds.frame reached (uses_runStep (i + 1)) fun member => ?_
  have := eq_step_of_mem only member
  omega

theorem stoppable_at_stop (restarts : VaultRestarts env (hosts 0)) : Stoppable (hosts 2) := by
  -- the first two steps have nothing to do with Vault
  have none : ∀ i < 2, Service.vault ∉ services (i + 1) := by decide
  rcases restarts.missing with there | ⟨down, alone⟩
  · refine .inr (kept_between (P := fun s => (s.files (serviceFile "vault")).isSome = true) ran
      (Nat.zero_le 2) (by omega) (fun i _ below reached holds => ?_) there)
    exact vaultFile_frame reached (uses_runStep (i + 1)) (none i below) holds
  · refine .inl (kept_between (P := fun s => s.running "vault.service" = Option.none) ran
      (Nat.zero_le 2) (by omega) (fun i _ below reached holds => ?_) down)
    exact vaultDown_frame (alone i below) reached (uses_runStep (i + 1)) (none i below) holds

/-- Each service but etcd is up to date when its last step has ended. -/
theorem upToDate_at_step (sound : ∀ v ∈ guarded, Sound o req v (hosts 0))
    (agent : (env 7).packages.RestartsAgent) (restarts : VaultRestarts env (hosts 0))
    (other : v ≠ .etcd) : UpToDate o req v (hosts v.step) := by
  cases v with
  | etcd => exact (other rfl).elim
  | vault =>
    have stopped := vault_stopped restarts.looks (restarts.alone 2 (by omega) (by omega))
      (stoppable_at_stop ran restarts) (ran 2 (by omega))
    exact vault_upToDate (restarts.alone 3 (by omega) (by omega)) stopped (ran 3 (by omega))
  | setupHW =>
    exact setupHW_upToDate (sound_at_step ran (by decide) (sound _ (by decide)) (by decide)
      (by omega)) (ran 4 (by omega))
  | serf =>
    exact serf_upToDate (sound_at_step ran (by decide) (sound _ (by decide)) (by decide)
      (by omega)) (ran 5 (by omega))
  | setupSerfTags => exact setupSerfTags_upToDate (ran 6 (by omega))
  | ssh =>
    have ended := ran 7 (by omega)
    simp only [runStep, updateEtcdpasswd_eq] at ended
    obtain ⟨_, s₁, ssh, rest⟩ := ends_bind.mp ended
    obtain ⟨_, s₂, sudoers, agent⟩ := ends_bind.mp rest
    have first : UpToDate o req .ssh s₂ :=
      (ssh_upToDate ssh).frame sudoers uses_installSudoers (by decide)
    exact first.frame agent uses_updateAgent (by decide)
  | sudoers =>
    refine ⟨⟨fun file member => ?_, fun file member => ?_, fun name member => ?_,
      fun name member => ?_⟩, fun file member => ?_, fun unit member => ?_⟩
    all_goals cases member
  | etcdpasswd =>
    have ended := ran 7 (by omega)
    simp only [runStep, updateEtcdpasswd_eq] at ended
    obtain ⟨_, s₁, ssh, rest⟩ := ends_bind.mp ended
    obtain ⟨_, s₂, sudoers, rest⟩ := ends_bind.mp rest
    have before := sound_at_step ran (by decide) (sound .etcdpasswd (by decide))
      (by decide : 7 < Service.etcdpasswd.step) (by omega)
    have first := before.frame ssh uses_updateSshd (by decide)
    exact agent_upToDate agent (first.frame sudoers uses_installSudoers (by decide)) rest
  | sabakan => exact sabakan_upToDate (ran 8 (by omega))
  | stateSetter => exact stateSetter_upToDate (ran 9 (by omega))
  | cke => exact cke_upToDate (ran 11 (by omega))
  | promtail =>
    exact promtail_upToDate (sound_at_step ran (by decide) (sound _ (by decide)) (by decide)
      (by omega)) (ran 15 (by omega))

/-- When all steps have returned without an error and etcd has been restarted, every service is
installed as the artifacts and the request ask for, and runs as it is installed. -/
theorem update_deploys (sound : ∀ v ∈ guarded, Sound o req v (hosts 0))
    (agent : (env 7).packages.RestartsAgent) (restarts : VaultRestarts env (hosts 0))
    {index : Nat} {last : Host}
    (restarted : Ends (world (env 18)) (restartEtcd req index) (hosts 18) () last) (v : Service) :
    UpToDate o req v last := by
  have small : v.step ≤ 18 := by
    cases v <;> decide
  have apart (i : Nat) (after : v.step ≤ i) : v ∉ services (i + 1) := by
    intro member
    have := le_step_of_mem member
    omega
  by_cases other : v = .etcd
  · subst other
    -- its files are installed by the second step, and are used from the restart on
    have installed : Installed o req .etcd (hosts 18) := by
      refine kept_between ran small le_rfl (fun i after _ reached holds => ?_)
        (etcd_installed (ran 1 (by omega)))
      exact holds.frame reached (uses_runStep (i + 1)) (apart i after)
    have loaded : Loaded .etcd (hosts 18) := by
      refine kept_between ran (by decide : 4 ≤ 18) le_rfl (fun i after _ reached holds => ?_)
        fun file _ _ => congrFun (vault_loads (ran 3 (by omega))) file
      exact holds.frame reached (uses_runStep (i + 1)) (apart i ((by decide : 2 ≤ 4).trans after))
    exact etcd_upToDate installed loaded restarted
  · have now : UpToDate o req v (hosts 18) := by
      refine kept_between ran small le_rfl (fun i after _ reached holds => ?_)
        (upToDate_at_step ran sound agent restarts other)
      exact holds.frame reached (uses_runStep (i + 1)) (apart i after)
    exact now.frame restarted (uses_restartEtcd index) (by simpa using other)

end Update

/-! ### A server that is set up -/

/-- A server on which nothing fails and no condition keeps a unit from running. -/
def respond : (c : Call) → Host → Reply c × Host
  | .readFile name, s => ((s.files name).elim (.error .notExist) .ok, s)
  | .stat name, s => (if (s.files name).isSome then .ok () else .error .notExist, s)
  | .openFile name, s => (.ok (), s.setFile name (some ""))
  | .write name data, s => (.ok (), s.setFile name (some ((s.files name).getD "" ++ data)))
  | .writeFile name data, s => (.ok (), s.setFile name (some data))
  | .rename old new, s => match s.files old with
    | none => (.error .notExist, s)
    | some data => (.ok (), (s.setFile old none).setFile new (some data))
  | .remove name, s => match s.files name with
    | none => (.error .notExist, s)
    | some _ => (.ok (), s.setFile name none)
  | .daemonReload, s => (.ok (), s.reload)
  | .enable unit, s => (.ok (), s.setEnabled unit true)
  | .disable unit, s => (.ok (), s.setEnabled unit false)
  | .start unit, s =>
    (.ok (), if (s.running unit).isSome then s else s.setRunning unit (some s.launch))
  | .restart unit, s => (.ok (), s.setRunning unit (some s.launch))
  | .stop unit, s => (.ok (), s.setRunning unit none)
  | .activeState _, s => (.ok "active", s)
  | .isActive _, s => (.ok (false, "inactive"), s)
  | .getContainerTag name, s => ((s.tags name).elim (.error .notFound) .ok, s)
  | .putContainerTag name tag, s => (.ok (), s.setTag name tag)
  | .getDebVersion name, s => ((s.debs name).elim (.error .notFound) .ok, s)
  | .putDebVersion name release, s => (.ok (), s.setDeb name release)
  | .getProxyConfig, s => (.ok "", s)
  | .getGitHubToken, s => (.ok "", s)
  | .listImages, s => (.ok [], s)
  | .pull image, s => (.ok (), s.setImage image)
  | .completion, s => (.ok "", s)
  | .listReleases _ _, s => (.ok [⟨some "v1.4.9", [⟨some "etcdpasswd_1.4.9_amd64.deb", some "url"⟩]⟩], s)
  | .download _ _, s => (.ok "", s)
  | .dpkg _ _, s => (.ok (), s.reload.setRunning "ep-agent.service" (some s.reload.launch))
  | .memberList, s => (.ok [⟨1, "boot-0", [peerURL 0]⟩], s)
  | .memberAdd _, s => (.ok ([], 0), s)
  | .get _, s => (.ok 0, s)
  | .shared c, s => (.ok (match c with
    | .isActiveService _ => .ok true
    | .stat _ => .ok true
    | .newSession => .ok ()
    | .putLeaderKey => .ok ()
    | .waitDeletes => .ok ()
    | .getContentsUpdateStatus _ => .error .notFound
    | .upload _ => .ok ()
    | .putContentsUpdateStatus _ _ => .ok ()
    | .resign => ()
    | .closeSession => ()), s)
  | .sync _, s => (.ok (), s)
  | .mkdirAll _, s => (.ok (), s)
  | .chown _, s => (.ok (), s)
  | .run _ _, s => (.ok (), s)
  | .sleep _, s => (.ok (), s)
  | .waitSabakan, s => (.ok (), s)
  | .memberRemove _, s => (.ok (), s)
  | .waitEtcdForVault, s => (.ok (), s)
  | .waitEtcdSync _, s => (.ok (), s)

/-- The package of `etcdpasswd` lets systemd read its files and starts its service. -/
def somePackages : Packages where
  installs _ _ s t := s.reload.Started "ep-agent.service" t
  changes := by
    rintro _ _ s t started
    have changed := started.changes
    exact ⟨changed.files, changed.running, changed.enabled, changed.tags, changed.debs,
      changed.images, changed.loaded.elim .inr .inr⟩

theorem somePackages_restartsAgent : somePackages.RestartsAgent := by
  rintro data s t (rfl | rfl)
  · refine ⟨rfl, fun files active => ?_⟩
    have same : s.reload.launch = files := by simpa [Host.setRunning] using active
    rw [← same]
    exact launch_of_loaded rfl
  · exact ⟨rfl, fun files active => by simp [Host.setRunning] at active⟩

/-- No call fails, but services crash, and all but Vault are started by others. -/
def someEnv : Env := ⟨somePackages, fun _ => False, fun _ => True, (· ≠ "vault.service")⟩

theorem serves_respond (c : Call) (s : Host) :
    s.serves somePackages c (respond c s).1 (respond c s).2 := by
  cases c with
  | rename old new =>
    simp only [Host.serves, respond]
    cases s.files old with
    | none => exact ⟨rfl, rfl⟩
    | some data => exact ⟨rfl, rfl⟩
  | remove name =>
    simp only [Host.serves, respond]
    cases s.files name with
    | none => exact ⟨rfl, rfl⟩
    | some data => exact ⟨rfl, rfl⟩
  | start unit =>
    refine ⟨rfl, ?_⟩
    dsimp only [respond]
    split
    · rfl
    · exact .inl rfl
  | restart unit => exact ⟨rfl, .inl rfl⟩
  | dpkg package data => exact ⟨rfl, .inl rfl⟩
  | listImages => exact ⟨rfl, [], rfl, fun image member => by cases member⟩
  | _ => first | exact ⟨rfl, rfl⟩ | exact rfl

/-- The artifacts of this release; templates are told by their names. -/
def someOperator : Operator where
  mylrn := 0
  images := [⟨"etcd", "ghcr.io/cybozu/etcd", "3.5.15.1", false⟩,
    ⟨"promtail", "ghcr.io/cybozu/promtail", "3.2.1.2", false⟩,
    ⟨"sabakan", "ghcr.io/cybozu-go/sabakan", "3.1.4", false⟩,
    ⟨"serf", "ghcr.io/cybozu/serf", "0.10.1.7", false⟩,
    ⟨"setup-hw", "ghcr.io/cybozu-go/setup-hw", "1.20.1", true⟩,
    ⟨"vault", "ghcr.io/cybozu/vault", "1.18.1.1", false⟩]
  debs := [⟨"etcdpasswd", "cybozu-go", "etcdpasswd", "v1.4.9"⟩]
  dcTest := false
  render document := document.template

def someRequest : UpdateRequest := ⟨"2024.12.01-1", [0], false, 0⟩

/-- A server on which nothing is installed. -/
def bareHost : Host where
  files name := if name = SerfProg.osReleasePath then some "NAME=Ubuntu\nVERSION_ID=22.04"
    else if name = SerfProg.serialPath then some "abc" else none
  loaded _ := none
  running _ := none
  enabled _ := false
  tags _ := none
  debs _ := none
  images _ := false

/-- The server after the first steps. -/
def bareHosts : Nat → Host
  | 0 => bareHost
  | k + 1 => ((runStep someOperator someRequest (k + 1)).runOn respond (bareHosts k)).2

theorem bareHosts_ran : ∀ k < 18, ((runStep someOperator someRequest (k + 1)).runOn respond
    (bareHosts k)).1 = .ok () := by
  decide +kernel

theorem bareHosts_restarted : ((restartEtcd someRequest 0).runOn respond (bareHosts 18)).1 =
    .ok () := by
  decide +kernel

theorem answers_respond (c : Call) (s : Host) :
    (world someEnv).answers c s (respond c s).1 (respond c s).2 :=
  Or.inl (serves_respond c s)

/-- A program that succeeds on such a server ends there. -/
theorem ends_of_runOn {p : Prog Unit} (succeeded : (p.runOn respond s).1 = .ok ()) :
    Ends (world someEnv) p s () (p.runOn respond s).2 :=
  ends_runOn answers_respond Calm.refl succeeded

theorem bareHost_sound : ∀ v ∈ guarded, Sound someOperator someRequest v bareHost := by
  -- nothing is recorded, so nothing is installed
  have noTag {v : Service} {name : String} (image : name ∈ v.image)
      (installed : Installed someOperator someRequest v bareHost) : False := by
    obtain ⟨img, -, recorded⟩ := installed.tag name image
    cases recorded
  intro v member installed
  simp only [guarded, List.mem_cons, List.not_mem_nil, or_false] at member
  rcases member with rfl | rfl | rfl | rfl
  · exact (noTag rfl installed).elim
  · exact (noTag rfl installed).elim
  · obtain ⟨deb, -, recorded⟩ := installed.deb _ rfl
    cases recorded
  · exact (noTag rfl installed).elim

theorem bareHost_vaultRestarts : VaultRestarts (fun _ => someEnv) bareHost where
  looks never := never
  missing := .inr ⟨rfl, fun _ _ pulled => pulled rfl⟩
  alone _ _ _ pulled := pulled rfl

theorem update_deploys_bare :
    (∀ k < 18, Ends (world someEnv) (runStep someOperator someRequest (k + 1))
      (bareHosts k) () (bareHosts (k + 1))) ∧
    ∀ v, UpToDate someOperator someRequest v
      ((restartEtcd someRequest 0).runOn respond (bareHosts 18)).2 := by
  have ran : ∀ k < 18, Ends (world someEnv) (runStep someOperator someRequest (k + 1))
      (bareHosts k) () (bareHosts (k + 1)) :=
    fun k small => ends_of_runOn (bareHosts_ran k small)
  exact ⟨ran, update_deploys ran bareHost_sound somePackages_restartsAgent bareHost_vaultRestarts
    (ends_of_runOn bareHosts_restarted)⟩

end Neco.Deploy
