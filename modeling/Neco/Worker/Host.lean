import Neco.Lib.Execution
import Neco.Storage.Keys
import Neco.Worker.Contents

/-!
# A boot server as the steps of an update find it

The steps read and write files, records of what is installed, and units of systemd. A service
runs with the files that it was started with: unit files as systemd had loaded them, all others
as they were. A call may fail and leave what it touches in any state. Between two calls a service
may crash, after which systemd starts it anew, and one that is down may be started because another
unit asks for it.
-/

namespace Neco.Deploy

open Program

inductive Error where
  /-- `os.IsNotExist` holds. -/
  | notExist
  /-- `storage.ErrNotFound`. -/
  | notFound
  | failed (message : String)
  deriving DecidableEq, Repr

/-- `github.ReleaseAsset`. -/
structure ReleaseAsset where
  name : Option String
  url : Option String
  deriving DecidableEq, Repr

/-- `github.RepositoryRelease`. -/
structure RepositoryRelease where
  tagName : Option String
  assets : List ReleaseAsset
  deriving DecidableEq, Repr

/-- `etcdserverpb.Member`. -/
structure Member where
  id : Nat
  name : String
  peerURLs : List String
  deriving DecidableEq, Repr

/-- What a step asks of its environment. -/
inductive Call where
  | readFile (name : String)
  | stat (name : String)
  /-- Opens a file for writing, which creates or truncates it. -/
  | openFile (name : String)
  | write (name data : String)
  | sync (name : String)
  | writeFile (name data : String)
  | rename (old new : String)
  | remove (name : String)
  | mkdirAll (dir : String)
  | chown (name : String)
  | daemonReload
  | enable (unit : String)
  | disable (unit : String)
  | start (unit : String)
  | restart (unit : String)
  | stop (unit : String)
  /-- `systemctl show -p ActiveState --value`. -/
  | activeState (unit : String)
  | isActive (unit : String)
  | getContainerTag (name : String)
  | putContainerTag (name tag : String)
  | getDebVersion (name : String)
  | putDebVersion (name release : String)
  | getProxyConfig
  | getGitHubToken
  /-- The images that Docker has. -/
  | listImages
  | pull (image : String)
  | run (image command : String)
  /-- `sabactl completion`. -/
  | completion
  | listReleases (owner repository : String)
  | download (url token : String)
  | dpkg (package data : String)
  /-- In nanoseconds. -/
  | sleep (duration : Int)
  /-- Polls the endpoint of sabakan for ten seconds. -/
  | waitSabakan
  | memberList
  | memberAdd (peerURL : String)
  | memberRemove (id : Nat)
  | waitEtcdForVault
  | waitEtcdSync (revision : Nat)
  | get (key : String)
  /-- An operation on what the boot servers share. -/
  | shared (c : Contents.Call)
  deriving DecidableEq, Repr

@[reducible] def Value : Call → Type
  | .readFile _ => String
  | .activeState _ => String
  -- whether the command succeeds, and its output
  | .isActive _ => Bool × String
  | .getContainerTag _ => String
  | .getDebVersion _ => String
  | .getProxyConfig => String
  | .getGitHubToken => String
  | .listImages => List String
  | .completion => String
  | .listReleases _ _ => List RepositoryRelease
  | .download _ _ => String
  | .memberList => List Member
  -- the members with the new one, and the revision of the answer
  | .memberAdd _ => List Member × Nat
  | .get _ => Nat
  | .shared c => Contents.Reply c
  | _ => Unit

@[reducible] def Reply (c : Call) : Type := Except Error (Value c)

abbrev Prog := Program.Prog Call Reply Error

/-- Makes a call and fails with it. -/
def request (c : Call) : Prog (Value c) :=
  .call c fun
  | .error err => .fail err
  | .ok value => .ret value

/-! ### The state of a boot server -/

structure Host where
  /-- The files, but for those that Debian packages bring with them. -/
  files : String → Option String
  /-- The files as they were when systemd read its unit files. -/
  loaded : String → Option String
  /-- The units that are active, with the files that they were started with. -/
  running : String → Option (String → Option String)
  enabled : String → Bool
  /-- The container tags and package versions that the storage has for this server. -/
  tags : String → Option String
  debs : String → Option String
  images : String → Bool

def systemdDir : String := "/etc/systemd/system"

/-- Unit files and drop-ins are what systemd loads. -/
def isUnitFile (name : String) : Bool := hasPrefix name (systemdDir ++ "/")

namespace Host

/-- What a service is started with now. -/
def launch (s : Host) (name : String) : Option String :=
  if isUnitFile name then s.loaded name else s.files name

def setFile (s : Host) (name : String) (data : Option String) : Host :=
  { s with files := Function.update s.files name data }

def setRunning (s : Host) (unit : String) (x : Option (String → Option String)) : Host :=
  { s with running := Function.update s.running unit x }

def setEnabled (s : Host) (unit : String) (x : Bool) : Host :=
  { s with enabled := Function.update s.enabled unit x }

def setTag (s : Host) (name tag : String) : Host :=
  { s with tags := Function.update s.tags name (some tag) }

def setDeb (s : Host) (name release : String) : Host :=
  { s with debs := Function.update s.debs name (some release) }

def setImage (s : Host) (image : String) : Host :=
  { s with images := Function.update s.images image true }

def reload (s : Host) : Host := { s with loaded := s.files }

/-- The unit has been started; conditions in its unit file may have kept it from running. -/
def Started (s : Host) (unit : String) (t : Host) : Prop :=
  t = s.setRunning unit (some s.launch) ∨ t = s.setRunning unit none

end Host

/-! ### What a call can change -/

/-- The parts of a server that calls change one by one. -/
inductive Part where
  | file (name : String)
  | unit (name : String)
  | tag (name : String)
  | deb (name : String)
  | image (name : String)
  deriving DecidableEq, Repr

/-- The parts that a call is about. -/
def Call.touched : Call → List Part
  | .openFile name => [.file name]
  | .write name _ => [.file name]
  | .writeFile name _ => [.file name]
  | .rename old new => [.file old, .file new]
  | .remove name => [.file name]
  | .enable unit => [.unit unit]
  | .disable unit => [.unit unit]
  | .start unit => [.unit unit]
  | .restart unit => [.unit unit]
  | .stop unit => [.unit unit]
  | .putContainerTag name _ => [.tag name]
  | .putDebVersion name _ => [.deb name]
  | .pull image => [.image image]
  | .dpkg _ _ => [.unit "ep-agent.service"]
  | _ => []

/-- Between `s` and `t` nothing changes but the given parts, and systemd may read its files. -/
structure Changes (parts : List Part) (s t : Host) : Prop where
  files : ∀ name, .file name ∉ parts → t.files name = s.files name
  running : ∀ name, .unit name ∉ parts → t.running name = s.running name
  enabled : ∀ name, .unit name ∉ parts → t.enabled name = s.enabled name
  tags : ∀ name, .tag name ∉ parts → t.tags name = s.tags name
  debs : ∀ name, .deb name ∉ parts → t.debs name = s.debs name
  images : ∀ name, .image name ∉ parts → t.images name = s.images name
  loaded : t.loaded = s.loaded ∨ t.loaded = s.files

/-- What the installation of a package does to a server. This is up to the package; the only one
that is installed here, `etcdpasswd`, has `ep-agent.service` for its unit. -/
structure Packages where
  installs : (package data : String) → Host → Host → Prop
  changes : ∀ {package data : String} {s t : Host}, installs package data s t →
    Changes [.unit "ep-agent.service"] s t

/-- The scripts of `etcdpasswd` let systemd read its files, and start its service with the files that
are there, if it is to run. -/
def Packages.RestartsAgent (packages : Packages) : Prop :=
  ∀ data s t, packages.installs "etcdpasswd" data s t → t.loaded = t.files ∧
    ∀ files, t.running "ep-agent.service" = some files → files = t.files

/-- How a call is answered when nothing goes wrong. What the model does not know is answered in
any way. What a unit asks for that is started here is started between this call and the next. -/
def Host.serves (packages : Packages) (s : Host) : (c : Call) → Reply c → Host → Prop
  | .readFile name, r, t => t = s ∧ r = (s.files name).elim (.error .notExist) .ok
  | .stat name, r, t => t = s ∧ r = if (s.files name).isSome then .ok () else .error .notExist
  | .openFile name, r, t => r = .ok () ∧ t = s.setFile name (some "")
  | .write name data, r, t => r = .ok () ∧ t = s.setFile name (some ((s.files name).getD "" ++ data))
  | .sync _, r, t => r = .ok () ∧ t = s
  | .writeFile name data, r, t => r = .ok () ∧ t = s.setFile name (some data)
  | .rename old new, r, t => match s.files old with
    | none => r = .error .notExist ∧ t = s
    | some data => r = .ok () ∧ t = (s.setFile old none).setFile new (some data)
  | .remove name, r, t => match s.files name with
    | none => r = .error .notExist ∧ t = s
    | some _ => r = .ok () ∧ t = s.setFile name none
  | .mkdirAll _, r, t => r = .ok () ∧ t = s
  | .chown _, r, t => r = .ok () ∧ t = s
  | .daemonReload, r, t => r = .ok () ∧ t = s.reload
  | .enable unit, r, t => r = .ok () ∧ t = s.setEnabled unit true
  | .disable unit, r, t => r = .ok () ∧ t = s.setEnabled unit false
  -- a unit that is active is left as it is
  | .start unit, r, t => r = .ok () ∧ if (s.running unit).isSome then t = s else s.Started unit t
  | .restart unit, r, t => r = .ok () ∧ s.Started unit t
  | .stop unit, r, t => r = .ok () ∧ t = s.setRunning unit none
  | .getContainerTag name, r, t => t = s ∧ r = (s.tags name).elim (.error .notFound) .ok
  | .putContainerTag name tag, r, t => r = .ok () ∧ t = s.setTag name tag
  | .getDebVersion name, r, t => t = s ∧ r = (s.debs name).elim (.error .notFound) .ok
  | .putDebVersion name release, r, t => r = .ok () ∧ t = s.setDeb name release
  | .listImages, r, t => t = s ∧ ∃ names : List String, r = .ok names ∧
      ∀ image ∈ names, s.images image = true
  | .pull image, r, t => r = .ok () ∧ t = s.setImage image
  | .dpkg package data, r, t => r = .ok () ∧ packages.installs package data s t
  | _, _, t => t = s

/-! ### Other parties -/

/-- The surroundings of a program. -/
structure Env where
  packages : Packages
  /-- The calls that may fail. -/
  faulty : Call → Prop
  /-- The units that may crash. -/
  crashes : String → Prop
  /-- The units that may be started when they are down: units that others ask for by `Wants=` or
  `Requires=`, as `cke.service` does for `vault.service` and `sabakan-state-setter.service` for
  `setup-hw.service` and `serf.service`. -/
  pulled : String → Prop

/-- What happens between two calls: a service that is active crashes, and is then started anew
or stays down, or a service that is down is started because another one is. -/
structure Calm (env : Env) (s t : Host) : Prop where
  files : t.files = s.files
  loaded : t.loaded = s.loaded
  enabled : t.enabled = s.enabled
  tags : t.tags = s.tags
  debs : t.debs = s.debs
  images : t.images = s.images
  running : ∀ unit, t.running unit = s.running unit ∨
    (env.crashes unit ∧ s.running unit ≠ none ∧
      (t.running unit = none ∨ t.running unit = some s.launch)) ∨
    (env.pulled unit ∧ s.running unit = none ∧ t.running unit = some s.launch)

/-- Calls that may fail leave what they touch in any state when they do. Operations on what is
shared have errors of their own among their values. -/
def world (env : Env) : World Call Reply Host where
  answers c s r t := s.serves env.packages c r t ∨
    env.faulty c ∧ (∀ c', c ≠ .shared c') ∧ (∃ message, r = .error (.failed message)) ∧
      Changes c.touched s t
  rely := Calm env

variable {env : Env}

theorem Changes.of_eq {parts : List Part} {s t : Host} (same : t = s) : Changes parts s t := by
  subst same
  constructor <;> simp

theorem Calm.refl (s : Host) : Calm env s s := by
  constructor <;> simp

theorem Calm.launch {s t : Host} (calm : Calm env s t) : t.launch = s.launch := by
  funext name
  rw [Host.launch, Host.launch, calm.files, calm.loaded]

/-- With the files that are there, a unit runs as before or has been started. -/
theorem Calm.running_cases {s t : Host} (calm : Calm env s t) (unit : String) :
    t.running unit = s.running unit ∨ t.running unit = none ∨ t.running unit = some s.launch := by
  rcases calm.running unit with same | ⟨-, -, crashed⟩ | ⟨-, -, started⟩
  · exact .inl same
  · exact .inr crashed
  · exact .inr (.inr started)

theorem Calm.trans {s t u : Host} (first : Calm env s t)
    (second : Calm env t u) : Calm env s u where
  files := second.files.trans first.files
  loaded := second.loaded.trans first.loaded
  enabled := second.enabled.trans first.enabled
  tags := second.tags.trans first.tags
  debs := second.debs.trans first.debs
  images := second.images.trans first.images
  running unit := by
    have later := second.running unit
    rw [first.launch] at later
    rcases first.running unit with same | ⟨may, active, -⟩ | ⟨may, down, started⟩
    · rwa [same] at later
    · -- the service has crashed; what follows is down or started anew
      rcases later with same | ⟨-, -, crashed⟩ | ⟨-, -, started⟩
      · rcases first.running_cases unit with kept | crashed
        · exact .inl (same.trans kept)
        · rw [← same] at crashed
          exact .inr (.inl ⟨may, active, crashed⟩)
      · exact .inr (.inl ⟨may, active, crashed⟩)
      · exact .inr (.inl ⟨may, active, .inr started⟩)
    · -- the service has been started; it may have crashed since
      rcases later with same | ⟨-, -, gone | anew⟩ | ⟨-, -, anew⟩
      · exact .inr (.inr ⟨may, down, same.trans started⟩)
      · exact .inl (gone.trans down.symm)
      · exact .inr (.inr ⟨may, down, anew⟩)
      · exact .inr (.inr ⟨may, down, anew⟩)

section Setters

variable (s : Host)

theorem changes_setFile (name : String) (data : Option String) :
    Changes [.file name] s (s.setFile name data) := by
  constructor <;> simp +contextual [Host.setFile, Function.update_of_ne]

theorem changes_setRunning (unit : String) (x : Option (String → Option String)) :
    Changes [.unit unit] s (s.setRunning unit x) := by
  constructor <;> simp +contextual [Host.setRunning, Function.update_of_ne]

theorem changes_setEnabled (unit : String) (x : Bool) :
    Changes [.unit unit] s (s.setEnabled unit x) := by
  constructor <;> simp +contextual [Host.setEnabled, Function.update_of_ne]

theorem changes_setTag (name tag : String) : Changes [.tag name] s (s.setTag name tag) := by
  constructor <;> simp +contextual [Host.setTag, Function.update_of_ne]

theorem changes_setDeb (name release : String) :
    Changes [.deb name] s (s.setDeb name release) := by
  constructor <;> simp +contextual [Host.setDeb, Function.update_of_ne]

theorem changes_setImage (image : String) : Changes [.image image] s (s.setImage image) := by
  constructor <;> simp +contextual [Host.setImage, Function.update_of_ne]

theorem changes_reload : Changes [] s s.reload := by
  constructor <;> simp [Host.reload]

end Setters

theorem Host.Started.changes {s t : Host} {unit : String} (started : s.Started unit t) :
    Changes [.unit unit] s t := by
  rcases started with rfl | rfl
  · exact changes_setRunning s unit _
  · exact changes_setRunning s unit _

/-- An answer changes what its call touches and nothing else. -/
theorem Host.serves.changes {packages : Packages} {s t : Host} {c : Call} {r : Reply c}
    (served : s.serves packages c r t) :
    Changes c.touched s t := by
  cases c with
  | openFile name => exact served.2 ▸ changes_setFile s name _
  | write name data => exact served.2 ▸ changes_setFile s name _
  | writeFile name data => exact served.2 ▸ changes_setFile s name _
  | rename old new =>
    simp only [Host.serves] at served
    split at served
    · exact .of_eq served.2
    · obtain ⟨-, rfl⟩ := served
      constructor <;> simp +contextual [Host.setFile, Function.update_of_ne, Call.touched]
  | remove name =>
    simp only [Host.serves] at served
    split at served
    · exact .of_eq served.2
    · exact served.2 ▸ changes_setFile s name none
  | daemonReload => exact served.2 ▸ changes_reload s
  | enable unit => exact served.2 ▸ changes_setEnabled s unit true
  | disable unit => exact served.2 ▸ changes_setEnabled s unit false
  | start unit =>
    obtain ⟨-, started⟩ := served
    split at started
    · exact .of_eq started
    · exact started.changes
  | restart unit => exact served.2.changes
  | stop unit => exact served.2 ▸ changes_setRunning s unit none
  | putContainerTag name tag => exact served.2 ▸ changes_setTag s name tag
  | putDebVersion name release => exact served.2 ▸ changes_setDeb s name release
  | pull image => exact served.2 ▸ changes_setImage s image
  | dpkg package data => exact packages.changes served.2
  | readFile name => exact .of_eq served.1
  | stat name => exact .of_eq served.1
  | getContainerTag name => exact .of_eq served.1
  | getDebVersion name => exact .of_eq served.1
  | listImages => exact .of_eq served.1
  | sync name => exact .of_eq served.2
  | mkdirAll dir => exact .of_eq served.2
  | chown name => exact .of_eq served.2
  | _ =>
    simp only [Host.serves] at served
    exact .of_eq served

theorem answers_changes {s t : Host} {c : Call} {r : Reply c}
    (answered : (world env).answers c s r t) : Changes c.touched s t := by
  rcases answered with served | ⟨-, -, -, changes⟩
  · exact served.changes
  · exact changes

/-- Nothing but an error comes from a call that has gone wrong. -/
theorem serves_of_ok {s t : Host} {c : Call} {value : Value c}
    (answered : (world env).answers c s (.ok value) t) : s.serves env.packages c (.ok value) t := by
  rcases answered with served | ⟨-, -, ⟨message, wrong⟩, -⟩
  · exact served
  · cases wrong

end Neco.Deploy
