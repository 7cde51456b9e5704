import Neco.Lib.IPv4
import Neco.Worker.Etcd
import Neco.Worker.Host

/-!
# The steps of an update

What `RunStep` does on a boot server, step by step: images are fetched, files are generated and
replaced, what is installed is recorded, and services are started anew when something of theirs
has changed. The texts of templates are left open: a generator is described by the values that
it passes to its template.
-/

namespace Neco.Deploy

open Program

/-! ### Artifacts -/

/-- `neco.ContainerImage`. -/
structure ContainerImage where
  name : String
  repository : String
  tag : String
  isPrivate : Bool
  deriving DecidableEq, Repr

def ContainerImage.fullName (c : ContainerImage) (hasSecret : Bool) : String :=
  if hasSecret && c.isPrivate then c.repository ++ "-secret:" ++ c.tag
  else c.repository ++ ":" ++ c.tag

/-- `neco.DebianPackage`. -/
structure DebianPackage where
  name : String
  owner : String
  repository : String
  release : String
  deriving DecidableEq, Repr

/-- The file that a generator writes, and the values that go into it. -/
structure Document where
  template : String
  values : List (String × List String)
  deriving DecidableEq, Repr

/-- `operator`, with `CurrentArtifacts` and with the texts of the templates. -/
structure Operator where
  mylrn : Int
  images : List ContainerImage
  debs : List DebianPackage
  /-- The container runtime finds `DCTestFile`. -/
  dcTest : Bool
  render : Document → String

def bootImages : List String := ["etcd", "promtail", "setup-hw", "sabakan", "serf", "vault"]

namespace Operator

variable (o : Operator)

def findContainerImage (name : String) : Except Error ContainerImage :=
  match o.images.find? (·.name == name) with
  | some img => .ok img
  | none => .error (.failed "no such container")

def findDebianPackage (name : String) : Except Error DebianPackage :=
  match o.debs.find? (·.name == name) with
  | some deb => .ok deb
  | none => .error (.failed "no such package")

def imageFullName (img : ContainerImage) : String := img.fullName !o.dcTest

end Operator

/-! ### systemd -/

/-- `strings.TrimSpace`, for texts of ASCII characters. -/
def trimSpace (s : String) : String :=
  let isSpace (c : Char) : Bool := c ∈ [' ', '\t', '\n', '\x0b', '\x0c', '\r']
  String.ofList (((s.toList.dropWhile isSpace).reverse.dropWhile isSpace).reverse)

def serviceFile (name : String) : String := systemdDir ++ "/" ++ name ++ ".service"

def timerFile (name : String) : String := systemdDir ++ "/" ++ name ++ ".timer"

namespace Systemd

def startUnit (name unit : String) : Prog Unit := do
  request .daemonReload
  request (.enable (name ++ "." ++ unit))
  request (.start (name ++ "." ++ unit))

def startService (name : String) : Prog Unit := startUnit name "service"

def startTimer (name : String) : Prog Unit := startUnit name "timer"

def restartService (name : String) : Prog Unit := do
  request .daemonReload
  request (.enable (name ++ ".service"))
  request (.restart (name ++ ".service"))

/-- The loop of `waitServiceStateChange` with the rounds that are left and the last state. -/
def waitServiceStateChange (name : String) : Nat → String → Prog Unit
  | 0, state => .fail (.failed (name ++ ".service sticks at state: " ++ state))
  | rounds + 1, _ => do
    let state ← request (.activeState (name ++ ".service"))
    if trimSpace state = "activating" ∨ trimSpace state = "deactivating" then
      request (.sleep 1000000000)
      waitServiceStateChange name rounds state
    else .ret ()

def stopService (name : String) : Prog Unit := do
  waitServiceStateChange name 60 ""
  request (.stop (name ++ ".service"))

def isActiveService (name : String) : Prog Bool := do
  let (succeeded, output) ← request (.isActive (name ++ ".service"))
  if succeeded then .ret true
  else if trimSpace output = "inactive" then .ret false
  else .fail (.failed "exit status")

def stopTimer (name : String) : Prog Unit := request (.stop (name ++ ".timer"))

def disableTimer (name : String) : Prog Unit := request (.disable (name ++ ".timer"))

end Systemd

/-! ### Files, tools and records -/

/-- `filepath.Dir`. -/
def dir (name : String) : String :=
  String.ofList (name.toList.reverse.dropWhile (· ≠ '/')).tail.reverse

/-- Truncates a file and writes it. -/
def overwrite (name data : String) : Prog Unit := do
  request (.openFile name)
  request (.write name data)
  request (.sync name)

def replaceFile (name data : String) : Prog Bool :=
  .call (.readFile name) fun
  | .error .notExist => do
    overwrite name data
    .ret true
  | .error err => .fail err
  | .ok current =>
    if current = data then .ret false
    else do
      overwrite name data
      .ret true

/-- Generates a file and replaces it. -/
def install (name : String) (text : Except Error String) : Prog Bool := do
  let data ← .ended text
  replaceFile name data

/-- Generates a file, makes a directory, and replaces the file. -/
def installIn (folder name : String) (text : Except Error String) : Prog Bool := do
  let data ← .ended text
  request (.mkdirAll folder)
  replaceFile name data

/-- The loop of `RetryWithSleep` with the attempts that are left and the last error. -/
def retryWithSleep {α : Type} (duration : Int) (f : Prog α) : Nat → Error → Prog α
  | 0, err => .fail err
  | attempts + 1, _ => do
    match ← f.attempt with
    | .ok a => .ret a
    | .error err => do
      request (.sleep duration)
      retryWithSleep duration f attempts err

section Records

variable (o : Operator)

def needContainerImageUpdate (name : String) : Prog Bool :=
  .call (.getContainerTag name) fun
  | .error .notFound => .ret true
  | .error err => .fail err
  | .ok tag => do
    let img ← .ended (o.findContainerImage name)
    .ret (img.tag != tag)

def recordContainerTag (name : String) : Prog Unit := do
  let img ← .ended (o.findContainerImage name)
  request (.putContainerTag name img.tag)

def needDebUpdate (name : String) : Prog Bool :=
  .call (.getDebVersion name) fun
  | .error .notFound => .ret true
  | .error err => .fail err
  | .ok version => do
    let deb ← .ended (o.findDebianPackage name)
    .ret (version != deb.release)

def recordDebVersion (name : String) : Prog Unit := do
  let deb ← .ended (o.findDebianPackage name)
  request (.putDebVersion name deb.release)

/-- `InstallTools` of etcd, Vault, serf and sabakan. -/
def installTools (name : String) : Prog Unit := do
  let img ← .ended (o.findContainerImage name)
  request (.run (o.imageFullName img) ("/usr/local/" ++ name ++ "/install-tools"))

/-- The beginning of the steps that update a container image: unless the tag is recorded, the
tools are installed and the tag is recorded. Returns whether the image is new. -/
def updateImage (name : String) (tools : Prog Unit) : Prog Bool := do
  let need ← needContainerImageUpdate o name
  if need then
    tools
    recordContainerTag o name
  .ret need

end Records

/-! ### Generators -/

/-- `BootNode0IP`; `baseNode0` is 10.69.0.0. -/
def bootNode0IP (lrn : Int) : String :=
  IPv4.text (0x0a450000#32 + BitVec.ofInt 32 (192 * lrn + 3))

def etcdEndpoints (lrns : List Int) : List String :=
  lrns.map fun lrn => "https://" ++ bootNode0IP lrn ++ ":2379"

section Generators

variable (o : Operator)

/-- A unit file that runs a container image. -/
def generateService (name template : String) (values : List (String × List String)) :
    Except Error String := do
  let img ← o.findContainerImage name
  return o.render ⟨template, ("Image", [o.imageFullName img]) :: values⟩

namespace EtcdProg

def confFile : String := "/etc/etcd/etcd.conf.yml"

def generateService : Except Error String :=
  Deploy.generateService o "etcd" "etcd-container.service"
    [("UID", ["10000"]), ("GID", ["10000"]), ("ConfFile", [confFile])]

/-- The values that both generators of `etcd.conf.yml` pass. -/
def conf (mylrn : Int) (initialCluster : List String) (state : String) : String :=
  o.render ⟨"etcd.conf.yml", [("LRN", [itoa mylrn]),
    ("InitialAdvertisePeerURLs", ["https://" ++ bootNode0IP mylrn ++ ":2380"]),
    ("AdvertiseClientURLs", ["https://" ++ bootNode0IP mylrn ++ ":2379"]),
    ("InitialCluster", initialCluster), ("InitialClusterState", [state])]⟩

def generateConf (mylrn : Int) (lrns : List Int) : String :=
  conf o mylrn (lrns.map fun lrn => "boot-" ++ itoa lrn ++ "=https://" ++ bootNode0IP lrn ++ ":2380")
    "new"

/-- The members as `GenerateConfForAdd` lists them; the one without a name is the new one. -/
def initialCluster (mylrn : Int) (members : List Member) : List String :=
  members.flatMap fun member =>
    member.peerURLs.map fun u =>
      (if member.name = "" then "boot-" ++ itoa mylrn else member.name) ++ "=" ++ u

def generateConfForAdd (mylrn : Int) (members : List Member) : String :=
  conf o mylrn (initialCluster mylrn members) "existing"

/-- What `UpdateNecoConfig` writes to `NecoConfFile`. -/
def necoConfig (lrns : List Int) : String :=
  o.render ⟨"config.yml", [("Endpoints", etcdEndpoints lrns), ("TLSCertFile", ["/etc/neco/etcd.crt"]),
    ("TLSKeyFile", ["/etc/neco/etcd.key"])]⟩

end EtcdProg

namespace VaultProg

def confFile : String := "/etc/vault/config.hcl"

def generateService : Except Error String :=
  Deploy.generateService o "vault" "vault.service"
    [("UID", ["10000"]), ("GID", ["10000"]), ("ConfFile", [confFile]),
      ("NecoBin", ["/usr/bin/neco"])]

def generateConf (mylrn : Int) (lrns : List Int) : String :=
  o.render ⟨"vault.hcl", [("ServerCertFile", ["/etc/neco/server.crt"]),
    ("ServerKeyFile", ["/etc/neco/server.key"]),
    ("APIAddr", ["https://" ++ bootNode0IP mylrn ++ ":8200"]),
    ("ClusterAddr", ["https://" ++ bootNode0IP mylrn ++ ":8201"]),
    ("EtcdEndpoints", etcdEndpoints lrns), ("EtcdCertFile", ["/etc/vault/etcd.crt"]),
    ("EtcdKeyFile", ["/etc/vault/etcd.key"])]⟩

end VaultProg

namespace SetupHW

def generateService : Except Error String :=
  Deploy.generateService o "setup-hw" "setup-hw.service" []

end SetupHW

namespace SerfProg

def confFile : String := "/etc/serf/serf.json"

def generateService : Except Error String :=
  Deploy.generateService o "serf" "serf.service" [("ConfFile", [confFile])]

def generateConf (lrns : List Int) (osName osVersion serial : String) : String :=
  o.render ⟨"serf.json", [("os-name", [osName]), ("os-version", [osVersion]), ("serial", [serial]),
    ("retry_join", lrns.map bootNode0IP)]⟩

def osReleasePath : String := "/etc/os-release"

def serialPath : String := "/sys/class/dmi/id/product_serial"

/-- `strings.Trim` of quotation marks. -/
def trimQuotes (cs : List Char) : List Char :=
  ((cs.dropWhile (· = '"')).reverse.dropWhile (· = '"')).reverse

/-- The value of the first line for a key in the text of `/etc/os-release`. -/
def osRelease (key : String) (text : String) : Option String :=
  (text.toList.splitOn '\n').findSome? fun line =>
    match line.splitOn '=' with
    | [k, v] =>
      if trimSpace (String.ofList k) = key then some (String.ofList (trimQuotes v)) else none
    | _ => none

def getOSName : Prog String := do
  let text ← request (.readFile osReleasePath)
  .ended ((osRelease "NAME" text).elim (.error (.failed "failed to get os type")) .ok)

def getOSVersionID : Prog String := do
  let text ← request (.readFile osReleasePath)
  .ended ((osRelease "VERSION_ID" text).elim (.error (.failed "failed to get os version")) .ok)

def getSerial : Prog String := do
  let serial ← request (.readFile serialPath)
  .ret (trimSpace serial)

end SerfProg

namespace Etcdpasswd

def confFile : String := "/etc/etcdpasswd/config.yml"

def dropIn : String := "/etc/systemd/system/ep-agent.service.d/10-check-certificate.conf"

def generateConf (lrns : List Int) : String :=
  o.render ⟨"etcdpasswd", [("endpoints", etcdEndpoints lrns),
    ("tls-cert-file", ["/etc/etcdpasswd/etcd.crt"]), ("tls-key-file", ["/etc/etcdpasswd/etcd.key"])]⟩

def generateSystemdDropIn : String :=
  o.render ⟨"10-check-certificate.conf", [("ConditionPathExists",
    ["/etc/etcdpasswd/etcd.crt", "/etc/etcdpasswd/etcd.key"])]⟩

def sshdConfFile : String := "/etc/ssh/sshd_config.d/neco.conf"

def sshdConf : String :=
  "# SSHD configurations for Neco\n\nAuthorizedKeysFile\t.ssh/authorized_keys\n" ++
  "PasswordAuthentication no\nForceCommand /usr/bin/neco session-log start\n"

def installSshdConf : Prog Unit := do
  let tmpFile := sshdConfFile ++ ".tmp"
  overwrite tmpFile sshdConf
  request (.rename tmpFile sshdConfFile)

def sudoersFile : String := "/etc/sudoers.d/cybozu"

def sudoersTmpFile : String := "/etc/sudoers.d/.cybozu"

def installSudoers : Prog Unit :=
  .call (.stat sudoersFile) fun
  | .ok () => .ret ()
  | .error .notExist => do
    overwrite sudoersTmpFile "%sudo   ALL=(ALL:ALL) NOPASSWD: ALL\n"
    request (.rename sudoersTmpFile sudoersFile)
  | .error err => .fail err

end Etcdpasswd

namespace SabakanProg

def confFile : String := "/etc/sabakan/config.yml"

def etcdKeyFile : String := "/etc/sabakan/etcd.key"

def bashCompletionFile : String := "/etc/bash_completion.d/sabactl"

def generateService : Except Error String :=
  Deploy.generateService o "sabakan" "sabakan.service" [("ConfFile", [confFile]),
    ("CertFile", ["/etc/sabakan/etcd.crt"]), ("KeyFile", [etcdKeyFile])]

def generateConf (mylrn : Int) (lrns : List Int) : String :=
  o.render ⟨"sabakan", [("advertise-url", ["http://" ++ bootNode0IP mylrn ++ ":10080"]),
    ("advertise-url-https", ["https://" ++ bootNode0IP mylrn ++ ":10443"]),
    ("endpoints", etcdEndpoints lrns), ("tls-cert-file", ["/etc/sabakan/etcd.crt"]),
    ("tls-key-file", [etcdKeyFile])]⟩

def installBashCompletion : Prog Unit := do
  let output ← request .completion
  request (.writeFile bashCompletionFile output)

end SabakanProg

namespace CKE

def confFile : String := "/etc/cke/config.yml"

def generateConf (lrns : List Int) : String :=
  o.render ⟨"cke", [("endpoints", etcdEndpoints lrns), ("tls-cert-file", ["/etc/cke/etcd.crt"]),
    ("tls-key-file", ["/etc/cke/etcd.key"])]⟩

end CKE

namespace Promtail

def confFile : String := "/etc/promtail/promtail.yaml"

def generateService : Except Error String :=
  Deploy.generateService o "promtail" "promtail.service" [("ConfFile", [confFile])]

def generateConf (mylrn : Int) : String :=
  o.render ⟨"promtail.yaml", [("ServerIP", [bootNode0IP mylrn])]⟩

end Promtail

namespace SetupSerfTags

def binPath : String := "/usr/local/bin/setup-serf-tags"

def service : String :=
  "\n[Unit]\nDescription=Set serf tags\nRequires=serf.service\nAfter=serf.service\n" ++
  "PartOf=setup-serf-tags.timer\n\n[Service]\nType=oneshot\nExecStart=" ++ binPath

def timer : String :=
  "\n[Unit]\nDescription=Set serf tags periodically\nWants=serf.service\nAfter=serf.service\n\n" ++
  "[Timer]\nOnCalendar=minutely\n\n[Install]\nWantedBy=multi-user.target\n"

def generateScript (version : String) : String :=
  o.render ⟨"setup-serf-tags", [("Version", [version])]⟩

end SetupSerfTags
end Generators

/-! ### Elections and shared contents -/

def Error.ofContents : Contents.Error → Error
  | .notFound => .notFound
  | .noLeader => .failed "lost the leadership"
  | .failed message => .failed message

def Error.toContents : Error → Contents.Error
  | .notExist => .failed "file does not exist"
  | .notFound => .notFound
  | .failed message => .failed message

/-- The election of a worker around the end of a step; what is deferred is done however the body
ends. -/
def asLeader (body : Prog Unit) : Prog Unit := do
  match ← request (.shared .newSession) with
  | .error err => .fail (.ofContents err)
  | .ok () =>
    match ← request (.shared .putLeaderKey) with
    | .error err => do
      request (.shared .closeSession)
      .fail (.ofContents err)
    | .ok () =>
      match ← request (.shared .waitDeletes) with
      | .error err => do
        request (.shared .closeSession)
        .fail (.ofContents err)
      | .ok () => do
        let result ← body.attempt
        request (.shared .resign)
        request (.shared .closeSession)
        .ended result

/-- The calls of the steps for shared contents, on this server. -/
def contentsCall : (c : Contents.Call) → Prog (Contents.Reply c)
  | .isActiveService service => do
    let result ← (Systemd.isActiveService service).attempt
    .ret (result.mapError Error.toContents)
  | .stat file => .call (.stat file) fun
    | .ok () => .ret (.ok true)
    | .error .notExist => .ret (.ok false)
    | .error err => .ret (.error err.toContents)
  | c => request (.shared c)

/-- A step for shared contents. -/
def contentsStep (p : Contents.Prog) : Prog Unit := do
  match ← p.interpret contentsCall Empty.elim with
  | .error err => .fail (.ofContents err)
  | .ok () => .ret ()

/-! ### The steps -/

section Steps

variable (o : Operator) (req : UpdateRequest)

def pull (image : String) : Prog Unit := do
  let images ← request .listImages
  if image ∈ images then .ret ()
  else retryWithSleep 1000000000 (request (.pull image)) 3 (.failed "")

/-- The images are pulled one after another here, and at the same time in the source. -/
def pullImages : Prog Unit :=
  bootImages.forM fun name => do
    let img ← .ended (o.findContainerImage name)
    pull (o.imageFullName img)

def fetchImages : Prog Unit :=
  .call .getProxyConfig fun
  | .ok _ => pullImages o
  | .error .notFound => pullImages o
  | .error err => .fail err

/-- `isMember` of the operator. -/
def isMember (members : List Member) (lrn : Int) : Bool :=
  members.any fun member => member.name == "boot-" ++ itoa lrn

/-- `etcd.Setup`. -/
def etcdSetup (conf : String) : Prog Unit := do
  overwrite EtcdProg.confFile conf
  request (.mkdirAll "/var/lib/etcd-container")
  request (.chown "/var/lib/etcd-container")
  request (.openFile (serviceFile "etcd-container"))
  let service ← .ended (EtcdProg.generateService o)
  request (.write (serviceFile "etcd-container") service)
  request (.sync (serviceFile "etcd-container"))
  Systemd.startService "etcd-container"
  request .waitEtcdForVault

def peerURL (lrn : Int) : String := "https://" ++ bootNode0IP lrn ++ ":2380"

def addEtcdMember : Prog Unit := do
  let (members, revision) ← request (.memberAdd (peerURL o.mylrn))
  etcdSetup o (EtcdProg.generateConfForAdd o o.mylrn members)
  request (.waitEtcdSync revision)

def replaceEtcdFiles (lrns : List Int) : Prog Unit := do
  let _ ← install (serviceFile "etcd-container") (EtcdProg.generateService o)
  let _ ← install EtcdProg.confFile (.ok (EtcdProg.generateConf o o.mylrn lrns))

def updateEtcd : Prog Unit := do
  let _ ← updateImage o "etcd" (installTools o "etcd")
  asLeader do
    let members ← request .memberList
    if !isMember members o.mylrn then
      request (.sleep 10000000000)
      addEtcdMember o
    replaceEtcdFiles o req.servers
    request (.writeFile "/etc/neco/config.yml" (EtcdProg.necoConfig o req.servers))

/-- `operator.stopService`; any error counts as a missing file. -/
def stopService (svc : String) : Prog Unit :=
  .call (.stat (serviceFile svc)) fun
  | .error _ => .ret ()
  | .ok () => Systemd.stopService svc

def restoreService (svc : String) : Prog Unit :=
  .call (.stat (serviceFile svc)) fun
  | .error _ => .ret ()
  | .ok () => Systemd.startService svc

def startServices : Prog Unit := do
  restoreService "etcd-container"
  restoreService "vault"

def stopVault : Prog Unit := stopService "vault"

def replaceVaultFiles (lrns : List Int) : Prog Bool := do
  let r1 ← install (serviceFile "vault") (VaultProg.generateService o)
  let r2 ← install VaultProg.confFile (.ok (VaultProg.generateConf o o.mylrn lrns))
  .ret (r1 || r2)

def updateVault : Prog Unit := do
  let _ ← updateImage o "vault" (installTools o "vault")
  let _ ← replaceVaultFiles o req.servers
  Systemd.startService "vault"
  request (.sleep 10000000000)

def replaceSetupHWFiles : Prog Bool :=
  installIn (dir (serviceFile "setup-hw")) (serviceFile "setup-hw") (SetupHW.generateService o)

def updateSetupHW : Prog Unit := do
  let need ← updateImage o "setup-hw" (.ret ())
  let replaced ← replaceSetupHWFiles o
  if need || replaced then Systemd.restartService "setup-hw"

def replaceSerfFiles (lrns : List Int) : Prog Bool := do
  let r1 ← installIn (dir SerfProg.confFile) (serviceFile "serf") (SerfProg.generateService o)
  let name ← SerfProg.getOSName
  let version ← SerfProg.getOSVersionID
  let serial ← SerfProg.getSerial
  let r2 ← install SerfProg.confFile (.ok (SerfProg.generateConf o lrns name version serial))
  .ret (r1 || r2)

def updateSerf : Prog Unit := do
  let need ← updateImage o "serf" (installTools o "serf")
  let otherlrns := req.servers.filter (· ≠ o.mylrn)
  let replaced ← replaceSerfFiles o otherlrns
  if !need && !replaced then .ret ()
  else asLeader (Systemd.restartService "serf")

def updateSetupSerfTags : Prog Unit := do
  request (.mkdirAll (dir (serviceFile "setup-serf-tags")))
  request (.writeFile (serviceFile "setup-serf-tags") SetupSerfTags.service)
  request (.writeFile (timerFile "setup-serf-tags") SetupSerfTags.timer)
  let _ ← replaceFile SetupSerfTags.binPath (SetupSerfTags.generateScript o req.version)
  Systemd.startTimer "setup-serf-tags"

/-- `findDebAsset`; the pattern is the name, an underscore, anything, and `.deb`. -/
def findDebAsset (assets : List ReleaseAsset) (name : String) : Option ReleaseAsset :=
  assets.find? fun a => match a.name with
    | none => false
    | some file => hasPrefix file (name ++ "_") &&
      ".deb".toList.isSuffixOf (file.toList.drop (name ++ "_").toList.length)

def getGitHubDownloadURL (pkg : DebianPackage) : Prog String := do
  let releases ← request (.listReleases pkg.owner pkg.repository)
  match releases.find? (·.tagName == some pkg.release) with
  | none => .fail (.failed ("no such release: " ++ pkg.repository ++ "@" ++ pkg.release))
  | some release =>
    match findDebAsset release.assets pkg.name with
    | none => .fail (.failed ("debian package not found: " ++ pkg.repository ++ "@" ++ pkg.release))
    | some asset =>
      match asset.url with
      | none => .fail (.failed ("asset url is empty: " ++ pkg.repository ++ "@" ++ pkg.release))
      | some url => .ret url

def installDebianPackage (token : String) (pkg : DebianPackage) : Prog Unit := do
  let url ← getGitHubDownloadURL pkg
  let data ← retryWithSleep 10000000000 (request (.download url token)) 10 (.failed "")
  request (.dpkg pkg.name data)

def replaceEtcdpasswdFiles (lrns : List Int) : Prog Bool := do
  let r1 ← installIn (dir Etcdpasswd.dropIn) Etcdpasswd.dropIn
    (.ok (Etcdpasswd.generateSystemdDropIn o))
  let r2 ← installIn (dir Etcdpasswd.confFile) Etcdpasswd.confFile
    (.ok (Etcdpasswd.generateConf o lrns))
  .ret (r1 || r2)

def updateEtcdpasswd : Prog Unit := do
  Etcdpasswd.installSshdConf
  Systemd.restartService "ssh"
  Etcdpasswd.installSudoers
  let replaced ← replaceEtcdpasswdFiles o req.servers
  let need ← needDebUpdate o "etcdpasswd"
  if need then
    let deb ← .ended (o.findDebianPackage "etcdpasswd")
    let token ← request .getGitHubToken
    installDebianPackage token deb
    recordDebVersion o "etcdpasswd"
  if replaced && !need then Systemd.restartService "ep-agent"

def replaceSabakanFiles (lrns : List Int) : Prog Bool := do
  let r1 ← installIn (dir SabakanProg.confFile) SabakanProg.confFile
    (.ok (SabakanProg.generateConf o o.mylrn lrns))
  let r2 ← installIn (dir (serviceFile "sabakan")) (serviceFile "sabakan")
    (SabakanProg.generateService o)
  .ret (r1 || r2)

def updateSabakan : Prog Unit := do
  let _ ← updateImage o "sabakan" do
    installTools o "sabakan"
    SabakanProg.installBashCompletion
  let _ ← replaceSabakanFiles o req.servers
  Systemd.restartService "sabakan"
  .call (.stat SabakanProg.etcdKeyFile) fun
  | .error .notExist => .ret ()
  | .error err => .fail err
  | .ok () => request .waitSabakan

def updateSabakanStateSetter : Prog Unit := do
  let filename := timerFile "sabakan-state-setter"
  .call (.stat filename) fun
  | .error .notExist => Systemd.restartService "sabakan-state-setter"
  | .error err => .fail err
  | .ok () => do
    Systemd.stopTimer "sabakan-state-setter"
    Systemd.disableTimer "sabakan-state-setter"
    request (.remove filename)
    Systemd.restartService "sabakan-state-setter"

def stopCKE : Prog Unit := do
  stopService "cke-localproxy"
  stopService "cke"

def replaceCKEFiles (lrns : List Int) : Prog Bool :=
  installIn (dir CKE.confFile) CKE.confFile (.ok (CKE.generateConf o lrns))

def updateCKE : Prog Unit := do
  let _ ← replaceCKEFiles o req.servers
  contentsStep (Contents.updateCKETemplate req)
  Systemd.restartService "cke"
  Systemd.restartService "cke-localproxy"

def replacePromtailFiles (mylrn : Int) : Prog Bool := do
  let r1 ← installIn (dir Promtail.confFile) Promtail.confFile (.ok (Promtail.generateConf o mylrn))
  let r2 ← installIn (dir (serviceFile "promtail")) (serviceFile "promtail")
    (Promtail.generateService o)
  .ret (r1 || r2)

def updatePromtail : Prog Unit := do
  let need ← updateImage o "promtail" (.ret ())
  let replaced ← replacePromtailFiles o o.mylrn
  if !need && !replaced then .ret ()
  else Systemd.restartService "promtail"

/-- `operator.RunStep`. -/
def runStep : Nat → Prog Unit
  | 1 => fetchImages o
  | 2 => updateEtcd o req
  | 3 => stopVault
  | 4 => updateVault o req
  | 5 => updateSetupHW o
  | 6 => updateSerf o req
  | 7 => updateSetupSerfTags o req
  | 8 => updateEtcdpasswd o req
  | 9 => updateSabakan o req
  | 10 => updateSabakanStateSetter
  | 11 => stopCKE
  | 12 => updateCKE o req
  | 13 => contentsStep (Contents.updateCKEContents req)
  | 14 => contentsStep (Contents.updateSabakanContents req)
  | 15 => contentsStep (Contents.updateDHCPJSON req)
  | 16 => updatePromtail o
  | 17 => contentsStep (Contents.updateUserResources req)
  | 18 => .ret ()
  | step => .fail (.failed ("invalid step: " ++ toString step))

def Error.text : Error → String
  | .notExist => "file does not exist"
  | .notFound => "not found"
  | .failed message => message

/-- The calls of `RestartEtcd`, on this server. -/
def restartCall : (c : Restart.Call) → Prog (Restart.Reply c)
  | .sleep duration => do
    let _ ← (request (.sleep duration)).attempt
    .ret ()
  | .stopService name => do
    let result ← (Systemd.stopService name).attempt
    .ret (result.mapError Error.text)
  | .startService name => do
    let result ← (Systemd.startService name).attempt
    .ret (result.mapError Error.text)
  | .waitEtcdForVault => do
    let result ← (request .waitEtcdForVault).attempt
    .ret (result.mapError Error.text)
  | .get key => do
    let result ← (request (.get key)).attempt
    .ret (result.mapError Error.text)
  | .waitEtcdSync revision => do
    let result ← (request (.waitEtcdSync revision)).attempt
    .ret (result.mapError Error.text)
  | .memberList => do
    let result ← (request .memberList).attempt
    .ret ((result.mapError Error.text).map (List.map fun member => ⟨member.id, member.name⟩))
  | .memberRemove id => do
    let result ← (request (.memberRemove id)).attempt
    .ret (result.mapError Error.text)

/-- `operator.RestartEtcd` on this server. -/
def restartEtcd (index : Nat) : Prog Unit :=
  (Restart.restartEtcd index req).interpret restartCall .failed

end Steps
end Neco.Deploy
