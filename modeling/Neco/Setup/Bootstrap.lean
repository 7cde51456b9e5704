import Neco.Setup.FirstRequest
import Neco.Lib.Program

/-!
# The initial setup as a program

`neco setup` is started on all boot servers at once. The server with the smallest LRN leads: it
runs a development server of Vault that signs the first certificates of everybody, later
initialises the real Vault, and in the end puts the first request. The servers meet in the
development server, in etcd and in Vault; each call below is one operation on one of these, or
one on the server itself. A loop that polls until it finds something is one call that is
answered when the poll succeeds: the polls before change nothing.
-/

namespace Neco.Bootstrap

open Program Neco.Setup

/-- The paths `CAServer`, `CAEtcdPeer` and `CAEtcdClient` of Vault. -/
inductive CA where
  | server
  | etcdPeer
  | etcdClient
  deriving DecidableEq, Repr

/-- The order in which the loops of `createCA` and `bootVault` go through them. -/
def CA.all : List CA := [.server, .etcdPeer, .etcdClient]

def ttl10Year : String := "87600h"

/-- What `/issue/system` returns: a certificate with its key, signed by the root `signer`. -/
structure Secret where
  signer : String
  serial : Nat
  ttl : String
  deriving DecidableEq, Repr

/-- Who uses a certificate: `ServerCertFile`, `EtcdPeerCertFile`, `VaultCertFile`,
`EtcdBackupCertFile` and `NecoCertFile`. -/
inductive Owner where
  | server
  | etcdPeer
  | vault
  | etcdBackup
  | neco
  deriving DecidableEq, Repr

/-- The authority that issues the certificates of an owner. -/
def Owner.ca : Owner → CA
  | .server => .server
  | .etcdPeer => .etcdPeer
  | .vault => .etcdClient
  | .etcdBackup => .etcdClient
  | .neco => .etcdClient

inductive File where
  | ca (ca : CA)
  | cert (owner : Owner)
  | key (owner : Owner)
  deriving DecidableEq, Repr

inductive Text where
  | certificate (secret : Secret)
  | privateKey (secret : Secret)
  | issuingCA (signer : String)
  deriving DecidableEq, Repr

/-- The parts of a secret that go into the files of an owner. -/
def Secret.text (secret : Secret) : File → Text
  | .ca _ => .issuingCA secret.signer
  | .cert _ => .certificate secret
  | .key _ => .privateKey secret

inductive Setting where
  | enableAudit (path : String)
  | putPolicy (name : String)
  | enableAuth (path : String)
  deriving DecidableEq, Repr

/-- Requests to a server of Vault. -/
inductive VaultOp where
  | mount (ca : CA)
  | generateRoot (ca : CA)
  | configCA (ca : CA) (pem : String)
  /-- Writes the role `system`. -/
  | writeRole (ca : CA) (ttl : String)
  /-- Writes the role `human`. -/
  | writeHumanRole (ca : CA)
  | issue (ca : CA)
  | unmountSecret
  | mountSecret
  | write (path : String)
  | setting (setting : Setting)
  deriving DecidableEq, Repr

@[reducible] def VaultOp.Value : VaultOp → Type
  | .generateRoot _ => String
  | .issue _ => Secret
  | _ => Unit

/-- What a server does on its own host. -/
inductive Host where
  | getContainerRuntime
  | findContainerImage (name : String)
  | pull (name : String)
  | installTools (name : String)
  | myLRN
  | hostname
  | bastionIP
  | updateCACertificates
  | writeFiles (name : String)
  | startService (name : String)
  | restartService (name : String)
  | startTimer (name : String)
  | waitEtcdForVault
  /-- Writes `NecoConfFile`. -/
  | updateNecoConfig
  | sync
  deriving DecidableEq, Repr

inductive Call where
  | host (op : Host)
  | getDebianVersion
  | now
  | writeFile (file : File) (text : Text)
  | startDev
  /-- The deferred function of `prepareCA`, which returns an error or not. -/
  | stopDev (succeeded : Bool)
  | dev (op : VaultOp)
  | awaitSecret (path : String)
  | initVault
  | unsealVault (key : String)
  | vault (token : String) (op : VaultOp)
  | revokeSelf (token : String)
  | waitVaultLeader (token : String)
  | putVaultRootToken (token : String)
  | putVaultUnsealKey (key : String)
  | awaitVaultUnsealKey
  | getVaultRootToken
  | deleteVaultRootToken
  | registerBootserver (lrn : Int)
  | recordContainerTag (lrn : Int) (name : String)
  | finish (lrn : Int) (stage : Stage)
  | awaitFinished (stage : Stage)
  | updateNecoRelease (version : String)
  | putRequest (req : UpdateRequest)
  | putProxyConfig (proxy : String)
  | putGitHubToken (token : String)
  | userAdd (name : String) (pre : String)
  | authEnable
  deriving DecidableEq, Repr

@[reducible] def Value : Call → Type
  | .getDebianVersion => String
  | .now => Int
  | .dev op => op.Value
  | .vault _ op => op.Value
  -- whether the secret is there: the loop also ends when the context is done
  | .awaitSecret _ => Bool
  -- the unseal key and the root token
  | .initVault => String × String
  | .awaitVaultUnsealKey => String
  | .getVaultRootToken => String
  | _ => Unit

inductive Failure where
  /-- The other side answers that the call makes no sense in its state. -/
  | refused
  /-- Anything else: a lost connection, a full disk, a context that is done. -/
  | fault
  deriving DecidableEq, Repr

abbrev Reply (c : Call) : Type := Except Failure (Value c)

abbrev Prog (α : Type) : Type := Program.Prog Call Reply Failure α

/-- Makes a call and returns its error, as `if err != nil { return err }` does. -/
def request (c : Call) : Prog (Value c) :=
  .call c fun reply =>
    match reply with
    | .ok v => .ret v
    | .error e => .fail e

/-- Whether the call is given the context of `Setup`, or runs a command with it. -/
def Call.takesContext : Call → Bool
  | .host (.pull _) => true
  | .host (.installTools _) => true
  | .host .updateCACertificates => true
  | .host (.startService _) => true
  | .host (.restartService _) => true
  | .host (.startTimer _) => true
  | .host .waitEtcdForVault => true
  | .host .sync => true
  | .host _ => false
  | .getDebianVersion => false
  | .now => false
  | .writeFile _ _ => false
  | .startDev => true
  | .stopDev _ => false
  | .dev _ => false
  | .awaitSecret _ => false
  | .initVault => false
  | .unsealVault _ => false
  | .vault _ _ => false
  | .revokeSelf _ => false
  -- it looks at the context only when there is no leader
  | .waitVaultLeader _ => false
  | _ => true

/-- Whether the call uses etcd, or Vault, which stores everything there. -/
def Call.needsEtcd : Call → Bool
  | .host _ => false
  | .getDebianVersion => false
  | .now => false
  | .writeFile _ _ => false
  | .startDev => false
  | .stopDev _ => false
  | .dev _ => false
  | .awaitSecret _ => false
  | _ => true

def Call.canFail : Call → Bool
  | .now => false
  | .stopDev _ => false
  | _ => true

/-! ### The bootstrap authority -/

def bootstrapPath : String := "secret/bootstrap"

def bootstrapDonePath (lrn : Int) : String := "secret/bootstrap_done/" ++ itoa lrn

/-- `dumpCertFiles`; the file of the authority is left alone when its name is empty. -/
def dumpCertFiles (secret : Secret) (caFile : Option CA) (owner : Owner) : Prog Unit := do
  request (.writeFile (.cert owner) (secret.text (.cert owner)))
  request (.writeFile (.key owner) (secret.text (.key owner)))
  match caFile with
  | none => return
  | some ca => request (.writeFile (.ca ca) (secret.text (.ca ca)))

def issueLocalCerts (lrn : Int) : Prog Unit := do
  request (.host .hostname)
  request (.host .bastionIP)
  let secret ← request (.dev (.issue .server))
  dumpCertFiles secret (some .server) .server
  request (.host .updateCACertificates)
  let secret ← request (.dev (.issue .etcdPeer))
  dumpCertFiles secret (some .etcdPeer) .etcdPeer
  let secret ← request (.dev (.issue .etcdClient))
  dumpCertFiles secret (some .etcdClient) .vault
  request (.dev (.write (bootstrapDonePath lrn)))

def setupLocalCerts (lrn : Int) : Prog Unit := do
  let found ← request (.awaitSecret bootstrapPath)
  if found then issueLocalCerts lrn
  -- When the context is done the loop returns the error of its last read, which is nil if
  -- the secret was just not there: the caller goes on without certificates.
  else return

def createCA : Prog (List String) := do
  CA.all.forM fun ca => request (.dev (.mount ca))
  let serverPem ← request (.dev (.generateRoot .server))
  let peerPem ← request (.dev (.generateRoot .etcdPeer))
  let clientPem ← request (.dev (.generateRoot .etcdClient))
  request (.dev (.writeRole .server "1h"))
  request (.dev (.writeRole .etcdPeer "1h"))
  request (.dev (.writeRole .etcdClient "1h"))
  request (.dev .unmountSecret)
  request (.dev .mountSecret)
  request (.dev (.write bootstrapPath))
  return [serverPem, peerPem, clientPem]

/-- The loop of the leader for one server; here a done context is an error. -/
def awaitDone (lrn : Int) : Prog Unit := do
  let found ← request (.awaitSecret (bootstrapDonePath lrn))
  if found then return else .fail .fault

/-- The part of `prepareCA` during which the development server runs. -/
def signCerts (mylrn : Int) (lrns : List Int) : Prog (List String) := do
  let pems ← createCA
  setupLocalCerts mylrn
  lrns.forM awaitDone
  return pems

def prepareCA (isLeader : Bool) (mylrn : Int) (lrns : List Int) : Prog (List String) := do
  if !isLeader then
    setupLocalCerts mylrn
    return []
  else
    request .startDev
    let result ← (signCerts mylrn lrns).attempt
    let _ ← Prog.ask (.stopDev (result matches .ok _))
    match result with
    | .ok pems => return pems
    | .error e => .fail e

/-! ### etcd and Vault -/

/-- `etcd.Setup`. -/
def etcdSetup : Prog Unit := do
  request (.host (.writeFiles "etcd-container"))
  request (.host (.startService "etcd-container"))
  request (.host .waitEtcdForVault)

def setupVault : Prog Unit := do
  request (.host (.writeFiles "vault"))
  request (.host (.startService "vault"))

/-- `bootVault`; it returns the token that the client is left with. -/
def bootVault (pems : List String) : Prog Unit := do
  let (unsealKey, rootToken) ← request .initVault
  request (.unsealVault unsealKey)
  request (.vault rootToken (.setting (.enableAudit "stdout")))
  (CA.all.zip pems).forM fun (ca, pem) => do
    request (.vault rootToken (.mount ca))
    request (.vault rootToken (.configCA ca pem))
  request (.vault rootToken (.writeRole .server ttl10Year))
  request (.vault rootToken (.writeRole .etcdPeer ttl10Year))
  request (.vault rootToken (.writeRole .etcdClient ttl10Year))
  request (.vault rootToken (.writeHumanRole .etcdClient))
  request (.vault rootToken (.setting (.putPolicy "admin")))
  request (.vault rootToken (.setting (.putPolicy "ca-admin")))
  request (.vault rootToken (.setting (.enableAuth "approle")))
  request (.putVaultRootToken rootToken)
  request (.putVaultUnsealKey unsealKey)

def waitVault : Prog String := request .awaitVaultUnsealKey

def joinVault : Prog Unit := do
  let unsealKey ← waitVault
  setupVault
  request (.unsealVault unsealKey)

/-! ### The files of a boot server -/

def reissueCerts (token : String) : Prog Unit := do
  request (.host .hostname)
  let secret ← request (.vault token (.issue .server))
  dumpCertFiles secret none .server
  request (.host .bastionIP)
  let secret ← request (.vault token (.issue .etcdPeer))
  dumpCertFiles secret (some .etcdPeer) .etcdPeer
  let secret ← request (.vault token (.issue .etcdClient))
  dumpCertFiles secret (some .etcdClient) .vault

def setupEtcdBackup (token : String) : Prog Unit := do
  request (.host (.writeFiles "etcd-backup-dir"))
  let secret ← request (.vault token (.issue .etcdClient))
  dumpCertFiles secret none .etcdBackup
  request (.host (.writeFiles "etcd-backup"))
  request (.host (.startTimer "etcd-backup"))

def setupNecoFiles (token : String) : Prog Unit := do
  let secret ← request (.vault token (.issue .etcdClient))
  dumpCertFiles secret none .neco
  request (.host .updateNecoConfig)

/-! ### `Setup` -/

/-- The arguments of `Setup` beside the LRNs. -/
structure Options where
  revoke : Bool
  proxy : String
  ghToken : String
  deriving DecidableEq, Repr

/-- An `if` without an `else`. -/
def onlyIf (c : Bool) (p : Prog Unit) : Prog Unit := if c then p else return

def installTools (name : String) : Prog Unit := do
  request (.host (.findContainerImage name))
  request (.host (.pull name))
  request (.host (.installTools name))

/-- `Setup` up to the first barrier. -/
def register (mylrn : Int) (token : String) : Prog Unit := do
  reissueCerts token
  setupEtcdBackup token
  setupNecoFiles token
  request (.registerBootserver mylrn)
  request (.recordContainerTag mylrn "etcd")
  request (.recordContainerTag mylrn "vault")
  request (.finish mylrn .beforeRestart)
  request (.awaitFinished .beforeRestart)

def restartServers (mylrn : Int) (token : String) : Prog Unit := do
  request (.host (.restartService "etcd-container"))
  request (.host .waitEtcdForVault)
  request (.host (.restartService "vault"))
  request (.waitVaultLeader token)
  request (.finish mylrn .afterRestart)
  request (.awaitFinished .afterRestart)

def revokeRootToken (token : String) : Prog Unit := do
  request (.revokeSelf token)
  request .deleteVaultRootToken

def enableEtcdAuth : Prog Unit := do
  request (.userAdd "root" "")
  request (.userAdd "backup" "")
  request (.userAdd "vault" "/vault/")
  request (.userAdd "neco" "")
  request .authEnable

/-- What only the leader does, after the second barrier. -/
def putFirstRequest (b : BootServers) (opts : Options) (token : String) : Prog Unit := do
  let ver ← request .getDebianVersion
  request (.updateNecoRelease ver)
  onlyIf (opts.proxy != "") (request (.putProxyConfig opts.proxy))
  let startedAt ← request .now
  request (.putRequest (Setup.firstRequest b ver startedAt))
  onlyIf opts.revoke (revokeRootToken token)
  enableEtcdAuth
  onlyIf (opts.ghToken != "") (request (.putGitHubToken opts.ghToken))

def isLeader (b : BootServers) (lrn : Int) : Bool := (sortInts b.lrns).head? = some lrn

/-- Vault comes up on the leader first. -/
def startVault (isLeader : Bool) (pems : List String) : Prog Unit :=
  if isLeader then do
    setupVault
    bootVault pems
  else joinVault

def startServices : Prog Unit := do
  -- the result of `sync` is not looked at
  let _ ← Prog.ask (.host .sync)
  request (.host (.startService "neco-worker"))
  request (.host (.startService "neco-updater"))

/-- `Setup` from the point where Vault is running. -/
def completeSetup (b : BootServers) (opts : Options) (mylrn : Int) : Prog Unit := do
  let rootToken ← request .getVaultRootToken
  register mylrn rootToken
  restartServers mylrn rootToken
  onlyIf (isLeader b mylrn) (putFirstRequest b opts rootToken)
  startServices

def setup (b : BootServers) (opts : Options) (mylrn : Int) : Prog Unit := do
  request (.host .getContainerRuntime)
  installTools "etcd"
  installTools "vault"
  request (.host .myLRN)
  let pems ← prepareCA (isLeader b mylrn) mylrn (sortInts b.lrns)
  etcdSetup
  startVault (isLeader b mylrn) pems
  completeSetup b opts mylrn

end Neco.Bootstrap
