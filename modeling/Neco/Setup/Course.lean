import Neco.Setup.Permits
import Neco.Lib.Progress

/-!
# How far a server has come in the setup

A server waits for another in five places only. `Place` says how far it has come, and `Proceeds`
that it makes each call where it belongs and comes to the last place when nothing fails.
-/

namespace Neco.Bootstrap

open Program Neco.Setup

variable {b : BootServers} {lrn : Int}

/-! ### Places -/

/-- How far a server has come in `Setup`. -/
inductive Place where
  | start
  /-- The leader has told that the authorities are there. -/
  | announced
  /-- The server has told that it has its certificates. -/
  | signed
  /-- The leader has stopped the development server. -/
  | stopped
  /-- The leader has published the unseal key. -/
  | published
  | finished (stage : Stage)
  deriving DecidableEq, Repr

/-- Where a call leads to. -/
def Place.after (k : Place) : Call → Place
  | .dev (.write path) => if path = bootstrapPath then .announced else .signed
  | .stopDev _ => .stopped
  | .putVaultUnsealKey _ => .published
  | .finish _ stage => .finished stage
  | _ => k

/-- Where a server asks for its first certificates. -/
def Place.asking (isLeader : Bool) : Place := if isLeader then .announced else .start

/-- Where a server asks for those of Vault. -/
def Place.joined (isLeader : Bool) : Place := if isLeader then .published else .signed

/-- The places at which a server waits or goes on to the next place. -/
def Place.fits (b : BootServers) (lrn : Int) (k : Place) : Call → Prop
  | .startDev => k = .start
  | .awaitSecret path => path = bootstrapPath ∧ k = .asking (isLeader b lrn) ∨
      isLeader b lrn = true ∧ k = .signed ∧ ∃ i ∈ b.lrns, path = bootstrapDonePath i
  | .dev (.write path) => path = bootstrapPath ∧ k = .start ∧ isLeader b lrn = true ∨
      path = bootstrapDonePath lrn ∧ k = .asking (isLeader b lrn)
  | .stopDev succeeded => succeeded = true ∧ k = .signed
  | .putVaultUnsealKey _ => k = .stopped
  | .awaitVaultUnsealKey => k = .signed ∧ isLeader b lrn = false
  | .finish _ .beforeRestart => k = .joined (isLeader b lrn)
  | .finish _ .afterRestart => k = .finished .beforeRestart
  | .awaitFinished stage => k = .finished stage
  | _ => True

/-- The values that are returned when nothing fails: a secret is read when it is there. -/
def Usual : (c : Call) → Value c → Prop
  | .awaitSecret _, found => found = true
  | _, _ => True

def course (b : BootServers) (lrn : Int) : Course Call Reply Place where
  expected c r := ∃ v, r = .ok v ∧ Usual c v
  fits k c := k.fits b lrn c
  after := Place.after

abbrev Proceeds {α : Type} (b : BootServers) (lrn : Int) (k : Place) (p : Prog α) (k' : Place) :
    Prop :=
  Advances (course b lrn) k p fun _ => (· = k')

theorem Proceeds.bind {α β : Type} {k k' k'' : Place} {p : Prog α} {f : α → Prog β}
    (first : Proceeds b lrn k p k') (rest : ∀ a, Proceeds b lrn k' (f a) k'') :
    Proceeds b lrn k (p >>= f) k'' := by
  refine Advances.bind first fun a k same => ?_
  subst same
  exact rest a

theorem proceeds_request {k k' : Place} {c : Call} (fits : k.fits b lrn c)
    (leads : k.after c = k') :
    Proceeds b lrn k (request c) k' := by
  refine ⟨fits, ?_⟩
  rintro r ⟨v, rfl, _⟩
  exact leads

/-- A call that belongs everywhere and leads nowhere. -/
def Call.plain : Call → Bool
  | .startDev => false
  | .awaitSecret _ => false
  | .dev (.write _) => false
  | .stopDev _ => false
  | .putVaultUnsealKey _ => false
  | .awaitVaultUnsealKey => false
  | .finish _ _ => false
  | .awaitFinished _ => false
  | _ => true

theorem proceeds_plain {k : Place} {c : Call} (plain : c.plain = true) :
    Proceeds b lrn k (request c) k := by
  have stays : k.fits b lrn c ∧ k.after c = k := by
    cases c with
    | dev op =>
      cases op with
      | write path => cases plain
      | _ => exact ⟨trivial, rfl⟩
    | finish i stage => cases plain
    | startDev => cases plain
    | awaitSecret path => cases plain
    | stopDev succeeded => cases plain
    | putVaultUnsealKey key => cases plain
    | awaitVaultUnsealKey => cases plain
    | awaitFinished stage => cases plain
    | _ => exact ⟨trivial, rfl⟩
  exact proceeds_request stays.1 stays.2

theorem proceeds_forM {ι : Type} {k : Place} {f : ι → Prog Unit} (xs : List ι)
    (body : ∀ x ∈ xs, Proceeds b lrn k (f x) k) : Proceeds b lrn k (xs.forM f) k :=
  Advances.forM xs body

theorem proceeds_onlyIf {k : Place} {c : Bool} {p : Prog Unit} (body : Proceeds b lrn k p k) :
    Proceeds b lrn k (onlyIf c p) k := by
  cases c with
  | true => exact body
  | false => rfl

/-! ### `Setup` gets from place to place -/

section Parts

variable {k : Place}

theorem proceeds_installTools (name : String) : Proceeds b lrn k (installTools name) k :=
  (proceeds_plain rfl).bind fun _ => (proceeds_plain rfl).bind fun _ => proceeds_plain rfl

theorem proceeds_dumpCertFiles (secret : Secret) (caFile : Option CA) (owner : Owner) :
    Proceeds b lrn k (dumpCertFiles secret caFile owner) k := by
  refine (proceeds_plain rfl).bind fun _ => (proceeds_plain rfl).bind fun _ => ?_
  cases caFile with
  | none => rfl
  | some ca => exact proceeds_plain rfl

theorem proceeds_writeDone : Proceeds b lrn (.asking (isLeader b lrn))
    (request (.dev (.write (bootstrapDonePath lrn)))) .signed := by
  apply proceeds_request
  · exact .inr ⟨rfl, rfl⟩
  · rw [Place.after, if_neg (bootstrapDonePath_ne lrn)]

theorem proceeds_issueLocalCerts :
    Proceeds b lrn (.asking (isLeader b lrn)) (issueLocalCerts lrn) .signed := by
  refine (proceeds_plain rfl).bind fun _ => (proceeds_plain rfl).bind fun _ => ?_
  refine (proceeds_plain rfl).bind fun _ => (proceeds_dumpCertFiles ..).bind fun _ => ?_
  refine (proceeds_plain rfl).bind fun _ => (proceeds_plain rfl).bind fun _ => ?_
  refine (proceeds_dumpCertFiles ..).bind fun _ => (proceeds_plain rfl).bind fun _ => ?_
  exact (proceeds_dumpCertFiles ..).bind fun _ => proceeds_writeDone

theorem proceeds_setupLocalCerts :
    Proceeds b lrn (.asking (isLeader b lrn)) (setupLocalCerts lrn) .signed := by
  refine ⟨.inl ⟨rfl, rfl⟩, ?_⟩
  rintro r ⟨found, rfl, there⟩
  -- Without a signal the loop ends only when the secret is there.
  cases there
  exact proceeds_issueLocalCerts

theorem proceeds_createCA (leader : isLeader b lrn = true) :
    Proceeds b lrn .start createCA .announced := by
  refine (proceeds_forM _ fun _ _ => proceeds_plain rfl).bind fun _ => ?_
  iterate 8 refine (proceeds_plain rfl).bind fun _ => ?_
  have announce : Proceeds b lrn .start (request (.dev (.write bootstrapPath))) .announced := by
    apply proceeds_request
    · exact .inl ⟨rfl, rfl, leader⟩
    · rw [Place.after, if_pos rfl]
  exact announce.bind fun _ => rfl

theorem proceeds_awaitDone (leader : isLeader b lrn = true) {i : Int} (member : i ∈ b.lrns) :
    Proceeds b lrn .signed (awaitDone i) .signed := by
  refine ⟨.inr ⟨leader, rfl, i, member, rfl⟩, ?_⟩
  rintro r ⟨found, rfl, there⟩
  cases there
  rfl

theorem proceeds_signCerts (leader : isLeader b lrn = true) :
    Proceeds b lrn .start (signCerts lrn (sortInts b.lrns)) .signed := by
  have asking : Place.asking (isLeader b lrn) = .announced := by rw [leader]; rfl
  refine (proceeds_createCA leader).bind fun _ => ?_
  refine (asking ▸ proceeds_setupLocalCerts).bind fun _ => ?_
  refine (proceeds_forM _ fun i member => ?_).bind fun _ => rfl
  exact proceeds_awaitDone leader (mem_sortInts.mp member)

theorem proceeds_prepareCA_leader (leader : isLeader b lrn = true) :
    Proceeds b lrn .start (prepareCA true lrn (sortInts b.lrns)) .stopped := by
  refine (proceeds_request (c := .startDev) rfl rfl).bind fun _ => ?_
  refine Advances.bind (proceeds_signCerts leader).attempt ?_
  rintro _ _ ⟨pems, rfl, rfl⟩
  exact ⟨⟨rfl, rfl⟩, fun r _ => rfl⟩

theorem proceeds_prepareCA_follower (follower : isLeader b lrn = false) :
    Proceeds b lrn .start (prepareCA false lrn (sortInts b.lrns)) .signed := by
  have asking : Place.asking (isLeader b lrn) = .start := by rw [follower]; rfl
  exact (asking ▸ proceeds_setupLocalCerts).bind fun _ => rfl

theorem proceeds_setupVault : Proceeds b lrn k setupVault k :=
  (proceeds_plain rfl).bind fun _ => proceeds_plain rfl

theorem proceeds_bootVault (pems : List String) :
    Proceeds b lrn .stopped (bootVault pems) .published := by
  refine (proceeds_plain rfl).bind fun keys => ?_
  refine (proceeds_plain rfl).bind fun _ => (proceeds_plain rfl).bind fun _ => ?_
  refine (proceeds_forM _ fun _ _ => (proceeds_plain rfl).bind fun _ => proceeds_plain rfl).bind
    fun _ => ?_
  iterate 8 refine (proceeds_plain rfl).bind fun _ => ?_
  exact proceeds_request rfl rfl

theorem proceeds_joinVault (follower : isLeader b lrn = false) :
    Proceeds b lrn .signed joinVault .signed :=
  (proceeds_request (c := .awaitVaultUnsealKey) ⟨rfl, follower⟩ rfl).bind fun _ =>
    proceeds_setupVault.bind fun _ => proceeds_plain rfl

theorem proceeds_reissueCerts (token : String) : Proceeds b lrn k (reissueCerts token) k := by
  refine (proceeds_plain rfl).bind fun _ => (proceeds_plain rfl).bind fun _ => ?_
  refine (proceeds_dumpCertFiles ..).bind fun _ => (proceeds_plain rfl).bind fun _ => ?_
  refine (proceeds_plain rfl).bind fun _ => (proceeds_dumpCertFiles ..).bind fun _ => ?_
  exact (proceeds_plain rfl).bind fun _ => proceeds_dumpCertFiles ..

theorem proceeds_setupEtcdBackup (token : String) : Proceeds b lrn k (setupEtcdBackup token) k := by
  refine (proceeds_plain rfl).bind fun _ => (proceeds_plain rfl).bind fun _ => ?_
  refine (proceeds_dumpCertFiles ..).bind fun _ => ?_
  exact (proceeds_plain rfl).bind fun _ => proceeds_plain rfl

theorem proceeds_setupNecoFiles (token : String) : Proceeds b lrn k (setupNecoFiles token) k :=
  (proceeds_plain rfl).bind fun _ => (proceeds_dumpCertFiles ..).bind fun _ => proceeds_plain rfl

theorem proceeds_register (token : String) :
    Proceeds b lrn (.joined (isLeader b lrn)) (register lrn token) (.finished .beforeRestart) := by
  refine (proceeds_reissueCerts token).bind fun _ => (proceeds_setupEtcdBackup token).bind fun _ => ?_
  refine (proceeds_setupNecoFiles token).bind fun _ => (proceeds_plain rfl).bind fun _ => ?_
  refine (proceeds_plain rfl).bind fun _ => (proceeds_plain rfl).bind fun _ => ?_
  exact (proceeds_request (c := .finish lrn .beforeRestart) rfl rfl).bind fun _ =>
    proceeds_request rfl rfl

theorem proceeds_restartServers (token : String) : Proceeds b lrn (.finished .beforeRestart)
    (restartServers lrn token) (.finished .afterRestart) := by
  iterate 4 refine (proceeds_plain rfl).bind fun _ => ?_
  exact (proceeds_request (c := .finish lrn .afterRestart) rfl rfl).bind fun _ =>
    proceeds_request rfl rfl

theorem proceeds_revokeRootToken (token : String) : Proceeds b lrn k (revokeRootToken token) k :=
  (proceeds_plain rfl).bind fun _ => proceeds_plain rfl

theorem proceeds_enableEtcdAuth : Proceeds b lrn k enableEtcdAuth k := by
  iterate 4 refine (proceeds_plain rfl).bind fun _ => ?_
  exact proceeds_plain rfl

theorem proceeds_putFirstRequest (opts : Options) (token : String) :
    Proceeds b lrn k (putFirstRequest b opts token) k := by
  refine (proceeds_plain rfl).bind fun _ => (proceeds_plain rfl).bind fun _ => ?_
  refine (proceeds_onlyIf (proceeds_plain rfl)).bind fun _ => ?_
  refine (proceeds_plain rfl).bind fun _ => (proceeds_plain rfl).bind fun _ => ?_
  refine (proceeds_onlyIf (proceeds_revokeRootToken token)).bind fun _ => ?_
  exact proceeds_enableEtcdAuth.bind fun _ => proceeds_onlyIf (proceeds_plain rfl)

theorem proceeds_startServices : Proceeds b lrn k startServices k := by
  refine ⟨trivial, fun _ _ => ?_⟩
  exact (proceeds_plain rfl).bind fun _ => proceeds_plain rfl

theorem proceeds_completeSetup (opts : Options) : Proceeds b lrn (.joined (isLeader b lrn))
    (completeSetup b opts lrn) (.finished .afterRestart) := by
  refine (proceeds_plain rfl).bind fun token => (proceeds_register token).bind fun _ => ?_
  refine (proceeds_restartServers token).bind fun _ => ?_
  refine (proceeds_onlyIf (proceeds_putFirstRequest opts token)).bind fun _ => ?_
  exact proceeds_startServices

theorem proceeds_setup (opts : Options) :
    Proceeds b lrn .start (setup b opts lrn) (.finished .afterRestart) := by
  refine (proceeds_plain rfl).bind fun _ => (proceeds_installTools _).bind fun _ => ?_
  refine (proceeds_installTools _).bind fun _ => (proceeds_plain rfl).bind fun _ => ?_
  have etcd (k : Place) : Proceeds b lrn k etcdSetup k :=
    (proceeds_plain rfl).bind fun _ => (proceeds_plain rfl).bind fun _ => proceeds_plain rfl
  have complete : Proceeds b lrn (.joined (isLeader b lrn)) (completeSetup b opts lrn)
      (.finished .afterRestart) := proceeds_completeSetup opts
  cases leads : isLeader b lrn with
  | true =>
    rw [leads] at complete
    refine (proceeds_prepareCA_leader leads).bind fun pems => (etcd _).bind fun _ => ?_
    refine Proceeds.bind ?_ fun _ => complete
    exact proceeds_setupVault.bind fun _ => proceeds_bootVault pems
  | false =>
    rw [leads] at complete
    refine (proceeds_prepareCA_follower leads).bind fun _ => (etcd _).bind fun _ => ?_
    exact (proceeds_joinVault leads).bind fun _ => complete

end Parts

end Neco.Bootstrap
