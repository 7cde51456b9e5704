import Neco.Setup.Bootstrap
import Mathlib.Logic.Function.Basic

/-!
# Vault, as the setup knows it

Vault is not part of the repository. `Vault` stands for any implementation: its states are not
looked into, and `Vault.Documented` lists what the setup takes from the documentation of Vault.
A request is promised to be served only where the documentation says so; what becomes of any
other request is left open, so that `Setup` has to avoid it.
-/

namespace Neco.Bootstrap

/-- The token of the development server, `-dev-root-token-id`. -/
def devRootToken : String := "cybozu"

/-- What the documentation tells about a state of Vault. -/
structure Contents where
  /-- The authorities whose `pki` engine is mounted. -/
  mounted : CA → Bool
  roots : CA → Option String
  /-- The lifetime of certificates of the role `system`. -/
  roles : CA → Option String
  /-- The audit devices, policies and authentication methods. -/
  settings : List Setting
  /-- The version of the key-value engine at `secret`. -/
  engine : Option Nat
  /-- The paths at which a secret is found. -/
  secrets : List String
  /-- The unseal key, once Vault is initialised. -/
  unsealKey : Option String
  /-- The root tokens that have not been revoked. -/
  tokens : List String

namespace Contents

def uninitialised : Contents := ⟨fun _ => false, fun _ => none, fun _ => none, [], none, [], none, []⟩

/-- A development server starts with an engine of version 2 at `secret`. -/
def development : Contents := { uninitialised with engine := some 2, tokens := [devRootToken] }

def initialised (unsealKey rootToken : String) : Contents :=
  { uninitialised with unsealKey := some unsealKey, tokens := [rootToken] }

/-- Where a request is promised to be served. -/
def Admits (c : Contents) : VaultOp → Prop
  | .mount ca => c.mounted ca = false
  | .generateRoot ca => c.mounted ca = true ∧ c.roots ca = none
  | .configCA ca _ => c.mounted ca = true ∧ c.roots ca = none
  | .writeRole ca _ => c.mounted ca = true
  | .writeHumanRole ca => c.mounted ca = true
  | .issue ca => (c.roots ca).isSome = true ∧ (c.roles ca).isSome = true
  | .unmountSecret => c.engine.isSome = true
  | .mountSecret => c.engine = none
  | .write _ => c.engine = some 1
  | .setting x => x ∉ c.settings

instance (c : Contents) : DecidablePred c.Admits := fun op => by
  cases op <;> simp only [Admits] <;> infer_instance

/-- What is promised about the answer to a request: a certificate comes from the root of its
authority and lives as long as the role says. -/
def Answers (c : Contents) : (op : VaultOp) → op.Value → Prop
  | .issue ca, secret => c.roots ca = some secret.signer ∧ c.roles ca = some secret.ttl
  | _, _ => True

/-- The contents after a request was served. -/
def after (c : Contents) : (op : VaultOp) → op.Value → Contents
  | .mount ca, _ => { c with mounted := Function.update c.mounted ca true }
  | .generateRoot ca, pem => { c with roots := Function.update c.roots ca (some pem) }
  | .configCA ca pem, _ => { c with roots := Function.update c.roots ca (some pem) }
  | .writeRole ca ttl, _ => { c with roles := Function.update c.roles ca (some ttl) }
  | .writeHumanRole _, _ => c
  | .issue _, _ => c
  | .unmountSecret, _ => { c with engine := none, secrets := [] }
  | .mountSecret, _ => { c with engine := some 1 }
  | .write path, _ => { c with secrets := path :: c.secrets }
  | .setting x, _ => { c with settings := x :: c.settings }

end Contents

/-- An implementation of Vault. The development server keeps its state in memory, the servers of
the real Vault share one in etcd. -/
structure Vault where
  State : Type
  /-- What Vault is free to choose: keys, serial numbers, and how it behaves where nothing is
  promised. -/
  Chance : Type
  chances : Nonempty Chance
  contents : State → Contents
  development : State
  uninitialised : State
  /-- The answer is the unseal key and the root token. -/
  init : Chance → State → Option ((String × String) × State)
  unseals : State → String → Bool
  /-- A request with a token; `none` stands for an error. -/
  handle : Chance → State → String → (op : VaultOp) → Option (op.Value × State)
  revokeSelf : Chance → State → String → Option State

namespace Vault

/-- Whatever Vault chooses, it serves the request, with an answer and contents as promised. -/
def Serves (V : Vault) (s : V.State) (token : String) (op : VaultOp)
    (promised : op.Value → Contents → Prop) : Prop :=
  ∀ chance, ∃ x t, V.handle chance s token op = some (x, t) ∧ promised x (V.contents t)

/-- What the setup takes from the documentation of Vault. The requests are made with a root
token that is in force. -/
class Documented (V : Vault) : Prop where
  /-- `vault server -dev` starts initialised and unsealed. -/
  development : V.contents V.development = .development
  /-- Nothing is stored in a new etcd. -/
  uninitialised : V.contents V.uninitialised = .uninitialised
  /-- Vault is initialised once, with one key share. -/
  init : ∀ chance s, V.contents s = .uninitialised → ∃ key token t,
    V.init chance s = some ((key, token), t) ∧ V.contents t = .initialised key token
  /-- One key share is enough to unseal a server. -/
  unsealing : ∀ s key, (V.contents s).unsealKey = some key → V.unseals s key = true
  /-- An engine can be mounted where there is none. -/
  mount : ∀ s token ca, token ∈ (V.contents s).tokens → (V.contents s).mounted ca = false →
    V.Serves s token (.mount ca) fun _ c => c =
      { V.contents s with mounted := Function.update (V.contents s).mounted ca true }
  /-- A root is generated and returned by an engine that has none. -/
  generateRoot : ∀ s token ca, token ∈ (V.contents s).tokens →
    (V.contents s).mounted ca = true → (V.contents s).roots ca = none →
    V.Serves s token (.generateRoot ca) fun pem c => c =
      { V.contents s with roots := Function.update (V.contents s).roots ca (some pem) }
  /-- Such an engine also takes a root from outside. -/
  configCA : ∀ s token ca pem, token ∈ (V.contents s).tokens →
    (V.contents s).mounted ca = true → (V.contents s).roots ca = none →
    V.Serves s token (.configCA ca pem) fun _ c => c =
      { V.contents s with roots := Function.update (V.contents s).roots ca (some pem) }
  /-- The role `system` is written, or overwritten. -/
  writeRole : ∀ s token ca ttl, token ∈ (V.contents s).tokens → (V.contents s).mounted ca = true →
    V.Serves s token (.writeRole ca ttl) fun _ c => c =
      { V.contents s with roles := Function.update (V.contents s).roles ca (some ttl) }
  /-- Other roles do not matter here. -/
  writeHumanRole : ∀ s token ca, token ∈ (V.contents s).tokens → (V.contents s).mounted ca = true →
    V.Serves s token (.writeHumanRole ca) fun _ c => c = V.contents s
  /-- An authority with a root issues certificates of its role. -/
  issue : ∀ s token ca signer ttl, token ∈ (V.contents s).tokens →
    (V.contents s).roots ca = some signer → (V.contents s).roles ca = some ttl →
    V.Serves s token (.issue ca) fun secret c =>
      secret.signer = signer ∧ secret.ttl = ttl ∧ c = V.contents s
  /-- The secrets go with their engine. -/
  unmountSecret : ∀ s token, token ∈ (V.contents s).tokens → (V.contents s).engine.isSome = true →
    V.Serves s token .unmountSecret fun _ c => c =
      { V.contents s with engine := none, secrets := [] }
  mountSecret : ∀ s token, token ∈ (V.contents s).tokens → (V.contents s).engine = none →
    V.Serves s token .mountSecret fun _ c => c = { V.contents s with engine := some 1 }
  /-- A secret is found at the path at which it is written, for an engine of version 1. -/
  write : ∀ s token path, token ∈ (V.contents s).tokens → (V.contents s).engine = some 1 →
    V.Serves s token (.write path) fun _ c => c =
      { V.contents s with secrets := path :: (V.contents s).secrets }
  /-- An audit device, a policy or a method is new. -/
  setting : ∀ s token x, token ∈ (V.contents s).tokens → x ∉ (V.contents s).settings →
    V.Serves s token (.setting x) fun _ c => c =
      { V.contents s with settings := x :: (V.contents s).settings }
  /-- A token can revoke itself. -/
  revokeSelf : ∀ chance s token, token ∈ (V.contents s).tokens → ∃ t,
    V.revokeSelf chance s token = some t ∧
      V.contents t = { V.contents s with tokens := (V.contents s).tokens.filter (· ≠ token) }

variable {V : Vault} {s t : V.State} {token : String} {op : VaultOp} {chance : V.Chance}

/-- The promises for all requests together. -/
theorem serves [V.Documented] (valid : token ∈ (V.contents s).tokens)
    (admitted : (V.contents s).Admits op) : V.Serves s token op fun x c =>
      (V.contents s).Answers op x ∧ c = (V.contents s).after op x := by
  intro chance
  cases op with
  | mount ca =>
    obtain ⟨x, t, served, result⟩ := Documented.mount s token ca valid admitted chance
    exact ⟨x, t, served, trivial, result⟩
  | generateRoot ca =>
    obtain ⟨x, t, served, result⟩ :=
      Documented.generateRoot s token ca valid admitted.1 admitted.2 chance
    exact ⟨x, t, served, trivial, result⟩
  | configCA ca pem =>
    obtain ⟨x, t, served, result⟩ :=
      Documented.configCA s token ca pem valid admitted.1 admitted.2 chance
    exact ⟨x, t, served, trivial, result⟩
  | writeRole ca ttl =>
    obtain ⟨x, t, served, result⟩ := Documented.writeRole s token ca ttl valid admitted chance
    exact ⟨x, t, served, trivial, result⟩
  | writeHumanRole ca =>
    obtain ⟨x, t, served, result⟩ := Documented.writeHumanRole s token ca valid admitted chance
    exact ⟨x, t, served, trivial, result⟩
  | issue ca =>
    obtain ⟨signer, root⟩ := Option.isSome_iff_exists.mp admitted.1
    obtain ⟨ttl, role⟩ := Option.isSome_iff_exists.mp admitted.2
    obtain ⟨x, t, served, rfl, rfl, result⟩ :=
      Documented.issue s token ca signer ttl valid root role chance
    exact ⟨x, t, served, ⟨root, role⟩, result⟩
  | unmountSecret =>
    obtain ⟨x, t, served, result⟩ := Documented.unmountSecret s token valid admitted chance
    exact ⟨x, t, served, trivial, result⟩
  | mountSecret =>
    obtain ⟨x, t, served, result⟩ := Documented.mountSecret s token valid admitted chance
    exact ⟨x, t, served, trivial, result⟩
  | write path =>
    obtain ⟨x, t, served, result⟩ := Documented.write s token path valid admitted chance
    exact ⟨x, t, served, trivial, result⟩
  | setting x =>
    obtain ⟨x, t, served, result⟩ := Documented.setting s token x valid admitted chance
    exact ⟨x, t, served, trivial, result⟩

/-- What is known when a promised request has been served. -/
theorem served [V.Documented] (valid : token ∈ (V.contents s).tokens)
    (admitted : (V.contents s).Admits op) {x : op.Value}
    (served : V.handle chance s token op = some (x, t)) :
    (V.contents s).Answers op x ∧ V.contents t = (V.contents s).after op x := by
  obtain ⟨y, u, answered, promised⟩ := serves valid admitted chance
  cases served.symm.trans answered
  exact promised

end Vault

/-! ### A Vault that stores its contents -/

namespace Contents

/-- The serial number of a certificate tells nothing here. -/
def answer (c : Contents) (fresh : String) : (op : VaultOp) → op.Value
  | .generateRoot _ => fresh
  | .issue ca => ⟨(c.roots ca).getD "", 0, (c.roles ca).getD ""⟩
  | .mount _ => ()
  | .configCA _ _ => ()
  | .writeRole _ _ => ()
  | .writeHumanRole _ => ()
  | .unmountSecret => ()
  | .mountSecret => ()
  | .write _ => ()
  | .setting _ => ()

end Contents

/-- It chooses the strings that it creates, and answers every request that is not promised to be
served with an error. -/
def plainVault : Vault where
  State := Contents
  Chance := String × String
  chances := ⟨("", "")⟩
  contents := id
  development := .development
  uninitialised := .uninitialised
  init chance c :=
    if c.unsealKey.isNone then some (chance, .initialised chance.1 chance.2) else none
  unseals c key := c.unsealKey == some key
  handle chance c token op :=
    if token ∈ c.tokens ∧ c.Admits op then
      some (c.answer chance.1 op, c.after op (c.answer chance.1 op))
    else none
  revokeSelf _ c token :=
    if token ∈ c.tokens then some { c with tokens := c.tokens.filter (· ≠ token) } else none

theorem plainVault_serves {c : Contents} {token : String} (valid : token ∈ c.tokens)
    (op : VaultOp) (admitted : c.Admits op) (chance : String × String) :
    plainVault.handle chance c token op =
      some (c.answer chance.1 op, c.after op (c.answer chance.1 op)) :=
  if_pos ⟨valid, admitted⟩

instance plainVault_documented : plainVault.Documented where
  development := rfl
  uninitialised := rfl
  init chance s new := by
    refine ⟨chance.1, chance.2, .initialised chance.1 chance.2, ?_, rfl⟩
    have new : s = .uninitialised := new
    subst new
    rfl
  unsealing s key known := beq_iff_eq.mpr known
  mount s token ca valid free chance := ⟨_, _, plainVault_serves valid (.mount ca) free chance, rfl⟩
  generateRoot s token ca valid mounted free chance :=
    ⟨_, _, plainVault_serves valid (.generateRoot ca) ⟨mounted, free⟩ chance, rfl⟩
  configCA s token ca pem valid mounted free chance :=
    ⟨_, _, plainVault_serves valid (.configCA ca pem) ⟨mounted, free⟩ chance, rfl⟩
  writeRole s token ca ttl valid mounted chance :=
    ⟨_, _, plainVault_serves valid (.writeRole ca ttl) mounted chance, rfl⟩
  writeHumanRole s token ca valid mounted chance :=
    ⟨_, _, plainVault_serves valid (.writeHumanRole ca) mounted chance, rfl⟩
  issue s token ca signer ttl valid root role chance := by
    refine ⟨_, _, plainVault_serves valid (.issue ca) ⟨?_, ?_⟩ chance, ?_, ?_, rfl⟩
    · rw [root]
      rfl
    · rw [role]
      rfl
    · rw [Contents.answer, root]
      rfl
    · rw [Contents.answer, role]
      rfl
  unmountSecret s token valid there chance :=
    ⟨_, _, plainVault_serves valid .unmountSecret there chance, rfl⟩
  mountSecret s token valid free chance :=
    ⟨_, _, plainVault_serves valid .mountSecret free chance, rfl⟩
  write s token path valid engine chance :=
    ⟨_, _, plainVault_serves valid (.write path) engine chance, rfl⟩
  setting s token x valid new chance :=
    ⟨_, _, plainVault_serves valid (.setting x) new chance, rfl⟩
  revokeSelf chance s token valid := ⟨_, if_pos valid, rfl⟩

end Neco.Bootstrap
