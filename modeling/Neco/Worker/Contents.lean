import Neco.Lib.Program
import Neco.Lib.Run
import Neco.Update
import Mathlib.Logic.Function.Basic

/-!
# The steps that update shared contents

Five steps of an update change something that all boot servers share. Every worker runs
such a step: it is elected, looks at the recorded outcome for the version, and acts and
records the outcome when there is none. Each storage operation is one step of the system,
and any worker may take the next one.
-/

namespace Neco.Contents

/-- `neco.ContentsUpdateStatus`. -/
structure ContentsUpdateStatus where
  version : String
  success : Bool
  deriving DecidableEq, Repr

inductive Error where
  | notFound
  | noLeader
  | failed (message : String)
  deriving DecidableEq, Repr

/-- The actions on the shared contents. -/
inductive Upload where
  | sabakanContents
  | ckeContents
  | ckeTemplate
  | dhcpJSON
  | userResources
  deriving DecidableEq, Repr

/-- What a step asks of its environment. `putLeaderKey` and `waitDeletes` are the two halves
of `Election.Campaign`: the key of the session is put under the prefix of the election, and
the call returns when all older keys are gone. -/
inductive Call where
  | isActiveService (service : String)
  | stat (file : String)
  | newSession
  | putLeaderKey
  | waitDeletes
  | getContentsUpdateStatus (key : String)
  | upload (action : Upload)
  | putContentsUpdateStatus (key : String) (st : ContentsUpdateStatus)
  | resign
  | closeSession
  deriving DecidableEq, Repr

@[reducible] def Reply : Call → Type
  | .isActiveService _ => Except Error Bool
  -- whether the file exists
  | .stat _ => Except Error Bool
  | .newSession => Except Error Unit
  | .putLeaderKey => Except Error Unit
  | .waitDeletes => Except Error Unit
  | .getContentsUpdateStatus _ => Except Error ContentsUpdateStatus
  | .upload _ => Except Error Unit
  | .putContentsUpdateStatus _ _ => Except Error Unit
  | .resign => Unit
  | .closeSession => Unit

/-- A step returns its error as a value. -/
abbrev Prog := Program.Prog Call Reply Empty (Except Error Unit)

/-! ### The steps -/

/-- The election around a step: `Resign` and `Close` are deferred, so they run however the
body returns. -/
def asLeader (body : Prog) : Prog :=
  .call .newSession fun
  | .error err => .ret (.error err)
  | .ok () => .call .putLeaderKey fun
    | .error err => .call .closeSession fun _ => .ret (.error err)
    | .ok () => .call .waitDeletes fun
      | .error err => .call .closeSession fun _ => .ret (.error err)
      | .ok () => do
        let result ← body
        .call .resign fun _ => .call .closeSession fun _ => .ret result

/-- The look at what a preceding worker has recorded for the version. -/
def unlessRecorded (key version message : String) (act : Prog) : Prog :=
  .call (.getContentsUpdateStatus key) fun
  | .error .notFound => act
  | .error err => .ret (.error err)
  | .ok status =>
    if status.version = version then
      if status.success then .ret (.ok ()) else .ret (.error (.failed message))
    else act

/-- Records the outcome `err` of the action; `err` is more important than the outcome of the
put. -/
def record (key version : String) (err : Except Error Unit) : Prog :=
  .call (.putContentsUpdateStatus key ⟨version, err.isOk⟩) fun err2 =>
    match err with
    | .error err => .ret (.error err)
    | .ok () => .ret err2

/-- Four of the five steps: the service they need, the key of the outcome, the action, and
the error for a worker that finds a failure recorded. -/
def updateContents (service key : String) (action : Upload) (message : String)
    (req : UpdateRequest) : Prog :=
  .call (.isActiveService service) fun
  | .error err => .ret (.error err)
  | .ok false => .ret (.ok ())
  | .ok true => asLeader <| unlessRecorded key req.version message <|
      .call (.upload action) fun err => record key req.version err

def updateSabakanContents : UpdateRequest → Prog :=
  updateContents "sabakan" "contents/sabakan" .sabakanContents
    "update of Sabakan contents failed by preceding worker"

def updateCKEContents : UpdateRequest → Prog :=
  updateContents "sabakan" "contents/cke" .ckeContents
    "cke: update of contents failed by preceding worker"

def updateDHCPJSON : UpdateRequest → Prog :=
  updateContents "sabakan" "contents/dhcp.json" .dhcpJSON
    "update of dhcp.json failed by preceding worker"

def updateUserResources : UpdateRequest → Prog :=
  updateContents "cke" "contents/user-resources" .userResources
    "update of user-defined resources failed by preceding worker"

/-- The fifth step looks for CKE's certificate instead of a service, and returns the error of
its action at once. -/
def updateCKETemplate (req : UpdateRequest) : Prog :=
  .call (.stat "/etc/cke/etcd.crt") fun
  | .error err => .ret (.error err)
  | .ok false => .ret (.ok ())
  | .ok true =>
    asLeader <| unlessRecorded "contents/cke-template" req.version
      "cke: update of cke-template.yml failed by preceding worker" <|
      .call (.upload .ckeTemplate) fun
      | .error err => .ret (.error err)
      | .ok () => record "contents/cke-template" req.version (.ok ())

/-- The step that makes an action. -/
def Upload.step : Upload → UpdateRequest → Prog
  | .sabakanContents => updateSabakanContents
  | .ckeContents => updateCKEContents
  | .ckeTemplate => updateCKETemplate
  | .dhcpJSON => updateDHCPJSON
  | .userResources => updateUserResources

/-- The key under which the outcome of an action is recorded. -/
def Upload.key : Upload → String
  | .sabakanContents => "contents/sabakan"
  | .ckeContents => "contents/cke"
  | .ckeTemplate => "contents/cke-template"
  | .dhcpJSON => "contents/dhcp.json"
  | .userResources => "contents/user-resources"

/-! ### The system -/

/-- What the workers share. -/
structure Shared where
  contents : String → Option ContentsUpdateStatus
  /-- The workers whose keys are under `leader/worker/`, oldest key first. -/
  keys : List Nat
  /-- Which worker has acted, and with what outcome. -/
  uploads : List (Nat × Except Error Unit)

/-- A worker in the step, and the number of operations it has made. -/
structure Progress where
  rest : Prog
  operations : Nat

structure System where
  shared : Shared
  workers : Nat → Option Progress

inductive Action where
  /-- A worker of the request enters the step. -/
  | enter (i : Nat)
  /-- A worker makes its next operation; `outcome` is that of an upload. -/
  | operate (i : Nat) (outcome : Except Error Unit)

/-- One operation of the worker `i`. The services are active, CKE is initialised, sessions
live on, and the storage answers. -/
def serve (i : Nat) (outcome : Except Error Unit) (s : Shared) :
    (c : Call) → Option (Reply c × Shared)
  | .isActiveService _ => some (.ok true, s)
  | .stat _ => some (.ok true, s)
  | .newSession => some (.ok (), s)
  | .putLeaderKey => some (.ok (), { s with keys := s.keys ++ [i] })
  | .waitDeletes => if s.keys.head? = some i then some (.ok (), s) else none
  | .getContentsUpdateStatus key =>
    match s.contents key with
    | none => some (.error .notFound, s)
    | some status => some (.ok status, s)
  | .upload _ => some (outcome, { s with uploads := s.uploads ++ [(i, outcome)] })
  | .putContentsUpdateStatus key st =>
    if i ∈ s.keys then
      some (.ok (), { s with contents := Function.update s.contents key (some st) })
    else some (.error .noLeader, s)
  | .resign => some ((), { s with keys := s.keys.erase i })
  | .closeSession => some ((), { s with keys := s.keys.erase i })

def System.step (u : Upload) (req : UpdateRequest) (s : System) : Action → Option System
  | .enter i =>
    match s.workers i with
    | none => some { s with workers := Function.update s.workers i (some ⟨u.step req, 0⟩) }
    | some _ => none
  | .operate i outcome =>
    match s.workers i with
    | some ⟨.call c next, operations⟩ =>
      (serve i outcome s.shared c).map fun (reply, shared) =>
        ⟨shared, Function.update s.workers i (some ⟨next reply, operations + 1⟩)⟩
    | _ => none

/-- What the step of the worker `i` has returned. -/
def System.result (s : System) (i : Nat) : Option (Except Error Unit) :=
  match s.workers i with
  | some ⟨.ret result, _⟩ => some result
  | _ => none

/-- The operation that the worker `i` makes next. -/
def System.next (s : System) (i : Nat) : Option Call :=
  match s.workers i with
  | some ⟨.call c _, _⟩ => some c
  | _ => none

/-- Before the first worker enters: nothing is recorded for the version of the request. -/
structure System.Initial (u : Upload) (req : UpdateRequest) (s : System) : Prop where
  unrecorded : ∀ status, s.shared.contents u.key = some status → status.version ≠ req.version
  keys : s.shared.keys = []
  uploads : s.shared.uploads = []
  workers : ∀ i, s.workers i = none

/-- `s` is reached in a run of the step whose actions all meet `ok`. -/
def Reached (u : Upload) (req : UpdateRequest) (ok : System → Action → Prop) (s : System) : Prop :=
  ∃ s₀ : System, s₀.Initial u req ∧ Transition.RunFrom (System.step u req) ok s₀ s

/-! ### Schedules -/

/-- The store before the first worker enters. -/
def System.empty : System := ⟨⟨fun _ => none, [], []⟩, fun _ => none⟩

theorem System.empty_initial (u : Upload) (req : UpdateRequest) : System.empty.Initial u req where
  unrecorded := fun _ found => nomatch found
  keys := rfl
  uploads := rfl
  workers := fun _ => rfl

/-- The worker `i` makes `n` operations; if it acts, the outcome is `outcome`. -/
def operates (i n : Nat) (outcome : Except Error Unit) : List Action :=
  List.replicate n (.operate i outcome)

/-- The state after a list of actions. -/
def System.play (u : Upload) (req : UpdateRequest) (ok : System → Action → Prop)
    [∀ s a, Decidable (ok s a)] (actions : List Action) : System :=
  Transition.after (System.step u req) ok .empty actions

theorem reached_play (u : Upload) (req : UpdateRequest) (ok : System → Action → Prop)
    [∀ s a, Decidable (ok s a)] (actions : List Action) :
    Reached u req ok (.play u req ok actions) :=
  ⟨_, System.empty_initial u req, Transition.runFrom_after _ _ _ _⟩

end Neco.Contents
