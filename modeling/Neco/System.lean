import Neco.Lib.Run
import Neco.Updater.Server
import Neco.Worker.Worker
import Mathlib.Logic.Function.Basic

/-!
# The update process as one system

Any number of workers, of updaters and of `neco recover` commands over one etcd.
A step is one action of one party; between two of them any other party may act.
-/

namespace Neco

variable {V : Type} [DecidableEq V]

/-- `ClearStatusAndContents`: the mod revision read with a stopped request. -/
inductive Recover where
  | reading
  | clearing (modRev : Nat)
  deriving DecidableEq

inductive RecoverAction where
  | read
  | clear
  deriving DecidableEq

def recoverStep (h : List Change) (r : Recover) : RecoverAction → Option (Recover × List Change)
  | .read =>
    match r, (store h).current with
    | .reading, some (req, modRev) => if req.stop then some (.clearing modRev, []) else none
    | _, _ => none
  | .clear =>
    match r with
    | .clearing modRev =>
      if (store h).current.map Prod.snd = some modRev then
        some (.reading, [.clearStatusAndContents])
      else some (.reading, [])
    | _ => none

structure System where
  history : List Change
  workers : Int → Worker
  updaters : Nat → Updater
  recovers : Nat → Recover
  /-- the keys under `leader/updater/`, oldest first -/
  keys : List Nat
  nextKey : Nat
  now : Int
  /-- what `RunStep` was called for, for the statements only -/
  trace : List StepEvent

inductive SystemAction where
  | worker (lrn : Int) (action : WorkerAction)
  | updater (u : Nat) (action : UpdaterAction)
  | recover (c : Nat) (action : RecoverAction)
  | campaign (u : Nat)
  /-- a lease expires or its owner resigns -/
  | loseKey (key : Nat)
  | registerBootserver (lrn : Int)
  | deleteBootServer (lrn : Int)
  /-- `ReleaseChecker.update` records only versions that `newNecoRelease` accepts -/
  | updateNecoRelease (version : String)
  | other
  | tick (elapsed : Nat)
  deriving DecidableEq

def System.commit (s : System) (cs : List Change) : System :=
  { s with history := s.history ++ cs }

def System.step (cfg : Config V) (s : System) : SystemAction → Option System
  | .worker lrn a =>
    (workerStep cfg.final s.history lrn (s.workers lrn) a).map fun (w, cs, events) =>
      { s with
        workers := Function.update s.workers lrn w
        history := s.history ++ cs
        trace := s.trace ++ events }
  | .updater u a =>
    (updaterStep cfg s.history s.keys s.now (s.updaters u) a).map fun (next, cs) =>
      { s with
        updaters := Function.update s.updaters u next
        history := s.history ++ cs }
  | .recover c a =>
    (recoverStep s.history (s.recovers c) a).map fun (r, cs) =>
      { s with
        recovers := Function.update s.recovers c r
        history := s.history ++ cs }
  | .campaign u =>
    match s.updaters u with
    | .idle => some { s with
        updaters := Function.update s.updaters u (.campaigning s.nextKey)
        keys := s.keys ++ [s.nextKey]
        nextKey := s.nextKey + 1 }
    | _ => none
  | .loseKey key => some { s with keys := s.keys.erase key }
  | .registerBootserver lrn => some (s.commit [.registerBootserver lrn])
  | .deleteBootServer lrn =>
    if lrn ∈ (store s.history).bootservers then some (s.commit [.deleteBootServer lrn])
    else some (s.commit [.other])
  | .updateNecoRelease version =>
    if (newNecoRelease version).isSome then some (s.commit [.updateNecoRelease version]) else none
  | .other => some (s.commit [.other])
  | .tick elapsed => some { s with now := s.now + elapsed }

/-- What `Setup` leaves behind: registered servers, a recorded release and possibly the
first request, but no status. -/
def SetupHistory (newVersion : String → Option V) (h : List Change) : Prop :=
  ∃ info : List Change, (∀ c ∈ info, c.isStatus = false ∧
      ∀ v, c = .updateNecoRelease v → v = "" ∨ (newVersion v).isSome) ∧
    (h = info ∨ ∃ req : UpdateRequest, req.stop = false ∧ h = info ++ [.putRequest req])

/-- The update process before its first step: no process runs, nobody leads. -/
structure System.Initial (newVersion : String → Option V) (s : System) : Prop where
  setup : SetupHistory newVersion s.history
  workers : ∀ lrn, (s.workers lrn).phase = .down
  updaters : ∀ u, s.updaters u = .idle
  recovers : ∀ c, s.recovers c = .reading
  keys : s.keys = []
  trace : s.trace = []

/-- The system over the history `h` when nothing has been started. -/
def System.boot (h : List Change) : System where
  history := h
  workers := fun _ => ⟨"", .down⟩
  updaters := fun _ => .idle
  recovers := fun _ => .reading
  keys := []
  nextKey := 0
  now := 0
  trace := []

omit [DecidableEq V] in
theorem System.boot_initial {newVersion : String → Option V} {h : List Change}
    (setup : SetupHistory newVersion h) : (System.boot h).Initial newVersion :=
  ⟨setup, fun _ => rfl, fun _ => rfl, fun _ => rfl, rfl, rfl⟩

/-- `s` is reached in a run of the update process whose steps all meet `ok`. -/
def Reached (cfg : Config V) (ok : System → SystemAction → Prop) (s : System) : Prop :=
  ∃ s₀ : System, s₀.Initial cfg.newVersion ∧ Transition.RunFrom (System.step cfg) ok s₀ s

/-! ### Schedules -/

/-- The worker on `lrn` is started with the package `version` and joins the update. -/
def joinUpdate (version : String) (lrn : Int) : List SystemAction :=
  [.worker lrn (.start version), .worker lrn .getRequest, .worker lrn .examine,
    .worker lrn (.putStatus .ok)]

/-- The workers `lrns` see everybody arrive, run one step and report, one after another. -/
def runTogether (lrns : List Int) : List SystemAction :=
  lrns.flatMap (fun lrn => lrns.map fun _ => .worker lrn .receiveEvent) ++
    lrns.map (fun lrn => .worker lrn (.runStepDone (.ok ()))) ++
    lrns.map fun lrn => .worker lrn (.putStatus .ok)

/-- The workers `lrns` join the update, run all steps but the last together and begin it. -/
def beginLastStep (version : String) (lrns : List Int) : List SystemAction :=
  lrns.flatMap (joinUpdate version) ++
    (List.replicate (operatorFinalStep - 1) (runTogether lrns)).flatten ++
    lrns.flatMap fun lrn => lrns.map fun _ => .worker lrn .receiveEvent

/-- The updater `u`, when it leads, takes a snapshot and commits what it decides on. -/
def decideAndPut (u : Nat) : List SystemAction :=
  [.updater u .snapshot, .updater u .decide, .updater u (.put true)]

def firstRequest (lrns : List Int) (version : String) : UpdateRequest := ⟨version, lrns, false, 0⟩

/-- What `Setup` leaves behind for the servers `lrns` and a first release. -/
def setUp (lrns : List Int) (version : String) : List Change :=
  lrns.map .registerBootserver ++
    [.updateNecoRelease version, .putRequest (firstRequest lrns version)]

omit [DecidableEq V] in
theorem setUp_setupHistory (newVersion : String → Option V) (lrns : List Int) (version : String)
    (valid : (newVersion version).isSome = true) :
    SetupHistory newVersion (setUp lrns version) := by
  refine ⟨lrns.map .registerBootserver ++ [.updateNecoRelease version], ?_,
    Or.inr ⟨firstRequest lrns version, rfl, by simp [setUp]⟩⟩
  intro c member
  rcases List.mem_append.mp member with server | release
  · obtain ⟨lrn, _, rfl⟩ := List.mem_map.mp server
    exact ⟨rfl, by simp⟩
  · rw [List.mem_singleton] at release
    subst release
    exact ⟨rfl, by rintro _ ⟨⟩; exact Or.inr valid⟩

/-- The run of a list of actions from a set-up system. -/
def System.play (cfg : Config V) (ok : System → SystemAction → Prop)
    [∀ s a, Decidable (ok s a)] (lrns : List Int) (version : String)
    (actions : List SystemAction) : System :=
  Transition.after (System.step cfg) ok (.boot (setUp lrns version)) actions

theorem runFrom_play (cfg : Config V) (ok : System → SystemAction → Prop)
    [∀ s a, Decidable (ok s a)] (lrns : List Int) (version : String)
    (actions : List SystemAction) : Transition.RunFrom (System.step cfg) ok
      (.boot (setUp lrns version)) (.play cfg ok lrns version actions) :=
  Transition.runFrom_after (System.step cfg) ok _ actions

theorem reached_play (cfg : Config V) (ok : System → SystemAction → Prop)
    [∀ s a, Decidable (ok s a)] (lrns : List Int) (version : String)
    (actions : List SystemAction) (valid : (cfg.newVersion version).isSome = true) :
    Reached cfg ok (.play cfg ok lrns version actions) :=
  ⟨_, System.boot_initial (setUp_setupHistory cfg.newVersion lrns version valid),
    runFrom_play cfg ok lrns version actions⟩

/-- The operator's steps, the default worker timeout and versions that are releases. -/
def operatorConfig : Config String where
  final := operatorFinalStep
  timeout := 3600000000000
  newVersion := releaseVersion

end Neco
