import Neco.Setup.Conformance

/-!
# The initial setup is safe

Whatever the boot servers do in between, and whichever calls fail, a server finds what it needs
when it asks for it: the development server runs until everybody has its certificates, etcd
answers, Vault is ready and the root token is valid when it is used, and the first request is put
when all servers are registered and have restarted. Servers fail only on their own, not because of
each other's order. There are two exceptions: a leader that has given up, and the first requests
to Vault, for which nobody waits until Vault has a leader.
-/

namespace Neco.Bootstrap

open Program Neco.Setup

variable {V : Vault} {b : BootServers} {artifacts : Artifacts} {opts : Int → Options}

/-- The site is good, and every server is somewhere in its program. -/
structure Sound (b : BootServers) (artifacts : Artifacts) (s : System V) : Prop where
  good : Good b artifacts s.site
  running : ∀ lrn ∈ b.lrns, Executing (world V b artifacts lrn) (permits b artifacts lrn)
    (s.procs lrn) (fun _ => Completed b artifacts lrn) s.site

theorem good_initial [V.Documented] (b : BootServers) (artifacts : Artifacts) :
    Good b artifacts (Site.initial (V := V)) := by
  have dev : V.contents V.development = .development := Vault.Documented.development
  have vault : V.contents V.uninitialised = .uninitialised := Vault.Documented.uninitialised
  exact
    { unstarted := fun _ => rfl
      devToken := by
        rw [Site.initial, Site.dev, dev]
        exact List.mem_singleton_self _
      unmounted := fun _ => by
        rw [Site.initial, Site.dev, dev]
        rfl
      ready := fun member => by
        rw [Site.initial, Site.dev, dev] at member
        cases member
      records := fun p member => by cases member
      booted := fun key known => by cases known
      token := fun known => by cases known
      prepared := fun lrn known => absurd rfl known
      signed := fun lrn file text present => by cases present
      anchored := fun ca pem present => by
        rw [Site.initial, Site.vault, vault] at present
        cases present
      members := fun lrn member => by cases member
      elected := fun known => by cases known
      led := fun lrn member all => by cases all lrn member
      restarted := fun i after => by cases after
      serving := fun i runs => by cases runs
      quiet := fun c member => by cases member
      requested := .inl rfl }

theorem knows_initial [V.Documented] {lrn : Int} (member : lrn ∈ b.lrns) :
    Knows b artifacts lrn .start .start (Site.initial (V := V)) := by
  have dev : V.contents V.development = .development := Vault.Documented.development
  have vault : V.contents V.uninitialised = .uninitialised := Vault.Documented.uninitialised
  exact
    { member := member
      stage := rfl
      filed :=
        { trusted := fun ca known => by cases known
          held := fun owner ttl known => by cases known }
      unsigned := fun _ none => by
        rw [Site.initial, Site.dev, dev] at none
        cases none
      served := nofun
      started := nofun
      etcd := nofun
      running := nofun
      unsealed := nofun
      elected := nofun
      led := nofun
      configured := nofun
      registered := nofun
      tags := fun name known => by cases known
      key := fun key known => by cases known
      token := fun token known => by cases known
      passed := fun stage known => by cases known
      leads := fun _ =>
        { going := fun same => by cases same
          devState := rfl
          dev := congrArg Contents.shape dev
          collected := fun i member => by cases member
          vault := vault
          rootToken := rfl
          unsealKey := rfl
          requested := rfl } }

theorem sound_initial [V.Documented] : Sound b artifacts (System.initial (V := V) b opts) where
  good := good_initial b artifacts
  running lrn member :=
    ⟨_, Knows.stable, knows_initial member, conforms_setup b artifacts (opts lrn) member⟩

/-- What a step is: the answer to a call, or something that happens by itself. -/
theorem System.step_cases {s t : System V} {a : Action V} (stepped : s.step b artifacts a = some t)
    (good : Good b artifacts s.site) :
    (t.procs = s.procs ∧ Unasked b artifacts s.site t.site) ∨
    ∃ lrn choice c next reply site, a = .call lrn choice ∧ lrn ∈ b.lrns ∧
      s.procs lrn = .call c next ∧ s.site.answer b artifacts lrn choice c = some (reply, site) ∧
        t = ⟨site, Function.update s.procs lrn (next reply)⟩ := by
  cases a with
  | call lrn choice =>
    simp only [System.step] at stepped
    split at stepped
    next member =>
      split at stepped
      next c next current =>
        obtain ⟨⟨reply, site⟩, answered, rfl⟩ := Option.map_eq_some_iff.mp stepped
        exact .inr ⟨lrn, choice, c, next, reply, site, rfl, member, current, answered, rfl⟩
      · cases stepped
    · cases stepped
  | cancel lrn =>
    cases stepped
    exact .inl ⟨rfl, unasked_cancel good⟩
  | elect =>
    simp only [System.step] at stepped
    split at stepped
    · cases stepped
      exact .inl ⟨rfl, unasked_elect good⟩
    · cases stepped
  | etcdReady lrn =>
    simp only [System.step] at stepped
    split at stepped
    · cases stepped
      exact .inl ⟨rfl, unasked_etcdReady good⟩
    · cases stepped
  | work lrn work =>
    simp only [System.step] at stepped
    split at stepped
    next serving =>
      obtain ⟨site, worked, rfl⟩ := Option.map_eq_some_iff.mp stepped
      exact .inl ⟨rfl, unasked_work good serving worked⟩
    · cases stepped
  | idle =>
    cases stepped
    exact .inl ⟨rfl, .refl good⟩

/-- What happens by itself interrupts nobody. -/
theorem Sound.unasked {s t : System V} (sound : Sound b artifacts s) (same : t.procs = s.procs)
    (unasked : Unasked b artifacts s.site t.site) : Sound b artifacts t := by
  refine ⟨unasked.good, fun i member => ?_⟩
  rw [same]
  exact (sound.running i member).interfered (unasked.rely i)

theorem Sound.step [V.Documented] {s t : System V} {a : Action V} (sound : Sound b artifacts s)
    (stepped : s.step b artifacts a = some t) : Sound b artifacts t := by
  rcases System.step_cases stepped sound.good with ⟨same, unasked⟩ |
    ⟨lrn, choice, c, next, reply, site, rfl, member, current, answered, rfl⟩
  · exact sound.unasked same unasked
  · have executing := sound.running lrn member
    rw [current] at executing
    have kept := kept_answer sound.good executing.permitted answered
    refine ⟨kept.good, fun i here => ?_⟩
    by_cases same : i = lrn
    · subst same
      simp only [Function.update_self]
      exact executing.answered ⟨sound.good, choice, answered⟩
    · simp only [Function.update_of_ne same]
      exact (sound.running i here).interfered (kept.rely i here same)

theorem Reached.sound [V.Documented] {s : System V} (reached : Reached b artifacts opts s) :
    Sound b artifacts s :=
  reached.invariant (Sound b artifacts) sound_initial fun _ _ _ sound _ stepped => sound.step stepped

theorem Reached.permits [V.Documented] {s : System V} (reached : Reached b artifacts opts s)
    {lrn : Int} (member : lrn ∈ b.lrns) {c : Call} {next : Reply c → Prog Unit}
    (current : s.procs lrn = .call c next) :
    (c.needsEtcd = true → s.site.etcd lrn = true) ∧ Permits b artifacts lrn s.site c := by
  have sound := reached.sound
  have executing := sound.running lrn member
  rw [current] at executing
  exact (executing.permitted sound.good).2

/-! ### Nobody comes too early or too late -/

/-- Vault has a leader when all servers have restarted. -/
theorem Good.elected_of_restarted {s : Site V} (good : Good b artifacts s) {lrn : Int}
    (member : lrn ∈ b.lrns) (all : s.Restarted b) : s.elected = true :=
  good.led lrn member fun i here => good.restarted i (all i here)

/-- The leader of the setup asks Vault before Vault has a leader: `bootVault` does not wait. -/
def Site.TooEarly (s : Site V) (c : Call) : Prop :=
  (∃ token op, c = .vault token op) ∧ s.unsealKey = none ∧ s.elected = false

theorem isLeader_mem {lrn : Int} (leader : isLeader b lrn = true) : lrn ∈ b.lrns := by
  rw [isLeader, decide_eq_true_eq] at leader
  exact mem_sortInts.mp (List.mem_of_mem_head? leader)

/-- A request to Vault is made at an unsealed server, and there is a leader. -/
theorem MayAskVault.reaches {s : Site V} {lrn : Int} {op : VaultOp} {token : String}
    (may : MayAskVault b s lrn op) (good : Good b artifacts s)
    (unsealed : (s.machines lrn).unsealed = true) (early : ¬s.TooEarly (.vault token op)) :
    s.reachesVault lrn = true := by
  have elected : s.elected = true := by
    by_contra lost
    -- a server that asks for a certificate has the unseal key from etcd
    have hidden : s.unsealKey = none := by
      cases op with
      | issue ca => exact absurd (good.elected may.2.2 lrn may.1 may.2.1) lost
      | _ => exact may.2.1
    exact early ⟨⟨token, op, rfl⟩, hidden, Bool.eq_false_iff.mpr lost⟩
  rw [Site.reachesVault, unsealed, elected]
  rfl

/-- What a server is permitted to ask for is not refused. -/
theorem Permits.served [V.Documented] {s : Site V} {lrn : Int} {c : Call}
    (good : Good b artifacts s) (permitted : Permits b artifacts lrn s c)
    (going : s.devState ≠ .abandoned) (early : ¬s.TooEarly c) (fresh : V.Chance × String)
    (clock : Int) : s.perform b artifacts fresh clock lrn c ≠ .refused := by
  cases c with
  | host op =>
    cases op with
    | findContainerImage name =>
      have found : (artifacts.findContainerImage name).isSome = true := permitted
      simp [Site.perform, Site.serveHost, found]
    | startService name =>
      simp only [Site.perform, Site.serveHost]
      split <;> exact fun same => by cases same
    | restartService name =>
      simp only [Site.perform, Site.serveHost]
      split
      · exact fun same => by cases same
      · split <;> exact fun same => by cases same
    | waitEtcdForVault =>
      simp only [Site.perform, Site.serveHost]
      split <;> exact fun same => by cases same
    | _ => exact fun same => by cases same
  | dev op =>
    obtain ⟨running, admitted⟩ := MayAskDev.admits permitted going
    obtain ⟨value, d, answer, _⟩ := Vault.serves good.devToken admitted fresh.1
    simp [Site.perform, running, answer]
  | awaitSecret path =>
    simp only [Site.perform]
    split
    · exact fun same => by cases same
    · split <;> exact fun same => by cases same
  | initVault =>
    obtain ⟨_, running, first, _⟩ := permitted
    obtain ⟨key, token, v, answer, _⟩ := Vault.Documented.init fresh.1 s.vaultState first
    simp [Site.perform, running, answer]
  | unsealVault key =>
    obtain ⟨running, known⟩ := permitted
    simp [Site.perform, running, Vault.Documented.unsealing s.vaultState key known]
  | vault token op =>
    obtain ⟨unsealed, valid, may⟩ := permitted
    obtain ⟨value, v, answer, _⟩ := Vault.serves valid (may.admits good) fresh.1
    simp [Site.perform, may.reaches good unsealed early, answer]
  | revokeSelf token =>
    obtain ⟨leader, all, unsealed, valid⟩ := permitted
    obtain ⟨v, answer, _⟩ := Vault.Documented.revokeSelf fresh.1 s.vaultState token valid
    have elected := good.elected_of_restarted (isLeader_mem leader) all
    simp [Site.perform, Site.reachesVault, unsealed, elected, answer]
  | waitVaultLeader token =>
    simp only [Site.perform]
    split <;> exact fun same => by cases same
  | awaitVaultUnsealKey =>
    simp only [Site.perform]
    split <;> exact fun same => by cases same
  | getVaultRootToken =>
    obtain ⟨token, stored⟩ := Option.isSome_iff_exists.mp permitted
    simp [Site.perform, stored]
  | recordContainerTag i name =>
    obtain ⟨tag, found⟩ := Option.isSome_iff_exists.mp permitted.2
    simp [Site.perform, Neco.recordContainerTag, found]
  | awaitFinished stage =>
    have records : ∀ p ∈ s.finishes.pairs, ∃ i stage', IsRecord p i stage' := by
      intro p member
      obtain ⟨i, _, stage', record⟩ := good.records p member
      exact ⟨i, stage', record⟩
    obtain ⟨lrns, returned, _⟩ := getFinished_records stage records
    simp only [Site.perform, returned]
    split <;> exact fun same => by cases same
  | updateNecoRelease version =>
    have known : s.unsealKey.isSome = true := permitted
    simp [Site.perform, known]
  | putRequest req => simp [Site.perform, permitted.2.1]
  | _ => exact fun same => by cases same

/-- A call that finds etcd if it needs it. -/
theorem serve_eq_perform {s : Site V} {lrn : Int} {c : Call}
    (etcd : c.needsEtcd = true → s.etcd lrn = true) (fresh : V.Chance × String) (clock : Int) :
    s.serve b artifacts fresh clock lrn c = s.perform b artifacts fresh clock lrn c := by
  refine if_neg fun missing => ?_
  rw [Bool.and_eq_true_iff, Bool.not_eq_true'] at missing
  rw [etcd missing.1] at missing
  cases missing.2

def someArtifacts : Artifacts where
  findContainerImage name :=
    if name = "etcd" then some "3.5.15.1" else if name = "vault" then some "1.18.1.1" else none
  etcd := rfl
  vault := rfl

/-- The options of `neco setup` without flags. -/
def defaultOptions : Options := ⟨true, "", ""⟩

/-- A server makes calls that are served. -/
def calls (lrn : Int) (n : Nat) : List (Action plainVault) :=
  List.replicate n (.call lrn (.serve (("key", "token"), "2024.11.05-1") 0))

/-- What three servers have come to. -/
def threeTurns (actions : List (Action plainVault)) : System plainVault :=
  Transition.after (System.step threeServers someArtifacts) Transition.always
    (.initial threeServers fun _ => defaultOptions) actions

theorem reached_threeTurns (actions : List (Action plainVault)) :
    Reached threeServers someArtifacts (fun _ => defaultOptions) (threeTurns actions) :=
  Transition.runFrom_after _ _ _ _

/-- Up to the time when the leader has unsealed its Vault, and asks it for something. -/
def untilUnsealed : List (Action plainVault) :=
  calls 0 39 ++ calls 1 27 ++ [.etcdReady 1] ++ calls 1 1 ++ calls 2 27 ++ [.etcdReady 2] ++
    calls 2 1 ++ calls 0 5 ++ [.etcdReady 0] ++ calls 0 5

/-- Up to the time when all servers have passed the first barrier. -/
def untilRestart : List (Action plainVault) :=
  untilUnsealed ++ [.elect] ++ calls 0 44 ++ calls 1 32 ++ calls 2 33 ++ calls 0 1 ++ calls 1 1

/-- Each server restarts etcd and Vault, which elects a leader again. -/
def restarts (lrn : Int) : List (Action plainVault) :=
  calls lrn 1 ++ [.etcdReady lrn] ++ calls lrn 2 ++ [.elect] ++ calls lrn 2

/-- Up to the time when the services of one server have been started. -/
def untilServing : List (Action plainVault) :=
  untilRestart ++ restarts 0 ++ restarts 1 ++ restarts 2 ++ calls 2 4

/-- They write to etcd before the leader puts the first request. -/
def untilRequest : List (Action plainVault) :=
  untilServing ++ [.work 2 (.commit .other)] ++ calls 0 5

def untilEnd : List (Action plainVault) := untilRequest ++ calls 0 10 ++ calls 1 4

/-- The request is there, put when all servers and no others were registered, and `Setup` has
written nothing else below `status/`. All servers have restarted with their final certificates. -/
structure Bootstrapped (b : BootServers) (artifacts : Artifacts) (s : Site V) : Prop where
  request : ∃ info version startedAt later,
    s.history = info ++ .putRequest (Setup.firstRequest b version startedAt) :: later ∧
    (∀ lrn, lrn ∈ (store info).bootservers ↔ lrn ∈ b.lrns) ∧
    s.own.filter (·.isStatus) = [.putRequest (Setup.firstRequest b version startedAt)]
  servers : ∀ lrn ∈ b.lrns, s.At lrn .afterRestart ∧ Prepared artifacts s lrn

theorem Good.bootstrapped {s : Site V} (good : Good b artifacts s) (put : s.requested = true) :
    Bootstrapped b artifacts s := by
  rcases good.requested with none | ⟨all, request⟩
  · cases none.symm.trans put
  · refine ⟨request, fun lrn member => ⟨all lrn member, good.prepared lrn ?_⟩⟩
    rw [all lrn member]
    exact Option.some_ne_none _

/-- Nobody writes below `status/` before all servers have restarted, and then exactly they are
registered; the services that have been started on some of them may come first. The request of
`Setup` finds all servers ready, and it is there when `Setup` has returned on the leader. -/
theorem setup_first_request (V : Vault) [V.Documented] (b : BootServers) (artifacts : Artifacts)
    (opts : Int → Options) (s : System V) (reached : Reached b artifacts opts s) :
    (∀ c ∈ s.site.history, c.isStatus = true →
      s.site.Restarted b ∧ ∀ lrn, lrn ∈ s.site.registered ↔ lrn ∈ b.lrns) ∧
    (s.site.requested = true ∨ (∃ lrn, isLeader b lrn = true ∧ s.procs lrn = .ret ()) →
      Bootstrapped b artifacts s.site) := by
  have sound := reached.sound
  refine ⟨fun c member status => ?_, ?_⟩
  · have all := sound.good.quiet c member status
    exact ⟨all, sound.good.registered all⟩
  rintro (put | ⟨lrn, leader, returned⟩)
  · exact sound.good.bootstrapped put
  · have executing := sound.running lrn (isLeader_mem leader)
    rw [returned] at executing
    obtain ⟨k, l, _, requested, knows⟩ := executing.returned
    exact sound.good.bootstrapped ((knows.leads leader).requested.trans (requested leader))

theorem setup_first_request_end : (threeTurns untilEnd).site.requested = true ∧
    Bootstrapped threeServers someArtifacts (threeTurns untilEnd).site :=
  have put : (threeTurns untilEnd).site.requested = true := by decide +kernel
  ⟨put, (setup_first_request plainVault threeServers someArtifacts (fun _ => defaultOptions) _
    (reached_threeTurns untilEnd)).2 (.inl put)⟩

/-! ### The keys of Vault -/

/-- All certificates of all servers, the first ones and those that Vault issues later, come from
the same roots, also when servers have been interrupted. A server that has finished a stage has
all its files, each certificate with its own key. -/
theorem setup_certificates (V : Vault) [V.Documented] (b : BootServers) (artifacts : Artifacts)
    (opts : Int → Options) (s : System V) (reached : Reached b artifacts opts s) :
    (∀ lrn file text, (s.site.machines lrn).files file = some text →
      Signed s.site.dev.roots file text) ∧
    (∀ ca pem, s.site.vault.roots ca = some pem → s.site.dev.roots ca = some pem) ∧
    ∀ lrn, s.site.stage lrn ≠ none → Filed (s.site.machines lrn) s.site.dev.roots .complete :=
  have good := reached.sound.good
  ⟨good.signed, good.anchored, fun lrn known => (good.prepared lrn known).filed⟩

theorem setup_certificates_restart : (threeTurns untilRestart).site.stage 1 ≠ none ∧
    Filed ((threeTurns untilRestart).site.machines 1) (threeTurns untilRestart).site.dev.roots
      .complete :=
  have known : (threeTurns untilRestart).site.stage 1 ≠ none := by decide +kernel
  ⟨known, (setup_certificates plainVault threeServers someArtifacts (fun _ => defaultOptions) _
    (reached_threeTurns untilRestart)).2.2 1 known⟩

end Neco.Bootstrap
