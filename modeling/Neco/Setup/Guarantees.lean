import Neco.Setup.Permits

/-!
# What the servers guarantee each other

Every permitted call keeps the site good, whatever becomes of it, and leaves the other servers
what they rely on. The same holds of what etcd, Vault and the started services do by themselves.
-/

namespace Neco.Bootstrap

open Program Neco.Setup KeyValue

variable {V : Vault} {b : BootServers} {artifacts : Artifacts} {s t u : Site V} {lrn i : Int}

/-! ### Steps as the others see them -/

theorem LeftToLeader.refl (s : Site V) : LeftToLeader s s where
  devState := rfl
  dev := rfl
  secrets _ member := member
  vault := rfl
  rootToken := rfl
  unsealKey := rfl
  requested := rfl

theorem Rely.refl (b : BootServers) (lrn : Int) (s : Site V) : Rely b lrn s s where
  machine := rfl
  etcd := id
  cancelled := id
  stage := rfl
  tag _ _ := rfl
  done := Iff.rfl
  roots _ _ := id
  abandoned := id
  ready ready _ := .inl ready
  unsealKey _ := id
  token _ valid _ := valid
  elected here _ := here
  registered _ := id
  recorded _ := id
  restarted _ := id
  leader _ := .refl s

theorem Rely.trans (first : Rely b i s t) (second : Rely b i t u) : Rely b i s u where
  machine := second.machine.trans first.machine
  etcd := second.etcd ∘ first.etcd
  cancelled := second.cancelled ∘ first.cancelled
  stage := second.stage.trans first.stage
  tag idle name := (second.tag (first.machine ▸ idle) name).trans (first.tag idle name)
  done := second.done.trans first.done
  roots ca pem root := second.roots ca pem (first.roots ca pem root)
  abandoned := second.abandoned ∘ first.abandoned
  ready ready open_ := by
    rcases first.ready ready open_ with still | gone
    · exact second.ready still (mt first.done.mp open_)
    · exact .inr (second.abandoned gone)
  unsealKey key known := second.unsealKey key (first.unsealKey key known)
  token token valid before := second.token token (first.token token valid before)
    fun after => before (first.stage.symm.trans after)
  elected here before := second.elected (first.elected here before) (first.stage.trans before)
  registered i member := second.registered i (first.registered i member)
  recorded i known := second.recorded i (first.recorded i known)
  restarted i known := second.restarted i (first.restarted i known)
  leader leads :=
    { devState := (second.leader leads).devState.trans (first.leader leads).devState
      dev := (second.leader leads).dev.trans (first.leader leads).dev
      secrets := fun path member =>
        (second.leader leads).secrets path ((first.leader leads).secrets path member)
      vault := (second.leader leads).vault.trans (first.leader leads).vault
      rootToken := (second.leader leads).rootToken.trans (first.leader leads).rootToken
      unsealKey := (second.leader leads).unsealKey.trans (first.leader leads).unsealKey
      requested := (second.leader leads).requested.trans (first.leader leads).requested }

/-- What a step does to the site and to the knowledge of the other servers. -/
structure Kept (b : BootServers) (artifacts : Artifacts) (lrn : Int) (s t : Site V) : Prop where
  good : Good b artifacts t
  rely : ∀ i ∈ b.lrns, i ≠ lrn → Rely b i s t

theorem Kept.trans (first : Kept b artifacts lrn s t) (second : Kept b artifacts lrn t u) :
    Kept b artifacts lrn s u :=
  ⟨second.good, fun i member other => (first.rely i member other).trans (second.rely i member other)⟩

theorem Kept.refl (good : Good b artifacts s) : Kept b artifacts lrn s s :=
  ⟨good, fun i _ _ => .refl b i s⟩

/-! ### Machines -/

theorem machines_setMachine (s : Site V) (lrn i : Int) (m : Machine) :
    (s.setMachine lrn m).machines i = if i = lrn then m else s.machines i :=
  Function.update_apply ..

/-- What a server may change of its own machine. -/
structure Handles (b : BootServers) (s : Site V) (lrn : Int) (m : Machine) : Prop where
  signed : ∀ file text, m.files file = some text → Signed s.dev.roots file text
  kept : s.stage lrn ≠ none → m.files = (s.machines lrn).files ∧
    ((s.machines lrn).configured = true → m.configured = true)
  serving : m.serving = true → (s.machines lrn).serving = true ∨ s.Restarted b
  tags : m.serving = false → (s.machines lrn).serving = false

theorem Handles.led {m : Machine} (handles : Handles b s lrn m) {led : Bool} :
    Handles b s lrn { m with led } :=
  ⟨handles.signed, handles.kept, handles.serving, handles.tags⟩

theorem Handles.prepared {m : Machine} (handles : Handles b s lrn m) (good : Good b artifacts s)
    {i : Int} (known : s.stage i ≠ none) : Prepared artifacts (s.setMachine lrn m) i := by
  have old := good.prepared i known
  by_cases same : i = lrn
  · subst same
    obtain ⟨files, configured⟩ := handles.kept known
    have machine : (s.setMachine i m).machines i = m := Function.update_self ..
    refine ⟨?_, ?_, old.registered, ?_⟩
    · rw [machine]
      exact ⟨files ▸ old.filed.trusted, files ▸ old.filed.held⟩
    · rw [machine]
      exact configured old.configured
    · rw [machine]
      exact fun idle => old.tags (handles.tags idle)
  · have machine : (s.setMachine lrn m).machines i = s.machines i := Function.update_of_ne same ..
    exact ⟨machine ▸ old.filed, machine ▸ old.configured, old.registered, machine ▸ old.tags⟩

theorem Handles.signedFiles {m : Machine} (handles : Handles b s lrn m) (good : Good b artifacts s)
    (i : Int) (file : File) (text : Text)
    (present : ((s.setMachine lrn m).machines i).files file = some text) :
    Signed s.dev.roots file text := by
  rw [machines_setMachine] at present
  split at present
  · exact handles.signed file text present
  · exact good.signed i file text present

theorem Handles.serves {m : Machine} (handles : Handles b s lrn m) (good : Good b artifacts s)
    (i : Int) (runs : ((s.setMachine lrn m).machines i).serving = true) : s.Restarted b := by
  rw [machines_setMachine] at runs
  split at runs
  · exact (handles.serving runs).elim (good.serving lrn) id
  · exact good.serving i runs

theorem kept_setMachine (good : Good b artifacts s) {m : Machine} (handles : Handles b s lrn m)
    (led : m.led = (s.machines lrn).led ∨ m.led = true ∧ s.elected = true) :
    Kept b artifacts lrn s (s.setMachine lrn m) where
  good :=
    { good with
      prepared := fun i known => handles.prepared good known
      signed := handles.signedFiles good
      serving := handles.serves good
      led := fun i member all => by
        -- either the server had seen a leader before, or it sees one now
        rcases led with same | ⟨_, here⟩
        · refine good.led i member fun j other => ?_
          have now := all j other
          rw [machines_setMachine] at now
          split at now
          next here => rw [here, ← same, now]
          · exact now
        · exact here
      restarted := fun i after => by
        have before := good.restarted i after
        rw [machines_setMachine]
        split
        next here =>
          rcases led with same | ⟨now, _⟩
          · rw [same, ← here, before]
          · exact now
        · exact before }
  rely i _ other :=
    { Rely.refl b i s with
      machine := Function.update_of_ne other ..
      leader := fun _ => { LeftToLeader.refl s with } }

/-- A member of etcd is started or restarted. -/
theorem kept_setEtcd (good : Good b artifacts s) {up : Bool} :
    Kept b artifacts lrn s { s with etcd := Function.update s.etcd lrn up } where
  good := { good with prepared := fun i known => { good.prepared i known with } }
  rely i _ other :=
    { Rely.refl b i s with
      etcd := fun before => (Function.update_of_ne other ..).trans before
      leader := fun _ => { LeftToLeader.refl s with } }

/-- A server restarts after all have finished the first stage and before it finishes the second
one: until then nobody asks Vault for anything. -/
theorem kept_restart (good : Good b artifacts s) {m : Machine} (handles : Handles b s lrn m)
    (member : lrn ∈ b.lrns) (all : ∀ i ∈ b.lrns, s.stage i ≠ none)
    (before : ¬s.At lrn .afterRestart) : Kept b artifacts lrn s (s.restart lrn m) where
  good :=
    { good with
      prepared := fun i known => { handles.led.prepared good known with }
      signed := handles.led.signedFiles good
      serving := handles.led.serves good
      elected := fun _ i here first => absurd first (all i here)
      led := fun _ _ led => by
        -- the server itself has to look for a leader again
        have now := led lrn member
        simp [Site.restart, machines_setMachine] at now
      restarted := fun i after => by
        simp only [Site.restart, machines_setMachine]
        split
        next here =>
          subst here
          exact absurd after before
        · exact good.restarted i after }
  rely i here other :=
    { Rely.refl b i s with
      machine := Function.update_of_ne other ..
      elected := fun _ first => absurd first (all i here)
      leader := fun _ => { LeftToLeader.refl s with } }

/-! ### The two servers of Vault -/

/-- A request to the development server. -/
theorem kept_setDev (good : Good b artifacts s) {d : V.State} (running : s.devState = .running)
    (token : devRootToken ∈ (V.contents d).tokens)
    (unmounted : (V.contents d).engine ≠ some 1 → (V.contents d).secrets = [])
    (roots : RootsGrow s.dev.roots (V.contents d).roots)
    (signs : s.dev.Signs → (V.contents d).Signs)
    (ready : bootstrapPath ∈ (V.contents d).secrets → (V.contents d).Signs)
    (done : ∀ i, i ≠ lrn →
      (bootstrapDonePath i ∈ (V.contents d).secrets ↔ bootstrapDonePath i ∈ s.dev.secrets))
    (leader : isLeader b lrn = true ∨ (V.contents d).shape = s.dev.shape ∧
      ∀ path ∈ s.dev.secrets, path ∈ (V.contents d).secrets) :
    Kept b artifacts lrn s { s with devServer := d } where
  good :=
    { good with
      unstarted := fun not => by cases running.symm.trans not
      devToken := token
      unmounted := unmounted
      ready := ready
      prepared := fun i known =>
        { good.prepared i known with filed := (good.prepared i known).filed.mono roots }
      signed := fun i file text present => (good.signed i file text present).mono roots
      anchored := fun ca pem root => roots ca pem (good.anchored ca pem root) }
  rely i _ other :=
    { Rely.refl b i s with
      done := done i other
      roots := roots
      ready := fun before _ => .inl ⟨before.1, signs before.2⟩
      leader := fun leads => by
        rcases leader with mine | ⟨shape, secrets⟩
        · exact absurd (isLeader_unique leads mine) other
        · exact { LeftToLeader.refl s with dev := shape, secrets := secrets } }

/-- The development server is started or stopped. -/
theorem kept_setDevState (good : Good b artifacts s) (leads : isLeader b lrn = true)
    {state : DevState} (going : s.devState ≠ .abandoned) (started : state ≠ .notStarted)
    (ready : ∀ i ∈ b.lrns, s.Ready → bootstrapDonePath i ∉ s.dev.secrets →
      state = .running ∨ state = .abandoned) :
    Kept b artifacts lrn s { s with devState := state } where
  good :=
    { good with
      unstarted := fun not => absurd not started
      prepared := fun i known => { good.prepared i known with } }
  rely i member other :=
    { Rely.refl b i s with
      abandoned := fun gone => absurd gone going
      ready := fun before open_ => (ready i member before open_).imp (fun same => ⟨same, before.2⟩) id
      leader := fun second => absurd (isLeader_unique second leads) other }

theorem kept_startDev (good : Good b artifacts s) (leads : isLeader b lrn = true)
    (first : s.devState = .notStarted) :
    Kept b artifacts lrn s { s with devState := .running, devServer := V.development } := by
  rw [← good.unstarted first]
  refine kept_setDevState good leads ?_ (by decide) fun _ _ _ _ => .inl rfl
  rw [first]
  decide

/-- Vault is initialised or changed by the leader, or it issues a certificate. -/
theorem kept_setVault (good : Good b artifacts s) {v : V.State}
    (booted : ∀ key, s.unsealKey = some key →
      (V.contents v).unsealKey = some key ∧ (V.contents v).Booted)
    (valid : s.Restarted b ∨ ∀ token, s.Valid token → token ∈ (V.contents v).tokens)
    (roots : ∀ ca pem, (V.contents v).roots ca = some pem → s.dev.roots ca = some pem)
    (leader : isLeader b lrn = true ∨ V.contents v = s.vault) :
    Kept b artifacts lrn s { s with vaultState := v } where
  good :=
    { good with
      booted := booted
      token := fun known => by
        -- the token is revoked when all servers have restarted, and not before
        rcases good.token known with all | ⟨token, stored, current⟩
        · exact .inl all
        · rcases valid with all | still
          · exact .inl all
          · exact .inr ⟨token, stored, still token current⟩
      anchored := roots
      prepared := fun i known => { good.prepared i known with } }
  rely i member other :=
    { Rely.refl b i s with
      token := fun token current before => by
        rcases valid with all | still
        · exact absurd (all i member) before
        · exact still token current
      leader := fun leads => by
        rcases leader with mine | same
        · exact absurd (isLeader_unique leads mine) other
        · exact { LeftToLeader.refl s with vault := same } }

/-! ### Transactions -/

/-- A transaction changes nothing but the history; the first request is found as before. -/
theorem requested_history {c : Change} (own : t.own.filter (·.isStatus) = s.own.filter (·.isStatus))
    (same : t.requested = s.requested) (restarted : s.Restarted b → t.Restarted b)
    (history : t.history = s.history ++ [c]) (requested : Requested b s) : Requested b t := by
  rcases requested with none | ⟨all, info, version, startedAt, later, split, members, alone⟩
  · exact .inl (same.trans none)
  · refine .inr ⟨restarted all, info, version, startedAt, later ++ [c], ?_, members, own.trans alone⟩
    rw [history, split, List.append_assoc, List.cons_append]

/-- A transaction of `Setup` outside `status/`. -/
theorem kept_commit (good : Good b artifacts s) {c : Change} (plain : c.isStatus = false)
    (registration : ∀ j, c = .registerBootserver j → j ∈ b.lrns)
    (kept : ∀ j, c ≠ .deleteBootServer j) : Kept b artifacts lrn s (s.commit c) := by
  have grown (j : Int) (member : j ∈ s.registered) : j ∈ (s.commit c).registered :=
    (registered_concat rfl kept j).mpr (.inl member)
  have same : (s.commit c).requested = s.requested := by
    rw [requested_commit, plain, Bool.or_false]
  refine ⟨?_, fun i _ _ => ?_⟩
  · refine { good with prepared := ?_, members := ?_, quiet := ?_, requested := ?_ }
    · intro i known
      exact { good.prepared i known with registered := grown i (good.prepared i known).registered }
    · intro j member
      rcases (registered_concat rfl kept j).mp member with old | new
      · exact good.members j old
      · exact registration j new
    · intro d member status
      rcases List.mem_append.mp member with old | new
      · exact good.quiet d old status
      · cases List.mem_singleton.mp new
        cases plain.symm.trans status
    · refine requested_history ?_ same (fun all => all) rfl good.requested
      simp [Site.commit, plain]
  · refine { Rely.refl b i s with registered := grown, leader := fun _ => ?_ }
    exact { LeftToLeader.refl s with requested := same }

theorem kept_commitOther (good : Good b artifacts s) : Kept b artifacts lrn s (s.commit .other) :=
  kept_commit good rfl (fun _ same => by cases same) fun _ same => by cases same

theorem kept_setRootToken (good : Good b artifacts s) (leads : isLeader b lrn = true)
    {token : Option String} (free : s.unsealKey = none ∨ s.Restarted b) :
    Kept b artifacts lrn s { s with rootToken := token } where
  good :=
    { good with
      token := fun known => by
        rcases free with none | all
        · rw [none] at known
          cases known
        · exact .inl all
      prepared := fun i known => { good.prepared i known with } }
  rely i _ other :=
    { Rely.refl b i s with leader := fun second => absurd (isLeader_unique second leads) other }

/-- The leader gives away the unseal key. -/
theorem kept_setUnsealKey (good : Good b artifacts s) (leads : isLeader b lrn = true)
    (first : s.unsealKey = none) {key token : String} (current : s.vault.unsealKey = some key)
    (booted : s.vault.Booted) (elected : s.elected = true) (stored : s.rootToken = some token)
    (valid : s.Valid token) : Kept b artifacts lrn s { s with unsealKey := some key } where
  good :=
    { good with
      booted := fun key same => by
        cases same
        exact ⟨current, booted⟩
      token := fun _ => .inr ⟨token, stored, valid⟩
      elected := fun _ _ _ _ => elected
      prepared := fun i known => { good.prepared i known with } }
  rely i _ other :=
    { Rely.refl b i s with
      unsealKey := fun key known => by cases first.symm.trans known
      leader := fun second => absurd (isLeader_unique second leads) other }

theorem kept_setInstalled (good : Good b artifacts s) {name : String} {kv : Etcd}
    (recorded : Neco.recordContainerTag artifacts.findContainerImage s.installed lrn name = some kv) :
    Kept b artifacts lrn s { s with installed := kv } where
  good :=
    { good with
      prepared := fun i known =>
        { good.prepared i known with
          tags := fun idle name' member => by
            rw [tag_record recorded]
            split
            next same =>
              rw [(keyContainer_injective same).2]
            · exact (good.prepared i known).tags idle name' member } }
  rely i _ other :=
    { Rely.refl b i s with
      tag := fun _ name' => by
        rw [tag_record recorded, if_neg]
        exact fun same => other (keyContainer_injective same).1
      leader := fun _ => { LeftToLeader.refl s with } }

/-- A server finishes a stage. -/
theorem kept_finish (good : Good b artifacts s) {stage : Stage} (member : lrn ∈ b.lrns)
    (prepared : Prepared artifacts s lrn) (forward : stage = .beforeRestart → s.stage lrn = none)
    (led : stage = .afterRestart → (s.machines lrn).led = true) :
    Kept b artifacts lrn s { s with finishes := Setup.finish s.finishes lrn stage } := by
  have kept (i : Int) (known : s.stage i ≠ none) :
      Site.stage { s with finishes := Setup.finish s.finishes lrn stage } i ≠ none := by
    rw [stage_finish]
    split
    · exact Option.some_ne_none _
    · exact known
  have after (i : Int) (known : s.At i .afterRestart) :
      Site.At { s with finishes := Setup.finish s.finishes lrn stage } i .afterRestart := by
    rw [Site.At, stage_finish]
    split
    next same =>
      subst same
      -- the stages are finished in their order
      cases stage with
      | beforeRestart => cases (forward rfl).symm.trans known
      | afterRestart => rfl
    · exact known
  have all (known : s.Restarted b) :
      Site.Restarted b { s with finishes := Setup.finish s.finishes lrn stage } :=
    fun i here => after i (known i here)
  refine ⟨?_, fun i _ other => ?_⟩
  · refine
      { good with
        records := ?_
        token := fun known => (good.token known).imp all id
        prepared := ?_
        elected := ?_
        restarted := ?_
        serving := fun i runs => all (good.serving i runs)
        quiet := fun c here status => all (good.quiet c here status)
        requested := good.requested.imp id fun ⟨restarted, rest⟩ => ⟨all restarted, rest⟩ }
    · intro p here
      rcases KV.mem_put.mp here with rfl | ⟨old, _⟩
      · exact ⟨lrn, member, stage, b.ints lrn member, rfl, rfl⟩
      · exact good.records p old
    · intro i known
      rw [stage_finish] at known
      split at known
      next same =>
        subst same
        exact { prepared with }
      · exact { good.prepared i known with }
    · intro known i here first
      rw [stage_finish] at first
      split at first
      · cases first
      · exact good.elected known i here first
    · intro i now
      rw [Site.At, stage_finish] at now
      split at now
      next same =>
        subst same
        refine led ?_
        exact Stage.number_injective (itoa_injective (Option.some.inj now))
      · exact good.restarted i now
  · exact
      { Rely.refl b i s with
        stage := by rw [stage_finish, if_neg other]
        token := fun token valid _ => valid
        recorded := kept
        restarted := after
        leader := fun _ => { LeftToLeader.refl s with } }

/-- When all servers have restarted, exactly they are registered. -/
theorem Good.registered (good : Good b artifacts s) (all : s.Restarted b) (j : Int) :
    j ∈ s.registered ↔ j ∈ b.lrns := by
  refine ⟨good.members j, fun member => (good.prepared j ?_).registered⟩
  rw [all j member]
  exact Option.some_ne_none _

/-- The leader puts the first request. -/
theorem kept_putRequest (good : Good b artifacts s) (leads : isLeader b lrn = true)
    (all : s.Restarted b) (none : s.requested = false) (version : String) (startedAt : Int) :
    Kept b artifacts lrn s
      (s.commit (.putRequest (Setup.firstRequest b version startedAt))) := by
  have same (j : Int) : j ∈ Site.registered
      (s.commit (.putRequest (Setup.firstRequest b version startedAt))) ↔ j ∈ s.registered := by
    rw [registered_concat rfl (fun _ same => by cases same)]
    simp
  refine ⟨?_, fun i _ other => ?_⟩
  · refine
      { good with
        prepared := fun i known => ?_
        members := fun j member => ?_
        quiet := fun _ _ _ => all
        requested := ?_ }
    · exact { good.prepared i known with registered := (same i).mpr (good.prepared i known).registered }
    · exact good.members j ((same j).mp member)
    · -- of what the services have written nothing is asked
      have plain : s.own.filter (·.isStatus) = [] := by
        rw [List.filter_eq_nil_iff]
        simpa only [Site.requested, List.any_eq_false] using none
      refine .inr ⟨all, s.history, version, startedAt, [], rfl, good.registered all, ?_⟩
      rw [Site.commit, List.filter_append, plain]
      rfl
  · exact
      { Rely.refl b i s with
        registered := fun j => (same j).mpr
        leader := fun second => absurd (isLeader_unique second leads) other }

/-! ### Calls on the own host -/

/-- Files are written before the server finishes a stage. -/
theorem kept_writeFile (good : Good b artifacts s) (first : s.stage lrn = none) {file : File}
    {content : Option Text} (signed : ∀ text, content = some text → Signed s.dev.roots file text) :
    Kept b artifacts lrn s (s.setMachine lrn { s.machines lrn with
      files := Function.update (s.machines lrn).files file content }) := by
  refine kept_setMachine good ⟨fun file' text present => ?_, fun known => absurd first known,
    fun runs => .inl runs, id⟩ (.inl rfl)
  by_cases same : file' = file
  · subst same
    exact signed text (by simpa using present)
  · exact good.signed lrn file' text (by simpa [same] using present)

/-- A machine with the same files and services. -/
theorem Good.handles (good : Good b artifacts s) {m : Machine}
    (files : m.files = (s.machines lrn).files)
    (configured : (s.machines lrn).configured = true → m.configured = true)
    (services : m.services = (s.machines lrn).services) : Handles b s lrn m := by
  have same : m.serving = (s.machines lrn).serving := by rw [Machine.serving, services]; rfl
  exact ⟨files ▸ good.signed lrn, fun _ => ⟨files, configured⟩, fun runs => .inl (same ▸ runs),
    fun idle => same ▸ idle⟩

theorem serving_start (m : Machine) (running : Bool) (name : String) :
    ({ m with running, services := name :: m.services } : Machine).serving =
      (name == "neco-worker" || name == "neco-updater" || m.serving) := by
  simp only [Machine.serving, List.contains_cons, Bool.or_assoc, BEq.comm (b := name)]
  cases name == "neco-worker" <;> cases name == "neco-updater" <;> simp

theorem kept_startService (good : Good b artifacts s) {name : String}
    (permitted : MayStart b s lrn name)
    (served : s.serveHost artifacts lrn (.startService name) = .done () t) :
    Kept b artifacts lrn s t := by
  have started : Kept b artifacts lrn s (s.setMachine lrn { s.machines lrn with
      running := (s.machines lrn).running || name == "vault"
      services := name :: (s.machines lrn).services }) := by
    refine kept_setMachine good ⟨good.signed lrn, fun _ => ⟨rfl, id⟩, fun runs => ?_, fun idle => ?_⟩
      (.inl rfl)
    · -- etcd and Vault are not part of the update process
      rcases permitted with ⟨rfl, _⟩ | ⟨rfl, _⟩ | ⟨_, all⟩
      · exact .inl ((serving_start ..).symm.trans runs)
      · exact .inl ((serving_start ..).symm.trans runs)
      · exact .inr all
    · rw [serving_start, Bool.or_eq_false_iff] at idle
      exact idle.2
  simp only [Site.serveHost] at served
  split at served
  · cases served
    exact started.trans (kept_setEtcd started.good)
  · cases served
    exact started

theorem kept_restartService (good : Good b artifacts s) {name : String} (member : lrn ∈ b.lrns)
    (all : ∀ i ∈ b.lrns, s.stage i ≠ none) (before : ¬s.At lrn .afterRestart)
    (served : s.serveHost artifacts lrn (.restartService name) = .done () t) :
    Kept b artifacts lrn s t := by
  simp only [Site.serveHost] at served
  split at served
  · cases served
    exact kept_restart good (good.handles rfl id rfl) member all before
  · split at served
    · cases served
      have restarted : Kept b artifacts lrn s (s.restart lrn (s.machines lrn)) :=
        kept_restart good (good.handles rfl id rfl) member all before
      exact restarted.trans (kept_setEtcd restarted.good)
    · cases served
      exact .refl good

theorem kept_serveHost (good : Good b artifacts s) {op : Host}
    (permitted : Permits b artifacts lrn s (.host op))
    (served : s.serveHost artifacts lrn op = .done () t) : Kept b artifacts lrn s t := by
  cases op with
  | findContainerImage name =>
    simp only [Site.serveHost] at served
    split at served
    · cases served
      exact .refl good
    · cases served
  | startService name => exact kept_startService good permitted served
  | restartService name => exact kept_restartService good permitted.1 permitted.2.1 permitted.2.2 served
  | waitEtcdForVault =>
    simp only [Site.serveHost] at served
    split at served
    · cases served
      exact .refl good
    · cases served
  | updateNecoConfig =>
    cases served
    exact kept_setMachine good (good.handles rfl (fun _ => rfl) rfl) (.inl rfl)
  | _ =>
    cases served
    exact .refl good

/-! ### Every permitted call keeps the site good -/

section Calls

variable {fresh : V.Chance × String} {clock : Int}

/-- A call that is served finds etcd if it needs it. -/
theorem perform_of_serve {c : Call} {v : Value c}
    (served : s.serve b artifacts fresh clock lrn c = .done v t) :
    s.perform b artifacts fresh clock lrn c = .done v t := by
  rw [Site.serve] at served
  split at served
  · cases served
  · exact served

variable [V.Documented]

theorem kept_dev (good : Good b artifacts s) {op : VaultOp} (permitted : MayAskDev b s lrn op)
    {x : op.Value} {d : V.State} (running : s.devState = .running)
    (served : V.handle fresh.1 s.devServer devRootToken op = some (x, d)) :
    Kept b artifacts lrn s { s with devServer := d } := by
  have going : s.devState ≠ .abandoned := by
    rw [running]
    decide
  have admitted := (permitted.admits going).2
  have after := (Vault.served good.devToken admitted served).2
  -- Ready servers lose nothing: the engine is exchanged before they are ready.
  have signs (before : s.dev.Signs) : (V.contents d).Signs := by
    rw [after]
    refine before.after admitted ?_
    rintro rfl
    cases permitted.2.2.symm.trans before.engine
  have roots : RootsGrow s.dev.roots (V.contents d).roots := by
    rw [after]
    exact Contents.roots_after admitted
  have token : devRootToken ∈ (V.contents d).tokens := by
    rw [after, Contents.tokens_after]
    exact good.devToken
  have unmounted : (V.contents d).engine ≠ some 1 → (V.contents d).secrets = [] := by
    rw [after]
    exact Contents.unmounted_after admitted good.unmounted
  -- The others see that somebody is done, or that the leader has gone on.
  have plain (same : (V.contents d).secrets = s.dev.secrets)
      (leader : isLeader b lrn = true ∨ (V.contents d).shape = s.dev.shape) :
      Kept b artifacts lrn s { s with devServer := d } := by
    refine kept_setDev good running token unmounted roots signs ?_ (fun i _ => by rw [same]) ?_
    · rw [same]
      exact fun member => signs (good.ready member)
    · exact leader.imp id fun shape => ⟨shape, fun path member => same ▸ member⟩
  cases op with
  | write path =>
    have secrets : (V.contents d).secrets = path :: s.dev.secrets := congrArg Contents.secrets after
    obtain ⟨ready, whose⟩ := permitted.resolve_left going
    refine kept_setDev good running token unmounted roots signs (fun _ => signs ready.2) ?_ ?_
    · intro i other
      rw [secrets, List.mem_cons]
      refine ⟨fun here => here.resolve_left ?_, .inr⟩
      rcases whose with rfl | ⟨_, rfl⟩
      · exact bootstrapDonePath_injective.ne other
      · exact bootstrapDonePath_ne i
    · refine .inr ⟨by rw [after]; rfl, ?_⟩
      rw [secrets]
      exact fun _ => List.mem_cons_of_mem path
  | issue ca => exact plain (congrArg Contents.secrets after) (.inr (congrArg Contents.shape after))
  | unmountSecret =>
    -- Nobody has written anything yet.
    refine plain ?_ (.inl permitted.1)
    rw [good.unmounted (by rw [permitted.2.2]; decide)]
    exact congrArg Contents.secrets after
  | setting x => exact permitted.elim
  | _ => exact plain ((congrArg Contents.secrets after).trans rfl) (.inl permitted.1)

theorem kept_vault (good : Good b artifacts s) {op : VaultOp} {token : String}
    (valid : s.Valid token) (permitted : MayAskVault b s lrn op) {x : op.Value} {v : V.State}
    (served : V.handle fresh.1 s.vaultState token op = some (x, v)) :
    Kept b artifacts lrn s { s with vaultState := v } := by
  have admitted := permitted.admits good
  have after := (Vault.served valid admitted served).2
  have tokens (token : String) (before : s.Valid token) : token ∈ (V.contents v).tokens := by
    rw [after, Contents.tokens_after]
    exact before
  -- All but the certificates is asked for by the leader, who has not given away the key yet.
  have configured (leads : isLeader b lrn = true ∧ s.unsealKey = none ∧ s.vault.Admits op ∧
      (∀ ca, op ≠ .generateRoot ca) ∧ ∀ ca pem, op = .configCA ca pem → s.dev.roots ca = some pem) :
      Kept b artifacts lrn s { s with vaultState := v } := by
    obtain ⟨leads, hidden, _, notGenerated, anchored⟩ := leads
    refine kept_setVault good ?_ (.inr tokens) ?_ (.inl leads)
    · intro key known
      cases hidden.symm.trans known
    · intro ca pem root
      rw [after] at root
      rcases Contents.root_of_after root with old | generated | set
      · exact good.anchored ca pem old
      · exact absurd generated (notGenerated ca)
      · exact anchored ca pem set
  cases op with
  | issue ca =>
    have same : V.contents v = s.vault := after
    refine kept_setVault good ?_ (.inr tokens) ?_ (.inr same)
    · rw [same]
      exact good.booted
    · rw [same]
      exact good.anchored
  | _ => exact configured permitted

theorem kept_initVault (good : Good b artifacts s) (leads : isLeader b lrn = true)
    (first : s.vault = .uninitialised) (hidden : s.unsealKey = none) {keys : String × String}
    {v : V.State} (served : V.init fresh.1 s.vaultState = some (keys, v)) :
    Kept b artifacts lrn s { s with vaultState := v } := by
  obtain ⟨key, token, w, answered, contents⟩ := Vault.Documented.init fresh.1 s.vaultState first
  cases answered.symm.trans served
  refine kept_setVault good ?_ (.inr ?_) ?_ (.inl leads)
  · intro key known
    cases hidden.symm.trans known
  · intro token valid
    rw [Site.Valid, first] at valid
    cases valid
  · intro ca pem root
    rw [contents] at root
    cases root

theorem kept_revokeSelf (good : Good b artifacts s) (leads : isLeader b lrn = true)
    (all : s.Restarted b) {token : String} (valid : s.Valid token) {v : V.State}
    (served : V.revokeSelf fresh.1 s.vaultState token = some v) :
    Kept b artifacts lrn s { s with vaultState := v } := by
  obtain ⟨w, answered, contents⟩ := Vault.Documented.revokeSelf fresh.1 s.vaultState token valid
  cases answered.symm.trans served
  refine kept_setVault good ?_ (.inl all) ?_ (.inl leads)
  · intro key known
    obtain ⟨same, booted⟩ := good.booted key known
    rw [contents]
    exact ⟨same, booted.root, booted.role⟩
  · rw [contents]
    exact good.anchored

theorem kept_perform (good : Good b artifacts s) {c : Call} {v : Value c}
    (permitted : permits b artifacts lrn s c)
    (served : s.perform b artifacts fresh clock lrn c = .done v t) : Kept b artifacts lrn s t := by
  obtain ⟨going, _, permitted⟩ := permitted good
  have committed : Kept b artifacts lrn s (s.commit .other) := kept_commitOther good
  cases c with
  | host op => exact kept_serveHost good permitted served
  | writeFile file text =>
    cases served
    exact kept_writeFile good permitted.1 fun _ same => Option.some.inj same ▸ permitted.2
  | startDev =>
    cases served
    exact kept_startDev good permitted.1 permitted.2
  | stopDev succeeded =>
    cases served
    refine kept_setDevState good permitted.1 (going permitted.1) ?_ fun i member _ undone => ?_
    · cases succeeded <;> decide
    · cases succeeded with
      | true => exact absurd (permitted.2 rfl i member) undone
      | false => exact .inr rfl
  | dev op =>
    obtain ⟨running, _, answered, rfl⟩ := perform_dev served
    exact kept_dev good permitted running answered
  | awaitSecret path =>
    obtain ⟨rfl, _⟩ := perform_awaitSecret served
    exact .refl good
  | initVault =>
    obtain ⟨_, answered, rfl⟩ := perform_initVault served
    exact kept_initVault good permitted.1 permitted.2.2.1 permitted.2.2.2 answered
  | unsealVault key =>
    rw [perform_unsealVault served]
    exact kept_setMachine good (good.handles rfl id rfl) (.inl rfl)
  | vault token op =>
    obtain ⟨_, _, answered, rfl⟩ := perform_vault served
    exact kept_vault good permitted.2.1 permitted.2.2 answered
  | revokeSelf token =>
    obtain ⟨_, answered, rfl⟩ := perform_revokeSelf served
    exact kept_revokeSelf good permitted.1 permitted.2.1 permitted.2.2.2 answered
  | waitVaultLeader token =>
    obtain ⟨elected, rfl⟩ := perform_waitVaultLeader served
    exact kept_setMachine good (good.handles rfl id rfl) (.inr ⟨rfl, elected⟩)
  | putVaultRootToken token =>
    cases served
    exact committed.trans (kept_setRootToken committed.good permitted.1 (.inl permitted.2))
  | putVaultUnsealKey key =>
    obtain ⟨leads, hidden, current, booted, elected, token, stored, valid⟩ := permitted
    cases served
    exact committed.trans
      (kept_setUnsealKey committed.good leads hidden current booted elected stored valid)
  | awaitVaultUnsealKey =>
    obtain ⟨_, rfl⟩ := perform_awaitVaultUnsealKey served
    exact .refl good
  | getVaultRootToken =>
    obtain ⟨_, rfl⟩ := perform_getVaultRootToken served
    exact .refl good
  | deleteVaultRootToken =>
    cases served
    exact committed.trans (kept_setRootToken committed.good permitted.1 (.inr permitted.2))
  | registerBootserver i =>
    obtain ⟨rfl, member⟩ := permitted
    cases served
    refine kept_commit good rfl (fun j same => ?_) fun _ same => by cases same
    cases same
    exact member
  | recordContainerTag i name =>
    obtain ⟨rfl, _⟩ := permitted
    obtain ⟨_, recorded, rfl⟩ := perform_recordContainerTag served
    exact committed.trans (kept_setInstalled committed.good recorded)
  | finish i stage =>
    obtain ⟨rfl, member, prepared, forward, led⟩ := permitted
    cases served
    refine committed.trans (kept_finish committed.good member ?_ forward led)
    exact { prepared with registered := (registered_commit s i).mpr prepared.registered }
  | awaitFinished stage =>
    obtain ⟨rfl, _⟩ := perform_awaitFinished served
    exact .refl good
  | updateNecoRelease version =>
    rw [perform_updateNecoRelease served]
    exact kept_commit good rfl (fun _ same => by cases same) fun _ same => by cases same
  | putRequest req =>
    obtain ⟨leads, known, all, none, version, startedAt, rfl⟩ := permitted
    simp only [Site.perform, known, if_true] at served
    cases served
    exact kept_putRequest good leads all none version startedAt
  | putProxyConfig proxy =>
    cases served
    exact committed
  | putGitHubToken token =>
    cases served
    exact committed
  | getDebianVersion =>
    cases served
    exact .refl good
  | now =>
    cases served
    exact .refl good
  | userAdd name pre =>
    cases served
    exact .refl good
  | authEnable =>
    cases served
    exact .refl good

/-- Whatever becomes of a call, the site stays good and the others keep what they know. -/
theorem kept_answer (good : Good b artifacts s) {c : Call} {r : Reply c} {choice : Choice V}
    (permitted : permits b artifacts lrn s c)
    (answered : s.answer b artifacts lrn choice c = some (r, t)) : Kept b artifacts lrn s t := by
  cases choice with
  | fault =>
    simp only [Site.answer] at answered
    split at answered
    · cases answered
      exact .refl good
    · cases answered
  | lost fresh clock =>
    simp only [Site.answer] at answered
    split at answered
    · cases answered
      unfold Site.lost
      split
      · exact kept_writeFile good (permitted good).2.2.1 fun _ same => by cases same
      · split
        next served => exact kept_perform good permitted (perform_of_serve served)
        · exact .refl good
    · cases answered
  | serve fresh clock =>
    simp only [Site.answer] at answered
    split at answered
    · cases answered
    · split at answered
      next served =>
        cases answered
        exact kept_perform good permitted (perform_of_serve served)
      · cases answered
        exact .refl good
      · cases answered

end Calls

/-! ### What happens by itself -/

/-- A step of nobody's `Setup`. -/
structure Unasked (b : BootServers) (artifacts : Artifacts) (s t : Site V) : Prop where
  good : Good b artifacts t
  rely : ∀ i, Rely b i s t
  devState : t.devState = s.devState

theorem Unasked.refl (good : Good b artifacts s) : Unasked b artifacts s s :=
  ⟨good, fun i => .refl b i s, rfl⟩

theorem unasked_cancel (good : Good b artifacts s) : Unasked b artifacts s (s.cancel lrn) where
  good := { good with prepared := fun i known => { good.prepared i known with } }
  rely i :=
    { Rely.refl b i s with
      cancelled := fun before => by
        simp only [Site.cancel, Function.update_apply]
        split
        · rfl
        · exact before
      leader := fun _ => { LeftToLeader.refl s with } }
  devState := rfl

theorem unasked_elect (good : Good b artifacts s) :
    Unasked b artifacts s { s with elected := true } where
  good :=
    { good with
      prepared := fun i known => { good.prepared i known with }
      elected := fun _ _ _ _ => rfl
      led := fun _ _ _ => rfl }
  rely i :=
    { Rely.refl b i s with
      elected := fun _ _ => rfl
      leader := fun _ => { LeftToLeader.refl s with } }
  devState := rfl

theorem unasked_etcdReady (good : Good b artifacts s) :
    Unasked b artifacts s { s with etcd := Function.update s.etcd lrn true } where
  good := { good with prepared := fun i known => { good.prepared i known with } }
  rely i :=
    { Rely.refl b i s with
      etcd := fun before => by
        simp only [Function.update_apply]
        split
        · rfl
        · exact before
      leader := fun _ => { LeftToLeader.refl s with } }
  devState := rfl

/-- A service writes to etcd, also below `status/`. -/
theorem unasked_commit (good : Good b artifacts s) (all : s.Restarted b) {c : Change}
    (allowed : byServices c = true) :
    Unasked b artifacts s { s with history := s.history ++ [c] } := by
  have registered (j : Int) :
      j ∈ Site.registered { s with history := s.history ++ [c] } ↔ j ∈ s.registered := by
    rw [registered_concat rfl]
    · refine or_iff_left ?_
      rintro rfl
      cases allowed
    · rintro i rfl
      cases allowed
  refine ⟨?_, fun i => ?_, rfl⟩
  · exact
      { good with
        prepared := fun i known =>
          { good.prepared i known with
            registered := (registered i).mpr (good.prepared i known).registered }
        members := fun j member => good.members j ((registered j).mp member)
        quiet := fun _ _ _ => all
        requested := requested_history (s := s) rfl rfl (fun all => all) rfl good.requested }
  · exact
      { Rely.refl b i s with
        registered := fun j => (registered j).mpr
        leader := fun _ => { LeftToLeader.refl s with } }

theorem unasked_record (good : Good b artifacts s) (serving : (s.machines lrn).serving = true)
    (name tag : String) :
    Unasked b artifacts s { s with installed := s.installed.put (keyContainer lrn name) tag } := by
  -- The tags of the other servers stay.
  have kept (i : Int) (idle : (s.machines i).serving = false) (name' : String) :
      Site.tag { s with installed := s.installed.put (keyContainer lrn name) tag } i name' =
        s.tag i name' := by
    have other : keyContainer i name' ≠ keyContainer lrn name := by
      intro same
      rw [(keyContainer_injective same).1, serving] at idle
      cases idle
    rw [Site.tag, KV.get_put, if_neg other]
    rfl
  refine ⟨?_, fun i => ?_, rfl⟩
  · exact
      { good with
        prepared := fun i known =>
          { good.prepared i known with
            tags := fun idle name' member =>
              (kept i idle name').trans ((good.prepared i known).tags idle name' member) } }
  · exact
      { Rely.refl b i s with
        tag := kept i
        leader := fun _ => { LeftToLeader.refl s with } }

theorem unasked_work (good : Good b artifacts s) (serving : (s.machines lrn).serving = true)
    {work : Work} (worked : s.work lrn work = some t) : Unasked b artifacts s t := by
  have all := good.serving lrn serving
  cases work with
  | commit c =>
    simp only [Site.work] at worked
    split at worked
    next allowed =>
      cases worked
      exact unasked_commit good all allowed
    · cases worked
  | record name tag =>
    cases worked
    have recorded : Unasked b artifacts s _ := unasked_record good serving name tag
    have committed := unasked_commit recorded.good all (c := .other) rfl
    exact ⟨committed.good, fun i => (recorded.rely i).trans (committed.rely i), rfl⟩

end Neco.Bootstrap
