import Neco.Properties.Leadership

/-!
# Waiting updaters

Each wait of `runLoop` watches one part of the store, while `NextAction` depends on all of
it. A leader that waits for workers follows the statuses itself; one that waits for a clear
depends on the request only; one that waits under `info/` relies on the statuses of a
completed update to stay as they are (`NoLatePuts`).
-/

namespace Neco

variable {V : Type} [DecidableEq V]

/-- The request in `status/current` is not stopped and all its servers have completed it. -/
def CompletedNow (h : List Change) : Prop :=
  match (store h).current with
  | some (R, _) => R.stop = false ∧ updateCompleted R.version R.servers (store h).statuses = true
  | none => False

instance (h : List Change) : Decidable (CompletedNow h) := by
  unfold CompletedNow
  split <;> infer_instance

/-- No worker puts a status once the request in `status/current` is completed. -/
def NoLatePuts (s : System) : SystemAction → Prop
  | .worker _ (.putStatus result) => result.applied = true → ¬ CompletedNow s.history
  | _ => True

instance (s : System) : ∀ a, Decidable (NoLatePuts s a)
  | .worker _ (.putStatus _) => inferInstanceAs (Decidable (_ → _))
  | .worker _ (.start _) | .worker _ .exit | .worker _ .getRequest | .worker _ .receiveRequest
  | .worker _ .examine | .worker _ .receiveEvent | .worker _ (.watchError _)
  | .worker _ (.runStepDone _) | .updater .. | .recover ..
  | .campaign _ | .loseKey _ | .registerBootserver _ | .deleteBootServer _
  | .updateNecoRelease _ | .other | .tick _ => .isTrue trivial

/-! ### The statuses of a waiting leader -/

/-- What the store knows about `version`, the handler knows too. -/
def Agrees (version : String) (store handler : Statuses) : Prop :=
  ∀ lrn st, store.lookup lrn = some st → st.version = version → handler.lookup lrn = some st

theorem Agrees.completed {version : String} {store handler : Statuses}
    (agrees : Agrees version store handler) {servers : List Int}
    (uncompleted : updateCompleted version servers handler = false) :
    updateCompleted version servers store = false := by
  rw [← Bool.not_eq_true, updateCompleted_iff] at uncompleted ⊢
  intro all
  refine uncompleted fun lrn member => ?_
  obtain ⟨st, found, same, complete⟩ := all lrn member
  exact ⟨st, agrees lrn st found same, same, complete⟩

theorem Agrees.unaborted {version : String} {store handler : Statuses}
    (agrees : Agrees version store handler) (unaborted : anyAborted version handler = false) :
    anyAborted version store = false := by
  rw [← Bool.not_eq_true, anyAborted_iff] at unaborted ⊢
  rintro ⟨lrn, st, found, same, aborted⟩
  exact unaborted ⟨lrn, st, agrees lrn st found same, same, aborted⟩

/-- The handler's view of the statuses while it has not ended the wait. -/
structure Follows (req : UpdateRequest) (store handler : Statuses) : Prop where
  agrees : Agrees req.version store handler
  uncompleted : updateCompleted req.version req.servers handler = false
  unaborted : anyAborted req.version handler = false

theorem Follows.status {req : UpdateRequest} {store handler : Statuses}
    (follows : Follows req store handler) {lrn : Int} {st : UpdateStatus}
    (goes : (handleStatus req handler lrn st).2 = false) :
    Follows req (store.insert lrn st) (handleStatus req handler lrn st).1 := by
  by_cases version : st.version = req.version
  · have going : st.cond ≠ .abort := by
      intro aborted
      rw [handleStatus, StatusHandler.handleStatus_abort _ _ _ version aborted] at goes
      cases goes
    rw [handleStatus, StatusHandler.handleStatus_report _ _ _ version going] at goes ⊢
    cases completed : updateCompleted req.version req.servers (handler.insert lrn st) with
    | true => simp [completed] at goes
    | false =>
      rw [if_neg Bool.false_ne_true]
      refine ⟨fun lrn' st' found version => ?_, completed, ?_⟩
      · by_cases here : lrn' = lrn
        · subst here
          rw [AList.lookup_insert] at found ⊢
          exact found
        · rw [AList.lookup_insert_ne here] at found ⊢
          exact follows.agrees lrn' st' found version
      · rw [← Bool.not_eq_true, anyAborted_iff]
        rintro ⟨lrn', st', found, version, aborted⟩
        by_cases here : lrn' = lrn
        · subst here
          rw [AList.lookup_insert, Option.some.injEq] at found
          subst found
          exact going aborted
        · rw [AList.lookup_insert_ne here] at found
          have before := follows.unaborted
          rw [← Bool.not_eq_true, anyAborted_iff] at before
          exact before ⟨lrn', st', found, version, aborted⟩
  · -- a status of another version hides what the store knew about its server
    have ignored : handleStatus req handler lrn st = (handler, false) := by
      simp [handleStatus, StatusHandler.handleStatus, version]
    rw [ignored]
    refine ⟨fun lrn' st' found same => ?_, follows.uncompleted, follows.unaborted⟩
    by_cases here : lrn' = lrn
    · subst here
      rw [AList.lookup_insert, Option.some.injEq] at found
      subst found
      exact absurd same version
    · rw [AList.lookup_insert_ne here] at found
      exact follows.agrees lrn' st' found same

/-- Transactions that are no status put add nothing to what the store knows. -/
theorem Follows.other {req : UpdateRequest} {h : List Change} {handler : Statuses}
    (follows : Follows req (store h).statuses handler) {c : Change}
    (noReport : ∀ lrn st o, c ≠ .putStatus lrn st o) :
    Follows req (store (h ++ [c])).statuses handler := by
  refine ⟨fun lrn st found => ?_, follows.uncompleted, follows.unaborted⟩
  rw [store_concat] at found
  rcases lookup_statuses_apply found with ⟨o, report⟩ | older
  · exact absurd report (noReport lrn st o)
  · exact follows.agrees lrn st older

/-! ### The invariant -/

/-- What an updater that waits has decided on, and what it has learned since. -/
def Waiting (cfg : Config V) (h : List Change) (now : Int) : Updater → Prop
  | .waitInfo _ ss => ∃ t ≤ now, nextAction cfg.newVersion cfg.timeout t ss = .waitInfo
  | .waitClear _ ss => ∃ t ≤ now, nextAction cfg.newVersion cfg.timeout t ss = .waitClear
  | .waitWorkers _ ss req statuses pos =>
    (∃ t ≤ now, nextAction cfg.newVersion cfg.timeout t ss = .waitWorkers) ∧
      ss.request = some req ∧ ss.revision ≤ pos ∧ pos ≤ h.length ∧
      Follows req (store (h.take pos)).statuses statuses
  | _ => True

/-- A snapshot was taken on a prefix of the history. -/
def Taken (h : List Change) (ss : Snapshot) : Prop :=
  ∃ h₀ later, h = h₀ ++ later ∧ ss = newSnapshot h₀

structure Alert (cfg : Config V) (s : System) : Prop where
  orderly : Orderly s
  valid : (store s.history).latest = "" ∨
    (cfg.newVersion (store s.history).latest).isSome = true
  taken : ∀ u ss, (s.updaters u).snapshot = some ss →
    Taken s.history ss ∧ (ss.latest ≠ "" → (store s.history).latest ≠ "")
  late : History.Each (fun h c => ∀ lrn st o, c = .putStatus lrn st o → ¬ CompletedNow h) s.history
  waits : ∀ u, Waiting cfg s.history s.now (s.updaters u)

theorem Waiting.mono {cfg : Config V} {h : List Change} {now : Int} {u : Updater}
    (waiting : Waiting cfg h now u) (k : List Change) {later : Int} (passed : now ≤ later) :
    Waiting cfg (h ++ k) later u := by
  have decided {ss : Snapshot} {action : Action}
      (before : ∃ t ≤ now, nextAction cfg.newVersion cfg.timeout t ss = action) :
      ∃ t ≤ later, nextAction cfg.newVersion cfg.timeout t ss = action := by
    obtain ⟨t, early, same⟩ := before
    exact ⟨t, Int.le_trans early passed, same⟩
  cases u with
  | waitInfo key ss => exact decided waiting
  | waitClear key ss => exact decided waiting
  | waitWorkers key ss req statuses pos =>
    obtain ⟨before, request, low, high, follows⟩ := waiting
    refine ⟨decided before, request, low, ?_, ?_⟩
    · rw [List.length_append]
      exact Nat.le_add_right_of_le high
    · rw [List.take_append_of_le_length high]
      exact follows
  | _ => trivial

theorem Taken.append {h : List Change} {ss : Snapshot} (taken : Taken h ss) (k : List Change) :
    Taken (h ++ k) ss := by
  obtain ⟨h₀, later, rfl, same⟩ := taken
  exact ⟨h₀, later ++ k, List.append_assoc .., same⟩

/-- The step of an updater into or within a wait. -/
theorem UpdaterMove.waiting {cfg : Config V} {h : List Change} {keys : List Nat} {now : Int}
    {u u' : Updater} {a : UpdaterAction} {cs : List Change}
    (move : UpdaterMove cfg h keys now u a u' cs) (waiting : Waiting cfg h now u)
    (taken : ∀ ss, u.snapshot = some ss → Taken h ss) : Waiting cfg (h ++ cs) now u' := by
  cases move with
  | decide key ss =>
    rw [List.append_nil]
    obtain ⟨h₀, later, rfl, rfl⟩ := taken ss rfl
    cases action : nextAction cfg.newVersion cfg.timeout now (newSnapshot h₀) with
    | waitInfo => exact ⟨now, Int.le_refl _, action⟩
    | waitClear => exact ⟨now, Int.le_refl _, action⟩
    | waitWorkers =>
      -- the handler starts with the statuses of the snapshot
      obtain ⟨_, _, req, present, _, unaborted, uncompleted, _⟩ :=
        (nextAction_waitWorkers_iff ..).mp action
      simp only [perform, present]
      refine ⟨⟨now, Int.le_refl _, action⟩, present, Nat.le_refl _, ?_, ?_, uncompleted, unaborted⟩
      · simp [newSnapshot]
      · intro lrn st found _
        simpa [newSnapshot] using found
    | error => trivial
    | newVersion => trivial
    | reconfigure => simp only [perform]; split <;> trivial
    | stop => simp only [perform]; split <;> trivial
  | status key ss req statuses pos lrn st o here =>
    rw [List.append_nil]
    obtain ⟨before, request, low, high, follows⟩ := waiting
    split
    · trivial
    next goes =>
      refine ⟨before, request, Nat.le_succ_of_le low, (List.getElem?_eq_some_iff.mp here).1, ?_⟩
      rw [List.take_add_one, here, Option.toList_some, store_concat]
      exact follows.status (by simpa using goes)
  | skipped key ss req statuses pos c here noReport =>
    rw [List.append_nil]
    obtain ⟨before, request, low, high, follows⟩ := waiting
    refine ⟨before, request, Nat.le_succ_of_le low, (List.getElem?_eq_some_iff.mp here).1, ?_⟩
    rw [List.take_add_one, here, Option.toList_some]
    exact follows.other noReport
  | put key ss c acknowledged live => cases acknowledged <;> trivial
  | elected => trivial
  | snapshot => trivial
  | refused => trivial
  | wakeInfo => trivial
  | wakeClear => trivial
  | deadline => trivial
  | fail => trivial

/-- Parties other than updaters: a transaction, or none, and time may pass. -/
theorem Alert.extend {cfg : Config V} {s t : System} (alert : Alert cfg s) (orderly : Orderly t)
    (cs : List Change) (history : t.history = s.history ++ cs) (passed : s.now ≤ t.now)
    (release : (store t.history).latest = (store s.history).latest ∨
      (store t.history).latest ≠ "" ∧ (cfg.newVersion (store t.history).latest).isSome = true)
    (late : History.Each (fun h c => ∀ lrn st o, c = .putStatus lrn st o → ¬ CompletedNow h)
      t.history)
    (updaters : ∀ u, t.updaters u = s.updaters u ∨
      (∀ ss, (t.updaters u).snapshot = some ss →
        (s.updaters u).snapshot = some ss ∨ ss = newSnapshot s.history) ∧
      Waiting cfg t.history t.now (t.updaters u)) : Alert cfg t := by
  have older {u : Nat} {ss : Snapshot} (has : (s.updaters u).snapshot = some ss) :
      Taken t.history ss ∧ (ss.latest ≠ "" → (store t.history).latest ≠ "") := by
    obtain ⟨taken, kept⟩ := alert.taken u ss has
    refine ⟨history ▸ taken.append cs, fun something => ?_⟩
    rcases release with same | ⟨something', _⟩
    · rw [same]
      exact kept something
    · exact something'
  refine ⟨orderly, ?_, ?_, late, ?_⟩
  · rcases release with same | ⟨_, valid⟩
    · rw [same]
      exact alert.valid
    · exact Or.inr valid
  · intro u ss has
    rcases updaters u with same | ⟨snapshots, _⟩
    · exact older (same ▸ has)
    · rcases snapshots ss has with old | rfl
      · exact older old
      · refine ⟨⟨s.history, cs, history, rfl⟩, fun something => ?_⟩
        rcases release with same | ⟨something', _⟩
        · rw [same]
          exact something
        · exact something'
  · intro u
    rcases updaters u with same | ⟨_, waiting⟩
    · rw [same, history]
      exact (alert.waits u).mono cs passed
    · exact waiting

theorem alert_step {cfg : Config V} {s s' : System} {a : SystemAction}
    (parses : ∀ v, (newNecoRelease v).isSome = true → (cfg.newVersion v).isSome = true)
    (alert : Alert cfg s) (early : NoLatePuts s a) (stepped : Stepped cfg s a s') :
    Alert cfg s' := by
  have orderly := orderly_step alert.orderly stepped
  -- a transaction that reports nothing cannot be a late put
  have committed (c : Change) (noReport : ∀ lrn st o, c ≠ .putStatus lrn st o) :
      History.Each (fun h c => ∀ lrn st o, c = .putStatus lrn st o → ¬ CompletedNow h)
        (s.history ++ [c]) :=
    (History.each_concat _ _ _).mpr
      ⟨alert.late, fun lrn st o same => absurd same (noReport lrn st o)⟩
  -- the updaters that do not move
  have still : ∀ u, s.updaters u = s.updaters u ∨
      (∀ ss, (s.updaters u).snapshot = some ss →
        (s.updaters u).snapshot = some ss ∨ ss = newSnapshot s.history) ∧
      Waiting cfg s'.history s'.now (s.updaters u) := fun u => Or.inl rfl
  have noTime := Int.le_refl s.now
  cases stepped with
  | worker lrn a w cs events move =>
    rcases move.committed with rfl | ⟨job, st, pending, rfl⟩
    · exact alert.extend orderly [] rfl noTime (by simp) (by simpa using alert.late) still
    · -- the one case in which the condition on late puts is used
      refine alert.extend orderly _ rfl noTime (Or.inl (latest_keep (by simp))) ?_ still
      refine (History.each_concat _ _ _).mpr ⟨alert.late, fun _ _ _ _ => ?_⟩
      obtain ⟨result, rfl, applied, _⟩ := move.reported
      exact early applied
  | updater u a next cs move =>
    have waiting := move.waiting (alert.waits u) (fun ss has => (alert.taken u ss has).1)
    have updaters : ∀ v, Function.update s.updaters u next v = s.updaters v ∨
        (∀ ss, (Function.update s.updaters u next v).snapshot = some ss →
          (s.updaters v).snapshot = some ss ∨ ss = newSnapshot s.history) ∧
        Waiting cfg (s.history ++ cs) s.now (Function.update s.updaters u next v) := by
      intro v
      by_cases same : v = u
      · subst same
        rw [Function.update_self]
        exact Or.inr ⟨fun ss has => (move.snapshot_cases ss has).2, waiting⟩
      · rw [Function.update_of_ne same]
        exact Or.inl rfl
    rcases move.committed with rfl | ⟨key, ss, c, putting, _, rfl, _⟩
    · exact alert.extend orderly [] rfl noTime (by simp) (by simpa using alert.late) updaters
    · have decided := alert.orderly.decided u key ss c putting
      refine alert.extend orderly [c] rfl noTime (Or.inl (latest_keep ?_)) (committed c ?_) updaters
      · rintro v rfl
        cases decided
      · rintro lrn st o rfl
        cases decided
  | recoverRead c req m present stopped =>
    exact alert.extend orderly [] (by simp) noTime (Or.inl rfl) alert.late still
  | recoverClear c req m holds present =>
    exact alert.extend orderly _ rfl noTime (Or.inl (latest_keep (by simp)))
      (committed _ (by simp)) still
  | recoverRetry c => exact alert.extend orderly [] (by simp) noTime (Or.inl rfl) alert.late still
  | campaign u idle =>
    refine alert.extend orderly [] (by simp) noTime (Or.inl rfl) alert.late fun v => ?_
    by_cases same : v = u
    · subst same
      simp only [Function.update_self]
      refine Or.inr ⟨?_, trivial⟩
      intro ss has
      cases has
    · exact Or.inl (Function.update_of_ne same ..)
  | loseKey key => exact alert.extend orderly [] (by simp) noTime (Or.inl rfl) alert.late still
  | info a c info valid =>
    refine alert.extend orderly [c] rfl noTime ?_ (committed c ?_) still
    · by_cases release : ∃ v, c = .updateNecoRelease v
      · -- a new release has a version that parses, so that it is not the empty text
        obtain ⟨v, rfl⟩ := release
        have accepted := valid v rfl
        refine Or.inr ?_
        simp only [System.commit, store_concat, Store.apply]
        refine ⟨?_, parses v accepted⟩
        rintro rfl
        revert accepted
        decide
      · exact Or.inl (latest_keep fun v same => release ⟨v, same⟩)
    · rintro lrn st o rfl
      cases info
  | other a =>
    exact alert.extend orderly _ rfl noTime (Or.inl (latest_keep (by simp)))
      (committed _ (by simp)) still
  | tick elapsed =>
    refine alert.extend orderly [] (by simp) ?_ (Or.inl rfl) alert.late still
    show s.now ≤ s.now + elapsed
    omega

omit [DecidableEq V] in
theorem latest_info (newVersion : String → Option V) (info : List Change)
    (valid : ∀ c ∈ info, ∀ v, c = .updateNecoRelease v → v = "" ∨ (newVersion v).isSome = true) :
    (store info).latest = "" ∨ (newVersion (store info).latest).isSome = true := by
  induction info using List.reverseRecOn with
  | nil => exact Or.inl rfl
  | append_singleton info c ih =>
    by_cases release : ∃ v, c = .updateNecoRelease v
    · obtain ⟨v, rfl⟩ := release
      rw [store_concat]
      exact valid _ (by simp) v rfl
    · rw [latest_keep fun v same => release ⟨v, same⟩]
      exact ih fun d member => valid d (List.mem_append_left _ member)

theorem alert_initial {cfg : Config V} {s : System} (initial : s.Initial cfg.newVersion) :
    Alert cfg s := by
  obtain ⟨info, plain, started⟩ := initial.setup
  have valid := latest_info cfg.newVersion info fun c member => (plain c member).2
  refine ⟨orderly_initial initial, ?_, ?_, ?_, ?_⟩
  · rcases started with same | ⟨req, _, same⟩
    · rw [same]
      exact valid
    · rw [same, latest_keep (by simp)]
      exact valid
  · intro u ss has
    rw [initial.updaters u] at has
    cases has
  · rintro h₁ c h₂ split lrn st o rfl
    have inside : Change.putStatus lrn st o ∈ s.history := by simp [split]
    have early : Change.putStatus lrn st o ∈ info := by
      rcases started with same | ⟨req, _, same⟩ <;> simpa [same] using inside
    exact absurd rfl ((isStatus_false (plain _ early).1).2.2 lrn st o)
  · intro u
    rw [initial.updaters u]
    trivial

theorem alert_reached {cfg : Config V} {s : System}
    (parses : ∀ v, (newNecoRelease v).isSome = true → (cfg.newVersion v).isSome = true)
    (reached : Reached cfg NoLatePuts s) : Alert cfg s := by
  obtain ⟨s₀, initial, run⟩ := reached
  exact run.invariant (Alert cfg) (alert_initial initial)
    fun t a u alert early stepped => alert_step parses alert early (step_stepped cfg t u a stepped)

/-! ### What does not change during a wait -/

theorem info_keep (h₀ later : List Change) (quiet : ∀ c ∈ later, c.isInfo = false) :
    (store (h₀ ++ later)).latest = (store h₀).latest ∧
      (store (h₀ ++ later)).bootservers = (store h₀).bootservers := by
  induction later using List.reverseRecOn with
  | nil => simp
  | append_singleton later c ih =>
    have before := ih fun d member => quiet d (List.mem_append_left _ member)
    have here := quiet c (by simp)
    rw [← List.append_assoc, store_concat]
    cases c with
    | updateNecoRelease v => cases here
    | registerBootserver lrn => cases here
    | deleteBootServer lrn => cases here
    | _ => exact before

/-- The statuses of a completed request stay as they are. -/
theorem completed_keep (h₀ later : List Change) {R : UpdateRequest} {m : Nat}
    (present : (store h₀).current = some (R, m)) (running : R.stop = false)
    (completed : updateCompleted R.version R.servers (store h₀).statuses = true)
    (permitted : History.Each Permitted (h₀ ++ later))
    (late : History.Each (fun h c => ∀ lrn st o, c = .putStatus lrn st o → ¬ CompletedNow h)
      (h₀ ++ later)) (no : ∀ c ∈ later, c.request? = none) :
    (store (h₀ ++ later)).current = some (R, m) ∧
      (store (h₀ ++ later)).statuses = (store h₀).statuses := by
  induction later using List.reverseRecOn with
  | nil => simpa using present
  | append_singleton later c ih =>
    rw [← List.append_assoc] at permitted late ⊢
    rw [History.each_concat] at permitted late
    obtain ⟨current, statuses⟩ :=
      ih permitted.1 late.1 fun d member => no d (List.mem_append_left _ member)
    have noRequest := no c (by simp)
    have noClear : c ≠ .clearStatusAndContents := by
      rintro rfl
      cases permitted.2 with
      | clear R' m' present' stopped =>
        rw [current] at present'
        cases present'
        rw [running] at stopped
        cases stopped
      | plain _ _ absurd => exact absurd rfl
    have noReport (lrn : Int) (st : UpdateStatus) (o : Nat) : c ≠ .putStatus lrn st o := by
      intro same
      refine late.2 lrn st o same ?_
      simp only [CompletedNow, current]
      exact ⟨running, statuses ▸ completed⟩
    obtain ⟨sameCurrent, sameStatuses⟩ := store_concat_plain noRequest noClear noReport
    exact ⟨sameCurrent.trans current, sameStatuses.trans statuses⟩

theorem Follows.rest {req : UpdateRequest} {handler : Statuses} (h k : List Change)
    (follows : Follows req (store h).statuses handler)
    (noReport : ∀ c ∈ k, ∀ lrn st o, c ≠ .putStatus lrn st o) :
    Follows req (store (h ++ k)).statuses handler := by
  induction k using List.reverseRecOn with
  | nil => simpa using follows
  | append_singleton k c ih =>
    rw [← List.append_assoc]
    exact (ih fun d member => noReport d (List.mem_append_left _ member)).other
      (noReport c (by simp))

namespace Alert

variable {cfg : Config V} {s : System}

theorem waitInfo (alert : Alert cfg s) {u key : Nat} (live : key ∈ s.keys) {ss : Snapshot}
    (blocked : s.updaters u = .waitInfo key ss)
    (delivered : ∀ c ∈ s.history.drop ss.revision, c.isInfo = false) :
    nextAction cfg.newVersion cfg.timeout s.now (newSnapshot s.history) = .waitInfo := by
  obtain ⟨h₀, later, split, rfl, no⟩ :=
    alert.orderly.recent u key ss (by rw [blocked]; rfl) live (by rw [blocked]; rfl)
  have drop : s.history.drop (newSnapshot h₀).revision = later := by simp [split, newSnapshot]
  rw [drop] at delivered
  obtain ⟨latest, servers⟩ := info_keep h₀ later delivered
  have waiting := alert.waits u
  rw [blocked] at waiting
  obtain ⟨t, _, action⟩ := waiting
  rw [nextAction_waitInfo_iff] at action ⊢
  rw [split]
  rcases action with nothing | ⟨req, upToDate⟩
  · exact Or.inl (latest.trans nothing)
  · obtain ⟨⟨R, m⟩, present, rfl⟩ := Option.map_eq_some_iff.mp upToDate.request
    obtain ⟨current, statuses⟩ := completed_keep h₀ later present upToDate.running
      upToDate.completed (split ▸ alert.orderly.permitted) (split ▸ alert.late) no
    refine Or.inr ⟨R, ⟨⟨?_, upToDate.running, ?_⟩, ?_, ?_, ?_⟩⟩
    · simp [newSnapshot, current]
    · simpa only [newSnapshot, statuses] using upToDate.completed
    · simpa only [newSnapshot, statuses] using upToDate.unaborted
    · simpa only [newSnapshot, servers] using upToDate.servers
    · simpa only [newSnapshot, latest] using upToDate.versions

/-- The latest release is known and valid once a snapshot has seen one. -/
theorem release (alert : Alert cfg s) {u : Nat} {ss : Snapshot}
    (has : (s.updaters u).snapshot = some ss) (something : ss.latest ≠ "") :
    (newSnapshot s.history).latest ≠ "" ∧
      (cfg.newVersion (newSnapshot s.history).latest).isSome = true := by
  have kept := (alert.taken u ss has).2 something
  refine ⟨kept, ?_⟩
  rcases alert.valid with nothing | valid
  · exact absurd nothing kept
  · exact valid

theorem waitClear (alert : Alert cfg s) {u key : Nat} (live : key ∈ s.keys) {ss : Snapshot}
    (blocked : s.updaters u = .waitClear key ss)
    (delivered : ∀ c ∈ s.history.drop ss.revision, c ≠ .clearStatusAndContents) :
    nextAction cfg.newVersion cfg.timeout s.now (newSnapshot s.history) = .waitClear := by
  have has : (s.updaters u).snapshot = some ss := by rw [blocked]; rfl
  obtain ⟨h₀, later, split, rfl, no⟩ := alert.orderly.recent u key ss (by rw [blocked]; rfl) live has
  have drop : s.history.drop (newSnapshot h₀).revision = later := by simp [split, newSnapshot]
  rw [drop] at delivered
  have waiting := alert.waits u
  rw [blocked] at waiting
  obtain ⟨t, _, action⟩ := waiting
  rw [nextAction_waitClear_iff] at action ⊢
  obtain ⟨something, _, req, request, stopped⟩ := action
  obtain ⟨nonempty, valid⟩ := alert.release has something
  refine ⟨nonempty, valid, req, ?_, stopped⟩
  have current := current_plain h₀ later fun c member => ⟨no c member, delivered c member⟩
  simpa only [newSnapshot, split, current] using request

theorem waitWorkers (alert : Alert cfg s) {u key : Nat} (live : key ∈ s.keys) {ss : Snapshot}
    {req : UpdateRequest} {statuses : Statuses} {pos : Nat}
    (blocked : s.updaters u = .waitWorkers key ss req statuses pos)
    (delivered : ∀ c ∈ s.history.drop pos, ∀ lrn st o, c ≠ .putStatus lrn st o)
    (early : s.now < req.startedAt + cfg.timeout) :
    nextAction cfg.newVersion cfg.timeout s.now (newSnapshot s.history) = .waitWorkers := by
  have has : (s.updaters u).snapshot = some ss := by rw [blocked]; rfl
  obtain ⟨h₀, later, split, rfl, no⟩ := alert.orderly.recent u key ss (by rw [blocked]; rfl) live has
  have waiting := alert.waits u
  rw [blocked] at waiting
  obtain ⟨⟨t, _, action⟩, request, low, high, follows⟩ := waiting
  rw [nextAction_waitWorkers_iff] at action ⊢
  obtain ⟨something, _, req', request', running, _⟩ := action
  rw [request] at request'
  cases request'
  obtain ⟨nonempty, valid⟩ := alert.release has something
  have known := follows.rest _ _ delivered
  rw [List.take_append_drop] at known
  refine ⟨nonempty, valid, req, ?_, running, known.agrees.unaborted known.unaborted,
    known.agrees.completed known.uncompleted, by omega⟩
  obtain ⟨⟨R, m⟩, present, rfl⟩ := Option.map_eq_some_iff.mp request
  rcases current_kept h₀ later (split ▸ alert.orderly.permitted) no with
    same | ⟨_, R', m', present', stopped⟩
  · simp only [newSnapshot, split, same, present, Option.map_some]
  · rw [present] at present'
    cases present'
    rw [show R.stop = false from running] at stopped
    cases stopped

end Alert

/-! ### Main theorem -/

/-- **The updater loses no wake-up**, provided that no status is put once an update is
completed. While a leader is blocked in a wait and its watch has delivered everything,
`NextAction` on the present store is the action it decided on. -/
theorem updater_loses_no_wakeup (cfg : Config V)
    (parses : ∀ v, (newNecoRelease v).isSome = true → (cfg.newVersion v).isSome = true)
    (s : System) (reached : Reached cfg NoLatePuts s) (u key : Nat) (live : key ∈ s.keys) :
    (∀ ss, s.updaters u = .waitInfo key ss →
      (∀ c ∈ s.history.drop ss.revision, c.isInfo = false) →
      (∃ t ≤ s.now, nextAction cfg.newVersion cfg.timeout t ss = .waitInfo) ∧
        nextAction cfg.newVersion cfg.timeout s.now (newSnapshot s.history) = .waitInfo) ∧
    (∀ ss req statuses pos, s.updaters u = .waitWorkers key ss req statuses pos →
      (∀ c ∈ s.history.drop pos, ∀ lrn st o, c ≠ .putStatus lrn st o) →
      s.now < req.startedAt + cfg.timeout →
      (∃ t ≤ s.now, nextAction cfg.newVersion cfg.timeout t ss = .waitWorkers) ∧
        nextAction cfg.newVersion cfg.timeout s.now (newSnapshot s.history) = .waitWorkers) ∧
    ∀ ss, s.updaters u = .waitClear key ss →
      (∀ c ∈ s.history.drop ss.revision, c ≠ .clearStatusAndContents) →
      (∃ t ≤ s.now, nextAction cfg.newVersion cfg.timeout t ss = .waitClear) ∧
        nextAction cfg.newVersion cfg.timeout s.now (newSnapshot s.history) = .waitClear := by
  have alert := alert_reached parses reached
  have waiting := alert.waits u
  refine ⟨?_, ?_, ?_⟩
  · intro ss blocked delivered
    rw [blocked] at waiting
    exact ⟨waiting, alert.waitInfo live blocked delivered⟩
  · intro ss req statuses pos blocked delivered early
    rw [blocked] at waiting
    exact ⟨waiting.1, alert.waitWorkers live blocked delivered early⟩
  · intro ss blocked delivered
    rw [blocked] at waiting
    exact ⟨waiting, alert.waitClear live blocked delivered⟩

/-- An updater in `WaitInfo` with the key and the revision of its snapshot. -/
def Updater.waitsForInfo (u : Updater) (key revision : Nat) : Bool :=
  match u with
  | .waitInfo k ss => k == key && ss.revision == revision
  | _ => false

theorem Updater.waitsForInfo_iff (u : Updater) (key revision : Nat) :
    u.waitsForInfo key revision = true ↔
      ∃ ss, u = .waitInfo key ss ∧ ss.revision = revision := by
  cases u <;> simp [Updater.waitsForInfo]

/-- The update of one server is completed, and the leader waits for news. -/
def waitsForNews : System :=
  .play operatorConfig NoLatePuts [0] "2020.01.01-1"
    (beginLastStep "2020.01.01-1" [0] ++
      [.worker 0 (.runStepDone (.ok ())), .worker 0 (.putStatus .ok), .campaign 0,
        .updater 0 .elected, .updater 0 .snapshot, .updater 0 .decide, .other])

theorem updater_loses_no_wakeup_news :
    nextAction releaseVersion operatorConfig.timeout waitsForNews.now
      (newSnapshot waitsForNews.history) = .waitInfo := by
  have blocked : (waitsForNews.updaters 0).waitsForInfo 0 22 = true := by decide +kernel
  obtain ⟨ss, waits, revision⟩ := (Updater.waitsForInfo_iff _ _ _).mp blocked
  refine ((updater_loses_no_wakeup operatorConfig (fun v => ?_) waitsForNews
    (reached_play _ _ _ _ _ (by decide +kernel)) 0 0 (by decide +kernel)).1 ss waits ?_).2
  · simp [operatorConfig, releaseVersion]
  · rw [revision]
    decide +kernel

/-- Server 0 has completed the update and, started again, has found server 1 still at work;
it puts its abort when server 1 has completed too and the leader waits for news. -/
def abortUnseen : System :=
  .play operatorConfig Transition.always [0, 1] "2020.01.01-1"
    (beginLastStep "2020.01.01-1" [0, 1] ++
      [.worker 0 (.runStepDone (.ok ())), .worker 0 (.putStatus .ok), .worker 0 .exit,
        .worker 0 (.start "2020.01.01-1"), .worker 0 .getRequest, .worker 0 .examine,
        .worker 1 (.runStepDone (.ok ())), .worker 1 (.putStatus .ok), .campaign 0,
        .updater 0 .elected, .updater 0 .snapshot, .updater 0 .decide,
        .worker 0 (.putStatus .ok)])

theorem stop_without_wakeup :
    ∃ s : System, Reached operatorConfig Transition.always s ∧ ∃ u key ss, key ∈ s.keys ∧
      s.updaters u = .waitInfo key ss ∧ (∀ c ∈ s.history.drop ss.revision, c.isInfo = false) ∧
      nextAction releaseVersion operatorConfig.timeout s.now ss = .waitInfo ∧
      nextAction releaseVersion operatorConfig.timeout s.now (newSnapshot s.history) = .stop := by
  have blocked : (abortUnseen.updaters 0).waitsForInfo 0 42 = true := by decide +kernel
  have decided : ((abortUnseen.updaters 0).snapshot.map
      (nextAction releaseVersion operatorConfig.timeout abortUnseen.now)) = some .waitInfo := by
    decide +kernel
  obtain ⟨ss, waits, revision⟩ := (Updater.waitsForInfo_iff _ _ _).mp blocked
  refine ⟨abortUnseen, reached_play _ _ _ _ _ (by decide +kernel), 0, 0, ss, by decide +kernel,
    waits, ?_, ?_, by decide +kernel⟩
  · rw [revision]
    decide +kernel
  · rw [waits] at decided
    simpa [Updater.snapshot] using decided

end Neco
