import Neco.Steps

/-!
# Updaters and the request in progress

The decision of an updater is taken on a snapshot and committed later, in a
transaction that checks only the leader key. What makes this safe is collected in
`Orderly`: a live key belongs to one updater only and is the oldest one, so that no
request has been put since the snapshot of the updater that holds it.
-/

namespace Neco

variable {V : Type} [DecidableEq V]

/-! ### Leader keys -/

structure Leadership (s : System) : Prop where
  nodup : s.keys.Nodup
  fresh : ∀ k ∈ s.keys, k < s.nextKey
  bound : ∀ u k, (s.updaters u).key = some k → k < s.nextKey
  unique : ∀ u u' k, (s.updaters u).key = some k → (s.updaters u').key = some k → u = u'
  first : ∀ u k, (s.updaters u).term = some k → k ∈ s.keys → s.keys.head? = some k

theorem Updater.key_of_term {u : Updater} {k : Nat} (leads : u.term = some k) : u.key = some k := by
  cases u <;> first | exact leads | cases leads

/-- Only the owner of the oldest key leads. -/
theorem Leadership.leader_unique {s : System} (lead : Leadership s) {u u' : Nat} {k k' : Nat}
    (leads : (s.updaters u).term = some k) (live : k ∈ s.keys)
    (leads' : (s.updaters u').term = some k') (live' : k' ∈ s.keys) : u = u' := by
  have first := lead.first u k leads live
  have first' := lead.first u' k' leads' live'
  rw [first] at first'
  cases first'
  exact lead.unique u u' k (Updater.key_of_term leads) (Updater.key_of_term leads')

theorem Leadership.congr {s t : System} (lead : Leadership s) (updaters : t.updaters = s.updaters)
    (keys : t.keys = s.keys) (nextKey : t.nextKey = s.nextKey) : Leadership t := by
  refine ⟨?_, ?_, ?_, ?_, ?_⟩ <;> simp only [updaters, keys, nextKey]
  exacts [lead.nodup, lead.fresh, lead.bound, lead.unique, lead.first]

/-- A step of one updater that keeps the keys keeps the leadership. -/
theorem Leadership.updater {s : System} (lead : Leadership s) {cfg : Config V} {u : Nat}
    {a : UpdaterAction} {next : Updater} {cs : List Change}
    (move : UpdaterMove cfg s.history s.keys s.now (s.updaters u) a next cs) (h : List Change) :
    Leadership { s with updaters := Function.update s.updaters u next, history := h } := by
  -- every key after the step was held by the same updater before it
  have held (v k : Nat) (has : (Function.update s.updaters u next v).key = some k) :
      (s.updaters v).key = some k := by
    by_cases same : v = u
    · subst same
      rw [Function.update_self] at has
      exact move.key_kept k has
    · rwa [Function.update_of_ne same] at has
  refine ⟨lead.nodup, lead.fresh, fun v k has => lead.bound v k (held v k has),
    fun v v' k has has' => lead.unique v v' k (held v k has) (held v' k has'), ?_⟩
  intro v k leads live
  by_cases same : v = u
  · subst same
    simp only [Function.update_self] at leads
    rcases move.term_cases k leads with before | ⟨_, first⟩
    · exact lead.first v k before live
    · exact first
  · simp only [Function.update_of_ne same] at leads
    exact lead.first v k leads live

theorem Leadership.campaign {s : System} (lead : Leadership s) (u : Nat) :
    Leadership { s with
      updaters := Function.update s.updaters u (.campaigning s.nextKey)
      keys := s.keys ++ [s.nextKey]
      nextKey := s.nextKey + 1 } where
  nodup := by
    rw [List.nodup_append]
    refine ⟨lead.nodup, List.nodup_singleton _, ?_⟩
    intro k old k' new same
    rw [List.mem_singleton] at new
    have below := lead.fresh k old
    omega
  fresh := by
    intro k member
    rcases List.mem_append.mp member with old | new
    · exact Nat.lt_succ_of_lt (lead.fresh k old)
    · rw [List.mem_singleton] at new
      exact new ▸ Nat.lt_succ_self _
  bound := by
    intro v k has
    by_cases same : v = u
    · subst same
      simp only [Function.update_self, Updater.key, Option.some.injEq] at has
      exact has ▸ Nat.lt_succ_self _
    · simp only [Function.update_of_ne same] at has
      exact Nat.lt_succ_of_lt (lead.bound v k has)
  unique := by
    -- the new key is above every key anyone has
    intro v v' k has has'
    by_cases same : v = u <;> by_cases same' : v' = u
    · rw [same, same']
    · subst same
      simp only [Function.update_self, Function.update_of_ne same', Updater.key,
        Option.some.injEq] at has has'
      have below := lead.bound v' k has'
      omega
    · subst same'
      simp only [Function.update_self, Function.update_of_ne same, Updater.key,
        Option.some.injEq] at has has'
      have below := lead.bound v k has
      omega
    · simp only [Function.update_of_ne same, Function.update_of_ne same'] at has has'
      exact lead.unique v v' k has has'
  first := by
    -- it is queued behind the others, so the first one stays the first
    intro v k leads live
    by_cases same : v = u
    · subst same
      simp [Function.update_self, Updater.term] at leads
    · simp only [Function.update_of_ne same] at leads
      have below := lead.bound v k (Updater.key_of_term leads)
      have old : k ∈ s.keys := by
        rcases List.mem_append.mp live with old | new
        · exact old
        · rw [List.mem_singleton] at new
          omega
      have head := lead.first v k leads old
      rw [List.head?_append, head]
      rfl

/-- The oldest key stays the oldest one as long as it is there. -/
theorem head?_erase {keys : List Nat} {k : Nat} (nodup : keys.Nodup) (head : keys.head? = some k)
    (key : Nat) (live : k ∈ keys.erase key) : (keys.erase key).head? = some k := by
  have differs : key ≠ k := by
    rintro rfl
    exact nodup.not_mem_erase live
  cases keys with
  | nil => cases head
  | cons first rest =>
    simp only [List.head?_cons, Option.some.injEq] at head
    subst head
    rw [List.erase_cons_tail (by simpa using differs.symm)]
    rfl

theorem Leadership.loseKey {s : System} (lead : Leadership s) (key : Nat) :
    Leadership { s with keys := s.keys.erase key } where
  nodup := lead.nodup.erase key
  fresh := fun k member => lead.fresh k (List.mem_of_mem_erase member)
  bound := lead.bound
  unique := lead.unique
  first := by
    intro u k leads live
    exact head?_erase lead.nodup (lead.first u k leads (List.mem_of_mem_erase live)) key live

/-! ### Puts that respect the request in progress -/

/-- At some earlier point the request `(R, m)` was current and all its servers had
completed it. -/
def CompletedBefore (h : List Change) (R : UpdateRequest) (m : Nat) : Prop :=
  ∃ h₀ later, h = h₀ ++ later ∧ (store h₀).current = some (R, m) ∧
    updateCompleted R.version R.servers (store h₀).statuses = true

/-- The transactions on `status/` that the history `h` permits. -/
inductive Permitted (h : List Change) : Change → Prop
  | first (req : UpdateRequest) : (store h).current = none → req.stop = false →
      Permitted h (.putRequest req)
  | newVersion (R req : UpdateRequest) (m : Nat) : (store h).current = some (R, m) →
      R.stop = false → req.stop = false → req.servers = R.servers → req.version ≠ R.version →
      CompletedBefore h R m → Permitted h (.putRequest req)
  | stop (R : UpdateRequest) (m : Nat) : (store h).current = some (R, m) → R.stop = false →
      Permitted h (.putRequest { R with stop := true })
  | reconfigure (R req : UpdateRequest) (m : Nat) : (store h).current = some (R, m) →
      R.stop = false → req.stop = false → req.version = R.version → CompletedBefore h R m →
      Permitted h (.putReconfigureRequest req)
  | clear (R : UpdateRequest) (m : Nat) : (store h).current = some (R, m) → R.stop = true →
      Permitted h .clearStatusAndContents
  | plain (c : Change) : c.request? = none → c ≠ .clearStatusAndContents → Permitted h c

/-- `ss` was taken on a prefix of the history after which no request was put. -/
def Recent (h : List Change) (ss : Snapshot) : Prop :=
  ∃ h₀ later, h = h₀ ++ later ∧ ss = newSnapshot h₀ ∧ ∀ c ∈ later, c.request? = none

theorem Recent.concat {h : List Change} {ss : Snapshot} (recent : Recent h ss) {c : Change}
    (no : c.request? = none) : Recent (h ++ [c]) ss := by
  obtain ⟨h₀, later, rfl, taken, none⟩ := recent
  refine ⟨h₀, later ++ [c], by simp, taken, ?_⟩
  intro d member
  rcases List.mem_append.mp member with old | new
  · exact none d old
  · rw [List.mem_singleton] at new
    exact new ▸ no

/-- Without a put, a request stays current unless it is stopped and cleared. -/
theorem current_kept (h₀ : List Change) (later : List Change)
    (permitted : History.Each Permitted (h₀ ++ later)) (no : ∀ c ∈ later, c.request? = none) :
    (store (h₀ ++ later)).current = (store h₀).current ∨
      ((store (h₀ ++ later)).current = none ∧
        ∃ R m, (store h₀).current = some (R, m) ∧ R.stop = true) := by
  induction later using List.reverseRecOn with
  | nil => exact Or.inl (by simp)
  | append_singleton later c ih =>
    rw [← List.append_assoc] at permitted ⊢
    rw [History.each_concat] at permitted
    have before := ih permitted.1 (fun d member => no d (List.mem_append_left _ member))
    rw [store_concat, current_apply, no c (by simp)]
    by_cases clear : c = .clearStatusAndContents
    · subst clear
      simp only [if_true]
      cases permitted.2 with
      | clear R m present stopped =>
        rcases before with same | ⟨gone, _⟩
        · exact Or.inr ⟨trivial, R, m, same ▸ present, stopped⟩
        · rw [gone] at present
          cases present
      | plain _ _ absurd => exact absurd rfl |>.elim
    · simp only [clear, if_false]
      exact before

/-- The decision of an updater is still right when it is committed. -/
theorem Decided.permitted {h : List Change} {ss : Snapshot} {c : Change}
    (decided : Decided ss c) (recent : Recent h ss) (orderly : History.Each Permitted h) :
    Permitted h c := by
  obtain ⟨h₀, later, rfl, rfl, no⟩ := recent
  have kept := current_kept h₀ later orderly no
  have current {req : UpdateRequest} (has : (newSnapshot h₀).request = some req)
      (running : req.stop = false) : ∃ m, (store h₀).current = some (req, m) ∧
        (store (h₀ ++ later)).current = some (req, m) := by
    obtain ⟨⟨R, m⟩, present, rfl⟩ := Option.map_eq_some_iff.mp has
    refine ⟨m, present, ?_⟩
    rcases kept with same | ⟨_, R', m', present', stopped⟩
    · rw [same, present]
    · rw [present] at present'
      cases present'
      rw [running] at stopped
      cases stopped
  cases decided with
  | first now absent =>
    have none : (store h₀).current = none := Option.map_eq_none_iff.mp absent
    refine .first _ ?_ rfl
    rcases kept with same | ⟨gone, _⟩
    · rw [same, none]
    · exact gone
  | newVersion now req finished servers version =>
    obtain ⟨m, then_, now_⟩ := current finished.request finished.running
    exact .newVersion req _ m now_ finished.running rfl servers.symm version.symm
      ⟨h₀, later, rfl, then_, finished.completed⟩
  | stop req has running =>
    obtain ⟨m, _, now_⟩ := current has running
    exact .stop req m now_ running
  | reconfigure now req finished =>
    obtain ⟨m, then_, now_⟩ := current finished.request finished.running
    exact .reconfigure req _ m now_ finished.running rfl rfl
      ⟨h₀, later, rfl, then_, finished.completed⟩

/-! ### The invariant of all runs -/

structure Orderly (s : System) : Prop where
  lead : Leadership s
  permitted : History.Each Permitted s.history
  clearing : ∀ c m, s.recovers c = .clearing m →
    ∃ req, requestAt s.history m = some req ∧ req.stop = true
  recent : ∀ u k ss, (s.updaters u).term = some k → k ∈ s.keys →
    (s.updaters u).snapshot = some ss → Recent s.history ss
  decided : ∀ u k ss c, s.updaters u = .putting k ss c → Decided ss c

/-- Transactions other than puts of a request keep every clause but `permitted`. -/
theorem Orderly.commit {s : System} (inv : Orderly s) {c : Change} (no : c.request? = none)
    (permitted : Permitted s.history c) : Orderly (s.commit [c]) where
  lead := inv.lead.congr rfl rfl rfl
  permitted := (History.each_concat _ _ _).mpr ⟨inv.permitted, permitted⟩
  clearing := by
    intro r m holds
    obtain ⟨req, put, stopped⟩ := inv.clearing r m holds
    exact ⟨req, requestAt_append put [c], stopped⟩
  recent := fun u k ss leads live has => (inv.recent u k ss leads live has).concat no
  decided := inv.decided

/-- A recover that is about to clear has read a stopped request. -/
theorem Orderly.recover {s : System} (inv : Orderly s) (c : Nat) {state : Recover}
    (own : ∀ m, state = .clearing m → ∃ req, requestAt s.history m = some req ∧ req.stop = true) :
    Orderly { s with recovers := Function.update s.recovers c state } where
  lead := inv.lead.congr rfl rfl rfl
  permitted := inv.permitted
  clearing := (Function.forall_update_iff s.recovers fun _ state => ∀ m, state = .clearing m →
    ∃ req, requestAt s.history m = some req ∧ req.stop = true).mpr ⟨own, fun r _ => inv.clearing r⟩
  recent := inv.recent
  decided := inv.decided

/-- The clauses do not mention workers or the trace. -/
theorem Orderly.congr {s t : System} (inv : Orderly s) (history : t.history = s.history)
    (updaters : t.updaters = s.updaters) (recovers : t.recovers = s.recovers)
    (keys : t.keys = s.keys) (nextKey : t.nextKey = s.nextKey) : Orderly t where
  lead := inv.lead.congr updaters keys nextKey
  permitted := history ▸ inv.permitted
  clearing := by simpa only [history, recovers] using inv.clearing
  recent := by simpa only [history, updaters, keys] using inv.recent
  decided := by simpa only [updaters] using inv.decided

theorem UpdaterMove.decided {cfg : Config V} {h : List Change} {keys : List Nat} {now : Int}
    {u u' : Updater} {a : UpdaterAction} {cs : List Change}
    (move : UpdaterMove cfg h keys now u a u' cs) (key : Nat) (ss : Snapshot) (c : Change)
    (next : u' = .putting key ss c) : Decided ss c := by
  cases move with
  | decide key' ss' =>
    obtain ⟨_, rfl, decided⟩ := perform_putting _ _ _ _ _ _ _ _ next
    exact decided
  | put _ _ _ acknowledged _ => cases acknowledged <;> cases next
  | status => split at next <;> cases next
  | elected => cases next
  | snapshot => cases next
  | refused => cases next
  | wakeInfo => cases next
  | wakeClear => cases next
  | skipped => cases next
  | deadline => cases next
  | fail => cases next

theorem orderly_updater {cfg : Config V} {s : System} (inv : Orderly s) {u : Nat}
    {a : UpdaterAction} {next : Updater} {cs : List Change}
    (move : UpdaterMove cfg s.history s.keys s.now (s.updaters u) a next cs) :
    Orderly { s with updaters := Function.update s.updaters u next, history := s.history ++ cs } := by
  have lead := inv.lead.updater move (s.history ++ cs)
  have decided : ∀ v k ss c, Function.update s.updaters u next v = .putting k ss c →
      Decided ss c :=
    (Function.forall_update_iff s.updaters fun _ w => ∀ k ss c, w = .putting k ss c →
      Decided ss c).mpr ⟨move.decided, fun v _ => inv.decided v⟩
  rcases move.committed with rfl | ⟨key, ss, c, putting, live, rfl, ended⟩
  · rw [List.append_nil] at lead ⊢
    refine ⟨lead, inv.permitted, inv.clearing, ?_, decided⟩
    intro v k ss leads live has
    by_cases same : v = u
    · subst same
      simp only [Function.update_self] at leads has
      rcases (move.snapshot_cases ss has).2 with old | rfl
      · rcases move.term_cases k leads with before | ⟨campaigning, _⟩
        · exact inv.recent v k ss before live old
        · rw [campaigning] at old
          cases old
      · exact ⟨s.history, [], (List.append_nil _).symm, rfl, by simp⟩
    · simp only [Function.update_of_ne same] at leads has
      exact inv.recent v k ss leads live has
  · have leads : (s.updaters u).term = some key := by rw [putting]; rfl
    have recent := inv.recent u key ss leads live (by rw [putting]; rfl)
    have permitted := (inv.decided u key ss c putting).permitted recent inv.permitted
    refine ⟨lead, (History.each_concat _ _ _).mpr ⟨inv.permitted, permitted⟩, ?_, ?_, decided⟩
    · intro r m holds
      obtain ⟨req, put, stopped⟩ := inv.clearing r m holds
      exact ⟨req, requestAt_append put [c], stopped⟩
    · -- the put was the leader's, and its snapshot is spent
      intro v k ss' leads' live' has
      by_cases same : v = u
      · subst same
        simp only [Function.update_self] at has
        rw [ended] at has
        cases has
      · simp only [Function.update_of_ne same] at leads'
        exact absurd (inv.lead.leader_unique leads' live' leads live) same

theorem orderly_step {cfg : Config V} {s s' : System} {a : SystemAction} (inv : Orderly s)
    (stepped : Stepped cfg s a s') : Orderly s' := by
  cases stepped with
  | worker lrn a w cs events move =>
    rcases move.committed with rfl | ⟨job, st, _, rfl⟩
    · exact inv.congr (List.append_nil _) rfl rfl rfl rfl
    · exact (inv.commit rfl (.plain _ rfl (by simp))).congr rfl rfl rfl rfl rfl
  | updater u a next cs move => exact orderly_updater inv move
  | recoverRead c req m present stopped =>
    refine inv.recover c fun m' holds => ?_
    cases holds
    exact ⟨req, current_requestAt present, stopped⟩
  | recoverClear c req m holds present =>
    -- the mod revision is compared, so that what is cleared is the stopped request that was read
    obtain ⟨req', put, stopped⟩ := inv.clearing c m holds
    rw [current_requestAt present] at put
    cases put
    exact (inv.commit rfl (.clear req m present stopped)).recover c fun m' again => by cases again
  | recoverRetry c => exact inv.recover c fun m holds => by cases holds
  | campaign u idle =>
    refine ⟨inv.lead.campaign u, inv.permitted, inv.clearing, ?_, ?_⟩
    · -- a new key does not lead, and the old leaders have older keys
      intro v k ss leads live has
      by_cases same : v = u
      · subst same
        simp [Function.update_self, Updater.term] at leads
      · simp only [Function.update_of_ne same] at leads has
        have below := inv.lead.bound v k (Updater.key_of_term leads)
        rcases List.mem_append.mp live with old | new
        · exact inv.recent v k ss leads old has
        · rw [List.mem_singleton] at new
          omega
    · refine (Function.forall_update_iff s.updaters fun _ w => ∀ k ss c, w = .putting k ss c →
        Decided ss c).mpr ⟨fun k ss c here => ?_, fun v _ => inv.decided v⟩
      cases here
  | loseKey key =>
    exact ⟨inv.lead.loseKey key, inv.permitted, inv.clearing,
      fun u k ss leads live has => inv.recent u k ss leads (List.mem_of_mem_erase live) has,
      inv.decided⟩
  | info a c info _ =>
    have plain : c.request? = none ∧ c ≠ .clearStatusAndContents := by
      cases c <;> simp [Change.isInfo, Change.request?] at info ⊢
    exact inv.commit plain.1 (.plain c plain.1 plain.2)
  | other a => exact inv.commit rfl (.plain _ rfl (by simp))
  | tick elapsed => exact inv.congr rfl rfl rfl rfl rfl

/-! ### The start -/

theorem permitted_info (info : List Change) (no : ∀ c ∈ info, c.isStatus = false) :
    History.Each Permitted info := by
  intro h₁ c h₂ split
  obtain ⟨noRequest, noClear, _⟩ := isStatus_false (no c (by simp [split]))
  exact .plain c noRequest noClear

omit [DecidableEq V] in
theorem orderly_initial {newVersion : String → Option V} {s : System}
    (initial : s.Initial newVersion) : Orderly s := by
  obtain ⟨info, plain, started⟩ := initial.setup
  obtain ⟨current, _⟩ := store_info info fun c member => (plain c member).1
  have permitted := permitted_info info fun c member => (plain c member).1
  have noKey (u : Nat) : (s.updaters u).key = none := by rw [initial.updaters u]; rfl
  have noTerm (u : Nat) : (s.updaters u).term = none := by rw [initial.updaters u]; rfl
  refine ⟨⟨?_, ?_, ?_, ?_, ?_⟩, ?_, ?_, ?_, ?_⟩
  · rw [initial.keys]
    exact List.nodup_nil
  · simp [initial.keys]
  · intro u k has
    simp [noKey] at has
  · intro u u' k has
    simp [noKey] at has
  · intro u k leads
    simp [noTerm] at leads
  · rcases started with same | ⟨req, running, same⟩
    · rw [same]
      exact permitted
    · rw [same, History.each_concat]
      exact ⟨permitted, .first req current running⟩
  · intro c m holds
    simp [initial.recovers c] at holds
  · intro u k ss leads
    simp [noTerm] at leads
  · intro u k ss c putting
    simp [initial.updaters u] at putting

theorem orderly_reached {cfg : Config V} {ok : System → SystemAction → Prop} {s : System}
    (reached : Reached cfg ok s) : Orderly s := by
  obtain ⟨s₀, initial, run⟩ := reached
  exact run.invariant Orderly (orderly_initial initial)
    fun t a u inv _ stepped => orderly_step inv (step_stepped cfg t u a stepped)

/-! ### Main theorem -/

/-- **Updaters never overwrite an update in progress.** Whenever a put replaces the
request `R` in `status/current`, `R` was not stopped; a stop keeps everything else of
`R`; and any other request is put only after all servers of `R` had completed it at a
point at which `R` was current. -/
theorem updaters_never_overwrite (cfg : Config V) (s : System)
    (reached : Reached cfg Transition.always s) (h₁ h₂ : List Change) (c : Change)
    (split : s.history = h₁ ++ c :: h₂) (req : UpdateRequest) (put : c.request? = some req)
    (R : UpdateRequest) (m : Nat) (replaced : (store h₁).current = some (R, m)) :
    R.stop = false ∧ (req.stop = true → req = { R with stop := true }) ∧
      (req.stop = false → ∃ h₀ later, h₁ = h₀ ++ later ∧ (store h₀).current = some (R, m) ∧
        updateCompleted R.version R.servers (store h₀).statuses = true) := by
  have permitted := (orderly_reached reached).permitted h₁ c h₂ split
  cases permitted with
  | first req' absent running =>
    rw [replaced] at absent
    cases absent
  | newVersion R' req' m' present running running' _ _ completed =>
    rw [replaced] at present
    cases present
    cases put
    exact ⟨running, by simp [running'], fun _ => completed⟩
  | stop R' m' present running =>
    rw [replaced] at present
    cases present
    cases put
    exact ⟨running, fun _ => rfl, by simp⟩
  | reconfigure R' req' m' present running running' _ completed =>
    rw [replaced] at present
    cases present
    cases put
    exact ⟨running, by simp [running'], fun _ => completed⟩
  | clear R' m' present stopped => cases put
  | plain c' no _ =>
    rw [put] at no
    cases no

/-- The first update completes, a release appears and the leader puts the next request. -/
def nextRelease : List SystemAction :=
  joinUpdate "2020.01.01-1" 0 ++
    (List.replicate operatorFinalStep (runTogether [0])).flatten ++
    [.updateNecoRelease "2020.01.02-2", .campaign 0, .updater 0 .elected] ++ decideAndPut 0

theorem updaters_never_overwrite_nextRelease :
    let s := System.play operatorConfig Transition.always [0] "2020.01.01-1" nextRelease
    let h₁ := s.history.take 23
    ∃ h₀ later, h₁ = h₀ ++ later ∧
      (store h₀).current = some (⟨"2020.01.01-1", [0], false, 0⟩, 3) ∧
      updateCompleted "2020.01.01-1" [0] (store h₀).statuses = true :=
  (updaters_never_overwrite operatorConfig
    (.play operatorConfig Transition.always [0] "2020.01.01-1" nextRelease)
    (reached_play _ _ _ _ _ (by decide +kernel)) _ []
    (.putRequest ⟨"2020.01.02-2", [0], false, 0⟩) (by decide +kernel) _ rfl
    ⟨"2020.01.01-1", [0], false, 0⟩ 3 (by decide +kernel)).2.2 rfl

end Neco
