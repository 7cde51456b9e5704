import Neco.Properties.Leadership
import Neco.Updater.ReleaseChecker

/-!
# The recorded release only moves forward

A checker compares with the release that it read at the start of its term. As long as its leader
key exists nobody else can have written since, because a later leader is elected only when the
key is gone, and the writes of earlier leaders find their keys gone. So every release that is
written is newer than the one it replaces, and by transitivity newer than all before it.
-/

namespace Neco

variable {V : Type} [DecidableEq V]

/-! ### The order of releases -/

/-- `update` goes on to record only what is newer than the release it knows. -/
theorem ReleaseChecker.newer_of_record {c : ReleaseChecker} {now : Int}
    {check : Except CheckError String} {latest : String}
    (records : c.update now check = .record latest) : Newer latest c.current := by
  unfold ReleaseChecker.update at records
  split at records
  · cases records
  split at records
  · cases records
  · cases records
  next answer =>
  split at records
  · cases records
  split at records
  · cases records
  next currentRelease readCurrent =>
  split at records
  · cases records
  next latestRelease readLatest =>
  split at records
  · cases records
  next newer =>
    cases records
    exact ⟨latestRelease, currentRelease, readLatest, readCurrent, by simpa using newer⟩

/-! ### The releases of a history -/

/-- The release that a transaction records. -/
def Change.release? : Change → Option String
  | .updateNecoRelease version => some version
  | _ => none

/-- The releases recorded by the transactions `h`. -/
def releases (h : List Change) : List String := h.filterMap Change.release?

/-- The later transactions recorded the releases `written`, each newer than all before it; the
present release is the last of them. -/
structure Forward (h₀ h : List Change) (written : List String) : Prop where
  recorded : releases h = releases h₀ ++ written
  increasing : ((store h₀).latest :: written).Pairwise fun older newer => Newer newer older
  last : ∀ old ∈ (store h₀).latest :: written,
    old = (store h).latest ∨ Newer (store h).latest old

theorem forward_refl (h : List Change) : Forward h h [] where
  recorded := (List.append_nil _).symm
  increasing := List.pairwise_singleton ..
  last := fun _ member => .inl (List.mem_singleton.mp member)

/-- A transaction that records nothing. -/
theorem Forward.other {h₀ h : List Change} {written : List String} (forward : Forward h₀ h written)
    {c : Change} (no : c.release? = none) : Forward h₀ (h ++ [c]) written where
  recorded := by
    rw [releases, List.filterMap_append, ← releases, forward.recorded, List.filterMap_cons, no]
    exact List.append_nil _
  increasing := forward.increasing
  last := by
    rw [latest_keep]
    · exact forward.last
    · rintro v rfl
      cases no

/-- A release newer than the present one is newer than all. -/
theorem Forward.record {h₀ h : List Change} {written : List String}
    (forward : Forward h₀ h written) {version : String} (newer : Newer version (store h).latest) :
    Forward h₀ (h ++ [.updateNecoRelease version]) (written ++ [version]) := by
  have all : ∀ old ∈ (store h₀).latest :: written, Newer version old := by
    intro old member
    rcases forward.last old member with rfl | older
    · exact newer
    · exact newer.trans older
  refine ⟨?_, ?_, fun old member => ?_⟩
  · rw [releases, List.filterMap_append, ← releases, forward.recorded]
    exact List.append_assoc ..
  · rw [← List.cons_append, List.pairwise_append]
    refine ⟨forward.increasing, List.pairwise_singleton .., fun old member new here => ?_⟩
    exact List.mem_singleton.mp here ▸ all old member
  · rw [← List.cons_append, List.mem_append, List.mem_singleton] at member
    rw [store_concat]
    exact member.symm.imp_right (all old)

/-! ### What a step of the process leaves to the checkers -/

/-- No other part of the process records a release. -/
theorem releases_kept {cfg : Config V} {s t : System} {a : SystemAction} (orderly : Orderly s)
    (stepped : s.step cfg a = some t) (no : ∀ v, a ≠ .updateNecoRelease v) :
    t.history = s.history ∨ ∃ c, t.history = s.history ++ [c] ∧ c.release? = none := by
  cases a with
  | updateNecoRelease v => exact absurd rfl (no v)
  | registerBootserver lrn =>
    cases stepped
    exact .inr ⟨_, rfl, rfl⟩
  | deleteBootServer lrn =>
    simp only [System.step] at stepped
    split at stepped
    · cases stepped
      exact .inr ⟨_, rfl, rfl⟩
    · cases stepped
      exact .inr ⟨_, rfl, rfl⟩
  | other =>
    cases stepped
    exact .inr ⟨_, rfl, rfl⟩
  | campaign u =>
    simp only [System.step] at stepped
    split at stepped
    · cases stepped
      exact .inl rfl
    · cases stepped
  | loseKey key =>
    cases stepped
    exact .inl rfl
  | tick elapsed =>
    cases stepped
    exact .inl rfl
  | worker lrn a =>
    cases step_stepped cfg s t _ stepped with
    | worker lrn a w cs events move =>
      rcases move.committed with rfl | ⟨job, st, _, rfl⟩
      · exact .inl (List.append_nil _)
      · exact .inr ⟨_, rfl, rfl⟩
    | info _ _ _ _ external => cases external
    | other _ external => cases external
  | updater u a =>
    cases step_stepped cfg s t _ stepped with
    | updater u a next cs move =>
      rcases move.committed with rfl | ⟨key, ss, c, putting, _, rfl, _⟩
      · exact .inl (List.append_nil _)
      · -- what an updater puts is a request
        refine .inr ⟨c, rfl, ?_⟩
        cases orderly.decided u key ss c putting <;> rfl
    | info _ _ _ _ external => cases external
    | other _ external => cases external
  | recover r a =>
    cases step_stepped cfg s t _ stepped with
    | recoverRead => exact .inl rfl
    | recoverClear => exact .inr ⟨_, rfl, rfl⟩
    | recoverRetry => exact .inl rfl
    | info _ _ _ _ external => cases external
    | other _ external => cases external

/-- The oldest key stays the oldest one, and no key comes back. -/
theorem oldest_kept {cfg : Config V} {s t : System} {a : SystemAction} (lead : Leadership s)
    (stepped : Stepped cfg s a t) {k : Nat} (known : k < s.nextKey)
    (oldest : k ∈ s.keys → s.keys.head? = some k) :
    k < t.nextKey ∧ (k ∈ t.keys → k ∈ s.keys ∧ t.keys.head? = some k) := by
  have same (keys : t.keys = s.keys) (nextKey : t.nextKey = s.nextKey) :
      k < t.nextKey ∧ (k ∈ t.keys → k ∈ s.keys ∧ t.keys.head? = some k) := by
    rw [keys, nextKey]
    exact ⟨known, fun live => ⟨live, oldest live⟩⟩
  cases stepped with
  | campaign u idle =>
    refine ⟨known.trans (Nat.lt_succ_self _), fun live => ?_⟩
    have old : k ∈ s.keys := by
      rcases List.mem_append.mp live with old | new
      · exact old
      · rw [List.mem_singleton] at new
        omega
    refine ⟨old, ?_⟩
    rw [List.head?_append, oldest old]
    rfl
  | loseKey key =>
    refine ⟨known, fun live => ?_⟩
    have old := List.mem_of_mem_erase live
    exact ⟨old, head?_erase lead.nodup (oldest old) key live⟩
  | worker => exact same rfl rfl
  | updater => exact same rfl rfl
  | recoverRead => exact same rfl rfl
  | recoverClear => exact same rfl rfl
  | recoverRetry => exact same rfl rfl
  | info => exact same rfl rfl
  | other => exact same rfl rfl
  | tick => exact same rfl rfl

/-! ### The invariant -/

/-- The release that a checker may still write. -/
def Checker.pending : Checker → Option String
  | .writing c => some c.current
  | .abandoned latest => some latest
  | _ => none

structure Monotone (s₀ : System) (s : Checked) : Prop where
  orderly : Orderly s.system
  known : ∀ k, s.checkers k ≠ .absent → k < s.system.nextKey
  oldest : ∀ k, s.checkers k ≠ .absent → k ∈ s.system.keys → s.system.keys.head? = some k
  /-- A leading checker knows the present release. -/
  current : ∀ k c, s.checkers k = .checking c → k ∈ s.system.keys →
    c.current = (store s.system.history).latest
  pending : ∀ k v, (s.checkers k).pending = some v → k ∈ s.system.keys →
    Newer v (store s.system.history).latest
  forward : ∃ written, Forward s₀.history s.system.history written

/-- A step of the process: no release is recorded, and no key becomes the oldest one that a
checker of an earlier term could use. -/
theorem Monotone.process {cfg : Config V} {s₀ t : System} {s : Checked} {a : SystemAction}
    (inv : Monotone s₀ s) (stepped : s.system.step cfg a = some t)
    (no : ∀ v, a ≠ .updateNecoRelease v) : Monotone s₀ { s with system := t } := by
  have described := step_stepped cfg s.system t a stepped
  have kept (k : Nat) (present : s.checkers k ≠ .absent) :=
    oldest_kept inv.orderly.lead described (inv.known k present) (inv.oldest k present)
  have history := releases_kept inv.orderly stepped no
  have latest : (store t.history).latest = (store s.system.history).latest := by
    rcases history with same | ⟨c, same, none⟩
    · rw [same]
    · rw [same, latest_keep]
      rintro v rfl
      cases none
  have live (k : Nat) (present : s.checkers k ≠ .absent) (live : k ∈ t.keys) : k ∈ s.system.keys :=
    ((kept k present).2 live).1
  constructor
  case orderly => exact orderly_step inv.orderly described
  case known => exact fun k present => (kept k present).1
  case oldest => exact fun k present live => ((kept k present).2 live).2
  case current =>
    intro k c here now
    rw [latest]
    exact inv.current k c here (live k (by rw [here]; nofun) now)
  case pending =>
    intro k v here now
    have present : s.checkers k ≠ .absent := fun absent => by
      rw [absent] at here
      cases here
    rw [latest]
    exact inv.pending k v here (live k present now)
  case forward =>
    obtain ⟨written, forward⟩ := inv.forward
    rcases history with same | ⟨c, same, none⟩
    · exact ⟨written, same ▸ forward⟩
    · exact ⟨written, same ▸ forward.other none⟩

/-- A checker goes on without writing. -/
theorem Monotone.enter {s₀ : System} {s : Checked} (inv : Monotone s₀ s) {key : Nat}
    {next : Checker} (known : key < s.system.nextKey)
    (oldest : key ∈ s.system.keys → s.system.keys.head? = some key)
    (current : ∀ c, next = .checking c → key ∈ s.system.keys →
      c.current = (store s.system.history).latest)
    (pending : ∀ v, next.pending = some v → key ∈ s.system.keys →
      Newer v (store s.system.history).latest) : Monotone s₀ (s.enter key next) where
  orderly := inv.orderly
  known := by
    intro k present
    by_cases same : k = key
    · exact same ▸ known
    · exact inv.known k (by simpa [Checked.enter, same] using present)
  oldest := by
    intro k present
    by_cases same : k = key
    · exact same ▸ oldest
    · exact inv.oldest k (by simpa [Checked.enter, same] using present)
  current := by
    intro k c here
    by_cases same : k = key
    · subst same
      exact current c (by simpa [Checked.enter] using here)
    · exact inv.current k c (by simpa [Checked.enter, same] using here)
  pending := by
    intro k v here
    by_cases same : k = key
    · subst same
      exact pending v (by simpa [Checked.enter] using here)
    · exact inv.pending k v (by simpa [Checked.enter, same] using here)
  forward := inv.forward

/-- A checker of a term goes on. -/
theorem Monotone.next {s₀ : System} {s : Checked} (inv : Monotone s₀ s) {key : Nat}
    {next : Checker} (present : s.checkers key ≠ .absent)
    (current : ∀ c, next = .checking c → key ∈ s.system.keys →
      c.current = (store s.system.history).latest)
    (pending : ∀ v, next.pending = some v → key ∈ s.system.keys →
      Newer v (store s.system.history).latest) : Monotone s₀ (s.enter key next) :=
  inv.enter (inv.known key present) (inv.oldest key present) current pending

theorem Monotone.over {s₀ : System} {s : Checked} (inv : Monotone s₀ s) {key : Nat}
    (present : s.checkers key ≠ .absent) : Monotone s₀ (s.enter key .over) :=
  inv.next present nofun nofun

/-- The guarded write: its key is the oldest one, so no other checker can write any more. -/
theorem Monotone.write {s₀ : System} {s : Checked} (inv : Monotone s₀ s) {key : Nat} {v : String}
    (pending : (s.checkers key).pending = some v) {done : Checker}
    (knows : ∀ c, done = .checking c → c.current = v) (settled : done.pending = none) :
    Monotone s₀ (s.updateNecoRelease key v done .over) := by
  have present : s.checkers key ≠ .absent := fun absent => by
    rw [absent] at pending
    cases pending
  unfold Checked.updateNecoRelease
  split
  next live =>
    have newer := inv.pending key v pending live
    -- a checker of another key has lost its leadership: its view no longer matters
    have onlyKey (k : Nat) (here : s.checkers k ≠ .absent) (also : k ∈ s.system.keys) : k = key :=
      Option.some.inj ((inv.oldest k here also).symm.trans (inv.oldest key present live))
    have latest : (store (s.system.history ++ [.updateNecoRelease v])).latest = v := by
      rw [store_concat]
      rfl
    constructor
    case orderly => exact inv.orderly.commit rfl (.plain _ rfl nofun)
    case known =>
      intro k here
      by_cases same : k = key
      · exact same ▸ inv.known key present
      · exact inv.known k (by simpa [Checked.enter, same] using here)
    case oldest =>
      intro k here
      by_cases same : k = key
      · exact same ▸ inv.oldest key present
      · exact inv.oldest k (by simpa [Checked.enter, same] using here)
    case current =>
      intro k c here also
      by_cases same : k = key
      · subst same
        exact (knows c (by simpa [Checked.enter] using here)).trans latest.symm
      · have old : s.checkers k = .checking c := by simpa [Checked.enter, same] using here
        exact absurd (onlyKey k (by rw [old]; nofun) also) same
    case pending =>
      intro k w here also
      by_cases same : k = key
      · subst same
        have still : done.pending = some w := by simpa [Checked.enter] using here
        rw [settled] at still
        cases still
      · have old : (s.checkers k).pending = some w := by simpa [Checked.enter, same] using here
        refine absurd (onlyKey k (fun absent => ?_) also) same
        rw [absent] at old
        cases old
    case forward =>
      obtain ⟨written, forward⟩ := inv.forward
      exact ⟨_, forward.record newer⟩
  · exact inv.over present

theorem Monotone.checkerStep {s₀ : System} {s t : Checked} (inv : Monotone s₀ s) {key : Nat}
    {a : CheckerAction} (stepped : s.checkerStep key a = some t) : Monotone s₀ t := by
  cases a with
  | start u =>
    simp only [Checked.checkerStep] at stepped
    split at stepped
    · split at stepped
      next leads =>
        cases stepped
        have lead := inv.orderly.lead
        exact inv.enter (lead.bound u key (Updater.key_of_term leads)) (lead.first u key leads)
          nofun nofun
      · cases stepped
    · cases stepped
  | load checkTimes =>
    simp only [Checked.checkerStep] at stepped
    split at stepped
    next here =>
      cases stepped
      refine inv.next (by rw [here]; nofun) (fun c same _ => ?_) nofun
      cases same
      rfl
    · cases stepped
  | update now check =>
    simp only [Checked.checkerStep] at stepped
    split at stepped
    next c here =>
      have present : s.checkers key ≠ .absent := by rw [here]; nofun
      split at stepped
      · cases stepped
        exact inv
      · cases stepped
        exact inv.over present
      next latest records =>
        cases stepped
        refine inv.next present nofun fun v pending live => ?_
        cases pending
        -- The checker has compared with the present release.
        exact inv.current key c here live ▸ ReleaseChecker.newer_of_record records
    · cases stepped
  | write acknowledged =>
    simp only [Checked.checkerStep] at stepped
    split at stepped
    next c here =>
      cases stepped
      refine inv.write (by rw [here]; rfl) (fun d same => ?_) ?_
      · cases acknowledged <;> cases same
        rfl
      · cases acknowledged <;> rfl
    next latest here =>
      cases stepped
      exact inv.write (by rw [here]; rfl) nofun rfl
    · cases stepped
  | fail =>
    simp only [Checked.checkerStep] at stepped
    split at stepped
    · cases stepped
    next c here =>
      cases stepped
      refine inv.next (by rw [here]; nofun) nofun fun v pending live => ?_
      exact inv.pending key v (by rw [here]; exact pending) live
    · cases stepped
    next absent _ _ =>
      cases stepped
      exact inv.over fun here => absent here

theorem Monotone.step {cfg : Config V} {s₀ : System} {s t : Checked} {a : CheckedAction}
    (inv : Monotone s₀ s) (stepped : s.step cfg a = some t) : Monotone s₀ t := by
  unfold Checked.step at stepped
  split at stepped
  · cases stepped
  next a no =>
    obtain ⟨u, moved, rfl⟩ := Option.map_eq_some_iff.mp stepped
    exact inv.process moved fun v same => no v same
  next key a => exact inv.checkerStep stepped

/-- The start: no term has begun. -/
def Checked.start (s₀ : System) : Checked := ⟨s₀, fun _ => .absent⟩

omit [DecidableEq V] in
theorem monotone_start {newVersion : String → Option V} {s₀ : System}
    (initial : s₀.Initial newVersion) : Monotone s₀ (.start s₀) where
  orderly := orderly_initial initial
  known := fun _ present => absurd rfl present
  oldest := fun _ present => absurd rfl present
  current := nofun
  pending := nofun
  forward := ⟨[], forward_refl _⟩

theorem monotone_run {cfg : Config V} {s₀ : System} (initial : s₀.Initial cfg.newVersion)
    {s : Checked} (run : Transition.RunFrom (Checked.step cfg) Transition.always (.start s₀) s) :
    Monotone s₀ s :=
  run.invariant (Monotone s₀) (monotone_start initial) fun _ _ _ inv _ stepped => inv.step stepped

/-! ### The process with its checkers is a run of the process -/

/-- A checker changes the process at most by recording a valid release. -/
theorem Monotone.recorded {s₀ : System} {s t : Checked} (inv : Monotone s₀ s) {key : Nat}
    {a : CheckerAction} (stepped : s.checkerStep key a = some t) :
    t.system = s.system ∨ ∃ v, (newNecoRelease v).isSome = true ∧
      t.system = s.system.commit [.updateNecoRelease v] := by
  have writes {v : String} {done refused : Checker} (pending : (s.checkers key).pending = some v) :
      (s.updateNecoRelease key v done refused).system = s.system ∨
        ∃ v', (newNecoRelease v').isSome = true ∧
          (s.updateNecoRelease key v done refused).system =
            s.system.commit [.updateNecoRelease v'] := by
    unfold Checked.updateNecoRelease
    split
    next live =>
      exact .inr ⟨v, (inv.pending key v pending live).isSome, rfl⟩
    · exact .inl rfl
  cases a with
  | write acknowledged =>
    simp only [Checked.checkerStep] at stepped
    split at stepped
    next c here =>
      cases stepped
      exact writes (by rw [here]; rfl)
    next latest here =>
      cases stepped
      exact writes (by rw [here]; rfl)
    · cases stepped
  | _ =>
    simp only [Checked.checkerStep] at stepped
    repeat' split at stepped
    all_goals first | cases stepped; exact .inl rfl | cases stepped

/-- What is proved of the process holds of the process with its checkers. -/
theorem checked_refines (cfg : Config V) (s₀ : System) (initial : s₀.Initial cfg.newVersion)
    (s : Checked) (run : Transition.RunFrom (Checked.step cfg) Transition.always (.start s₀) s) :
    Transition.RunFrom (System.step cfg) Transition.always s₀ s.system := by
  induction run with
  | refl => exact .refl
  | tail a before _ stepped ih =>
    have inv := monotone_run initial before
    unfold Checked.step at stepped
    split at stepped
    · cases stepped
    next a no _ =>
      obtain ⟨u, moved, rfl⟩ := Option.map_eq_some_iff.mp stepped
      exact ih.tail a trivial moved
    next key a =>
      rcases inv.recorded stepped with same | ⟨v, valid, same⟩
      · exact same ▸ ih
      · refine ih.tail (.updateNecoRelease v) trivial ?_
        rw [same]
        exact if_pos valid

/-! ### Main theorem -/

/-- **The recorded release only moves forward.** Whatever the updaters and the release source do,
the releases written after the start are each newer than all before, the first one included. -/
theorem release_moves_forward (cfg : Config V) (s₀ : System) (initial : s₀.Initial cfg.newVersion)
    (s : Checked) (run : Transition.RunFrom (Checked.step cfg) Transition.always (.start s₀) s) :
    ∃ written, releases s.system.history = releases s₀.history ++ written ∧
      ((store s₀.history).latest :: written).Pairwise fun older newer => Newer newer older := by
  obtain ⟨written, forward⟩ := (monotone_run initial run).forward
  exact ⟨written, forward.recorded, forward.increasing⟩

/-- An updater `u` is elected with the key `key` and its checker learns of `answer`. -/
def checkerLearns (u key : Nat) (answer : String) : List CheckedAction :=
  [.process (.campaign u), .process (.updater u .elected), .checker key (.start u),
    .checker key (.load [fun now => now]), .checker key (.update 0 (.ok answer))]

/-- The first leader records a release and decides on the next one, but its lease expires; the
second leader records another one before the first write arrives. -/
def leaseExpires : Checked :=
  Transition.after (Checked.step operatorConfig) Transition.always
    (.start (.boot (setUp [0, 1] "2020.01.01-1"))) <|
    checkerLearns 0 0 "2020.01.02-2" ++
    [.checker 0 (.write true), .checker 0 (.update 0 (.ok "2020.03.01-4")),
      .process (.loseKey 0)] ++
    checkerLearns 1 1 "2020.02.01-3" ++ [.checker 1 (.write true), .checker 0 (.write true)]

theorem release_moves_forward_leaseExpires :
    releases leaseExpires.system.history = ["2020.01.01-1", "2020.01.02-2", "2020.02.01-3"] ∧
    ∃ written, releases leaseExpires.system.history =
        releases (setUp [0, 1] "2020.01.01-1") ++ written ∧
      ((store (setUp [0, 1] "2020.01.01-1")).latest :: written).Pairwise
        fun older newer => Newer newer older :=
  ⟨by decide +kernel, release_moves_forward operatorConfig (.boot (setUp [0, 1] "2020.01.01-1"))
    (System.boot_initial (setUp_setupHistory _ _ _ (by decide +kernel))) leaseExpires
    (Transition.runFrom_after ..)⟩

end Neco
