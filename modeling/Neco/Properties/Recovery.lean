import Neco.Properties.Leadership
import Neco.Properties.Restart

/-!
# A clean start for the retry

`neco recover` clears the statuses of a stopped update in one transaction, but a worker
that is still in the middle of it reports later all the same. If nobody is left behind
when statuses are cleared or a new request is put (`Quiesced`), every status belongs to
the last request, and each request starts clean.
-/

namespace Neco

open Lockstep

variable {V : Type} [DecidableEq V]

/-! ### Stragglers -/

/-- A process that has read up to `pos` will come upon a request it handles. -/
def MayReceive (h : List Change) (lrn : Int) (version : String) (pos : Nat) : Prop :=
  ∃ r req, pos < r ∧ requestAt h r = some req ∧ handles lrn version req = true

/-- The process is handling a request, or may still come to handle one that has been put. -/
def Straggles (h : List Change) (lrn : Int) (w : Worker) : Prop :=
  match w.phase with
  | .down => False
  | .starting => False
  | .restarting _ => False
  | .waiting pos => MayReceive h lrn w.version pos
  | .examining job => handles lrn w.version job.req = true ∨ MayReceive h lrn w.version job.rev
  | _ => True

/-- Whether a transaction ends what workers were doing: a clear or a put that is no stop. -/
def Change.resets (c : Change) : Bool :=
  match c.request? with
  | some req => !req.stop
  | none => c == .clearStatusAndContents

/-- Statuses are cleared and requests are put only while no worker is left behind. -/
def Quiesced (s : System) : SystemAction → Prop
  | .recover _ .clear => ∀ lrn, ¬ Straggles s.history lrn (s.workers lrn)
  | .updater u (.put _) => ∀ key ss c, s.updaters u = .putting key ss c → c.resets = true →
      ∀ lrn, ¬ Straggles s.history lrn (s.workers lrn)
  | _ => True

instance (h : List Change) (lrn : Int) (version : String) (pos : Nat) :
    Decidable (MayReceive h lrn version pos) :=
  decidable_of_iff (((List.range (h.length + 1)).any fun r =>
      decide (pos < r) && (requestAt h r).any (handles lrn version)) = true) <| by
    simp only [List.any_eq_true, Bool.and_eq_true, decide_eq_true_eq, Option.any_eq_true,
      List.mem_range]
    constructor
    · rintro ⟨r, _, above, req, put, handled⟩
      exact ⟨r, req, above, put, handled⟩
    · rintro ⟨r, req, above, put, handled⟩
      exact ⟨r, Nat.lt_succ_of_le (requestAt_le put).2, above, req, put, handled⟩

instance (h : List Change) (lrn : Int) (w : Worker) : Decidable (Straggles h lrn w) := by
  unfold Straggles
  split <;> infer_instance

/-- The condition as a check for runs in which only the workers on `lrns` act. -/
def QuiescedAmong (lrns : List Int) (s : System) : SystemAction → Prop
  | .worker lrn _ => lrn ∈ lrns
  | .recover _ .clear => ∀ lrn ∈ lrns, ¬ Straggles s.history lrn (s.workers lrn)
  | .updater u (.put _) =>
    match s.updaters u with
    | .putting _ _ c => c.resets = true → ∀ lrn ∈ lrns, ¬ Straggles s.history lrn (s.workers lrn)
    | _ => True
  | _ => True

instance (lrns : List Int) (s : System) : ∀ a, Decidable (QuiescedAmong lrns s a)
  | .worker lrn _ => inferInstanceAs (Decidable (lrn ∈ lrns))
  | .recover _ .clear => inferInstanceAs (Decidable (∀ lrn ∈ lrns, ¬ _))
  | .updater u (.put _) => by
    dsimp only [QuiescedAmong]
    cases s.updaters u <;> infer_instance
  | .recover _ .read | .updater _ .elected | .updater _ .snapshot | .updater _ .decide
  | .updater _ .wake | .updater _ .receiveStatus | .updater _ .deadline | .updater _ .fail
  | .campaign _ | .loseKey _ | .registerBootserver _ | .deleteBootServer _
  | .updateNecoRelease _ | .other | .tick _ => .isTrue trivial

theorem QuiescedAmong.quiesced {lrns : List Int} {s : System} {a : SystemAction}
    (among : QuiescedAmong lrns s a) (down : ∀ lrn ∉ lrns, (s.workers lrn).phase = .down) :
    Quiesced s a := by
  have everybody (calm : ∀ lrn ∈ lrns, ¬ Straggles s.history lrn (s.workers lrn)) (lrn : Int) :
      ¬ Straggles s.history lrn (s.workers lrn) := by
    by_cases member : lrn ∈ lrns
    · exact calm lrn member
    · simp [Straggles, down lrn member]
  cases a with
  | recover c a =>
    cases a with
    | read => trivial
    | clear => exact everybody among
  | updater u a =>
    cases a with
    | put acknowledged =>
      intro key ss c putting resets
      simp only [QuiescedAmong, putting] at among
      exact everybody (among resets)
    | _ => trivial
  | _ => trivial

/-- A run that passes the check meets the condition. -/
theorem quiesced_of_among {cfg : Config V} {lrns : List Int} {s t : System}
    (run : Transition.RunFrom (System.step cfg) (QuiescedAmong lrns) s t)
    (down : ∀ lrn ∉ lrns, (s.workers lrn).phase = .down) :
    Transition.RunFrom (System.step cfg) Quiesced s t ∧
      ∀ lrn ∉ lrns, (t.workers lrn).phase = .down := by
  induction run with
  | refl => exact ⟨.refl, down⟩
  | @tail t u a _ among stepped ih =>
    refine ⟨.tail a ih.1 (among.quiesced ih.2) stepped, fun lrn outside => ?_⟩
    rw [← ih.2 lrn outside]
    cases step_stepped cfg t u a stepped with
    | worker i a w cs events move =>
      have differs : lrn ≠ i := by
        rintro rfl
        exact outside among
      exact congrArg Worker.phase (Function.update_of_ne differs ..)
    | _ => rfl

/-- Nobody handles it. -/
def nobody : UpdateRequest := ⟨"", [], true, 0⟩

/-- The request that workers may be handling, with its revision. -/
def own (h : List Change) : UpdateRequest × Nat :=
  match lastRequest h with
  | some m => ((requestAt h m).getD nobody, m)
  | none => (nobody, 0)

theorem own_some {h : List Change} {m : Nat} {R : UpdateRequest} (last : lastRequest h = some m)
    (known : requestAt h m = some R) : own h = (R, m) := by
  simp [own, last, known]

theorem own_none {h : List Change} (last : lastRequest h = none) : own h = (nobody, 0) := by
  simp [own, last]

theorem own_known (h : List Change) (req : UpdateRequest)
    (put : requestAt h (own h).2 = some req) : req = (own h).1 := by
  cases last : lastRequest h with
  | none =>
    rw [own_none last] at put
    cases put
  | some m =>
    obtain ⟨R, known, _⟩ := lastRequest_requestAt last
    rw [own_some last known] at put ⊢
    rw [known] at put
    cases put
    rfl

theorem own_now (h : List Change) (req : UpdateRequest) (rev : Nat)
    (present : (store h).current = some (req, rev)) :
    req = (own h).1 ∧ rev = (own h).2 ∨ req.stop = true := by
  cases running : req.stop with
  | true => exact Or.inr rfl
  | false =>
    rw [own_some (lastRequest_of_current present running) (current_requestAt present)]
    exact Or.inl ⟨rfl, rfl⟩

theorem own_member {h : List Change} {i : Int} (member : i ∈ (own h).1.servers) :
    lastRequest h = some (own h).2 ∧ requestAt h (own h).2 = some (own h).1 := by
  cases last : lastRequest h with
  | none =>
    rw [own_none last] at member
    cases member
  | some m =>
    obtain ⟨R, known, _⟩ := lastRequest_requestAt last
    rw [own_some last known]
    exact ⟨rfl, known⟩

theorem lastRequest_keep (h : List Change) {c : Change} (keeps : c.resets = false) :
    lastRequest (h ++ [c]) = lastRequest h := by
  rw [lastRequest_concat]
  cases c with
  | putRequest req =>
    have stop : req.stop = true := by simpa [Change.resets, Change.request?] using keeps
    simp [lastRequestStep, stop]
  | putReconfigureRequest req =>
    have stop : req.stop = true := by simpa [Change.resets, Change.request?] using keeps
    simp [lastRequestStep, stop]
  | clearStatusAndContents => simp [Change.resets, Change.request?] at keeps
  | _ => rfl

theorem own_keep (h : List Change) {c : Change} (keeps : c.resets = false) :
    own (h ++ [c]) = own h := by
  have same := lastRequest_keep h keeps
  cases last : lastRequest h with
  | none => rw [own_none last, own_none (same.trans last)]
  | some m =>
    obtain ⟨R, known, _⟩ := lastRequest_requestAt last
    rw [own_some last known, own_some (same.trans last) (requestAt_append known [c])]

theorem own_put (h : List Change) {c : Change} {req : UpdateRequest} (put : c.request? = some req)
    (running : req.stop = false) : own (h ++ [c]) = (req, h.length + 1) := by
  refine own_some ?_ (by rw [requestAt_last, put])
  rw [lastRequest_concat]
  cases c with
  | putRequest req' =>
    cases put
    simp [lastRequestStep, running]
  | putReconfigureRequest req' =>
    cases put
    simp [lastRequestStep, running]
  | _ => cases put

theorem own_clear (h : List Change) : own (h ++ [.clearStatusAndContents]) = (nobody, 0) :=
  own_none (by rw [lastRequest_concat]; rfl)

/-- The request in `status/current` is the one workers may be handling, up to its stop. -/
theorem current_own {h : List Change} (permitted : History.Each Permitted h) {R : UpdateRequest}
    {m : Nat} (present : (store h).current = some (R, m)) :
    R.servers = (own h).1.servers ∧ R.version = (own h).1.version := by
  induction h using List.reverseRecOn generalizing R m with
  | nil => cases present
  | append_singleton h c ih =>
    rw [History.each_concat] at permitted
    rw [store_concat, current_apply] at present
    cases permitted.2 with
    | first req absent running =>
      rw [own_put h rfl running]
      cases present
      exact ⟨rfl, rfl⟩
    | newVersion R' req m' _ _ running =>
      rw [own_put h rfl running]
      cases present
      exact ⟨rfl, rfl⟩
    | reconfigure R' req m' _ _ running =>
      rw [own_put h rfl running]
      cases present
      exact ⟨rfl, rfl⟩
    | stop R' m' before running =>
      rw [own_keep h rfl, own_some (lastRequest_of_current before running)
        (current_requestAt before)]
      cases present
      exact ⟨rfl, rfl⟩
    | clear R' m' before stopped => simp [Change.request?] at present
    | plain _ no noClear =>
      rw [own_keep h (by simp [Change.resets, no, noClear])]
      rw [no] at present
      simp only [noClear, if_false] at present
      exact ih permitted.1 present

/-! ### Workers between resets -/

/-- The request of a process that has begun to act on it. -/
def Phase.job : Phase → Option Job
  | .recordAbort job _ => some job
  | .entering job => some job
  | .watching job _ => some job
  | .running job _ => some job
  | .advancing job _ => some job
  | .completing job _ => some job
  | .failing job _ _ => some job
  | .aborting job _ _ => some job
  | _ => none

theorem Phase.job_of_pending {p : Phase} {job : Job} {st : UpdateStatus}
    (pending : p.pending = some (job, st)) : p.job = some job := by
  cases p <;> cases pending <;> rfl

/-- A put reports the version of the request, or repeats the own status as an abort. -/
theorem Phase.pending_version {p : Phase} {job : Job} {st : UpdateStatus}
    (pending : p.pending = some (job, st)) :
    p = .recordAbort job st ∨ st.version = job.req.version := by
  cases p with
  | recordAbort job' st' =>
    cases pending
    exact Or.inl rfl
  | entering job' =>
    cases pending
    exact Or.inr rfl
  | advancing job' hd =>
    cases pending
    exact Or.inr rfl
  | completing job' hd =>
    cases pending
    exact Or.inr rfl
  | failing job' hd msg =>
    cases pending
    exact Or.inr rfl
  | aborting job' hd msg =>
    cases pending
    exact Or.inr rfl
  | _ => cases pending

/-- A process that acts on a request goes on with it, or is done with it. -/
theorem Move.job {final : Nat} {h : List Change} {lrn : Int} {w w' : Worker} {a : WorkerAction}
    {cs : List Change} {events : List StepEvent} (move : Move final h lrn w a w' cs events)
    {job : Job} (has : w.phase.job = some job) :
    w'.version = w.version ∧
      (w'.phase.job = some job ∧ (∀ j st, w'.phase ≠ .recordAbort j st) ∨
        w'.phase = .waiting job.rev ∨ w'.phase = .down ∨ w'.phase = .restarting job) := by
  cases move with
  | start old version => cases has
  | exit v p up => exact ⟨rfl, Or.inr (Or.inr (Or.inl rfl))⟩
  | noRequest v absent => cases has
  | gotRequest v req rev present => cases has
  | skipped v pos c here no => cases has
  | received v pos c req here put => cases has
  | examine v job' => cases has
  | put v p job' st result pending applied =>
    refine ⟨rfl, ?_⟩
    cases p <;> cases pending <;> cases has <;> cases result <;> simp [Phase.afterPut, Phase.job]
  | lost v p job' st msg pending =>
    refine ⟨rfl, ?_⟩
    cases p <;> cases pending <;> cases has <;> simp [Phase.afterPut, Phase.job]
  | event v job' hd c here =>
    refine ⟨rfl, ?_⟩
    cases has
    have watched := watchChange_watched job hd c
    generalize watchChange job hd c = p at watched
    cases watched with
    | stopped => exact Or.inr (Or.inl rfl)
    | aborting => exact Or.inl ⟨rfl, by simp⟩
    | ignored => exact Or.inl ⟨rfl, by simp⟩
    | arrived => exact Or.inl ⟨rfl, by simp⟩
    | run => exact Or.inl ⟨rfl, by simp⟩
  | watchError v job' hd msg =>
    cases has
    exact ⟨rfl, Or.inl ⟨rfl, by simp⟩⟩
  | finished v job' hd =>
    cases has
    refine ⟨rfl, Or.inl ?_⟩
    simp only [afterRunStep]
    split <;> exact ⟨rfl, by simp⟩
  | failed v job' hd msg =>
    cases has
    exact ⟨rfl, Or.inl ⟨rfl, by simp⟩⟩

/-- The process acts on the request `R` of revision `m`. -/
structure Holding (h : List Change) (R : UpdateRequest) (m : Nat) (i : Int) (w : Worker) : Prop where
  job : ∃ job, w.phase.job = some job ∧ job.req = R ∧ job.modRev = m ∧
    Behind h m i w.version job.rev
  member : i ∈ R.servers
  repeats : ∀ job st, w.phase = .recordAbort job st →
    ∃ myst, (store h).statuses.lookup i = some myst ∧ st = { myst with cond := .abort }

/-- Every process is in no update, or in that of the last request. -/
def Settled (h : List Change) (i : Int) (w : Worker) : Prop :=
  Idle h (own h).1 (own h).2 i w ∨ Holding h (own h).1 (own h).2 i w

theorem behind_of_not_mayReceive {h : List Change} {i : Int} {version : String} {pos : Nat}
    (none : ¬ MayReceive h i version pos) (m : Nat) : Behind h m i version pos := by
  intro r req above _ put
  by_contra handled
  exact none ⟨r, req, above, put, by simpa using handled⟩

theorem idle_of_not_straggles {h : List Change} {i : Int} {w : Worker}
    (calm : ¬ Straggles h i w) (R : UpdateRequest) (m : Nat) : Idle h R m i w := by
  obtain ⟨version, phase⟩ := w
  cases phase with
  | down => trivial
  | starting => trivial
  | restarting job => trivial
  | waiting pos => exact behind_of_not_mayReceive calm m
  | examining job =>
    simp only [Straggles, not_or] at calm
    exact ⟨behind_of_not_mayReceive calm.2 m, Or.inr (by simpa using calm.1)⟩
  | _ => exact absurd trivial calm

/-- The put of revision `m` itself is the one a process may come upon. -/
theorem Behind.concat_put {h : List Change} {i : Int} {version : String} {pos : Nat}
    (behind : Behind h (h.length + 1) i version pos) (c : Change) :
    Behind (h ++ [c]) (h.length + 1) i version pos := by
  intro r req above differs put
  have bound := (requestAt_le put).2
  rw [List.length_append, List.length_singleton] at bound
  rw [requestAt_concat_of_le (by omega)] at put
  exact behind r req above differs put

theorem Idle.concat_put {h : List Change} {R : UpdateRequest} {i : Int} {w : Worker}
    (idle : Idle h R (h.length + 1) i w) (c : Change) : Idle (h ++ [c]) R (h.length + 1) i w := by
  obtain ⟨version, phase⟩ := w
  cases phase with
  | waiting pos => exact Behind.concat_put idle c
  | examining job => exact ⟨Behind.concat_put idle.1 c, idle.2⟩
  | _ => exact idle

/-- When nobody is left behind at a reset, all processes are in no update afterwards. -/
theorem settled_reset {h : List Change} {i : Int} {w : Worker} (calm : ¬ Straggles h i w)
    {c : Change} (resets : c.resets = true) :
    Idle (h ++ [c]) (own (h ++ [c])).1 (own (h ++ [c])).2 i w := by
  cases put : c.request? with
  | some req =>
    have running : req.stop = false := by simpa [Change.resets, put] using resets
    rw [own_put h put running]
    exact (idle_of_not_straggles calm req _).concat_put c
  | none =>
    have clear : c = .clearStatusAndContents := by simpa [Change.resets, put] using resets
    subst clear
    rw [own_clear]
    exact (idle_of_not_straggles calm nobody 0).concat (by simp [Change.request?])

theorem stops_of_keeps {c : Change} (keeps : c.resets = false) (req : UpdateRequest)
    (put : c.request? = some req) : req.stop = true := by
  simpa [Change.resets, put] using keeps

/-- Transactions of others that reset nothing leave a process where it is. -/
theorem Settled.concat {h : List Change} {i : Int} {w : Worker} (settled : Settled h i w)
    {c : Change} (keeps : c.resets = false)
    (same : (store (h ++ [c])).statuses.lookup i = (store h).statuses.lookup i) :
    Settled (h ++ [c]) i w := by
  unfold Settled
  rw [own_keep h keeps]
  rcases settled with idle | ⟨⟨job, has, req, rev, behind⟩, member, repeats⟩
  · exact Or.inl (idle.concat (stops_of_keeps keeps))
  · refine Or.inr ⟨⟨job, has, req, rev, behind.concat (stops_of_keeps keeps)⟩, member, ?_⟩
    rw [same]
    exact repeats

/-- A process' own step leaves it settled. -/
theorem Settled.move {final : Nat} {h : List Change} {i : Int} {w w' : Worker} {a : WorkerAction}
    {cs : List Change} {events : List StepEvent} (settled : Settled h i w)
    (move : Move final h i w a w' cs events)
    (keeps : cs = [] ∨ ∃ c, cs = [c] ∧ c.request? = none ∧ c.resets = false) :
    Settled (h ++ cs) i w' := by
  rcases settled with idle | ⟨⟨job, has, req, rev, behind⟩, member, repeats⟩
  · obtain ⟨rfl, still | ⟨job, rfl, phase, same, modRev, handled, rfl⟩⟩ :=
      idle.move (own_now h) (own_known h) move
    · rw [List.append_nil]
      exact Or.inl still
    · -- the last request is examined
      rw [List.append_nil]
      simp only [Idle, phase] at idle
      have examined := examineRequest_examined i w.version job (store h).statuses
      generalize examineRequest i w.version job (store h).statuses = p at examined
      cases examined with
      | skip => exact Or.inl idle.1
      | updateNeco running inside version => exact Or.inl trivial
      | abort myst running inside version aborted found =>
        refine Or.inr ⟨⟨job, rfl, same, modRev, idle.1⟩, same ▸ inside, ?_⟩
        rintro _ _ ⟨⟩
        exact ⟨myst, found, rfl⟩
      | enter running inside version going unfinished =>
        exact Or.inr ⟨⟨job, rfl, same, modRev, idle.1⟩, same ▸ inside, by rintro _ _ ⟨⟩⟩
  · have grown : own (h ++ cs) = own h ∧ Behind (h ++ cs) (own h).2 i w.version job.rev := by
      rcases keeps with rfl | ⟨c, rfl, no, keeps⟩
      · rw [List.append_nil]
        exact ⟨rfl, behind⟩
      · exact ⟨own_keep h keeps, behind.concat (by simp [no])⟩
    obtain ⟨version, onward | waits | gone | finished⟩ := move.job has
    · unfold Settled
      rw [grown.1]
      exact Or.inr ⟨⟨job, onward.1, req, rev, version ▸ grown.2⟩, member,
        fun j st here => absurd here (onward.2 j st)⟩
    · refine Or.inl ?_
      rw [grown.1]
      simp only [Idle, waits]
      exact version ▸ grown.2
    · refine Or.inl ?_
      simp only [Idle, gone]
    · refine Or.inl ?_
      simp only [Idle, finished]

/-! ### Statuses between resets -/

structure StatusesTidy (h : List Change) : Prop where
  empty : (store h).current = none → (store h).statuses = ∅
  keys : ∀ R m, (store h).current = some (R, m) → ∀ j st,
    (store h).statuses.lookup j = some st → j ∈ R.servers
  versions : ∀ R m, (store h).current = some (R, m) → CompletedBefore h R m → ∀ j st,
    (store h).statuses.lookup j = some st → st.version = R.version

theorem completedBefore_concat {h : List Change} {c : Change} {R : UpdateRequest} {m : Nat}
    (before : CompletedBefore (h ++ [c]) R m) :
    updateCompleted R.version R.servers (store (h ++ [c])).statuses = true ∨
      CompletedBefore h R m := by
  obtain ⟨h₀, later, split, present, completed⟩ := before
  rcases List.eq_nil_or_concat later with rfl | ⟨later, d, rfl⟩
  · rw [List.append_nil] at split
    exact Or.inl (split ▸ completed)
  · rw [List.concat_eq_append, ← List.append_assoc] at split
    exact Or.inr ⟨h₀, later, List.append_inj_left' split rfl, present, completed⟩

theorem statusesTidy_of_empty {h : List Change} (none : (store h).statuses = ∅) :
    StatusesTidy h := by
  refine ⟨fun _ => none, ?_, ?_⟩ <;> rw [none]
  · intro R m _ j st found
    cases found
  · intro R m _ _ j st found
    cases found

/-- Completion of a request just now settles the versions of all statuses. -/
theorem statusesTidy_concat {h : List Change} {c : Change}
    (empty : (store (h ++ [c])).current = none → (store (h ++ [c])).statuses = ∅)
    (keys : ∀ R m, (store (h ++ [c])).current = some (R, m) → ∀ j st,
      (store (h ++ [c])).statuses.lookup j = some st → j ∈ R.servers)
    (older : ∀ R m, (store (h ++ [c])).current = some (R, m) → CompletedBefore h R m → ∀ j st,
      (store (h ++ [c])).statuses.lookup j = some st → st.version = R.version) :
    StatusesTidy (h ++ [c]) := by
  refine ⟨empty, keys, fun R m present before j st found => ?_⟩
  rcases completedBefore_concat before with now | before
  · obtain ⟨st', found', version, _⟩ :=
      (updateCompleted_iff _ _ _).mp now j (keys R m present j st found)
    rw [found] at found'
    cases found'
    exact version
  · exact older R m present before j st found

/-- A request that is just put was not completed before. -/
theorem not_completedBefore (h : List Change) (R : UpdateRequest) :
    ¬ CompletedBefore h R (h.length + 1) := by
  rintro ⟨h₀, later, rfl, present, _⟩
  have := (requestAt_le (current_requestAt present)).2
  simp only [List.length_append] at this
  omega

theorem StatusesTidy.permitted {h : List Change} (tidy : StatusesTidy h) {c : Change}
    (permitted : Permitted h c) (noReport : ∀ j st o, c ≠ .putStatus j st o) :
    StatusesTidy (h ++ [c]) := by
  have plain (current : (store (h ++ [c])).current = (store h).current)
      (statuses : (store (h ++ [c])).statuses = (store h).statuses) : StatusesTidy (h ++ [c]) := by
    apply statusesTidy_concat <;> rw [current, statuses]
    exacts [tidy.empty, tidy.keys, tidy.versions]
  cases permitted with
  | first req absent running =>
    refine statusesTidy_of_empty ?_
    rw [store_concat]
    exact tidy.empty absent
  | newVersion R req m present running running' servers version completed =>
    apply statusesTidy_concat <;> simp only [store_concat, Store.apply]
    · simp
    · rintro R' m' ⟨⟩ j st found
      rw [servers]
      exact tidy.keys R m present j st found
    · rintro R' m' ⟨⟩ before
      exact absurd before (not_completedBefore h _)
  | stop R m present running =>
    apply statusesTidy_concat <;> simp only [store_concat, Store.apply]
    · simp
    · rintro R' m' ⟨⟩ j st found
      exact tidy.keys R m present j st found
    · rintro R' m' ⟨⟩ before
      exact absurd before (not_completedBefore h _)
  | reconfigure R req m present running running' version completed =>
    refine statusesTidy_of_empty ?_
    rw [store_concat]
    rfl
  | clear R m present stopped =>
    refine statusesTidy_of_empty ?_
    rw [store_concat]
    rfl
  | plain c no noClear =>
    obtain ⟨current, statuses⟩ := store_concat_plain (h := h) no noClear noReport
    exact plain current statuses

/-- A report for the last request keeps the statuses tidy. -/
theorem StatusesTidy.report {h : List Change} (tidy : StatusesTidy h)
    (permitted : History.Each Permitted h) {i : Int} {w : Worker}
    (holding : Holding h (own h).1 (own h).2 i w) {job : Job} {st : UpdateStatus}
    (pending : w.phase.pending = some (job, st)) :
    StatusesTidy (h ++ [.putStatus i st job.modRev]) := by
  have current : (store (h ++ [.putStatus i st job.modRev])).current = (store h).current := by
    simp [current_apply, Change.request?]
  have lookup (j : Int) : (store (h ++ [.putStatus i st job.modRev])).statuses.lookup j =
      if j = i then some st else (store h).statuses.lookup j := by
    rw [store_concat]
    by_cases same : j = i
    · subst same
      simp [Store.apply]
    · simp [Store.apply, same, AList.lookup_insert_ne same]
  obtain ⟨last, known⟩ := own_member holding.member
  apply statusesTidy_concat <;> rw [current]
  · intro absent
    rw [lastRequest_of_none absent] at last
    cases last
  · intro R m present j st' found
    rw [lookup] at found
    split at found
    next same =>
      subst same
      rw [(current_own permitted present).1]
      exact holding.member
    next => exact tidy.keys R m present j st' found
  · intro R m present before j st' found
    rw [lookup] at found
    split at found
    next same =>
      subst same
      cases found
      obtain ⟨job', has, req, _, _⟩ := holding.job
      rw [Phase.job_of_pending pending] at has
      cases has
      rcases Phase.pending_version pending with repeated | version
      · obtain ⟨myst, mine, rfl⟩ := holding.repeats job st repeated
        exact tidy.versions R m present before j myst mine
      · rw [version, req, (current_own permitted present).2]
    next => exact tidy.versions R m present before j st' found

/-! ### The invariant of quiesced runs -/

/-- A report is made for the last request. -/
def InTime (h : List Change) (c : Change) : Prop :=
  ∀ j st o, c = .putStatus j st o → lastRequest h = some o

structure Tidy (s : System) : Prop where
  orderly : Orderly s
  workers : ∀ i, Settled s.history i (s.workers i)
  statuses : StatusesTidy s.history
  reports : History.Each InTime s.history

theorem statuses_keep {h : List Change} {c : Change} (permitted : Permitted h c)
    (noReport : ∀ j st o, c ≠ .putStatus j st o) (keeps : c.resets = false) :
    (store (h ++ [c])).statuses = (store h).statuses := by
  cases permitted with
  | first req absent running => simp [Change.resets, Change.request?, running] at keeps
  | newVersion R req m _ _ running => simp [Change.resets, Change.request?, running] at keeps
  | reconfigure R req m _ _ running => simp [Change.resets, Change.request?, running] at keeps
  | stop R m present running => rw [store_concat, statuses_apply]
  | clear R m present stopped => simp [Change.resets, Change.request?] at keeps
  | plain c no noClear => exact (store_concat_plain no noClear noReport).2

theorem Tidy.congr {s t : System} (tidy : Tidy s) (orderly : Orderly t)
    (history : t.history = s.history) (workers : t.workers = s.workers) : Tidy t := by
  refine ⟨orderly, ?_, ?_, ?_⟩ <;> rw [history]
  · rw [workers]
    exact tidy.workers
  · exact tidy.statuses
  · exact tidy.reports

/-- A transaction of somebody who is no worker. -/
theorem Tidy.commit {s t : System} (tidy : Tidy s) (orderly : Orderly t) (c : Change)
    (history : t.history = s.history ++ [c]) (workers : t.workers = s.workers)
    (noReport : ∀ j st o, c ≠ .putStatus j st o)
    (quiesced : c.resets = true → ∀ i, ¬ Straggles s.history i (s.workers i)) : Tidy t := by
  have permitted : Permitted s.history c := by
    have each := orderly.permitted
    rw [history, History.each_concat] at each
    exact each.2
  refine ⟨orderly, ?_, ?_, ?_⟩ <;> rw [history]
  · rw [workers]
    intro i
    cases resets : c.resets with
    | true => exact Or.inl (settled_reset (quiesced resets i) resets)
    | false =>
      exact (tidy.workers i).concat resets (by rw [statuses_keep permitted noReport resets])
  · exact tidy.statuses.permitted permitted noReport
  · exact (History.each_concat _ _ _).mpr
      ⟨tidy.reports, fun j st o same => absurd same (noReport j st o)⟩

/-- Whoever is about to report acts on the last request. -/
theorem Settled.holding {h : List Change} {i : Int} {w : Worker} (settled : Settled h i w)
    {job : Job} {st : UpdateStatus} (pending : w.phase.pending = some (job, st)) :
    Holding h (own h).1 (own h).2 i w ∧ lastRequest h = some job.modRev := by
  rcases settled with idle | holding
  · rw [idle.pending] at pending
    cases pending
  · refine ⟨holding, ?_⟩
    obtain ⟨job', has, _, rev, _⟩ := holding.job
    rw [Phase.job_of_pending pending] at has
    cases has
    rw [rev]
    exact (own_member holding.member).1

theorem tidy_step {cfg : Config V} {s s' : System} {a : SystemAction} (tidy : Tidy s)
    (quiesced : Quiesced s a) (stepped : Stepped cfg s a s') : Tidy s' := by
  have orderly := orderly_step tidy.orderly stepped
  cases stepped with
  | worker lrn a w cs events move =>
    rcases move.committed with rfl | ⟨job, st, pending, rfl⟩
    · refine ⟨orderly, fun i => ?_, ?_, ?_⟩
      · by_cases same : i = lrn
        · subst same
          simp only [Function.update_self]
          exact (tidy.workers i).move move (Or.inl rfl)
        · simp only [Function.update_of_ne same, List.append_nil]
          exact tidy.workers i
      · simpa using tidy.statuses
      · simpa using tidy.reports
    · -- a worker that reports holds the last request
      obtain ⟨holding, last⟩ := (tidy.workers lrn).holding pending
      refine ⟨orderly, fun i => ?_, ?_, ?_⟩
      · by_cases same : i = lrn
        · subst same
          simp only [Function.update_self]
          exact (tidy.workers i).move move (Or.inr ⟨_, rfl, rfl, rfl⟩)
        · simp only [Function.update_of_ne same]
          refine (tidy.workers i).concat rfl ?_
          simp [Store.apply, AList.lookup_insert_ne same]
      · exact tidy.statuses.report tidy.orderly.permitted holding pending
      · refine (History.each_concat _ _ _).mpr ⟨tidy.reports, ?_⟩
        rintro _ _ _ ⟨⟩
        exact last
  | updater u a next cs move =>
    rcases move.committed with rfl | ⟨key, ss, c, putting, _, rfl, _⟩
    · exact tidy.congr orderly (List.append_nil _) rfl
    · refine tidy.commit orderly c rfl rfl ?_ ?_
      · rintro j st o rfl
        cases tidy.orderly.decided u key ss _ putting
      · obtain ⟨acknowledged, rfl⟩ := move.put_of_commit
        exact quiesced key ss c putting
  | recoverRead c req m present stopped => exact tidy.congr orderly rfl rfl
  | recoverClear c req m holds present =>
    exact tidy.commit orderly _ rfl rfl (by simp) fun _ => quiesced
  | recoverRetry c => exact tidy.congr orderly rfl rfl
  | campaign u idle => exact tidy.congr orderly rfl rfl
  | loseKey key => exact tidy.congr orderly rfl rfl
  | info a c info valid =>
    refine tidy.commit orderly c rfl rfl ?_ ?_
    · rintro j st o rfl
      cases info
    · intro resets
      cases c <;> simp [Change.isInfo, Change.resets, Change.request?] at info resets
  | other a => exact tidy.commit orderly .other rfl rfl (by simp) (fun resets => by cases resets)
  | tick elapsed => exact tidy.congr orderly rfl rfl

omit [DecidableEq V] in
theorem tidy_initial {newVersion : String → Option V} {s : System}
    (initial : s.Initial newVersion) : Tidy s := by
  obtain ⟨info, plain, started⟩ := initial.setup
  obtain ⟨_, statuses⟩ := store_info info fun c member => (plain c member).1
  refine ⟨orderly_initial initial, ?_, ?_, ?_⟩
  · intro i
    refine Or.inl ?_
    simp only [Idle, initial.workers i]
  · refine statusesTidy_of_empty ?_
    rcases started with same | ⟨req, _, same⟩
    · rw [same, statuses]
    · rw [same, store_concat]
      exact statuses
  · rintro h₁ c h₂ split j st o rfl
    have inside : Change.putStatus j st o ∈ s.history := by simp [split]
    have early : Change.putStatus j st o ∈ info := by
      rcases started with same | ⟨req, _, same⟩ <;> simpa [same] using inside
    exact absurd rfl ((isStatus_false (plain _ early).1).2.2 j st o)

theorem tidy_reached {cfg : Config V} {s : System} (reached : Reached cfg Quiesced s) :
    Tidy s := by
  obtain ⟨s₀, initial, run⟩ := reached
  exact run.invariant Tidy (tidy_initial initial)
    fun t a u tidy quiesced stepped => tidy_step tidy quiesced (step_stepped cfg t u a stepped)

/-! ### Main theorem -/

/-- After a clear nobody reports for a request that was put before it. -/
theorem lastRequest_after_clear (h₁ h₂ : List Change) {m : Nat}
    (last : lastRequest (h₁ ++ .clearStatusAndContents :: h₂) = some m) : h₁.length < m := by
  induction h₂ using List.reverseRecOn with
  | nil =>
    rw [lastRequest_concat] at last
    cases last
  | append_singleton h₂ c ih =>
    rw [← List.cons_append, ← List.append_assoc, lastRequest_concat] at last
    have put (req : UpdateRequest)
        (chosen : (if req.stop = true then lastRequest (h₁ ++ .clearStatusAndContents :: h₂)
          else some ((h₁ ++ .clearStatusAndContents :: h₂).length + 1)) = some m) :
        h₁.length < m := by
      split at chosen
      · exact ih chosen
      · cases chosen
        simp only [List.length_append]
        omega
    cases c with
    | putRequest req => exact put req last
    | putReconfigureRequest req => exact put req last
    | clearStatusAndContents => cases last
    | _ => exact ih last

/-- A status in the store was put after the last clear. -/
theorem status_after_clear (h₁ h₂ : List Change) {j : Int} {st : UpdateStatus}
    (found : (store (h₁ ++ .clearStatusAndContents :: h₂)).statuses.lookup j = some st) :
    ∃ o, Change.putStatus j st o ∈ h₂ := by
  rw [List.append_cons] at found
  rcases status_or_old _ _ found with put | old
  · exact put
  · rw [store_concat, statuses_apply] at old
    cases old

/-- A request that is put while nobody is left behind starts clean. -/
theorem Tidy.cleanStart {s t : System} (tidy : Tidy s) (orderly : Orderly t) {c : Change}
    (history : t.history = s.history ++ [c]) (workers : t.workers = s.workers)
    {R : UpdateRequest} (put : c.request? = some R) (running : R.stop = false)
    (quiesced : ∀ i, ¬ Straggles s.history i (s.workers i)) :
    CleanStart R (s.history.length + 1) t := by
  have permitted : Permitted s.history c := by
    have each := orderly.permitted
    rw [history, History.each_concat] at each
    exact each.2
  have resets : c.resets = true := by simp [Change.resets, put, running]
  refine ⟨?_, running, ?_, ?_, ?_⟩
  · rw [history, store_concat, current_apply, put]
  · simp [history]
  · -- the statuses that are left are of another version
    intro j st found
    rw [history, List.take_of_length_le (by simp), store_concat] at found
    cases permitted with
    | first req absent _ =>
      simp only [Store.apply, tidy.statuses.empty absent] at found
      cases found
    | newVersion R' req m present _ _ servers version completed =>
      cases put
      rw [tidy.statuses.versions R' m present completed j st found]
      exact version.symm
    | reconfigure R' req m _ _ _ _ _ => cases found
    | stop R' m _ _ =>
      cases put
      cases running
    | clear R' m _ _ => cases put
    | plain _ no _ =>
      rw [put] at no
      cases no
  · intro i
    have idle := settled_reset (quiesced i) resets
    rw [own_put s.history put running] at idle
    rw [history, workers]
    exact idle

/-- **Recovery gives the retry a clean start**, provided that nobody is left behind when
statuses are cleared and requests are put. After a clear, all statuses are put for later
requests than the cleared one; and a later request is aborted by nobody unless something
fails or ends in the midst of it. -/
theorem recovery_starts_clean (cfg : Config V) (positive : 1 ≤ cfg.final) (s : System)
    (reached : Reached cfg Quiesced s) (h₁ h₂ : List Change) (m₁ : Nat)
    (cleared : s.history = h₁ ++ .clearStatusAndContents :: h₂)
    (stopped : lastRequest h₁ = some m₁) :
    (∀ j st o, Change.putStatus j st o ∈ h₂ → o ≠ m₁) ∧
    (∀ j st, (store s.history).statuses.lookup j = some st →
      ∃ o, Change.putStatus j st o ∈ h₂ ∧ o ≠ m₁) ∧
    ∀ u acknowledged s₂ c R₂, Quiesced s (.updater u (.put acknowledged)) →
      s.step cfg (.updater u (.put acknowledged)) = some s₂ → s₂.history = s.history ++ [c] →
      c.request? = some R₂ → R₂.stop = false → ∀ t,
      Transition.RunFrom (System.step cfg)
        (fun s a => Undisturbed R₂ s a ∧ FinishedWaits R₂ s a) s₂ t →
      (∀ j st o, Change.putStatus j st o ∈ t.history.drop s₂.history.length → st.cond ≠ .abort) ∧
        anyAborted R₂.version (store t.history).statuses = false := by
  have tidy := tidy_reached reached
  -- a report is made for the last request before it, and that one is put after the clear
  have later : ∀ j st o, Change.putStatus j st o ∈ h₂ → o ≠ m₁ := by
    intro j st o put
    obtain ⟨k₁, k₂, rfl⟩ := List.append_of_mem put
    have last := tidy.reports (h₁ ++ .clearStatusAndContents :: k₁) (.putStatus j st o) k₂
      (by simp [cleared]) j st o rfl
    have above := lastRequest_after_clear h₁ k₁ last
    obtain ⟨R₁, known, _⟩ := lastRequest_requestAt stopped
    have below := (requestAt_le known).2
    omega
  refine ⟨later, ?_, ?_⟩
  · intro j st found
    rw [cleared] at found
    obtain ⟨o, put⟩ := status_after_clear h₁ h₂ found
    exact ⟨o, put, later j st o put⟩
  · intro u acknowledged s₂ c R₂ quiesced stepped grown put running t run
    have step := step_stepped cfg s s₂ _ stepped
    have orderly := orderly_step tidy.orderly step
    -- the step is the updater's transaction, which moves no worker
    obtain ⟨workers, putting⟩ : s₂.workers = s.workers ∧
        ∃ key ss, s.updaters u = .putting key ss c := by
      cases step with
      | updater _ _ next cs move =>
        rcases move.committed with rfl | ⟨key, ss, c', putting, _, rfl, _⟩
        · simp at grown
        · simp only [List.append_cancel_left_eq, List.cons.injEq, and_true] at grown
          exact ⟨rfl, key, ss, grown ▸ putting⟩
      | info _ _ _ _ external => cases external
      | other _ external => cases external
    obtain ⟨key, ss, putting⟩ := putting
    have start := tidy.cleanStart orderly grown workers put running
      (quiesced key ss c putting (by simp [Change.resets, put, running]))
    have steady := steady_run positive start run
    have length : s₂.history.length = s.history.length + 1 := by simp [grown]
    rw [length]
    refine ⟨fun j st o report => steady.reign.report_ne_abort report, ?_⟩
    rw [← Bool.not_eq_true, anyAborted_iff]
    rintro ⟨j, st, found, version, aborted⟩
    exact steady.reign.status_ne_abort steady.fresh found version aborted

/-- The first step of server 0 fails, the update is stopped and cleared, and the leader is
about to put the retry. -/
def clearedAfterFailure : System :=
  .play operatorConfig (QuiescedAmong [0]) [0] "2020.01.01-1"
    (joinUpdate "2020.01.01-1" 0 ++
      [.worker 0 .receiveEvent, .worker 0 (.runStepDone (.error "failed")),
        .worker 0 (.putStatus .ok), .worker 0 (.putStatus .ok), .campaign 0,
        .updater 0 .elected] ++ decideAndPut 0 ++
      [.recover 0 .read, .recover 0 .clear, .updater 0 .snapshot, .updater 0 .decide])

/-- The retry, run to its end. -/
def retried : System :=
  Transition.after (System.step operatorConfig)
    (fun s a => Undisturbed (firstRequest [0] "2020.01.01-1") s a ∧
      FinishedWaits (firstRequest [0] "2020.01.01-1") s a)
    (Transition.after (System.step operatorConfig) Transition.always clearedAfterFailure
      [.updater 0 (.put true)])
    (joinUpdate "2020.01.01-1" 0 ++
      (List.replicate operatorFinalStep (runTogether [0])).flatten)

theorem recovery_starts_clean_retried :
    anyAborted "2020.01.01-1" (store retried.history).statuses = false := by
  have setup := setUp_setupHistory operatorConfig.newVersion [0] "2020.01.01-1" (by decide +kernel)
  have checked : Transition.RunFrom (System.step operatorConfig) (QuiescedAmong [0])
      (.boot (setUp [0] "2020.01.01-1")) clearedAfterFailure := runFrom_play _ _ _ _ _
  obtain ⟨run, down⟩ := quiesced_of_among checked (fun _ _ => rfl)
  have among : QuiescedAmong [0] clearedAfterFailure (.updater 0 (.put true)) := by decide +kernel
  have stepped : (clearedAfterFailure.step operatorConfig (.updater 0 (.put true))).isSome = true := by
    decide +kernel
  obtain ⟨s₂, stepped⟩ := Option.isSome_iff_exists.mp stepped
  have same : s₂ = Transition.after (System.step operatorConfig) Transition.always
      clearedAfterFailure [.updater 0 (.put true)] := by
    simp [Transition.after, Transition.execOk, Transition.always, stepped]
  have grown : s₂.history = clearedAfterFailure.history ++
      [.putRequest (firstRequest [0] "2020.01.01-1")] := by
    rw [same]
    decide +kernel
  exact ((recovery_starts_clean operatorConfig (by decide) clearedAfterFailure
    ⟨_, System.boot_initial setup, run⟩ (clearedAfterFailure.history.take 7) [] 3
    (by decide +kernel) (by decide +kernel)).2.2 0 true s₂ _ _ (among.quiesced down) stepped grown
    rfl rfl retried (same ▸ Transition.runFrom_after _ _ _ _)).2

/-- No process ends and nothing a worker does fails. -/
def Faultless (_ : System) : SystemAction → Prop
  | .worker _ .exit => False
  | .worker _ (.putStatus result) => result = .ok
  | .worker _ (.watchError _) => False
  | .worker _ (.runStepDone result) => result = .ok ()
  | _ => True

instance (s : System) : ∀ a, Decidable (Faultless s a)
  | .worker _ .exit | .worker _ (.watchError _) => .isFalse id
  | .worker _ (.putStatus _) | .worker _ (.runStepDone _) => inferInstanceAs (Decidable (_ = _))
  | .worker _ (.start _) | .worker _ .getRequest | .worker _ .receiveRequest
  | .worker _ .examine | .worker _ .receiveEvent | .updater .. | .recover ..
  | .campaign _ | .loseKey _ | .registerBootserver _ | .deleteBootServer _
  | .updateNecoRelease _ | .other | .tick _ => .isTrue trivial

/-- Server 0 is in its first step while the update is stopped for the timeout, cleared and
put again. It reports the end of the step, leaves the stopped update, comes upon the retry
and takes its own late report for an abort. -/
def reportedLate : System :=
  .play operatorConfig Faultless [0] "2020.01.01-1"
    (joinUpdate "2020.01.01-1" 0 ++
      [.worker 0 .receiveEvent, .tick 3600000000001, .campaign 0, .updater 0 .elected] ++
      decideAndPut 0 ++ [.recover 0 .read, .recover 0 .clear] ++ decideAndPut 0 ++
      [.worker 0 (.runStepDone (.ok ())), .worker 0 (.putStatus .ok), .worker 0 .receiveEvent,
        .worker 0 .receiveRequest, .worker 0 .receiveRequest, .worker 0 .examine,
        .worker 0 .receiveRequest, .worker 0 .receiveRequest, .worker 0 .examine,
        .worker 0 (.putStatus .ok)])

theorem retry_aborted_by_late_report :
    ∃ s : System, Reached operatorConfig Faultless s ∧ ∃ h₁ h₂ m₁ R₁ R₂ m₂,
      s.history = h₁ ++ .clearStatusAndContents :: h₂ ∧ lastRequest h₁ = some m₁ ∧
      requestAt h₁ m₁ = some R₁ ∧ (store s.history).current = some (R₂, m₂) ∧
      R₂.stop = false ∧ R₂.version = R₁.version ∧ s.now - R₂.startedAt ≤ operatorConfig.timeout ∧
      (∃ j st, Change.putStatus j st m₁ ∈ h₂ ∧ st.version = R₂.version) ∧
      ∃ j st, (store s.history).statuses.lookup j = some st ∧ st.version = R₂.version ∧
        st.cond = .abort :=
  ⟨reportedLate, reached_play _ _ _ _ _ (by decide +kernel), reportedLate.history.take 5,
    reportedLate.history.drop 6, 3, firstRequest [0] "2020.01.01-1",
    ⟨"2020.01.01-1", [0], false, 3600000000001⟩, 7, by decide +kernel, by decide +kernel,
    by decide +kernel, by decide +kernel, rfl, rfl, by decide +kernel,
    ⟨0, ⟨"2020.01.01-1", 2, .running, ""⟩, by decide +kernel, rfl⟩,
    ⟨0, ⟨"2020.01.01-1", 2, .abort, ""⟩, by decide +kernel, rfl, rfl⟩⟩

end Neco
