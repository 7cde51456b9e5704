import Neco.Lib.Fairness
import Neco.Properties.Restart
import Mathlib.Data.Prod.Lex
import Mathlib.Algebra.Order.BigOperators.Group.List
import Mathlib.Algebra.Order.Ring.Nat

/-!
# An update comes to its end

From a clean start, without failures and as long as no updater puts another request, every member
of a request completes it, in whatever order the members proceed, unless one that has completed looks
at the request again before all others have. Steps of members that have not completed help; only the
events that no handler waits for do not count. Each step that helps brings its member nearer to the
end, or nearer to the last report that it has not read.
-/

namespace Neco

open Lockstep Transition

variable {V : Type} [DecidableEq V]

/-! ### Steps that help -/

def Phase.isRestarting : Phase → Bool
  | .restarting _ => true
  | _ => false

/-- A member that has not completed `R` ends only to restart after an earlier update, and it is
started with the version that `UpdateNeco` has installed. -/
def Diligent (R : UpdateRequest) (s : System) : SystemAction → Prop
  | .worker lrn .exit => lrn ∈ R.servers → ¬ShowsCompletion R s lrn →
      (s.workers lrn).phase.isRestarting = true
  | .worker lrn (.start version) => lrn ∈ R.servers → version = R.version
  | _ => True

instance (R : UpdateRequest) (s : System) (a : SystemAction) : Decidable (Diligent R s a) := by
  unfold Diligent
  split <;> infer_instance

/-- There is a report that the handler has not read. -/
def Unread (h : List Change) : Phase → Prop
  | .watching _ hd => ∃ c ∈ h.drop hd.pos, c.isStatus = true
  | _ => False

/-- Steps of members that have not completed `R`. To read an event helps only when a report
follows. -/
def Helps (R : UpdateRequest) (s : System) : SystemAction → Prop
  | .worker lrn a => lrn ∈ R.servers ∧ ¬ShowsCompletion R s lrn ∧
      (a = .receiveEvent → Unread s.history (s.workers lrn).phase)
  | _ => False

/-- The request `R` of revision `m` is still ahead of a process that waits for one, or it is being
looked at. -/
def Expects (R : UpdateRequest) (m : Nat) : Phase → Prop
  | .waiting pos => pos < m
  | .examining job => job.req = R ∧ job.modRev = m ∨ job.rev < m
  | _ => True

/-- What may happen in the update of `R`: no step fails, no updater puts a request, nothing is
cleared (`Undisturbed`), and the members are kept running (`Diligent`). -/
def Proceeding (R : UpdateRequest) (s : System) (a : SystemAction) : Prop :=
  Undisturbed R s a ∧ Diligent R s a

/-- Moreover a worker that has completed `R` looks at a request only when all members have. -/
def Coordinated (R : UpdateRequest) (s : System) (a : SystemAction) : Prop :=
  (Undisturbed R s a ∧ FinishedWaits R s a) ∧ Diligent R s a

instance (R : UpdateRequest) (s : System) (a : SystemAction) : Decidable (Coordinated R s a) :=
  inferInstanceAs (Decidable (_ ∧ _))

theorem Coordinated.proceeding {R : UpdateRequest} {s : System} {a : SystemAction}
    (coordinated : Coordinated R s a) : Proceeding R s a := ⟨coordinated.1.1, coordinated.2⟩

/-- A steady reign in which the members that have not begun will come upon the request. -/
structure Progressing (final : Nat) (R : UpdateRequest) (m : Nat) (s : System) : Prop where
  steady : Steady final R m s
  expects : ∀ i ∈ R.servers, (i, final + 1) ∉ arrivals m s.history →
    Expects R m (s.workers i).phase

theorem Steady.showsCompletion_iff {final : Nat} {R : UpdateRequest} {m : Nat} {s : System}
    (steady : Steady final R m s) {i : Int} :
    ShowsCompletion R s i ↔ (i, final + 1) ∈ arrivals m s.history := by
  constructor
  · rintro ⟨st, found, version, complete⟩
    obtain ⟨arrived, proper⟩ := steady.reign.status steady.fresh found version
    rcases proper with ⟨running, _⟩ | ⟨_, step⟩
    · cases complete.symm.trans running
    · rwa [UpdateStatus.level, if_pos complete, step] at arrived
  · exact steady.reign.finished_status

/-! ### How far a member has to go -/

/-- The steps that a process still has to take before it has completed, events apart. -/
def Phase.toGo (final : Nat) (R : UpdateRequest) (m : Nat) (version : String) : Phase → Nat
  | .completing _ _ => 1
  | .running _ hd => 3 * (final - hd.step) + 2
  | .watching _ hd => 3 * (final - hd.step) + 3
  | .advancing _ hd => 3 * (final - hd.step) + 4
  | .entering _ => 3 * final + 1
  | .examining job => if job.req = R ∧ version = R.version then 3 * final + 2
      else 3 * final + 6 + 2 * (m - job.rev)
  | .starting => if version = R.version then 3 * final + 3 else 3 * final + 7
  | .down => 3 * final + 4
  | .waiting pos => 3 * final + 5 + 2 * (m - pos)
  | .restarting _ => 3 * final + 5
  | _ => 0

/-- The events up to the last report. -/
def unread : List Change → Nat
  | [] => 0
  | c :: rest => if (c :: rest).any Change.isStatus then unread rest + 1 else 0

theorem unread_concat (h : List Change) {c : Change} (silent : c.isStatus = false) :
    unread (h ++ [c]) = unread h := by
  induction h with
  | nil => simp [unread, silent]
  | cons d rest ih => simp [unread, ih, silent]

/-- The events that a handler has to read. -/
def Phase.toRead (h : List Change) : Phase → Nat
  | .watching _ hd => unread (h.drop hd.pos)
  | _ => 0

/-- The rank of a member: nothing is left once it has completed. -/
def toGo (final : Nat) (R : UpdateRequest) (m : Nat) (s : System) (i : Int) : Nat :=
  if (i, final + 1) ∈ arrivals m s.history then 0
  else (s.workers i).phase.toGo final R m (s.workers i).version

/-- What all members have to do, and then what they have to read. -/
def rank (final : Nat) (R : UpdateRequest) (m : Nat) (s : System) : Nat ×ₗ Nat :=
  toLex ((R.servers.map (toGo final R m s)).sum,
    (R.servers.map fun i => (s.workers i).phase.toRead s.history).sum)

/-! ### Steps of a member -/

/-- What a step of a member that has not completed leads to: it has less to go, or it has read an
event, or it has completed. -/
inductive Nearer (final : Nat) (R : UpdateRequest) (m : Nat) (h : List Change) (i : Int) (w : Worker) :
    WorkerAction → Worker → List Change → Prop
  | closer {a : WorkerAction} {w' : Worker} {cs : List Change} :
      w'.phase.toGo final R m w'.version < w.phase.toGo final R m w.version →
      Nearer final R m h i w a w' cs
  | read {w' : Worker} {job : Job} {hd hd' : Handler} {c : Change} :
      w.phase = .watching job hd → h[hd.pos]? = some c → w'.phase = .watching job hd' →
      hd'.step = hd.step → hd'.pos = hd.pos + 1 → Nearer final R m h i w .receiveEvent w' []
  | completed {a : WorkerAction} {w' : Worker} {cs : List Change} :
      (i, final + 1) ∈ arrivals m (h ++ cs) → Nearer final R m h i w a w' cs

section Member

variable {final : Nat} {R : UpdateRequest} {m : Nat} {s : System} {i : Int} {w : Worker}
  {a : WorkerAction} {cs : List Change} {events : List StepEvent}

/-- A process that has not begun the update comes nearer to it with every step. -/
theorem Progressing.idle_nearer (progressing : Progressing final R m s) (member : i ∈ R.servers)
    (absent : (i, final + 1) ∉ arrivals m s.history) (idle : Idle s.history R m i (s.workers i))
    (outside : ∀ k, (i, k) ∉ arrivals m s.history)
    (ok : Coordinated R s (.worker i a)) (move : Move final s.history i (s.workers i) a w cs events) :
    Expects R m w.phase ∧ Nearer final R m s.history i (s.workers i) a w cs := by
  have reign := progressing.steady.reign
  have expects := progressing.expects i member absent
  have unfinished : ¬ShowsCompletion R s i := fun shows =>
    absent (progressing.steady.showsCompletion_iff.mp shows)
  have put := current_requestAt reign.current
  obtain ⟨_, diligent⟩ := ok
  generalize before : s.workers i = w₀ at move expects idle
  cases move with
  | start old version =>
    have same : version = R.version := diligent member
    exact ⟨trivial, .closer (by simp [Phase.toGo, same])⟩
  | exit v p up =>
    have restarts := diligent member unfinished
    rw [before] at restarts
    cases p with
    | restarting job => exact ⟨trivial, .closer (by simp [Phase.toGo])⟩
    | _ => cases restarts
  | noRequest v none => cases none.symm.trans reign.current
  | gotRequest v req rev present =>
    cases present.symm.trans reign.current
    refine ⟨Or.inl ⟨rfl, rfl⟩, .closer ?_⟩
    have low := reign.low
    by_cases same : v = R.version
    · simp [Phase.toGo, same]
    · simp only [Phase.toGo, same, and_false, if_false]
      omega
  | skipped v pos c here no =>
    have ahead : pos < m := expects
    have differs : pos + 1 ≠ m := by
      rintro rfl
      simp [requestAt, here, no] at put
    exact ⟨by simp only [Expects]; omega, .closer (by simp only [Phase.toGo]; omega)⟩
  | received v pos c req here put' =>
    have ahead : pos < m := expects
    have here' : requestAt s.history (pos + 1) = some req := by
      simp only [requestAt, here, Option.bind_some, put']
    refine ⟨?_, .closer ?_⟩
    · by_cases last : pos + 1 = m
      · subst last
        cases here'.symm.trans put
        exact Or.inl ⟨rfl, rfl⟩
      · exact Or.inr (by simp only; omega)
    · simp only [Phase.toGo]
      split <;> omega
  | examine v job =>
    by_cases own : job.req = R
    · -- the member joins the update, or it installs the version first
      have inside : R.isMember i = true := by simpa using member
      by_cases same : v = R.version
      · have going : updateAborted R.version i (store s.history).statuses = false :=
          reign.not_aborted progressing.steady.fresh member (Or.inl outside)
            fun shows => absurd shows unfinished
        have more : updateCompleted R.version R.servers (store s.history).statuses = false := by
          rw [← Bool.not_eq_true, updateCompleted_iff]
          exact fun all => unfinished (all i member)
        have enters : examineRequest i v job (store s.history).statuses = .entering job := by
          simp [examineRequest, own, reign.running, inside, same, going, more]
        rw [enters]
        exact ⟨trivial, .closer (by simp [Phase.toGo, own, same])⟩
      · have updates : examineRequest i v job (store s.history).statuses = .down := by
          simp [examineRequest, own, reign.running, inside, same]
        rw [updates]
        refine ⟨trivial, .closer ?_⟩
        simp only [Phase.toGo, same, and_false, if_false]
        omega
    · -- an older request that is not for this process
      have ahead : job.rev < m := by
        rcases expects with ⟨same, _⟩ | ahead
        · exact absurd same own
        · exact ahead
      have ignored : ¬(job.req.stop = false ∧ i ∈ job.req.servers ∧ v = job.req.version) := by
        rw [← handles_iff]
        rcases idle.2 with ⟨same, _⟩ | ignored
        · exact absurd same own
        · simpa using ignored
      have examined := examineRequest_examined i v job (store s.history).statuses
      generalize examineRequest i v job (store s.history).statuses = p at examined
      cases examined with
      | skip => exact ⟨ahead, .closer (by simp [Phase.toGo, own])⟩
      | updateNeco running inside version =>
        refine ⟨trivial, .closer ?_⟩
        simp only [Phase.toGo, own, false_and, if_false]
        omega
      | abort myst running inside version => exact absurd ⟨running, inside, version⟩ ignored
      | enter running inside version => exact absurd ⟨running, inside, version⟩ ignored
  | put v p job st result pending applied => cases idle.pending.symm.trans pending
  | lost v p job st msg pending => cases idle.pending.symm.trans pending
  | event v job hd c here => exact idle.elim
  | watchError v job hd msg => exact idle.elim
  | finished v job hd => exact idle.elim
  | failed v job hd msg => exact idle.elim

/-- A member in the update comes nearer to its end with every step. -/
theorem Progressing.taking_nearer (progressing : Progressing final R m s) (member : i ∈ R.servers)
    (absent : (i, final + 1) ∉ arrivals m s.history)
    (taking : Taking final s.history R m i (s.workers i).phase) (ok : Coordinated R s (.worker i a))
    (move : Move final s.history i (s.workers i) a w cs events) :
    Expects R m w.phase ∧ Nearer final R m s.history i (s.workers i) a w cs := by
  have reign := progressing.steady.reign
  have unfinished : ¬ShowsCompletion R s i := fun shows =>
    absent (progressing.steady.showsCompletion_iff.mp shows)
  have positive := reign.positive
  obtain ⟨⟨undisturbed, _⟩, diligent⟩ := ok
  generalize before : s.workers i = w₀ at move taking
  cases move with
  | exit v p up =>
    have restarts := diligent member unfinished
    rw [before] at restarts
    cases p with
    | restarting job => exact absurd taking absent
    | _ => cases restarts
  | put v p job st result pending applied =>
    obtain rfl : result = .ok := undisturbed
    cases p with
    | entering job' =>
      cases pending
      exact ⟨trivial, .closer (by simp only [Phase.afterPut, Phase.toGo]; omega)⟩
    | advancing job' hd =>
      cases pending
      exact ⟨trivial, .closer (by simp only [Phase.afterPut, Phase.toGo]; omega)⟩
    | completing job' hd =>
      have done := (reign.report member (Or.inr taking) pending).2.2
      cases pending
      exact ⟨trivial, .completed done⟩
    | watching job' hd => cases pending
    | running job' hd => cases pending
    | restarting job' => cases pending
    | _ => exact taking.elim
  | lost v p job st msg pending => cases undisturbed
  | event v job hd c here =>
    have next := reign.event taking here (watchChange_watched job hd c)
    have watched := watchChange_watched job hd c
    generalize watchChange job hd c = p at watched next
    cases watched with
    | stopped req put stopped => exact next.elim
    | aborting msg reason => exact next.elim
    | ignored _ outside => exact ⟨trivial, .read rfl here rfl rfl rfl⟩
    | arrived j st o put inside version going unfinished step remaining =>
      exact ⟨trivial, .read rfl here rfl rfl rfl⟩
    | run j st o put inside version going unfinished step last =>
      exact ⟨trivial, .closer (by simp [Phase.toGo])⟩
  | watchError v job hd msg => exact undisturbed.elim
  | finished v job hd =>
    obtain ⟨_, one, bound, _⟩ := taking
    simp only [afterRunStep]
    split
    next more =>
      have differs : hd.step ≠ final := by simpa using more
      exact ⟨trivial, .closer (by simp only [Phase.toGo]; omega)⟩
    next => exact ⟨trivial, .closer (by simp only [Phase.toGo]; omega)⟩
  | failed v job hd msg => cases undisturbed
  | _ => exact taking.elim

theorem Progressing.nearer (progressing : Progressing final R m s) (member : i ∈ R.servers)
    (absent : (i, final + 1) ∉ arrivals m s.history) (ok : Coordinated R s (.worker i a))
    (move : Move final s.history i (s.workers i) a w cs events) :
    Expects R m w.phase ∧ Nearer final R m s.history i (s.workers i) a w cs := by
  rcases progressing.steady.reign.members i member with ⟨idle, outside | finished⟩ | taking
  · exact progressing.idle_nearer member absent idle outside ok move
  · exact absurd finished absent
  · exact progressing.taking_nearer member absent taking ok move

end Member

/-! ### Steps of the system -/

section Step

variable {final : Nat} {R : UpdateRequest} {m : Nat} {s t : System}

theorem rank_lt_of_toGo {i : Int} (member : i ∈ R.servers)
    (less : toGo final R m t i < toGo final R m s i)
    (others : ∀ j ∈ R.servers, j ≠ i → toGo final R m t j = toGo final R m s j) :
    rank final R m t < rank final R m s := by
  refine Prod.Lex.toLex_lt_toLex.mpr (Or.inl (List.sum_lt_sum _ _ ?_ ⟨i, member, less⟩))
  intro j inside
  by_cases same : j = i
  · exact same ▸ less.le
  · exact (others j inside same).le

/-- A step by which nobody has less to go. -/
theorem rank_of_toGo_eq (same : ∀ j ∈ R.servers, toGo final R m t j = toGo final R m s j)
    (reads : ∀ j ∈ R.servers,
      (t.workers j).phase.toRead t.history ≤ (s.workers j).phase.toRead s.history) :
    rank final R m t ≤ rank final R m s ∧
      ((∃ i ∈ R.servers, (t.workers i).phase.toRead t.history <
        (s.workers i).phase.toRead s.history) → rank final R m t < rank final R m s) := by
  have sums : R.servers.map (toGo final R m t) = R.servers.map (toGo final R m s) :=
    List.map_congr_left same
  constructor
  · exact Prod.Lex.toLex_le_toLex.mpr (Or.inr ⟨by rw [sums], List.sum_le_sum reads⟩)
  · intro less
    exact Prod.Lex.toLex_lt_toLex.mpr (Or.inr ⟨by rw [sums], List.sum_lt_sum _ _ reads less⟩)

/-- A member that watches is in the update. -/
theorem Reign.watching (reign : Reign final R m s) {i : Int} (member : i ∈ R.servers) {job : Job}
    {hd : Handler} (phase : (s.workers i).phase = .watching job hd) :
    Taking final s.history R m i (.watching job hd) := by
  rcases reign.members i member with ⟨idle, _⟩ | taking
  · simp only [Idle, phase] at idle
  · exact phase ▸ taking

theorem Reign.toRead_concat (reign : Reign final R m s) {i : Int} (member : i ∈ R.servers)
    {c : Change} (silent : c.isStatus = false) :
    (s.workers i).phase.toRead (s.history ++ [c]) = (s.workers i).phase.toRead s.history := by
  cases phase : (s.workers i).phase with
  | watching job hd =>
    have high := (reign.watching member phase).1.high
    rw [Phase.toRead, Phase.toRead, List.drop_append_of_le_length high, unread_concat _ silent]
  | _ => rfl

/-- A step of a party that is no member. -/
theorem Progressing.frame (progressing : Progressing final R m s) (steady : Steady final R m t)
    {cs : List Change} (history : t.history = s.history ++ cs)
    (silent : cs = [] ∨ ∃ c, cs = [c] ∧ c.isStatus = false)
    (workers : ∀ i ∈ R.servers, t.workers i = s.workers i) :
    Progressing final R m t ∧ rank final R m t ≤ rank final R m s := by
  have low := progressing.steady.reign.low
  have arrived : arrivals m t.history = arrivals m s.history := by
    rcases silent with rfl | ⟨c, rfl, silent⟩
    · rw [history, List.append_nil]
    · have noReport : arrival c = none := by cases c <;> first | rfl | cases silent
      rw [history, arrivals_concat low, noReport, Option.toList_none, List.append_nil]
  refine ⟨⟨steady, fun i member absent => ?_⟩, (rank_of_toGo_eq ?_ ?_).1⟩
  · rw [workers i member]
    exact progressing.expects i member (arrived ▸ absent)
  · intro i member
    rw [toGo, toGo, arrived, workers i member]
  · intro i member
    rw [workers i member, history]
    rcases silent with rfl | ⟨c, rfl, silent⟩
    · rw [List.append_nil]
    · exact (progressing.steady.reign.toRead_concat member silent).le

theorem unread_next {h : List Change} {pos : Nat} {c : Change} (here : h[pos]? = some c) :
    unread (h.drop (pos + 1)) ≤ unread (h.drop pos) ∧
      ((∃ c ∈ h.drop pos, c.isStatus = true) → unread (h.drop (pos + 1)) < unread (h.drop pos)) := by
  obtain ⟨inside, rfl⟩ := List.getElem?_eq_some_iff.mp here
  rw [← List.getElem_cons_drop inside]
  have nothing : ∀ l : List Change, l.any Change.isStatus = false → unread l = 0 := by
    intro l none
    cases l with
    | nil => rfl
    | cons d rest => rw [unread, none]; rfl
  by_cases more : (h[pos] :: h.drop (pos + 1)).any Change.isStatus = true
  · rw [unread, if_pos more]
    exact ⟨Nat.le_succ _, fun _ => Nat.lt_succ_self _⟩
  · have later : (h.drop (pos + 1)).any Change.isStatus = false := by
      rw [List.any_cons] at more
      simp only [Bool.or_eq_true, not_or] at more
      simpa using more.2
    rw [nothing _ later]
    refine ⟨Nat.zero_le _, fun some => absurd (List.any_eq_true.mpr some) more⟩

/-- Who has completed has nothing to report and nothing to read. -/
theorem Reign.finished_phase (reign : Reign final R m s) {i : Int} (member : i ∈ R.servers)
    (finished : (i, final + 1) ∈ arrivals m s.history) :
    (s.workers i).phase.pending = none ∧ (s.workers i).phase.toRead s.history = 0 := by
  have below (k : Nat) (positive : 1 ≤ k) (low : k ≤ final) {pos : Nat} (above : m ≤ pos)
      (notNext : (i, k + 1) ∉ arrivals m (s.history.take pos) ++ arrivals pos s.history) : False := by
    rw [← arrivals_split above] at notNext
    by_cases last : k = final
    · exact notNext (last ▸ finished)
    · exact notNext (reign.log.mem_below finished member (k + 1) (by omega) (by omega))
  have positive := reign.positive
  rcases reign.members i member with ⟨idle, _⟩ | taking
  · refine ⟨idle.pending, ?_⟩
    cases phase : (s.workers i).phase with
    | watching job hd => simp only [Idle, phase] at idle
    | _ => rfl
  · cases phase : (s.workers i).phase with
    | entering job => exact absurd finished ((phase ▸ taking).2.2 _)
    | watching job hd =>
      obtain ⟨following, one, bound, _, reads⟩ := phase ▸ taking
      exact (below _ one bound following.low reads.notNext).elim
    | running job hd =>
      obtain ⟨following, one, bound, passed⟩ := phase ▸ taking
      exact (below _ one bound following.low passed.notNext).elim
    | advancing job hd =>
      obtain ⟨following, _, k, _, bound, passed⟩ := phase ▸ taking
      rcases Nat.eq_zero_or_pos k with rfl | one
      · exact absurd passed.notNext (by
          rw [not_not, ← arrivals_split following.low]
          exact reign.log.mem_below finished member 1 (by omega) (by omega))
      · exact (below k one (by omega) following.low passed.notNext).elim
    | completing job hd =>
      obtain ⟨following, _, passed⟩ := phase ▸ taking
      exact (below final positive le_rfl following.low passed.notNext).elim
    | restarting job => exact ⟨rfl, rfl⟩
    | _ => exact (phase ▸ taking).elim

theorem Reign.toGo_pos (reign : Reign final R m s) {i : Int} (member : i ∈ R.servers)
    (absent : (i, final + 1) ∉ arrivals m s.history) : 0 < toGo final R m s i := by
  have phases : ∀ p, (s.workers i).phase = p → 0 < p.toGo final R m (s.workers i).version := by
    rintro p rfl
    rcases reign.members i member with ⟨idle, _⟩ | taking
    · cases phase : (s.workers i).phase <;> simp only [Idle, phase] at idle <;>
        simp only [Phase.toGo] <;> (try split) <;> omega
    · cases phase : (s.workers i).phase <;> rw [phase] at taking <;>
        first | exact taking.elim | (simp only [Phase.toGo]; omega)
  rw [toGo, if_neg absent]
  exact phases _ rfl

/-- A step of a member. -/
theorem Progressing.worker (progressing : Progressing final R m s) (steady : Steady final R m t)
    {i : Int} (member : i ∈ R.servers) {a : WorkerAction} {w : Worker} {cs : List Change}
    {events : List StepEvent} (ok : Coordinated R s (.worker i a))
    (move : Move final s.history i (s.workers i) a w cs events)
    (history : t.history = s.history ++ cs) (workers : t.workers = Function.update s.workers i w) :
    Progressing final R m t ∧ rank final R m t ≤ rank final R m s ∧
      (Helps R s (.worker i a) → rank final R m t < rank final R m s) := by
  have reign := progressing.steady.reign
  have others {j : Int} (other : j ≠ i) : t.workers j = s.workers j := by
    rw [workers, Function.update_of_ne other]
  have self : t.workers i = w := by rw [workers, Function.update_self]
  have kept {j : Int} (finished : (j, final + 1) ∈ arrivals m s.history) :
      (j, final + 1) ∈ arrivals m t.history := by
    rw [history]
    rcases move.committed with rfl | ⟨job, st, _, rfl⟩
    · rwa [List.append_nil]
    · rw [arrivals_concat reign.low]
      exact List.mem_append_left _ finished
  have arrived {j : Int} (other : j ≠ i) :
      (j, final + 1) ∈ arrivals m t.history ↔ (j, final + 1) ∈ arrivals m s.history := by
    refine ⟨fun finished => ?_, kept⟩
    rw [history] at finished
    rcases move.committed with rfl | ⟨job, st, _, rfl⟩
    · rwa [List.append_nil] at finished
    · rw [arrivals_concat reign.low, List.mem_append] at finished
      rcases finished with old | new
      · exact old
      · simp only [arrival, Option.toList_some, List.mem_singleton, Prod.mk.injEq] at new
        exact absurd new.1 other
  have sameGo {j : Int} (other : j ≠ i) : toGo final R m t j = toGo final R m s j := by
    simp only [toGo, arrived other, others other]
  by_cases finished : (i, final + 1) ∈ arrivals m s.history
  · -- a member that has completed does what it likes
    obtain ⟨nothing, read⟩ := reign.finished_phase member finished
    have silent : cs = [] := by
      rcases move.committed with same | ⟨job, st, pending, _⟩
      · exact same
      · cases nothing.symm.trans pending
    subst silent
    rw [List.append_nil] at history
    have allGo : ∀ j ∈ R.servers, toGo final R m t j = toGo final R m s j := by
      intro j inside
      by_cases same : j = i
      · subst same
        rw [toGo, toGo, if_pos (kept finished), if_pos finished]
      · exact sameGo same
    have allRead : ∀ j ∈ R.servers,
        (t.workers j).phase.toRead t.history ≤ (s.workers j).phase.toRead s.history := by
      intro j inside
      by_cases same : j = i
      · subst same
        rw [(steady.reign.finished_phase member (kept finished)).2]
        exact Nat.zero_le _
      · rw [others same, history]
    refine ⟨⟨steady, fun j inside absent => ?_⟩, (rank_of_toGo_eq allGo allRead).1, ?_⟩
    · by_cases same : j = i
      · exact absurd (kept (same ▸ finished)) absent
      · rw [others same]
        exact progressing.expects j inside fun here => absent (kept here)
    · rintro ⟨_, incomplete, _⟩
      exact absurd (progressing.steady.showsCompletion_iff.mpr finished) incomplete
  · obtain ⟨expects, nearer⟩ := progressing.nearer member finished ok move
    have next : Progressing final R m t := by
      refine ⟨steady, fun j inside absent => ?_⟩
      by_cases same : j = i
      · subst same
        rw [self]
        exact expects
      · rw [others same]
        exact progressing.expects j inside fun here => absent (kept here)
    have before : toGo final R m s i =
        (s.workers i).phase.toGo final R m (s.workers i).version := if_neg finished
    have less (closer : toGo final R m t i < toGo final R m s i) :
        Progressing final R m t ∧ rank final R m t ≤ rank final R m s ∧
          (Helps R s (.worker i a) → rank final R m t < rank final R m s) := by
      have lower := rank_lt_of_toGo member closer fun j _ other => sameGo other
      exact ⟨next, lower.le, fun _ => lower⟩
    cases nearer with
    | closer closer =>
      refine less (Nat.lt_of_le_of_lt ?_ (before ▸ closer))
      rw [toGo, self]
      split
      · exact Nat.zero_le _
      · exact le_rfl
    | completed arrived =>
      refine less ?_
      rw [toGo, if_pos (history ▸ arrived)]
      exact reign.toGo_pos member finished
    | @read _ job hd hd' c phase here phase' step pos =>
      rw [List.append_nil] at history
      have reads := unread_next here
      have readSelf : (t.workers i).phase.toRead t.history = unread (s.history.drop (hd.pos + 1)) := by
        rw [self, phase', history, Phase.toRead, pos]
      have readBefore : (s.workers i).phase.toRead s.history = unread (s.history.drop hd.pos) := by
        rw [phase, Phase.toRead]
      have allGo : ∀ j ∈ R.servers, toGo final R m t j = toGo final R m s j := by
        intro j inside
        by_cases same : j = i
        · subst same
          rw [before, toGo, if_neg (history ▸ finished), self, phase', phase, Phase.toGo, Phase.toGo,
            step]
        · exact sameGo same
      have allRead : ∀ j ∈ R.servers,
          (t.workers j).phase.toRead t.history ≤ (s.workers j).phase.toRead s.history := by
        intro j inside
        by_cases same : j = i
        · subst same
          rw [readSelf, readBefore]
          exact reads.1
        · rw [others same, history]
      obtain ⟨le, lt⟩ := rank_of_toGo_eq allGo allRead
      refine ⟨next, le, fun helps => lt ⟨i, member, ?_⟩⟩
      have more := helps.2.2 rfl
      rw [phase] at more
      rw [readSelf, readBefore]
      exact reads.2 more

end Step

theorem progressing_step {cfg : Config V} {R : UpdateRequest} {m : Nat} {s t : System}
    {a : SystemAction} (progressing : Progressing cfg.final R m s) (ok : Coordinated R s a)
    (stepped : Stepped cfg s a t) :
    Progressing cfg.final R m t ∧ rank cfg.final R m t ≤ rank cfg.final R m s ∧
      (Helps R s a → rank cfg.final R m t < rank cfg.final R m s) := by
  have steady := steady_step progressing.steady ok.1 stepped
  -- what others do leaves the ranks, and does not help
  have frame {cs : List Change} (history : t.history = s.history ++ cs)
      (silent : cs = [] ∨ ∃ c, cs = [c] ∧ c.isStatus = false)
      (workers : ∀ i ∈ R.servers, t.workers i = s.workers i) (useless : ¬Helps R s a) :
      Progressing cfg.final R m t ∧ rank cfg.final R m t ≤ rank cfg.final R m s ∧
        (Helps R s a → rank cfg.final R m t < rank cfg.final R m s) := by
    obtain ⟨next, le⟩ := progressing.frame steady history silent workers
    exact ⟨next, le, fun helps => absurd helps useless⟩
  cases stepped with
  | worker lrn a w cs events move =>
    by_cases member : lrn ∈ R.servers
    · exact progressing.worker steady member ok move rfl rfl
    · have idle := (progressing.steady.outsiders lrn member).pending
      have silent : cs = [] := by
        rcases move.committed with same | ⟨job, st, pending, _⟩
        · exact same
        · cases idle.symm.trans pending
      refine frame rfl (Or.inl silent) (fun i inside => ?_) fun helps => member helps.1
      have other : i ≠ lrn := by
        rintro rfl
        exact member inside
      exact Function.update_of_ne other ..
  | updater u a next cs move =>
    cases cs with
    | nil => exact frame rfl (Or.inl rfl) (fun _ _ => rfl) id
    | cons c cs =>
      obtain ⟨acknowledged, rfl⟩ := move.put_of_commit
      exact ok.1.1.elim
  | recoverRead c req m present stopped =>
    exact frame (List.append_nil _).symm (Or.inl rfl) (fun _ _ => rfl) id
  | recoverClear c req m holds present => exact ok.1.1.elim
  | recoverRetry c => exact ok.1.1.elim
  | campaign u idle => exact frame (List.append_nil _).symm (Or.inl rfl) (fun _ _ => rfl) id
  | loseKey key => exact frame (List.append_nil _).symm (Or.inl rfl) (fun _ _ => rfl) id
  | info a c info valid external =>
    refine frame rfl (Or.inr ⟨c, rfl, ?_⟩) (fun _ _ => rfl) ?_
    · cases c <;> first | rfl | cases info
    · cases a <;> first | exact id | cases external
  | other a external =>
    refine frame rfl (Or.inr ⟨_, rfl, rfl⟩) (fun _ _ => rfl) ?_
    cases a <;> first | exact id | cases external
  | tick elapsed => exact frame (List.append_nil _).symm (Or.inl rfl) (fun _ _ => rfl) id

/-! ### Somebody can always go on -/

section Goes

variable {final : Nat} {R : UpdateRequest} {m : Nat} {s : System}

/-- Not all members that have not completed wait for reports that nobody has written: the one
furthest behind would wait for a member still behind it. -/
theorem Progressing.not_all_wait (progressing : Progressing final R m s)
    (wait : ∀ i ∈ R.servers, (i, final + 1) ∉ arrivals m s.history →
      ∃ job hd, (s.workers i).phase = .watching job hd ∧ ∀ c ∈ s.history.drop hd.pos, c.isStatus = false) :
    ∀ n, ∀ i ∈ R.servers, ∀ job hd, (s.workers i).phase = .watching job hd → hd.step ≠ n := by
  have reign := progressing.steady.reign
  intro n
  induction n using Nat.strong_induction_on with
  | _ n ih =>
  rintro i member job hd phase rfl
  have taking := reign.watching member phase
  obtain ⟨following, one, bound, waits, reads⟩ := taking
  have absent : (i, final + 1) ∉ arrivals m s.history := by
    intro finished
    by_cases last : hd.step = final
    · refine reads.notNext ?_
      rw [← arrivals_split following.low, last]
      exact finished
    · refine reads.notNext ?_
      rw [← arrivals_split following.low]
      exact reign.log.mem_below finished member _ (by omega) (by omega)
  obtain ⟨_, _, phase', nothing⟩ := wait i member absent
  cases phase.symm.trans phase'
  have read : arrivals hd.pos s.history = [] := by
    rw [arrivals, List.filterMap_eq_nil_iff]
    intro c inside
    have silent := nothing c inside
    cases c <;> first | rfl | cases silent
  obtain ⟨b, missed⟩ := Finset.nonempty_iff_ne_empty.mpr waits
  have inside := reads.missing_members b missed
  have missing : (b, hd.step) ∉ arrivals m s.history := by
    rw [arrivals_split following.low, read, List.append_nil]
    exact (reads.missing_iff b inside).mp missed
  have unfinished : (b, final + 1) ∉ arrivals m s.history := fun finished =>
    missing (reign.log.mem_below finished inside hd.step one (by omega))
  obtain ⟨job', hd', phase', _⟩ := wait b inside unfinished
  obtain ⟨following', _, _, _, reads'⟩ := reign.watching inside phase'
  have here := reads'.arrived
  rw [← arrivals_split following'.low] at here
  have behind : hd'.step < hd.step := by
    by_contra ahead
    by_cases level : hd.step = hd'.step
    · exact missing (level ▸ here)
    · exact missing (reign.log.mem_below here inside hd.step one (by omega))
  exact ih hd'.step behind b inside job' hd' phase' rfl

/-- A member that has not completed can take a step that helps, unless it waits for a report. -/
theorem Progressing.can_act (progressing : Progressing final R m s) {i : Int} (member : i ∈ R.servers)
    (absent : (i, final + 1) ∉ arrivals m s.history)
    (ready : ∀ job hd, (s.workers i).phase = .watching job hd →
      ∃ c ∈ s.history.drop hd.pos, c.isStatus = true) :
    ∃ a r, workerStep final s.history i (s.workers i) a = some r ∧ Coordinated R s (.worker i a) ∧
      Helps R s (.worker i a) := by
  have reign := progressing.steady.reign
  have incomplete : ¬ShowsCompletion R s i := fun shows =>
    absent (progressing.steady.showsCompletion_iff.mp shows)
  have expects := progressing.expects i member absent
  obtain ⟨⟨version, p⟩, before⟩ : ∃ w, s.workers i = w := ⟨_, rfl⟩
  rw [before]
  simp only [before] at ready expects
  rcases reign.members i member with ⟨idle, outside | finished⟩ | taking
  · rw [before] at idle
    cases p with
    | down =>
      exact ⟨.start R.version, _, rfl, ⟨⟨trivial, trivial⟩, fun _ => rfl⟩, member, incomplete, by simp⟩
    | starting =>
      refine ⟨.getRequest, (⟨version, .examining ⟨R, m, s.history.length⟩⟩, [], []), ?_,
        ⟨⟨trivial, trivial⟩, trivial⟩, member, incomplete, by simp⟩
      simp only [workerStep, reign.current]
    | waiting pos =>
      have ahead : pos < s.history.length := Nat.lt_of_lt_of_le expects reign.low
      cases put : s.history[pos].request? with
      | none =>
        refine ⟨.receiveRequest, (⟨version, .waiting (pos + 1)⟩, [], []), ?_,
          ⟨⟨trivial, trivial⟩, trivial⟩, member, incomplete, by simp⟩
        simp only [workerStep, List.getElem?_eq_getElem ahead, put]
      | some req =>
        refine ⟨.receiveRequest, (⟨version, .examining ⟨req, pos + 1, pos + 1⟩⟩, [], []), ?_,
          ⟨⟨trivial, trivial⟩, trivial⟩, member, incomplete, by simp⟩
        simp only [workerStep, List.getElem?_eq_getElem ahead, put]
    | examining job =>
      exact ⟨.examine, _, rfl, ⟨⟨trivial, fun shows => absurd shows incomplete⟩, trivial⟩, member,
        incomplete, by simp⟩
    | restarting job =>
      have silent : ¬ShowsProgress R s i := by
        rintro ⟨st, found, same, _⟩
        exact outside _ (reign.status progressing.steady.fresh found same).1
      exact ⟨.exit, _, rfl, ⟨⟨silent, trivial⟩, fun _ _ => by rw [before]; rfl⟩, member,
        incomplete, by simp⟩
    | _ => exact idle.elim
  · exact absurd finished absent
  · rw [before] at taking
    cases p with
    | entering job =>
      exact ⟨.putStatus .ok, _, rfl, ⟨⟨rfl, trivial⟩, trivial⟩, member, incomplete, by simp⟩
    | watching job hd =>
      obtain ⟨c, unread, report⟩ := ready job hd rfl
      have inside : hd.pos < s.history.length := by
        by_contra outside
        rw [List.drop_eq_nil_of_le (by omega)] at unread
        cases unread
      refine ⟨.receiveEvent, (⟨version, watchChange job hd s.history[hd.pos]⟩, [],
        beganEvents i (watchChange job hd s.history[hd.pos])), ?_, ⟨⟨trivial, trivial⟩, trivial⟩,
        member, incomplete, fun _ => ?_⟩
      · simp only [workerStep, List.getElem?_eq_getElem inside]
      · rw [before]
        exact ⟨c, unread, report⟩
    | running job hd =>
      exact ⟨.runStepDone (.ok ()), _, rfl, ⟨⟨rfl, trivial⟩, trivial⟩, member, incomplete, by simp⟩
    | advancing job hd =>
      exact ⟨.putStatus .ok, _, rfl, ⟨⟨rfl, trivial⟩, trivial⟩, member, incomplete, by simp⟩
    | completing job hd =>
      exact ⟨.putStatus .ok, _, rfl, ⟨⟨rfl, trivial⟩, trivial⟩, member, incomplete, by simp⟩
    | restarting job => exact absurd taking absent
    | _ => exact taking.elim

theorem Progressing.goes {cfg : Config V} (progressing : Progressing cfg.final R m s) :
    (∀ i ∈ R.servers, (i, cfg.final + 1) ∈ arrivals m s.history) ∨
      ∃ a t, Coordinated R s a ∧ Helps R s a ∧ s.step cfg a = some t := by
  by_cases wait : ∀ i ∈ R.servers, (i, cfg.final + 1) ∉ arrivals m s.history →
      ∃ job hd, (s.workers i).phase = .watching job hd ∧
        ∀ c ∈ s.history.drop hd.pos, c.isStatus = false
  · refine Or.inl fun i member => ?_
    by_contra absent
    obtain ⟨job, hd, phase, _⟩ := wait i member absent
    exact progressing.not_all_wait wait hd.step i member job hd phase rfl
  · right
    push Not at wait
    obtain ⟨i, member, absent, ready⟩ := wait
    obtain ⟨a, r, stepped, ok, helps⟩ := progressing.can_act member absent fun job hd phase => by
      obtain ⟨c, unread, report⟩ := ready job hd phase
      exact ⟨c, unread, by simpa using report⟩
    have moves : ∃ t, s.step cfg (.worker i a) = some t := by
      rw [System.step, stepped]
      exact ⟨_, rfl⟩
    obtain ⟨t, moved⟩ := moves
    exact ⟨.worker i a, t, ok, helps, moved⟩

end Goes

/-! ### Main theorem -/

theorem Progressing.completed {final : Nat} {R : UpdateRequest} {m : Nat} {s : System}
    (progressing : Progressing final R m s)
    (all : ∀ i ∈ R.servers, (i, final + 1) ∈ arrivals m s.history) :
    updateCompleted R.version R.servers (store s.history).statuses = true :=
  (updateCompleted_iff _ _ _).mpr fun i member =>
    progressing.steady.reign.finished_status (all i member)

theorem completes_of_progressing {cfg : Config V} {R : UpdateRequest} {m : Nat} {run : Nat → System}
    {acts : Nat → SystemAction} (first : Progressing cfg.final R m (run 0))
    (fair : FairRun (System.step cfg) (Coordinated R) (Helps R) run acts) :
    ∃ n, ∀ k, n ≤ k →
      updateCompleted R.version R.servers (store (run k).history).statuses = true := by
  have kept (s : System) (a : SystemAction) (t : System) (progressing : Progressing cfg.final R m s)
      (ok : Coordinated R s a) (stepped : s.step cfg a = some t) :=
    progressing_step progressing ok (step_stepped cfg s t a stepped)
  have always := fair.invariant first fun s a t progressing ok stepped =>
    (kept s a t progressing ok stepped).1
  obtain ⟨n, all⟩ := fair.eventually (rank cfg.final R m) first (fun s progressing =>
    progressing.goes) kept
  refine ⟨n, fun k later => (always k).completed ?_⟩
  -- what has been reported stays in the history
  induction later with
  | refl => exact all
  | @step k _ ih =>
    intro i member
    have stepped := step_stepped cfg _ _ _ (fair.stepped k)
    rcases stepped.history_cases with same | ⟨c, grown⟩
    · rw [same]
      exact ih i member
    · rw [grown, arrivals_concat (always k).steady.reign.low]
      exact List.mem_append_left _ (ih i member)

/-- Unless a worker looks at the request too early, the steps of a run are coordinated. -/
theorem coordinated_of_proceeding {cfg : Config V} {R : UpdateRequest} {run : Nat → System}
    {acts : Nat → SystemAction} (fair : FairRun (System.step cfg) (Proceeding R) (Helps R) run acts)
    (waits : ∀ k, FinishedWaits R (run k) (acts k)) :
    FairRun (System.step cfg) (Coordinated R) (Helps R) run acts where
  admitted k := ⟨⟨(fair.admitted k).1, waits k⟩, (fair.admitted k).2⟩
  stepped := fair.stepped
  just n possible := by
    obtain ⟨a, t, coordinated, helps, stepped⟩ := possible
    exact fair.just n ⟨a, t, coordinated.proceeding, helps, stepped⟩

/-- The update is completed, or a worker that has completed it looks at a request too early. -/
theorem completes_or_examines {cfg : Config V} {R : UpdateRequest} {m : Nat} {run : Nat → System}
    {acts : Nat → SystemAction} (first : Progressing cfg.final R m (run 0))
    (fair : FairRun (System.step cfg) (Proceeding R) (Helps R) run acts) :
    (∃ n, ∀ k, n ≤ k →
      updateCompleted R.version R.servers (store (run k).history).statuses = true) ∨
    ∃ k, ¬FinishedWaits R (run k) (acts k) := by
  by_cases waits : ∀ k, FinishedWaits R (run k) (acts k)
  · exact .inl (completes_of_progressing first (coordinated_of_proceeding fair waits))
  · exact .inr (not_forall.mp waits)

/-- **An update that nothing disturbs completes.** From a clean start on, while nothing fails, no
updater puts a request and nothing is cleared, all members report that they have completed the
update, and stay so, if only the steps of members that have not completed are not put off for ever.
The one exception is a worker that has completed and looks at the request again before all members
have. -/
theorem update_completes (cfg : Config V) (positive : 1 ≤ cfg.final) (R : UpdateRequest) (m : Nat)
    (run : Nat → System) (acts : Nat → SystemAction) (start : CleanStart R m (run 0))
    (expects : ∀ i ∈ R.servers, Expects R m ((run 0).workers i).phase)
    (fair : FairRun (System.step cfg) (Proceeding R) (Helps R) run acts) :
    (∃ n, ∀ k, n ≤ k →
      updateCompleted R.version R.servers (store (run k).history).statuses = true) ∨
    ∃ k, ¬FinishedWaits R (run k) (acts k) :=
  completes_or_examines ⟨start.steady positive, fun i member _ => expects i member⟩ fair

/-! ### A run -/

/-- The servers `lrns` join the update, run all steps together and complete it. -/
def updateTogether (version : String) (lrns : List Int) : List SystemAction :=
  lrns.flatMap (joinUpdate version) ++
    (List.replicate operatorFinalStep (runTogether lrns)).flatten

/-- A run that completes an update with its last step; then only time passes. -/
theorem fairRun_of_completion {cfg : Config V} {R : UpdateRequest}
    {ok : System → SystemAction → Prop} (weaker : ∀ s a, Coordinated R s a → ok s a) {s₀ : System}
    {labels : List SystemAction} (lrn : Int)
    (executed : (execOk (System.step cfg) (Coordinated R) s₀ labels).isSome = true)
    (last : labels.getLast? = some (.worker lrn (.putStatus .ok))) (member : lrn ∈ R.servers)
    (before : ¬ShowsCompletion R (after (System.step cfg) (Coordinated R) s₀ labels.dropLast) lrn)
    (finished : ∀ i ∈ R.servers,
      ShowsCompletion R (after (System.step cfg) (Coordinated R) s₀ labels) i) :
    FairRun (System.step cfg) ok (Helps R)
      (fun n => after (System.step cfg) (Coordinated R) s₀ (labels.take n))
      fun n => labels.getD n (.tick 0) := by
  obtain ⟨t, executed⟩ := Option.isSome_iff_exists.mp executed
  rw [after, executed, Option.getD_some] at finished
  refine fairRun_of_execOk weaker executed ⟨⟨⟨trivial, trivial⟩, trivial⟩, by simp [System.step]⟩ ?_ ?_
  · intro u passed a here
    rw [after, passed, Option.getD_some] at before
    cases last.symm.trans here
    exact ⟨member, before, by simp⟩
  · intro a u helps
    cases a with
    | worker i a => exact absurd (finished i helps.1) helps.2.1
    | _ => exact helps.elim

theorem update_completes_both :
    let R := firstRequest [0, 1] "2020.01.01-1"
    let run := fun n => after (System.step operatorConfig) (Coordinated R)
      (.boot (setUp [0, 1] "2020.01.01-1")) ((updateTogether "2020.01.01-1" [0, 1]).take n)
    ∃ n, ∀ k, n ≤ k →
      updateCompleted "2020.01.01-1" [0, 1] (store (run k).history).statuses = true := by
  intro R run
  have fair {ok : System → SystemAction → Prop} (weaker : ∀ s a, Coordinated R s a → ok s a) :
      FairRun (System.step operatorConfig) ok (Helps R) run
        fun n => (updateTogether "2020.01.01-1" [0, 1]).getD n (.tick 0) :=
    fairRun_of_completion weaker 1 (by decide +kernel) (by decide +kernel) (by decide)
      (by decide +kernel) (by decide +kernel)
  rcases update_completes operatorConfig (by decide) R 4 run _
      (setUp_cleanStart [0, 1] "2020.01.01-1") (fun i _ => trivial)
      (fair fun _ _ => Coordinated.proceeding) with completed | ⟨k, early⟩
  · exact completed
  · exact absurd ((fair fun _ _ coordinated => coordinated).admitted k).1.2 early

end Neco
