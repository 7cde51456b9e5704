import Neco.Lib.Run
import Neco.Worker.Moves

/-!
# A worker examines every request once and in order

One worker over a history that anybody may extend by any transaction at any time. The
requests that the iterations of `Run` examine are the one that was there when the process
read `status/current`, and then every later put in the order of the revisions.
-/

namespace Neco

/-- A worker with the history it reads. `start` is the revision at which `Run` has read the
request, `examined` what its iterations have examined since; both are for the statements only. -/
structure Observed where
  history : List Change
  worker : Worker
  start : Nat
  examined : List UpdateRequest

inductive ObservedAction where
  /-- somebody commits a transaction -/
  | commit (c : Change)
  | worker (a : WorkerAction)
  deriving DecidableEq

namespace Observed

def startAfter (s : Observed) : WorkerAction → Nat
  | .getRequest => s.history.length
  | _ => s.start

def examinedAfter (s : Observed) : WorkerAction → List UpdateRequest
  | .start _ => []
  | .examine =>
    match s.worker.phase with
    | .examining job => s.examined ++ [job.req]
    | _ => s.examined
  | _ => s.examined

def step (final : Nat) (lrn : Int) (s : Observed) : ObservedAction → Option Observed
  | .commit c => some { s with history := s.history ++ [c] }
  | .worker a =>
    (workerStep final s.history lrn s.worker a).map fun (w, cs, _) =>
      ⟨s.history ++ cs, w, s.startAfter a, s.examinedAfter a⟩

end Observed

/-- The requests that transactions put under `status/current`. -/
def requests (h : List Change) : List UpdateRequest := h.filterMap Change.request?

/-- The revision up to which `Run` has looked for requests; `none` while no `Run` has read one. -/
def Phase.position : Phase → Option Nat
  | .down => none
  | .starting => none
  | .waiting pos => some pos
  | .examining job => some job.rev
  | .recordAbort job _ => some job.rev
  | .entering job => some job.rev
  | .watching job _ => some job.rev
  | .running job _ => some job.rev
  | .advancing job _ => some job.rev
  | .completing job _ => some job.rev
  | .failing job _ _ => some job.rev
  | .aborting job _ _ => some job.rev
  | .restarting job => some job.rev

/-- The request that the next iteration examines. -/
def Phase.inHand : Phase → List UpdateRequest
  | .examining job => [job.req]
  | _ => []

/-! ### What leaves the position alone -/

theorem Examined.position {lrn : Int} {v : String} {job : Job} {statuses : Statuses} {p : Phase}
    (examined : Examined lrn v job statuses p) :
    p.inHand = [] ∧ ∀ pos, p.position = some pos → pos = job.rev := by
  cases examined <;> simp [Phase.inHand, Phase.position]

theorem Watched.position {job : Job} {hd : Handler} {c : Change} {p : Phase}
    (watched : Watched job hd c p) : p.inHand = [] ∧ p.position = some job.rev := by
  cases watched <;> simp [Phase.inHand, Phase.position]

theorem afterPut_position {p : Phase} {job : Job} {st : UpdateStatus}
    (pending : p.pending = some (job, st)) (result : PutResult) :
    p.inHand = [] ∧ (p.afterPut result).inHand = [] ∧
      ∀ pos, (p.afterPut result).position = some pos → p.position = some pos := by
  cases p <;> cases result <;>
    simp_all [Phase.pending, Phase.afterPut, Phase.position, Phase.inHand]

theorem afterRunStep_position (final : Nat) (job : Job) (hd : Handler) :
    (afterRunStep final job hd).inHand = [] ∧
      (afterRunStep final job hd).position = some job.rev := by
  unfold afterRunStep
  split <;> exact ⟨rfl, rfl⟩

/-! ### The invariant -/

/-- The request that `status/current` held at the revision `start`. -/
def initialRequest (h : List Change) (start : Nat) : List UpdateRequest :=
  ((store (h.take start)).current.map Prod.fst).toList

/-- The requests put after the revision `start` and up to the revision `pos`. -/
def requestsBetween (h : List Change) (start pos : Nat) : List UpdateRequest :=
  requests ((h.take pos).drop start)

section

variable {h : List Change} {start pos : Nat}

theorem initialRequest_append (cs : List Change) (inside : start ≤ h.length) :
    initialRequest (h ++ cs) start = initialRequest h start := by
  rw [initialRequest, List.take_append_of_le_length inside, initialRequest]

theorem requestsBetween_append (cs : List Change) (inside : pos ≤ h.length) :
    requestsBetween (h ++ cs) start pos = requestsBetween h start pos := by
  rw [requestsBetween, List.take_append_of_le_length inside, requestsBetween]

/-- One revision further there is one more request, if one was put. -/
theorem requestsBetween_succ {c : Change} (here : h[pos]? = some c) (after : start ≤ pos) :
    requestsBetween h start (pos + 1) = requestsBetween h start pos ++ c.request?.toList := by
  obtain ⟨inside, rfl⟩ := List.getElem?_eq_some_iff.mp here
  have length : (h.take pos).length = pos := by simp; omega
  rw [requestsBetween, requestsBetween, List.take_succ_eq_append_getElem inside,
    List.drop_append_of_le_length (by omega), requests, List.filterMap_append, requests]
  cases put : h[pos].request? <;> simp [put]

end

/-- What has been examined, with what is about to be, is all that was there and was put. -/
structure InOrder (s : Observed) : Prop where
  fresh : s.worker.phase = .starting → s.examined = []
  order : ∀ pos, s.worker.phase.position = some pos → s.start ≤ pos ∧ pos ≤ s.history.length ∧
    s.examined ++ s.worker.phase.inHand =
      initialRequest s.history s.start ++ requestsBetween s.history s.start pos

/-- The invariant of a process whose `Run` has looked for requests up to `pos`. -/
theorem InOrder.at_position {s : Observed} {pos : Nat}
    (here : s.worker.phase.position = some pos) (after : s.start ≤ pos)
    (inside : pos ≤ s.history.length) (order : s.examined ++ s.worker.phase.inHand =
      initialRequest s.history s.start ++ requestsBetween s.history s.start pos) : InOrder s := by
  refine ⟨fun starting => ?_, fun pos' here' => ?_⟩
  · rw [starting] at here
    cases here
  · cases here.symm.trans here'
    exact ⟨after, inside, order⟩

theorem InOrder.down {s : Observed} (down : s.worker.phase = .down) : InOrder s := by
  refine ⟨fun starting => ?_, fun pos here => ?_⟩
  · cases down.symm.trans starting
  · rw [down] at here
    cases here

theorem InOrder.commit {s : Observed} (inOrder : InOrder s) (cs : List Change) :
    InOrder { s with history := s.history ++ cs } := by
  refine ⟨inOrder.fresh, fun pos here => ?_⟩
  obtain ⟨after, inside, order⟩ := inOrder.order pos here
  refine ⟨after, by simp; omega, ?_⟩
  have begun : s.start ≤ s.history.length := by omega
  rw [initialRequest_append cs begun, requestsBetween_append cs inside]
  exact order

/-- A step of `Run` that neither obtains nor examines a request keeps the position. -/
theorem InOrder.keep {s : Observed} (inOrder : InOrder s) {v : String} {p : Phase}
    (going : p ≠ .starting) (before : s.worker.phase.inHand = []) (after : p.inHand = [])
    (kept : ∀ pos, p.position = some pos → s.worker.phase.position = some pos) :
    InOrder { s with worker := ⟨v, p⟩ } := by
  refine ⟨fun starting => absurd starting going, fun pos here => ?_⟩
  obtain ⟨later, inside, order⟩ := inOrder.order pos (kept pos here)
  rw [before] at order
  exact ⟨later, inside, after ▸ order⟩

/-- The process reads `status/current`. -/
theorem InOrder.read {s : Observed} (inOrder : InOrder s) (starting : s.worker.phase = .starting)
    {v : String} {p : Phase} (here : p.position = some s.history.length)
    (inHand : p.inHand = ((store s.history).current.map Prod.fst).toList) :
    InOrder ⟨s.history, ⟨v, p⟩, s.history.length, s.examined⟩ := by
  refine .at_position here (Nat.le_refl _) (Nat.le_refl _) ?_
  simp [inOrder.fresh starting, inHand, initialRequest, requestsBetween, requests]

/-- `WaitRequest` looks at one more change, and returns its request if it puts one. -/
theorem InOrder.look {s : Observed} (inOrder : InOrder s) {pos : Nat}
    (waiting : s.worker.phase = .waiting pos) {c : Change} (next : s.history[pos]? = some c)
    {v : String} {p : Phase} (here : p.position = some (pos + 1))
    (inHand : p.inHand = c.request?.toList) : InOrder { s with worker := ⟨v, p⟩ } := by
  obtain ⟨after, inside, order⟩ := inOrder.order pos (by rw [waiting]; rfl)
  have further := (List.getElem?_eq_some_iff.mp next).1
  refine .at_position here (Nat.le_succ_of_le after) further ?_
  rw [waiting] at order
  simp only [Phase.inHand, List.append_nil] at order
  simp only [inHand, requestsBetween_succ next after, order, List.append_assoc]

theorem InOrder.worker {final : Nat} {lrn : Int} {s : Observed} (inOrder : InOrder s)
    {a : WorkerAction} {w : Worker} {cs : List Change} {events : List StepEvent}
    (move : Move final s.history lrn s.worker a w cs events) :
    InOrder ⟨s.history ++ cs, w, s.startAfter a, s.examinedAfter a⟩ := by
  obtain ⟨history, worker, start, examined⟩ := s
  cases move with
  | start old version =>
    refine ⟨fun _ => rfl, fun pos here => ?_⟩
    cases here
  | exit v p up => exact .down rfl
  | noRequest v absent =>
    rw [List.append_nil]
    exact inOrder.read rfl rfl (by simp [Phase.inHand, absent])
  | gotRequest v req modRev present =>
    rw [List.append_nil]
    exact inOrder.read rfl rfl (by simp [Phase.inHand, present])
  | skipped v pos c next other =>
    rw [List.append_nil]
    exact inOrder.look rfl next rfl (by simp [Phase.inHand, other])
  | received v pos c req next put =>
    rw [List.append_nil]
    exact inOrder.look rfl next rfl (by simp [Phase.inHand, put])
  | examine v job =>
    -- the request in hand becomes the last one examined
    have outcome := examineRequest_examined lrn v job (store history).statuses
    obtain ⟨nothing, where_⟩ := outcome.position
    obtain ⟨after, inside, order⟩ := inOrder.order job.rev rfl
    rw [List.append_nil]
    refine ⟨fun starting => ?_, fun pos here => ?_⟩
    · rw [show examineRequest lrn v job (store history).statuses = .starting from starting] at outcome
      cases outcome
    · cases where_ pos here
      refine ⟨after, inside, ?_⟩
      rw [show Phase.inHand (examineRequest lrn v job (store history).statuses) = [] from nothing,
        List.append_nil]
      exact order
  | put v p job st result pending kept =>
    obtain ⟨before, after, position⟩ := afterPut_position pending result
    refine (inOrder.keep ?_ before after position).commit _
    intro starting
    cases p <;> cases result <;> simp_all [Phase.pending, Phase.afterPut]
  | lost v p job st msg pending =>
    obtain ⟨before, after, position⟩ := afterPut_position pending (.failed false msg)
    rw [List.append_nil]
    refine inOrder.keep ?_ before after position
    intro starting
    cases p <;> simp_all [Phase.pending, Phase.afterPut]
  | event v job hd c next =>
    have outcome := watchChange_watched job hd c
    obtain ⟨nothing, position⟩ := outcome.position
    rw [List.append_nil]
    refine inOrder.keep ?_ rfl nothing fun pos here => position.symm.trans here
    intro starting
    rw [starting] at outcome
    cases outcome
  | watchError v job hd msg =>
    rw [List.append_nil]
    exact inOrder.keep (by simp) rfl rfl fun pos here => here
  | finished v job hd =>
    obtain ⟨nothing, position⟩ := afterRunStep_position final job hd
    rw [List.append_nil]
    refine inOrder.keep ?_ rfl nothing fun pos here => position.symm.trans here
    intro starting
    rw [starting] at position
    cases position
  | failed v job hd msg =>
    rw [List.append_nil]
    exact inOrder.keep (by simp) rfl rfl fun pos here => here

theorem inOrder_step {final : Nat} {lrn : Int} {s t : Observed} {a : ObservedAction}
    (inOrder : InOrder s) (stepped : s.step final lrn a = some t) : InOrder t := by
  cases a with
  | commit c =>
    cases stepped
    exact inOrder.commit [c]
  | worker a =>
    simp only [Observed.step, Option.map_eq_some_iff] at stepped
    obtain ⟨⟨w, cs, events⟩, moved, rfl⟩ := stepped
    exact inOrder.worker (workerStep_move _ _ _ _ _ _ _ _ moved)

/-! ### A waiting worker finds the next request -/

/-- Only the worker's `WaitRequest` goes on. -/
def Receives : Observed → ObservedAction → Prop := fun _ a => a = .worker .receiveRequest

/-- `WaitRequest` returns the first request that was put after the revision it waits from. -/
theorem next_received (final : Nat) (lrn : Int) {req : UpdateRequest} {rest : List UpdateRequest}
    (n : Nat) : ∀ (s : Observed) (pos : Nat), s.history.length - pos = n →
      s.worker.phase = .waiting pos → requests (s.history.drop pos) = req :: rest →
      ∃ t rev, Transition.RunFrom (Observed.step final lrn) Receives s t ∧
        t.worker.phase = .examining ⟨req, rev, rev⟩ ∧ t.history = s.history ∧
        t.examined = s.examined ∧ requests (s.history.drop rev) = rest := by
  -- by the number of transactions that the watch has not delivered yet
  induction n with
  | zero =>
    intro s pos left waiting later
    rw [List.drop_eq_nil_of_le (by omega)] at later
    cases later
  | succ n ih =>
    intro s pos left waiting later
    have inside : pos < s.history.length := by omega
    have next : s.history[pos]? = some s.history[pos] := List.getElem?_eq_getElem inside
    rw [← List.getElem_cons_drop inside, requests, List.filterMap_cons] at later
    obtain ⟨history, ⟨v, p⟩, start, examined⟩ := s
    subst waiting
    cases put : history[pos].request? with
    | some first =>
      rw [put] at later
      cases later
      refine ⟨⟨history, ⟨v, .examining ⟨req, pos + 1, pos + 1⟩⟩, start, examined⟩, pos + 1,
        .tail (.worker .receiveRequest) .refl rfl ?_, rfl, rfl, rfl, rfl⟩
      simp [Observed.step, workerStep, next, put, Observed.startAfter, Observed.examinedAfter]
    | none =>
      -- a delete, or another key: the worker goes on waiting behind it
      rw [put] at later
      have skipped : Observed.step final lrn ⟨history, ⟨v, .waiting pos⟩, start, examined⟩
          (.worker .receiveRequest) =
            some ⟨history, ⟨v, .waiting (pos + 1)⟩, start, examined⟩ := by
        simp [Observed.step, workerStep, next, put, Observed.startAfter, Observed.examinedAfter]
      obtain ⟨t, rev, run, found⟩ :=
        ih ⟨history, ⟨v, .waiting (pos + 1)⟩, start, examined⟩ (pos + 1)
          (by simp only at left ⊢; omega) rfl later
      have first : Transition.RunFrom (Observed.step final lrn) Receives
          ⟨history, ⟨v, .waiting pos⟩, start, examined⟩ _ := .tail _ .refl rfl skipped
      exact ⟨t, rev, first.trans run, found⟩

/-! ### The theorem -/

/-- In every state of every run in which `Run` has read `status/current` and has not returned,
with whatever transactions in between: what its iterations have examined, with what the next one
examines, is the request that was there, followed by all requests put since, up to the revision
where it goes on waiting. A worker that waits has nothing else in hand: it has examined all of
them when it has seen the whole history, and otherwise its next request is the next one put. -/
theorem requests_examined_in_order (final : Nat) (lrn : Int) {s₀ s : Observed}
    (down : s₀.worker.phase = .down)
    (run : Transition.RunFrom (Observed.step final lrn) Transition.always s₀ s) :
    (∀ pos, s.worker.phase.position = some pos → s.start ≤ pos ∧ pos ≤ s.history.length ∧
      s.examined ++ s.worker.phase.inHand =
        initialRequest s.history s.start ++ requestsBetween s.history s.start pos) ∧
    (s.worker.phase = .waiting s.history.length →
      s.examined = initialRequest s.history s.start ++ requests (s.history.drop s.start)) ∧
    ∀ pos req rest, s.worker.phase = .waiting pos → requests (s.history.drop pos) = req :: rest →
      ∃ t rev, Transition.RunFrom (Observed.step final lrn) Receives s t ∧
        t.worker.phase = .examining ⟨req, rev, rev⟩ ∧ t.history = s.history ∧
        t.examined = s.examined ∧ requests (s.history.drop rev) = rest := by
  have inOrder : InOrder s := run.invariant InOrder (.down down)
    fun _ _ _ inOrder _ stepped => inOrder_step inOrder stepped
  refine ⟨inOrder.order, fun waiting => ?_, fun pos req rest waiting later => ?_⟩
  · have order := (inOrder.order s.history.length (by rw [waiting]; rfl)).2.2
    rw [waiting] at order
    simpa [Phase.inHand, requestsBetween] using order
  · exact next_received final lrn _ s pos rfl waiting later

/-- A worker of one server joins an update; it is stopped and recovered, and a request of another
version is put, all while the worker still watches the statuses. -/
def stoppedUpdate : List ObservedAction :=
  [.commit (.putRequest ⟨"1.0.0", [0], false, 0⟩), .worker (.start "1.0.0"), .worker .getRequest,
    .worker .examine, .worker (.putStatus .ok), .commit (.putRequest ⟨"1.0.0", [0], true, 0⟩),
    .commit .clearStatusAndContents, .commit (.putRequest ⟨"1.0.1", [3], false, 9⟩),
    .worker .receiveEvent, .worker (.runStepDone (.ok ())), .worker (.putStatus .ok),
    .worker .receiveEvent, .worker .receiveRequest, .worker .receiveRequest, .worker .examine,
    .worker .receiveRequest, .worker .receiveRequest, .worker .examine, .worker .receiveRequest]

def stoppedUpdateEnd : Observed :=
  Transition.after (Observed.step 18 0) Transition.always ⟨[], ⟨"", .down⟩, 0, []⟩ stoppedUpdate

/-- The three requests are examined one after another. -/
theorem requests_examined_stoppedUpdate : stoppedUpdateEnd.examined =
    [⟨"1.0.0", [0], false, 0⟩, ⟨"1.0.0", [0], true, 0⟩, ⟨"1.0.1", [3], false, 9⟩] := by
  have run : Transition.RunFrom (Observed.step 18 0) Transition.always
      ⟨[], ⟨"", .down⟩, 0, []⟩ stoppedUpdateEnd := Transition.runFrom_after _ _ _ stoppedUpdate
  rw [(requests_examined_in_order 18 0 rfl run).2.1 (by decide +kernel)]
  decide +kernel

end Neco
