import Neco.Worker.Worker

/-!
# Everything a worker can do in one step

`Move` lists the transitions of `workerStep` with their guards, and the outcomes of
examining a request and of handling an event are split once here. The invariants
about workers are proved by cases on these lists.
-/

namespace Neco

inductive Move (final : Nat) (h : List Change) (lrn : Int) :
    Worker → WorkerAction → Worker → List Change → List StepEvent → Prop
  | start (old version : String) :
      Move final h lrn ⟨old, .down⟩ (.start version) ⟨version, .starting⟩ [] []
  | exit (v : String) (p : Phase) : p ≠ .down → Move final h lrn ⟨v, p⟩ .exit ⟨v, .down⟩ [] []
  | noRequest (v : String) : (store h).current = none →
      Move final h lrn ⟨v, .starting⟩ .getRequest ⟨v, .waiting h.length⟩ [] []
  | gotRequest (v : String) (req : UpdateRequest) (modRev : Nat) :
      (store h).current = some (req, modRev) →
      Move final h lrn ⟨v, .starting⟩ .getRequest ⟨v, .examining ⟨req, modRev, h.length⟩⟩ [] []
  | skipped (v : String) (pos : Nat) (c : Change) : h[pos]? = some c → c.request? = none →
      Move final h lrn ⟨v, .waiting pos⟩ .receiveRequest ⟨v, .waiting (pos + 1)⟩ [] []
  | received (v : String) (pos : Nat) (c : Change) (req : UpdateRequest) :
      h[pos]? = some c → c.request? = some req →
      Move final h lrn ⟨v, .waiting pos⟩ .receiveRequest ⟨v, .examining ⟨req, pos + 1, pos + 1⟩⟩ [] []
  | examine (v : String) (job : Job) :
      Move final h lrn ⟨v, .examining job⟩ .examine
        ⟨v, examineRequest lrn v job (store h).statuses⟩ [] []
  | put (v : String) (p : Phase) (job : Job) (st : UpdateStatus) (result : PutResult) :
      p.pending = some (job, st) → (∀ msg, result ≠ .failed false msg) →
      Move final h lrn ⟨v, p⟩ (.putStatus result) ⟨v, p.afterPut result⟩
        [.putStatus lrn st job.modRev] []
  | lost (v : String) (p : Phase) (job : Job) (st : UpdateStatus) (msg : String) :
      p.pending = some (job, st) →
      Move final h lrn ⟨v, p⟩ (.putStatus (.failed false msg))
        ⟨v, p.afterPut (.failed false msg)⟩ [] []
  | event (v : String) (job : Job) (hd : Handler) (c : Change) : h[hd.pos]? = some c →
      Move final h lrn ⟨v, .watching job hd⟩ .receiveEvent ⟨v, watchChange job hd c⟩ []
        (beganEvents lrn (watchChange job hd c))
  | watchError (v : String) (job : Job) (hd : Handler) (msg : String) :
      Move final h lrn ⟨v, .watching job hd⟩ (.watchError msg) ⟨v, .aborting job hd msg⟩ [] []
  | finished (v : String) (job : Job) (hd : Handler) :
      Move final h lrn ⟨v, .running job hd⟩ (.runStepDone (.ok ()))
        ⟨v, afterRunStep final job hd⟩ [] [.finished lrn job.modRev hd.step]
  | failed (v : String) (job : Job) (hd : Handler) (msg : String) :
      Move final h lrn ⟨v, .running job hd⟩ (.runStepDone (.error msg))
        ⟨v, .failing job hd msg⟩ [] []

theorem workerStep_move (final : Nat) (h : List Change) (lrn : Int) (w w' : Worker)
    (a : WorkerAction) (cs : List Change) (events : List StepEvent)
    (stepped : workerStep final h lrn w a = some (w', cs, events)) :
    Move final h lrn w a w' cs events := by
  obtain ⟨v, p⟩ := w
  -- each action is possible in few phases only; the others leave no step
  cases a with
  | start version =>
    cases p <;> simp only [workerStep, Option.some.injEq, Prod.mk.injEq, reduceCtorEq] at stepped
    obtain ⟨rfl, rfl, rfl⟩ := stepped
    exact .start v version
  | exit =>
    cases p <;> simp only [workerStep, Option.some.injEq, Prod.mk.injEq, reduceCtorEq] at stepped
    all_goals
      obtain ⟨rfl, rfl, rfl⟩ := stepped
      exact .exit v _ (by simp)
  | getRequest =>
    cases p <;> simp only [workerStep, reduceCtorEq] at stepped
    split at stepped
    next absent =>
      cases stepped
      exact .noRequest v absent
    next req modRev present =>
      cases stepped
      exact .gotRequest v req modRev present
  | receiveRequest =>
    cases p <;> simp only [workerStep, reduceCtorEq] at stepped
    split at stepped
    · cases stepped
    next c here =>
      split at stepped
      next req put =>
        cases stepped
        exact .received v _ c req here put
      next no =>
        cases stepped
        exact .skipped v _ c here no
  | examine =>
    cases p <;> simp only [workerStep, Option.some.injEq, Prod.mk.injEq, reduceCtorEq] at stepped
    obtain ⟨rfl, rfl, rfl⟩ := stepped
    exact .examine v _
  | putStatus result =>
    simp only [workerStep] at stepped
    split at stepped
    · cases stepped
    next job st pending =>
      cases result with
      | ok =>
        cases stepped
        exact .put v p job st .ok pending (by simp)
      | failed applied msg =>
        -- an error of the client does not tell whether the put was applied
        cases applied with
        | false =>
          cases stepped
          exact .lost v p job st msg pending
        | true =>
          cases stepped
          exact .put v p job st (.failed true msg) pending (by simp)
  | receiveEvent =>
    cases p <;> simp only [workerStep, reduceCtorEq] at stepped
    split at stepped
    · cases stepped
    next c here =>
      cases stepped
      exact .event v _ _ c here
  | watchError msg =>
    cases p <;> simp only [workerStep, Option.some.injEq, Prod.mk.injEq, reduceCtorEq] at stepped
    obtain ⟨rfl, rfl, rfl⟩ := stepped
    exact .watchError v _ _ msg
  | runStepDone result =>
    cases p <;> simp only [workerStep, reduceCtorEq] at stepped
    split at stepped
    · cases stepped
      exact .finished v _ _
    next msg =>
      cases stepped
      exact .failed v _ _ msg

/-- A worker commits at most one transaction in a step. -/
theorem Move.committed {final : Nat} {h : List Change} {lrn : Int} {w w' : Worker}
    {a : WorkerAction} {cs : List Change} {events : List StepEvent}
    (move : Move final h lrn w a w' cs events) :
    cs = [] ∨ ∃ job st, w.phase.pending = some (job, st) ∧ cs = [.putStatus lrn st job.modRev] := by
  cases move with
  | put v p job st result pending _ => exact Or.inr ⟨job, st, pending, rfl⟩
  | start => exact Or.inl rfl
  | exit => exact Or.inl rfl
  | noRequest => exact Or.inl rfl
  | gotRequest => exact Or.inl rfl
  | skipped => exact Or.inl rfl
  | received => exact Or.inl rfl
  | examine => exact Or.inl rfl
  | lost => exact Or.inl rfl
  | event => exact Or.inl rfl
  | watchError => exact Or.inl rfl
  | finished => exact Or.inl rfl
  | failed => exact Or.inl rfl

/-- Only an applied `PutStatus` commits anything. -/
theorem Move.reported {final : Nat} {h : List Change} {lrn : Int} {w w' : Worker}
    {a : WorkerAction} {c : Change} {cs : List Change} {events : List StepEvent}
    (move : Move final h lrn w a w' (c :: cs) events) :
    ∃ result, a = .putStatus result ∧ result.applied = true ∧ events = [] := by
  cases move with
  | put v p job st result pending kept =>
    refine ⟨result, rfl, ?_, rfl⟩
    cases result with
    | ok => rfl
    | failed applied msg =>
      cases applied with
      | true => rfl
      | false => exact absurd rfl (kept msg)

theorem Move.afterPut {final : Nat} {h : List Change} {lrn : Int} {w w' : Worker}
    {result : PutResult} {cs : List Change} {events : List StepEvent}
    (move : Move final h lrn w (.putStatus result) w' cs events) :
    w'.phase = w.phase.afterPut result := by
  cases move <;> rfl

def StepEvent.lrn : StepEvent → Int
  | .began lrn _ _ => lrn
  | .finished lrn _ _ => lrn

/-- A worker calls `RunStep` for itself, and at most once in a step. -/
theorem Move.events_own {final : Nat} {h : List Change} {lrn : Int} {w w' : Worker}
    {a : WorkerAction} {cs : List Change} {events : List StepEvent}
    (move : Move final h lrn w a w' cs events) :
    events = [] ∨ ∃ e, events = [e] ∧ e.lrn = lrn := by
  cases move with
  | event v job hd c here =>
    cases watchChange job hd c with
    | running job hd => exact Or.inr ⟨_, rfl, rfl⟩
    | _ => exact Or.inl rfl
  | finished v job hd => exact Or.inr ⟨_, rfl, rfl⟩
  | _ => exact Or.inl rfl

/-- What `Run` does with a request it has obtained. -/
inductive Examined (lrn : Int) (v : String) (job : Job) (statuses : Statuses) : Phase → Prop
  | skip : Examined lrn v job statuses (.waiting job.rev)
  | updateNeco : job.req.stop = false → lrn ∈ job.req.servers → v ≠ job.req.version →
      Examined lrn v job statuses .down
  | abort (myst : UpdateStatus) : job.req.stop = false → lrn ∈ job.req.servers →
      v = job.req.version → updateAborted job.req.version lrn statuses = true →
      statuses.lookup lrn = some myst →
      Examined lrn v job statuses (.recordAbort job { myst with cond := .abort })
  | enter : job.req.stop = false → lrn ∈ job.req.servers → v = job.req.version →
      updateAborted job.req.version lrn statuses = false →
      updateCompleted job.req.version job.req.servers statuses = false →
      Examined lrn v job statuses (.entering job)

theorem examineRequest_examined (lrn : Int) (v : String) (job : Job) (statuses : Statuses) :
    Examined lrn v job statuses (examineRequest lrn v job statuses) := by
  unfold examineRequest
  split
  · exact .skip
  next running =>
    split
    · exact .skip
    next member =>
      have inside : lrn ∈ job.req.servers := by simpa using member
      split
      next differs => exact .updateNeco (by simpa using running) inside (by simpa using differs)
      next same =>
        have version : v = job.req.version := by simpa using same
        split
        next aborted =>
          split
          next myst found => exact .abort myst (by simpa using running) inside version aborted found
          · exact .skip
        next going =>
          split
          · exact .skip
          next unfinished =>
            exact .enter (by simpa using running) inside version (by simpa using going)
              (by simpa using unfinished)

/-- What the watcher does with the next change. -/
inductive Watched (job : Job) (hd : Handler) (c : Change) : Phase → Prop
  | stopped (req : UpdateRequest) : c.request? = some req → req.stop = true →
      Watched job hd c (.waiting job.rev)
  | aborting (msg : String) :
      (∃ req, c.request? = some req ∧ req.stop = false) ∨
        (∃ lrn st o, c = .putStatus lrn st o ∧ lrn ∈ job.req.servers ∧
          (st.version ≠ job.req.version ∨ st.cond = .abort ∨ st.step ≠ hd.step ∨
            st.cond = .complete)) →
      Watched job hd c (.aborting job { hd with pos := hd.pos + 1 } msg)
  | ignored : c.request? = none →
      (∀ lrn st o, c = .putStatus lrn st o → lrn ∉ job.req.servers) →
      Watched job hd c (.watching job { hd with pos := hd.pos + 1 })
  | arrived (lrn : Int) (st : UpdateStatus) (o : Nat) : c = .putStatus lrn st o →
      lrn ∈ job.req.servers → st.version = job.req.version → st.cond ≠ .abort →
      st.cond ≠ .complete → st.step = hd.step → Finset.erase hd.barrier lrn ≠ ∅ →
      Watched job hd c
        (.watching job { hd with barrier := Finset.erase hd.barrier lrn, pos := hd.pos + 1 })
  | run (lrn : Int) (st : UpdateStatus) (o : Nat) : c = .putStatus lrn st o →
      lrn ∈ job.req.servers → st.version = job.req.version → st.cond ≠ .abort →
      st.cond ≠ .complete → st.step = hd.step → Finset.erase hd.barrier lrn = ∅ →
      Watched job hd c (.running job { hd with barrier := ∅, pos := hd.pos + 1 })

theorem watchChange_watched (job : Job) (hd : Handler) (c : Change) :
    Watched job hd c (watchChange job hd c) := by
  -- both transactions that put a request are handled alike
  have onRequest (req : UpdateRequest) (put : c.request? = some req)
      (same : watchChange job hd c = watchChange job hd (.putRequest req)) :
      Watched job hd c (watchChange job hd c) := by
    rw [same]
    cases stop : req.stop with
    | true =>
      simp only [watchChange, handleCurrent, stop, if_true]
      exact .stopped req put stop
    | false =>
      simp only [watchChange, handleCurrent, stop]
      exact .aborting _ (Or.inl ⟨req, put, stop⟩)
  cases c with
  | putRequest req => exact onRequest req rfl rfl
  | putReconfigureRequest req => exact onRequest req rfl rfl
  | putStatus lrn st o =>
    -- the checks of `handleWorkerStatus`, in its order
    simp only [watchChange]
    unfold handleWorkerStatus
    by_cases member : lrn ∈ job.req.servers
    · simp only [(UpdateRequest.isMember_iff _ _).mpr member, Bool.not_true, Bool.false_eq_true,
        if_false]
      by_cases version : st.version = job.req.version
      · by_cases abort : st.cond = .abort
        · simp only [version, abort, bne_self_eq_false, Bool.false_eq_true, if_false, beq_self_eq_true,
            if_true]
          exact .aborting _ (Or.inr ⟨lrn, st, o, rfl, member, Or.inr (Or.inl abort)⟩)
        · by_cases step : st.step = hd.step
          · by_cases complete : st.cond = .complete
            · simp [version, step, complete]
              exact .aborting _
                (Or.inr ⟨lrn, st, o, rfl, member, Or.inr (Or.inr (Or.inr complete))⟩)
            · simp only [version, abort, step, complete, bne_self_eq_false, Bool.false_eq_true,
                if_false, beq_iff_eq, Barrier.check]
              by_cases last : Finset.erase hd.barrier lrn = ∅
              · simp only [last, decide_true]
                exact .run lrn st o rfl member version abort complete step last
              · simp only [last, decide_false]
                exact .arrived lrn st o rfl member version abort complete step last
          · have differs : (st.step != hd.step) = true := by simpa using step
            simp only [version, abort, differs, bne_self_eq_false, Bool.false_eq_true, if_false,
              beq_iff_eq, if_true]
            exact .aborting _ (Or.inr ⟨lrn, st, o, rfl, member, Or.inr (Or.inr (Or.inl step))⟩)
      · have differs : (st.version != job.req.version) = true := by simpa using version
        simp only [differs, if_true]
        exact .aborting _ (Or.inr ⟨lrn, st, o, rfl, member, Or.inl version⟩)
    · have outside : job.req.isMember lrn = false := by
        rw [← Bool.not_eq_true, UpdateRequest.isMember_iff]
        exact member
      simp only [outside, Bool.not_false, if_true]
      exact .ignored rfl (by rintro _ _ _ ⟨⟩; exact member)
  | clearStatusAndContents => exact .ignored rfl (by simp)
  | updateNecoRelease v => exact .ignored rfl (by simp)
  | registerBootserver lrn => exact .ignored rfl (by simp)
  | deleteBootServer lrn => exact .ignored rfl (by simp)
  | other => exact .ignored rfl (by simp)

end Neco
