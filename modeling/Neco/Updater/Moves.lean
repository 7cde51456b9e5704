import Neco.Updater.Decision

/-!
# Everything an updater can do in one step
-/

namespace Neco

variable {V : Type} [DecidableEq V]

inductive UpdaterMove (cfg : Config V) (h : List Change) (keys : List Nat) (now : Int) :
    Updater → UpdaterAction → Updater → List Change → Prop
  | elected (key : Nat) : keys.head? = some key →
      UpdaterMove cfg h keys now (.campaigning key) .elected (.leading key) []
  | snapshot (key : Nat) :
      UpdaterMove cfg h keys now (.leading key) .snapshot (.deciding key (newSnapshot h)) []
  | decide (key : Nat) (ss : Snapshot) :
      UpdaterMove cfg h keys now (.deciding key ss) .decide
        (perform key ss now (nextAction cfg.newVersion cfg.timeout now ss)) []
  | put (key : Nat) (ss : Snapshot) (c : Change) (acknowledged : Bool) : key ∈ keys →
      UpdaterMove cfg h keys now (.putting key ss c) (.put acknowledged)
        (if acknowledged then .leading key else .idle) [c]
  | refused (key : Nat) (ss : Snapshot) (c : Change) (acknowledged : Bool) : key ∉ keys →
      UpdaterMove cfg h keys now (.putting key ss c) (.put acknowledged) .idle []
  | wakeInfo (key : Nat) (ss : Snapshot) : (h.drop ss.revision).any Change.isInfo = true →
      UpdaterMove cfg h keys now (.waitInfo key ss) .wake (.leading key) []
  | wakeClear (key : Nat) (ss : Snapshot) :
      (h.drop ss.revision).any (· == .clearStatusAndContents) = true →
      UpdaterMove cfg h keys now (.waitClear key ss) .wake (.leading key) []
  | status (key : Nat) (ss : Snapshot) (req : UpdateRequest) (statuses : Statuses) (pos : Nat)
      (lrn : Int) (st : UpdateStatus) (o : Nat) : h[pos]? = some (.putStatus lrn st o) →
      UpdaterMove cfg h keys now (.waitWorkers key ss req statuses pos) .receiveStatus
        (if (handleStatus req statuses lrn st).2 then .leading key
          else .waitWorkers key ss req (handleStatus req statuses lrn st).1 (pos + 1)) []
  | skipped (key : Nat) (ss : Snapshot) (req : UpdateRequest) (statuses : Statuses) (pos : Nat)
      (c : Change) : h[pos]? = some c → (∀ lrn st o, c ≠ .putStatus lrn st o) →
      UpdaterMove cfg h keys now (.waitWorkers key ss req statuses pos) .receiveStatus
        (.waitWorkers key ss req statuses (pos + 1)) []
  | deadline (key : Nat) (ss : Snapshot) (req : UpdateRequest) (statuses : Statuses) (pos : Nat) :
      req.startedAt + cfg.timeout ≤ now →
      UpdaterMove cfg h keys now (.waitWorkers key ss req statuses pos) .deadline (.leading key) []
  | fail (u : Updater) : UpdaterMove cfg h keys now u .fail .idle []

theorem updaterStep_move (cfg : Config V) (h : List Change) (keys : List Nat) (now : Int)
    (u u' : Updater) (a : UpdaterAction) (cs : List Change)
    (stepped : updaterStep cfg h keys now u a = some (u', cs)) :
    UpdaterMove cfg h keys now u a u' cs := by
  cases a with
  | elected =>
    cases u <;> simp only [updaterStep, reduceCtorEq] at stepped
    split at stepped
    next first =>
      cases stepped
      exact .elected _ first
    · cases stepped
  | snapshot =>
    cases u <;> simp only [updaterStep, reduceCtorEq] at stepped
    cases stepped
    exact .snapshot _
  | decide =>
    cases u <;> simp only [updaterStep, reduceCtorEq] at stepped
    cases stepped
    exact .decide _ _
  | put acknowledged =>
    -- the transaction is made only while the leader key is there
    cases u <;> simp only [updaterStep, reduceCtorEq] at stepped
    split at stepped
    next live =>
      cases stepped
      exact .put _ _ _ _ live
    next lost =>
      cases stepped
      exact .refused _ _ _ _ lost
  | wake =>
    -- two phases watch for a key, each for its own
    cases u <;> simp only [updaterStep, reduceCtorEq] at stepped
    · split at stepped
      next seen =>
        cases stepped
        exact .wakeInfo _ _ seen
      · cases stepped
    · split at stepped
      next seen =>
        cases stepped
        exact .wakeClear _ _ seen
      · cases stepped
  | receiveStatus =>
    cases u <;> simp only [updaterStep, reduceCtorEq] at stepped
    split at stepped
    · cases stepped
    next lrn st o here =>
      cases stepped
      exact .status _ _ _ _ _ lrn st o here
    next c no here =>
      cases stepped
      exact .skipped _ _ _ _ _ c here (fun lrn st o same => no lrn st o same)
  | deadline =>
    cases u <;> simp only [updaterStep, reduceCtorEq] at stepped
    split at stepped
    next past =>
      cases stepped
      exact .deadline _ _ _ _ _ past
    · cases stepped
  | fail =>
    -- in any phase
    cases stepped
    exact .fail u

/-- The leader key of an updater that has won its election. -/
def Updater.term : Updater → Option Nat
  | .idle => none
  | .campaigning _ => none
  | .leading key => some key
  | .deciding key _ => some key
  | .putting key _ _ => some key
  | .waitInfo key _ => some key
  | .waitWorkers key _ _ _ _ => some key
  | .waitClear key _ => some key

/-- The key an updater has put under `leader/updater/`. -/
def Updater.key : Updater → Option Nat
  | .campaigning key => some key
  | u => u.term

/-- The snapshot an updater works with. -/
def Updater.snapshot : Updater → Option Snapshot
  | .deciding _ ss => some ss
  | .putting _ ss _ => some ss
  | .waitInfo _ ss => some ss
  | .waitWorkers _ ss _ _ _ => some ss
  | .waitClear _ ss => some ss
  | _ => none

theorem perform_term (key : Nat) (ss : Snapshot) (now : Int) (action : Action) :
    (perform key ss now action).term = none ∨
      (perform key ss now action).term = some key ∧
        (perform key ss now action).snapshot = some ss := by
  cases action <;> simp only [perform]
  case error => exact Or.inl rfl
  case waitInfo => exact Or.inr ⟨rfl, rfl⟩
  case newVersion => exact Or.inr ⟨rfl, rfl⟩
  case waitClear => exact Or.inr ⟨rfl, rfl⟩
  all_goals
    split
    · exact Or.inr ⟨rfl, rfl⟩
    · exact Or.inl rfl

theorem perform_key (key : Nat) (ss : Snapshot) (now : Int) (action : Action) (k : Nat)
    (holds : (perform key ss now action).key = some k) :
    (perform key ss now action).term = some k := by
  cases action <;> simp only [perform] at holds ⊢
  case waitInfo => exact holds
  case newVersion => exact holds
  case waitClear => exact holds
  case error => simp [Updater.key, Updater.term] at holds
  all_goals
    split at holds
    · exact holds
    · simp [Updater.key, Updater.term] at holds

/-- A step either keeps an updater's key, gives it up, or wins the election with it. -/
theorem UpdaterMove.term_cases {cfg : Config V} {h : List Change} {keys : List Nat} {now : Int}
    {u u' : Updater} {a : UpdaterAction} {cs : List Change}
    (move : UpdaterMove cfg h keys now u a u' cs) (k : Nat) (leads : u'.term = some k) :
    u.term = some k ∨ (u = .campaigning k ∧ keys.head? = some k) := by
  cases move with
  | elected key first =>
    cases leads
    exact Or.inr ⟨rfl, first⟩
  | snapshot => exact Or.inl leads
  | decide key ss =>
    rcases perform_term key ss now (nextAction cfg.newVersion cfg.timeout now ss) with none | ⟨same, _⟩
    · rw [none] at leads
      cases leads
    · rw [same] at leads
      exact Or.inl leads
  | put key ss c acknowledged _ =>
    cases acknowledged with
    | true => exact Or.inl leads
    | false => cases leads
  | refused => cases leads
  | wakeInfo => exact Or.inl leads
  | wakeClear => exact Or.inl leads
  | status key ss req statuses pos lrn st o _ =>
    left
    split at leads <;> exact leads
  | skipped => exact Or.inl leads
  | deadline => exact Or.inl leads
  | fail => cases leads

theorem UpdaterMove.key_kept {cfg : Config V} {h : List Change} {keys : List Nat} {now : Int}
    {u u' : Updater} {a : UpdaterAction} {cs : List Change}
    (move : UpdaterMove cfg h keys now u a u' cs) (k : Nat) (holds : u'.key = some k) :
    u.key = some k := by
  have ofTerm (leads : u'.term = some k) : u.key = some k := by
    rcases move.term_cases k leads with before | ⟨campaigning, _⟩
    · cases u <;> first | exact before | cases before
    · rw [campaigning]
      rfl
  apply ofTerm
  cases move with
  | elected => exact holds
  | snapshot => exact holds
  | decide key ss => exact perform_key key ss now _ k holds
  | put key ss c acknowledged _ => cases acknowledged <;> exact holds
  | refused => exact holds
  | wakeInfo => exact holds
  | wakeClear => exact holds
  | status key ss req statuses pos lrn st o _ =>
    split at holds
    next ends => rw [if_pos ends]; exact holds
    next goes => rw [if_neg goes]; exact holds
  | skipped => exact holds
  | deadline => exact holds
  | fail => exact holds

/-- A step that commits is the guarded put of an updater whose key still exists. -/
theorem UpdaterMove.committed {cfg : Config V} {h : List Change} {keys : List Nat} {now : Int}
    {u u' : Updater} {a : UpdaterAction} {cs : List Change}
    (move : UpdaterMove cfg h keys now u a u' cs) :
    cs = [] ∨ ∃ key ss c, u = .putting key ss c ∧ key ∈ keys ∧ cs = [c] ∧ u'.snapshot = none := by
  cases move with
  | put key ss c acknowledged live =>
    refine Or.inr ⟨key, ss, c, rfl, live, rfl, ?_⟩
    cases acknowledged <;> rfl
  | elected => exact Or.inl rfl
  | snapshot => exact Or.inl rfl
  | decide => exact Or.inl rfl
  | refused => exact Or.inl rfl
  | wakeInfo => exact Or.inl rfl
  | wakeClear => exact Or.inl rfl
  | status => exact Or.inl rfl
  | skipped => exact Or.inl rfl
  | deadline => exact Or.inl rfl
  | fail => exact Or.inl rfl

theorem UpdaterMove.put_of_commit {cfg : Config V} {h : List Change} {keys : List Nat} {now : Int}
    {u u' : Updater} {a : UpdaterAction} {c : Change} {cs : List Change}
    (move : UpdaterMove cfg h keys now u a u' (c :: cs)) :
    ∃ acknowledged, a = .put acknowledged := by
  cases move with
  | put key ss c acknowledged live => exact ⟨acknowledged, rfl⟩

/-- The snapshot of an updater after a step is the one it had, or the present one. -/
theorem UpdaterMove.snapshot_cases {cfg : Config V} {h : List Change} {keys : List Nat} {now : Int}
    {u u' : Updater} {a : UpdaterAction} {cs : List Change}
    (move : UpdaterMove cfg h keys now u a u' cs) (ss : Snapshot) (has : u'.snapshot = some ss) :
    cs = [] ∧ (u.snapshot = some ss ∨ ss = newSnapshot h) := by
  cases move with
  | snapshot =>
    cases has
    exact ⟨rfl, Or.inr rfl⟩
  | decide key ss' =>
    rcases perform_term key ss' now (nextAction cfg.newVersion cfg.timeout now ss') with none | ⟨_, same⟩
    · refine ⟨rfl, ?_⟩
      generalize perform key ss' now (nextAction cfg.newVersion cfg.timeout now ss') = next at none has
      cases next <;> cases none <;> cases has
    · rw [same] at has
      exact ⟨rfl, Or.inl has⟩
  | put key ss' c acknowledged _ => cases acknowledged <;> cases has
  | status key ss' req statuses pos lrn st o _ =>
    refine ⟨rfl, Or.inl ?_⟩
    split at has
    · cases has
    · exact has
  | skipped => exact ⟨rfl, Or.inl has⟩
  | elected => cases has
  | refused => cases has
  | wakeInfo => cases has
  | wakeClear => cases has
  | deadline => cases has
  | fail => cases has

end Neco
