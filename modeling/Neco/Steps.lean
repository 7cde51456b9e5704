import Neco.System
import Neco.Updater.Moves
import Neco.Worker.Moves
import Mathlib.Data.List.Induction

/-!
# Steps of the system, and what the store says about its history
-/

namespace Neco

variable {V : Type} [DecidableEq V]

/-- Whether an action is neither a worker's nor an updater's nor that of `neco recover`. -/
def SystemAction.isExternal : SystemAction → Bool
  | .worker _ _ => false
  | .updater _ _ => false
  | .recover _ _ => false
  | _ => true

/-- The transitions of `System.step` with their guards. -/
inductive Stepped (cfg : Config V) (s : System) : SystemAction → System → Prop
  | worker (lrn : Int) (a : WorkerAction) (w : Worker) (cs : List Change)
      (events : List StepEvent) : Move cfg.final s.history lrn (s.workers lrn) a w cs events →
      Stepped cfg s (.worker lrn a) { s with
        workers := Function.update s.workers lrn w
        history := s.history ++ cs
        trace := s.trace ++ events }
  | updater (u : Nat) (a : UpdaterAction) (next : Updater) (cs : List Change) :
      UpdaterMove cfg s.history s.keys s.now (s.updaters u) a next cs →
      Stepped cfg s (.updater u a) { s with
        updaters := Function.update s.updaters u next
        history := s.history ++ cs }
  | recoverRead (c : Nat) (req : UpdateRequest) (m : Nat) :
      (store s.history).current = some (req, m) → req.stop = true →
      Stepped cfg s (.recover c .read) { s with
        recovers := Function.update s.recovers c (.clearing m) }
  | recoverClear (c : Nat) (req : UpdateRequest) (m : Nat) : s.recovers c = .clearing m →
      (store s.history).current = some (req, m) →
      Stepped cfg s (.recover c .clear) { s with
        recovers := Function.update s.recovers c .reading
        history := s.history ++ [.clearStatusAndContents] }
  | recoverRetry (c : Nat) : Stepped cfg s (.recover c .clear) { s with
        recovers := Function.update s.recovers c .reading }
  | campaign (u : Nat) : s.updaters u = .idle →
      Stepped cfg s (.campaign u) { s with
        updaters := Function.update s.updaters u (.campaigning s.nextKey)
        keys := s.keys ++ [s.nextKey]
        nextKey := s.nextKey + 1 }
  | loseKey (key : Nat) : Stepped cfg s (.loseKey key) { s with keys := s.keys.erase key }
  | info (a : SystemAction) (c : Change) : c.isInfo = true →
      (∀ v, c = .updateNecoRelease v → (newNecoRelease v).isSome = true) →
      a.isExternal = true → Stepped cfg s a (s.commit [c])
  | other (a : SystemAction) : a.isExternal = true → Stepped cfg s a (s.commit [.other])
  | tick (elapsed : Nat) : Stepped cfg s (.tick elapsed) { s with now := s.now + elapsed }

theorem step_stepped (cfg : Config V) (s s' : System) (a : SystemAction)
    (stepped : s.step cfg a = some s') : Stepped cfg s a s' := by
  cases a with
  | worker lrn a =>
    simp only [System.step, Option.map_eq_some_iff] at stepped
    obtain ⟨⟨w, cs, events⟩, moved, rfl⟩ := stepped
    exact .worker lrn a w cs events (workerStep_move _ _ _ _ _ _ _ _ moved)
  | updater u a =>
    simp only [System.step, Option.map_eq_some_iff] at stepped
    obtain ⟨⟨next, cs⟩, moved, rfl⟩ := stepped
    exact .updater u a next cs (updaterStep_move _ _ _ _ _ _ _ _ moved)
  | recover c a =>
    simp only [System.step, Option.map_eq_some_iff] at stepped
    obtain ⟨⟨r, cs⟩, moved, rfl⟩ := stepped
    cases a with
    | read =>
      simp only [recoverStep] at moved
      split at moved
      next req m _ present =>
        split at moved
        next stopped =>
          cases moved
          simpa using Stepped.recoverRead c req m present stopped
        · cases moved
      · cases moved
    | clear =>
      simp only [recoverStep] at moved
      split at moved
      next m holds =>
        -- the transaction compares the mod revision with the one that was read
        split at moved
        next same =>
          cases moved
          obtain ⟨⟨req, m'⟩, present, rfl⟩ := Option.map_eq_some_iff.mp same
          exact .recoverClear c req m' holds present
        · cases moved
          have retry : Stepped cfg s (.recover c .clear) _ := .recoverRetry c
          simpa using retry
      · cases moved
  | campaign u =>
    simp only [System.step] at stepped
    split at stepped
    next idle =>
      cases stepped
      exact .campaign u idle
    · cases stepped
  | loseKey key =>
    cases stepped
    exact .loseKey key
  | registerBootserver lrn =>
    cases stepped
    exact .info _ _ rfl (by simp) rfl
  | deleteBootServer lrn =>
    -- an unregistered server has no key under info, but the revision grows all the same
    simp only [System.step] at stepped
    split at stepped
    · cases stepped
      exact .info _ _ rfl (by simp) rfl
    · cases stepped
      exact .other _ rfl
  | updateNecoRelease v =>
    simp only [System.step] at stepped
    split at stepped
    next valid =>
      cases stepped
      exact .info _ _ rfl (by rintro _ ⟨⟩; exact valid) rfl
    · cases stepped
  | other =>
    cases stepped
    exact .other _ rfl
  | tick elapsed =>
    cases stepped
    exact .tick elapsed

/-- A step extends the history by at most one transaction. -/
theorem Stepped.history_cases {cfg : Config V} {s s' : System} {a : SystemAction}
    (stepped : Stepped cfg s a s') :
    s'.history = s.history ∨ ∃ c, s'.history = s.history ++ [c] := by
  cases stepped with
  | worker lrn a w cs events move =>
    rcases move.committed with rfl | ⟨job, st, _, rfl⟩
    · exact Or.inl (List.append_nil _)
    · exact Or.inr ⟨_, rfl⟩
  | updater u a next cs move =>
    rcases move.committed with rfl | ⟨key, ss, c, _, _, rfl, _⟩
    · exact Or.inl (List.append_nil _)
    · exact Or.inr ⟨_, rfl⟩
  | recoverRead => exact Or.inl rfl
  | recoverClear => exact Or.inr ⟨_, rfl⟩
  | recoverRetry => exact Or.inl rfl
  | campaign => exact Or.inl rfl
  | loseKey => exact Or.inl rfl
  | info => exact Or.inr ⟨_, rfl⟩
  | other => exact Or.inr ⟨_, rfl⟩
  | tick => exact Or.inl rfl

/-- The request that the transaction of revision `rev` put. -/
def requestAt (h : List Change) : Nat → Option UpdateRequest
  | 0 => none
  | r + 1 => h[r]?.bind Change.request?

theorem requestAt_append {h : List Change} {rev : Nat} {req : UpdateRequest}
    (put : requestAt h rev = some req) (k : List Change) : requestAt (h ++ k) rev = some req := by
  cases rev with
  | zero => cases put
  | succ r =>
    simp only [requestAt, Option.bind_eq_some_iff] at put ⊢
    obtain ⟨c, here, put⟩ := put
    exact ⟨c, List.getElem?_append_left (List.getElem?_eq_some_iff.mp here).1 ▸ here, put⟩

theorem requestAt_concat_of_le {h : List Change} {r : Nat} (low : r ≤ h.length)
    (k : List Change) : requestAt (h ++ k) r = requestAt h r := by
  cases r with
  | zero => rfl
  | succ r => simp only [requestAt, List.getElem?_append_left (show r < h.length by omega)]

theorem requestAt_le {h : List Change} {rev : Nat} {req : UpdateRequest}
    (put : requestAt h rev = some req) : 1 ≤ rev ∧ rev ≤ h.length := by
  cases rev with
  | zero => cases put
  | succ r =>
    simp only [requestAt, Option.bind_eq_some_iff] at put
    obtain ⟨c, here, _⟩ := put
    have bound := (List.getElem?_eq_some_iff.mp here).1
    omega

theorem requestAt_last (h : List Change) (c : Change) :
    requestAt (h ++ [c]) (h.length + 1) = c.request? := by
  simp [requestAt]

/-- How one transaction changes `status/current`. -/
theorem current_apply (s : Store) (rev : Nat) (c : Change) :
    (s.apply rev c).current =
      match c.request? with
      | some req => some (req, rev)
      | none => if c = .clearStatusAndContents then none else s.current := by
  cases c with
  | registerBootserver lrn => simp only [Store.apply]; split <;> simp [Change.request?]
  | _ => simp [Store.apply, Change.request?]

/-- How one transaction changes the statuses of the workers. -/
theorem statuses_apply (s : Store) (rev : Nat) (c : Change) :
    (s.apply rev c).statuses =
      match c with
      | .putStatus lrn st _ => s.statuses.insert lrn st
      | .putReconfigureRequest _ => ∅
      | .clearStatusAndContents => ∅
      | _ => s.statuses := by
  cases c with
  | registerBootserver lrn => simp only [Store.apply]; split <;> rfl
  | _ => rfl

/-- A status in the store is the one just put, or it was there before. -/
theorem lookup_statuses_apply {s : Store} {rev : Nat} {c : Change} {j : Int} {st : UpdateStatus}
    (found : (s.apply rev c).statuses.lookup j = some st) :
    (∃ o, c = .putStatus j st o) ∨ s.statuses.lookup j = some st := by
  rw [statuses_apply] at found
  cases c with
  | putStatus i st' o =>
    by_cases same : j = i
    · subst same
      rw [AList.lookup_insert, Option.some.injEq] at found
      exact Or.inl ⟨o, by rw [found]⟩
    · exact Or.inr (AList.lookup_insert_ne same ▸ found)
  -- these two remove every status
  | putReconfigureRequest req => cases found
  | clearStatusAndContents => cases found
  | _ => exact Or.inr found

/-- Transactions that neither ask for an update nor clear nor report keep the request and
the statuses. -/
theorem store_concat_plain {h : List Change} {c : Change} (noRequest : c.request? = none)
    (noClear : c ≠ .clearStatusAndContents) (noReport : ∀ lrn st o, c ≠ .putStatus lrn st o) :
    (store (h ++ [c])).current = (store h).current ∧
      (store (h ++ [c])).statuses = (store h).statuses := by
  rw [store_concat, current_apply, statuses_apply, noRequest]
  refine ⟨if_neg noClear, ?_⟩
  cases c with
  | putReconfigureRequest req => cases noRequest
  | clearStatusAndContents => exact absurd rfl noClear
  | putStatus lrn st o => exact absurd rfl (noReport lrn st o)
  | _ => rfl

theorem current_requestAt {h : List Change} :
    ∀ {req : UpdateRequest} {m : Nat}, (store h).current = some (req, m) →
      requestAt h m = some req := by
  induction h using List.reverseRecOn with
  | nil => simp [Store.empty]
  | append_singleton h c ih =>
    intro req m present
    rw [store_concat, current_apply] at present
    split at present
    next r put =>
      cases present
      rw [requestAt_last, put]
    next no =>
      split at present
      · cases present
      · exact requestAt_append (ih present) [c]

theorem lastRequest_requestAt {h : List Change} :
    ∀ {m : Nat}, lastRequest h = some m →
      ∃ req, requestAt h m = some req ∧ req.stop = false := by
  induction h using List.reverseRecOn with
  | nil => simp
  | append_singleton h c ih =>
    intro m last
    have older (before : lastRequest h = some m) :
        ∃ req, requestAt (h ++ [c]) m = some req ∧ req.stop = false := by
      obtain ⟨req, put, running⟩ := ih before
      exact ⟨req, requestAt_append put [c], running⟩
    have newer (req : UpdateRequest) (put : c.request? = some req)
        (chosen : (if req.stop = true then lastRequest h else some (h.length + 1)) = some m) :
        ∃ req, requestAt (h ++ [c]) m = some req ∧ req.stop = false := by
      split at chosen
      · exact older chosen
      next running =>
        cases chosen
        exact ⟨req, by rw [requestAt_last, put], by simpa using running⟩
    rw [lastRequest_concat] at last
    cases c with
    | putRequest req => exact newer req rfl last
    | putReconfigureRequest req => exact newer req rfl last
    | clearStatusAndContents => cases last
    | putStatus lrn st o => exact older last
    | updateNecoRelease v => exact older last
    | registerBootserver lrn => exact older last
    | deleteBootServer lrn => exact older last
    | other => exact older last

/-- While a request is in `status/current` and not stopped, it is the last one. -/
theorem lastRequest_of_current {h : List Change} :
    ∀ {req : UpdateRequest} {m : Nat}, (store h).current = some (req, m) → req.stop = false →
      lastRequest h = some m := by
  induction h using List.reverseRecOn with
  | nil => simp [Store.empty]
  | append_singleton h c ih =>
    intro req m present running
    rw [store_concat, current_apply] at present
    rw [lastRequest_concat]
    cases c with
    | putRequest r =>
      simp only [Change.request?, Option.some.injEq, Prod.mk.injEq] at present
      obtain ⟨rfl, rfl⟩ := present
      simp [lastRequestStep, running]
    | putReconfigureRequest r =>
      simp only [Change.request?, Option.some.injEq, Prod.mk.injEq] at present
      obtain ⟨rfl, rfl⟩ := present
      simp [lastRequestStep, running]
    | clearStatusAndContents => simp [Change.request?] at present
    | putStatus lrn st o => exact ih (by simpa [Change.request?] using present) running
    | updateNecoRelease v => exact ih (by simpa [Change.request?] using present) running
    | registerBootserver lrn => exact ih (by simpa [Change.request?] using present) running
    | deleteBootServer lrn => exact ih (by simpa [Change.request?] using present) running
    | other => exact ih (by simpa [Change.request?] using present) running

theorem lastRequest_of_none {h : List Change} :
    (store h).current = none → lastRequest h = none := by
  induction h using List.reverseRecOn with
  | nil => simp
  | append_singleton h c ih =>
    intro absent
    rw [store_concat, current_apply] at absent
    rw [lastRequest_concat]
    cases c with
    | putRequest req => simp [Change.request?] at absent
    | putReconfigureRequest req => simp [Change.request?] at absent
    | clearStatusAndContents => rfl
    | putStatus lrn st o => exact ih (by simpa [Change.request?] using absent)
    | updateNecoRelease v => exact ih (by simpa [Change.request?] using absent)
    | registerBootserver lrn => exact ih (by simpa [Change.request?] using absent)
    | deleteBootServer lrn => exact ih (by simpa [Change.request?] using absent)
    | other => exact ih (by simpa [Change.request?] using absent)

theorem current_plain (h₀ later : List Change)
    (plain : ∀ c ∈ later, c.request? = none ∧ c ≠ .clearStatusAndContents) :
    (store (h₀ ++ later)).current = (store h₀).current := by
  induction later using List.reverseRecOn with
  | nil => simp
  | append_singleton later c ih =>
    obtain ⟨noRequest, noClear⟩ := plain c (by simp)
    rw [← List.append_assoc, store_concat, current_apply, noRequest]
    simp only [noClear, if_false]
    exact ih fun d member => plain d (List.mem_append_left _ member)

/-- A transaction after which an older request is still current is no put and no clear. -/
theorem current_old (h₀ later : List Change) (R : UpdateRequest) (m : Nat)
    (present : (store (h₀ ++ later)).current = some (R, m)) (old : m ≤ h₀.length) :
    (store h₀).current = some (R, m) ∧
      ∀ c ∈ later, c.request? = none ∧ c ≠ .clearStatusAndContents := by
  induction later using List.reverseRecOn with
  | nil => exact ⟨by simpa using present, by simp⟩
  | append_singleton later c ih =>
    rw [← List.append_assoc, store_concat, current_apply] at present
    split at present
    next req put =>
      simp only [Option.some.injEq, Prod.mk.injEq, List.length_append] at present
      omega
    next no =>
      split at present
      · cases present
      next clear =>
        obtain ⟨before, none⟩ := ih present
        refine ⟨before, fun d member => ?_⟩
        rcases List.mem_append.mp member with older | new
        · exact none d older
        · rw [List.mem_singleton] at new
          exact new ▸ ⟨no, clear⟩

theorem latest_keep {h : List Change} {c : Change} (no : ∀ v, c ≠ .updateNecoRelease v) :
    (store (h ++ [c])).latest = (store h).latest := by
  rw [store_concat]
  cases c with
  | updateNecoRelease v => exact absurd rfl (no v)
  | registerBootserver lrn => simp only [Store.apply]; split <;> rfl
  | _ => rfl

theorem isStatus_false {c : Change} (no : c.isStatus = false) :
    c.request? = none ∧ c ≠ .clearStatusAndContents ∧ ∀ lrn st o, c ≠ .putStatus lrn st o := by
  cases c <;> simp [Change.isStatus, Change.request?] at no ⊢

/-- Before the first request there is neither a request nor a status. -/
theorem store_info (info : List Change) (no : ∀ c ∈ info, c.isStatus = false) :
    (store info).current = none ∧ (store info).statuses = ∅ := by
  induction info using List.reverseRecOn with
  | nil => exact ⟨rfl, rfl⟩
  | append_singleton info c ih =>
    obtain ⟨current, statuses⟩ := ih fun d member => no d (List.mem_append_left _ member)
    obtain ⟨noRequest, noClear, noPut⟩ := isStatus_false (no c (by simp))
    constructor
    · rw [store_concat, current_apply, noRequest]
      simp [noClear, current]
    · rw [store_concat]
      cases c with
      | putStatus lrn st o => exact absurd rfl (noPut lrn st o)
      | putRequest req => cases noRequest
      | putReconfigureRequest req => cases noRequest
      | clearStatusAndContents => exact absurd rfl noClear
      | registerBootserver lrn => simp only [Store.apply]; split <;> exact statuses
      | updateNecoRelease v => exact statuses
      | deleteBootServer lrn => exact statuses
      | other => exact statuses

/-! ### Calls of `RunStep` -/

/-- Server `lrn` has run all steps below `n` for the request of revision `m`. -/
def Done (trace : List StepEvent) (lrn : Int) (m n : Nat) : Prop :=
  ∀ k, 1 ≤ k → k < n → StepEvent.finished lrn m k ∈ trace

theorem Done.mono {trace : List StepEvent} {lrn : Int} {m n : Nat} (done : Done trace lrn m n)
    (events : List StepEvent) : Done (trace ++ events) lrn m n :=
  fun k low high => List.mem_append_left _ (done k low high)

theorem Done.one (trace : List StepEvent) (lrn : Int) (m : Nat) : Done trace lrn m 1 := by
  intro k low high
  omega

theorem Done.succ {trace : List StepEvent} {lrn : Int} {m n : Nat} (done : Done trace lrn m n) :
    Done (trace ++ [.finished lrn m n]) lrn m (n + 1) := by
  intro k low high
  by_cases last : k = n
  · subst last
    simp
  · exact List.mem_append_left _ (done k low (by omega))

end Neco
