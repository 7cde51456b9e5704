import Mathlib.Data.List.Forall2

/-!
# Computations that may fail

Results of sequences and loops in `Except`: a sequence returns what its parts return, a loop over
a list fails iff it fails at one of the elements.
-/

namespace Fallible

variable {ε α β : Type}

theorem bind_eq_ok {x : Except ε α} {f : α → Except ε β} {b : β} :
    (x >>= f) = .ok b ↔ ∃ a, x = .ok a ∧ f a = .ok b := by
  cases x with
  | error e => simp [bind, Except.bind]
  | ok a => simp [bind, Except.bind]

theorem pure_eq_ok {a b : α} : (pure a : Except ε α) = .ok b ↔ a = b := by
  simp [pure, Except.pure]

/-- A loop returns the list of what it returns at each element. -/
theorem mapM_eq_ok {f : α → Except ε β} {l : List α} {l' : List β} :
    l.mapM f = .ok l' ↔ List.Forall₂ (fun x y => f x = .ok y) l l' := by
  induction l generalizing l' with
  | nil => cases l' <;> simp [pure, Except.pure]
  | cons x rest ih =>
    simp only [List.mapM_cons, bind_eq_ok, pure_eq_ok, ih]
    constructor
    · rintro ⟨y, first, ys, later, rfl⟩
      exact .cons first later
    · intro all
      cases all with
      | cons first later => exact ⟨_, first, _, later, rfl⟩

theorem mem_of_mapM {f : α → Except ε β} {l : List α} {l' : List β} (returned : l.mapM f = .ok l')
    {b : β} : b ∈ l' ↔ ∃ a ∈ l, f a = .ok b := by
  have all := mapM_eq_ok.mp returned
  clear returned
  induction all with
  | nil => simp
  | cons first later ih => simp [ih, first, eq_comm]

theorem length_mapM {f : α → Except ε β} {l : List α} {l' : List β} (returned : l.mapM f = .ok l') :
    l'.length = l.length := (mapM_eq_ok.mp returned).length_eq.symm

/-- What a loop returns at a position comes from the element there. -/
theorem getElem?_mapM {f : α → Except ε β} {l : List α} {l' : List β}
    (returned : l.mapM f = .ok l') {i : Nat} {b : β} (found : l'[i]? = some b) :
    ∃ a, l[i]? = some a ∧ f a = .ok b := by
  have all := mapM_eq_ok.mp returned
  clear returned
  induction all generalizing i with
  | nil => simp at found
  | cons first later ih =>
    cases i with
    | zero =>
      cases found
      exact ⟨_, rfl, first⟩
    | succ i => exact ih found

theorem mem_of_forM {f : α → Except ε Unit} {l : List α} (accepted : forM l f = .ok ()) :
    ∀ x ∈ l, f x = .ok () := by
  induction l with
  | nil => exact List.forall_mem_nil _
  | cons x rest ih =>
    rw [List.forM_cons, bind_eq_ok] at accepted
    obtain ⟨_, first, later⟩ := accepted
    exact List.forall_mem_cons.mpr ⟨first, ih later⟩

/-- The last round of a loop with a state. -/
theorem foldlM_concat_eq_ok {f : β → α → Except ε β} {l : List α} {x : α} {init b : β} :
    (l ++ [x]).foldlM f init = .ok b ↔ ∃ a, l.foldlM f init = .ok a ∧ f a x = .ok b := by
  simp only [List.foldlM_append, bind_eq_ok, List.foldlM_cons, List.foldlM_nil, pure_eq_ok,
    exists_eq_right]

/-! ### Success -/

/-- The computation returns a value. -/
def Succeeds (x : Except ε α) : Prop := ∃ a, x = .ok a

@[simp] theorem succeeds_ok (a : α) : Succeeds (.ok a : Except ε α) := ⟨a, rfl⟩

@[simp] theorem succeeds_pure (a : α) : Succeeds (pure a : Except ε α) := ⟨a, rfl⟩

@[simp] theorem not_succeeds_error (e : ε) : ¬ Succeeds (.error e : Except ε α) := by
  rintro ⟨a, same⟩
  cases same

theorem not_succeeds {x : Except ε α} : ¬ Succeeds x ↔ ∃ e, x = .error e := by
  cases x with
  | error e => simp
  | ok a => simp

/-- The test of a computation that can be evaluated. -/
theorem succeeds_of_isOk {x : Except ε α} (ok : x.isOk = true) : Succeeds x := by
  cases x with
  | error e => cases ok
  | ok a => exact succeeds_ok a

theorem succeeds_bind {x : Except ε α} {f : α → Except ε β} :
    Succeeds (x >>= f) ↔ ∃ a, x = .ok a ∧ Succeeds (f a) := by
  constructor
  · rintro ⟨b, returned⟩
    obtain ⟨a, first, second⟩ := bind_eq_ok.mp returned
    exact ⟨a, first, b, second⟩
  · rintro ⟨a, first, b, second⟩
    exact ⟨b, bind_eq_ok.mpr ⟨a, first, second⟩⟩

/-- Whether the second part fails often does not depend on what the first one returns. -/
theorem succeeds_bind_iff {x : Except ε α} {f : α → Except ε β} {P : Prop}
    (second : ∀ a, Succeeds (f a) ↔ P) : Succeeds (x >>= f) ↔ Succeeds x ∧ P := by
  rw [succeeds_bind]
  simp only [second, exists_and_right]
  rfl

theorem Succeeds.bind {x : Except ε α} {f : α → Except ε β} (first : Succeeds x)
    (second : ∀ a, x = .ok a → Succeeds (f a)) : Succeeds (x >>= f) := by
  obtain ⟨a, returned⟩ := first
  exact succeeds_bind.mpr ⟨a, returned, second a returned⟩

theorem succeeds_mapM {f : α → Except ε β} {l : List α} :
    Succeeds (l.mapM f) ↔ ∀ x ∈ l, Succeeds (f x) := by
  induction l with
  | nil => simp
  | cons x rest ih =>
    rw [List.mapM_cons, List.forall_mem_cons]
    refine succeeds_bind_iff fun y => ?_
    rw [succeeds_bind_iff fun ys => iff_of_true (succeeds_pure (y :: ys)) trivial, and_true, ih]

end Fallible
