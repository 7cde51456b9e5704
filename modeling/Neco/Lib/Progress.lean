import Neco.Lib.Program
import Mathlib.Data.DFinsupp.WellFounded
import Mathlib.SetTheory.Cardinal.Order

/-!
# Programs that come to an end

Finitely many programs that run side by side cannot go on for ever, because each call leaves a
smaller program. That none of them stops early is told by `Advances`: how far a program has come,
and which calls it makes at which place.
-/

namespace Program

variable {Call : Type} {Reply : Call → Type} {ε α β κ ι : Type}

/-! ### Programs side by side -/

/-- What is left of a program after its first call. -/
inductive Prog.Rest : Prog Call Reply ε α → Prog Call Reply ε α → Prop
  | mk (c : Call) (next : Reply c → Prog Call Reply ε α) (r : Reply c) : Rest (next r) (.call c next)

theorem Prog.wellFounded_rest :
    WellFounded (Prog.Rest : Prog Call Reply ε α → Prog Call Reply ε α → Prop) := by
  refine ⟨fun p => ?_⟩
  induction p with
  | ret a => exact ⟨_, fun q rest => by cases rest⟩
  | fail e => exact ⟨_, fun q rest => by cases rest⟩
  | call c next ih =>
    refine ⟨_, fun q rest => ?_⟩
    cases rest with
    | mk _ _ r => exact ih r

/-- One of the programs of `l` has made a call, and the others are as before. -/
def OneCalled (l : List ι) (after before : ι → Prog Call Reply ε α) : Prop :=
  ∃ i ∈ l, (after i).Rest (before i) ∧ ∀ j, j ≠ i → after j = before j

instance wellFounded_oneCalled (l : List ι) :
    IsWellFounded (ι → Prog Call Reply ε α) (OneCalled l) := by
  -- Among the programs of `l`, in any order, the first that differs has become smaller.
  have : Finite {i // i ∈ l} := List.finite_toSet l
  have rests : ∀ _ : {i // i ∈ l}, WellFounded
      (Prog.Rest : Prog Call Reply ε α → Prog Call Reply ε α → Prop) := fun _ => Prog.wellFounded_rest
  have descends := Pi.Lex.wellFounded (WellOrderingRel : {i // i ∈ l} → {i // i ∈ l} → Prop) rests
  refine ⟨(InvImage.wf (fun programs i => programs i.1) descends).mono ?_⟩
  rintro after before ⟨i, member, smaller, same⟩
  refine ⟨⟨i, member⟩, fun j less => same j.1 fun other => ?_, smaller⟩
  have here : j = ⟨i, member⟩ := Subtype.ext other
  subst here
  exact irrefl_of WellOrderingRel _ less

/-! ### Places in a program -/

/-- How a program moves on as long as its calls are answered as expected: where each call
belongs, and where it leads to. -/
structure Course (Call : Type) (Reply : Call → Type) (κ : Type) where
  expected : (c : Call) → Reply c → Prop
  fits : κ → Call → Prop
  after : κ → Call → κ

/-- From the place `k` on the program makes each call where it belongs. It does not fail, and it
returns at a place of `Q`. -/
def Advances (C : Course Call Reply κ) : κ → Prog Call Reply ε α → (α → κ → Prop) → Prop
  | k, .ret a, Q => Q a k
  | _, .fail _, _ => False
  | k, .call c next, Q => C.fits k c ∧ ∀ r, C.expected c r → Advances C (C.after k c) (next r) Q

namespace Advances

variable {C : Course Call Reply κ} {k : κ} {p : Prog Call Reply ε α} {Q : α → κ → Prop}

theorem bind {f : α → Prog Call Reply ε β} {M : α → κ → Prop} {Q : β → κ → Prop}
    (first : Advances C k p M) (rest : ∀ a k, M a k → Advances C k (f a) Q) :
    Advances C k (p >>= f) Q := by
  induction p generalizing k with
  | ret a => exact rest a k first
  | fail e => exact first.elim
  | call c next ih => exact ⟨first.1, fun r expected => ih r (first.2 r expected)⟩

/-- A loop whose iterations stay at one place. -/
theorem forM {f : ι → Prog Call Reply ε PUnit} (xs : List ι)
    (body : ∀ x ∈ xs, Advances C k (f x) fun _ k' => k' = k) :
    Advances C k (xs.forM f) fun _ k' => k' = k := by
  induction xs with
  | nil => rfl
  | cons x rest ih =>
    refine (body x (List.mem_cons_self ..)).bind fun _ k' same => ?_
    subst same
    exact ih fun y member => body y (List.mem_cons_of_mem x member)

theorem attempt (advances : Advances C k p Q) :
    Advances C k p.attempt fun result k => ∃ a, result = .ok a ∧ Q a k := by
  induction p generalizing k with
  | ret a => exact ⟨a, rfl, advances⟩
  | fail e => exact advances.elim
  | call c next ih => exact ⟨advances.1, fun r expected => ih r (advances.2 r expected)⟩

end Advances
end Program
