import Mathlib.Data.List.Forall2
import Mathlib.Data.List.Perm.Basic

/-!
# Lists in another order

Two lists are `Reordered` along a relation when the elements of one, put in another order, are
related to those of the other. What is said of all elements, of some element or of their number
carries over.
-/

def Reordered {α β : Type} (R : α → β → Prop) (l : List α) (l' : List β) : Prop :=
  ∃ mid, List.Forall₂ R l mid ∧ mid.Perm l'

namespace Reordered

variable {α β : Type} {R : α → β → Prop} {l : List α} {l' : List β}

theorem exists_right (reordered : Reordered R l l') {a : α} (member : a ∈ l) :
    ∃ b ∈ l', R a b := by
  obtain ⟨mid, related, perm⟩ := reordered
  induction related generalizing l' with
  | nil => cases member
  | @cons x y rest mid here later ih =>
    rcases List.mem_cons.mp member with rfl | member
    · exact ⟨y, perm.mem_iff.mp (List.mem_cons_self ..), here⟩
    · obtain ⟨b, found, same⟩ := ih member (.refl _)
      exact ⟨b, perm.mem_iff.mp (List.mem_cons_of_mem _ found), same⟩

theorem exists_left (reordered : Reordered R l l') {b : β} (member : b ∈ l') :
    ∃ a ∈ l, R a b := by
  obtain ⟨mid, related, perm⟩ := reordered
  have member := perm.mem_iff.mpr member
  clear perm
  induction related with
  | nil => cases member
  | @cons x y rest mid here later ih =>
    rcases List.mem_cons.mp member with rfl | member
    · exact ⟨x, List.mem_cons_self .., here⟩
    · obtain ⟨a, found, same⟩ := ih member
      exact ⟨a, List.mem_cons_of_mem _ found, same⟩

theorem forall_iff (reordered : Reordered R l l') {P : α → Prop} {Q : β → Prop}
    (same : ∀ a b, R a b → (P a ↔ Q b)) : (∀ a ∈ l, P a) ↔ ∀ b ∈ l', Q b := by
  constructor
  · intro all b member
    obtain ⟨a, found, related⟩ := reordered.exists_left member
    exact (same a b related).mp (all a found)
  · intro all a member
    obtain ⟨b, found, related⟩ := reordered.exists_right member
    exact (same a b related).mpr (all b found)

theorem exists_iff (reordered : Reordered R l l') {P : α → Prop} {Q : β → Prop}
    (same : ∀ a b, R a b → (P a ↔ Q b)) : (∃ a ∈ l, P a) ↔ ∃ b ∈ l', Q b := by
  constructor
  · rintro ⟨a, member, holds⟩
    obtain ⟨b, found, related⟩ := reordered.exists_right member
    exact ⟨b, found, (same a b related).mp holds⟩
  · rintro ⟨b, member, holds⟩
    obtain ⟨a, found, related⟩ := reordered.exists_left member
    exact ⟨a, found, (same a b related).mpr holds⟩

theorem countP_eq (reordered : Reordered R l l') {p : α → Bool} {q : β → Bool}
    (same : ∀ a b, R a b → p a = q b) : l.countP p = l'.countP q := by
  obtain ⟨mid, related, perm⟩ := reordered
  rw [← perm.countP_eq]
  clear perm
  induction related with
  | nil => rfl
  | cons here later ih => rw [List.countP_cons, List.countP_cons, ih, same _ _ here]

/-- What is said of the value of an option carries over in the same way. -/
theorem rel_exists_iff {a : Option α} {b : Option β} (related : Option.Rel R a b) {P : α → Prop}
    {Q : β → Prop} (same : ∀ x y, R x y → (P x ↔ Q y)) :
    (∃ x, a = some x ∧ P x) ↔ ∃ y, b = some y ∧ Q y := by
  cases related with
  | none => simp
  | some here => simpa using same _ _ here

end Reordered
