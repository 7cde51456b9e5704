import Mathlib.Data.List.Nodup
import Mathlib.Data.List.Sort

/-!
# Lists in the order of a key

A list whose elements are in the strict order of a key is a finite map written down: a key names
one element, the list is determined by its members, and an element is put at the place of its
key.
-/

namespace Ordered

variable {α κ : Type} [LinearOrder κ]

/-- A key names one element. -/
theorem eq_of_key {key : α → κ} {l : List α} (sorted : l.Pairwise fun x y => key x < key y)
    {x y : α} (hx : x ∈ l) (hy : y ∈ l) (same : key x = key y) : x = y := by
  have nodup : (l.map key).Nodup := List.pairwise_map.mpr (sorted.imp fun less => less.ne)
  exact List.inj_on_of_nodup_map nodup hx hy same

/-- The members determine the list. -/
theorem eq_of_mem_iff {key : α → κ} {l l' : List α}
    (sorted : l.Pairwise fun x y => key x < key y) (sorted' : l'.Pairwise fun x y => key x < key y)
    (same : ∀ x, x ∈ l ↔ x ∈ l') : l = l' := by
  have irrefl : Std.Irrefl fun x y : α => key x < key y := ⟨fun x => lt_irrefl (key x)⟩
  have trans : IsTrans α fun x y => key x < key y := ⟨fun _ _ _ => lt_trans⟩
  exact List.Pairwise.eq_of_mem_iff sorted sorted' same

/-- Puts an element at the place of its key, over an element with the same key. -/
def place (key : α → κ) (v : α) : List α → List α
  | [] => [v]
  | x :: rest =>
    if key v < key x then v :: x :: rest
    else if key v = key x then v :: rest
    else x :: place key v rest

theorem mem_place {key : α → κ} {v x : α} {l : List α}
    (sorted : l.Pairwise fun x y => key x < key y) :
    x ∈ place key v l ↔ x = v ∨ x ∈ l ∧ key x ≠ key v := by
  induction l with
  | nil => simp [place]
  | cons y rest ih =>
    obtain ⟨first, sortedRest⟩ := List.pairwise_cons.mp sorted
    simp only [place]
    split
    next less =>
      -- Every later key is larger still, so nothing is replaced.
      have larger : ∀ z ∈ y :: rest, key z ≠ key v := by
        intro z member
        rcases List.mem_cons.mp member with rfl | later
        · exact less.ne'
        · exact (less.trans (first z later)).ne'
      rw [List.mem_cons]
      exact or_congr_right ⟨fun old => ⟨old, larger x old⟩, fun old => old.1⟩
    next notLess =>
    split
    next equal =>
      -- Only the head has this key, and it is the one that goes.
      have larger : ∀ z ∈ rest, key z ≠ key v := fun z later => equal ▸ (first z later).ne'
      simp only [List.mem_cons]
      constructor
      · rintro (new | old)
        · exact .inl new
        · exact .inr ⟨.inr old, larger x old⟩
      · rintro (new | ⟨rfl | old, other⟩)
        · exact .inl new
        · exact absurd equal.symm other
        · exact .inr old
    next other =>
      simp only [List.mem_cons, ih sortedRest]
      constructor
      · rintro (rfl | new | old)
        · exact .inr ⟨.inl rfl, Ne.symm other⟩
        · exact .inl new
        · exact .inr ⟨.inr old.1, old.2⟩
      · rintro (new | ⟨rfl | old, different⟩)
        · exact .inr (.inl new)
        · exact .inl rfl
        · exact .inr (.inr ⟨old, different⟩)

theorem sorted_place {key : α → κ} {v : α} {l : List α}
    (sorted : l.Pairwise fun x y => key x < key y) :
    (place key v l).Pairwise fun x y => key x < key y := by
  induction l with
  | nil => exact List.pairwise_singleton ..
  | cons x rest ih =>
    obtain ⟨first, sortedRest⟩ := List.pairwise_cons.mp sorted
    simp only [place]
    split
    next less =>
      refine List.pairwise_cons.mpr ⟨fun y member => ?_, sorted⟩
      rcases List.mem_cons.mp member with rfl | later
      · exact less
      · exact less.trans (first y later)
    next notLess =>
    split
    next equal =>
      exact List.pairwise_cons.mpr ⟨fun y later => equal ▸ first y later, sortedRest⟩
    next other =>
      -- The new element comes behind `x`, whose key is neither larger nor equal.
      refine List.pairwise_cons.mpr ⟨fun y member => ?_, ih sortedRest⟩
      rcases (mem_place sortedRest).mp member with rfl | old
      · exact lt_of_le_of_ne (not_lt.mp notLess) (Ne.symm other)
      · exact first y old.1

end Ordered
