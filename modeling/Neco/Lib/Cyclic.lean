import Mathlib.Data.List.Rotate
import Mathlib.Data.List.Nodup
import Mathlib.Data.List.Iterate

/-!
# Taking turns in a cyclic order

A list without repetitions fixes a cyclic order. `next` goes from an element to the first one
strictly after it that meets a condition, around the end of the list if need be; an element
that alone meets the condition is followed by itself. From an element that meets it, as many
turns as there are such elements visit each of them once and come back.
-/

namespace Cyclic

variable {α : Type} [DecidableEq α]

/-- The elements strictly after `x` in the cyclic order, `x` itself last; the whole list from its
beginning when `x` is not in it. -/
def after (order : List α) (x : α) : List α :=
  order.drop (order.idxOf x + 1) ++ order.take (order.idxOf x + 1)

/-- The first element after `x` that meets `p`. -/
def next (order : List α) (p : α → Bool) (x : α) : α := ((after order x).find? p).getD x

theorem after_of_not_mem {order : List α} {x : α} (absent : x ∉ order) : after order x = order := by
  rw [after, List.idxOf_eq_length_iff.mpr absent, List.drop_eq_nil_of_le (by omega),
    List.take_of_length_le (by omega), List.nil_append]

theorem after_split {before later : List α} {x : α} (first : x ∉ before) :
    after (before ++ x :: later) x = later ++ (before ++ [x]) := by
  have index : (before ++ x :: later).idxOf x = before.length := by
    rw [List.idxOf_append_of_notMem first]
    simp
  rw [after, index, List.append_cons,
    List.drop_append_of_le_length (by simp), List.take_append_of_le_length (by simp)]
  simp

theorem after_perm (order : List α) (x : α) : (after order x).Perm order := by
  have halves : (after order x).Perm
      (order.take (order.idxOf x + 1) ++ order.drop (order.idxOf x + 1)) := List.perm_append_comm
  rwa [List.take_append_drop] at halves

theorem mem_after {order : List α} {x y : α} : y ∈ after order x ↔ y ∈ order :=
  (after_perm order x).mem_iff

/-- The turn goes to an element that meets the condition as soon as there is one. -/
theorem find?_after {order : List α} {p : α → Bool} (x : α) {y : α} (member : y ∈ order)
    (holds : p y) : (after order x).find? p = some (next order p x) := by
  obtain ⟨z, found⟩ := Option.isSome_iff_exists.mp
    (List.find?_isSome.mpr ⟨y, (mem_after (x := x)).mpr member, holds⟩)
  rw [next, found, Option.getD_some]

/-- With the elements that meet `p` numbered in their order, `next` goes to the following number,
and from the last one to the first. -/
theorem next_getElem? {order : List α} (nodup : order.Nodup) {p : α → Bool} {i : Nat} {x : α}
    (here : (order.filter p)[i]? = some x) :
    (order.filter p)[(i + 1) % (order.filter p).length]? = some (next order p x) := by
  obtain ⟨member, holds⟩ := List.mem_filter.mp (List.mem_of_getElem? here)
  obtain ⟨before, later, rfl⟩ := List.append_of_mem member
  have first : x ∉ before := fun earlier =>
    (List.nodup_append.mp nodup).2.2 _ earlier _ (List.mem_cons_self ..) rfl
  -- the chosen elements are those before `x`, then `x`, then those after it
  have chosen : (before ++ x :: later).filter p = before.filter p ++ x :: later.filter p := by
    rw [List.filter_append, List.filter_cons_of_pos holds]
  have distinct := nodup.filter p
  rw [chosen] at here distinct ⊢
  have index : i = (before.filter p).length := by
    obtain ⟨inside, -⟩ := List.getElem?_eq_some_iff.mp here
    refine (List.getElem?_inj inside distinct).mp ?_
    rw [here, List.getElem?_append_right (Nat.le_refl _), Nat.sub_self, List.getElem?_cons_zero]
  -- what `next` searches is the list of chosen elements turned to begin after `x`
  have turned : (before.filter p ++ x :: later.filter p).rotate (i + 1) =
      later.filter p ++ (before.filter p ++ [x]) := by
    rw [List.rotate_eq_drop_append_take (by simp [index]), List.append_cons,
      List.drop_append_of_le_length (by simp [index]),
      List.take_append_of_le_length (by simp [index])]
    simp [index]
  have found : (after (before ++ x :: later) x).find? p =
      (later.filter p ++ (before.filter p ++ [x]))[0]? := by
    rw [after_split first, ← List.head?_filter, List.head?_eq_getElem?, List.filter_append,
      List.filter_append, List.filter_cons_of_pos holds, List.filter_nil]
  have head := List.getElem?_rotate (n := i + 1) (m := 0)
    (List.length_pos_of_mem (List.mem_of_getElem? here))
  have nonempty : 0 < (later.filter p ++ (before.filter p ++ [x])).length :=
    List.length_pos_of_mem (List.mem_append_right _ (List.mem_append_right _ (List.mem_cons_self ..)))
  rw [Nat.zero_add, turned] at head
  rw [← head, next, found, List.getElem?_eq_getElem nonempty, Option.getD_some]

/-- The element reached after `k` turns is `k` numbers further, around the end. -/
theorem iterate_next {order : List α} (nodup : order.Nodup) {p : α → Bool} {i : Nat} {x : α}
    (here : (order.filter p)[i]? = some x) (k : Nat) :
    (order.filter p)[(i + k) % (order.filter p).length]? = some ((next order p)^[k] x) := by
  induction k with
  | zero =>
    obtain ⟨inside, -⟩ := List.getElem?_eq_some_iff.mp here
    rw [Nat.add_zero, Nat.mod_eq_of_lt inside, here, Function.iterate_zero_apply]
  | succ k turns =>
    rw [Function.iterate_succ_apply', ← next_getElem? nodup turns, Nat.mod_add_mod, Nat.add_assoc]

/-- One turn for each element that meets the condition visits each of them, once. -/
theorem visits_perm {order : List α} (nodup : order.Nodup) {p : α → Bool} {x : α}
    (member : x ∈ order.filter p) :
    (List.iterate (next order p) (next order p x) (order.filter p).length).Perm
      (order.filter p) := by
  obtain ⟨i, here⟩ := List.mem_iff_getElem?.mp member
  have turned : List.iterate (next order p) (next order p x) (order.filter p).length =
      (order.filter p).rotate (i + 1) := by
    apply List.ext_getElem?
    intro k
    by_cases inside : k < (order.filter p).length
    · rw [List.getElem?_rotate inside, List.getElem?_iterate _ _ _ _ inside,
        show k + (i + 1) = i + (k + 1) by omega, iterate_next nodup here]
      rfl
    · rw [List.getElem?_eq_none (by simpa using inside),
        List.getElem?_eq_none (by simpa using inside)]
  rw [turned]
  exact List.rotate_perm _ _

/-- After one turn for each of them the first is back. -/
theorem iterate_next_length {order : List α} (nodup : order.Nodup) {p : α → Bool} {x : α}
    (member : x ∈ order.filter p) : (next order p)^[(order.filter p).length] x = x := by
  obtain ⟨i, here⟩ := List.mem_iff_getElem?.mp member
  obtain ⟨inside, -⟩ := List.getElem?_eq_some_iff.mp here
  have around := iterate_next nodup here (order.filter p).length
  rw [Nat.add_mod_right, Nat.mod_eq_of_lt inside, here] at around
  exact (Option.some.inj around).symm

end Cyclic
