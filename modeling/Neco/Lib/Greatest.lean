import Mathlib.Order.Lattice
import Mathlib.Data.List.Induction

/-!
# The first greatest element of a list

A loop that keeps the greatest element seen so far and replaces it only by a strictly greater
one. Elements without a key are skipped. It ends with the first of the greatest elements, and
that one can be told by comparing it with those before and those behind it.
-/

namespace Greatest

variable {α V : Type} [LinearOrder V] (key : α → Option V)

/-- One round of the loop. -/
def pick (best : Option (α × V)) (x : α) : Option (α × V) :=
  match key x with
  | none => best
  | some v =>
    match best with
    | none => some (x, v)
    | some (y, w) => if w < v then some (x, v) else some (y, w)

/-- The first greatest element of a list, with its key. -/
def first (l : List α) : Option (α × V) := l.foldl (pick key) none

/-- `x` stands in `l` such that all keys before it are smaller and none behind it is greater. -/
def IsFirst (l : List α) (x : α) (v : V) : Prop :=
  ∃ before behind, l = before ++ x :: behind ∧ key x = some v ∧
    (∀ y ∈ before, ∀ w, key y = some w → w < v) ∧ ∀ y ∈ behind, ∀ w, key y = some w → w ≤ v

variable {key}

theorem first_concat (l : List α) (x : α) : first key (l ++ [x]) = pick key (first key l) x := by
  rw [first, List.foldl_append]
  rfl

theorem pick_of_none {x : α} (none : key x = none) (best : Option (α × V)) :
    pick key best x = best := by
  simp [pick, none]

/-- The loop ends without an element if there is no key. -/
theorem first_eq_none {l : List α} : first key l = none ↔ ∀ x ∈ l, key x = none := by
  induction l using List.reverseRecOn with
  | nil => simp [first]
  | append_singleton l x ih =>
    rw [first_concat]
    simp only [List.mem_append, List.mem_singleton]
    cases found : key x with
    | none =>
      rw [pick_of_none found, ih]
      constructor
      · rintro old y (earlier | rfl)
        · exact old y earlier
        · exact found
      · exact fun all y earlier => all y (.inl earlier)
    | some v =>
      refine iff_of_false ?_ fun all => ?_
      · simp only [pick, found]
        split
        · nofun
        · split <;> nofun
      · cases found.symm.trans (all x (.inr rfl))

theorem isFirst_of_first {l : List α} : ∀ {x : α} {v : V}, first key l = some (x, v) →
    IsFirst key l x v := by
  induction l using List.reverseRecOn with
  | nil => nofun
  | append_singleton l y ih =>
    intro x v found
    rw [first_concat] at found
    -- The old element stays: `y` has no key or not a greater one.
    have old (same : first key l = some (x, v)) (small : ∀ w, key y = some w → w ≤ v) :
        IsFirst key (l ++ [y]) x v := by
      obtain ⟨before, behind, rfl, here, less, notGreater⟩ := ih same
      refine ⟨before, behind ++ [y], by simp, here, less, fun z member w keyZ => ?_⟩
      rcases List.mem_append.mp member with earlier | last
      · exact notGreater z earlier w keyZ
      · exact small w (List.mem_singleton.mp last ▸ keyZ)
    -- The new element comes in: all keys before it are smaller.
    have new (v : V) (here : key y = some v)
        (less : ∀ z ∈ l, ∀ w, key z = some w → w < v) : IsFirst key (l ++ [y]) y v :=
      ⟨l, [], rfl, here, less, nofun⟩
    cases here : key y with
    | none =>
      rw [pick_of_none here] at found
      exact old found fun w keyY => by cases here.symm.trans keyY
    | some u =>
      simp only [pick, here] at found
      split at found
      next empty =>
        cases found
        refine new v here fun z member w keyZ => ?_
        rw [first_eq_none.mp empty z member] at keyZ
        cases keyZ
      next z w best =>
        split at found
        next greater =>
          cases found
          obtain ⟨before, behind, rfl, keyBest, less, notGreater⟩ := ih best
          refine new v here fun z' member w' keyZ => ?_
          rcases List.mem_append.mp member with earlier | later
          · exact (less z' earlier w' keyZ).trans greater
          · rcases List.mem_cons.mp later with rfl | later
            · cases keyBest.symm.trans keyZ
              exact greater
            · exact (notGreater z' later w' keyZ).trans_lt greater
        next notGreater =>
          cases found
          refine old best fun w' keyY => ?_
          cases here.symm.trans keyY
          exact not_lt.mp notGreater

/-- An element that is not beaten is the one the loop ends with. -/
theorem first_of_isFirst {l : List α} {x : α} {v : V} (isFirst : IsFirst key l x v) :
    first key l = some (x, v) := by
  obtain ⟨before, behind, rfl, here, less, notGreater⟩ := isFirst
  induction behind using List.reverseRecOn with
  | nil =>
    rw [first_concat]
    simp only [pick, here]
    split
    · rfl
    next z w best =>
      obtain ⟨before', behind', rfl, keyBest, _, _⟩ := isFirst_of_first best
      rw [if_pos (less z (by simp) w keyBest)]
  | append_singleton behind y ih =>
    have kept := ih fun z member => notGreater z (List.mem_append_left _ member)
    rw [← List.cons_append, ← List.append_assoc, first_concat, kept]
    cases keyY : key y with
    | none => exact pick_of_none keyY _
    | some w =>
      simp only [pick, keyY]
      rw [if_neg (not_lt.mpr (notGreater y (by simp) w keyY))]

end Greatest
