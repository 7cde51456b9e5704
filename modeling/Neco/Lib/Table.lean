import Mathlib.Data.List.Nodup
import Mathlib.Data.List.Induction
import Mathlib.Logic.Function.Basic

/-!
# Tables filled by a loop

A table holds at most one value under each key. `assign` is the loop that writes one entry for
each element of a list, so that later elements replace earlier ones. In a `latch` the values of
a kind are never replaced: such an entry stays whatever is written after it.
-/

namespace Table

variable {κ α β : Type} [DecidableEq κ]

def assign (key : α → κ) (value : α → β) (l : List α) : κ → Option β :=
  l.foldl (fun table x => Function.update table (key x) (some (value x))) fun _ => none

def write (top : β → Bool) (table : κ → Option β) (w : κ × β) : κ → Option β :=
  if (table w.1).any top then table else Function.update table w.1 (some w.2)

def latch (top : β → Bool) (writes : List (κ × β)) : κ → Option β :=
  writes.foldl (write top) fun _ => none

/-! ### The last element of a key -/

theorem assign_concat (key : α → κ) (value : α → β) (l : List α) (x : α) :
    assign key value (l ++ [x]) = Function.update (assign key value l) (key x) (some (value x)) := by
  simp [assign]

theorem assign_eq_find? (key : α → κ) (value : α → β) (l : List α) (k : κ) :
    assign key value l k = (l.reverse.find? (key · = k)).map value := by
  induction l using List.reverseRecOn with
  | nil => rfl
  | append_singleton l x ih =>
    rw [assign_concat, List.reverse_append, List.reverse_singleton, List.singleton_append,
      List.find?_cons]
    by_cases same : key x = k
    · subst same
      simp
    · rw [Function.update_of_ne (Ne.symm same), ih]
      simp [same]

theorem assign_ne_none {key : α → κ} {value : α → β} {l : List α} {k : κ} :
    assign key value l k ≠ none ↔ ∃ x ∈ l, key x = k := by
  simp [assign_eq_find?]

/-- When no two elements have one key, the first one of a key is the only one. -/
theorem find?_key {key : α → κ} {l : List α} (nodup : (l.map key).Nodup) {k : κ} {x : α} :
    l.find? (key · = k) = some x ↔ x ∈ l ∧ key x = k := by
  constructor
  · intro found
    exact ⟨List.mem_of_find?_eq_some found, by simpa using List.find?_some found⟩
  · rintro ⟨member, same⟩
    cases found : l.find? (key · = k) with
    | none => exact absurd same (by simpa using List.find?_eq_none.mp found x member)
    | some first =>
      have keyed : key first = k := by simpa using List.find?_some found
      rw [List.inj_on_of_nodup_map nodup (List.mem_of_find?_eq_some found) member
        (keyed.trans same.symm)]

theorem assign_eq_some {key : α → κ} {value : α → β} {l : List α} (nodup : (l.map key).Nodup)
    {k : κ} {b : β} : assign key value l k = some b ↔ ∃ x ∈ l, key x = k ∧ value x = b := by
  have reversed : (l.reverse.map key).Nodup := by
    rw [List.map_reverse]
    exact List.nodup_reverse.mpr nodup
  rw [assign_eq_find?, Option.map_eq_some_iff]
  simp only [find?_key reversed, List.mem_reverse, and_assoc]

/-! ### Values that stay -/

section Latch

variable {top : β → Bool}

theorem latch_concat (writes : List (κ × β)) (w : κ × β) :
    latch top (writes ++ [w]) = write top (latch top writes) w := by
  simp [latch]

theorem write_self (table : κ → Option β) (w : κ × β) :
    write top table w w.1 = if (table w.1).any top then table w.1 else some w.2 := by
  unfold write
  split <;> simp

theorem write_other (table : κ → Option β) (w : κ × β) {k : κ} (other : k ≠ w.1) :
    write top table w k = table k := by
  unfold write
  split
  · rfl
  · exact Function.update_of_ne other _ _

/-- There is an entry under each key that is written, and under no other. -/
theorem latch_isSome (writes : List (κ × β)) (k : κ) :
    (latch top writes k).isSome = true ↔ ∃ w ∈ writes, w.1 = k := by
  induction writes using List.reverseRecOn with
  | nil => simp [latch]
  | append_singleton writes w ih =>
    rw [latch_concat]
    by_cases same : k = w.1
    · subst same
      rw [write_self]
      constructor
      · intro _
        exact ⟨w, by simp, rfl⟩
      · intro _
        split
        next kept => exact Option.isSome_of_any kept
        · rfl
    · rw [write_other _ _ same, ih]
      simp [Ne.symm same, or_and_right, exists_or]

/-- The entry is one that stays iff such a value is written under its key. -/
theorem latch_any (writes : List (κ × β)) (k : κ) :
    (latch top writes k).any top = true ↔ ∃ w ∈ writes, w.1 = k ∧ top w.2 = true := by
  induction writes using List.reverseRecOn with
  | nil => simp [latch]
  | append_singleton writes w ih =>
    rw [latch_concat]
    by_cases same : k = w.1
    · subst same
      rw [write_self]
      split
      next kept =>
        obtain ⟨earlier, member, found⟩ := ih.mp kept
        exact ⟨fun _ => ⟨earlier, List.mem_append_left _ member, found⟩, fun _ => kept⟩
      next free =>
        constructor
        · intro last
          exact ⟨w, by simp, rfl, by simpa using last⟩
        · rintro ⟨w', member, found⟩
          rcases List.mem_append.mp member with earlier | last
          · exact absurd (ih.mpr ⟨w', earlier, found⟩) free
          · rw [List.mem_singleton.mp last] at found
            simpa using found.2
    · rw [write_other _ _ same, ih]
      simp [Ne.symm same, or_and_right, exists_or]

/-- Every entry has been written. -/
theorem mem_of_latch {writes : List (κ × β)} {k : κ} {b : β}
    (found : latch top writes k = some b) : (k, b) ∈ writes := by
  induction writes using List.reverseRecOn with
  | nil => cases found
  | append_singleton writes w ih =>
    rw [latch_concat] at found
    by_cases same : k = w.1
    · subst same
      rw [write_self] at found
      split at found
      · exact List.mem_append_left _ (ih found)
      · cases found
        simp
    · rw [write_other _ _ same] at found
      exact List.mem_append_left _ (ih found)

end Latch

end Table
