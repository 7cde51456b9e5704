import Mathlib.Data.List.Nodup

/-!
# Loops over elements with keys

A loop whose steps each change what a state holds under the key of their element, and nothing
else. When no two elements have one key, each of them acts on what was there before the loop.
-/

namespace Keyed

variable {σ α κ β : Type} (look : σ → κ → β) (key : α → κ) {step : σ → α → σ}

theorem foldl_other (others : ∀ s x k, k ≠ key x → look (step s x) k = look s k) {l : List α}
    {k : κ} (absent : ∀ x ∈ l, key x ≠ k) (s : σ) : look (l.foldl step s) k = look s k := by
  induction l generalizing s with
  | nil => rfl
  | cons x rest ih =>
    rw [List.foldl_cons, ih fun y later => absent y (List.mem_cons_of_mem x later)]
    exact others s x k (absent x (List.mem_cons_self ..)).symm

/-- An element finds what the state held under its key before the loop. -/
theorem foldl_before (others : ∀ s x k, k ≠ key x → look (step s x) k = look s k)
    {done rest : List α} {x : α} (nodup : ((done ++ x :: rest).map key).Nodup) (s : σ) :
    look (done.foldl step s) (key x) = look s (key x) := by
  refine foldl_other look key others (fun y earlier same => ?_) s
  rw [List.map_append, List.nodup_append] at nodup
  exact nodup.2.2 (key y) (List.mem_map_of_mem earlier) (key x) (List.mem_cons_self ..) same

theorem foldl_own (own : α → β → β)
    (others : ∀ s x k, k ≠ key x → look (step s x) k = look s k)
    (owned : ∀ s x, look (step s x) (key x) = own x (look s (key x)))
    {l : List α} (nodup : (l.map key).Nodup) {x : α} (member : x ∈ l) (s : σ) :
    look (l.foldl step s) (key x) = own x (look s (key x)) := by
  obtain ⟨done, rest, rfl⟩ := List.append_of_mem member
  have later : ∀ y ∈ rest, key y ≠ key x := by
    rw [List.map_append, List.map_cons, List.nodup_append, List.nodup_cons] at nodup
    intro y here same
    exact nodup.2.1.1 (same ▸ List.mem_map_of_mem here)
  rw [List.foldl_append, List.foldl_cons, foldl_other look key others later, owned,
    foldl_before look key others nodup]

end Keyed
