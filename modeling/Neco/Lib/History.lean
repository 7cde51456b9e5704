import Mathlib.Data.List.Basic

/-!
# Linear histories of transactions

A store with a linear history is the list of its committed transactions. The
revision of a transaction is its position, counted from one, and what a reader
sees at a revision is the replay of everything up to it.
-/

namespace History

variable {γ β : Type}

/-- Replays transactions over a state whose last revision is `rev`. -/
def replayFrom (f : β → Nat → γ → β) : β → Nat → List γ → β
  | b, _, [] => b
  | b, rev, c :: rest => replayFrom f (f b (rev + 1) c) (rev + 1) rest

def replay (f : β → Nat → γ → β) (b : β) (h : List γ) : β := replayFrom f b 0 h

@[simp] theorem replay_nil (f : β → Nat → γ → β) (b : β) : replay f b [] = b := rfl

theorem replayFrom_append (f : β → Nat → γ → β) (h k : List γ) :
    ∀ (b : β) (rev : Nat), replayFrom f b rev (h ++ k) =
      replayFrom f (replayFrom f b rev h) (rev + h.length) k := by
  induction h with
  | nil => intro b rev; rfl
  | cons c rest ih =>
    intro b rev
    simp only [List.cons_append, replayFrom, List.length_cons]
    rw [ih, Nat.add_assoc, Nat.add_comm 1]

theorem replay_append (f : β → Nat → γ → β) (b : β) (h k : List γ) :
    replay f b (h ++ k) = replayFrom f (replay f b h) h.length k := by
  simpa [replay] using replayFrom_append f h k b 0

/-- One more transaction acts on the replay of the earlier ones. -/
@[simp] theorem replay_concat (f : β → Nat → γ → β) (b : β) (h : List γ) (c : γ) :
    replay f b (h ++ [c]) = f (replay f b h) (h.length + 1) c := by
  rw [replay_append]
  rfl

/-- Every transaction of `h` was committed on a history that met `P` with it. -/
def Each (P : List γ → γ → Prop) (h : List γ) : Prop :=
  ∀ h₁ c h₂, h = h₁ ++ c :: h₂ → P h₁ c

theorem each_nil (P : List γ → γ → Prop) : Each P [] := by
  intro h₁ c h₂ split
  simp at split

theorem each_concat (P : List γ → γ → Prop) (h : List γ) (c : γ) :
    Each P (h ++ [c]) ↔ Each P h ∧ P h c := by
  constructor
  · intro each
    refine ⟨fun h₁ d h₂ split => each h₁ d (h₂ ++ [c]) (by simp [split]), each h c [] rfl⟩
  · rintro ⟨each, last⟩ h₁ d h₂ split
    rcases List.eq_nil_or_concat h₂ with rfl | ⟨h₃, e, rfl⟩
    · obtain ⟨rfl, same⟩ := List.append_inj' split rfl
      cases same
      exact last
    · have reshaped : h ++ [c] = (h₁ ++ d :: h₃) ++ [e] := by simp [split]
      exact each h₁ d h₃ (List.append_inj_left' reshaped rfl)

theorem Each.mono {P Q : List γ → γ → Prop} {h : List γ} (each : Each P h)
    (weaker : ∀ h₁ c, P h₁ c → Q h₁ c) : Each Q h :=
  fun h₁ c h₂ split => weaker h₁ c (each h₁ c h₂ split)

/-- The transaction of revision `r + 1` was committed on the first `r` transactions. -/
theorem Each.at {P : List γ → γ → Prop} {h : List γ} (each : Each P h) {r : Nat} {c : γ}
    (here : h[r]? = some c) : P (h.take r) c := by
  obtain ⟨inside, rfl⟩ := List.getElem?_eq_some_iff.mp here
  apply each (h.take r) h[r] (h.drop (r + 1))
  rw [List.getElem_cons_drop, List.take_append_drop]

theorem each_append_left {P : List γ → γ → Prop} {h k : List γ} (each : Each P (h ++ k)) :
    Each P h := by
  intro h₁ c h₂ split
  exact each h₁ c (h₂ ++ k) (by simp [split])

end History
