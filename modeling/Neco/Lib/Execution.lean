import Neco.Lib.Program

/-!
# Executions of programs

A program and the state around it move together: a call is answered, and then the other parties
may act before the program goes on. An execution may be looked at wherever it stands, so the same
relation describes programs that have returned, that have failed and that have been stopped.
-/

namespace Program

variable {Call : Type} {Reply : Call → Type} {ε α β σ : Type} {W : World Call Reply σ}

/-- An execution of `p` from the state `s` comes to the rest `q` in the state `t`. -/
inductive Reaches (W : World Call Reply σ) :
    Prog Call Reply ε α → σ → Prog Call Reply ε α → σ → Prop
  | refl (p : Prog Call Reply ε α) (s : σ) : Reaches W p s p s
  | call {c : Call} {next : Reply c → Prog Call Reply ε α} {q : Prog Call Reply ε α} {r : Reply c}
      {s s' s'' t : σ} (answer : W.answers c s r s') (others : W.rely s' s'')
      (later : Reaches W (next r) s'' q t) : Reaches W (.call c next) s q t

/-- An execution of `p` from `s` returns `a` in the state `t`. -/
def Ends (W : World Call Reply σ) (p : Prog Call Reply ε α) (s : σ) (a : α) (t : σ) : Prop :=
  Reaches W p s (.ret a) t

section Ends

variable {s t : σ}

@[simp] theorem ends_ret {a b : α} :
    Ends W (.ret a : Prog Call Reply ε α) s b t ↔ b = a ∧ t = s := by
  constructor
  · intro ended
    cases ended with
    | refl => exact ⟨rfl, rfl⟩
  · rintro ⟨rfl, rfl⟩
    exact .refl _ _

@[simp] theorem not_ends_fail {e : ε} {b : α} :
    ¬Ends W (.fail e : Prog Call Reply ε α) s b t := by
  intro ended
  cases ended

theorem ends_call {c : Call} {next : Reply c → Prog Call Reply ε α} {b : α} :
    Ends W (.call c next) s b t ↔
      ∃ r s' s'', W.answers c s r s' ∧ W.rely s' s'' ∧ Ends W (next r) s'' b t := by
  constructor
  · intro ended
    cases ended with
    | call answer others later => exact ⟨_, _, _, answer, others, later⟩
  · rintro ⟨r, s', s'', answer, others, later⟩
    exact .call answer others later

/-- A sequence returns through its first part. -/
theorem ends_bind {p : Prog Call Reply ε α} {f : α → Prog Call Reply ε β} {b : β} :
    Ends W (p >>= f) s b t ↔ ∃ a u, Ends W p s a u ∧ Ends W (f a) u b t := by
  induction p generalizing s with
  | ret a =>
    constructor
    · exact fun ended => ⟨a, s, .refl _ _, ended⟩
    · rintro ⟨a', u, first, rest⟩
      obtain ⟨rfl, rfl⟩ := ends_ret.mp first
      exact rest
  | fail e =>
    constructor
    · exact fun ended => (not_ends_fail ended).elim
    · rintro ⟨a, u, first, -⟩
      exact (not_ends_fail first).elim
  | call c next ih =>
    constructor
    · intro ended
      obtain ⟨r, s', s'', answer, others, later⟩ := ends_call.mp ended
      obtain ⟨a, u, first, rest⟩ := (ih r).mp later
      exact ⟨a, u, .call answer others first, rest⟩
    · rintro ⟨a, u, first, rest⟩
      obtain ⟨r, s', s'', answer, others, later⟩ := ends_call.mp first
      exact ends_call.mpr ⟨r, s', s'', answer, others, (ih r).mpr ⟨a, u, later, rest⟩⟩

/-- A caught program succeeds as the program itself does. -/
theorem ends_attempt_ok {p : Prog Call Reply ε α} {a : α} :
    Ends W p.attempt s (.ok a) t ↔ Ends W p s a t := by
  induction p generalizing s with
  | ret b => simp [Prog.attempt]
  | fail e => simp [Prog.attempt]
  | call c next ih => simp only [Prog.attempt, ends_call, ih]

end Ends

namespace Reaches

variable {p q r : Prog Call Reply ε α} {s t u : σ}

/-- An execution stays in what its calls and the others keep. -/
theorem keeps {P : σ → Prop} {allowed : Call → Prop} (stable : W.Stable P)
    (kept : ∀ c s r t, allowed c → P s → W.answers c s r t → P t)
    (uses : p.Uses allowed) (reached : Reaches W p s q t) (now : P s) : P t := by
  induction reached with
  | refl p s => exact now
  | call answer others _ ih =>
    exact ih (uses.2 _) (stable _ _ (kept _ _ _ _ uses.1 now answer) others)

end Reaches

namespace Executing

variable {permits : σ → Call → Prop} {Q : α → σ → Prop} {p q : Prog Call Reply ε α} {s t : σ}

theorem reaches (executing : Executing W permits p Q s) (reached : Reaches W p s q t) :
    Executing W permits q Q t := by
  induction reached with
  | refl p s => exact executing
  | call answer others _ ih => exact ih ((executing.answered answer).interfered others)

/-- What the permitted calls and the others keep holds wherever an execution stands. -/
theorem keeps {I : σ → Prop} (stable : W.Stable I)
    (kept : ∀ c s r t, permits s c → I s → W.answers c s r t → I t)
    (executing : Executing W permits p Q s) (reached : Reaches W p s q t) (now : I s) : I t := by
  induction reached with
  | refl p s => exact now
  | call answer others _ ih =>
    exact ih ((executing.answered answer).interfered others)
      (stable _ _ (kept _ _ _ _ executing.permitted now answer) others)

end Executing

/-! ### Programs over the calls of another level -/

namespace Prog

variable {Call' : Type} {Reply' : Call' → Type} {ε' : Type}

/-- Serves each call of a program by a program over other calls. -/
def interpret (handler : (c : Call) → Prog Call' Reply' ε' (Reply c)) (failure : ε → ε') :
    Prog Call Reply ε α → Prog Call' Reply' ε' α
  | ret a => ret a
  | fail e => fail (failure e)
  | call c next => handler c >>= fun r => (next r).interpret handler failure

theorem Uses.interpret {handler : (c : Call) → Prog Call' Reply' ε' (Reply c)} {failure : ε → ε'}
    {allowed : Call → Prop} {wider : Call' → Prop} {p : Prog Call Reply ε α}
    (uses : p.Uses allowed) (handles : ∀ c, allowed c → (handler c).Uses wider) :
    (p.interpret handler failure).Uses wider := by
  induction p with
  | ret a => trivial
  | fail e => trivial
  | call c next ih => exact (handles c uses.1).bind fun r => ih r (uses.2 r)

end Prog

/-! ### Executions that are served at once -/

/-- A state that answers each call at once, in a world where others may do nothing, executes a
program to its end. -/
theorem ends_runOn {respond : (c : Call) → σ → Reply c × σ}
    (answers : ∀ c s, W.answers c s (respond c s).1 (respond c s).2) (idle : ∀ s, W.rely s s)
    {p : Prog Call Reply ε α} {s : σ} {a : α} (succeeded : (p.runOn respond s).1 = .ok a) :
    Ends W p s a (p.runOn respond s).2 := by
  induction p generalizing s with
  | ret b =>
    cases succeeded
    exact .refl _ _
  | fail e => cases succeeded
  | call c next ih => exact .call (answers c s) (idle _) (ih _ succeeded)

end Program
