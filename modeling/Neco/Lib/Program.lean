import Mathlib.Logic.Basic
import Mathlib.Tactic.Choose
import Mathlib.Data.List.Nodup

/-!
# Programs that call their environment

A program returns, fails, or makes a call and goes on with the reply. Between two calls
other parties may change the state, so a program is described by assertions that the
others keep: `Conforms` says that every call is made in a state that permits it, and
`Running` is what remains true of a program that has been interrupted.
-/

namespace Program

/-- A program over the calls `Call`, whose replies have the types `Reply`. -/
inductive Prog (Call : Type) (Reply : Call → Type) (ε α : Type)
  | ret (a : α)
  | fail (e : ε)
  | call (c : Call) (next : Reply c → Prog Call Reply ε α)

variable {Call : Type} {Reply : Call → Type} {ε α β σ : Type}

namespace Prog

def bind : Prog Call Reply ε α → (α → Prog Call Reply ε β) → Prog Call Reply ε β
  | ret a, f => f a
  | fail e, _ => fail e
  | call c next, f => call c fun r => (next r).bind f

instance : Monad (Prog Call Reply ε) where
  pure := ret
  bind := bind

/-- Makes one call and returns its reply. -/
def ask (c : Call) : Prog Call Reply ε (Reply c) := call c ret

@[simp] theorem pure_eq (a : α) : (pure a : Prog Call Reply ε α) = ret a := rfl

@[simp] theorem ret_bind (a : α) (f : α → Prog Call Reply ε β) : ret a >>= f = f a := rfl

@[simp] theorem fail_bind (e : ε) (f : α → Prog Call Reply ε β) : fail e >>= f = fail e := rfl

@[simp] theorem call_bind (c : Call) (next : Reply c → Prog Call Reply ε α)
    (f : α → Prog Call Reply ε β) : call c next >>= f = call c fun r => next r >>= f := rfl

@[simp] theorem ask_bind (c : Call) (f : Reply c → Prog Call Reply ε β) :
    ask c >>= f = call c f := rfl

@[simp] theorem bind_ret (p : Prog Call Reply ε α) : p >>= ret = p := by
  induction p with
  | ret a => rfl
  | fail e => rfl
  | call c next ih => simp only [call_bind, ih]

theorem bind_assoc {γ : Type} (p : Prog Call Reply ε α) (f : α → Prog Call Reply ε β)
    (g : β → Prog Call Reply ε γ) : p >>= f >>= g = p >>= fun a => f a >>= g := by
  induction p with
  | ret a => rfl
  | fail e => rfl
  | call c next ih => simp only [call_bind, ih]

instance : LawfulMonad (Prog Call Reply ε) := LawfulMonad.mk' _ bind_ret (fun _ _ => rfl) bind_assoc

/-- A sequence returns only through its first part. -/
theorem bind_ne_ret {p : Prog Call Reply ε α} (unfinished : ∀ a, p ≠ ret a)
    (f : α → Prog Call Reply ε β) (b : β) : p >>= f ≠ ret b := by
  intro ended
  cases p with
  | ret a => exact unfinished a rfl
  | fail e => cases ended
  | call c next => cases ended

/-- Every call that the program can make is allowed. -/
def Uses (allowed : Call → Prop) : Prog Call Reply ε α → Prop
  | ret _ => True
  | fail _ => True
  | call c next => allowed c ∧ ∀ r, (next r).Uses allowed

/-- The call that the program makes next. -/
def upcoming : Prog Call Reply ε α → Option Call
  | call c _ => some c
  | _ => none

/-- The program can return `a`, for some replies to its calls. -/
def Returns : Prog Call Reply ε α → α → Prop
  | ret b, a => a = b
  | fail _, _ => False
  | call _ next, a => ∃ r, (next r).Returns a

/-- The calls that the program makes when each is answered by `answer`. -/
def trace (answer : (c : Call) → Reply c) : Prog Call Reply ε α → List Call
  | ret _ => []
  | fail _ => []
  | call c next => c :: (next (answer c)).trace answer

/-- What a program without failures returns when each call is answered by `answer`. -/
def eval (answer : (c : Call) → Reply c) : Prog Call Reply Empty α → α
  | ret a => a
  | fail e => e.elim
  | call c next => (next (answer c)).eval answer

/-- How a program ends when each call is answered by `answer`. -/
def outcome (answer : (c : Call) → Reply c) : Prog Call Reply ε α → Except ε α
  | ret a => .ok a
  | fail e => .error e
  | call c next => (next (answer c)).outcome answer

/-- The program makes at most `n` calls, whatever the replies. -/
def Within : Nat → Prog Call Reply ε α → Prop
  | _, ret _ => True
  | _, fail _ => True
  | 0, call _ _ => False
  | n + 1, call _ next => ∀ r, (next r).Within n

section Uses

variable {allowed : Call → Prop}

theorem Uses.bind {p : Prog Call Reply ε α} {f : α → Prog Call Reply ε β}
    (first : p.Uses allowed) (rest : ∀ a, (f a).Uses allowed) : (p >>= f).Uses allowed := by
  induction p with
  | ret a => exact rest a
  | fail e => trivial
  | call c next ih => exact ⟨first.1, fun r => ih r (first.2 r)⟩

theorem Uses.mono {wider : Call → Prop} {p : Prog Call Reply ε α} (uses : p.Uses allowed)
    (allows : ∀ c, allowed c → wider c) : p.Uses wider := by
  induction p with
  | ret a => trivial
  | fail e => trivial
  | call c next ih => exact ⟨allows c uses.1, fun r => ih r (uses.2 r)⟩

theorem Uses.foldlM {f : β → α → Prog Call Reply ε β} (xs : List α)
    (body : ∀ b x, x ∈ xs → (f b x).Uses allowed) :
    ∀ b, (xs.foldlM f b).Uses allowed := by
  induction xs with
  | nil => exact fun _ => trivial
  | cons x rest ih =>
    intro b
    rw [List.foldlM_cons]
    exact (body b x (List.mem_cons_self ..)).bind
      (ih fun b y member => body b y (List.mem_cons_of_mem x member))

theorem Uses.forM {f : α → Prog Call Reply ε PUnit} (xs : List α)
    (body : ∀ x ∈ xs, (f x).Uses allowed) : (xs.forM f).Uses allowed := by
  induction xs with
  | nil => trivial
  | cons x rest ih =>
    exact (body x (List.mem_cons_self ..)).bind fun _ =>
      ih fun y member => body y (List.mem_cons_of_mem x member)

theorem Uses.anyM {f : α → Prog Call Reply ε Bool} (xs : List α)
    (body : ∀ x, (f x).Uses allowed) : (xs.anyM f).Uses allowed := by
  induction xs with
  | nil => trivial
  | cons x rest ih =>
    refine (body x).bind fun found => ?_
    cases found with
    | true => trivial
    | false => exact ih

theorem Uses.mem_trace {p : Prog Call Reply ε α} (uses : p.Uses allowed)
    {answer : (c : Call) → Reply c} {c : Call} (made : c ∈ p.trace answer) : allowed c := by
  induction p with
  | ret a => cases made
  | fail e => cases made
  | call c' next ih =>
    rcases List.mem_cons.mp made with rfl | later
    · exact uses.1
    · exact ih _ (uses.2 _) later

end Uses

theorem returns_bind {p : Prog Call Reply ε α} {f : α → Prog Call Reply ε β} {b : β} :
    (p >>= f).Returns b ↔ ∃ a, p.Returns a ∧ (f a).Returns b := by
  induction p with
  | ret a => simp [Returns]
  | fail e => simp [Returns]
  | call c next ih =>
    simp only [call_bind, Returns, ih]
    constructor
    · rintro ⟨r, a, first, rest⟩
      exact ⟨a, ⟨r, first⟩, rest⟩
    · rintro ⟨a, ⟨r, first⟩, rest⟩
      exact ⟨r, a, first, rest⟩

@[simp] theorem returns_ret {a b : α} :
    (ret b : Prog Call Reply ε α).Returns a ↔ a = b := Iff.rfl

/-- A loop that returns keeps a relation between what it has read and its accumulator. -/
theorem returns_foldlM {f : β → α → Prog Call Reply ε β} (I : List α → β → Prop)
    (body : ∀ done x b b', I done b → (f b x).Returns b' → I (done ++ [x]) b') (xs : List α) :
    ∀ done b b', I done b → (xs.foldlM f b).Returns b' → I (done ++ xs) b' := by
  induction xs with
  | nil =>
    intro done b b' holds returned
    rw [List.append_nil]
    cases returned
    exact holds
  | cons x rest ih =>
    intro done b b' holds returned
    rw [List.foldlM_cons, returns_bind] at returned
    obtain ⟨mid, first, later⟩ := returned
    rw [List.append_cons]
    exact ih _ mid b' (body done x b mid holds first) later

/-! ### Answered programs -/

section Answered

variable {answer : (c : Call) → Reply c}

@[simp] theorem eval_ret (a : α) : (ret a : Prog Call Reply Empty α).eval answer = a := rfl

@[simp] theorem eval_call (c : Call) (next : Reply c → Prog Call Reply Empty α) :
    (call c next).eval answer = (next (answer c)).eval answer := rfl

@[simp] theorem trace_ret (a : α) : (ret a : Prog Call Reply ε α).trace answer = [] := rfl

@[simp] theorem trace_call (c : Call) (next : Reply c → Prog Call Reply ε α) :
    (call c next).trace answer = c :: (next (answer c)).trace answer := rfl

@[simp] theorem outcome_ret (a : α) : (ret a : Prog Call Reply ε α).outcome answer = .ok a := rfl

@[simp] theorem outcome_call (c : Call) (next : Reply c → Prog Call Reply ε α) :
    (call c next).outcome answer = (next (answer c)).outcome answer := rfl

@[simp] theorem outcome_bind (p : Prog Call Reply ε α) (f : α → Prog Call Reply ε β) :
    (p >>= f).outcome answer = p.outcome answer >>= fun a => (f a).outcome answer := by
  induction p with
  | ret a => rfl
  | fail e => rfl
  | call c next ih => exact ih (answer c)

theorem outcome_anyM {f : α → Prog Call Reply ε Bool} {test : α → Bool}
    (tested : ∀ x, (f x).outcome answer = .ok (test x)) (l : List α) :
    (l.anyM f).outcome answer = .ok (l.any test) := by
  induction l with
  | nil => rfl
  | cons x rest ih =>
    rw [List.anyM, outcome_bind, tested, List.any_cons]
    cases test x with
    | true => rfl
    | false => exact ih

theorem outcome_foldlM {f : β → α → Prog Call Reply ε β} {step : β → α → β}
    (stepped : ∀ b x, (f b x).outcome answer = .ok (step b x)) (l : List α) (b : β) :
    (l.foldlM f b).outcome answer = .ok (l.foldl step b) := by
  induction l generalizing b with
  | nil => rfl
  | cons x rest ih =>
    rw [List.foldlM_cons, outcome_bind, stepped]
    exact ih (step b x)

@[simp] theorem eval_bind (p : Prog Call Reply Empty α) (f : α → Prog Call Reply Empty β) :
    (p >>= f).eval answer = (f (p.eval answer)).eval answer := by
  induction p with
  | ret a => rfl
  | fail e => exact e.elim
  | call c next ih => exact ih (answer c)

@[simp] theorem trace_bind (p : Prog Call Reply Empty α) (f : α → Prog Call Reply Empty β) :
    (p >>= f).trace answer = p.trace answer ++ (f (p.eval answer)).trace answer := by
  induction p with
  | ret a => rfl
  | fail e => exact e.elim
  | call c next ih => exact congrArg (c :: ·) (ih (answer c))

theorem eval_mapM (f : α → Prog Call Reply Empty β) (l : List α) :
    (l.mapM f).eval answer = l.map fun x => (f x).eval answer := by
  induction l with
  | nil => rfl
  | cons x rest ih => simp [List.mapM_cons, ih]

theorem trace_mapM (f : α → Prog Call Reply Empty β) (l : List α) :
    (l.mapM f).trace answer = l.flatMap fun x => (f x).trace answer := by
  induction l with
  | nil => rfl
  | cons x rest ih => simp [List.mapM_cons, ih]

theorem eval_foldlM (f : β → α → Prog Call Reply Empty β) (l : List α) (b : β) :
    (l.foldlM f b).eval answer = l.foldl (fun b x => (f b x).eval answer) b := by
  induction l generalizing b with
  | nil => rfl
  | cons x rest ih => simp [List.foldlM_cons, ih]

/-- The calls of an iteration are made one after another. -/
theorem trace_sublist_foldlM (answer : (c : Call) → Reply c)
    (f : β → α → Prog Call Reply Empty β) (done rest : List α) (x : α) (b : β) :
    ((f (done.foldl (fun b x => (f b x).eval answer) b) x).trace answer).Sublist
      (((done ++ x :: rest).foldlM f b).trace answer) := by
  rw [List.foldlM_append, trace_bind, List.foldlM_cons, trace_bind, eval_foldlM]
  exact (List.sublist_append_left ..).trans (List.sublist_append_right ..)

/-- A call of a loop is made by one of its iterations. -/
theorem mem_trace_foldlM {f : β → α → Prog Call Reply Empty β} {l : List α} {b : β} {c : Call} :
    c ∈ (l.foldlM f b).trace answer ↔ ∃ done x rest, l = done ++ x :: rest ∧
      c ∈ (f (done.foldl (fun b x => (f b x).eval answer) b) x).trace answer := by
  constructor
  · intro member
    induction l generalizing b with
    | nil => cases member
    | cons x rest ih =>
      rw [List.foldlM_cons, trace_bind, List.mem_append] at member
      rcases member with first | later
      · exact ⟨[], x, rest, rfl, first⟩
      · obtain ⟨done, y, rest', rfl, here⟩ := ih later
        exact ⟨x :: done, y, rest', rfl, here⟩
  · rintro ⟨done, x, rest, rfl, here⟩
    exact (trace_sublist_foldlM answer f done rest x b).subset here

end Answered

/-! ### Programs that are served at once -/

/-- Runs a program against a state that answers each call at once. -/
def runOn (respond : (c : Call) → σ → Reply c × σ) : Prog Call Reply ε α → σ → Except ε α × σ
  | ret a, s => (.ok a, s)
  | fail e, s => (.error e, s)
  | call c next, s => (next (respond c s).1).runOn respond (respond c s).2

/-- The run of the program passes through the state `t`, before, between or after its calls. -/
def Passes (respond : (c : Call) → σ → Reply c × σ) : Prog Call Reply ε α → σ → σ → Prop
  | ret _, s, t => t = s
  | fail _, s, t => t = s
  | call c next, s, t => t = s ∨ (next (respond c s).1).Passes respond (respond c s).2 t

/-- Goes on after a failure, which becomes the result. -/
def attempt : Prog Call Reply ε α → Prog Call Reply ε (Except ε α)
  | ret a => ret (.ok a)
  | fail e => ret (.error e)
  | call c next => call c fun r => (next r).attempt

section Served

variable {respond : (c : Call) → σ → Reply c × σ} {s t : σ}

theorem runOn_bind {p : Prog Call Reply ε α} {f : α → Prog Call Reply ε β} {a : α}
    (first : p.runOn respond s = (.ok a, t)) :
    (p >>= f).runOn respond s = (f a).runOn respond t := by
  induction p generalizing s with
  | ret b =>
    cases first
    rfl
  | fail e => cases first
  | call c next ih => exact ih _ first

theorem runOn_attempt (p : Prog Call Reply ε α) :
    p.attempt.runOn respond s = (.ok (p.runOn respond s).1, (p.runOn respond s).2) := by
  induction p generalizing s with
  | ret a => rfl
  | fail e => rfl
  | call c next ih => exact ih _

theorem passes_attempt {p : Prog Call Reply ε α} :
    p.attempt.Passes respond s t ↔ p.Passes respond s t := by
  induction p generalizing s with
  | ret a => exact Iff.rfl
  | fail e => exact Iff.rfl
  | call c next ih => exact or_congr Iff.rfl (ih _)

theorem passes_start (p : Prog Call Reply ε α) (s : σ) : p.Passes respond s s := by
  cases p with
  | ret a => rfl
  | fail e => rfl
  | call c next => exact .inl rfl

theorem passes_end (p : Prog Call Reply ε α) (s : σ) :
    p.Passes respond s (p.runOn respond s).2 := by
  induction p generalizing s with
  | ret a => rfl
  | fail e => rfl
  | call c next ih => exact .inr (ih _ _)

theorem Passes.left {p : Prog Call Reply ε α} (passes : p.Passes respond s t)
    (f : α → Prog Call Reply ε β) : (p >>= f).Passes respond s t := by
  induction p generalizing s with
  | ret a =>
    cases passes
    exact passes_start (f a) _
  | fail e => exact passes
  | call c next ih => exact passes.imp id (ih _)

/-- A run of a sequence passes through the states of its first part, then of its second. -/
theorem passes_bind {p : Prog Call Reply ε α} {f : α → Prog Call Reply ε β}
    (passes : (p >>= f).Passes respond s t) :
    p.Passes respond s t ∨
      ∃ a, (p.runOn respond s).1 = .ok a ∧ (f a).Passes respond (p.runOn respond s).2 t := by
  induction p generalizing s with
  | ret a => exact .inr ⟨a, rfl, passes⟩
  | fail e => exact .inl passes
  | call c next ih =>
    rcases passes with here | later
    · exact .inl (.inl here)
    · exact (ih _ later).imp .inr id

end Served

/-! ### Runs with their replies -/

/-- The program makes the calls of `t`, gets the replies beside them, and is then `q`. -/
inductive Steps : Prog Call Reply ε α → List ((c : Call) × Reply c) → Prog Call Reply ε α → Prop
  | refl (p : Prog Call Reply ε α) : Steps p [] p
  | call {c : Call} {next : Reply c → Prog Call Reply ε α} {r : Reply c}
      {t : List ((c : Call) × Reply c)} {q : Prog Call Reply ε α} (later : Steps (next r) t q) :
      Steps (.call c next) (⟨c, r⟩ :: t) q

/-- The calls that the program makes, with their replies, when each is answered by `answer`. -/
def exchanges (answer : (c : Call) → Reply c) :
    Prog Call Reply ε α → List ((c : Call) × Reply c)
  | ret _ => []
  | fail _ => []
  | call c next => ⟨c, answer c⟩ :: (next (answer c)).exchanges answer

/-- A program that has ended. -/
def ended : Except ε α → Prog Call Reply ε α
  | .ok a => ret a
  | .error e => fail e

section Steps

variable {t t' : List ((c : Call) × Reply c)}

theorem steps_exchanges (answer : (c : Call) → Reply c) (p : Prog Call Reply ε α) :
    Steps p (p.exchanges answer) (ended (p.outcome answer)) := by
  induction p with
  | ret a => exact .refl _
  | fail e => exact .refl _
  | call c next ih => exact .call (ih (answer c))

theorem Steps.append {p q r : Prog Call Reply ε α} (first : Steps p t q) (later : Steps q t' r) :
    Steps p (t ++ t') r := by
  induction first with
  | refl p => exact later
  | call _ ih => exact .call (ih later)

theorem Steps.bind {p q : Prog Call Reply ε α} (steps : Steps p t q)
    (f : α → Prog Call Reply ε β) : Steps (p >>= f) t (q >>= f) := by
  induction steps with
  | refl p => exact .refl _
  | call _ ih => exact .call ih

/-- Runs follow the replies: a run that begins as one to `q` goes on from `q`. -/
theorem Steps.rest {p q r : Prog Call Reply ε α} (first : Steps p t q)
    (whole : Steps p (t ++ t') r) : Steps q t' r := by
  induction first with
  | refl p => exact whole
  | call _ ih =>
    cases whole with
    | call later => exact ih later

/-- A run of a sequence is a run of its first part, or goes through its end. -/
theorem Steps.bind_cases {p : Prog Call Reply ε α} {f : α → Prog Call Reply ε β}
    {q : Prog Call Reply ε β} (steps : Steps (p >>= f) t q) :
    (∃ t₁ t₂ a, t = t₁ ++ t₂ ∧ Steps p t₁ (ret a) ∧ Steps (f a) t₂ q) ∨
      ∃ p', Steps p t p' ∧ q = p' >>= f ∧ ∀ a, p' ≠ ret a := by
  induction p generalizing t with
  | ret a => exact .inl ⟨[], t, a, rfl, .refl _, steps⟩
  | fail e =>
    cases steps with
    | refl => exact .inr ⟨fail e, .refl _, rfl, fun a same => by cases same⟩
  | call c next ih =>
    cases steps with
    | refl => exact .inr ⟨.call c next, .refl _, rfl, fun a same => by cases same⟩
    | @call _ _ r t q later =>
      rcases ih r later with ⟨t₁, t₂, a, rfl, first, rest⟩ | ⟨p', first, rfl, unfinished⟩
      · exact .inl ⟨⟨c, r⟩ :: t₁, t₂, a, rfl, .call first, rest⟩
      · exact .inr ⟨p', .call first, rfl, unfinished⟩

theorem Uses.mem_steps {allowed : Call → Prop} {p q : Prog Call Reply ε α}
    (uses : p.Uses allowed) (steps : Steps p t q) {x : (c : Call) × Reply c} (made : x ∈ t) :
    allowed x.1 := by
  induction steps with
  | refl p => cases made
  | call later ih =>
    rcases List.mem_cons.mp made with rfl | there
    · exact uses.1
    · exact ih (uses.2 _) there

end Steps

theorem Within.mono {m n : Nat} {p : Prog Call Reply ε α} (within : p.Within m) (le : m ≤ n) :
    p.Within n := by
  induction p generalizing m n with
  | ret a => cases n <;> trivial
  | fail e => cases n <;> trivial
  | call c next ih =>
    cases m with
    | zero => exact within.elim
    | succ m =>
      obtain ⟨n, rfl⟩ : ∃ k, n = k + 1 := ⟨n - 1, by omega⟩
      exact fun r => ih r (within r) (by omega)

theorem Within.bind {m n : Nat} {p : Prog Call Reply ε α} {f : α → Prog Call Reply ε β}
    (first : p.Within m) (rest : ∀ a, (f a).Within n) : (p >>= f).Within (m + n) := by
  induction p generalizing m with
  | ret a => exact (rest a).mono (by omega)
  | fail e => cases m + n <;> trivial
  | call c next ih =>
    cases m with
    | zero => exact first.elim
    | succ m =>
      rw [Nat.succ_add]
      exact fun r => ih r (first r)

end Prog

/-! ### Assertions that the others keep -/

/-- What a program is placed in: how the environment completes a call, and what the
other parties may do to the state at any time. -/
structure World (Call : Type) (Reply : Call → Type) (σ : Type) where
  answers : (c : Call) → σ → Reply c → σ → Prop
  rely : σ → σ → Prop

variable {W : World Call Reply σ} {permits : σ → Call → Prop}

/-- The other parties keep `P`. -/
def World.Stable (W : World Call Reply σ) (P : σ → Prop) : Prop :=
  ∀ s t, P s → W.rely s t → P t

/-- From `P` on, the program makes its calls only in states that permit them and returns
only in states of `Q`, whatever the others do in between. -/
def Conforms (W : World Call Reply σ) (permits : σ → Call → Prop) :
    Prog Call Reply ε α → (σ → Prop) → (α → σ → Prop) → Prop
  | .ret a, P, Q => ∀ s, P s → Q a s
  | .fail _, _, _ => True
  | .call c next, P, Q => (∀ s, P s → permits s c) ∧ ∀ r, ∃ P' : σ → Prop,
      W.Stable P' ∧ (∀ s t, P s → W.answers c s r t → P' t) ∧ Conforms W permits (next r) P' Q

namespace Conforms

variable {P P' : σ → Prop}

theorem mono {p : Prog Call Reply ε α} {Q Q' : α → σ → Prop} (conforms : Conforms W permits p P Q)
    (before : ∀ s, P' s → P s) (after : ∀ a s, Q a s → Q' a s) : Conforms W permits p P' Q' := by
  induction p generalizing P P' with
  | ret a => exact fun s holds => after a s (conforms s (before s holds))
  | fail e => trivial
  | call c next ih =>
    refine ⟨fun s holds => conforms.1 s (before s holds), fun r => ?_⟩
    obtain ⟨mid, stable, reached, rest⟩ := conforms.2 r
    exact ⟨mid, stable, fun s t holds answer => reached s t (before s holds) answer,
      ih r rest fun _ holds => holds⟩

theorem bind {p : Prog Call Reply ε α} {f : α → Prog Call Reply ε β} {M : α → σ → Prop}
    {Q : β → σ → Prop} (first : Conforms W permits p P M)
    (rest : ∀ a, Conforms W permits (f a) (M a) Q) : Conforms W permits (p >>= f) P Q := by
  induction p generalizing P with
  | ret a => exact (rest a).mono first fun _ _ holds => holds
  | fail e => trivial
  | call c next ih =>
    refine ⟨first.1, fun r => ?_⟩
    obtain ⟨mid, stable, reached, later⟩ := first.2 r
    exact ⟨mid, stable, reached, ih r later⟩

/-- The rule for one call: its precondition permits it, its postcondition is kept by the
others. -/
theorem call {c : Call} {next : Reply c → Prog Call Reply ε α} {Q : α → σ → Prop}
    (M : Reply c → σ → Prop) (permitted : ∀ s, P s → permits s c)
    (stable : ∀ r, W.Stable (M r)) (reached : ∀ s r t, P s → W.answers c s r t → M r t)
    (rest : ∀ r, Conforms W permits (next r) (M r) Q) :
    Conforms W permits (.call c next) P Q :=
  ⟨permitted, fun r => ⟨M r, stable r, fun s t => reached s r t, rest r⟩⟩

/-- The rule for a loop: an invariant over the elements done so far. -/
theorem foldlM {f : β → α → Prog Call Reply ε β} (I : List α → β → σ → Prop) (xs : List α)
    (body : ∀ done x rest b, xs = done ++ x :: rest →
      Conforms W permits (f b x) (I done b) (I (done ++ [x]))) (b : β) :
    Conforms W permits (xs.foldlM f b) (I [] b) (I xs) := by
  suffices later : ∀ rest done b, xs = done ++ rest →
      Conforms W permits (rest.foldlM f b) (I done b) (I xs) from later xs [] b rfl
  intro rest
  induction rest with
  | nil =>
    intro done b split s holds
    rw [split, List.append_nil]
    exact holds
  | cons x rest ih =>
    intro done b split
    rw [List.foldlM_cons]
    exact (body done x rest b split).bind fun b' => ih (done ++ [x]) b' (by simpa using split)

/-- A precondition may be split into its cases. -/
theorem of_exists {ι : Sort*} {p : Prog Call Reply ε α} {Q : α → σ → Prop} {P : ι → σ → Prop}
    (conforms : ∀ i, Conforms W permits p (P i) Q) :
    Conforms W permits p (fun s => ∃ i, P i s) Q := by
  induction p generalizing P with
  | ret a => exact fun s ⟨i, holds⟩ => conforms i s holds
  | fail e => trivial
  | call c next ih =>
    refine ⟨fun s ⟨i, holds⟩ => (conforms i).1 s holds, fun r => ?_⟩
    choose mid stable reached rest using fun i => (conforms i).2 r
    exact ⟨fun t => ∃ i, mid i t, fun s t ⟨i, holds⟩ others => ⟨i, stable i s t holds others⟩,
      fun s t ⟨i, holds⟩ answer => ⟨i, reached i s t holds answer⟩, ih r rest⟩

theorem of_or {p : Prog Call Reply ε α} {Q : α → σ → Prop} {P' : σ → Prop}
    (left : Conforms W permits p P Q) (right : Conforms W permits p P' Q) :
    Conforms W permits p (fun s => P s ∨ P' s) Q := by
  refine (of_exists (ι := Bool) (P := fun i => if i then P else P') fun i => ?_).mono ?_
    fun _ _ holds => holds
  · cases i with
    | true => exact left
    | false => exact right
  · rintro s (holds | holds)
    · exact ⟨true, holds⟩
    · exact ⟨false, holds⟩

/-- A part of the precondition that does not depend on the state may be assumed. -/
theorem assume {p : Prog Call Reply ε α} {Q : α → σ → Prop} {φ : Prop}
    (conforms : φ → Conforms W permits p P Q) :
    Conforms W permits p (fun s => φ ∧ P s) Q :=
  (of_exists conforms).mono (fun _ holds => ⟨holds.1, holds.2⟩) fun _ _ holds => holds

/-- The rule for a call whose reply is known: only the rest behind this reply matters. -/
theorem callKnown {c : Call} {next : Reply c → Prog Call Reply ε α} {Q : α → σ → Prop} (r : Reply c)
    (permitted : ∀ s, P s → permits s c) (stable : W.Stable P')
    (reached : ∀ s r' t, P s → W.answers c s r' t → r' = r ∧ P' t)
    (rest : Conforms W permits (next r) P' Q) : Conforms W permits (.call c next) P Q := by
  refine call (fun r' s => r' = r ∧ P' s) permitted ?_ reached fun r' => assume fun same => ?_
  · rintro r' s t ⟨same, holds⟩ rely
    exact ⟨same, stable s t holds rely⟩
  · subst same
    exact rest

/-- A program keeps a stable assertion that each of its calls keeps. -/
theorem quiet {quietly : Call → Prop} (stable : W.Stable P)
    (permitted : ∀ s c, quietly c → permits s c)
    (kept : ∀ c s r t, quietly c → P s → W.answers c s r t → P t)
    {p : Prog Call Reply ε α} (uses : p.Uses quietly) :
    Conforms W permits p P fun a s => P s ∧ p.Returns a := by
  induction p with
  | ret a => exact fun s holds => ⟨holds, rfl⟩
  | fail e => trivial
  | call c next ih =>
    refine call (fun _ => P) (fun s _ => permitted s c uses.1) (fun _ => stable)
      (fun s r t holds answer => kept c s r t uses.1 holds answer) fun r => ?_
    exact (ih r (uses.2 r)).mono (fun _ holds => holds) fun a s holds => ⟨holds.1, r, holds.2⟩

/-- The rule for a failure that is caught: `E` holds from the start and each call keeps it. -/
theorem attempt {allowed : Call → Prop} {E : σ → Prop} (stable : W.Stable E)
    (kept : ∀ c s r t, allowed c → E s → permits s c → W.answers c s r t → E t)
    {p : Prog Call Reply ε α} (uses : p.Uses allowed) {Q : α → σ → Prop}
    (conforms : Conforms W permits p P Q) :
    Conforms W permits p.attempt (fun s => P s ∧ E s) fun result s =>
      E s ∧ ∀ a, result = .ok a → Q a s := by
  induction p generalizing P with
  | ret a =>
    rintro s ⟨holds, extra⟩
    exact ⟨extra, fun a' same => Except.ok.inj same ▸ conforms s holds⟩
  | fail e => exact fun s ⟨_, extra⟩ => ⟨extra, fun _ same => by cases same⟩
  | call c next ih =>
    refine ⟨fun s holds => conforms.1 s holds.1, fun r => ?_⟩
    obtain ⟨mid, stableMid, reached, rest⟩ := conforms.2 r
    refine ⟨fun t => mid t ∧ E t, ?_, ?_, ih r (uses.2 r) rest⟩
    · exact fun s t ⟨holds, extra⟩ others => ⟨stableMid s t holds others, stable s t extra others⟩
    · exact fun s t ⟨holds, extra⟩ answer =>
        ⟨reached s t holds answer, kept c s r t uses.1 extra (conforms.1 s holds) answer⟩

end Conforms

/-- A precondition that never holds asks for nothing. -/
theorem Conforms.impossible {p : Prog Call Reply ε α} {Q : α → σ → Prop} :
    Conforms W permits p (fun _ => False) Q := by
  induction p with
  | ret a => exact fun _ never => never.elim
  | fail e => trivial
  | call c next ih =>
    exact ⟨fun _ never => never.elim, fun r => ⟨fun _ => False, fun _ _ never _ => never,
      fun _ _ never _ => never, ih r⟩⟩

/-- A program in the middle of its execution: some assertion holds now, is kept by the
others, and lets the rest of the program conform and return in `Q`. -/
def Executing (W : World Call Reply σ) (permits : σ → Call → Prop) (p : Prog Call Reply ε α)
    (Q : α → σ → Prop) (s : σ) : Prop :=
  ∃ P : σ → Prop, W.Stable P ∧ P s ∧ Conforms W permits p P Q

namespace Executing

variable {Q : α → σ → Prop}

theorem returned {a : α} {s : σ} (executing : Executing W permits (.ret a : Prog Call Reply ε α) Q s) :
    Q a s := by
  obtain ⟨P, _, now, conforms⟩ := executing
  exact conforms s now

theorem permitted {c : Call} {next : Reply c → Prog Call Reply ε α} {s : σ}
    (executing : Executing W permits (.call c next) Q s) : permits s c := by
  obtain ⟨P, _, now, conforms⟩ := executing
  exact conforms.1 s now

theorem answered {c : Call} {next : Reply c → Prog Call Reply ε α} {s t : σ} {r : Reply c}
    (executing : Executing W permits (.call c next) Q s) (answer : W.answers c s r t) :
    Executing W permits (next r) Q t := by
  obtain ⟨P, _, now, conforms⟩ := executing
  obtain ⟨mid, stable, reached, rest⟩ := conforms.2 r
  exact ⟨mid, stable, reached s t now answer, rest⟩

theorem interfered {p : Prog Call Reply ε α} {s t : σ} (executing : Executing W permits p Q s)
    (others : W.rely s t) : Executing W permits p Q t := by
  obtain ⟨P, stable, now, conforms⟩ := executing
  exact ⟨P, stable, stable s t now others, conforms⟩

end Executing

/-- A program in the middle of its execution, whatever it returns. -/
def Running (W : World Call Reply σ) (permits : σ → Call → Prop) (p : Prog Call Reply ε α)
    (s : σ) : Prop :=
  ∃ P : σ → Prop, W.Stable P ∧ P s ∧ Conforms W permits p P fun _ _ => True

namespace Running

theorem permitted {c : Call} {next : Reply c → Prog Call Reply ε α} {s : σ}
    (running : Running W permits (.call c next) s) : permits s c :=
  Executing.permitted running

theorem answered {c : Call} {next : Reply c → Prog Call Reply ε α} {s t : σ} {r : Reply c}
    (running : Running W permits (.call c next) s) (answer : W.answers c s r t) :
    Running W permits (next r) t :=
  Executing.answered running answer

theorem interfered {p : Prog Call Reply ε α} {s t : σ} (running : Running W permits p s)
    (others : W.rely s t) : Running W permits p t :=
  Executing.interfered running others

end Running
end Program
