import Mathlib.Data.List.Lex
import Mathlib.Algebra.Group.Nat.Defs
import Mathlib.Order.Lattice

/-!
# Numerals of fixed width

Numerals in a positional system, padded with zeros to a fixed width: in the lexicographic
order they stand as their numbers do.
-/

namespace Numeral

variable {α : Type}

/-- The `width` last digits of a number in base `b`, the most significant one first. -/
def fixed (digit : Nat → α) (b : Nat) : Nat → Nat → List α
  | 0, _ => []
  | width + 1, n => fixed digit b width (n / b) ++ [digit (n % b)]

@[simp] theorem length_fixed (digit : Nat → α) (b width n : Nat) :
    (fixed digit b width n).length = width := by
  induction width generalizing n with
  | zero => rfl
  | succ width ih => simp [fixed, ih]

theorem fixed_zero (digit : Nat → α) (b width : Nat) :
    fixed digit b width 0 = List.replicate width (digit 0) := by
  induction width with
  | zero => rfl
  | succ width ih => rw [fixed, Nat.zero_div, ih, Nat.zero_mod, List.replicate_succ']

theorem mem_fixed {digit : Nat → α} {b width n : Nat} {x : α} (base : 0 < b)
    (member : x ∈ fixed digit b width n) : ∃ d < b, x = digit d := by
  induction width generalizing n with
  | zero => cases member
  | succ width ih =>
    rcases List.mem_append.mp member with earlier | last
    · exact ih earlier
    · exact ⟨n % b, Nat.mod_lt _ base, List.mem_singleton.mp last⟩

theorem toDigits_injective : Function.Injective (Nat.toDigits 10) := by
  intro m n same
  have number := congrArg (Nat.ofDigitChars 10 · 0) same
  rwa [Nat.ofDigitChars_ten_toDigits, Nat.ofDigitChars_ten_toDigits] at number

/-- A numeral that fits into the width, padded with zeros. -/
theorem leftpad_toDigits {b width n : Nat} (base : 1 < b) (fits : n < b ^ (width + 1)) :
    (Nat.toDigits b n).leftpad (width + 1) '0' = fixed Nat.digitChar b (width + 1) n := by
  induction width generalizing n with
  | zero =>
    have small : n < b := by simpa using fits
    simp [List.leftpad, Nat.toDigits_of_lt_base small, fixed, Nat.mod_eq_of_lt small]
  | succ width ih =>
    by_cases small : n < b
    · rw [fixed, Nat.div_eq_of_lt small, Nat.mod_eq_of_lt small, fixed_zero, List.leftpad,
        Nat.toDigits_of_lt_base small]
      rfl
    · -- The last digit comes off and the padding stays the same.
      have shorter : n / b < b ^ (width + 1) :=
        Nat.div_lt_of_lt_mul (by rwa [Nat.pow_succ'] at fits)
      rw [fixed, ← ih shorter, Nat.toDigits_of_base_le base (not_lt.mp small)]
      simp [List.leftpad, List.append_assoc]

/-! ### The order of numerals -/

theorem append_lt_append_of_length [LinearOrder α] {l l' k k' : List α}
    (same : l.length = l'.length) (less : l < l') : l ++ k < l' ++ k' := by
  induction l generalizing l' with
  | nil =>
    rw [List.eq_nil_of_length_eq_zero same.symm] at less
    exact absurd less (lt_irrefl _)
  | cons x rest ih =>
    cases l' with
    | nil => cases same
    | cons y rest' =>
      rw [List.cons_append, List.cons_append, List.cons_lt_cons_iff]
      rcases List.cons_lt_cons_iff.mp less with first | ⟨equal, later⟩
      · exact .inl first
      · exact .inr ⟨equal, ih (Nat.succ.inj same) later⟩

theorem append_lt_append_left [LT α] (pre : List α) {l l' : List α} (less : l < l') :
    pre ++ l < pre ++ l' := List.Lex.append_left _ less pre

variable [LinearOrder α] {digit : Nat → α} {b : Nat}

/-- Numerals of one width are ordered as their numbers. -/
theorem fixed_lt_fixed (digits : ∀ m n, m < n → n < b → digit m < digit n) {width m n : Nat}
    (less : m < n) (fits : n < b ^ width) : fixed digit b width m < fixed digit b width n := by
  induction width generalizing m n with
  | zero =>
    have : n = 0 := by simpa using fits
    omega
  | succ width ih =>
    have shorter : n / b < b ^ width := Nat.div_lt_of_lt_mul (by rwa [Nat.pow_succ'] at fits)
    rcases Nat.lt_or_eq_of_le (Nat.div_le_div_right less.le : m / b ≤ n / b) with first | equal
    · exact append_lt_append_of_length (by simp) (ih first shorter)
    · -- The leading digits agree, so the last one decides.
      have positive : 0 < b := by
        rcases Nat.eq_zero_or_pos b with rfl | positive
        · simp at fits
        · exact positive
      have last : m % b < n % b := by
        have split := Nat.div_add_mod m b
        have split' := Nat.div_add_mod n b
        rw [equal] at split
        omega
      rw [fixed, fixed, equal]
      exact append_lt_append_left _ (.rel (digits _ _ last (Nat.mod_lt _ positive)))

end Numeral
