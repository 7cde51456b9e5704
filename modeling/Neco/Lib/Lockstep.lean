import Mathlib.Data.Finset.Basic
import Mathlib.Data.List.Induction
import Mathlib.Data.List.Nodup

/-!
# Lockstep logs

The order in which the parties of a barrier arrive at its levels 1, 2, 3, ...
An arrival `(a, l)` is appended only when `a` has not arrived at `l` before and
every member has arrived at the level below. Everything a reader of such a log
can rely on follows from this one rule: a prefix in which some member is missing
at level `s` contains no arrival above `s`.

A party that takes part reads the log from its beginning and keeps the set of
members it has not seen at its level. `Reader` relates it to the log while it
waits, `Passed` from the moment it has seen everybody until it arrives itself at
the next level.
-/

namespace Lockstep

variable {α : Type}

/-- Logs in which nobody arrives twice at a level or overtakes a member by a level. -/
inductive Log (members : List α) : List (α × Nat) → Prop
  | nil : Log members []
  | arrive {log : List (α × Nat)} {a : α} {l : Nat} :
      Log members log → a ∈ members → 1 ≤ l → (a, l) ∉ log →
      (∀ b ∈ members, 1 < l → (b, l - 1) ∈ log) → Log members (log ++ [(a, l)])

variable {members : List α}

theorem Log.nodup {log : List (α × Nat)} (h : Log members log) : log.Nodup := by
  induction h with
  | nil => exact List.nodup_nil
  | arrive _ _ _ fresh _ ih =>
    rw [List.nodup_append]
    refine ⟨ih, List.nodup_singleton _, ?_⟩
    intro x hx y hy equal
    rw [List.mem_singleton] at hy
    subst hy equal
    exact fresh hx

theorem Log.mem_members {log : List (α × Nat)} (h : Log members log) {a : α} {l : Nat}
    (arrived : (a, l) ∈ log) : a ∈ members ∧ 1 ≤ l := by
  induction h with
  | nil => cases arrived
  | arrive _ member positive _ _ ih =>
    rcases List.mem_append.mp arrived with old | new
    · exact ih old
    · rw [List.mem_singleton] at new
      cases new
      exact ⟨member, positive⟩

/-- Whoever has arrived at a level has been preceded by everybody at all levels below. -/
theorem Log.mem_below {log : List (α × Nat)} (h : Log members log) {a b : α} {l : Nat}
    (arrived : (a, l) ∈ log) (member : b ∈ members) :
    ∀ k, 1 ≤ k → k < l → (b, k) ∈ log := by
  induction h generalizing a b l with
  | nil => cases arrived
  | @arrive log c m _ _ _ _ all ih =>
    intro k positive lower
    rcases List.mem_append.mp arrived with old | new
    · exact List.mem_append_left _ (ih old member k positive lower)
    · rw [List.mem_singleton] at new
      cases new
      have last := all b member (by omega)
      by_cases equal : k = m - 1
      · subst equal
        exact List.mem_append_left _ last
      · exact List.mem_append_left _ (ih last member k positive (by omega))

theorem Log.of_append {xs ys : List (α × Nat)} (h : Log members (xs ++ ys)) :
    Log members xs := by
  induction ys using List.reverseRecOn with
  | nil => simpa using h
  | append_singleton ys y ih =>
    rw [← List.append_assoc] at h
    generalize built : xs ++ ys ++ [y] = log at h
    cases h with
    | nil => simp at built
    | arrive before _ _ _ _ =>
      have same := List.append_inj_left' built rfl
      exact ih (same ▸ before)

/-- An arrival splits its log: everything below it lies before it. -/
theorem Log.before {xs ys : List (α × Nat)} {a b : α} {l : Nat}
    (h : Log members (xs ++ (a, l) :: ys)) (member : b ∈ members) :
    ∀ k, 1 ≤ k → k < l → (b, k) ∈ xs := by
  have short : Log members (xs ++ [(a, l)]) := by
    have split : xs ++ (a, l) :: ys = (xs ++ [(a, l)]) ++ ys := by simp
    exact (split ▸ h).of_append
  intro k positive lower
  have present := short.mem_below (List.mem_append_right xs (List.mem_singleton.mpr rfl)) member
    k positive lower
  rcases List.mem_append.mp present with earlier | here
  · exact earlier
  · rw [List.mem_singleton] at here
    cases here
    omega

/-- The next arrival after a prefix that misses a member at level `s` is not above `s`. -/
theorem Log.next_le {xs ys : List (α × Nat)} {a b : α} {l s : Nat}
    (h : Log members (xs ++ (a, l) :: ys)) (member : b ∈ members) (positive : 1 ≤ s)
    (missing : (b, s) ∉ xs) : l ≤ s := by
  by_contra above
  exact missing (h.before member s positive (by omega))

/-- Once everybody has arrived at `s`, later arrivals at or above `s` are above it. -/
theorem Log.later_gt {xs ys : List (α × Nat)} {s : Nat} (h : Log members (xs ++ ys))
    (all : ∀ b ∈ members, (b, s) ∈ xs) {a : α} {l : Nat} (later : (a, l) ∈ ys)
    (above : s ≤ l) : s < l := by
  by_contra equal
  have same : l = s := by omega
  subst same
  have member := (h.mem_members (List.mem_append_right xs later)).1
  have split := (List.nodup_append.mp h.nodup).2.2
  exact split (a, l) (all a member) (a, l) later rfl

/-- A new arrival is not below a level that somebody has reached already. -/
theorem Log.arrival_ge {log : List (α × Nat)} {a b : α} {l s : Nat}
    (h : Log members (log ++ [(a, l)])) (reached : (b, s) ∈ log) : s ≤ l := by
  by_contra below
  have positive := (h.mem_members (List.mem_append_right _ (List.mem_singleton.mpr rfl))).2
  have member := (h.mem_members (List.mem_append_right _ (List.mem_singleton.mpr rfl))).1
  have early := h.of_append.mem_below reached member l positive (by omega)
  have split := (List.nodup_append.mp h.nodup).2.2
  exact split (a, l) early (a, l) (List.mem_singleton.mpr rfl) rfl

/-- Everybody's arrivals are at rising levels. -/
theorem Log.arrival_gt {log : List (α × Nat)} {a : α} {l k : Nat}
    (h : Log members (log ++ [(a, l)])) (earlier : (a, k) ∈ log) : k < l := by
  have notBelow := h.arrival_ge earlier
  have split := (List.nodup_append.mp h.nodup).2.2
  have differs : k ≠ l := by
    rintro rfl
    exact split (a, k) earlier (a, k) (List.mem_singleton.mpr rfl) rfl
  omega

/-! ### Readers of a log -/

/-- `me` has arrived at level `s`, has read `seen` and misses the members `missing`. -/
structure Reader (members : List α) (me : α) (seen rest : List (α × Nat)) (s : Nat)
    (missing : Finset α) : Prop where
  arrived : (me, s) ∈ seen ++ rest
  notNext : (me, s + 1) ∉ seen ++ rest
  missing_iff : ∀ b ∈ members, b ∈ missing ↔ (b, s) ∉ seen
  missing_members : ∀ b ∈ missing, b ∈ members
  below : ∀ b l, (b, l) ∈ seen → l ≤ s
  ahead : ∀ b l, (b, l) ∈ rest → s ≤ l

/-- `me` has seen every member at level `s` and is not yet at the next. -/
structure Passed (members : List α) (me : α) (seen rest : List (α × Nat)) (s : Nat) : Prop where
  all : ∀ b ∈ members, (b, s) ∈ seen
  notNext : (me, s + 1) ∉ seen ++ rest
  below : ∀ b l, (b, l) ∈ seen → l ≤ s
  ahead : ∀ b l, (b, l) ∈ rest → s < l

section Reader

variable {me : α} {seen rest : List (α × Nat)} {s : Nat} {missing : Finset α}

/-- Somebody who has just arrived at level one has everything to read. -/
theorem Reader.first {log : List (α × Nat)} (h : Log members (log ++ [(me, 1)]))
    (absent : ∀ k, (me, k) ∉ log) (everybody : ∀ b, b ∈ missing ↔ b ∈ members) :
    Reader members me [] (log ++ [(me, 1)]) 1 missing where
  arrived := by simp
  notNext := by
    rw [List.nil_append, List.mem_append, List.mem_singleton]
    rintro (old | new)
    · exact absent 2 old
    · cases new
  missing_iff := by simp [everybody]
  missing_members := fun b => (everybody b).mp
  below := by simp
  ahead := fun b l arrived => (h.mem_members arrived).2

theorem Reader.append {a : α} {l : Nat} (reader : Reader members me seen rest s missing)
    (h : Log members (seen ++ (rest ++ [(a, l)]))) (other : a ≠ me) :
    Reader members me seen (rest ++ [(a, l)]) s missing where
  arrived := by
    rw [← List.append_assoc]
    exact List.mem_append_left _ reader.arrived
  notNext := by
    rw [← List.append_assoc, List.mem_append, List.mem_singleton]
    rintro (old | new)
    · exact reader.notNext old
    · cases new
      exact other rfl
  missing_iff := reader.missing_iff
  missing_members := reader.missing_members
  below := reader.below
  ahead := by
    intro b k arrived
    rcases List.mem_append.mp arrived with old | new
    · exact reader.ahead b k old
    · rw [List.mem_singleton] at new
      cases new
      rw [← List.append_assoc] at h
      exact h.arrival_ge reader.arrived

/-- What a waiting party reads next is the arrival of a missing member at its level. -/
theorem Reader.next {a : α} {l : Nat} (reader : Reader members me seen ((a, l) :: rest) s missing)
    (h : Log members (seen ++ (a, l) :: rest)) (positive : 1 ≤ s) (waits : missing ≠ ∅) :
    l = s ∧ a ∈ missing := by
  have notBelow := reader.ahead a l (List.mem_cons_self ..)
  obtain ⟨b, missed⟩ := Finset.nonempty_iff_ne_empty.mpr waits
  have member := reader.missing_members b missed
  have notAbove := h.next_le member positive ((reader.missing_iff b member).mp missed)
  have same : l = s := by omega
  subst same
  refine ⟨rfl, (reader.missing_iff a ?_).mpr ?_⟩
  · exact (h.mem_members (List.mem_append_right _ (List.mem_cons_self ..))).1
  · intro early
    have split := (List.nodup_append.mp h.nodup).2.2
    exact split (a, l) early (a, l) (List.mem_cons_self ..) rfl

theorem Reader.read [DecidableEq α] {a : α}
    (reader : Reader members me seen ((a, s) :: rest) s missing) :
    Reader members me (seen ++ [(a, s)]) rest s (missing.erase a) where
  arrived := by simpa using reader.arrived
  notNext := by simpa using reader.notNext
  missing_iff := by
    intro b member
    rw [Finset.mem_erase, reader.missing_iff b member, List.mem_append, List.mem_singleton]
    simp only [Prod.mk.injEq, and_true, not_or]
    exact and_comm
  missing_members := fun b missed => reader.missing_members b (Finset.mem_of_mem_erase missed)
  below := by
    intro b l arrived
    rcases List.mem_append.mp arrived with old | new
    · exact reader.below b l old
    · rw [List.mem_singleton] at new
      cases new
      exact Nat.le_refl _
  ahead := fun b l arrived => reader.ahead b l (List.mem_cons_of_mem _ arrived)

theorem Reader.passed (reader : Reader members me seen rest s ∅)
    (h : Log members (seen ++ rest)) : Passed members me seen rest s where
  all := by
    intro b member
    by_contra missed
    exact absurd ((reader.missing_iff b member).mpr missed) (Finset.notMem_empty b)
  notNext := reader.notNext
  below := reader.below
  ahead := by
    intro b l arrived
    refine h.later_gt ?_ arrived (reader.ahead b l arrived)
    intro b' member
    by_contra missed
    exact absurd ((reader.missing_iff b' member).mpr missed) (Finset.notMem_empty b')

theorem Passed.append {a : α} {l : Nat} (passed : Passed members me seen rest s)
    (h : Log members (seen ++ (rest ++ [(a, l)]))) (other : a ≠ me) :
    Passed members me seen (rest ++ [(a, l)]) s where
  all := passed.all
  notNext := by
    rw [← List.append_assoc, List.mem_append, List.mem_singleton]
    rintro (old | new)
    · exact passed.notNext old
    · cases new
      exact other rfl
  below := passed.below
  ahead := by
    intro b k arrived
    rcases List.mem_append.mp arrived with old | new
    · exact passed.ahead b k old
    · rw [List.mem_singleton] at new
      cases new
      have member := (h.mem_members (show (a, l) ∈ seen ++ (rest ++ [(a, l)]) by simp)).1
      rw [← List.append_assoc] at h
      exact h.arrival_gt (List.mem_append_left _ (passed.all a member))

/-- A party that has passed a level may arrive at the next one. -/
theorem Passed.log (passed : Passed members me seen rest s) (h : Log members (seen ++ rest))
    (member : me ∈ members) : Log members (seen ++ rest ++ [(me, s + 1)]) := by
  refine h.arrive member (by omega) passed.notNext ?_
  intro b inside _
  exact List.mem_append_left _ (passed.all b inside)

theorem Passed.arrive (passed : Passed members me seen rest s)
    (h : Log members (seen ++ (rest ++ [(me, s + 1)])))
    (everybody : ∀ b, b ∈ missing ↔ b ∈ members) :
    Reader members me seen (rest ++ [(me, s + 1)]) (s + 1) missing where
  arrived := by simp
  notNext := by
    -- whoever is two levels up has been at the next one
    rw [← List.append_assoc, List.mem_append, List.mem_singleton]
    rintro (old | new)
    · rw [← List.append_assoc] at h
      have member := (h.mem_members (List.mem_append_left _ old)).1
      exact passed.notNext (h.of_append.mem_below old member (s + 1) (by omega) (by omega))
    · simp at new
  missing_iff := by
    intro b member
    refine iff_of_true ((everybody b).mpr member) fun early => ?_
    have := passed.below b (s + 1) early
    omega
  missing_members := fun b => (everybody b).mp
  below := fun b l arrived => Nat.le_succ_of_le (passed.below b l arrived)
  ahead := by
    intro b l arrived
    rcases List.mem_append.mp arrived with old | new
    · exact passed.ahead b l old
    · rw [List.mem_singleton] at new
      cases new
      exact Nat.le_refl _

end Reader

end Lockstep
