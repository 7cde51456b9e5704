import Mathlib.Order.Basic
import Mathlib.Data.List.Sort

/-!
# Binary search

The loop that halves an interval of positions, for any predicate: on a monotone predicate it
returns the first position that satisfies it, and on a strictly sorted list it returns the
position of an element. The converse holds too: a list whose elements are sent onto all its
positions is strictly sorted, because every position is probed by some of the searches.
-/

namespace BinarySearch

/-- Halves the interval of positions from `i` to below `j` until it is empty. -/
def search (p : Nat → Bool) (i j : Nat) : Nat :=
  if i < j then
    if p ((i + j) / 2) then search p i ((i + j) / 2) else search p ((i + j) / 2 + 1) j
  else i
termination_by j - i

theorem search_of_lt (p : Nat → Bool) {i j : Nat} (less : i < j) : search p i j =
    if p ((i + j) / 2) then search p i ((i + j) / 2) else search p ((i + j) / 2 + 1) j := by
  rw [search, if_pos less]

/-- A search ends inside the interval or right behind it. -/
theorem search_mem (p : Nat → Bool) {i j : Nat} (interval : i ≤ j) :
    i ≤ search p i j ∧ search p i j ≤ j := by
  fun_induction search p i j with
  | case1 i j less here ih =>
    have := ih (by omega)
    omega
  | case2 i j less there ih =>
    have := ih (by omega)
    omega
  | case3 i j empty => omega

/-- The search for the boundary of a monotone predicate finds it. -/
theorem search_eq (p : Nat → Bool) {i j k : Nat} (inside : i ≤ k ∧ k ≤ j)
    (below : ∀ h, i ≤ h → h < k → p h = false) (above : ∀ h, k ≤ h → h < j → p h = true) :
    search p i j = k := by
  fun_induction search p i j with
  | case1 i j less here ih =>
    have high : k ≤ (i + j) / 2 := by
      by_contra low
      rw [below _ (by omega) (by omega)] at here
      cases here
    exact ih ⟨inside.1, high⟩ below fun h start less => above h start (by omega)
  | case2 i j less there ih =>
    have low : (i + j) / 2 < k := by
      by_contra high
      exact there (above _ (by omega) (by omega))
    exact ih ⟨low, inside.2⟩ (fun h _ less => below h (by omega) less) above
  | case3 i j empty => omega

/-! ### Searching in a list -/

variable {α : Type} [LinearOrder α]

/-- The test of a search at a position. -/
def probe (l : List α) (x : α) (h : Nat) : Bool := (l[h]?).any fun y => x ≤ y

theorem probe_eq_true {l : List α} {x : α} {h : Nat} (bound : h < l.length) :
    probe l x h = true ↔ x ≤ l[h] := by
  simp [probe, List.getElem?_eq_getElem bound]

/-- The position at which the search for `x` in `l` ends. -/
def position (l : List α) (x : α) : Nat :=
  search (probe l x) 0 l.length

theorem position_le (l : List α) (x : α) : position l x ≤ l.length :=
  (search_mem _ (Nat.zero_le _)).2

/-- In a sorted list the elements below `x` come first. -/
theorem getElem_lt_iff {l : List α} (sorted : l.Pairwise (· ≤ ·)) (x : α) {h : Nat}
    (bound : h < l.length) : l[h] < x ↔ h < l.countP (· < x) := by
  induction l generalizing h with
  | nil => cases bound
  | cons y rest ih =>
    obtain ⟨first, later⟩ := List.pairwise_cons.mp sorted
    by_cases below : y < x
    · rw [List.countP_cons_of_pos (by simpa using below)]
      cases h with
      | zero => simpa using below
      | succ h =>
        rw [List.getElem_cons_succ, ih later, Nat.succ_lt_succ_iff]
    · -- nothing is below `x` any more
      have above : ∀ z ∈ y :: rest, ¬ z < x := by
        rintro z (_ | ⟨_, member⟩) less
        · exact below less
        · exact below (lt_of_le_of_lt (first z member) less)
      have none : (y :: rest).countP (· < x) = 0 :=
        List.countP_eq_zero.mpr fun z member => by simpa using above z member
      rw [none]
      exact iff_of_false (above _ (List.getElem_mem bound)) (Nat.not_lt_zero h)

/-- In a sorted list the search for `x` ends behind the elements below it. -/
theorem position_eq_countP {l : List α} (sorted : l.Pairwise (· ≤ ·)) (x : α) :
    position l x = l.countP (· < x) := by
  refine search_eq _ ⟨Nat.zero_le _, List.countP_le_length⟩ (fun h _ below => ?_)
    fun h above inside => ?_
  · have bound : h < l.length := below.trans_le List.countP_le_length
    rw [← Bool.not_eq_true, probe_eq_true bound, not_le]
    exact (getElem_lt_iff sorted x bound).mpr below
  · rw [probe_eq_true inside, ← not_lt, getElem_lt_iff sorted x inside]
    exact Nat.not_lt.mpr above

/-- An element is found where the search for it ends. -/
theorem getElem?_countP {l : List α} (sorted : l.Pairwise (· ≤ ·)) (x : α) :
    l[l.countP (· < x)]? = some x ↔ x ∈ l := by
  refine ⟨List.mem_of_getElem?, fun member => ?_⟩
  obtain ⟨j, bound, here⟩ := List.mem_iff_getElem.mp member
  have up : l.countP (· < x) ≤ j := by
    refine Nat.not_lt.mp fun below => lt_irrefl x ?_
    calc
      x = l[j] := here.symm
      _ < x := (getElem_lt_iff sorted x bound).mpr below
  have inside : l.countP (· < x) < l.length := up.trans_lt bound
  refine List.getElem?_eq_some_iff.mpr ⟨inside, le_antisymm ?_ (not_lt.mp fun less => ?_)⟩
  · rcases up.eq_or_lt with same | less
    · simp only [same, here, le_refl]
    · exact here ▸ List.pairwise_iff_getElem.mp sorted _ _ inside bound less
  · exact lt_irrefl _ ((getElem_lt_iff sorted x inside).mp less)

/-- In a strictly sorted list an element is found where it is. -/
theorem position_getElem {l : List α} (sorted : l.Pairwise (· < ·)) {k : Nat}
    (bound : k < l.length) : position l l[k] = k := by
  rw [List.pairwise_iff_getElem] at sorted
  refine search_eq _ ⟨Nat.zero_le k, bound.le⟩ (fun h _ below => ?_) fun h above inside => ?_
  · rw [← Bool.not_eq_true, probe_eq_true (below.trans bound), not_le]
    exact sorted h k _ bound below
  · rw [probe_eq_true inside]
    rcases above.eq_or_lt with rfl | less
    · exact le_rfl
    · exact (sorted k h bound inside less).le

/-- The searches whose result is at most `k` are those for elements up to the one at `k`. -/
def Splits (l : List α) (k : Nat) (bound : k < l.length) : Prop :=
  ∀ x ∈ l, position l x ≤ k ↔ x ≤ l[k]

/-- What is known of an interval that the halving reaches: its bounds split the searches, and
each search whose result lies within the bounds comes through it. -/
structure Interval (l : List α) (i j : Nat) : Prop where
  high : j ≤ l.length
  lower : ∀ below : i - 1 < l.length, 0 < i → Splits l (i - 1) below
  upper : ∀ bound : j < l.length, Splits l j bound
  through : ∀ x ∈ l, i ≤ position l x → position l x ≤ j → position l x = search (probe l x) i j

theorem interval_whole (l : List α) : Interval l 0 l.length where
  high := le_rfl
  lower := fun _ positive => absurd positive (lt_irrefl 0)
  upper := fun bound => absurd bound (lt_irrefl _)
  through := fun _ _ _ _ => rfl

/-- If every position is a result, the middle of an interval splits the searches. -/
theorem Interval.splits_middle {l : List α} {i j : Nat} (interval : Interval l i j) (less : i < j)
    (onto : ∀ k < l.length, ∃ x ∈ l, position l x = k) (bound : (i + j) / 2 < l.length) :
    Splits l ((i + j) / 2) bound := by
  have high := interval.high
  have within (x : α) (member : x ∈ l) (from_ : i ≤ position l x) (upTo : position l x ≤ j) :
      position l x ≤ (i + j) / 2 ↔ x ≤ l[(i + j) / 2] := by
    rw [interval.through x member from_ upTo, search_of_lt _ less, ← probe_eq_true bound]
    split
    next here =>
      exact iff_of_true (search_mem _ (by omega)).2 here
    next there =>
      have later := (search_mem (probe l x) (show (i + j) / 2 + 1 ≤ j by omega)).1
      exact iff_of_false (by omega) there
  intro x member
  rcases lt_or_ge (position l x) i with before | from_
  · -- The lower bound is below the search that ends in the middle, so `x` is below the middle.
    refine iff_of_true (by omega) ?_
    have splits := interval.lower (by omega) (by omega)
    obtain ⟨y, memberY, middle⟩ := onto _ bound
    have low : l[i - 1] < y := not_le.mp fun above => by
      have := (splits y memberY).mpr above
      omega
    exact ((splits x member).mp (by omega)).trans
      (low.le.trans ((within y memberY (by omega) (by omega)).mp (by omega)))
  rcases le_or_gt (position l x) j with upTo | after
  · exact within x member from_ upTo
  · -- The search that ends right behind the middle is up to the upper bound.
    refine iff_of_false (by omega) (not_le.mpr ?_)
    have inside : j < l.length := after.trans_le (position_le l x)
    have splits := interval.upper inside
    obtain ⟨y, memberY, next⟩ := onto ((i + j) / 2 + 1) (by omega)
    have above : l[(i + j) / 2] < y := not_le.mp fun below => by
      have := (within y memberY (by omega) (by omega)).mpr below
      omega
    refine above.trans (((splits y memberY).mp (by omega)).trans_lt (not_le.mp fun below => ?_))
    have := (splits x member).mpr below
    omega

theorem Interval.left {l : List α} {i j : Nat} (interval : Interval l i j) (less : i < j)
    (bound : (i + j) / 2 < l.length) (splits : Splits l ((i + j) / 2) bound) :
    Interval l i ((i + j) / 2) where
  high := bound.le
  lower := interval.lower
  upper := fun _ => splits
  through := by
    intro x member from_ upTo
    have whole := interval.through x member from_ (by omega)
    rwa [search_of_lt _ less, if_pos ((probe_eq_true bound).mpr ((splits x member).mp upTo))]
      at whole

theorem Interval.right {l : List α} {i j : Nat} (interval : Interval l i j) (less : i < j)
    (bound : (i + j) / 2 < l.length) (splits : Splits l ((i + j) / 2) bound) :
    Interval l ((i + j) / 2 + 1) j where
  high := interval.high
  lower := fun _ _ => splits
  upper := interval.upper
  through := by
    intro x member from_ upTo
    have whole := interval.through x member (by omega) upTo
    have above : ¬probe l x ((i + j) / 2) = true := fun here => by
      have := (splits x member).mpr ((probe_eq_true bound).mp here)
      omega
    rwa [search_of_lt _ less, if_neg above] at whole

/-- If every position is a result, every position splits the searches: by induction along the
halving. -/
theorem Interval.splits {l : List α} {i j : Nat} (interval : Interval l i j)
    (onto : ∀ k < l.length, ∃ x ∈ l, position l x = k) {k : Nat} (from_ : i ≤ k) (less : k < j)
    (bound : k < l.length) : Splits l k bound := by
  induction size : j - i using Nat.strong_induction_on generalizing i j with
  | h size ih =>
  have high := interval.high
  have middle := interval.splits_middle (by omega) onto (by omega)
  rcases lt_trichotomy k ((i + j) / 2) with before | rfl | after
  · exact ih _ (by omega) (interval.left (by omega) (by omega) middle) from_ before rfl
  · exact middle
  · exact ih _ (by omega) (interval.right (by omega) (by omega) middle) after less rfl

/-- The elements of a list are found at all its positions exactly if it is strictly sorted. -/
theorem onto_iff_sorted (l : List α) :
    (∀ k < l.length, ∃ x ∈ l, position l x = k) ↔ l.Pairwise (· < ·) := by
  constructor
  · intro onto
    have splits (k : Nat) (bound : k < l.length) : Splits l k bound :=
      (interval_whole l).splits onto (Nat.zero_le k) bound bound
    rw [List.pairwise_iff_getElem]
    intro a b boundA boundB less
    -- The search that ends right behind `a` separates the two.
    obtain ⟨y, member, found⟩ := onto (a + 1) (by omega)
    refine lt_of_lt_of_le (not_le.mp fun below => ?_) ((splits b boundB y member).mp (by omega))
    have := (splits a boundA y member).mpr below
    omega
  · intro sorted k bound
    exact ⟨l[k], List.getElem_mem bound, position_getElem sorted bound⟩

end BinarySearch
