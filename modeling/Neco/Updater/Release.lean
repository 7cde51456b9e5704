import Mathlib.Algebra.Group.Int.Defs
import Mathlib.Logic.Basic

/-!
# Release versions

`newNecoRelease` reads `YYYY.MM.DD-UNIQUE_ID`: the date as `time.Parse` does with the
layout `2006.01.02`, the id as `strconv.Atoi` does.
-/

namespace Neco

structure NecoRelease where
  year : Nat
  month : Nat
  day : Nat
  version : Int
  deriving DecidableEq, Repr

def digits? (cs : List Char) : Option Nat :=
  if cs.isEmpty || !cs.all Char.isDigit then none
  else some (cs.foldl (fun n c => 10 * n + (c.toNat - '0'.toNat)) 0)

/-- `strconv.Atoi` on a 64-bit machine. -/
def atoi (cs : List Char) : Option Int :=
  let signed : Option Int := match cs with
    | '-' :: rest => (digits? rest).map fun n => -(n : Int)
    | '+' :: rest => (digits? rest).map fun n => (n : Int)
    | _ => (digits? cs).map fun n => (n : Int)
  signed.bind fun n => if -2 ^ 63 ≤ n ∧ n < 2 ^ 63 then some n else none

/-- The values of Go's `int` on a 64-bit machine. -/
def IsInt (n : Int) : Prop := -2 ^ 63 ≤ n ∧ n < 2 ^ 63

instance (n : Int) : Decidable (IsInt n) := inferInstanceAs (Decidable (_ ∧ _))

theorem atoi_digits {cs : List Char} {n : Nat} (value : digits? cs = some n) (int : IsInt n) :
    atoi cs = some (n : Int) := by
  unfold atoi
  split
  · simp [digits?] at value
  · simp [digits?] at value
  · have signed : ((do let a ← digits? cs; pure (a : Int)) : Option Int).map (fun n => n) =
        some (n : Int) := by
      rw [value]
      rfl
    rw [signed]
    exact (Option.bind_some ..).trans (if_pos int)

theorem atoi_minus {cs : List Char} {n : Nat} (value : digits? cs = some n) (int : IsInt (-n)) :
    atoi ('-' :: cs) = some (-n : Int) := by
  simp only [atoi, value]
  exact if_pos int

def isLeap (year : Nat) : Bool := year % 4 == 0 && (year % 100 != 0 || year % 400 == 0)

def daysIn (month year : Nat) : Nat :=
  match month with
  | 2 => if isLeap year then 29 else 28
  | 4 | 6 | 9 | 11 => 30
  | _ => 31

/-- `time.Parse("2006.01.02", _)`: four, two and two digits of an existing day. -/
def parseDate (cs : List Char) : Option (Nat × Nat × Nat) :=
  match cs with
  | [y1, y2, y3, y4, '.', m1, m2, '.', d1, d2] => do
    let year ← digits? [y1, y2, y3, y4]
    let month ← digits? [m1, m2]
    let day ← digits? [d1, d2]
    if 1 ≤ month ∧ month ≤ 12 ∧ 1 ≤ day ∧ day ≤ daysIn month year then
      some (year, month, day)
    else none
  | _ => none

def newNecoRelease (tag : String) : Option NecoRelease :=
  match tag.toList.splitOn '-' with
  | [date, id] => do
    let (year, month, day) ← parseDate date
    let version ← atoi id
    some ⟨year, month, day, version⟩
  | _ => none

/-- `Time.Before` on the dates of two releases. -/
def NecoRelease.dateBefore (r target : NecoRelease) : Bool :=
  r.year < target.year || r.year == target.year &&
    (r.month < target.month || r.month == target.month && r.day < target.day)

def NecoRelease.isNewerThan (r target : NecoRelease) : Bool :=
  !r.dateBefore target && r.version > target.version

theorem NecoRelease.dateBefore_eq_false {r target : NecoRelease} :
    r.dateBefore target = false ↔ target.year < r.year ∨ target.year = r.year ∧
      (target.month < r.month ∨ target.month = r.month ∧ target.day ≤ r.day) := by
  simp only [NecoRelease.dateBefore, Bool.or_eq_false_iff, Bool.and_eq_false_iff,
    decide_eq_false_iff_not, beq_eq_false_iff_ne]
  omega

theorem NecoRelease.isNewerThan_iff {r target : NecoRelease} :
    r.isNewerThan target = true ↔ r.dateBefore target = false ∧ target.version < r.version := by
  simp [NecoRelease.isNewerThan]

theorem NecoRelease.isNewerThan_trans {a b c : NecoRelease} (newer : a.isNewerThan b = true)
    (older : b.isNewerThan c = true) : a.isNewerThan c = true := by
  simp only [NecoRelease.isNewerThan_iff, NecoRelease.dateBefore_eq_false] at newer older ⊢
  omega

/-- `newer` and `older` are releases, and the first `isNewerThan` the second. -/
def Newer (newer older : String) : Prop :=
  ∃ r target, newNecoRelease newer = some r ∧ newNecoRelease older = some target ∧
    r.isNewerThan target = true

theorem Newer.isSome {newer older : String} (here : Newer newer older) :
    (newNecoRelease newer).isSome = true := by
  obtain ⟨r, _, read, _⟩ := here
  rw [read]
  rfl

theorem Newer.trans {a b c : String} (newer : Newer a b) (older : Newer b c) : Newer a c := by
  obtain ⟨r, middle, readA, readB, first⟩ := newer
  obtain ⟨middle', target, readB', readC, second⟩ := older
  cases readB.symm.trans readB'
  exact ⟨r, target, readA, readC, NecoRelease.isNewerThan_trans first second⟩

/-- A version parser that knows the names of releases only. The library orders two of
them as equal only when they are the same text. -/
def releaseVersion (tag : String) : Option String := (newNecoRelease tag).map fun _ => tag

end Neco
