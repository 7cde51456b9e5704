import Neco.System
import Neco.Updater.Moves

/-!
# Checking for new releases

While an updater leads, its `ReleaseChecker` asks the release source from time to time and
records a newer release in `info/neco-release`. The write checks only that the leader key of the
term exists, and the release it is compared with was read once, at the start of the term.
-/

namespace Neco

variable {V : Type} [DecidableEq V]

/-- What `check` returns instead of a version: `ErrNoReleases` or another error. -/
inductive CheckError where
  | noReleases
  | failed (message : String)
  deriving DecidableEq, Repr

/-- The fields that `update` uses. A schedule tells the next time after a given one; times are
nanoseconds. -/
structure ReleaseChecker where
  checkTimes : List (Int → Int)
  current : String

/-- Whether the next time of some schedule is within a minute. -/
def ReleaseChecker.isWithinSchedule (c : ReleaseChecker) (now : Int) : Bool :=
  c.checkTimes.any fun next => next now - now ≤ 60 * 1000000000

/-- How `update` ends: it returns nil, it returns an error, or it goes on to record a release. -/
inductive CheckOutcome where
  | unchanged
  | failed
  | record (latest : String)
  deriving DecidableEq, Repr

/-- `ReleaseChecker.update` up to its write, at the time `now` and for the answer of `check`. -/
def ReleaseChecker.update (c : ReleaseChecker) (now : Int) (check : Except CheckError String) :
    CheckOutcome :=
  if !c.isWithinSchedule now then .unchanged
  else match check with
  | .error .noReleases => .unchanged
  | .error (.failed _) => .failed
  | .ok latest =>
    if latest = c.current then .unchanged
    else match newNecoRelease c.current with
    | none => .failed
    | some currentRelease =>
      match newNecoRelease latest with
      | none => .failed
      | some latestRelease =>
        if !latestRelease.isNewerThan currentRelease then .unchanged else .record latest

/-- The checker of one term. -/
inductive Checker where
  | absent
  /-- in `Run`, before the recorded release is read -/
  | starting
  /-- between two calls of `update` -/
  | checking (c : ReleaseChecker)
  /-- in `UpdateNecoRelease`; `c.current` is already the release to be written -/
  | writing (c : ReleaseChecker)
  /-- `UpdateNecoRelease` has failed without an answer; etcd may still commit the write -/
  | abandoned (latest : String)
  | over

inductive CheckerAction where
  /-- the updater `u`, which has won its election, starts its checker -/
  | start (u : Nat)
  /-- `GetNecoRelease`, and the schedules of the term -/
  | load (checkTimes : List (Int → Int))
  | update (now : Int) (check : Except CheckError String)
  /-- etcd executes the guarded write; the answer may be lost -/
  | write (acknowledged : Bool)
  /-- the checker ends: an error, or the end of the term -/
  | fail

/-- The update process with its release checkers, one for each leader key. -/
structure Checked where
  system : System
  checkers : Nat → Checker

inductive CheckedAction where
  | process (a : SystemAction)
  | checker (key : Nat) (a : CheckerAction)

def Checked.enter (s : Checked) (key : Nat) (next : Checker) : Checked :=
  { s with checkers := Function.update s.checkers key next }

/-- `Storage.UpdateNecoRelease`, on etcd: the release is put if the leader key exists. -/
def Checked.updateNecoRelease (s : Checked) (key : Nat) (latest : String) (done refused : Checker) :
    Checked :=
  if key ∈ s.system.keys then
    { s.enter key done with system := s.system.commit [.updateNecoRelease latest] }
  else s.enter key refused

def Checked.checkerStep (s : Checked) (key : Nat) : CheckerAction → Option Checked
  | .start u =>
    match s.checkers key with
    | .absent =>
      if (s.system.updaters u).term = some key then some (s.enter key .starting) else none
    | _ => none
  | .load checkTimes =>
    match s.checkers key with
    | .starting => some (s.enter key (.checking ⟨checkTimes, (store s.system.history).latest⟩))
    | _ => none
  | .update now check =>
    match s.checkers key with
    | .checking c =>
      match c.update now check with
      | .unchanged => some s
      | .failed => some (s.enter key .over)
      | .record latest => some (s.enter key (.writing { c with current := latest }))
    | _ => none
  | .write acknowledged =>
    match s.checkers key with
    | .writing c =>
      some (s.updateNecoRelease key c.current (if acknowledged then .checking c else .over) .over)
    | .abandoned latest => some (s.updateNecoRelease key latest .over .over)
    | _ => none
  | .fail =>
    match s.checkers key with
    | .absent => none
    | .writing c => some (s.enter key (.abandoned c.current))
    | .abandoned _ => none
    | _ => some (s.enter key .over)

/-- Releases are recorded by the checkers only. -/
def Checked.step (cfg : Config V) (s : Checked) : CheckedAction → Option Checked
  | .process (.updateNecoRelease _) => none
  | .process a => (s.system.step cfg a).map fun t => { s with system := t }
  | .checker key a => s.checkerStep key a

end Neco
