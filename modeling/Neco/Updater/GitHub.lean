import Neco.Lib.Greatest
import Neco.Storage.Keys
import Neco.Updater.ReleaseChecker
import Mathlib.Order.WithBot
import Mathlib.Data.Sum.Order
import Mathlib.Data.Prod.Lex
import Mathlib.Data.List.DropRight
import Mathlib.Data.List.Lex

/-!
# The release source

How the version of the latest release is found among the releases on GitHub. `newVersion` stands
for `version.NewVersion` of hashicorp/go-version as before, here with the order of `Compare`.
-/

namespace Neco

/-- The part behind the first hyphen, as `strings.SplitN(s, "-", 2)` finds it. -/
def trimTagName (s : String) : String :=
  match s.toList.dropWhile (· ≠ '-') with
  | [] => s
  | _ :: rest => String.ofList rest

/-- `github.RepositoryRelease`. -/
structure Release where
  tagName : Option String
  draft : Bool
  deriving DecidableEq, Repr

section Latest

variable {V : Type} [LinearOrder V] (newVersion : String → Option V) (tagPrefix : String)

/-- The body of the loop of `GetLatestPublishedTag` over the releases of a page. `latest` is kept
with the text that it was read from, which `Original` returns. -/
def considerRelease (latest : Option (String × V)) (r : Release) : Option (String × V) :=
  match r.tagName with
  | none => latest
  | some tag =>
    if r.draft then latest
    else if !hasPrefix tag tagPrefix then latest
    else
      let s := trimTagName tag
      match newVersion s with
      | none => latest
      | some v =>
        match latest with
        | none => some (s, v)
        | some (original, w) => if w < v then some (s, v) else some (original, w)

/-- The loop over the pages, whose last one has no next page; an error for a page counts as
having no releases. -/
def latestPublished (latest : Option (String × V)) :
    List (Except String (List Release)) → Except CheckError String
  | [] =>
    match latest with
    | none => .error .noReleases
    | some (original, _) => .ok original
  | .error _ :: _ => .error .noReleases
  | .ok releases :: rest =>
    latestPublished (releases.foldl (considerRelease newVersion tagPrefix) latest) rest

def getLatestPublishedTag (pages : List (Except String (List Release))) :
    Except CheckError String :=
  latestPublished newVersion tagPrefix none pages

end Latest

/-! ### A version library -/

/-- A suffix: its number, or its text, which counts as greater than all numbers; a version
without a suffix is greater still. -/
abbrev VersionSuffix := WithTop (Int ⊕ₗ String)

/-- The numbers of a version, without the zeros at the end, and its suffix. -/
abbrev DottedVersion := List Nat ×ₗ VersionSuffix

def versionSuffix : List (List Char) → VersionSuffix
  | [] => ⊤
  | parts =>
    let text := ['-'].intercalate parts
    match atoi text with
    | some n => ((Sum.inlₗ n : Int ⊕ₗ String) : VersionSuffix)
    | none => ((Sum.inrₗ (String.ofList text) : Int ⊕ₗ String) : VersionSuffix)

/-- Dotted numbers with an optional suffix behind a hyphen. -/
def dottedVersion (s : String) : Option DottedVersion :=
  match s.toList.splitOn '-' with
  | [] => none
  | numbers :: suffix => do
    let segments ← (numbers.splitOn '.').mapM digits?
    some (toLex (segments.rdropWhile (· = 0), versionSuffix suffix))

end Neco
