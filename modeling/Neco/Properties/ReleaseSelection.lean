import Neco.Updater.GitHub

/-!
# Which release is selected

`GetLatestPublishedTag` selects the greatest version by one grammar and one order, and `update`
accepts it by another. The selection is right exactly when every candidate that `update` would
not accept is beaten by another one.
-/

namespace Neco

section

variable {V : Type} [LinearOrder V]

/-- What is assumed of the version library: it accepts the versions of releases, and newer
releases are greater. An id may have a sign, which `newNecoRelease` reads too; such versions are
outside what the library is known to accept and to order, and for them this is only assumed. -/
structure Documented (newVersion : String → Option V) : Prop where
  accepts : ∀ s, (newNecoRelease s).isSome = true → (newVersion s).isSome = true
  greater : ∀ s t v w, Newer s t → newVersion s = some v → newVersion t = some w → w < v

/-- The version part of a published release: what stands behind the prefix of its tag. -/
def publishedVersion (tagPrefix : String) (r : Release) : Option String :=
  if r.draft then none
  else r.tagName.bind fun tag =>
    if hasPrefix tag tagPrefix then some (String.ofList (tag.toList.drop tagPrefix.length)) else none

/-- The version parts of the published releases. -/
def published (tagPrefix : String) (releases : List Release) : List String :=
  releases.filterMap (publishedVersion tagPrefix)

/-- The release selection as it should be, for the version parts `candidates`. -/
structure Selects (candidates : List String) (current : String) (outcome : CheckOutcome) : Prop where
  complete : (∃ v, outcome = .record v) ↔ ∃ c ∈ candidates, Newer c current
  newest : ∀ v, outcome = .record v → Newer v current ∧ ∀ c ∈ candidates, ¬Newer c v
  robust : outcome ≠ .failed

/-- A candidate that `update` should not be given: it is not a release, or it is not newer than
the current one while another candidate is. -/
def Misleading (candidates : List String) (current c : String) : Prop :=
  newNecoRelease c = none ∨ ¬Newer c current ∧ ∃ d ∈ candidates, Newer d current

/-- Every misleading version is beaten: by an equal one before it, or by a greater one. -/
def Harmless (newVersion : String → Option V) (candidates : List String) (current : String) :
    Prop :=
  ∀ before c behind v, candidates = before ++ c :: behind → newVersion c = some v →
    Misleading candidates current c →
    (∃ d ∈ before, ∃ w, newVersion d = some w ∧ v ≤ w) ∨
      ∃ d ∈ behind, ∃ w, newVersion d = some w ∧ v < w

/-! ### The loop over the releases -/

/-- The prefixes in use end at their first hyphen. -/
theorem trimTagName_prefix {name : List Char} (noHyphen : '-' ∉ name) (rest : List Char) :
    trimTagName (String.ofList (name ++ '-' :: rest)) = String.ofList rest := by
  rw [trimTagName, String.toList_ofList, List.dropWhile_append_of_pos]
  · simp
  · intro c member
    have other : c ≠ '-' := fun same => noHyphen (same ▸ member)
    simpa using other

theorem considerRelease_eq (newVersion : String → Option V) {tagPrefix : String} {name : List Char}
    (shape : tagPrefix.toList = name ++ ['-']) (noHyphen : '-' ∉ name)
    (latest : Option (String × V)) (r : Release) :
    considerRelease newVersion tagPrefix latest r =
      ((publishedVersion tagPrefix r).elim latest (Greatest.pick newVersion latest)) := by
  unfold considerRelease publishedVersion
  cases r.tagName with
  | none => simp
  | some tag =>
    by_cases draft : r.draft = true
    · simp [draft]
    by_cases begins : hasPrefix tag tagPrefix = true
    · obtain ⟨rest, same⟩ := hasPrefix_iff.mp begins
      have part : tag.toList.drop tagPrefix.length = rest := by
        rw [← same, ← String.length_toList, List.drop_left]
      have trimmed : trimTagName tag = String.ofList rest := by
        rw [← String.ofList_toList (s := tag), ← same, shape, List.append_assoc]
        exact trimTagName_prefix noHyphen rest
      cases read : newVersion (String.ofList rest) with
      | none => simp [draft, begins, part, trimmed, Greatest.pick, read]
      | some v => cases latest <;> simp [draft, begins, part, trimmed, Greatest.pick, read]
    · simp [draft, begins]

/-- The loop over the pages goes through the version parts of all releases. -/
theorem latestPublished_eq (newVersion : String → Option V) {tagPrefix : String}
    (name : List Char) (shape : tagPrefix.toList = name ++ ['-']) (noHyphen : '-' ∉ name)
    (pages : List (List Release)) : ∀ latest : Option (String × V),
    latestPublished newVersion tagPrefix latest (pages.map .ok) =
      match (published tagPrefix pages.flatten).foldl (Greatest.pick newVersion) latest with
      | none => .error .noReleases
      | some (original, _) => .ok original := by
  have page (releases : List Release) : ∀ latest : Option (String × V),
      releases.foldl (considerRelease newVersion tagPrefix) latest =
        (published tagPrefix releases).foldl (Greatest.pick newVersion) latest := by
    induction releases with
    | nil => exact fun _ => rfl
    | cons r rest ih =>
      intro latest
      rw [List.foldl_cons, considerRelease_eq newVersion shape noHyphen, ih, published, published,
        List.filterMap_cons]
      cases publishedVersion tagPrefix r <;> rfl
  induction pages with
  | nil => exact fun _ => rfl
  | cons releases rest ih =>
    intro latest
    rw [List.map_cons, latestPublished, page, ih, List.flatten_cons, published, published, published,
      List.filterMap_append, List.foldl_append]

/-- `GetLatestPublishedTag` returns the first greatest version part. -/
theorem getLatestPublishedTag_eq (newVersion : String → Option V) {tagPrefix : String}
    (inUse : tagPrefix = "release-" ∨ tagPrefix = "test-") (pages : List (List Release)) :
    getLatestPublishedTag newVersion tagPrefix (pages.map .ok) =
      match Greatest.first newVersion (published tagPrefix pages.flatten) with
      | none => .error .noReleases
      | some (original, _) => .ok original := by
  rcases inUse with rfl | rfl
  · exact latestPublished_eq newVersion "release".toList rfl (by decide) pages none
  · exact latestPublished_eq newVersion "test".toList rfl (by decide) pages none

/-! ### What `update` does with the selected version -/

/-- A valid release is not newer than itself. -/
theorem not_newer_self (s : String) : ¬Newer s s := by
  rintro ⟨r, target, read, read', newer⟩
  cases read.symm.trans read'
  exact absurd (NecoRelease.isNewerThan_iff.mp newer).2 (lt_irrefl _)

theorem newer_iff {s t : String} {r target : NecoRelease} (read : newNecoRelease s = some r)
    (read' : newNecoRelease t = some target) : Newer s t ↔ r.isNewerThan target = true := by
  constructor
  · rintro ⟨_, _, here, here', newer⟩
    cases read.symm.trans here
    cases read'.symm.trans here'
    exact newer
  · exact fun newer => ⟨r, target, read, read', newer⟩

section Update

variable {c : ReleaseChecker} {now : Int} (inSchedule : c.isWithinSchedule now = true)
include inSchedule

theorem update_noReleases : c.update now (.error .noReleases) = .unchanged := by
  simp [ReleaseChecker.update, inSchedule]

theorem update_newer {s : String} (newer : Newer s c.current) :
    c.update now (.ok s) = .record s := by
  have other : s ≠ c.current := fun same => not_newer_self s (same ▸ newer)
  obtain ⟨r, current, readS, read, isNewer⟩ := newer
  simp [ReleaseChecker.update, inSchedule, other, read, readS, isNewer]

variable (valid : (newNecoRelease c.current).isSome = true)
include valid

theorem update_invalid {s : String} (invalid : newNecoRelease s = none) :
    c.update now (.ok s) = .failed := by
  obtain ⟨current, read⟩ := Option.isSome_iff_exists.mp valid
  have other : s ≠ c.current := by
    rintro rfl
    rw [invalid] at read
    cases read
  simp [ReleaseChecker.update, inSchedule, other, read, invalid]

theorem update_old {s : String} (release : (newNecoRelease s).isSome = true)
    (old : ¬Newer s c.current) : c.update now (.ok s) = .unchanged := by
  obtain ⟨current, read⟩ := Option.isSome_iff_exists.mp valid
  obtain ⟨r, readS⟩ := Option.isSome_iff_exists.mp release
  rw [newer_iff readS read] at old
  by_cases same : s = c.current
  · simp [ReleaseChecker.update, inSchedule, same]
  · simp [ReleaseChecker.update, inSchedule, same, read, readS, old]

end Update

/-! ### The selection -/

/-- The greatest version is not beaten. -/
theorem not_beaten {newVersion : String → Option V} {before behind : List String} {v : V}
    (less : ∀ d ∈ before, ∀ w, newVersion d = some w → w < v)
    (notGreater : ∀ d ∈ behind, ∀ w, newVersion d = some w → w ≤ v) :
    ¬((∃ d ∈ before, ∃ w, newVersion d = some w ∧ v ≤ w) ∨
      ∃ d ∈ behind, ∃ w, newVersion d = some w ∧ v < w) := by
  rintro (⟨d, member, w, read, atLeast⟩ | ⟨d, member, w, read, greater⟩)
  · exact absurd (less d member w read) (not_lt.mpr atLeast)
  · exact absurd (notGreater d member w read) (not_le.mpr greater)

/-- No candidate is newer than the selected one, since it would be greater. -/
theorem not_newer_of_isFirst {newVersion : String → Option V} (documented : Documented newVersion)
    {candidates : List String} {s : String} {v : V}
    (isFirst : Greatest.IsFirst newVersion candidates s v) (d : String) (member : d ∈ candidates) :
    ¬Newer d s := by
  intro newer
  obtain ⟨before, behind, rfl, read, less, notGreater⟩ := isFirst
  obtain ⟨w, readD⟩ := Option.isSome_iff_exists.mp (documented.accepts d newer.isSome)
  have greater := documented.greater d s w v newer readD read
  rcases List.mem_append.mp member with earlier | later
  · exact absurd (less d earlier w readD) greater.not_gt
  · rcases List.mem_cons.mp later with rfl | later
    · exact not_newer_self _ newer
    · exact absurd (notGreater d later w readD) (not_le.mpr greater)

/-- **The release selection is complete and robust** exactly if every candidate that would
mislead `update` is beaten by another one. -/
theorem release_selection_iff (newVersion : String → Option V)
    (documented : Documented newVersion) (tagPrefix : String)
    (inUse : tagPrefix = "release-" ∨ tagPrefix = "test-") (pages : List (List Release))
    (c : ReleaseChecker) (valid : (newNecoRelease c.current).isSome = true) (now : Int)
    (inSchedule : c.isWithinSchedule now = true) :
    Selects (published tagPrefix pages.flatten) c.current
        (c.update now (getLatestPublishedTag newVersion tagPrefix (pages.map .ok))) ↔
      Harmless newVersion (published tagPrefix pages.flatten) c.current := by
  rw [getLatestPublishedTag_eq newVersion inUse]
  generalize published tagPrefix pages.flatten = candidates
  constructor
  · -- A misleading candidate that is not beaten is the one that is selected.
    intro selects before s behind v split read misleading
    by_contra unbeaten
    rw [not_or] at unbeaten
    have selected : Greatest.first newVersion candidates = some (s, v) := by
      refine Greatest.first_of_isFirst ⟨before, behind, split, read, fun d member w readD => ?_,
        fun d member w readD => ?_⟩
      · exact not_le.mp fun atLeast => unbeaten.1 ⟨d, member, w, readD, atLeast⟩
      · exact not_lt.mp fun greater => unbeaten.2 ⟨d, member, w, readD, greater⟩
    rw [selected] at selects
    by_cases invalid : newNecoRelease s = none
    · exact selects.robust (update_invalid inSchedule valid invalid)
    · obtain ⟨old, exists_⟩ := misleading.resolve_left invalid
      obtain ⟨v, records⟩ := selects.complete.mpr exists_
      rw [update_old inSchedule valid (Option.isSome_iff_ne_none.mpr invalid) old] at records
      cases records
  · -- The selected candidate is not beaten, so it is not misleading.
    intro harmless
    cases selected : Greatest.first newVersion candidates with
    | none =>
      rw [update_noReleases inSchedule]
      refine ⟨iff_of_false nofun ?_, nofun, nofun⟩
      rintro ⟨d, member, newer⟩
      have accepted := documented.accepts d newer.isSome
      rw [Greatest.first_eq_none.mp selected d member] at accepted
      cases accepted
    | some best =>
      obtain ⟨s, v⟩ := best
      have isFirst := Greatest.isFirst_of_first selected
      have newest := not_newer_of_isFirst documented isFirst
      obtain ⟨before, behind, split, read, less, notGreater⟩ := isFirst
      have fine : ¬Misleading candidates c.current s := fun misleading =>
        not_beaten less notGreater (harmless before s behind v split read misleading)
      have release : (newNecoRelease s).isSome = true :=
        Option.isSome_iff_ne_none.mpr fun invalid => fine (.inl invalid)
      have member : s ∈ candidates := by simp [split]
      by_cases newer : Newer s c.current
      · rw [update_newer inSchedule newer]
        refine ⟨iff_of_true ⟨s, rfl⟩ ⟨s, member, newer⟩, fun v records => ?_, nofun⟩
        cases records
        exact ⟨newer, newest⟩
      · rw [update_old inSchedule valid release newer]
        exact ⟨iff_of_false nofun fun exists_ => fine (.inr ⟨newer, exists_⟩), nofun, nofun⟩

end

/-! ### Dotted versions -/

theorem ne_dot_of_digits {cs : List Char} {n : Nat} (read : digits? cs = some n) :
    ∀ c ∈ cs, (c == '.') = false := by
  intro c member
  unfold digits? at read
  split at read
  · cases read
  next digits =>
    simp only [Bool.or_eq_true, Bool.not_eq_true', not_or, Bool.not_eq_false, List.all_eq_true]
      at digits
    rw [beq_eq_false_iff_ne]
    rintro rfl
    cases digits.2 '.' member

/-- The dotted version of a release is its date and its id. -/
theorem dottedVersion_release {s : String} {r : NecoRelease} (read : newNecoRelease s = some r) :
    dottedVersion s = some (toLex ([r.year, r.month, r.day],
      ((Sum.inlₗ r.version : Int ⊕ₗ String) : VersionSuffix))) := by
  unfold newNecoRelease at read
  split at read
  next date id parts =>
    simp only [Option.bind_eq_bind, Option.bind_eq_some_iff, Option.some.injEq] at read
    obtain ⟨⟨year, month, day⟩, readDate, version, readId, rfl⟩ := read
    unfold parseDate at readDate
    split at readDate
    next y1 y2 y3 y4 m1 m2 d1 d2 =>
      simp only [Option.bind_eq_bind, Option.bind_eq_some_iff] at readDate
      obtain ⟨_, readYear, _, readMonth, _, readDay, checked⟩ := readDate
      split at checked
      next inRange =>
        cases checked
        -- None of the digits is a dot, so the numbers are split where the date is.
        have years := ne_dot_of_digits readYear
        have months := ne_dot_of_digits readMonth
        have days := ne_dot_of_digits readDay
        simp only [List.mem_cons, List.not_mem_nil, or_false, forall_eq_or_imp, forall_eq]
          at years months days
        have segments : List.splitOn '.' [y1, y2, y3, y4, '.', m1, m2, '.', d1, d2] =
            [[y1, y2, y3, y4], [m1, m2], [d1, d2]] := by
          simp [List.splitOn, List.splitOnP_cons_eq_if_modifyHead, years, months, days]
        have last : day ≠ 0 := by omega
        simp [dottedVersion, parts, segments, readYear, readMonth, readDay, versionSuffix, readId,
          List.rdropWhile, last]
      · cases checked
    · cases readDate
  · cases read

theorem documented_dottedVersion : Documented dottedVersion where
  accepts := by
    intro s release
    obtain ⟨r, read⟩ := Option.isSome_iff_exists.mp release
    rw [dottedVersion_release read]
    rfl
  greater := by
    rintro s t v w ⟨r, target, readS, readT, newer⟩ versionS versionT
    rw [dottedVersion_release readS] at versionS
    rw [dottedVersion_release readT] at versionT
    cases versionS
    cases versionT
    obtain ⟨date, id⟩ := NecoRelease.isNewerThan_iff.mp newer
    rw [NecoRelease.dateBefore_eq_false] at date
    rw [Prod.Lex.toLex_lt_toLex]
    -- A later date decides; on the same date the ids do.
    have suffix : ((Sum.inlₗ target.version : Int ⊕ₗ String) : VersionSuffix) <
        ((Sum.inlₗ r.version : Int ⊕ₗ String) : VersionSuffix) := by
      rw [WithTop.coe_lt_coe]
      exact Sum.Lex.inl_lt_inl_iff.mpr id
    by_cases same : target.year = r.year ∧ target.month = r.month ∧ target.day = r.day
    · exact .inr ⟨by simp [same], suffix⟩
    · left
      simp only [List.cons_lt_cons_iff]
      omega

/-! ### Examples -/

def everyMinute (current : String) : ReleaseChecker := ⟨[fun now => now], current⟩

def releaseOf (tag : String) : Release := ⟨some tag, false⟩

/-- Two pages with published releases, a draft and the tag of a test release. -/
def twoPages : List (List Release) :=
  [[releaseOf "release-2020.01.02-2", ⟨some "release-2022.01.01-9", true⟩],
    [releaseOf "test-2021.01.01-8", releaseOf "release-2020.02.01-3"]]

theorem release_selection_twoPages :
    (everyMinute "2020.01.01-1").update 0
      (getLatestPublishedTag dottedVersion "release-" (twoPages.map .ok)) =
        .record "2020.02.01-3" ∧
    Selects (published "release-" twoPages.flatten) "2020.01.01-1"
      ((everyMinute "2020.01.01-1").update 0
        (getLatestPublishedTag dottedVersion "release-" (twoPages.map .ok))) := by
  refine ⟨by decide +kernel, (release_selection_iff dottedVersion documented_dottedVersion
    "release-" (.inl rfl) twoPages (everyMinute "2020.01.01-1") (by decide +kernel) 0
    (by decide +kernel)).mpr fun before c behind v split _ misleading => ?_⟩
  -- Both published releases are newer than the current one.
  have parts : published "release-" twoPages.flatten = ["2020.01.02-2", "2020.02.01-3"] := by
    decide +kernel
  have newer : ∀ d ∈ published "release-" twoPages.flatten, Newer d "2020.01.01-1" := by
    rw [parts]
    intro d member
    simp only [List.mem_cons, List.not_mem_nil, or_false] at member
    rcases member with rfl | rfl
    · exact ⟨⟨2020, 1, 2, 2⟩, ⟨2020, 1, 1, 1⟩, by decide +kernel, by decide +kernel, by decide⟩
    · exact ⟨⟨2020, 2, 1, 3⟩, ⟨2020, 1, 1, 1⟩, by decide +kernel, by decide +kernel, by decide⟩
  have here := newer c (split ▸ List.mem_append_right _ (List.mem_cons_self ..))
  rcases misleading with invalid | ⟨old, _⟩
  · have release := here.isSome
    rw [invalid] at release
    cases release
  · exact absurd here old

/-- A release whose tag has no id. -/
def withoutId : List (List Release) :=
  [[releaseOf "release-2020.01.02-2", releaseOf "release-2020.02"]]

/-- A release with a later date and a lower id than the next one. -/
def lowerId : List (List Release) :=
  [[releaseOf "release-2021.01.01-3", releaseOf "release-2020.06.01-7"]]

/-- A tag that is a greater version but no release makes `update` return an error, and a later
release with a low id hides a newer one. -/
theorem release_selection_misled : Documented dottedVersion ∧
    ((everyMinute "2020.01.01-1").update 0
        (getLatestPublishedTag dottedVersion "release-" (withoutId.map .ok)) = .failed ∧
      ¬Selects (published "release-" withoutId.flatten) "2020.01.01-1"
        ((everyMinute "2020.01.01-1").update 0
          (getLatestPublishedTag dottedVersion "release-" (withoutId.map .ok)))) ∧
    ((everyMinute "2020.01.01-5").update 0
        (getLatestPublishedTag dottedVersion "release-" (lowerId.map .ok)) = .unchanged ∧
      ¬Selects (published "release-" lowerId.flatten) "2020.01.01-5"
        ((everyMinute "2020.01.01-5").update 0
          (getLatestPublishedTag dottedVersion "release-" (lowerId.map .ok)))) := by
  have failed : (everyMinute "2020.01.01-1").update 0
      (getLatestPublishedTag dottedVersion "release-" (withoutId.map .ok)) = .failed := by
    decide +kernel
  have unchanged : (everyMinute "2020.01.01-5").update 0
      (getLatestPublishedTag dottedVersion "release-" (lowerId.map .ok)) = .unchanged := by
    decide +kernel
  refine ⟨documented_dottedVersion, ⟨failed, fun selects => selects.robust failed⟩, unchanged,
    fun selects => ?_⟩
  obtain ⟨v, records⟩ := selects.complete.mpr ⟨"2020.06.01-7", by decide +kernel,
    ⟨2020, 6, 1, 7⟩, ⟨2020, 1, 1, 5⟩, by decide +kernel, by decide +kernel, by decide⟩
  rw [unchanged] at records
  cases records

end Neco
