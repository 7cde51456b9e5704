import Neco.Setup.Stages

/-!
# The setup barrier is stable

One key per server holds the last stage it has finished. A server that finishes the second
stage takes its key away from those that still count the first one, so the first loop is
stable only as long as nobody finishes the second stage while a server is still in it.
-/

namespace Neco.Setup

open KeyValue

/-! ### What `GetFinished` returns -/

theorem Stage.isInt (stage : Stage) : IsInt stage.number := by
  cases stage <;> decide

theorem Stage.number_injective : Function.Injective Stage.number := by
  intro stage stage' same
  cases stage <;> cases stage' <;> first | rfl | cases same

/-- The pair is the record of a boot server that has finished a stage. -/
def IsRecord (p : Pair String String) (lrn : Int) (stage : Stage) : Prop :=
  IsInt lrn ∧ p.key = keyFinish lrn ∧ p.value = itoa stage.number

theorem collectFinished_record {p : Pair String String} {lrn : Int} {stage stage' : Stage}
    (record : IsRecord p lrn stage') (lrns : List Int) :
    collectFinished stage lrns p = some (if stage' = stage then lrns ++ [lrn] else lrns) := by
  obtain ⟨int, key, value⟩ := record
  rw [collectFinished, value, atoi_itoa stage'.isInt, key]
  by_cases same : stage' = stage
  · subst same
    simp [keyFinish, lrnOfKey_append int]
  · simp [same, Stage.number_injective.ne same]

/-- The LRN of a record of the stage. -/
def finishedLrn (stage : Stage) (p : Pair String String) : Option Int :=
  if p.value = itoa stage.number then lrnOfKey keyFinishPrefix p.key else none

theorem finishedLrn_record {p : Pair String String} {lrn : Int} {stage stage' : Stage}
    (record : IsRecord p lrn stage') :
    finishedLrn stage p = if stage' = stage then some lrn else none := by
  obtain ⟨int, key, value⟩ := record
  rw [finishedLrn, value, key, keyFinish, lrnOfKey_append int]
  have same : itoa stage'.number = itoa stage.number ↔ stage' = stage :=
    ⟨fun same => Stage.number_injective (itoa_injective same), fun same => by rw [same]⟩
  simp only [same]

theorem foldlM_collectFinished {stage : Stage} (l : List (Pair String String))
    (records : ∀ p ∈ l, ∃ lrn stage', IsRecord p lrn stage') :
    ∀ lrns, l.foldlM (collectFinished stage) lrns =
      some (lrns ++ l.filterMap (finishedLrn stage)) := by
  induction l with
  | nil => simp
  | cons p rest ih =>
    intro lrns
    obtain ⟨lrn, stage', record⟩ := records p (List.mem_cons_self ..)
    rw [List.foldlM_cons, collectFinished_record record, List.filterMap_cons,
      finishedLrn_record record]
    have later := ih fun q member => records q (List.mem_cons_of_mem p member)
    by_cases same : stage' = stage
    · simp [same, later]
    · simp [same, later]

/-- `GetFinished` returns the servers whose key holds the stage, each once. -/
theorem getFinished_records {kv : Etcd} (stage : Stage)
    (records : ∀ p ∈ kv.pairs, ∃ lrn stage', IsRecord p lrn stage') :
    ∃ lrns, getFinished kv stage = some lrns ∧ lrns.Nodup ∧
      ∀ lrn, lrn ∈ lrns ↔ ∃ p ∈ kv.pairs, IsRecord p lrn stage := by
  have inRange (p : Pair String String) (member : p ∈ kv.pairs) :
      hasPrefix p.key keyFinishPrefix = true := by
    obtain ⟨lrn, _, _, key, _⟩ := records p member
    rw [key]
    exact hasPrefix_append ..
  have whole : kv.getRange (fun key => hasPrefix key keyFinishPrefix) = kv.pairs :=
    List.filter_eq_self.mpr inRange
  have found (p : Pair String String) (member : p ∈ kv.pairs) (lrn : Int) :
      lrn ∈ finishedLrn stage p ↔ IsRecord p lrn stage := by
    obtain ⟨lrn', stage', record⟩ := records p member
    rw [finishedLrn_record record]
    constructor
    · intro here
      split at here
      next same =>
        cases here
        exact same ▸ record
      · cases here
    · rintro ⟨_, key, value⟩
      obtain rfl := keyFinish_injective (record.2.1.symm.trans key)
      rw [if_pos (Stage.number_injective (itoa_injective (record.2.2.symm.trans value)))]
      rfl
  refine ⟨kv.pairs.filterMap (finishedLrn stage), ?_, ?_, fun lrn => ?_⟩
  · rw [getFinished, whole, foldlM_collectFinished kv.pairs records]
    rfl
  · -- Two records of one server have the same key.
    refine List.pairwise_filterMap.mpr (kv.sorted.imp_of_mem ?_)
    intro p q memberP memberQ less lrn foundP lrn' foundQ same
    subst same
    have keyP := ((found p memberP lrn).mp foundP).2.1
    have keyQ := ((found q memberQ lrn).mp foundQ).2.1
    exact absurd (keyP.trans keyQ.symm) less.ne
  · simp only [List.mem_filterMap]
    constructor
    · rintro ⟨p, member, here⟩
      exact ⟨p, member, (found p member lrn).mp here⟩
    · rintro ⟨p, member, record⟩
      exact ⟨p, member, (found p member lrn).mpr record⟩

/-! ### The invariant -/

/-- A server finishes the second stage only when no server is left in the loop of the first. -/
def AllLeft (b : BootServers) (s : System) : Action → Prop
  | .finish lrn => s.phases lrn = .restarting → ∀ i ∈ b.lrns, s.phases i ≠ .waitingBefore
  | _ => True

instance (b : BootServers) (s : System) : ∀ a, Decidable (AllLeft b s a)
  | .finish lrn => inferInstanceAs
      (Decidable (s.phases lrn = .restarting → ∀ i ∈ b.lrns, s.phases i ≠ .waitingBefore))
  | .poll _ | .pollError _ | .fail _ => .isTrue trivial

/-- The stage that the key of a server holds. -/
def System.LastStage (s : System) (lrn : Int) : Stage → Prop
  | .beforeRestart => (lrn, .beforeRestart) ∈ s.finished ∧ (lrn, .afterRestart) ∉ s.finished
  | .afterRestart => (lrn, .afterRestart) ∈ s.finished

structure Sound (b : BootServers) (s : System) : Prop where
  /-- The keys are those of the servers with the last stages they have finished. -/
  keys : ∀ p, p ∈ s.kv.pairs → ∃ lrn ∈ b.lrns, ∃ stage, IsRecord p lrn stage ∧
    s.LastStage lrn stage
  recorded : ∀ lrn stage, s.LastStage lrn stage → ∃ p ∈ s.kv.pairs, IsRecord p lrn stage
  members : ∀ lrn stage, (lrn, stage) ∈ s.finished → lrn ∈ b.lrns
  preparing : ∀ lrn, s.phases lrn = .preparing → ∀ stage, (lrn, stage) ∉ s.finished
  waiting : ∀ lrn, s.phases lrn = .waitingBefore → lrn ∈ b.lrns
  restarting : ∀ lrn, s.phases lrn = .restarting →
    (lrn, .afterRestart) ∉ s.finished ∧ (lrn, .beforeRestart) ∈ s.left
  left : ∀ lrn stage, (lrn, stage) ∈ s.left → ∀ i ∈ b.lrns, (i, stage) ∈ s.finished
  /-- Nobody overtakes a server that waits in the first loop. -/
  overtaken : ∀ lrn, (lrn, .afterRestart) ∈ s.finished → ∀ i ∈ b.lrns,
    s.phases i ≠ .preparing ∧ s.phases i ≠ .waitingBefore

theorem Sound.records {b : BootServers} {s : System} (sound : Sound b s)
    (p : Pair String String) (member : p ∈ s.kv.pairs) : ∃ lrn stage, IsRecord p lrn stage := by
  obtain ⟨lrn, _, stage, record, _⟩ := sound.keys p member
  exact ⟨lrn, stage, record⟩

/-- The condition of a loop holds exactly when the keys of all servers hold its stage. -/
theorem Sound.allFinished_iff {b : BootServers} {s : System} (sound : Sound b s) (stage : Stage) :
    allFinished b s.kv stage = true ↔ ∀ lrn ∈ b.lrns, s.LastStage lrn stage := by
  obtain ⟨lrns, returned, nodup, members⟩ := getFinished_records stage sound.records
  have mem_iff (lrn : Int) : lrn ∈ lrns ↔ s.LastStage lrn stage := by
    rw [members]
    constructor
    · rintro ⟨p, member, record⟩
      obtain ⟨lrn', _, stage', record', last⟩ := sound.keys p member
      obtain rfl := keyFinish_injective (record.2.1.symm.trans record'.2.1)
      obtain rfl := Stage.number_injective (itoa_injective (record.2.2.symm.trans record'.2.2))
      exact last
    · exact sound.recorded lrn stage
  have subset : lrns ⊆ b.lrns := by
    intro lrn member
    obtain ⟨p, there, record⟩ := (members lrn).mp member
    obtain ⟨lrn', known, _, record', _⟩ := sound.keys p there
    rwa [keyFinish_injective (record.2.1.symm.trans record'.2.1)]
  simp only [allFinished, returned, beq_iff_eq]
  constructor
  · -- As many distinct servers as there are: all of them.
    intro count lrn member
    have perm : lrns.Perm b.lrns :=
      (List.subperm_of_subset nodup subset).perm_of_length_le count.ge
    exact (mem_iff lrn).mp (perm.mem_iff.mpr member)
  · intro all
    have superset : b.lrns ⊆ lrns := fun lrn member => (mem_iff lrn).mpr (all lrn member)
    exact Nat.le_antisymm (List.subperm_of_subset nodup subset).length_le
      (List.subperm_of_subset b.nodup superset).length_le

/-- A server in a loop sees everybody, once everybody has finished the stage. -/
theorem Sound.stable {b : BootServers} {s : System} (sound : Sound b s) {stage : Stage} {lrn : Int}
    (inside : s.Inside lrn stage)
    (all : ∀ i ∈ b.lrns, (i, stage) ∈ s.finished) : allFinished b s.kv stage = true := by
  rw [sound.allFinished_iff]
  intro i member
  cases stage with
  | beforeRestart =>
    refine ⟨all i member, fun overtaken => ?_⟩
    exact (sound.overtaken i overtaken lrn (sound.waiting lrn inside)).2 inside
  | afterRestart => exact all i member

theorem sound_initial (b : BootServers) : Sound b .initial where
  keys := fun _ member => nomatch member
  recorded := by
    rintro lrn (_ | _) last
    · cases last.1
    · cases last
  members := fun _ _ member => nomatch member
  preparing := fun _ _ _ member => nomatch member
  waiting := fun _ phase => nomatch phase
  restarting := fun _ phase => nomatch phase
  left := fun _ _ member => nomatch member
  overtaken := fun _ member => nomatch member

/-! ### The steps keep the invariant -/

theorem mem_finish {s : System} {lrn i : Int} {stage stage' : Stage} {phase : Phase} :
    (i, stage') ∈ (s.finish lrn stage phase).finished ↔
      (i, stage') ∈ s.finished ∨ i = lrn ∧ stage' = stage := by
  simp [System.finish]

/-- Once a server has finished a stage its key holds that stage; the other keys stay. -/
theorem lastStage_finish {s : System} {lrn : Int} (stage : Stage) (phase : Phase)
    (fresh : (lrn, .afterRestart) ∉ s.finished) (i : Int) (stage' : Stage) :
    (s.finish lrn stage phase).LastStage i stage' ↔
      i = lrn ∧ stage' = stage ∨ i ≠ lrn ∧ s.LastStage i stage' := by
  by_cases same : i = lrn
  · subst same
    cases stage <;> cases stage' <;> simp [System.LastStage, mem_finish, fresh]
  · cases stage' <;> simp [System.LastStage, mem_finish, same]

theorem Sound.finish {b : BootServers} {s : System} (sound : Sound b s) {lrn : Int}
    (server : lrn ∈ b.lrns) {stage : Stage} {phase : Phase}
    (fresh : (lrn, .afterRestart) ∉ s.finished)
    (enters : phase ≠ .preparing ∧ phase ≠ .restarting)
    (first : stage = .beforeRestart → ∀ i, (i, .afterRestart) ∉ s.finished)
    (second : stage = .afterRestart → phase ≠ .waitingBefore ∧ ∀ i ∈ b.lrns,
      s.phases i ≠ .preparing ∧ s.phases i ≠ .waitingBefore) :
    Sound b (s.finish lrn stage phase) where
  keys := by
    intro p member
    rcases KV.mem_put.mp member with rfl | ⟨old, other⟩
    · refine ⟨lrn, server, stage, ⟨b.ints lrn server, rfl, rfl⟩, ?_⟩
      exact (lastStage_finish stage phase fresh lrn stage).mpr (.inl ⟨rfl, rfl⟩)
    · obtain ⟨i, known, stage', record, last⟩ := sound.keys p old
      have different : i ≠ lrn := fun same => other (same ▸ record.2.1)
      exact ⟨i, known, stage', record,
        (lastStage_finish stage phase fresh i stage').mpr (.inr ⟨different, last⟩)⟩
  recorded := by
    intro i stage' last
    rcases (lastStage_finish stage phase fresh i stage').mp last with ⟨rfl, rfl⟩ | ⟨other, last⟩
    · exact ⟨_, KV.mem_put.mpr (.inl rfl), b.ints i server, rfl, rfl⟩
    · obtain ⟨p, member, record⟩ := sound.recorded i stage' last
      refine ⟨p, KV.mem_put.mpr (.inr ⟨member, fun same => other ?_⟩), record⟩
      exact keyFinish_injective (record.2.1.symm.trans same)
  members := by
    intro i stage' member
    rcases mem_finish.mp member with old | ⟨rfl, _⟩
    · exact sound.members i stage' old
    · exact server
  preparing := by
    intro i here stage' member
    by_cases same : i = lrn
    · subst same
      exact enters.1 (by simpa [System.finish, System.enter] using here)
    · rcases mem_finish.mp member with old | ⟨new, _⟩
      · refine sound.preparing i ?_ stage' old
        simpa [System.finish, System.enter, same] using here
      · exact same new
  waiting := by
    intro i here
    by_cases same : i = lrn
    · exact same ▸ server
    · exact sound.waiting i (by simpa [System.finish, System.enter, same] using here)
  restarting := by
    intro i here
    by_cases same : i = lrn
    · subst same
      exact absurd (by simpa [System.finish, System.enter] using here) enters.2
    · have before := sound.restarting i (by simpa [System.finish, System.enter, same] using here)
      refine ⟨fun member => ?_, before.2⟩
      rcases mem_finish.mp member with old | ⟨new, _⟩
      · exact before.1 old
      · exact same new
  left := fun i stage' member j known => mem_finish.mpr (.inl (sound.left i stage' member j known))
  overtaken := by
    intro i member j known
    cases stage with
    | beforeRestart =>
      -- Nobody can have finished the second stage yet.
      rcases mem_finish.mp member with old | ⟨_, new⟩
      · exact absurd old (first rfl i)
      · cases new
    | afterRestart =>
      by_cases same : j = lrn
      · subst same
        simpa [System.finish, System.enter] using ⟨enters.1, (second rfl).1⟩
      · simpa [System.finish, System.enter, same] using (second rfl).2 j known

/-- A step that only takes a server on, without writing. -/
theorem Sound.enter {b : BootServers} {s : System} (sound : Sound b s) {lrn : Int} {phase : Phase}
    (enters : phase ≠ .preparing ∧ phase ≠ .waitingBefore) (left : List (Int × Stage))
    (restarts : phase = .restarting →
      (lrn, .afterRestart) ∉ s.finished ∧ (lrn, .beforeRestart) ∈ left)
    (more : ∀ entry ∈ s.left, entry ∈ left)
    (all : ∀ i stage, (i, stage) ∈ left → ∀ j ∈ b.lrns, (j, stage) ∈ s.finished) :
    Sound b { s.enter lrn phase with left } where
  keys := sound.keys
  recorded := sound.recorded
  members := sound.members
  preparing := by
    intro i here
    by_cases same : i = lrn
    · subst same
      exact absurd (by simpa [System.enter] using here) enters.1
    · exact sound.preparing i (by simpa [System.enter, same] using here)
  waiting := by
    intro i here
    by_cases same : i = lrn
    · subst same
      exact absurd (by simpa [System.enter] using here) enters.2
    · exact sound.waiting i (by simpa [System.enter, same] using here)
  restarting := by
    intro i here
    by_cases same : i = lrn
    · subst same
      exact restarts (by simpa [System.enter] using here)
    · have before := sound.restarting i (by simpa [System.enter, same] using here)
      exact ⟨before.1, more _ before.2⟩
  left := all
  overtaken := by
    intro i member j known
    by_cases same : j = lrn
    · subst same
      simpa [System.enter] using enters
    · simpa [System.enter, same] using sound.overtaken i member j known

/-- A server that moves on inside its loop or gives up. -/
theorem Sound.move {b : BootServers} {s : System} (sound : Sound b s) (lrn : Int) {phase : Phase}
    (enters : phase ≠ .preparing ∧ phase ≠ .waitingBefore ∧ phase ≠ .restarting) :
    Sound b (s.enter lrn phase) :=
  sound.enter ⟨enters.1, enters.2.1⟩ s.left (fun here => absurd here enters.2.2)
    (fun _ member => member) sound.left

theorem Sound.poll {b : BootServers} {s : System} (sound : Sound b s) {lrn : Int} {stage : Stage}
    {phase : Phase} (enters : phase ≠ .preparing ∧ phase ≠ .waitingBefore)
    (restarts : phase = .restarting → stage = .beforeRestart ∧ (lrn, .afterRestart) ∉ s.finished) :
    Sound b (s.poll b lrn stage phase) := by
  unfold System.poll
  split
  next all =>
    refine sound.enter enters _ ?_ (fun entry member => List.mem_append_left _ member) ?_
    · intro here
      obtain ⟨rfl, fresh⟩ := restarts here
      exact ⟨fresh, List.mem_append_right _ (List.mem_singleton_self _)⟩
    · intro i stage' member j known
      rcases List.mem_append.mp member with old | new
      · exact sound.left i stage' old j known
      · cases List.mem_singleton.mp new
        have last := (sound.allFinished_iff stage).mp all j known
        cases stage with
        | beforeRestart => exact last.1
        | afterRestart => exact last
  · exact sound

theorem Sound.step {b : BootServers} {s t : System} {a : Action} (sound : Sound b s)
    (ok : AllLeft b s a) (stepped : s.step b a = some t) : Sound b t := by
  cases a with
  | finish lrn =>
    simp only [System.step, Option.ite_none_right_eq_some] at stepped
    obtain ⟨server, stepped⟩ := stepped
    split at stepped
    next here =>
      cases stepped
      have nobody (i : Int) : (i, .afterRestart) ∉ s.finished := fun member =>
        (sound.overtaken i member lrn server).1 here
      exact sound.finish server (nobody lrn) (by decide) (fun _ => nobody) nofun
    next here =>
      cases stepped
      refine sound.finish server (sound.restarting lrn here).1 ⟨nofun, nofun⟩ nofun fun _ =>
        ⟨nofun, fun i known => ⟨fun preparing => ?_, ok here i known⟩⟩
      -- This server has left the first loop, so everybody has finished the first stage.
      exact sound.preparing i preparing _ (sound.left lrn _ (sound.restarting lrn here).2 i known)
    · cases stepped
  | poll lrn =>
    simp only [System.step] at stepped
    split at stepped
    next here =>
      cases stepped
      refine sound.poll (by decide) fun _ => ⟨rfl, fun overtaken => ?_⟩
      exact (sound.overtaken lrn overtaken lrn (sound.waiting lrn here)).2 here
    next =>
      cases stepped
      exact sound.poll (by decide) nofun
    · cases stepped
  | pollError lrn =>
    simp only [System.step] at stepped
    split at stepped
    next =>
      cases stepped
      exact sound.move lrn (by decide)
    next =>
      split at stepped
      · cases stepped
        exact sound.move lrn ⟨nofun, nofun, nofun⟩
      · cases stepped
        exact sound.move lrn (by decide)
    · cases stepped
  | fail lrn =>
    cases stepped
    exact sound.move lrn (by decide)

theorem Reached.sound {b : BootServers} {s : System} (reached : Reached b (AllLeft b) s) :
    Sound b s :=
  reached.invariant (Sound b) (sound_initial b) fun _ _ _ sound ok stepped => sound.step ok stepped

/-! ### Stability -/

/-- As long as nobody finishes the second stage while a server is still in the first loop: once a
server has left the loop of a stage, or all servers have finished it, every poll of a server that
is still inside succeeds, however late it comes. -/
theorem setup_barrier_stable (b : BootServers) (s : System) (reached : Reached b (AllLeft b) s)
    (stage : Stage) (lrn : Int) (inside : s.Inside lrn stage) :
    ((∃ i, (i, stage) ∈ s.left) → allFinished b s.kv stage = true) ∧
      ((∀ i ∈ b.lrns, (i, stage) ∈ s.finished) → allFinished b s.kv stage = true) := by
  refine ⟨?_, reached.sound.stable inside⟩
  rintro ⟨i, left⟩
  exact reached.sound.stable inside (reached.sound.left i stage left)

/-- Three servers, as in a small data center. -/
def threeServers : BootServers := ⟨[0, 1, 2], by decide, by decide⟩

/-- All servers finish the first stage and one has left its loop; the next one polls. -/
theorem setup_barrier_stable_three :
    (System.play threeServers (AllLeft threeServers)
      [.finish 0, .finish 1, .finish 2, .poll 0]).left = [(0, .beforeRestart)] ∧
    allFinished threeServers (System.play threeServers (AllLeft threeServers)
      [.finish 0, .finish 1, .finish 2, .poll 0]).kv .beforeRestart = true := by
  refine ⟨by decide +kernel, ?_⟩
  exact (setup_barrier_stable threeServers _ (reached_play _ _ _) .beforeRestart 1
    (by decide +kernel)).1 ⟨0, by decide +kernel⟩

/-- Server 0 leaves the first loop, restarts and finishes the second stage before the others
poll: all have finished the first stage, but server 1 waits for it in vain. -/
theorem setup_barrier_overtaken :
    ∃ s, Reached threeServers Transition.always s ∧ s.Inside 1 .beforeRestart ∧
      (0, .beforeRestart) ∈ s.left ∧ (∀ i ∈ threeServers.lrns, (i, .beforeRestart) ∈ s.finished) ∧
      allFinished threeServers s.kv .beforeRestart = false :=
  ⟨.play threeServers Transition.always
    [.finish 0, .finish 1, .finish 2, .poll 0, .finish 0, .poll 1], reached_play _ _ _,
    by decide +kernel⟩

end Neco.Setup
