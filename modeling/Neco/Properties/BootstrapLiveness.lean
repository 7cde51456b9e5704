import Neco.Setup.Course
import Neco.Properties.Bootstrap
import Neco.Lib.Fairness
import Mathlib.SetTheory.Ordinal.Rank

/-!
# The initial setup comes to its end

When nothing fails, the boot servers cannot wait for each other for ever, with one exception: the
first loop over `GetFinished` counts the servers that are in it, and one that has gone on too
fast is missed for good. They also wait for etcd to answer and for Vault to elect a leader, which
both happen some time, and the services that have been started do not stop them.

Each place that a server has reached has left a mark at the site. The leader is the one who can be
waited for; wherever the leader waits, somebody else can go on.
-/

namespace Neco.Bootstrap

open Program Neco.Setup KeyValue Transition

variable {V : Vault} {b : BootServers} {artifacts : Artifacts} {opts : Int → Options} {lrn : Int}

/-! ### The marks that a place leaves -/

/-- All servers have told that they have their first certificates. -/
def Site.EverySigned (b : BootServers) (s : Site V) : Prop :=
  ∀ i ∈ b.lrns, bootstrapDonePath i ∈ s.dev.secrets

/-- The leader has done all that the others wait for before they register. -/
def Site.Open (b : BootServers) (s : Site V) : Prop :=
  s.EverySigned b ∧ s.unsealKey.isSome = true

/-- What holds when a server has come to a place. -/
def Located (b : BootServers) (lrn : Int) (s : Site V) : Place → Prop
  | .start => bootstrapDonePath lrn ∉ s.dev.secrets
  | .announced => isLeader b lrn = true ∧ s.devState = .running ∧ bootstrapPath ∈ s.dev.secrets
  | .signed => bootstrapDonePath lrn ∈ s.dev.secrets ∧
      (isLeader b lrn = true → s.devState = .running ∧ bootstrapPath ∈ s.dev.secrets)
  | .stopped => isLeader b lrn = true ∧ s.EverySigned b
  | .published => isLeader b lrn = true ∧ s.Open b
  | .finished stage => s.At lrn stage ∧ bootstrapDonePath lrn ∈ s.dev.secrets ∧
      (isLeader b lrn = true → s.Open b)

theorem start_development [V.Documented] (lrn : Int) :
    bootstrapDonePath lrn ∉ (V.contents V.development).secrets := by
  rw [Vault.Documented.development]
  exact List.not_mem_nil

section Located

variable {s t : Site V} {k : Place}

theorem Site.EverySigned.left (left : LeftToLeader s t) (signed : s.EverySigned b) :
    t.EverySigned b := fun i member => left.secrets _ (signed i member)

theorem Site.Open.left (left : LeftToLeader s t) (opened : s.Open b) : t.Open b :=
  ⟨opened.1.left left, left.unsealKey ▸ opened.2⟩

/-- The others do not wipe the marks away. -/
theorem Located.rely (rely : Rely b lrn s t) (located : Located b lrn s k) : Located b lrn t k := by
  cases k with
  | start => exact fun done => located (rely.done.mp done)
  | announced =>
    obtain ⟨leader, running, announced⟩ := located
    have left := rely.leader leader
    exact ⟨leader, left.devState.trans running, left.secrets _ announced⟩
  | signed =>
    refine ⟨rely.done.mpr located.1, fun leader => ?_⟩
    obtain ⟨running, announced⟩ := located.2 leader
    have left := rely.leader leader
    exact ⟨left.devState.trans running, left.secrets _ announced⟩
  | stopped => exact ⟨located.1, located.2.left (rely.leader located.1)⟩
  | published => exact ⟨located.1, located.2.left (rely.leader located.1)⟩
  | finished stage =>
    obtain ⟨here, done, opened⟩ := located
    exact ⟨rely.stage.trans here, rely.done.mpr done, fun leader =>
      (opened leader).left (rely.leader leader)⟩

/-- The parts of the site on which the marks are. -/
structure SameMarks (s t : Site V) : Prop where
  devState : t.devState = s.devState
  secrets : t.dev.secrets = s.dev.secrets
  finishes : t.finishes = s.finishes
  unsealKey : t.unsealKey = s.unsealKey

theorem Located.same (marks : SameMarks s t) (located : Located b lrn s k) : Located b lrn t k := by
  cases k <;>
    simpa only [Located, Site.Open, Site.EverySigned, Site.At, Site.stage, marks.devState,
      marks.secrets, marks.finishes, marks.unsealKey] using located

/-- Whether a call leaves a mark. -/
def Call.marks : Call → Bool
  | .startDev => true
  | .stopDev _ => true
  | .dev (.write _) => true
  | .putVaultUnsealKey _ => true
  | .finish _ _ => true
  | _ => false

/-- The leader exchanges the engine for secrets while there are none. -/
theorem secrets_dev [V.Documented] (good : Good b artifacts s) (going : s.devState ≠ .abandoned)
    {op : VaultOp} (may : MayAskDev b s lrn op) (plain : ∀ path, op ≠ .write path) {x : op.Value}
    {chance : V.Chance} {devServer : V.State}
    (answer : V.handle chance s.devServer devRootToken op = some (x, devServer)) :
    (V.contents devServer).secrets = s.dev.secrets := by
  rw [(Vault.served good.devToken (may.admits going).2 answer).2]
  by_cases engine : op = .unmountSecret
  · subst engine
    refine (good.unmounted ?_).symm
    rw [may.2.2]
    exact fun same => by cases same
  · exact Contents.secrets_after plain engine

theorem perform_sameMarks [V.Documented] {fresh : V.Chance × String} {clock : Int} {c : Call}
    {v : Value c} (good : Good b artifacts s) (going : s.devState ≠ .abandoned)
    (permitted : Permits b artifacts lrn s c) (plain : c.marks = false)
    (served : s.perform b artifacts fresh clock lrn c = .done v t) : SameMarks s t := by
  cases c with
  | startDev => cases plain
  | stopDev succeeded => cases plain
  | putVaultUnsealKey key => cases plain
  | finish i stage => cases plain
  | host op =>
    cases op <;> simp only [Site.perform, Site.serveHost] at served <;>
      (repeat' split at served) <;> cases served <;> exact ⟨rfl, rfl, rfl, rfl⟩
  | dev op =>
    have may : MayAskDev b s lrn op := permitted
    have plain (path : String) : op ≠ .write path := by
      rintro rfl
      cases plain
    obtain ⟨_, _, answer, rfl⟩ := perform_dev served
    exact ⟨rfl, secrets_dev good going may plain answer, rfl, rfl⟩
  | _ =>
    simp only [Site.perform] at served
    repeat' split at served
    all_goals cases served
    all_goals exact ⟨rfl, rfl, rfl, rfl⟩

theorem after_of_not_marks {c : Call} (plain : c.marks = false) : k.after c = k := by
  cases c with
  | dev op =>
    cases op with
    | write path => cases plain
    | _ => rfl
  | startDev => cases plain
  | stopDev succeeded => cases plain
  | putVaultUnsealKey key => cases plain
  | finish i stage => cases plain
  | _ => rfl

theorem Located.wrote [V.Documented] {fresh : V.Chance × String} {clock : Int} {path : String}
    {v : Unit} (good : Good b artifacts s) (going : s.devState ≠ .abandoned)
    (located : Located b lrn s k) (fits : k.fits b lrn (.dev (.write path)))
    (may : MayAskDev b s lrn (.write path))
    (served : s.perform b artifacts fresh clock lrn (.dev (.write path)) = .done v t) :
    Located b lrn t (k.after (.dev (.write path))) := by
  have admitted := (may.admits going).2
  obtain ⟨running, devServer, answer, rfl⟩ := perform_dev served
  have written : (V.contents devServer).secrets = path :: s.dev.secrets := by
    rw [(Vault.served good.devToken admitted answer).2]
    rfl
  rcases fits with ⟨rfl, rfl, leader⟩ | ⟨rfl, rfl⟩
  · rw [Place.after, if_pos rfl]
    exact ⟨leader, running, written ▸ List.mem_cons_self ..⟩
  · rw [Place.after, if_neg (bootstrapDonePath_ne lrn)]
    refine ⟨written ▸ List.mem_cons_self .., fun leader => ⟨running, ?_⟩⟩
    rw [leader] at located
    exact written ▸ List.mem_cons_of_mem _ located.2.2

/-- A server that finishes a stage has done what is asked before. -/
theorem Located.finishing {stage : Stage} (located : Located b lrn s k) (member : lrn ∈ b.lrns)
    (fits : k.fits b lrn (.finish lrn stage)) :
    bootstrapDonePath lrn ∈ s.dev.secrets ∧ (isLeader b lrn = true → s.Open b) := by
  cases stage with
  | beforeRestart =>
    change k = .joined (isLeader b lrn) at fits
    subst fits
    cases leads : isLeader b lrn with
    | true =>
      rw [leads] at located
      exact ⟨located.2.1 lrn member, fun _ => located.2⟩
    | false =>
      rw [leads] at located
      exact ⟨located.1, fun leader => by cases leader⟩
  | afterRestart =>
    change k = .finished .beforeRestart at fits
    subst fits
    exact located.2

/-- A call that is made at its place leads to the next one. -/
theorem Located.served [V.Documented] {fresh : V.Chance × String} {clock : Int} {c : Call}
    {v : Value c} (good : Good b artifacts s) (going : s.devState ≠ .abandoned)
    (located : Located b lrn s k) (fits : k.fits b lrn c)
    (permitted : Permits b artifacts lrn s c)
    (served : s.perform b artifacts fresh clock lrn c = .done v t) :
    Located b lrn t (k.after c) := by
  cases marks : c.marks with
  | false =>
    rw [after_of_not_marks marks]
    exact located.same (perform_sameMarks good going permitted marks served)
  | true =>
    cases c with
    | startDev =>
      cases served
      change k = .start at fits
      subst fits
      exact start_development lrn
    | stopDev succeeded =>
      cases served
      exact ⟨permitted.1, permitted.2 fits.1⟩
    | dev op =>
      cases op with
      | write path => exact located.wrote good going fits permitted served
      | _ => cases marks
    | putVaultUnsealKey key =>
      cases served
      change k = .stopped at fits
      subst fits
      exact ⟨located.1, located.2, rfl⟩
    | finish i stage =>
      cases served
      obtain ⟨rfl, member, _⟩ := permitted
      obtain ⟨done, opened⟩ := located.finishing member fits
      exact ⟨(stage_finish (s.commit .other) i i stage).trans (if_pos rfl), done, opened⟩
    | _ => cases marks

end Located

/-! ### Runs without failures -/

/-- A request to Vault with the root token. -/
def Call.asksVault : Call → Bool
  | .vault _ _ => true
  | _ => false

/-- Nothing fails and nobody is told to stop. Vault has a leader when it is asked for something. -/
def Undisturbed (s : System V) : Action V → Prop
  | .call lrn (.serve _ _) =>
    (s.procs lrn).upcoming.any Call.asksVault = true → s.site.elected = true
  | .call _ _ => False
  | .cancel _ => False
  | _ => True

instance (s : System V) (a : Action V) : Decidable (Undisturbed s a) := by
  unfold Undisturbed
  split <;> infer_instance

/-- The steps that `Setup` waits for: those of the servers, of etcd and of Vault. -/
def Awaited (_ : System V) : Action V → Prop
  | .call _ _ => True
  | .elect => True
  | .etcdReady _ => True
  | _ => False

/-- A run in which nothing has failed so far. -/
structure Underway (b : BootServers) (artifacts : Artifacts) (s : System V) : Prop where
  sound : Sound b artifacts s
  calm : ∀ lrn, s.site.cancelled lrn = false
  going : s.site.devState ≠ .abandoned
  placed : ∀ lrn ∈ b.lrns, ∃ k, Located b lrn s.site k ∧
    Proceeds b lrn k (s.procs lrn) (.finished .afterRestart)

theorem underway_initial [V.Documented] :
    Underway b artifacts (System.initial (V := V) b opts) where
  sound := sound_initial
  calm _ := rfl
  going same := by cases same
  placed lrn _ := ⟨.start, start_development lrn, proceeds_setup (opts lrn)⟩

section Site

variable {s t : Site V} {fresh : V.Chance × String} {clock : Int} {c : Call} {v : Value c}

theorem cancelled_perform (served : s.perform b artifacts fresh clock lrn c = .done v t) :
    t.cancelled = s.cancelled := by
  cases c with
  | host op =>
    cases op <;> simp only [Site.perform, Site.serveHost] at served <;>
      (repeat' split at served) <;> cases served <;> rfl
  | _ =>
    simp only [Site.perform] at served
    repeat' split at served
    all_goals cases served
    all_goals rfl

theorem usual_perform (calm : s.cancelled lrn = false)
    (served : s.perform b artifacts fresh clock lrn c = .done v t) : Usual c v := by
  cases c with
  | awaitSecret path =>
    obtain ⟨_, ⟨found, _⟩ | ⟨_, cancelled⟩⟩ := perform_awaitSecret served
    · exact found
    · cases calm.symm.trans cancelled
  | _ => trivial

theorem going_perform {k : Place} (going : s.devState ≠ .abandoned) (fits : k.fits b lrn c)
    (served : s.perform b artifacts fresh clock lrn c = .done v t) : t.devState ≠ .abandoned := by
  cases c with
  | startDev =>
    cases served
    exact fun same => by cases same
  | stopDev succeeded =>
    cases served
    obtain ⟨rfl, _⟩ := fits
    exact fun same => by cases same
  | _ =>
    rw [devState_perform rfl served]
    exact going

end Site

section Steps

variable {s t : System V} {c : Call} {next : Reply c → Prog Unit}

theorem Underway.permits (underway : Underway b artifacts s) (member : lrn ∈ b.lrns)
    (current : s.procs lrn = .call c next) : Bootstrap.permits b artifacts lrn s.site c := by
  have executing := underway.sound.running lrn member
  rw [current] at executing
  exact executing.permitted

/-- Without failures a call is served, or it waits. -/
theorem Underway.serves [V.Documented] (underway : Underway b artifacts s) (member : lrn ∈ b.lrns)
    (current : s.procs lrn = .call c next) (asked : c.asksVault = true → s.site.elected = true)
    (fresh : V.Chance × String) (clock : Int) :
    s.site.perform b artifacts fresh clock lrn c = .blocked ∧
      s.site.answer b artifacts lrn (.serve fresh clock) c = none ∨
    ∃ v t, s.site.perform b artifacts fresh clock lrn c = .done v t ∧
      s.site.answer b artifacts lrn (.serve fresh clock) c = some (.ok v, t) := by
  have good := underway.sound.good
  obtain ⟨_, etcd, permitted⟩ := underway.permits member current good
  have early : ¬s.site.TooEarly c := by
    rintro ⟨⟨token, op, rfl⟩, _, lost⟩
    cases lost.symm.trans (asked rfl)
  have accepted := permitted.served good underway.going early fresh clock
  simp only [Site.answer, serve_eq_perform etcd, underway.calm lrn, Bool.and_false,
    Bool.false_eq_true, if_false]
  cases served : s.site.perform b artifacts fresh clock lrn c with
  | done v t => exact .inr ⟨v, t, rfl, rfl⟩
  | refused => exact absurd served accepted
  | blocked => exact .inl ⟨rfl, rfl⟩

/-- The answer to a call. -/
theorem Underway.called [V.Documented] {fresh : V.Chance × String} {clock : Int}
    (underway : Underway b artifacts s)
    (undisturbed : Undisturbed s (.call lrn (.serve fresh clock)))
    (stepped : s.step b artifacts (.call lrn (.serve fresh clock)) = some t) :
    Underway b artifacts t ∧ OneCalled b.lrns t.procs s.procs := by
  have good := underway.sound.good
  have sound := underway.sound.step stepped
  simp only [System.step] at stepped
  split at stepped
  next member =>
    split at stepped
    next c next current =>
      obtain ⟨⟨reply, site⟩, answered, rfl⟩ := Option.map_eq_some_iff.mp stepped
      have permitted := underway.permits member current
      have kept := kept_answer good permitted answered
      have asked : c.asksVault = true → s.site.elected = true := by
        simpa [Undisturbed, current, Prog.upcoming] using undisturbed
      obtain ⟨k, located, proceeds⟩ := underway.placed lrn member
      rw [current] at proceeds
      rcases underway.serves member current asked fresh clock with
        ⟨_, none⟩ | ⟨v, site', served, some⟩
      · cases none.symm.trans answered
      · cases some.symm.trans answered
        refine ⟨⟨sound, ?_, going_perform underway.going proceeds.1 served, ?_⟩, lrn, member, ?_, ?_⟩
        · rw [cancelled_perform served]
          exact underway.calm
        · intro i here
          by_cases same : i = lrn
          · subst same
            simp only [Function.update_self]
            have usual := usual_perform (underway.calm i) served
            exact ⟨_, located.served good underway.going proceeds.1 (permitted good).2.2 served,
              proceeds.2 _ ⟨v, rfl, usual⟩⟩
          · simp only [Function.update_of_ne same]
            obtain ⟨k', located', proceeds'⟩ := underway.placed i here
            exact ⟨k', located'.rely (kept.rely i here same), proceeds'⟩
        · simp only [Function.update_self, current]
          exact .mk c next (.ok v)
        · exact fun j other => Function.update_of_ne other ..
    · cases stepped
  · cases stepped

/-- Something happens by itself. -/
theorem Underway.unasked (underway : Underway b artifacts s) (same : t.procs = s.procs)
    (unasked : Unasked b artifacts s.site t.site) (calm : t.site.cancelled = s.site.cancelled) :
    Underway b artifacts t where
  sound := underway.sound.unasked same unasked
  calm := calm ▸ underway.calm
  going := unasked.devState ▸ underway.going
  placed lrn member := by
    obtain ⟨k, located, proceeds⟩ := underway.placed lrn member
    exact ⟨k, located.rely (unasked.rely lrn), same ▸ proceeds⟩

end Steps

/-! ### What is left to do -/

/-- How many answers of etcd and elections of Vault are still to come, if nothing is restarted. -/
def Site.pending (b : BootServers) (s : Site V) : ℕ :=
  (b.lrns.filter fun lrn => !s.etcd lrn).length + if s.elected then 0 else 1

/-- A call leaves less to do, also when it restarts something. -/
noncomputable def System.left (b : BootServers) (s : System V) : Ordinal ×ₗ ℕ :=
  toLex (IsWellFounded.rank (OneCalled b.lrns) s.procs, s.site.pending b)

section Left

variable {s t : System V}

theorem left_of_called (called : OneCalled b.lrns t.procs s.procs) : t.left b < s.left b :=
  Prod.Lex.toLex_lt_toLex.mpr (.inl (IsWellFounded.rank_lt_of_rel called))

theorem left_of_pending (same : t.procs = s.procs) (fewer : t.site.pending b < s.site.pending b) :
    t.left b < s.left b :=
  Prod.Lex.toLex_lt_toLex.mpr (.inr ⟨congrArg (IsWellFounded.rank _) same, fewer⟩)

theorem pending_elect (s : Site V) (lost : s.elected = false) :
    Site.pending b { s with elected := true } < s.pending b := by
  simp [Site.pending, lost]

theorem pending_etcdReady (s : Site V) (member : lrn ∈ b.lrns) (silent : s.etcd lrn = false) :
    Site.pending b { s with etcd := Function.update s.etcd lrn true } < s.pending b := by
  -- the members that do not answer are the same but for one
  have fewer : (b.lrns.filter fun i => !Function.update s.etcd lrn true i) =
      (b.lrns.filter fun i => !s.etcd i).filter (· ≠ lrn) := by
    rw [List.filter_filter]
    refine List.filter_congr fun i _ => ?_
    by_cases same : i = lrn <;> simp [same]
  have there : lrn ∈ b.lrns.filter fun i => !s.etcd i := by simp [member, silent]
  have shorter := List.length_filter_lt_length_iff_exists (p := fun i => decide (i ≠ lrn)).mpr
    ⟨lrn, there, by simp⟩
  simp only [Site.pending, fewer]
  omega

theorem pending_work {s t : Site V} {work : Work} (worked : s.work lrn work = some t) :
    t.cancelled = s.cancelled ∧ t.pending b = s.pending b := by
  cases work with
  | commit c =>
    simp only [Site.work] at worked
    split at worked
    · cases worked
      exact ⟨rfl, rfl⟩
    · cases worked
  | record name tag =>
    cases worked
    exact ⟨rfl, rfl⟩

/-- Nothing that happens puts off the end; what helps brings it nearer. -/
theorem Underway.step [V.Documented] {a : Action V} (underway : Underway b artifacts s)
    (undisturbed : Undisturbed s a) (stepped : s.step b artifacts a = some t) :
    Underway b artifacts t ∧ t.left b ≤ s.left b ∧ (Awaited s a → t.left b < s.left b) := by
  have good := underway.sound.good
  cases a with
  | call lrn choice =>
    cases choice with
    | serve fresh clock =>
      obtain ⟨later, called⟩ := underway.called undisturbed stepped
      exact ⟨later, (left_of_called called).le, fun _ => left_of_called called⟩
    | lost fresh clock => exact undisturbed.elim
    | fault => exact undisturbed.elim
  | cancel lrn => exact undisturbed.elim
  | elect =>
    simp only [System.step] at stepped
    split at stepped
    next possible =>
      cases stepped
      have less : System.left b ⟨{ s.site with elected := true }, s.procs⟩ < s.left b :=
        left_of_pending rfl (pending_elect s.site possible.1)
      exact ⟨underway.unasked rfl (unasked_elect good) rfl, less.le, fun _ => less⟩
    · cases stepped
  | etcdReady lrn =>
    simp only [System.step] at stepped
    split at stepped
    next possible =>
      cases stepped
      have less : System.left b
          ⟨{ s.site with etcd := Function.update s.site.etcd lrn true }, s.procs⟩ < s.left b :=
        left_of_pending rfl (pending_etcdReady s.site possible.1 possible.2.1)
      exact ⟨underway.unasked rfl (unasked_etcdReady good) rfl, less.le, fun _ => less⟩
    · cases stepped
  | work lrn work =>
    simp only [System.step] at stepped
    split at stepped
    next serving =>
      obtain ⟨site, worked, rfl⟩ := Option.map_eq_some_iff.mp stepped
      obtain ⟨calm, same⟩ := pending_work (b := b) worked
      refine ⟨underway.unasked rfl (unasked_work good serving worked) calm, ?_, False.elim⟩
      rw [System.left, System.left, same]
    · cases stepped
  | idle =>
    cases stepped
    exact ⟨underway, le_rfl, False.elim⟩

end Left

/-! ### Nobody waits for ever -/

/-- A server waits in the loop of the first stage for another that has finished the second. -/
def System.Overtaken (b : BootServers) (s : System V) : Prop :=
  ∃ slow ∈ b.lrns, ∃ fast ∈ b.lrns, s.site.At fast .afterRestart ∧
    ∃ next, s.procs slow = .call (.awaitFinished .beforeRestart) next

/-- A server waits in the loop of a stage that another has not finished. -/
def System.Waits (b : BootServers) (s : System V) (lrn : Int) (stage : Stage) : Prop :=
  ∃ i ∈ b.lrns, ¬s.site.At i stage ∧ ∃ next, s.procs lrn = .call (.awaitFinished stage) next

/-- The ways in which a server can take no step. -/
inductive Stuck (b : BootServers) (s : System V) (lrn : Int) : Place → Prop
  | authorities : ¬(s.site.devState = .running ∧ bootstrapPath ∈ s.site.dev.secrets) →
      Stuck b s lrn (.asking (isLeader b lrn))
  | certificates {i : Int} : isLeader b lrn = true → i ∈ b.lrns →
      ¬(s.site.devState = .running ∧ bootstrapDonePath i ∈ s.site.dev.secrets) → Stuck b s lrn .signed
  | unsealKey : isLeader b lrn = false → s.site.unsealKey = none → Stuck b s lrn .signed
  | barrier {stage : Stage} : s.Waits b lrn stage → Stuck b s lrn (.finished stage)
  | returned : s.procs lrn = .ret () → Stuck b s lrn (.finished .afterRestart)

/-- The loop of a stage ends when all servers have finished it. -/
theorem finished_of_at {s : Site V} (good : Good b artifacts s) {stage : Stage}
    (all : ∀ i ∈ b.lrns, s.At i stage) :
    ∃ finished, getFinished s.finishes stage = some finished ∧
      finished.length = b.lrns.length := by
  have records : ∀ p ∈ s.finishes.pairs, ∃ i stage', IsRecord p i stage' := by
    intro p member
    obtain ⟨i, _, stage', record⟩ := good.records p member
    exact ⟨i, stage', record⟩
  obtain ⟨finished, returned, nodup, members⟩ := getFinished_records stage records
  refine ⟨finished, returned, (List.perm_of_nodup_nodup_toFinset_eq nodup b.nodup ?_).length_eq⟩
  ext i
  rw [List.mem_toFinset, List.mem_toFinset, members]
  constructor
  · rintro ⟨p, here, record⟩
    obtain ⟨j, other, stage', record'⟩ := good.records p here
    rwa [keyFinish_injective (record.2.1.symm.trans record'.2.1)]
  · intro member
    obtain ⟨p, found, value⟩ := Option.map_eq_some_iff.mp (all i member)
    obtain ⟨here, key⟩ := KV.get_eq_some.mp found
    exact ⟨p, here, b.ints i member, key, value⟩

/-- No step can be taken that helps. -/
def System.Quiescent (b : BootServers) (artifacts : Artifacts) (s : System V) : Prop :=
  ∀ a t, Undisturbed s a → Awaited s a → s.step b artifacts a ≠ some t

/-- Then Vault has elected a leader, if a server is unsealed. -/
theorem System.Quiescent.elected {s : System V} (quiescent : s.Quiescent b artifacts)
    (member : lrn ∈ b.lrns) (unsealed : (s.site.machines lrn).unsealed = true) :
    s.site.elected = true := by
  by_contra lost
  exact quiescent .elect _ trivial trivial
    (if_pos ⟨Bool.eq_false_iff.mpr lost, lrn, member, unsealed⟩)

theorem System.Quiescent.etcd {s : System V} (quiescent : s.Quiescent b artifacts)
    (member : lrn ∈ b.lrns) (started : "etcd-container" ∈ (s.site.machines lrn).services) :
    s.site.etcd lrn = true := by
  by_contra silent
  exact quiescent (.etcdReady lrn) _ trivial trivial
    (if_pos ⟨member, Bool.eq_false_iff.mpr silent, started⟩)

/-- What a call waits for. -/
theorem stuck_of_blocked {s : System V} (good : Good b artifacts s.site)
    (quiescent : s.Quiescent b artifacts) (member : lrn ∈ b.lrns) {k : Place} {c : Call}
    {next : Reply c → Prog Unit} (current : s.procs lrn = .call c next) (fits : k.fits b lrn c)
    (permitted : Permits b artifacts lrn s.site c) {fresh : V.Chance × String} {clock : Int}
    (blocked : s.site.perform b artifacts fresh clock lrn c = .blocked) : Stuck b s lrn k := by
  cases c with
  | awaitSecret path =>
    have absent : ¬(s.site.devState = .running ∧ path ∈ s.site.dev.secrets) := by
      intro there
      rw [Site.perform, if_pos there] at blocked
      cases blocked
    rcases fits with ⟨rfl, rfl⟩ | ⟨leader, rfl, i, other, rfl⟩
    · exact .authorities absent
    · exact .certificates leader other absent
  | awaitVaultUnsealKey =>
    obtain ⟨rfl, follower⟩ := fits
    simp only [Site.perform] at blocked
    split at blocked
    · cases blocked
    next absent => exact .unsealKey follower absent
  | awaitFinished stage =>
    cases fits
    have missing : ¬∀ i ∈ b.lrns, s.site.At i stage := by
      intro all
      obtain ⟨finished, returned, complete⟩ := finished_of_at good all
      simp [Site.perform, returned, complete] at blocked
    obtain ⟨i, missing⟩ := not_forall.mp missing
    obtain ⟨other, absent⟩ := not_forall.mp missing
    exact .barrier ⟨i, other, absent, next, current⟩
  | waitVaultLeader token =>
    obtain ⟨_, unsealed, valid⟩ := permitted
    have reaches : s.site.reachesVault lrn = true := by
      rw [Site.reachesVault, unsealed, quiescent.elected member unsealed]
      rfl
    rw [Site.perform, if_pos ⟨reaches, valid⟩] at blocked
    cases blocked
  | host op =>
    cases op with
    | waitEtcdForVault =>
      have ready : s.site.etcd lrn = true := quiescent.etcd member permitted
      rw [Site.perform, Site.serveHost, if_pos ready] at blocked
      cases blocked
    | _ =>
      simp only [Site.perform, Site.serveHost] at blocked
      repeat' split at blocked
      all_goals cases blocked
  | _ =>
    -- the other calls do not wait
    simp only [Site.perform] at blocked
    repeat' split at blocked
    all_goals cases blocked

theorem Underway.stuck [V.Documented] {s : System V} (underway : Underway b artifacts s)
    (quiescent : s.Quiescent b artifacts) (member : lrn ∈ b.lrns) :
    ∃ k, Located b lrn s.site k ∧ Stuck b s lrn k := by
  obtain ⟨k, located, proceeds⟩ := underway.placed lrn member
  refine ⟨k, located, ?_⟩
  cases current : s.procs lrn with
  | ret a =>
    rw [current] at proceeds
    cases proceeds
    exact .returned current
  | fail e =>
    rw [current] at proceeds
    exact proceeds.elim
  | call c next =>
    rw [current] at proceeds
    have good := underway.sound.good
    have permitted := (underway.permits member current good).2.2
    -- an unsealed server is there, so that Vault could elect a leader
    have asked : c.asksVault = true → s.site.elected = true := by
      intro asks
      cases c with
      | vault token op => exact quiescent.elected member permitted.1
      | _ => cases asks
    obtain ⟨chance⟩ := V.chances
    rcases underway.serves member current asked (chance, "") 0 with
      ⟨blocked, _⟩ | ⟨v, t, _, answered⟩
    · exact stuck_of_blocked good quiescent member current proceeds.1 permitted blocked
    · have stepped : s.step b artifacts (.call lrn (.serve (chance, "") 0)) =
          some ⟨t, Function.update s.procs lrn (next (.ok v))⟩ := by
        simp only [System.step, if_pos member, current, answered, Option.map_some]
      refine absurd stepped (quiescent _ _ ?_ trivial)
      simpa [Undisturbed, current, Prog.upcoming] using asked

section Deadlock

variable {s : System V} (stuck : ∀ lrn ∈ b.lrns, ∃ k, Located b lrn s.site k ∧ Stuck b s lrn k)
include stuck

/-- While the development server runs, the followers get their certificates. -/
theorem done_of_stuck (running : s.site.devState = .running)
    (announced : bootstrapPath ∈ s.site.dev.secrets) {i : Int} (member : i ∈ b.lrns) :
    bootstrapDonePath i ∈ s.site.dev.secrets := by
  obtain ⟨k, located, here⟩ := stuck i member
  cases here with
  | authorities absent => exact absurd ⟨running, announced⟩ absent
  | certificates => exact located.1
  | unsealKey => exact located.1
  | barrier => exact located.2.1
  | returned => exact located.2.1

/-- The leader has done its part: it waits for the others at a barrier only. -/
theorem open_of_stuck (leader : isLeader b lrn = true) : s.site.Open b := by
  obtain ⟨k, located, here⟩ := stuck lrn (isLeader_mem leader)
  cases here with
  | authorities absent =>
    rw [leader] at located
    exact absurd located.2 absent
  | certificates _ member absent =>
    obtain ⟨running, announced⟩ := located.2 leader
    exact absurd ⟨running, done_of_stuck stuck running announced member⟩ absent
  | unsealKey follower => cases leader.symm.trans follower
  | barrier => exact located.2.2 leader
  | returned => exact located.2.2 leader

/-- Then everybody is at a barrier, or has returned. -/
theorem finished_of_stuck (opened : s.site.Open b) (member : lrn ∈ b.lrns) :
    ∃ stage, s.site.At lrn stage ∧
      (s.Waits b lrn stage ∨ stage = .afterRestart ∧ s.procs lrn = .ret ()) := by
  obtain ⟨k, located, here⟩ := stuck lrn member
  cases here with
  | authorities absent =>
    cases leads : isLeader b lrn with
    | true =>
      rw [leads] at located
      exact absurd located.2 absent
    | false =>
      rw [leads] at located
      exact absurd (opened.1 lrn member) located
  | certificates leader other absent =>
    obtain ⟨running, _⟩ := located.2 leader
    exact absurd ⟨running, opened.1 _ other⟩ absent
  | unsealKey _ absent =>
    have published := opened.2
    rw [absent] at published
    cases published
  | barrier waits => exact ⟨_, located.1, .inl waits⟩
  | returned current => exact ⟨_, located.1, .inr ⟨rfl, current⟩⟩

theorem returned_of_stuck (leader : isLeader b lrn = true) :
    (∀ i ∈ b.lrns, s.procs i = .ret ()) ∨ s.Overtaken b := by
  have finished {i : Int} (member : i ∈ b.lrns) :=
    finished_of_stuck stuck (open_of_stuck stuck leader) member
  by_cases slow : ∃ i ∈ b.lrns, s.Waits b i .beforeRestart
  · -- The other one is at the second barrier.
    obtain ⟨i, member, j, other, absent, waits⟩ := slow
    obtain ⟨stage, there, _⟩ := finished other
    cases stage with
    | beforeRestart => exact absurd there absent
    | afterRestart => exact .inr ⟨i, member, j, other, there, waits⟩
  · left
    have restarted {i : Int} (member : i ∈ b.lrns) : s.site.At i .afterRestart ∧
        (s.Waits b i .afterRestart ∨ s.procs i = .ret ()) := by
      obtain ⟨stage, here, waits | ⟨rfl, returned⟩⟩ := finished member
      · cases stage with
        | beforeRestart => exact absurd ⟨i, member, waits⟩ slow
        | afterRestart => exact ⟨here, .inl waits⟩
      · exact ⟨here, .inr returned⟩
    intro i member
    rcases (restarted member).2 with ⟨j, other, absent, _⟩ | returned
    · exact absurd (restarted other).1 absent
    · exact returned

end Deadlock

theorem exists_leader (present : b.lrns ≠ []) : ∃ lrn, isLeader b lrn = true := by
  have sorted : sortInts b.lrns ≠ [] := by
    intro none
    obtain ⟨lrn, member⟩ := List.exists_mem_of_ne_nil _ present
    have here := mem_sortInts.mpr member
    rw [none] at here
    cases here
  exact ⟨(sortInts b.lrns).head sorted, by rw [isLeader, List.head?_eq_some_head sorted]; simp⟩

/-- When nothing fails and Vault elects a leader before it is asked, `Setup` returns on all servers
and the first request is there, unless a server is overtaken in the loop of the first stage. The
servers, etcd and Vault go on some time when they can; what the services do does not matter. -/
theorem setup_completes (V : Vault) [V.Documented] (b : BootServers) (artifacts : Artifacts)
    (opts : Int → Options) (present : b.lrns ≠ []) (run : Nat → System V) (acts : Nat → Action V)
    (start : run 0 = .initial b opts)
    (fair : FairRun (System.step b artifacts) Undisturbed Awaited run acts) :
    ∃ n, (∀ lrn ∈ b.lrns, (run n).procs lrn = .ret ()) ∧ Bootstrapped b artifacts (run n).site ∨
      (run n).Overtaken b := by
  obtain ⟨lrn, leader⟩ := exists_leader present
  refine fair.eventually (P := fun s => (∀ lrn ∈ b.lrns, s.procs lrn = .ret ()) ∧
    Bootstrapped b artifacts s.site ∨ s.Overtaken b) (I := Underway b artifacts) (System.left b)
    ?_ ?_ ?_
  · rw [start]
    exact underway_initial
  · intro s underway
    by_cases quiescent : s.Quiescent b artifacts
    · left
      have stuck := fun lrn (member : lrn ∈ b.lrns) => underway.stuck quiescent member
      -- nobody can go on: all have returned, or one waits for a server that is too fast
      rcases returned_of_stuck stuck leader with all | overtaken
      · have executing := underway.sound.running lrn (isLeader_mem leader)
        rw [all lrn (isLeader_mem leader)] at executing
        obtain ⟨k, l, _, requested, knows⟩ := executing.returned
        have put := (knows.leads leader).requested.trans (requested leader)
        exact .inl ⟨all, underway.sound.good.bootstrapped put⟩
      · exact .inr overtaken
    · right
      simp only [System.Quiescent, not_forall, not_not] at quiescent
      obtain ⟨a, t, undisturbed, helps, stepped⟩ := quiescent
      exact ⟨a, t, undisturbed, helps, stepped⟩
  · exact fun s a t underway undisturbed stepped => underway.step undisturbed stepped

/-! ### A run -/

/-- Where nobody has anything to do or to wait for. -/
theorem still_of_ended {s : System V} (ended : ∀ lrn ∈ b.lrns, (s.procs lrn).upcoming = none)
    (elected : s.site.elected = true) (etcd : ∀ lrn ∈ b.lrns, s.site.etcd lrn = true)
    (a : Action V) (t : System V) (helps : Awaited s a) : s.step b artifacts a ≠ some t := by
  intro stepped
  cases a with
  | call lrn choice =>
    simp only [System.step] at stepped
    split at stepped
    next member =>
      have none := ended lrn member
      split at stepped
      next current =>
        rw [current] at none
        cases none
      · cases stepped
    · cases stepped
  | elect => simp [System.step, elected] at stepped
  | etcdReady lrn =>
    simp only [System.step] at stepped
    split at stepped
    next possible => cases possible.2.1.symm.trans (etcd lrn possible.1)
    · cases stepped
  | _ => exact helps

/-- A run that ends with the return of a server; then nothing happens any more. -/
theorem fairRun_of_ended {s₀ : System V} {labels : List (Action V)} {choice : Choice V}
    (executed : (execOk (System.step b artifacts) Undisturbed s₀ labels).isSome = true)
    (last : labels.getLast? = some (.call lrn choice))
    (ended : ∀ i ∈ b.lrns,
      ((after (System.step b artifacts) Undisturbed s₀ labels).procs i).upcoming = none)
    (elected : (after (System.step b artifacts) Undisturbed s₀ labels).site.elected = true)
    (etcd : ∀ i ∈ b.lrns,
      (after (System.step b artifacts) Undisturbed s₀ labels).site.etcd i = true) :
    FairRun (System.step b artifacts) Undisturbed Awaited
      (fun n => after (System.step b artifacts) Undisturbed s₀ (labels.take n))
      fun n => labels.getD n .idle := by
  obtain ⟨t, executed⟩ := Option.isSome_iff_exists.mp executed
  rw [after, executed, Option.getD_some] at elected
  simp only [after, executed, Option.getD_some] at ended etcd
  refine fairRun_of_execOk (fun _ _ => id) executed ⟨trivial, rfl⟩ ?_
    (still_of_ended ended elected etcd)
  intro u _ a here
  cases last.symm.trans here
  trivial

theorem setup_completes_end :
    let run := fun n => after (System.step threeServers someArtifacts) Undisturbed
      (.initial threeServers fun _ => defaultOptions) (untilEnd.take n)
    ∃ n, (∀ lrn ∈ threeServers.lrns, (run n).procs lrn = .ret ()) ∧
      Bootstrapped threeServers someArtifacts (run n).site ∨ (run n).Overtaken threeServers := by
  intro run
  have fair : FairRun (System.step threeServers someArtifacts) Undisturbed Awaited run
      fun n => untilEnd.getD n .idle :=
    fairRun_of_ended (by decide +kernel) rfl (by decide +kernel) (by decide +kernel)
      (by decide +kernel)
  exact setup_completes plainVault threeServers someArtifacts (fun _ => defaultOptions) (by decide)
    run _ rfl fair

end Neco.Bootstrap
