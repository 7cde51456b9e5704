import Neco.Worker.Deployment

/-!
# What the steps of an update achieve

For each function of the steps, what is true of the server when it returns without an error,
whatever has gone wrong on the way, whichever services have crashed in between and whichever
others have started.
-/

namespace Neco.Deploy

open Program

variable {env : Env} {s t : Host}

/-- Nothing is started but by others, and the records and what systemd has loaded are left alone. -/
structure Kept (env : Env) (s t : Host) : Prop where
  loaded : t.loaded = s.loaded
  tags : t.tags = s.tags
  debs : t.debs = s.debs
  stopped : ∀ unit, ¬env.pulled unit → s.running unit = none → t.running unit = none

theorem Kept.trans {u : Host} (first : Kept env s t) (second : Kept env t u) : Kept env s u where
  loaded := second.loaded.trans first.loaded
  tags := second.tags.trans first.tags
  debs := second.debs.trans first.debs
  stopped unit alone down := second.stopped unit alone (first.stopped unit alone down)

theorem Calm.kept (calm : Calm env s t) : Kept env s t where
  loaded := calm.loaded
  tags := calm.tags
  debs := calm.debs
  stopped unit alone down := by
    rcases calm.running unit with same | ⟨-, active, -⟩ | ⟨pulled, -⟩
    · exact same.trans down
    · exact (active down).elim
    · exact (alone pulled).elim

/-! ### Calls -/

/-- A request that returns was served, and others may have acted since. -/
theorem ends_request {c : Call} {value : Value c} (ended : Ends (world env) (request c) s value t) :
    ∃ s', s.serves env.packages c (.ok value) s' ∧ Calm env s' t := by
  obtain ⟨r, s', s'', answered, calm, later⟩ := ends_call.mp ended
  cases r with
  | error err => exact (not_ends_fail later).elim
  | ok value' =>
    obtain ⟨rfl, rfl⟩ := ends_ret.mp later
    exact ⟨s', serves_of_ok answered, calm⟩

/-- A request that changes nothing. -/
theorem ends_request_calm {c : Call} {value : Value c}
    (ended : Ends (world env) (request c) s value t)
    (idle : ∀ {s'}, s.serves env.packages c (.ok value) s' → s' = s) : Calm env s t := by
  obtain ⟨s', served, calm⟩ := ends_request ended
  exact idle served ▸ calm

theorem ends_ended {α : Type} {result : Except Error α} {a : α} :
    Ends (world env) (.ended result : Prog α) s a t ↔ result = .ok a ∧ t = s := by
  cases result with
  | error err => simp [Prog.ended]
  | ok b => simp [Prog.ended, eq_comm]

/-! ### Files -/

/-- A file has been written, and nothing else. -/
structure Wrote (env : Env) (name : String) (data : Option String) (s t : Host) : Prop
    extends Kept env s t where
  files : t.files = Function.update s.files name data

theorem wrote_of_calm {name : String} {data : Option String}
    (calm : Calm env (s.setFile name data) t) : Wrote env name data s t where
  loaded := calm.loaded
  tags := calm.tags
  debs := calm.debs
  stopped := calm.kept.stopped
  files := calm.files

theorem ends_writeFile {name data : String} {value : Unit}
    (ended : Ends (world env) (request (.writeFile name data)) s value t) :
    Wrote env name (some data) s t := by
  obtain ⟨s', served, calm⟩ := ends_request ended
  obtain ⟨-, rfl⟩ := served
  exact wrote_of_calm calm

theorem ends_overwrite {name data : String} {value : Unit}
    (ended : Ends (world env) (overwrite name data) s value t) :
    Wrote env name (some data) s t := by
  obtain ⟨_, s₁, opened, ended⟩ := ends_bind.mp ended
  obtain ⟨_, s₂, written, synced⟩ := ends_bind.mp ended
  obtain ⟨_, ⟨-, rfl⟩, calm⟩ := ends_request opened
  have truncated := wrote_of_calm calm
  obtain ⟨_, ⟨-, rfl⟩, calm⟩ := ends_request written
  have appended := wrote_of_calm calm
  have last := ends_request_calm synced fun served => served.2
  refine ⟨truncated.toKept.trans (appended.toKept.trans last.kept), ?_⟩
  rw [last.files, appended.files, truncated.files, Function.update_idem, Function.update_self]
  rfl

theorem ends_replaceFile {name data : String} {replaced : Bool}
    (ended : Ends (world env) (replaceFile name data) s replaced t) :
    Wrote env name (some data) s t ∧
      (replaced = false → Calm env s t ∧ s.files name = some data) := by
  -- the file is read first; both branches that write end alike
  have writes {s' : Host} (calm : Calm env s s')
      (ended : Ends (world env) (overwrite name data >>= fun _ => .ret true) s' replaced t) :
      Wrote env name (some data) s t ∧
        (replaced = false → Calm env s t ∧ s.files name = some data) := by
    obtain ⟨_, s₁, written, last⟩ := ends_bind.mp ended
    obtain ⟨rfl, rfl⟩ := ends_ret.mp last
    have wrote := ends_overwrite written
    refine ⟨⟨calm.kept.trans wrote.toKept, ?_⟩, fun same => by cases same⟩
    rw [wrote.files, calm.files]
  obtain ⟨r, s', s'', answered, calm, later⟩ := ends_call.mp ended
  cases r with
  | error err =>
    cases err with
    | notExist =>
      rcases answered with ⟨rfl, -⟩ | ⟨-, -, ⟨message, wrong⟩, -⟩
      · exact writes calm later
      · cases wrong
    | notFound => exact (not_ends_fail later).elim
    | failed message => exact (not_ends_fail later).elim
  | ok current =>
    obtain ⟨rfl, read⟩ := serves_of_ok answered
    dsimp only at later
    split at later
    next same =>
      obtain ⟨rfl, rfl⟩ := ends_ret.mp later
      have there : s'.files name = some data := by
        cases found : s'.files name with
        | none => simp [found] at read
        | some old =>
          rw [found] at read
          cases read
          rw [same]
      refine ⟨⟨calm.kept, ?_⟩, fun _ => ⟨calm, there⟩⟩
      rw [calm.files, ← there, Function.update_eq_self]
    next => exact writes calm later

/-- A generated file is in its place. -/
theorem ends_install {name : String} {text : Except Error String} {replaced : Bool}
    (ended : Ends (world env) (install name text) s replaced t) :
    ∃ data, text = .ok data ∧ Wrote env name (some data) s t ∧
      (replaced = false → Calm env s t ∧ s.files name = some data) := by
  obtain ⟨data, s₁, generated, rest⟩ := ends_bind.mp ended
  obtain ⟨made, rfl⟩ := ends_ended.mp generated
  exact ⟨data, made, ends_replaceFile rest⟩

theorem ends_installIn {folder name : String} {text : Except Error String} {replaced : Bool}
    (ended : Ends (world env) (installIn folder name text) s replaced t) :
    ∃ data, text = .ok data ∧ Wrote env name (some data) s t ∧
      (replaced = false → Calm env s t ∧ s.files name = some data) := by
  obtain ⟨data, s₁, generated, rest⟩ := ends_bind.mp ended
  obtain ⟨made, rfl⟩ := ends_ended.mp generated
  obtain ⟨_, s₂, folder, rest⟩ := ends_bind.mp rest
  have calm := ends_request_calm folder fun served => served.2
  obtain ⟨wrote, otherwise⟩ := ends_replaceFile rest
  refine ⟨data, made, ⟨calm.kept.trans wrote.toKept, ?_⟩, fun same => ?_⟩
  · rw [wrote.files, calm.files]
  · obtain ⟨later, there⟩ := otherwise same
    exact ⟨calm.trans later, by rw [← calm.files]; exact there⟩

/-! ### Units -/

/-- A unit has been started with the files of `s`, which systemd has loaded. -/
structure Restarted (unit : String) (s t : Host) : Prop where
  files : t.files = s.files
  tags : t.tags = s.tags
  debs : t.debs = s.debs
  loaded : t.loaded = s.files
  fresh : ∀ files, t.running unit = some files → files = s.files
  others : ∀ other, other ≠ unit → ∀ files, t.running other = some files →
    s.running other = some files ∨ files = s.files

/-- What a service is started with right after systemd has loaded its files. -/
theorem launch_of_loaded (loaded : s.loaded = s.files) : s.launch = s.files := by
  funext file
  rw [Host.launch, loaded]
  split <;> rfl

/-- Between two calls a unit is left as it is, or is started with the files that are there. -/
theorem Calm.runs (calm : Calm env s t) (loaded : s.loaded = s.files) {unit : String}
    {files : String → Option String} (active : t.running unit = some files) :
    s.running unit = some files ∨ files = s.files := by
  rcases calm.running_cases unit with same | down | anew
  · exact .inl (same ▸ active)
  · rw [down] at active
    cases active
  · rw [anew] at active
    cases active
    exact .inr (launch_of_loaded loaded)

/-- The end that `RestartService` and `StartService` have in common: the unit is started by a call
after systemd has loaded its files. -/
theorem restarted_of_started {unit : String} {s₁ s₂ s₃ : Host} (first : Calm env s.reload s₁)
    (second : Calm env (s₁.setEnabled unit true) s₂) (started : s₂.Started unit s₃)
    (last : Calm env s₃ t) : Restarted unit s t := by
  have loaded₂ : s₂.loaded = s₂.files := by
    rw [second.loaded, second.files]
    exact first.loaded.trans first.files.symm
  have files₂ : s₂.files = s.files := second.files.trans first.files
  -- the start changes nothing but the unit
  obtain ⟨x, rfl, launched⟩ : ∃ x, s₃ = s₂.setRunning unit x ∧
      ∀ files, x = some files → files = s₂.files := by
    rcases started with rfl | rfl
    · refine ⟨_, rfl, fun files same => ?_⟩
      cases same
      exact launch_of_loaded loaded₂
    · exact ⟨none, rfl, fun files same => by cases same⟩
  have loaded₃ : (s₂.setRunning unit x).loaded = (s₂.setRunning unit x).files := loaded₂
  refine ⟨last.files.trans files₂, ?_, ?_, ?_, ?_, ?_⟩
  · exact last.tags.trans (second.tags.trans first.tags)
  · exact last.debs.trans (second.debs.trans first.debs)
  · exact last.loaded.trans (loaded₂.trans files₂)
  · intro files active
    rw [← files₂]
    rcases last.runs loaded₃ active with before | now
    · have here : (s₂.setRunning unit x).running unit = x := Function.update_self ..
      exact launched files (here ▸ before)
    · exact now
  · intro other different files active
    rw [← files₂]
    rcases last.runs loaded₃ active with before | now
    · have here : (s₂.setRunning unit x).running other = s₂.running other :=
        Function.update_of_ne different ..
      rw [here] at before
      have loaded₁ : (s₁.setEnabled unit true).loaded = (s₁.setEnabled unit true).files :=
        first.loaded.trans first.files.symm
      rcases second.runs loaded₁ before with before | now
      · rcases first.runs rfl before with before | now
        · exact .inl before
        · exact .inr (now.trans files₂.symm)
      · exact .inr (now.trans second.files.symm)
    · exact .inr now

theorem ends_restartService {name : String} {value : Unit}
    (ended : Ends (world env) (Systemd.restartService name) s value t) :
    Restarted (name ++ ".service") s t := by
  obtain ⟨_, s₁, reloaded, ended⟩ := ends_bind.mp ended
  obtain ⟨_, s₂, enabled, restarted⟩ := ends_bind.mp ended
  obtain ⟨_, ⟨-, rfl⟩, first⟩ := ends_request reloaded
  obtain ⟨_, ⟨-, rfl⟩, second⟩ := ends_request enabled
  obtain ⟨s₃, ⟨-, started⟩, last⟩ := ends_request restarted
  exact restarted_of_started first second started last

/-- A unit that was not active, and that nobody else starts, has been started. -/
theorem ends_startUnit {name unit : String} {value : Unit}
    (ended : Ends (world env) (Systemd.startUnit name unit) s value t)
    (alone : ¬env.pulled (name ++ "." ++ unit))
    (down : s.running (name ++ "." ++ unit) = none) : Restarted (name ++ "." ++ unit) s t := by
  obtain ⟨_, s₁, reloaded, ended⟩ := ends_bind.mp ended
  obtain ⟨_, s₂, enabled, started⟩ := ends_bind.mp ended
  obtain ⟨_, ⟨-, rfl⟩, first⟩ := ends_request reloaded
  obtain ⟨_, ⟨-, rfl⟩, second⟩ := ends_request enabled
  obtain ⟨s₃, ⟨-, launched⟩, last⟩ := ends_request started
  have still : s₂.running (name ++ "." ++ unit) = none :=
    second.kept.stopped _ alone (first.kept.stopped _ alone down)
  rw [still] at launched
  exact restarted_of_started first second launched last

/-- A unit has been started or was active before; its files are loaded. -/
theorem ends_startUnit_loaded {name unit : String} {value : Unit}
    (ended : Ends (world env) (Systemd.startUnit name unit) s value t) :
    t.files = s.files ∧ t.tags = s.tags ∧ t.debs = s.debs ∧ t.loaded = s.files := by
  obtain ⟨_, s₁, reloaded, ended⟩ := ends_bind.mp ended
  obtain ⟨_, s₂, enabled, started⟩ := ends_bind.mp ended
  obtain ⟨_, ⟨-, rfl⟩, first⟩ := ends_request reloaded
  obtain ⟨_, ⟨-, rfl⟩, second⟩ := ends_request enabled
  obtain ⟨s₃, ⟨-, launched⟩, last⟩ := ends_request started
  have same : s₃.files = s₂.files ∧ s₃.tags = s₂.tags ∧ s₃.debs = s₂.debs ∧
      s₃.loaded = s₂.loaded := by
    split at launched
    · subst launched
      exact ⟨rfl, rfl, rfl, rfl⟩
    · rcases launched with rfl | rfl
      · exact ⟨rfl, rfl, rfl, rfl⟩
      · exact ⟨rfl, rfl, rfl, rfl⟩
  obtain ⟨files, tags, debs, loaded⟩ := same
  refine ⟨?_, ?_, ?_, ?_⟩
  · exact last.files.trans (files.trans (second.files.trans first.files))
  · exact last.tags.trans (tags.trans (second.tags.trans first.tags))
  · exact last.debs.trans (debs.trans (second.debs.trans first.debs))
  · exact last.loaded.trans (loaded.trans (second.loaded.trans first.loaded))

theorem ends_waitServiceStateChange {name : String} {rounds : Nat} {state : String} {value : Unit}
    (ended : Ends (world env) (Systemd.waitServiceStateChange name rounds state) s value t) :
    Calm env s t := by
  induction rounds generalizing s state with
  | zero => exact (not_ends_fail ended).elim
  | succ rounds ih =>
    obtain ⟨state, s₁, asked, rest⟩ := ends_bind.mp ended
    have first := ends_request_calm asked id
    split at rest
    · obtain ⟨_, s₂, slept, rest⟩ := ends_bind.mp rest
      have second := ends_request_calm slept id
      exact first.trans (second.trans (ih rest))
    · obtain ⟨-, rfl⟩ := ends_ret.mp rest
      exact first

/-- A service is stopped between two moments of calm. -/
theorem ends_stopService {name : String} {value : Unit}
    (ended : Ends (world env) (Systemd.stopService name) s value t) :
    ∃ u, Calm env s u ∧ Calm env (u.setRunning (name ++ ".service") none) t := by
  obtain ⟨_, s₁, waited, stopped⟩ := ends_bind.mp ended
  obtain ⟨_, ⟨-, rfl⟩, last⟩ := ends_request stopped
  exact ⟨s₁, ends_waitServiceStateChange waited, last⟩

/-! ### Records -/

variable {o : Operator} {req : UpdateRequest}

theorem ends_needContainerImageUpdate {name : String} {need : Bool}
    (ended : Ends (world env) (needContainerImageUpdate o name) s need t) :
    Calm env s t ∧ (need = false → ∃ img, o.findContainerImage name = .ok img ∧
      s.tags name = some img.tag) := by
  obtain ⟨r, s', s'', answered, calm, later⟩ := ends_call.mp ended
  cases r with
  | error err =>
    cases err with
    | notFound =>
      rcases answered with ⟨rfl, -⟩ | ⟨-, -, ⟨message, wrong⟩, -⟩
      · obtain ⟨rfl, rfl⟩ := ends_ret.mp later
        exact ⟨calm, fun same => by cases same⟩
      · cases wrong
    | notExist => exact (not_ends_fail later).elim
    | failed message => exact (not_ends_fail later).elim
  | ok tag =>
    obtain ⟨rfl, read⟩ := serves_of_ok answered
    obtain ⟨img, s₁, searched, last⟩ := ends_bind.mp later
    obtain ⟨found, rfl⟩ := ends_ended.mp searched
    obtain ⟨rfl, rfl⟩ := ends_ret.mp last
    refine ⟨calm, fun same => ⟨img, found, ?_⟩⟩
    cases recorded : s'.tags name with
    | none => simp [recorded] at read
    | some old =>
      rw [recorded] at read
      cases read
      rw [bne_eq_false_iff_eq.mp same]

theorem ends_needDebUpdate {name : String} {need : Bool}
    (ended : Ends (world env) (needDebUpdate o name) s need t) :
    Calm env s t ∧ (need = false → ∃ deb, o.findDebianPackage name = .ok deb ∧
      s.debs name = some deb.release) := by
  obtain ⟨r, s', s'', answered, calm, later⟩ := ends_call.mp ended
  cases r with
  | error err =>
    cases err with
    | notFound =>
      rcases answered with ⟨rfl, -⟩ | ⟨-, -, ⟨message, wrong⟩, -⟩
      · obtain ⟨rfl, rfl⟩ := ends_ret.mp later
        exact ⟨calm, fun same => by cases same⟩
      · cases wrong
    | notExist => exact (not_ends_fail later).elim
    | failed message => exact (not_ends_fail later).elim
  | ok version =>
    obtain ⟨rfl, read⟩ := serves_of_ok answered
    obtain ⟨deb, s₁, searched, last⟩ := ends_bind.mp later
    obtain ⟨found, rfl⟩ := ends_ended.mp searched
    obtain ⟨rfl, rfl⟩ := ends_ret.mp last
    refine ⟨calm, fun same => ⟨deb, found, ?_⟩⟩
    cases recorded : s'.debs name with
    | none => simp [recorded] at read
    | some old =>
      rw [recorded] at read
      cases read
      rw [bne_eq_false_iff_eq.mp same]

/-- The tag of the artifact is recorded; if it was before, nothing has happened. -/
theorem ends_updateImage {name : String} {tools : Prog Unit} {need : Bool}
    (ended : Ends (world env) (updateImage o name tools) s need t) :
    (∃ img, o.findContainerImage name = .ok img ∧ t.tags name = some img.tag) ∧
      (need = false → Calm env s t) ∧
      ((∀ s t value, Ends (world env) tools s value t → Kept env s t) →
        ∀ unit, ¬env.pulled unit → s.running unit = none → t.running unit = none) := by
  obtain ⟨need', s₁, asked, rest⟩ := ends_bind.mp ended
  obtain ⟨calm, otherwise⟩ := ends_needContainerImageUpdate asked
  cases need' with
  | false =>
    obtain ⟨rfl, rfl⟩ := ends_ret.mp rest
    obtain ⟨img, found, recorded⟩ := otherwise rfl
    refine ⟨⟨img, found, ?_⟩, fun _ => calm, fun _ => calm.kept.stopped⟩
    rw [calm.tags]
    exact recorded
  | true =>
    obtain ⟨_, s₂, tooled, rest⟩ := ends_bind.mp rest
    obtain ⟨_, s₃, recorded, last⟩ := ends_bind.mp rest
    obtain ⟨rfl, rfl⟩ := ends_ret.mp last
    obtain ⟨img, s₄, searched, put⟩ := ends_bind.mp recorded
    obtain ⟨found, rfl⟩ := ends_ended.mp searched
    obtain ⟨_, ⟨-, rfl⟩, last⟩ := ends_request put
    refine ⟨⟨img, found, ?_⟩, (fun same => by cases same), fun kept unit alone down => ?_⟩
    · rw [last.tags]
      exact Function.update_self ..
    · have before := (kept _ _ _ tooled).stopped unit alone (calm.kept.stopped unit alone down)
      exact last.kept.stopped unit alone before

theorem ends_installTools {name : String} {value : Unit}
    (ended : Ends (world env) (installTools o name) s value t) : Kept env s t := by
  obtain ⟨img, s₁, found, run⟩ := ends_bind.mp ended
  obtain ⟨-, rfl⟩ := ends_ended.mp found
  exact (ends_request_calm run id).kept

/-! ### Elections and shared contents -/

/-- What is done as a leader is done between two moments of calm. -/
theorem ends_asLeader {body : Prog Unit} {value : Unit}
    (ended : Ends (world env) (asLeader body) s value t) :
    ∃ s₁ s₂, Calm env s s₁ ∧ Ends (world env) body s₁ () s₂ ∧ Calm env s₂ t := by
  obtain ⟨r, s₁, session, ended⟩ := ends_bind.mp ended
  have first := ends_request_calm session id
  cases r with
  | error err => exact (not_ends_fail ended).elim
  | ok _ =>
    obtain ⟨r, s₂, put, ended⟩ := ends_bind.mp ended
    have second := ends_request_calm put id
    cases r with
    | error err =>
      obtain ⟨_, _, _, ended⟩ := ends_bind.mp ended
      exact (not_ends_fail ended).elim
    | ok _ =>
      obtain ⟨r, s₃, waited, ended⟩ := ends_bind.mp ended
      have third := ends_request_calm waited id
      cases r with
      | error err =>
        obtain ⟨_, _, _, ended⟩ := ends_bind.mp ended
        exact (not_ends_fail ended).elim
      | ok _ =>
        obtain ⟨result, s₄, done, ended⟩ := ends_bind.mp ended
        obtain ⟨_, s₅, resigned, ended⟩ := ends_bind.mp ended
        obtain ⟨_, s₆, closed, ended⟩ := ends_bind.mp ended
        obtain ⟨rfl, rfl⟩ := ends_ended.mp ended
        have fourth := ends_request_calm resigned id
        have fifth := ends_request_calm closed id
        exact ⟨s₃, s₄, first.trans (second.trans third), ends_attempt_ok.mp done,
          fourth.trans fifth⟩

end Neco.Deploy
