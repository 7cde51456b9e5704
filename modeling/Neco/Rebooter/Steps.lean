import Neco.Rebooter.Conformance

/-!
# The steps of the neco-rebooter system

`Sound` collects what every state satisfies. From a sound state each step is one of
`Stepped`: a step of the others, a restart, or a call of the run that its state permits.
-/

namespace Neco.Rebooter

open Program

namespace Store

/-- The list and the queue are the same; only the switch or the leader key may differ. -/
structure Frame (s t : Store) : Prop where
  revision : s.revision ≤ t.revision
  rebootList : t.rebootList = s.rebootList
  writeIndex : t.writeIndex = s.writeIndex
  processingGroup : t.processingGroup = s.processingGroup
  queue : t.queue = s.queue
  queueIndex : t.queueIndex = s.queueIndex
  events : t.events = s.events

variable {s t : Store}

theorem Frame.rfl : Frame s s :=
  ⟨Nat.le_refl _, Eq.refl _, Eq.refl _, Eq.refl _, Eq.refl _, Eq.refl _, Eq.refl _⟩

theorem Frame.list (frame : Frame s t) : t.list = s.list := by
  rw [Store.list, frame.rebootList]
  rfl

theorem Frame.group (frame : Frame s t) : t.group = s.group := by
  rw [Store.group, frame.processingGroup]
  rfl

theorem Frame.wellFormed (frame : Frame s t) (wf : s.WellFormed) : t.WellFormed := by
  refine wf.sameList frame.revision frame.rebootList frame.writeIndex ?_ ?_
  · rw [frame.queue]
    exact wf.queueSorted
  · rw [frame.queue, frame.queueIndex]
    exact wf.queueBelow

end Store

/-- The list entry that a call writes. -/
def Call.written : Call → Option RebootListEntry
  | updateRebootListEntry e => some e
  | _ => none

/-- The list entry that a command is about to write: it is past its `Get`. -/
def System.committing (s : System) (position : Nat) : Option RebootListEntry :=
  s.clients[position]?.bind fun client =>
    match client.progress, client.prog with
    | .compare _, .call c _ => c.written
    | _, _ => none

/-- What commands and CKE do to the stores. -/
inductive Others (s : System) (a : Action) : Store → Prop
  | frame {t : Store} (frame : s.store.Frame t) : Others s a t
  | cancelled {position : Nat} {input : Input} {e x : RebootListEntry}
      (action : a = .client position input) (committing : s.committing position = some e)
      (status : e.status = .cancelled) (stored : x ∈ s.store.list) (key : x.index = e.index) :
      Others s a (s.store.putEntry .user e)
  | added {e : RebootListEntry} (status : e.status = .pending) :
      Others s a (s.store.appendEntry e s.store.nextIndex)
  | changed (index : Int) {f : RebootQueueEntry → RebootQueueEntry}
      (kept : ∀ q, (f q).index = q.index ∧ (f q).node = q.node ∧
        ((f q).status = .cancelled ↔ q.status = .cancelled)) :
      Others s a (s.store.changeQueued index f)
  | deleted {r : Registered} (action : a = .cke (.delete r.entry.index))
      (member : r ∈ s.store.queue) : Others s a (s.store.deleteQueued r)

namespace Others

variable {s : System} {a : Action} {t : Store}

theorem wellFormed (others : Others s a t) (wf : s.store.WellFormed) : t.WellFormed := by
  cases others with
  | frame frame => exact frame.wellFormed wf
  | cancelled _ _ _ stored key => exact wf.putEntry stored key
  | added => exact wf.appendEntry _
  | changed index kept => exact wf.changeQueued index fun q same => (kept q).1.trans same
  | deleted => exact wf.deleteQueued _

theorem later (others : Others s a t) : s.store.Later t := by
  cases others with
  | frame frame => exact ⟨frame.revision, .inl frame.writeIndex⟩
  | cancelled => exact ⟨Nat.le_succ _, .inl rfl⟩
  | added => exact ⟨Nat.le_succ _, .inr (Nat.lt_succ_self _)⟩
  | changed => exact ⟨Nat.le_refl _, .inl rfl⟩
  | deleted => exact ⟨Nat.le_refl _, .inl rfl⟩

/-- The others stay within what a run relies on. -/
theorem rely (others : Others s a t) (wf : s.store.WellFormed) (seen : Observed) :
    Rely ⟨s.store, seen⟩ ⟨t, seen⟩ := by
  have same : ∀ r ∈ s.store.queue, r.active = true → ∃ r' ∈ s.store.queue, r'.active = true ∧
      r'.entry.index = r.entry.index ∧ r'.entry.node = r.entry.node ∧ r'.origin = r.origin :=
    fun r member active => ⟨r, member, active, rfl, rfl, rfl⟩
  cases others with
  | frame frame =>
    refine ⟨rfl, frame.group, by simp [frame.queueIndex], ?_, ?_⟩
    · simp only [frame.list]
      exact fun x member _ => member
    · simp only [frame.queue]
      exact same
  | cancelled _ _ status stored key =>
    refine ⟨rfl, rfl, le_refl _, fun x member queued => ?_, same⟩
    rcases (Store.mem_list_putEntry wf).mp member with rfl | old
    · rw [status] at queued
      cases queued
    · exact old.1
  | added status =>
    refine ⟨rfl, rfl, le_refl _, fun x member queued => ?_, same⟩
    rcases (Store.mem_list_appendEntry wf).mp member with rfl | old
    · rw [status] at queued
      cases queued
    · exact old
  | changed index kept =>
    refine ⟨rfl, rfl, le_refl _, fun x member _ => member, fun r member active => ?_⟩
    obtain ⟨r', old, sameActive, others⟩ := Store.active_changeQueued kept member
    exact ⟨r', old, sameActive.trans active, others⟩
  | deleted =>
    exact ⟨rfl, rfl, le_refl _, fun x member _ => member,
      fun r member active => same r (List.mem_filter.mp member).1 active⟩

end Others

/-- What a step does to the stores and to the run in progress. -/
inductive Stepped (s : System) (a : Action) (t : System) : Prop
  | others (others : Others s a t.store) (run : t.run = s.run)
  /-- A process is elected, crashes, or starts a run. -/
  | restarted (frame : s.store.Frame t.store)
      (run : ∀ run, t.run = some run → run.seen = .nothing)
      (current : ∀ c, t.current = some c → c = .isNecoRebooterEnabled)
  /-- A compare-and-swap has done its `Get`, or has to start again. -/
  | waited (run : Run) (progress : Progress) (before : s.run = some run)
      (after : t.run = some { run with progress := progress }) (store : t.store = s.store)
  | called {run : Run} {c : Call} {next : Reply c → Prog (List String)} {r : Reply c}
      (input : Input) (action : a = .controller input) (before : s.run = some run)
      (prog : run.prog = .call c next) (permitted : Permits ⟨s.store, run.seen⟩ c)
      (answered : Answered .controller s.store c r t.store)
      (after : t.run = none ∨ t.run = some ⟨next r, .start, run.seen.note c r⟩)

/-! ### Sound states -/

/-- What holds in every state that the system reaches. -/
structure Sound (s : System) : Prop where
  wf : s.store.WellFormed
  running : ∀ run, s.run = some run → Running world Permits run.prog ⟨s.store, run.seen⟩
  progress : ∀ run, s.run = some run → ∀ c next, run.prog = .call c next →
    run.progress.Valid s.store c
  commands : ∀ client ∈ s.clients, client.prog.Uses Call.ofCommand
  commandProgress : ∀ client ∈ s.clients, ∀ c next, client.prog = .call c next →
    client.progress.Valid s.store c

theorem sound_initial : Sound .initial where
  wf := Store.wellFormed_empty
  running := fun _ running => nomatch (running : none = some _)
  progress := fun _ running => nomatch (running : none = some _)
  commands := List.forall_mem_nil _
  commandProgress := List.forall_mem_nil _

/-- The others act: the run stays as it is, the commands are given. -/
theorem Sound.others {s t : System} {a : Action} (sound : Sound s) (others : Others s a t.store)
    (run : t.run = s.run)
    (commands : ∀ client ∈ t.clients, client ∈ s.clients ∨
      client.prog.Uses Call.ofCommand ∧ client.progress = .start) : Sound t := by
  refine ⟨others.wellFormed sound.wf, fun r running => ?_, fun r running c next prog => ?_,
    fun client member => ?_, fun client member c next prog => ?_⟩
  · exact (sound.running r (run ▸ running)).interfered (others.rely sound.wf r.seen)
  · exact (sound.progress r (run ▸ running) c next prog).later others.later
  · exact (commands client member).elim (sound.commands client) And.left
  · rcases commands client member with old | ⟨_, start⟩
    · exact (sound.commandProgress client old c next prog).later others.later
    · rw [start]
      exact Progress.valid_start _ c

/-! ### One step of each party -/

theorem run_resume (p : Process) (seen : Observed) (prog : Prog (List String)) :
    (p.resume seen prog).bind (·.run) = none ∨
      (p.resume seen prog).bind (·.run) = some ⟨prog, .start, seen⟩ := by
  cases prog with
  | ret => exact .inl rfl
  | fail => exact .inl rfl
  | call => exact .inr rfl

theorem Sound.stepRun {s t : System} {p : Process} {run : Run} {input : Input} (sound : Sound s)
    (before : s.run = some run) (taken : s.stepRun p run input = some t) :
    Stepped s (.controller input) t ∧ Sound t := by
  unfold System.stepRun at taken
  split at taken
  next c next prog =>
    split at taken
    · cases taken
    next progress served =>
      cases taken
      refine ⟨.waited run progress before rfl rfl, sound.wf, fun r running => ?_,
        fun r running c' next' prog' => ?_, sound.commands, sound.commandProgress⟩
      · cases running
        exact sound.running run before
      · cases running
        cases prog.symm.trans prog'
        exact Progress.valid_of_serve sound.wf served
    next r store served =>
      cases taken
      have answered := answered_of_serve (sound.progress run before c next prog) served
      have running := sound.running run before
      rw [prog] at running
      have after := run_resume p (run.seen.note c r) (next r)
      refine ⟨.called input rfl before prog running.permitted answered after,
        answered.wellFormed sound.wf, fun r' now => ?_, fun r' now c' next' prog' => ?_,
        sound.commands, fun client member c' next' prog' =>
          (sound.commandProgress client member c' next' prog').later answered.later⟩
      · rcases after with ended | goesOn
        · cases ended.symm.trans now
        · cases goesOn.symm.trans now
          exact running.answered ⟨sound.wf, answered, rfl⟩
      · rcases after with ended | goesOn
        · cases ended.symm.trans now
        · cases goesOn.symm.trans now
          exact Progress.valid_start _ c'
  · cases taken

/-- A reply to a command is a step of the others. -/
theorem others_of_answered {s : System} {position : Nat} {input : Input} {client : Client} {c : Call}
    {next : Reply c → Prog Unit} {r : Reply c} {t : Store}
    (found : s.clients[position]? = some client) (prog : client.prog = .call c next)
    (command : c.ofCommand)
    (served : serve .user input s.store c client.progress = some (.reply r t))
    (answered : Answered .user s.store c r t) :
    Others s (.client position input) t := by
  cases answered with
  | enable flag => exact .frame ⟨Nat.le_succ _, rfl, rfl, rfl, rfl, rfl, rfl⟩
  | found => exact .frame .rfl
  | entries => exact .frame .rfl
  | notUpdated => exact .frame .rfl
  | @updated e x stored key =>
    refine .cancelled rfl ?_ command stored key
    obtain ⟨clientProg, progress⟩ := client
    cases prog
    cases progress with
    | compare rev => simp only [System.committing, found, Option.bind_some, Call.written]
    | start =>
      simp only [serve] at served
      split at served <;> cases served
    | register => cases served
  | added e => exact .added command
  | _ => cases command

theorem Sound.stepClient {s t : System} {position : Nat} {client : Client} {input : Input}
    (sound : Sound s) (found : s.clients[position]? = some client)
    (taken : s.stepClient position client input = some t) :
    Stepped s (.client position input) t ∧ Sound t := by
  have member : client ∈ s.clients := List.mem_of_getElem? found
  unfold System.stepClient at taken
  split at taken
  next c next prog =>
    have uses := sound.commands client member
    rw [prog] at uses
    split at taken
    · cases taken
    next progress served =>
      cases taken
      refine ⟨.others (.frame .rfl) rfl, sound.wf, sound.running, sound.progress,
        fun client' member' => ?_, fun client' member' c' next' prog' => ?_⟩
      · rcases List.mem_or_eq_of_mem_set member' with old | rfl
        · exact sound.commands client' old
        · exact sound.commands client member
      · rcases List.mem_or_eq_of_mem_set member' with old | rfl
        · exact sound.commandProgress client' old c' next' prog'
        · cases prog.symm.trans prog'
          exact Progress.valid_of_serve sound.wf served
    next r store served =>
      cases taken
      have answered := answered_of_serve (sound.commandProgress client member c next prog) served
      have others := others_of_answered found prog uses.1 served answered
      refine ⟨.others others rfl, sound.others others rfl fun client' member' => ?_⟩
      rcases List.mem_or_eq_of_mem_set member' with old | rfl
      · exact .inl old
      · exact .inr ⟨uses.2 r, rfl⟩
  · cases taken

theorem others_of_cke {s : System} {action : CkeAction} {t : Store}
    (taken : s.store.cke action = some t) : Others s (.cke action) t := by
  cases action with
  | setStatus index status =>
    simp only [Store.cke] at taken
    split at taken
    · cases taken
    next notCancelled =>
      cases taken
      refine .changed index fun q => ?_
      split
      · exact ⟨rfl, rfl, Iff.rfl⟩
      next active => exact ⟨rfl, rfl, by simp [notCancelled, active]⟩
  | setDrainBackOffCount index count =>
    cases taken
    exact .changed index fun q => ⟨rfl, rfl, Iff.rfl⟩
  | delete index =>
    obtain ⟨r, found, rfl⟩ := Option.map_eq_some_iff.mp taken
    have same := List.find?_some found
    obtain rfl : r.entry.index = index := of_decide_eq_true same
    exact .deleted rfl (List.mem_of_find?_eq_some found)

/-- A step that leaves the list and the queue alone and ends the run or starts one. -/
theorem Sound.restart {s t : System} {a : Action} (sound : Sound s) (frame : s.store.Frame t.store)
    (clients : t.clients = s.clients)
    (run : t.run = none ∨ ∃ c leaderKey allGroups,
      t.run = some ⟨Controller.runOnce c leaderKey allGroups, .start, .nothing⟩) :
    Stepped s a t ∧ Sound t := by
  have fresh : ∀ run, t.run = some run → run.seen = .nothing ∧ run.progress = .start ∧
      ∃ c leaderKey allGroups, run.prog = Controller.runOnce c leaderKey allGroups := by
    intro r now
    rcases run with ended | ⟨c, leaderKey, allGroups, started⟩
    · cases ended.symm.trans now
    · cases started.symm.trans now
      exact ⟨rfl, rfl, c, leaderKey, allGroups, rfl⟩
  refine ⟨.restarted frame (fun r now => (fresh r now).1) fun c current => ?_,
    frame.wellFormed sound.wf, fun r now => ?_, fun r now c next prog => ?_, ?_, ?_⟩
  · rcases run with ended | ⟨_, _, _, started⟩
    · simp only [System.current, ended] at current
      cases current
    · simp only [System.current, started] at current
      cases current
      rfl
  · obtain ⟨nothing, _, c, leaderKey, allGroups, prog⟩ := fresh r now
    rw [prog]
    exact ⟨fun v => v.seen = .nothing, fun _ _ nothing rely => rely.seen.trans nothing, nothing,
      conforms_runOnce c leaderKey allGroups⟩
  · rw [(fresh r now).2.1]
    exact Progress.valid_start _ c
  · rw [clients]
    exact sound.commands
  · rw [clients]
    exact fun client member c next prog =>
      (sound.commandProgress client member c next prog).later ⟨frame.revision, .inl frame.writeIndex⟩

/-- Every step of a sound state leads to a sound state and is one of `Stepped`. -/
theorem Sound.step {cfg : Config} {s t : System} {a : Action} (sound : Sound s)
    (taken : System.step cfg s a = some t) : Stepped s a t ∧ Sound t := by
  cases a with
  | elect =>
    -- a new leader knows nothing of the runs before it
    simp only [System.step] at taken
    split at taken
    · cases taken
      exact sound.restart ⟨Nat.le_refl _, rfl, rfl, rfl, rfl, rfl, rfl⟩ rfl (.inl rfl)
    · cases taken
  | crash =>
    cases taken
    exact sound.restart .rfl rfl (.inl rfl)
  | expire =>
    -- the process goes on without noticing
    cases taken
    have others : Others s .expire { s.store with leaderKey := none } :=
      .frame ⟨Nat.le_refl _, rfl, rfl, rfl, rfl, rfl, rfl⟩
    exact ⟨.others others rfl, sound.others (a := .expire) others rfl fun _ member => .inl member⟩
  | tick =>
    simp only [System.step] at taken
    split at taken
    · cases taken
      exact sound.restart .rfl rfl (.inr ⟨_, _, _, rfl⟩)
    · cases taken
  | controller input =>
    simp only [System.step] at taken
    split at taken
    next p process =>
      split at taken
      next run inRun =>
        have before : s.run = some run := by simp only [System.run, process, Option.bind_some, inRun]
        exact sound.stepRun before taken
      · cases taken
    · cases taken
  | command command =>
    cases taken
    have others : Others s (.command command) s.store := .frame .rfl
    refine ⟨.others others rfl, sound.others (a := .command command) others rfl
      fun client member => ?_⟩
    -- the clients before it go on; the new one is at its first call
    rcases List.mem_append.mp member with old | new
    · exact .inl old
    · obtain rfl := List.mem_singleton.mp new
      exact .inr ⟨command.uses cfg.commands, rfl⟩
  | client position input =>
    simp only [System.step] at taken
    split at taken
    next client found => exact sound.stepClient found taken
    · cases taken
  | kill position =>
    cases taken
    have others : Others s (.kill position) s.store := .frame .rfl
    exact ⟨.others others rfl, sound.others (a := .kill position) others rfl
      fun client member => .inl (List.mem_of_mem_eraseIdx member)⟩
  | cke action =>
    obtain ⟨store, acted, rfl⟩ := Option.map_eq_some_iff.mp taken
    have others := others_of_cke acted
    exact ⟨.others others rfl, sound.others others rfl fun _ member => .inl member⟩

/-! ### What a call of the run changes -/

/-- Nothing is enqueued: the group stays, and the queued list entries and the active queue
entries become fewer at most. -/
structure Store.Shrinks (s t : Store) : Prop where
  group : t.group = s.group
  queued : ∀ x ∈ t.list, x.status = .queued → x ∈ s.list
  active : ∀ r ∈ t.queue, r.active = true → ∃ r' ∈ s.queue, r'.active = true ∧
    r'.entry.index = r.entry.index ∧ r'.entry.node = r.entry.node ∧ r'.origin = r.origin

theorem Rely.shrinks {v w : View} (rely : Rely v w) : v.store.Shrinks w.store :=
  ⟨rely.group, rely.queued, rely.active⟩

theorem Store.Shrinks.rfl {s : Store} : s.Shrinks s :=
  ⟨Eq.refl _, fun _ member _ => member, fun r member active =>
    ⟨r, member, active, Eq.refl _, Eq.refl _, Eq.refl _⟩⟩

theorem Store.Frame.shrinks {s t : Store} (frame : s.Frame t) : s.Shrinks t := by
  refine ⟨frame.group, ?_, ?_⟩
  · rw [frame.list]
    exact Store.Shrinks.rfl.queued
  · rw [frame.queue]
    exact Store.Shrinks.rfl.active

/-- The calls of a run by what they change. Most of them only shrink the stores; the others
read the list, enqueue an entry in two steps, or move the group. -/
inductive Acted (v w : View) : Prop
  | shrank (shrinks : v.store.Shrinks w.store) (list : w.seen.list = v.seen.list)
      (registered : w.seen.registered = v.seen.registered) (moved : w.seen.moved = v.seen.moved)
  | readList (nothing : v.seen = .nothing) (store : w.store = v.store)
      (seen : w.seen = { Observed.nothing with list := some v.store.list })
  | registered (origin : RebootListEntry)
      (may : MayRegister v (newRebootQueueEntry origin.node) origin)
      (store : w.store = v.store.register (newRebootQueueEntry origin.node) origin)
      (seen : w.seen = { v.seen with
        registered := v.seen.registered ++ [origin], enqueueing := some origin })
  | enqueued (e : RebootListEntry) (registered : e ∈ v.seen.registered)
      (store : w.store = v.store.putEntry .controller e)
      (seen : w.seen = { v.seen with enqueueing := none })
  | moved (group : String) (may : MayMove v) (store : w.store = v.store.putGroup group)
      (seen : w.seen = { v.seen with moved := true, enqueueing := none })

theorem acted_of_answered {s t : Store} {seen : Observed} {c : Call} {r : Reply c}
    (wf : s.WellFormed) (permitted : Permits ⟨s, seen⟩ c)
    (answered : Answered .controller s c r t) : Acted ⟨s, seen⟩ ⟨t, seen.note c r⟩ := by
  cases answered with
  | entries =>
    obtain rfl : seen = .nothing := permitted
    exact .readList rfl rfl rfl
  | registered q origin =>
    obtain ⟨_, may⟩ := permitted
    obtain rfl := may.new
    exact .registered origin may rfl rfl
  | @updated e x stored key =>
    obtain ⟨_, ⟨_, _, registered, _⟩ | ⟨pending, _⟩⟩ := permitted
    · exact .enqueued e registered rfl rfl
    · refine .shrank ⟨rfl, fun y member queued => ?_, Store.Shrinks.rfl.active⟩ rfl rfl rfl
      rcases (Store.mem_list_putEntry wf).mp member with rfl | old
      · rw [pending] at queued
        cases queued
      · exact old.1
  | moved group => exact .moved group permitted.2 rfl rfl
  | removed e =>
    exact .shrank ⟨rfl, fun y member _ => (Store.mem_list_removeEntry.mp member).1,
      Store.Shrinks.rfl.active⟩ rfl rfl rfl
  | changed q =>
    refine .shrank ⟨rfl, Store.Shrinks.rfl.queued, fun r member active => ?_⟩ rfl rfl rfl
    have old := (Store.active_putQueued permitted.2.status member active).1
    exact ⟨r, old, active, rfl, rfl, rfl⟩
  | enable => cases permitted
  | found => cases permitted
  | added => cases permitted
  | _ => exact .shrank .rfl rfl rfl rfl

/-- The rule for the properties of the system: what holds of the empty stores and is kept by
every step of a sound state holds in every state reached. -/
theorem Reached.invariant {cfg : Config} {ok : System → Action → Prop} {s : System}
    (reached : Reached cfg ok s) (I : System → Prop) (start : I .initial)
    (kept : ∀ s a t, Sound s → I s → ok s a → Stepped s a t → Sound t → I t) : I s := by
  refine (Transition.RunFrom.invariant (fun s => Sound s ∧ I s) reached ⟨sound_initial, start⟩ ?_).2
  intro u a v holds admitted taken
  obtain ⟨stepped, sound⟩ := holds.1.step taken
  exact ⟨sound, kept u a v holds.1 holds.2 admitted stepped sound⟩

theorem System.current_eq {s : System} {run : Run} {c : Call} {next : Reply c → Prog (List String)}
    (before : s.run = some run) (prog : run.prog = .call c next) : s.current = some c := by
  obtain ⟨_, progress, seen⟩ := run
  cases prog
  simp only [System.current, before]

/-- The rule for properties of the stores and of what the run has seen. `C` is what the
steps that read the list promise about it. -/
theorem Reached.viewInvariant {cfg : Config} {ok : System → Action → Prop} {s : System}
    (reached : Reached cfg ok s) {S : Store → Prop} {R : View → Prop} {C : Store → Prop}
    (listed : ∀ s input, ok s (.controller input) → s.current = some .getRebootListEntries →
      C s.store)
    (start : S .empty) (fresh : ∀ s, S s → R ⟨s, .nothing⟩)
    (shrunk : ∀ s t, S s → s.Shrinks t → S t)
    (relied : ∀ v w, S v.store → R v → Rely v w → R w)
    (acted : ∀ v w, S v.store → R v → (w.seen.list ≠ v.seen.list → C v.store) → Acted v w →
      S w.store ∧ R w) :
    S s.store ∧ ∀ run, s.run = some run → R ⟨s.store, run.seen⟩ := by
  refine reached.invariant (fun s => S s.store ∧ ∀ run, s.run = some run → R ⟨s.store, run.seen⟩)
    ⟨start, fun _ running => nomatch (running : none = some _)⟩ ?_
  rintro u a v sound ⟨stored, seen⟩ admitted stepped _
  cases stepped with
  | others others run =>
    refine ⟨shrunk _ _ stored (others.rely sound.wf .nothing).shrinks, fun r running => ?_⟩
    exact relied _ _ stored (seen r (run ▸ running)) (others.rely sound.wf r.seen)
  | restarted frame run _ =>
    have kept := shrunk _ _ stored frame.shrinks
    refine ⟨kept, fun r running => ?_⟩
    rw [run r running]
    exact fresh _ kept
  | waited run progress before after store =>
    rw [store]
    refine ⟨stored, fun r running => ?_⟩
    cases after.symm.trans running
    exact seen run before
  | @called run c next r input action before prog permitted answered after =>
    have read : (run.seen.note c r).list ≠ run.seen.list → C u.store := by
      intro changed
      refine listed u input (action ▸ admitted) ((System.current_eq before prog).trans ?_)
      cases c <;> first | rfl | exact absurd rfl changed
    obtain ⟨kept, goesOn⟩ := acted _ ⟨v.store, run.seen.note c r⟩ stored (seen run before) read
      (acted_of_answered sound.wf permitted answered)
    refine ⟨kept, fun r' running => ?_⟩
    rcases after with ended | continued
    · cases ended.symm.trans running
    · cases continued.symm.trans running
      exact goesOn

end Neco.Rebooter
