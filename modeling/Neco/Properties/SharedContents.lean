import Neco.Worker.Contents

/-!
# Shared contents are updated once

The worker that leads is alone with the contents: it looks, acts and records before it
resigns, so that the next leader finds the outcome. `updateCKETemplate` does not record a
failure of its action, and then every worker acts again.
-/

namespace Neco.Contents

open Program

/-- Nothing is recorded for the version of the request. -/
def Shared.Unrecorded (u : Upload) (req : UpdateRequest) (s : Shared) : Prop :=
  ∀ status, s.contents u.key = some status → status.version ≠ req.version

/-- At most one worker has acted; its outcome is recorded, or it leads and is about to
record it. -/
inductive Shared.Records (u : Upload) (req : UpdateRequest) (s : Shared) : Prop
  | untouched : s.uploads = [] → s.Unrecorded u req → s.Records u req
  | acted (j : Nat) (outcome : Except Error Unit) : s.uploads = [(j, outcome)] →
      s.keys.head? = some j → s.Unrecorded u req → s.Records u req
  | recorded (j : Nat) (outcome : Except Error Unit) : s.uploads = [(j, outcome)] →
      s.contents u.key = some ⟨req.version, outcome.isOk⟩ → s.Records u req

structure Shared.Consistent (u : Upload) (req : UpdateRequest) (s : Shared) : Prop where
  nodup : s.keys.Nodup
  records : s.Records u req

/-! ### What a worker may do, and what it may rely on -/

/-- When a worker may make an operation. -/
def Permits (u : Upload) (req : UpdateRequest) (i : Nat) (s : Shared) : Call → Prop
  | .putLeaderKey => i ∉ s.keys
  | .waitDeletes => i ∈ s.keys
  | .upload _ => s.keys.head? = some i ∧ s.uploads = []
  | .putContentsUpdateStatus key st => key = u.key ∧ s.keys.head? = some i ∧
      ∃ outcome, s.uploads = [(i, outcome)] ∧ st = ⟨req.version, outcome.isOk⟩
  | .resign => s.keys.head? = some i ∧ ¬ s.Unrecorded u req
  | .closeSession => i ∉ s.keys
  | _ => True

/-- What the other workers do: they keep the key of `i`, leave everything to it while it
leads, and do not act again. -/
structure Rely (u : Upload) (req : UpdateRequest) (i : Nat) (s t : Shared) : Prop where
  key : i ∈ t.keys ↔ i ∈ s.keys
  leads : s.keys.head? = some i →
    t.keys.head? = some i ∧ t.contents = s.contents ∧ t.uploads = s.uploads
  once : s.uploads ≠ [] → t.uploads = s.uploads
  own : (∀ outcome, (i, outcome) ∉ s.uploads) → ∀ outcome, (i, outcome) ∉ t.uploads
  consistent : s.Consistent u req → t.Consistent u req

/-- The surroundings of the worker `i` when `SetCKETemplate` succeeds. -/
def world (u : Upload) (req : UpdateRequest) (i : Nat) : World Call Reply Shared where
  answers c s r t := ∃ outcome : Except Error Unit,
    (c = .upload .ckeTemplate → outcome.isOk = true) ∧ serve i outcome s c = some (r, t)
  rely := Rely u req i

/-- The result is that of the one action. -/
def Agrees (result : Except Error Unit) (s : Shared) : Prop :=
  ∃ j outcome, s.uploads = [(j, outcome)] ∧ result.isOk = outcome.isOk

/-- How a step returns: its key is gone, and the result is that of the one action. -/
def Done (i : Nat) (result : Except Error Unit) (s : Shared) : Prop :=
  i ∉ s.keys ∧ Agrees result s

section Assertions

variable (u : Upload) (req : UpdateRequest) (i : Nat)

/-- The worker has not acted. -/
structure Fresh (s : Shared) : Prop where
  own : ∀ outcome, (i, outcome) ∉ s.uploads
  consistent : s.Consistent u req

/-- The worker leads, and nobody has acted. -/
structure Free (s : Shared) : Prop where
  leads : s.keys.head? = some i
  uploads : s.uploads = []
  consistent : s.Consistent u req

/-- The worker leads and has acted. -/
structure Acted (outcome : Except Error Unit) (s : Shared) : Prop where
  leads : s.keys.head? = some i
  uploads : s.uploads = [(i, outcome)]
  consistent : s.Consistent u req

/-- The worker leads, and the outcome is recorded. -/
structure Settled (result : Except Error Unit) (s : Shared) : Prop where
  leads : s.keys.head? = some i
  recorded : ¬ s.Unrecorded u req
  agrees : Agrees result s
  consistent : s.Consistent u req

end Assertions

variable {u : Upload} {req : UpdateRequest} {i : Nat}

theorem stable_outside : (world u req i).Stable fun s => i ∉ s.keys ∧ Fresh u req i s := by
  rintro s t ⟨outside, own, consistent⟩ rely
  exact ⟨fun inside => outside (rely.key.mp inside), rely.own own, rely.consistent consistent⟩

theorem stable_waiting : (world u req i).Stable fun s => i ∈ s.keys ∧ Fresh u req i s := by
  rintro s t ⟨inside, own, consistent⟩ rely
  exact ⟨rely.key.mpr inside, rely.own own, rely.consistent consistent⟩

theorem stable_leading :
    (world u req i).Stable fun s => s.keys.head? = some i ∧ Fresh u req i s := by
  rintro s t ⟨leads, own, consistent⟩ rely
  exact ⟨(rely.leads leads).1, rely.own own, rely.consistent consistent⟩

theorem stable_free : (world u req i).Stable (Free u req i) := by
  rintro s t ⟨leads, uploads, consistent⟩ rely
  obtain ⟨leads', _, uploads'⟩ := rely.leads leads
  exact ⟨leads', uploads'.trans uploads, rely.consistent consistent⟩

theorem stable_acted (outcome : Except Error Unit) :
    (world u req i).Stable (Acted u req i outcome) := by
  rintro s t ⟨leads, uploads, consistent⟩ rely
  obtain ⟨leads', _, uploads'⟩ := rely.leads leads
  exact ⟨leads', uploads'.trans uploads, rely.consistent consistent⟩

theorem stable_settled (result : Except Error Unit) :
    (world u req i).Stable (Settled u req i result) := by
  rintro s t ⟨leads, recorded, agrees, consistent⟩ rely
  obtain ⟨leads', contents', uploads'⟩ := rely.leads leads
  refine ⟨leads', ?_, ?_, rely.consistent consistent⟩
  · rwa [Shared.Unrecorded, contents']
  · rwa [Agrees, uploads']

theorem stable_done (result : Except Error Unit) :
    (world u req i).Stable (Done i result) := by
  rintro s t ⟨outside, j, outcome, uploads, same⟩ rely
  refine ⟨fun inside => outside (rely.key.mp inside), j, outcome, ?_, same⟩
  rw [rely.once (by simp [uploads]), uploads]

/-- A new key does not change who leads. -/
theorem Shared.Records.append {s : Shared} {j : Nat} (records : s.Records u req) :
    Shared.Records u req { s with keys := s.keys ++ [j] } := by
  cases records with
  | untouched uploads unrecorded => exact .untouched uploads unrecorded
  | acted k outcome uploads first unrecorded =>
    exact .acted k outcome uploads (by simp [List.head?_append, first]) unrecorded
  | recorded k outcome uploads recorded => exact .recorded k outcome uploads recorded

/-- What is recorded for the version is the outcome of the one action. -/
theorem Shared.Consistent.found {s : Shared} (consistent : s.Consistent u req)
    {status : ContentsUpdateStatus} (here : s.contents u.key = some status)
    (same : status.version = req.version) :
    ∃ j outcome, s.uploads = [(j, outcome)] ∧ status.success = outcome.isOk := by
  cases consistent.records with
  | untouched _ unrecorded => exact absurd same (unrecorded status here)
  | acted _ _ _ _ unrecorded => exact absurd same (unrecorded status here)
  | recorded j outcome uploads recorded =>
    obtain rfl := Option.some.inj (here.symm.trans recorded)
    exact ⟨j, outcome, uploads, rfl⟩

/-- A leader that has not acted and finds nothing recorded is the first. -/
theorem Fresh.nobody {s : Shared} (fresh : Fresh u req i s) (leads : s.keys.head? = some i)
    (unrecorded : s.Unrecorded u req) : s.uploads = [] := by
  cases fresh.consistent.records with
  | untouched uploads _ => exact uploads
  | acted j outcome uploads first _ =>
    obtain rfl := Option.some.inj (leads.symm.trans first)
    exact absurd (by simp [uploads]) (fresh.own outcome)
  | recorded j outcome uploads recorded => exact absurd rfl (unrecorded _ recorded)

/-! ### The steps conform -/

/-- What a worker may assume at the end of its leadership. -/
abbrev LedBy (u : Upload) (req : UpdateRequest) (i : Nat) (p : Prog) (P : Shared → Prop) : Prop :=
  Conforms (world u req i) (Permits u req i) p P (Settled u req i)

theorem conforms_record (outcome : Except Error Unit) :
    LedBy u req i (record u.key req.version outcome) (Acted u req i outcome) := by
  refine .callKnown (.ok ()) ?_ (stable_settled outcome) ?_ ?_
  · exact fun s acted => ⟨rfl, acted.leads, outcome, acted.uploads, rfl⟩
  · rintro s err2 t ⟨leads, uploads, consistent⟩ ⟨_, _, served⟩
    -- The put is guarded by the leader key, which the worker holds.
    have inside : i ∈ s.keys := List.mem_of_mem_head? leads
    simp only [serve, inside, if_true, Option.some.injEq, Prod.mk.injEq] at served
    obtain ⟨rfl, rfl⟩ := served
    have here : Function.update s.contents u.key (some ⟨req.version, outcome.isOk⟩) u.key =
        some ⟨req.version, outcome.isOk⟩ := Function.update_self ..
    exact ⟨rfl, leads, fun unrecorded => unrecorded _ here rfl, ⟨i, outcome, uploads, rfl⟩,
      consistent.nodup, .recorded i outcome uploads here⟩
  · cases outcome <;> exact fun s settled => settled

/-- What a leader knows after its look at the recorded outcome. The read itself does not fail. -/
def Looked (u : Upload) (req : UpdateRequest) (i : Nat) (message : String) :
    Except Error ContentsUpdateStatus → Shared → Prop
  | .error .notFound => Free u req i
  | .error _ => fun _ => False
  | .ok status =>
    if status.version = req.version then
      Settled u req i (if status.success then .ok () else .error (.failed message))
    else Free u req i

/-- The look at the recorded outcome: a leader that goes on is the first. -/
theorem conforms_unlessRecorded {message : String} {act : Prog}
    (conforms : LedBy u req i act (Free u req i)) :
    LedBy u req i (unlessRecorded u.key req.version message act)
      (fun s => s.keys.head? = some i ∧ Fresh u req i s) := by
  refine .call (Looked u req i message) (fun _ _ => trivial) ?_ ?_ ?_
  · rintro (err | status)
    · cases err with
      | notFound => exact stable_free
      | noLeader => exact fun _ _ never _ => never
      | failed _ => exact fun _ _ never _ => never
    · dsimp only [Looked]
      split
      · exact stable_settled _
      · exact stable_free
  · rintro s r t ⟨leads, fresh⟩ ⟨_, _, served⟩
    simp only [serve] at served
    split at served
    next absent =>
      cases served
      refine ⟨leads, fresh.nobody leads fun status here => ?_, fresh.consistent⟩
      cases absent.symm.trans here
    next status here =>
      cases served
      dsimp only [Looked]
      split
      next same =>
        obtain ⟨j, outcome, uploads, success⟩ := fresh.consistent.found here same
        refine ⟨leads, fun unrecorded => unrecorded status here same, ⟨j, outcome, uploads, ?_⟩,
          fresh.consistent⟩
        rw [← success]
        cases status.success <;> rfl
      next other =>
        refine ⟨leads, fresh.nobody leads fun status' here' => ?_, fresh.consistent⟩
        cases here.symm.trans here'
        exact other
  · rintro (err | status)
    · cases err with
      | notFound => exact conforms
      | noLeader => exact Conforms.impossible
      | failed _ => exact Conforms.impossible
    · dsimp only [Looked]
      split
      · cases status.success <;> exact fun s settled => settled
      · exact conforms

/-- The action: afterwards the worker has acted, and the outcome is known to be a success for
the step that would not record a failure. -/
theorem conforms_upload {action : Upload} {next : Except Error Unit → Prog}
    (conforms : ∀ outcome, (action = .ckeTemplate → outcome.isOk = true) →
      LedBy u req i (next outcome) (Acted u req i outcome)) :
    LedBy u req i (.call (.upload action) next) (Free u req i) := by
  refine .call (fun outcome s => (action = .ckeTemplate → outcome.isOk = true) ∧
    Acted u req i outcome s) (fun s free => ⟨free.leads, free.uploads⟩) ?_ ?_ ?_
  · rintro outcome s t ⟨succeeds, acted⟩ rely
    exact ⟨succeeds, stable_acted outcome s t acted rely⟩
  · rintro s r t ⟨leads, uploads, nodup, records⟩ ⟨outcome, succeeds, served⟩
    cases served
    refine ⟨fun same => succeeds (by rw [same]), leads, by simp [uploads], nodup, ?_⟩
    cases records with
    | untouched _ unrecorded => exact .acted i r (by simp [uploads]) leads unrecorded
    | acted j outcome' uploads' => cases uploads.symm.trans uploads'
    | recorded j outcome' uploads' => cases uploads.symm.trans uploads'
  · exact fun outcome => Conforms.assume (conforms outcome)

theorem conforms_asLeader {body : Prog}
    (conforms : LedBy u req i body fun s => s.keys.head? = some i ∧ Fresh u req i s) :
    Conforms (world u req i) (Permits u req i) (asLeader body)
      (fun s => i ∉ s.keys ∧ Fresh u req i s) (Done i) := by
  -- The replies of the election are always nil, so the error paths ask for nothing.
  refine .callKnown (.ok ()) (fun _ _ => trivial) stable_outside ?_ ?_
  · rintro s r t outside ⟨_, _, served⟩
    cases served
    exact ⟨rfl, outside⟩
  refine .callKnown (.ok ()) (fun s outside => outside.1) stable_waiting ?_ ?_
  · rintro s r t ⟨outside, own, nodup, records⟩ ⟨_, _, served⟩
    cases served
    refine ⟨rfl, by simp, own, ?_, ?_⟩
    · simpa [List.nodup_append, nodup] using fun k inside => ne_of_mem_of_not_mem inside outside
    · exact records.append
  refine .callKnown (.ok ()) (fun s waiting => waiting.1) stable_leading ?_ ?_
  · rintro s r t ⟨_, fresh⟩ ⟨_, _, served⟩
    simp only [serve] at served
    split at served
    next leads =>
      cases served
      exact ⟨rfl, leads, fresh⟩
    · cases served
  -- The body runs while the worker leads; its key goes with `Resign`.
  refine Conforms.bind conforms fun result => ?_
  refine .call (fun _ => Done i result) (fun s settled => ⟨settled.leads, settled.recorded⟩)
    (fun _ => stable_done result) ?_ fun _ => ?_
  · rintro s r t ⟨_, _, agrees, nodup, _⟩ ⟨_, _, served⟩
    cases served
    exact ⟨nodup.not_mem_erase, agrees⟩
  refine .call (fun _ => Done i result) (fun s done => done.1) (fun _ => stable_done result) ?_
    fun _ _ done => done
  rintro s r t ⟨outside, agrees⟩ ⟨_, _, served⟩
  cases served
  exact ⟨fun inside => outside (List.mem_of_mem_erase inside), agrees⟩

/-- The check before the election is passed, since services are active and CKE is
initialised. -/
theorem conforms_checked {c : Call} {next : Reply c → Prog} {Q : Except Error Unit → Shared → Prop}
    {P : Shared → Prop} (r : Reply c) (stable : (world u req i).Stable P)
    (permitted : ∀ s, Permits u req i s c)
    (served : ∀ s outcome, serve i outcome s c = some (r, s))
    (conforms : Conforms (world u req i) (Permits u req i) (next r) P Q) :
    Conforms (world u req i) (Permits u req i) (.call c next) P Q := by
  refine .callKnown r (fun s _ => permitted s) stable ?_ conforms
  rintro s r' t holds ⟨outcome, _, answer⟩
  obtain ⟨rfl, rfl⟩ := Prod.mk.inj (Option.some.inj ((served s outcome).symm.trans answer))
  exact ⟨rfl, holds⟩

theorem conforms_updateContents {service message : String} {action : Upload} :
    Conforms (world u req i) (Permits u req i) (updateContents service u.key action message req)
      (fun s => i ∉ s.keys ∧ Fresh u req i s) (Done i) :=
  conforms_checked (.ok true) stable_outside (fun _ => trivial) (fun _ _ => rfl) <|
    conforms_asLeader <| conforms_unlessRecorded <| conforms_upload fun outcome _ =>
      conforms_record outcome

theorem conforms_step (u : Upload) (req : UpdateRequest) (i : Nat) :
    Conforms (world u req i) (Permits u req i) (u.step req)
      (fun s => i ∉ s.keys ∧ Fresh u req i s) (Done i) := by
  cases u with
  | sabakanContents => exact conforms_updateContents
  | ckeContents => exact conforms_updateContents
  | dhcpJSON => exact conforms_updateContents
  | userResources => exact conforms_updateContents
  | ckeTemplate =>
    refine conforms_checked (.ok true) stable_outside (fun _ => trivial) (fun _ _ => rfl) <|
      conforms_asLeader <| conforms_unlessRecorded <| conforms_upload fun outcome succeeds => ?_
    cases outcome with
    | error err => cases succeeds rfl
    | ok done => exact conforms_record (.ok ())

/-! ### The system -/

/-- An operation that its worker may make keeps the store consistent and what the other
workers rely on. -/
theorem rely_of_serve {s t : Shared} {c : Call} {r : Reply c} {outcome : Except Error Unit}
    (consistent : s.Consistent u req) (permitted : Permits u req i s c)
    (served : serve i outcome s c = some (r, t)) {j : Nat} (other : j ≠ i) :
    Rely u req j s t := by
  have same : Rely u req j s s :=
    ⟨Iff.rfl, fun leads => ⟨leads, rfl, rfl⟩, fun _ => rfl, id, id⟩
  -- The writing operations are made by the leader, and then `j` does not lead.
  have alone {φ : Prop} (leads : s.keys.head? = some i) (leads' : s.keys.head? = some j) : φ :=
    absurd (Option.some.inj (leads'.symm.trans leads)) other
  cases c with
  | isActiveService _ => cases served; exact same
  | stat _ => cases served; exact same
  | newSession => cases served; exact same
  | putLeaderKey =>
    cases served
    refine ⟨by simp [other], fun leads => ⟨by simp [List.head?_append, leads], rfl, rfl⟩,
      fun _ => rfl, id, fun _ => ⟨?_, consistent.records.append⟩⟩
    simpa [List.nodup_append, consistent.nodup] using
      fun k inside => ne_of_mem_of_not_mem inside permitted
  | waitDeletes =>
    simp only [serve] at served
    split at served <;> cases served
    exact same
  | getContentsUpdateStatus key =>
    simp only [serve] at served
    split at served <;> cases served <;> exact same
  | upload action =>
    cases served
    obtain ⟨leads, uploads⟩ := permitted
    refine ⟨Iff.rfl, alone leads, fun some => absurd uploads some, fun _ outcome' => ?_,
      fun _ => ⟨consistent.nodup, ?_⟩⟩
    · simp [uploads, other]
    · cases consistent.records with
      | untouched _ unrecorded => exact .acted i outcome (by simp [uploads]) leads unrecorded
      | acted _ _ uploads' => cases uploads.symm.trans uploads'
      | recorded _ _ uploads' => cases uploads.symm.trans uploads'
  | putContentsUpdateStatus key st =>
    obtain ⟨rfl, leads, outcome', uploads, rfl⟩ := permitted
    have inside : i ∈ s.keys := List.mem_of_mem_head? leads
    simp only [serve, inside, if_true, Option.some.injEq, Prod.mk.injEq] at served
    obtain ⟨_, rfl⟩ := served
    exact ⟨Iff.rfl, alone leads, fun _ => rfl, id, fun _ =>
      ⟨consistent.nodup, .recorded i outcome' uploads (Function.update_self ..)⟩⟩
  | resign =>
    cases served
    obtain ⟨leads, recorded⟩ := permitted
    refine ⟨List.mem_erase_of_ne other, alone leads, fun _ => rfl, id,
      fun _ => ⟨consistent.nodup.erase i, ?_⟩⟩
    cases consistent.records with
    | untouched _ unrecorded => exact absurd unrecorded recorded
    | acted _ _ _ _ unrecorded => exact absurd unrecorded recorded
    | recorded k outcome' uploads here => exact .recorded k outcome' uploads here
  | closeSession =>
    cases served
    rw [List.erase_of_not_mem permitted]
    exact same

/-- Only a worker that waits to be elected can be held up. -/
theorem serve_isSome {s : Shared} {c : Call} (outcome : Except Error Unit)
    (elected : c = .waitDeletes → s.keys.head? = some i) :
    (serve i outcome s c).isSome = true := by
  cases c with
  | waitDeletes => simp [serve, elected rfl]
  | getContentsUpdateStatus key =>
    simp only [serve]
    split <;> rfl
  | putContentsUpdateStatus key st =>
    simp only [serve]
    split <;> rfl
  | _ => rfl

theorem within_asLeader {body : Prog} (within : body.Within 3) : (asLeader body).Within 8 := by
  rintro (err | ⟨⟩)
  · trivial
  rintro (err | ⟨⟩)
  · exact fun _ => trivial
  rintro (err | ⟨⟩)
  · exact fun _ => trivial
  exact within.bind (n := 2) fun result _ _ => trivial

theorem within_unlessRecorded {key version message : String} {act : Prog} (within : act.Within 2) :
    (unlessRecorded key version message act).Within 3 := by
  rintro (err | status)
  · cases err with
    | notFound => exact within
    | noLeader => trivial
    | failed _ => trivial
  · dsimp only
    split
    · split <;> trivial
    · exact within

theorem within_record {key version : String} (outcome : Except Error Unit) :
    (record key version outcome).Within 1 := by
  intro err2
  cases outcome <;> trivial

/-- A worker makes at most nine operations in the step. -/
theorem within_step (u : Upload) (req : UpdateRequest) : (u.step req).Within 9 := by
  have contents (service key message : String) (action : Upload) :
      (updateContents service key action message req).Within 9 := by
    rintro (err | active)
    · trivial
    cases active with
    | false => trivial
    | true => exact within_asLeader (within_unlessRecorded within_record)
  cases u with
  | sabakanContents => exact contents _ _ _ _
  | ckeContents => exact contents _ _ _ _
  | dhcpJSON => exact contents _ _ _ _
  | userResources => exact contents _ _ _ _
  | ckeTemplate =>
    rintro (err | initialised)
    · trivial
    cases initialised with
    | false => trivial
    | true =>
      refine within_asLeader (within_unlessRecorded ?_)
      rintro (err | ⟨⟩)
      · trivial
      · exact within_record _

/-- `SetCKETemplate` does not fail. -/
def TemplateSucceeds (s : System) : Action → Prop
  | .operate i outcome => s.next i = some (.upload .ckeTemplate) → outcome.isOk = true
  | .enter _ => True

instance (s : System) (a : Action) : Decidable (TemplateSucceeds s a) := by
  unfold TemplateSucceeds
  split <;> infer_instance

/-- What holds in every state of a run. -/
structure Sound (u : Upload) (req : UpdateRequest) (s : System) : Prop where
  consistent : s.shared.Consistent u req
  outside : ∀ i, s.workers i = none → i ∉ s.shared.keys ∧ Fresh u req i s.shared
  inside : ∀ i p, s.workers i = some p →
    Executing (world u req i) (Permits u req i) p.rest (Done i) s.shared
  bounded : ∀ i p, s.workers i = some p → p.operations ≤ 9 ∧ p.rest.Within (9 - p.operations)

theorem sound_initial {s : System} (initial : s.Initial u req) : Sound u req s := by
  have consistent : s.shared.Consistent u req :=
    ⟨by simp [initial.keys], .untouched initial.uploads initial.unrecorded⟩
  refine ⟨consistent, fun i _ => ⟨by simp [initial.keys], by simp [initial.uploads], consistent⟩,
    fun i p entered => ?_, fun i p entered => ?_⟩
  · cases (initial.workers i).symm.trans entered
  · cases (initial.workers i).symm.trans entered

/-- A worker after one of them has moved on: it is that worker, or it is where it was. -/
theorem update_eq_some {f : Nat → Option Progress} {j : Nat} {p q : Progress}
    (here : Function.update f i (some p) j = some q) : j = i ∧ q = p ∨ j ≠ i ∧ f j = some q := by
  by_cases same : j = i
  · subst same
    rw [Function.update_self] at here
    exact .inl ⟨rfl, (Option.some.inj here).symm⟩
  · rw [Function.update_of_ne same] at here
    exact .inr ⟨same, here⟩

theorem update_eq_none {f : Nat → Option Progress} {j : Nat} {p : Progress}
    (here : Function.update f i (some p) j = none) : j ≠ i ∧ f j = none := by
  by_cases same : j = i
  · subst same
    rw [Function.update_self] at here
    cases here
  · rw [Function.update_of_ne same] at here
    exact ⟨same, here⟩

theorem Sound.enter {s : System} (sound : Sound u req s) (absent : s.workers i = none) :
    Sound u req { s with workers := Function.update s.workers i (some ⟨u.step req, 0⟩) } := by
  refine ⟨sound.consistent, fun j outside => sound.outside j (update_eq_none outside).2,
    fun j p entered => ?_, fun j p entered => ?_⟩
  · rcases update_eq_some entered with ⟨rfl, rfl⟩ | ⟨_, before⟩
    · exact ⟨_, stable_outside, sound.outside j absent, conforms_step u req j⟩
    · exact sound.inside j p before
  · rcases update_eq_some entered with ⟨rfl, rfl⟩ | ⟨_, before⟩
    · exact ⟨Nat.zero_le 9, within_step u req⟩
    · exact sound.bounded j p before

theorem Sound.operate {s : System} (sound : Sound u req s) {c : Call} {next : Reply c → Prog}
    {operations : Nat} (here : s.workers i = some ⟨.call c next, operations⟩)
    {outcome : Except Error Unit} {r : Reply c} {t : Shared}
    (succeeds : c = .upload .ckeTemplate → outcome.isOk = true)
    (served : serve i outcome s.shared c = some (r, t)) :
    Sound u req ⟨t, Function.update s.workers i (some ⟨next r, operations + 1⟩)⟩ := by
  have executing := sound.inside i _ here
  have rely (j : Nat) (other : j ≠ i) : Rely u req j s.shared t :=
    rely_of_serve sound.consistent executing.permitted served other
  refine ⟨(rely (i + 1) (by omega)).consistent sound.consistent, fun j outside => ?_,
    fun j p entered => ?_, fun j p entered => ?_⟩
  · obtain ⟨other, before⟩ := update_eq_none outside
    exact stable_outside s.shared t (sound.outside j before) (rely j other)
  · rcases update_eq_some entered with ⟨rfl, rfl⟩ | ⟨other, before⟩
    · exact executing.answered ⟨outcome, succeeds, served⟩
    · exact (sound.inside j p before).interfered (rely j other)
  · rcases update_eq_some entered with ⟨rfl, rfl⟩ | ⟨other, before⟩
    · obtain ⟨_, within⟩ := sound.bounded j _ here
      dsimp only at within ⊢
      -- A call was left, so the bound was not reached yet.
      cases left : 9 - operations with
      | zero =>
        rw [left] at within
        exact within.elim
      | succ n =>
        rw [left] at within
        rw [show 9 - (operations + 1) = n by omega]
        exact ⟨by omega, within r⟩
    · exact sound.bounded j p before

theorem Sound.step {s t : System} {a : Action} (sound : Sound u req s)
    (admitted : TemplateSucceeds s a) (stepped : System.step u req s a = some t) :
    Sound u req t := by
  cases a with
  | enter i =>
    simp only [System.step] at stepped
    split at stepped
    next absent =>
      cases stepped
      exact sound.enter absent
    · cases stepped
  | operate i outcome =>
    simp only [System.step] at stepped
    split at stepped
    next c next operations here =>
      obtain ⟨⟨r, shared⟩, served, rfl⟩ := Option.map_eq_some_iff.mp stepped
      exact sound.operate here (fun same => admitted (by simp [System.next, here, same])) served
    · cases stepped

theorem sound_of_reached {s : System} (reached : Reached u req TemplateSucceeds s) :
    Sound u req s := by
  obtain ⟨s₀, initial, run⟩ := reached
  exact run.invariant (Sound u req) (sound_initial initial)
    fun _ _ _ sound admitted stepped => sound.step admitted stepped

theorem System.result_eq_some {s : System} {result : Except Error Unit}
    (returned : s.result i = some result) : ∃ n, s.workers i = some ⟨.ret result, n⟩ := by
  simp only [System.result] at returned
  split at returned
  next result' n here =>
    cases returned
    exact ⟨n, here⟩
  · cases returned

/-- As long as a worker has not returned, some worker can make an operation: the one that
waits to be elected waits for a leader, and the leader does not wait. -/
theorem Sound.progress {s : System} (sound : Sound u req s) {p : Progress}
    (entered : s.workers i = some p) (unfinished : s.result i = none) :
    ∃ j, ∀ outcome, (System.step u req s (.operate j outcome)).isSome = true := by
  have moves (j : Nat) {q : Progress} (present : s.workers j = some q)
      (busy : ∀ result, q.rest ≠ .ret result)
      (elected : s.next j = some .waitDeletes → s.shared.keys.head? = some j) :
      ∀ outcome, (System.step u req s (.operate j outcome)).isSome = true := by
    intro outcome
    obtain ⟨rest, n⟩ := q
    cases rest with
    | ret result => exact absurd rfl (busy result)
    | fail e => exact e.elim
    | call c next =>
      simp only [System.step, present, Option.isSome_map]
      exact serve_isSome outcome fun same => elected (by simp [System.next, present, same])
  have busy (result : Except Error Unit) : p.rest ≠ .ret result := by
    intro returned
    obtain ⟨rest, n⟩ := p
    cases returned
    simp [System.result, entered] at unfinished
  by_cases waits : s.next i = some .waitDeletes
  · have inside : i ∈ s.shared.keys := by
      obtain ⟨rest, n⟩ := p
      cases rest with
      | ret result => exact absurd rfl (busy result)
      | fail e => exact e.elim
      | call c next =>
        simp only [System.next, entered, Option.some.injEq] at waits
        subst waits
        exact (sound.inside i _ entered).permitted
    obtain ⟨j, first⟩ : ∃ j, s.shared.keys.head? = some j :=
      Option.isSome_iff_exists.mp (List.isSome_head?.mpr (List.ne_nil_of_mem inside))
    have member : j ∈ s.shared.keys := List.mem_of_mem_head? first
    cases present : s.workers j with
    | none => exact absurd member (sound.outside j present).1
    | some q =>
      refine ⟨j, moves j present (fun result returned => ?_) fun _ => first⟩
      have executing := sound.inside j q present
      rw [returned] at executing
      exact executing.returned.1 member
  · exact ⟨i, moves i entered busy fun waiting => absurd waiting waits⟩

/-- In every run of a shared-contents step in which `SetCKETemplate` does not fail: at most
one worker has acted; a worker's step returns nil exactly if that one action succeeded; and
every worker that has entered returns, since it makes at most nine operations and as long as
it has not returned some worker can go on. -/
theorem contents_updated_once (u : Upload) (req : UpdateRequest) (s : System)
    (reached : Reached u req TemplateSucceeds s) :
    s.shared.uploads.length ≤ 1 ∧
    (∀ i result, s.result i = some result →
      ∃ j outcome, s.shared.uploads = [(j, outcome)] ∧ result.isOk = outcome.isOk) ∧
    (∀ i p, s.workers i = some p → p.operations ≤ 9) ∧
    ∀ i p, s.workers i = some p → s.result i = none →
      ∃ j, ∀ outcome, (System.step u req s (.operate j outcome)).isSome = true := by
  have sound := sound_of_reached reached
  refine ⟨?_, fun i result returned => ?_, fun i p entered => (sound.bounded i p entered).1,
    fun i p entered unfinished => sound.progress entered unfinished⟩
  · cases sound.consistent.records with
    | untouched uploads => simp [uploads]
    | acted j outcome uploads => simp [uploads]
    | recorded j outcome uploads => simp [uploads]
  · obtain ⟨n, here⟩ := System.result_eq_some returned
    exact (sound.inside i _ here).returned.2

/-- The request of the runs below. -/
def someRequest : UpdateRequest := ⟨"2020.01.01-1", [0, 1], false, 0⟩

/-- Two workers enter `UpdateSabakanContents`; the first one fails to upload. -/
def failedUpload : System := .play .sabakanContents someRequest TemplateSucceeds <|
  [.enter 0, .enter 1] ++ operates 0 9 (.error (.failed "upload")) ++ operates 1 7 (.ok ())

theorem contents_updated_once_failed :
    failedUpload.result 0 = some (.error (.failed "upload")) ∧
      failedUpload.result 1 =
        some (.error (.failed "update of Sabakan contents failed by preceding worker")) ∧
      failedUpload.shared.uploads.length ≤ 1 :=
  ⟨by decide +kernel, by decide +kernel,
    (contents_updated_once .sabakanContents someRequest failedUpload (reached_play _ _ _ _)).1⟩

/-- Two workers enter `UpdateCKETemplate`; the first one fails. -/
def failedTemplate : System := .play .ckeTemplate someRequest Transition.always <|
  [.enter 0, .enter 1] ++ operates 0 8 (.error (.failed "template")) ++ operates 1 9 (.ok ())

/-- The second worker acts again, and its step succeeds. -/
theorem template_updated_twice :
    Reached .ckeTemplate someRequest Transition.always failedTemplate ∧
      failedTemplate.shared.uploads = [(0, .error (.failed "template")), (1, .ok ())] ∧
      failedTemplate.result 0 = some (.error (.failed "template")) ∧
      failedTemplate.result 1 = some (.ok ()) :=
  ⟨reached_play _ _ _ _, by decide +kernel, by decide +kernel, by decide +kernel⟩

end Neco.Contents
