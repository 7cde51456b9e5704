import Neco.Properties.Leadership
import Neco.Setup.FirstRequest
import Neco.Storage.Info

/-!
# Reconfiguration happens only when the membership changed

`NextAction` compares the servers of the request with those of the snapshot as lists. The
updater copies the list of a snapshot, which is in the order of the keys, but the first request
comes from `Setup`, which sorts the LRNs as numbers. The lists stand for the same sets as long
as the two orders agree on the servers of the setup.
-/

namespace Neco

variable {V : Type} [DecidableEq V]

/-- The lists of servers in a snapshot are in the order of the keys. -/
structure Snapshot.Ordered (ss : Snapshot) : Prop where
  servers : KeyOrdered ss.servers
  request : ∀ req, ss.request = some req → KeyOrdered req.servers

/-- All requests that were put have their servers in the order of the keys. -/
def OrderedRequests (h : List Change) : Prop :=
  ∀ c ∈ h, ∀ req, c.request? = some req → KeyOrdered req.servers

theorem OrderedRequests.concat {h : List Change} (ordered : OrderedRequests h) {c : Change}
    (last : ∀ req, c.request? = some req → KeyOrdered req.servers) :
    OrderedRequests (h ++ [c]) := by
  intro d member
  rcases List.mem_append.mp member with old | new
  · exact ordered d old
  · exact List.mem_singleton.mp new ▸ last

theorem OrderedRequests.newSnapshot {h : List Change} (ordered : OrderedRequests h) :
    (newSnapshot h).Ordered where
  servers := bootservers_ordered h
  request := by
    intro req has
    obtain ⟨⟨req', m⟩, present, rfl⟩ := Option.map_eq_some_iff.mp has
    have put := current_requestAt present
    cases m with
    | zero => cases put
    | succ r =>
      simp only [requestAt, Option.bind_eq_some_iff] at put
      obtain ⟨c, here, request⟩ := put
      exact ordered c (List.mem_of_getElem? here) req' request

/-- What the updater decides to put is ordered like its snapshot. -/
theorem Decided.ordered {ss : Snapshot} {c : Change} (decided : Decided ss c) (ordered : ss.Ordered)
    (req : UpdateRequest) (put : c.request? = some req) : KeyOrdered req.servers := by
  cases decided with
  | first now absent =>
    cases put
    exact ordered.servers
  | newVersion now req finished servers version =>
    cases put
    exact ordered.servers
  | stop req has running =>
    cases put
    exact ordered.request req has
  | reconfigure now req finished =>
    cases put
    exact ordered.servers

/-! ### The invariant -/

structure InKeyOrder (s : System) : Prop where
  requests : OrderedRequests s.history
  snapshots : ∀ u ss, (s.updaters u).snapshot = some ss → ss.Ordered
  decided : ∀ u k ss c, s.updaters u = .putting k ss c → Decided ss c

/-- A transaction that puts no request keeps the invariant. -/
theorem InKeyOrder.commit {s t : System} (inv : InKeyOrder s) (updaters : t.updaters = s.updaters)
    {c : Change} (history : t.history = s.history ++ [c]) (no : c.request? = none) :
    InKeyOrder t where
  requests := history ▸ inv.requests.concat fun req put => by rw [no] at put; cases put
  snapshots := updaters ▸ inv.snapshots
  decided := updaters ▸ inv.decided

theorem InKeyOrder.congr {s t : System} (inv : InKeyOrder s) (updaters : t.updaters = s.updaters)
    (history : t.history = s.history) : InKeyOrder t where
  requests := history ▸ inv.requests
  snapshots := updaters ▸ inv.snapshots
  decided := updaters ▸ inv.decided

theorem InKeyOrder.updater {cfg : Config V} {s : System} (inv : InKeyOrder s) {u : Nat}
    {a : UpdaterAction} {next : Updater} {cs : List Change}
    (move : UpdaterMove cfg s.history s.keys s.now (s.updaters u) a next cs) :
    InKeyOrder { s with
      updaters := Function.update s.updaters u next, history := s.history ++ cs } where
  requests := by
    rcases move.committed with rfl | ⟨key, ss, c, putting, _, rfl, _⟩
    · rw [List.append_nil]
      exact inv.requests
    · exact inv.requests.concat ((inv.decided u key ss c putting).ordered
        (inv.snapshots u ss (by rw [putting]; rfl)))
  snapshots := by
    intro v ss has
    by_cases same : v = u
    · subst same
      simp only [Function.update_self] at has
      rcases (move.snapshot_cases ss has).2 with old | rfl
      · exact inv.snapshots v ss old
      · exact inv.requests.newSnapshot
    · simp only [Function.update_of_ne same] at has
      exact inv.snapshots v ss has
  decided := by
    intro v k ss c here
    by_cases same : v = u
    · subst same
      simp only [Function.update_self] at here
      exact move.decided k ss c here
    · simp only [Function.update_of_ne same] at here
      exact inv.decided v k ss c here

theorem InKeyOrder.step {cfg : Config V} {s t : System} {a : SystemAction} (inv : InKeyOrder s)
    (stepped : Stepped cfg s a t) : InKeyOrder t := by
  cases stepped with
  | worker lrn a w cs events move =>
    rcases move.committed with rfl | ⟨job, st, _, rfl⟩
    · exact inv.congr rfl (List.append_nil _)
    · exact inv.commit rfl rfl rfl
  | updater u a next cs move => exact inv.updater move
  | recoverRead => exact inv.congr rfl rfl
  | recoverClear => exact inv.commit rfl rfl rfl
  | recoverRetry => exact inv.congr rfl rfl
  | campaign u idle =>
    refine ⟨inv.requests, fun v ss has => ?_, fun v k ss c here => ?_⟩
    · by_cases same : v = u
      · subst same
        simp [Function.update_self, Updater.snapshot] at has
      · simp only [Function.update_of_ne same] at has
        exact inv.snapshots v ss has
    · by_cases same : v = u
      · subst same
        simp [Function.update_self] at here
      · simp only [Function.update_of_ne same] at here
        exact inv.decided v k ss c here
  | loseKey => exact inv.congr rfl rfl
  | info a c info _ =>
    refine inv.commit rfl rfl ?_
    cases c <;> first | rfl | cases info
  | other => exact inv.commit rfl rfl rfl
  | tick => exact inv.congr rfl rfl

/-- The numbers and the keys of the servers are in the same order. -/
def KeysAgree (lrns : List Int) : Prop :=
  ∀ i ∈ lrns, ∀ j ∈ lrns, i < j → keyBootServer i < keyBootServer j

instance (lrns : List Int) : Decidable (KeysAgree lrns) := by
  unfold KeysAgree
  infer_instance

theorem inKeyOrder_finished {b : Setup.BootServers} {s : System} (agree : KeysAgree b.lrns)
    (finished : Setup.Finished b s) : InKeyOrder s := by
  obtain ⟨info, version, startedAt, plain, _, history⟩ := finished.history
  refine ⟨?_, fun u ss has => ?_, fun u k ss c putting => ?_⟩
  · rw [history]
    refine OrderedRequests.concat (fun c member req put => ?_) fun req put => ?_
    · rw [(isStatus_false (plain c member)).1] at put
      cases put
    · cases put
      refine (Setup.sorted_sortInts b).imp_of_mem fun {i j} memberI memberJ less => ?_
      exact agree i (Setup.mem_sortInts.mp memberI) j (Setup.mem_sortInts.mp memberJ) less
  · rw [finished.updaters u] at has
    cases has
  · rw [finished.updaters u] at putting
    cases putting

/-! ### Reconfiguration -/

/-- `NextAction` returns `ActionReconfigure` only for different lists. -/
theorem nextAction_reconfigure_servers (newVersion : String → Option V) (timeout now : Int)
    (ss : Snapshot) (decided : nextAction newVersion timeout now ss = .reconfigure) :
    ∃ req, ss.request = some req ∧ req.servers ≠ ss.servers := by
  obtain ⟨req, finished⟩ := nextAction_reconfigure newVersion timeout now ss decided
  refine ⟨req, finished.request, fun same => ?_⟩
  simp only [nextAction, finished.request, finished.running, same] at decided
  repeat' split at decided
  all_goals contradiction

/-- **Reconfiguration happens only when the membership changed**, if the numbers and the keys of
the servers given to `Setup` are in the same order: whatever happens later, when `NextAction`
returns `ActionReconfigure` on a snapshot that can be taken or that an updater holds, some server
is registered but not in the request, or in the request but not registered. -/
theorem reconfigure_only_if_changed (cfg : Config V) (b : Setup.BootServers)
    (agree : KeysAgree b.lrns) (s₀ s : System) (finished : Setup.Finished b s₀)
    (run : Transition.RunFrom (System.step cfg) Transition.always s₀ s) (ss : Snapshot)
    (taken : ss = newSnapshot s.history ∨ ∃ u, (s.updaters u).snapshot = some ss) (now : Int)
    (decided : nextAction cfg.newVersion cfg.timeout now ss = .reconfigure) :
    ∃ req, ss.request = some req ∧ ∃ lrn, ¬(lrn ∈ ss.servers ↔ lrn ∈ req.servers) := by
  have inv : InKeyOrder s := run.invariant InKeyOrder (inKeyOrder_finished agree finished)
    fun t a u inv _ stepped => inv.step (step_stepped cfg t u a stepped)
  have ordered : ss.Ordered := by
    rcases taken with rfl | ⟨u, has⟩
    · exact inv.requests.newSnapshot
    · exact inv.snapshots u ss has
  obtain ⟨req, has, different⟩ := nextAction_reconfigure_servers _ _ _ ss decided
  refine ⟨req, has, ?_⟩
  -- Two ordered lists with the same members are equal.
  by_contra same
  rw [not_exists] at same
  exact different ((ordered.request req has).eq_of_mem_iff ordered.servers fun lrn =>
    (not_not.mp (same lrn)).symm)

/-- `setUp` is the end of the setup of sorted servers. -/
theorem setUp_finished (b : Setup.BootServers) (version : String)
    (sorted : Setup.sortInts b.lrns = b.lrns) :
    Setup.Finished b (System.boot (setUp b.lrns version)) := by
  refine ⟨⟨b.lrns.map .registerBootserver ++ [.updateNecoRelease version], version, 0, ?_, ?_, ?_⟩,
    fun _ => rfl⟩
  · intro c member
    rcases List.mem_append.mp member with server | release
    · obtain ⟨lrn, _, rfl⟩ := List.mem_map.mp server
      rfl
    · rw [List.mem_singleton] at release
      rw [release]
      rfl
  · intro lrn
    rw [store_concat, bootservers_apply]
    exact mem_bootservers_registered b.lrns lrn
  · simp [System.boot, setUp, firstRequest, Setup.firstRequest, sorted]

/-- All servers complete the first update. -/
def completeUpdate (version : String) (lrns : List Int) : List SystemAction :=
  lrns.flatMap (joinUpdate version) ++
    (List.replicate operatorFinalStep (runTogether lrns)).flatten

def oneServer : Setup.BootServers := ⟨[0], by decide, by decide⟩

/-- The update completes, and then a second server registers. -/
def secondServer : System := .play operatorConfig Transition.always [0] "2020.01.01-1" <|
  completeUpdate "2020.01.01-1" [0] ++ [.registerBootserver 1]

theorem reconfigure_only_if_changed_second : ∃ req, (newSnapshot secondServer.history).request =
    some req ∧ ∃ lrn, ¬(lrn ∈ (newSnapshot secondServer.history).servers ↔ lrn ∈ req.servers) :=
  reconfigure_only_if_changed operatorConfig oneServer (by decide)
    (.boot (setUp oneServer.lrns "2020.01.01-1")) secondServer
    (setUp_finished oneServer _ (by decide)) (runFrom_play ..) (newSnapshot secondServer.history)
    (.inl rfl) 0 (by decide +kernel)

def smallAndLarge : Setup.BootServers := ⟨[2, 10], by decide, by decide⟩

/-- Servers 2 and 10 complete the first update, nobody comes or leaves. -/
def unchangedServers : System := .play operatorConfig Transition.always [2, 10] "2020.01.01-1" <|
  completeUpdate "2020.01.01-1" [2, 10]

/-- The first request lists 2 before 10 and the snapshot 10 before 2, so the cluster is
reconfigured although the two sets are the same. -/
theorem needless_reconfigure :
    Setup.Finished smallAndLarge (.boot (setUp smallAndLarge.lrns "2020.01.01-1")) ∧
    Transition.RunFrom (System.step operatorConfig) Transition.always
      (.boot (setUp smallAndLarge.lrns "2020.01.01-1")) unchangedServers ∧
    nextAction operatorConfig.newVersion operatorConfig.timeout 0
      (newSnapshot unchangedServers.history) = .reconfigure ∧
    (newSnapshot unchangedServers.history).servers = [10, 2] ∧
    (newSnapshot unchangedServers.history).request = some ⟨"2020.01.01-1", [2, 10], false, 0⟩ :=
  ⟨setUp_finished smallAndLarge _ (by decide), runFrom_play .., by decide +kernel,
    by decide +kernel, by decide +kernel⟩

end Neco
