import ActivemqCpp.Transport.Failover.FailoverTransport

/-!
# Runs of the reconnect task

Whether every call of `FailoverTransport::iterate` ends well in every interleaving, and when
exactly (`iterate_correct_iff`). The invariant `Core.Inv` speaks of the few fields that the
argument needs:

* a transport and its URI are there together;
* once `iterate` is past its rebalance block, no rebalance is pending;
* the runner has the task, and its thread runs.

`Safe` names the five points where `iterate` relies on more than that. `rank` bounds the
steps that a call still takes when the pools are left alone.
-/

namespace ActivemqCpp.Transport.Failover

open Base FailoverTransport
open Decaf
open Threads

/-- A call of `iterate` that ended as it should: without an exception, the rebalance flag
consumed, and when it gave up with a failure that was recorded and reported. -/
structure Left.Good (left : Left) : Prop where
  normal : left.thrown = none
  consumed : left.doRebalance = false
  reported : left.gaveUp = true → ∃ e, left.connectionFailure = some e ∧
    (left.listening = true → left.reported = some (asIOException e))

/-- Past the rebalance block, with the mutex. -/
def Phase.rebalanced {U : Type} : Phase U → Bool
  | .backup _ | .prefer _ _ | .head _ | .take _ | .attempt _ _ _ => true
  | .enter | .choose | .check _ | .rebalance _ | .delay => false

namespace FailoverTransport

variable {U : Type}

/-- The runner's thread is in `iterate`. -/
def iterating (s : FailoverTransport U) : Bool :=
  match s.taskRunner.control with
  | .performing (.failover _) => true
  | _ => false

/-! ## The steps that a call still takes -/

/-- The URIs that are free. -/
def free (s : FailoverTransport U) : Nat := s.uris.uriPool.length + s.updated.uriPool.length

/-- Three steps for every URI that is free or may be freed by disconnecting. -/
def rank (s : FailoverTransport U) : Phase U → Nat
  | .enter => 3 * s.free + (if s.connectedTransport.isSome then 3 else 0) + 12
  | .choose => 3 * s.free + (if s.connectedTransport.isSome then 3 else 0) + 11
  | .check _ => 3 * s.free + (if s.connectedTransport.isSome then 3 else 0) + 10
  | .rebalance _ => 3 * s.free + (if s.connectedTransport.isSome then 3 else 0) + 9
  | .backup _ => 3 * s.free + (if s.connectedTransport.isSome then 3 else 0) + 8
  | .prefer _ _ => 3 * s.free + (if s.connectedTransport.isSome then 3 else 0) + 7
  | .head l =>
    if s.connectedTransport.isSome then 2
    else 3 * s.free + (if l.backup.isSome then 6 else 4)
  | .take _ => 3 * s.free + 3
  | .attempt _ _ _ => 3 * s.free + 5
  | .delay => 1

def remaining (s : FailoverTransport U) : Nat :=
  match s.taskRunner.control with
  | .performing (.failover phase) => s.rank phase
  | _ => 0

variable (s : FailoverTransport U) (phase : Phase U)

theorem rank_pos : 0 < s.rank phase := by
  cases phase with
  | head l =>
    simp only [rank]
    split
    · omega
    · split <;> omega
  | _ => simp [rank]

theorem iterating_of_remaining {s : FailoverTransport U} (h : s.remaining = 0) :
    s.iterating = false := by
  unfold iterating
  split
  · rename_i phase hcontrol
    rw [remaining, hcontrol] at h
    exact absurd h (s.rank_pos phase).ne'
  · rfl

theorem remaining_le : s.remaining ≤ 3 * s.free + 15 := by
  unfold remaining
  split
  · next phase _ => cases phase <;> grind [rank]
  · exact Nat.zero_le _

@[simp] theorem remaining_goto : (s.goto phase).remaining = s.rank phase := by
  cases phase <;> rfl

@[simp] theorem remaining_leave (gaveUp : Bool)
    (reported : Option Exn) : (s.leave gaveUp reported).remaining = 0 := rfl

@[simp] theorem remaining_escape (e : Exn) : (s.escape e).remaining = 0 := rfl

theorem remaining_conclude (failure : Option Exn) : (s.conclude failure).remaining ≤ 1 := by
  unfold conclude
  dsimp only
  split
  · split <;> simp
  · simp [rank]

@[simp] theorem free_notify (notice : Notice) : (s.notify notice).free = s.free := by
  unfold notify
  split <;> rfl

@[simp] theorem free_resetReconnectDelay : s.resetReconnectDelay.free = s.free := by
  unfold resetReconnectDelay
  split <;> rfl

@[simp] theorem connectedTransport_notify (notice : Notice) :
    (s.notify notice).connectedTransport = s.connectedTransport := by
  unfold notify
  split <;> rfl

@[simp] theorem connectedTransport_resetReconnectDelay :
    s.resetReconnectDelay.connectedTransport = s.connectedTransport := by
  unfold resetReconnectDelay
  split <;> rfl

theorem free_setPool {s : FailoverTransport U} {list : ConnectList} {pool : URIPool U}
    (h : pool.uriPool.length + 1 = (s.pool list).uriPool.length) :
    (s.setPool list pool).free + 1 = s.free := by
  cases list with
  | uris | updated =>
    simp only [setPool, free, FailoverTransport.pool] at h ⊢
    omega

variable [DecidableEq U]

theorem remaining_endLoop (l : Connecting U) : (s.endLoop l).remaining ≤ 1 := remaining_conclude _ _

theorem connectedTransport_disconnect : s.disconnect.connectedTransport = none := by
  unfold disconnect
  split
  · assumption
  · simp

/-- Disconnecting frees at most the URI of the connection. -/
theorem free_disconnect :
    3 * s.disconnect.free ≤ 3 * s.free + (if s.connectedTransport.isSome then 3 else 0) := by
  unfold disconnect
  split
  · omega
  · rename_i transport htransport
    rw [free_notify, htransport]
    simp only [free, Option.isSome_some, if_true]
    cases s.connectedTransportURI with
    | none => simp
    | some uri =>
      have hle := s.uris.length_addURI_le uri
      simp only [Option.elim_some]
      omega

/-- Every step of `iterate` is one of the last `rank` steps. -/
theorem remaining_iterate (w : Work) : (s.iterate phase w).remaining < s.rank phase := by
  cases phase with
  | enter =>
    simp only [iterate]
    split <;> simp [rank]
  | choose => simp [iterate, rank]
  | check list =>
    simp only [iterate]
    split
    · have hle := s.remaining_conclude (some .io)
      simp only [rank]
      omega
    · simp [rank]
  | rebalance list =>
    simp only [iterate]
    split
    · split
      · simp [rank]
      · split
        · simp [rank]
        · split
          · simp [rank]
          · have hfree := s.free_disconnect
            have hnone := s.connectedTransport_disconnect
            rw [remaining_goto]
            simp only [rank, free_resetReconnectDelay, connectedTransport_resetReconnectDelay]
            rw [show ({ s.disconnect with doRebalance := false } : FailoverTransport U).free =
              s.disconnect.free from rfl, hnone]
            simp only [Option.isSome_none, Bool.false_eq_true, if_false]
            omega
    · simp [rank]
  | backup list =>
    simp only [iterate]
    have hhead : s.rank (.head ⟨list, none, [], none⟩) < s.rank (.backup list) := by
      simp only [rank, Option.isSome_none, Bool.false_eq_true, if_false]
      split <;> omega
    split
    · split
      · exact s.rank_pos _
      · exact hhead
      · rename_i backup backups _
        show s.rank (.prefer list backup) < s.rank (.backup list)
        simp [rank]
    · exact hhead
  | prefer list backup =>
    simp only [iterate, remaining_goto]
    split
    · have hfree := s.free_disconnect
      have hnone := s.connectedTransport_disconnect
      simp only [rank, hnone, Option.isSome_none, Bool.false_eq_true, if_false,
        Option.isSome_some, if_true]
      omega
    · simp only [rank, Option.isSome_some, if_true]
      split <;> omega
  | head l =>
    simp only [iterate]
    split
    · rename_i hcan
      have hnone : s.connectedTransport.isSome = false := by
        simp only [canConnect, Bool.and_eq_true] at hcan
        simpa using hcan.1.2
      split
      · rename_i transport uri hbackup
        simp [rank, hnone, hbackup]
      · rename_i hbackup
        simp [rank, hnone, hbackup]
    · have hle := s.remaining_endLoop l
      simp only [rank]
      split
      · omega
      · split <;> omega
  | take l =>
    simp only [iterate]
    rcases (s.pool l.list).getURI_cases w.pick with ⟨-, hget⟩ | ⟨-, uri, pool, hget, hlength⟩
    · rw [hget]
      have hle := s.remaining_endLoop l
      simp only [rank]
      omega
    · have hfree := free_setPool hlength
      rw [hget]
      dsimp only
      split
      · rw [remaining_goto]
        simp only [rank, Connecting.fail, Option.isSome_none, Bool.false_eq_true, if_false]
        split <;> omega
      · show 3 * (s.setPool l.list pool).free + 5 < _
        simp only [rank]
        omega
  | attempt l transport uri =>
    simp only [iterate]
    split
    · show s.rank (.head (l.fail uri _)) < s.rank (.attempt l transport uri)
      simp only [rank, Connecting.fail, Option.isSome_none, Bool.false_eq_true, if_false]
      split <;> omega
    · rw [remaining_goto]
      simp only [rank, discard, wakeup, connectedTransport_notify, connect, Option.isSome_some,
        if_true]
      omega
    · exact s.rank_pos _
  | delay => exact Nat.one_pos

/-- With the pools left alone, a call of `iterate` comes to its end. -/
theorem iterating_ends (works : List Work) (h : s.remaining ≤ works.length) :
    ∃ k ≤ works.length,
      (machine.run s ((works.take k).map Event.work)).iterating = false := by
  induction works generalizing s with
  | nil => exact ⟨0, Nat.le_refl _, iterating_of_remaining (Nat.le_zero.mp h)⟩
  | cons w works ih =>
    by_cases hin : s.iterating = true
    · obtain ⟨phase, hcontrol⟩ : ∃ phase, s.taskRunner.control = .performing (.failover phase) := by
        unfold iterating at hin
        split at hin
        · exact ⟨_, ‹_›⟩
        · cases hin
      have hstep : s.step (.work w) = s.iterate phase w := by
        simp [step, work, hcontrol]
      have hless := s.remaining_iterate phase w
      rw [remaining, hcontrol] at h
      obtain ⟨k, hk, hend⟩ := ih (s.iterate phase w) (by simp only [List.length_cons] at h; omega)
      refine ⟨k + 1, Nat.succ_le_succ hk, ?_⟩
      show (machine.run (s.step (.work w)) _).iterating = false
      rw [hstep]
      exact hend
    · exact ⟨0, Nat.zero_le _, by simpa using hin⟩

/-- **Attempts are bounded.** From any state, and whatever the transports do, a call of
`iterate` ends after at most three steps for each free URI and fifteen more, with the pools
left alone. -/
theorem iterate_bounded (works : Nat → Work) : ∃ k ≤ 3 * s.free + 15,
    (machine.run s ((List.range k).map fun i => .work (works i))).iterating = false := by
  obtain ⟨k, hk, hend⟩ := s.iterating_ends ((List.range (3 * s.free + 15)).map works)
    (by simpa using s.remaining_le)
  rw [List.length_map, List.length_range] at hk
  refine ⟨k, hk, ?_⟩
  rwa [← List.map_take, List.take_range, min_eq_left hk, List.map_map] at hend

/-! ## The invariant -/

end FailoverTransport

/-- What the argument needs of a state. -/
structure Core (U : Type) where
  connectedTransport : Option Nat
  connectedTransportURI : Option U
  doRebalance : Bool
  taskRunner : CompositeTaskRunner Task (Frame U)
  last : Option Left

structure Core.Inv {U : Type} (c : Core U) : Prop where
  tied : c.connectedTransport.isSome = c.connectedTransportURI.isSome
  settled : ∀ phase, c.taskRunner.control = .performing (.failover phase) →
    phase.rebalanced = true → c.doRebalance = false
  registered : c.taskRunner.Registered Frame.task .failover
  alive : c.taskRunner.Alive
  last : ∀ left ∈ c.last, left.Good

namespace FailoverTransport

variable {U : Type}

def core (s : FailoverTransport U) : Core U :=
  ⟨s.connectedTransport, s.connectedTransportURI, s.doRebalance,
    { s.taskRunner with pending := false }, s.last⟩

def Inv (s : FailoverTransport U) : Prop := s.core.Inv

@[simp] theorem core_notify (s : FailoverTransport U) (notice : Notice) :
    (s.notify notice).core = s.core := by
  unfold notify
  split <;> rfl

@[simp] theorem core_resetReconnectDelay (s : FailoverTransport U) :
    s.resetReconnectDelay.core = s.core := by
  unfold resetReconnectDelay
  split <;> rfl

@[simp] theorem core_doDelay (s : FailoverTransport U) : s.doDelay.core = s.core := by
  unfold doDelay
  split <;> rfl

@[simp] theorem core_setPool (s : FailoverTransport U) (list : ConnectList) (pool : URIPool U) :
    (s.setPool list pool).core = s.core := by
  cases list <;> rfl

@[simp] theorem core_propagate (s : FailoverTransport U) :
    s.propagateFailureToExceptionListener.1.core = s.core := by
  unfold propagateFailureToExceptionListener
  split
  · split
    · rfl
    · exact core_notify _ _
  · rfl

variable {t s : FailoverTransport U}

theorem Inv.congr (h : s.Inv) (hcore : t.core = s.core) : t.Inv := by
  rw [Inv, hcore]
  exact h

theorem control_congr (h : t.core = s.core) :
    t.taskRunner.control = s.taskRunner.control := congrArg (·.taskRunner.control) h

theorem doRebalance_congr (h : t.core = s.core) :
    t.doRebalance = s.doRebalance := congrArg Core.doRebalance h

theorem Inv.hasTask (h : s.Inv) : s.taskRunner.Registered Frame.task .failover := h.registered

theorem Inv.runs (h : s.Inv) : s.taskRunner.Alive := h.alive

variable {p phase' : Phase U}

theorem Inv.goto (h : s.Inv) (hcontrol : s.taskRunner.control = .performing (.failover p))
    (hsettled : phase'.rebalanced = true → s.doRebalance = false) : (s.goto phase').Inv where
  tied := h.tied
  settled := by
    intro phase'' hphase
    cases hphase
    exact hsettled
  registered := CompositeTaskRunner.Registered.goto (r := s.core.taskRunner) hcontrol rfl h.registered
  alive := CompositeTaskRunner.Alive.goto (r := s.core.taskRunner) h.alive
  last := h.last

/-- `iterate` goes on in a state that has the same core. -/
theorem Inv.gotoWith (h : s.Inv) (hcore : t.core = s.core)
    (hcontrol : s.taskRunner.control = .performing (.failover p))
    (hsettled : phase'.rebalanced = true → s.doRebalance = false) : (t.goto phase').Inv :=
  (h.congr hcore).goto ((control_congr hcore).trans hcontrol)
    fun hphase => (doRebalance_congr hcore).trans (hsettled hphase)

theorem Inv.leave {gaveUp : Bool} {reported : Option Exn} (h : s.Inv)
    (hcontrol : s.taskRunner.control = .performing (.failover p))
    (hgood : (s.leaving gaveUp reported).Good) : (s.leave gaveUp reported).Inv where
  tied := h.tied
  settled := by
    intro phase' hphase
    cases hphase
  registered :=
    CompositeTaskRunner.Registered.finish hcontrol h.registered
  alive := CompositeTaskRunner.Alive.finish (r := s.core.taskRunner) h.alive
  last := by
    intro left hleft
    cases hleft
    exact hgood

theorem good_leaving (h : s.doRebalance = false) : (s.leaving false none).Good :=
  ⟨rfl, h, nofun⟩

theorem leaving_notify (s : FailoverTransport U) (notice : Notice) (gaveUp : Bool)
    (reported : Option Exn) :
    (s.notify notice).leaving gaveUp reported = s.leaving gaveUp reported := by
  unfold notify
  split <;> rfl

/-- A failure that is there is recorded and reported; without one the limit must not be
reached. -/
theorem Inv.conclude {failure : Option Exn} (h : s.Inv)
    (hcontrol : s.taskRunner.control = .performing (.failover p)) (hsettled : s.doRebalance = false)
    (hfailure : failure = none → s.atLimit = false) :
    (s.conclude failure).Inv := by
  unfold FailoverTransport.conclude
  dsimp only
  split
  · rename_i hlimit
    cases failure with
    | none =>
      rw [hfailure rfl] at hlimit
      cases hlimit
    | some e =>
      unfold propagateFailureToExceptionListener
      by_cases hlistener : s.transportListener = true
      · rw [if_pos hlistener]
        refine Inv.leave (h.congr (core_notify _ _)) (p := p) ?_ ?_
        · rw [control_congr (core_notify _ _)]
          exact hcontrol
        · rw [leaving_notify]
          exact ⟨rfl, hsettled, fun _ => ⟨e, rfl, fun _ => rfl⟩⟩
      · rw [if_neg hlistener]
        refine Inv.leave (h.congr rfl) hcontrol ?_
        exact ⟨rfl, hsettled, fun _ => ⟨e, rfl, fun htrue => absurd htrue hlistener⟩⟩
  · refine Inv.goto ?_ hcontrol nofun
    refine ⟨h.tied, h.settled, h.registered, h.alive, ?_⟩
    intro left hleft
    cases hleft
    exact good_leaving hsettled

/-- A step that leaves the runner outside the phases past the rebalance block. -/
theorem Inv.of_parts (h : s.Inv) (htransport : t.connectedTransport = s.connectedTransport)
    (huri : t.connectedTransportURI = s.connectedTransportURI) (hlast : t.last = s.last)
    (hregistered : t.taskRunner.Registered Frame.task .failover) (halive : t.taskRunner.Alive)
    (hphase : ∀ phase, t.taskRunner.control = .performing (.failover phase) →
      phase.rebalanced = false) : t.Inv where
  tied := by
    show t.connectedTransport.isSome = t.connectedTransportURI.isSome
    rw [htransport, huri]
    exact h.tied
  settled := by
    intro phase hcontrol hrebalanced
    rw [hphase phase hcontrol] at hrebalanced
    cases hrebalanced
  registered := hregistered
  alive := halive
  last := by
    show ∀ left ∈ t.last, left.Good
    rw [hlast]
    exact h.last

theorem rebalanced_of_unlocked (hlocked : s.locked = false) {phase : Phase U}
    (hcontrol : s.taskRunner.control = .performing (.failover phase)) :
    phase.rebalanced = false := by
  rw [locked, hcontrol] at hlocked
  cases phase <;> first | rfl | cases hlocked

/-- A step under the mutex, of a thread that is not the runner's. -/
theorem Inv.unlocked (h : s.Inv) (hlocked : s.locked = false) {x : Option Nat} {u : Option U}
    {b : Bool} (htied : x.isSome = u.isSome)
    (hcore : t.core = { s.core with connectedTransport := x, connectedTransportURI := u,
                                    doRebalance := b }) : t.Inv := by
  rw [Inv, hcore]
  refine ⟨htied, ?_, h.registered, h.alive, h.last⟩
  intro phase hcontrol hrebalanced
  rw [rebalanced_of_unlocked hlocked hcontrol] at hrebalanced
  cases hrebalanced

theorem Inv.reconnect (h : s.Inv) (hlocked : s.locked = false)
    (rebalance : Bool) : (s.reconnect rebalance).Inv := by
  unfold FailoverTransport.reconnect
  split
  · exact h.unlocked hlocked h.tied rfl
  · exact h

theorem core_enableBackups (s : FailoverTransport U) : s.enableBackups.core = s.core := by
  unfold enableBackups
  split <;> rfl

theorem control_startRunner (s : FailoverTransport U) :
    s.startRunner.taskRunner.control = .looping ∨
      s.startRunner.taskRunner.control = s.taskRunner.control := by
  unfold startRunner CompositeTaskRunner.start
  split
  · exact .inl rfl
  · exact .inr rfl

theorem Inv.startRunner (h : s.Inv) (hlocked : s.locked = false) : s.startRunner.Inv := by
  refine h.of_parts rfl rfl rfl h.hasTask.start h.runs.start ?_
  intro phase hphase
  rcases s.control_startRunner with hcontrol | hcontrol
  · rw [hcontrol] at hphase
    cases hphase
  · rw [hcontrol] at hphase
    exact rebalanced_of_unlocked hlocked hphase

theorem Inv.start (h : s.Inv) (hlocked : s.locked = false) : s.start.Inv := by
  have hcore := core_enableBackups { s with started := true }
  have hunlocked : ({ s with started := true }).enableBackups.locked = false := by
    rw [locked, control_congr hcore]
    exact hlocked
  have hstarted := (h.congr hcore).startRunner hunlocked
  unfold FailoverTransport.start
  split
  · exact h
  · dsimp only
    split
    · exact hstarted
    · refine hstarted.reconnect ?_ false
      rcases control_startRunner ({ s with started := true }).enableBackups with hnew | hsame
      · rw [locked, hnew]
      · rw [locked, hsame]
        exact hunlocked

variable [DecidableEq U]

theorem Inv.handleTransportFailure (h : s.Inv) (hlocked : s.locked = false)
    (error : Exn) : (s.handleTransportFailure error).Inv := by
  unfold FailoverTransport.handleTransportFailure
  split
  · exact h
  · split
    · exact h
    · rename_i transport htransport
      split
      · rename_i huri
        have htied := h.tied
        simp only [core, htransport, huri] at htied
        cases htied
      · split
        · exact h.unlocked hlocked rfl (core_notify _ _)
        · split
          · exact h.unlocked hlocked rfl rfl
          · exact h.unlocked hlocked rfl (core_propagate _)

theorem Inv.disconnect (h : s.Inv) : s.disconnect.Inv := by
  unfold FailoverTransport.disconnect
  split
  · exact h
  · refine Inv.congr ?_ (core_notify _ _)
    exact ⟨rfl, h.settled, h.registered, h.alive, h.last⟩

/-- Disconnecting touches neither the flag nor the runner. -/
theorem core_disconnect (s : FailoverTransport U) :
    s.disconnect.doRebalance = s.doRebalance ∧
      s.disconnect.taskRunner.control = s.taskRunner.control := by
  unfold disconnect
  split
  · exact ⟨rfl, rfl⟩
  · rw [doRebalance_congr (core_notify _ _), control_congr (core_notify _ _)]
    exact ⟨rfl, rfl⟩

theorem Inv.connect (h : s.Inv) (list : ConnectList) (transport : Nat)
    (uri : U) : (s.connect list transport uri).Inv :=
  ⟨rfl, h.settled, h.registered, h.alive, h.last⟩

theorem core_resume (s : FailoverTransport U) (l : Connecting U) (transport : Nat) (uri : U) :
    (s.resume l transport uri).core = (s.connect l.list transport uri).core :=
  (core_setPool _ _ _).trans (core_notify _ _)

end FailoverTransport

/-! ## Where `iterate` relies on more -/

namespace FailoverTransport

variable {U : Type}

/-- The state in which `iterate` may go on:

* it is entered with a rebalance pending only on a transport that has not failed;
* with a rebalance pending there is a broker to connect to, or the pool of backups is on;
* with a rebalance pending there is a connection;
* an attempt that would be the last one allowed finds a broker to try. -/
def SafeAt (s : FailoverTransport U) : Phase U → Prop
  | .enter => s.doRebalance = true → s.isClosedOrFailed = false
  | .check list => s.doRebalance = true →
      (s.pool list).isEmpty = false ∨ s.backups.enabled = true
  | .rebalance _ => s.doRebalance = true →
      s.connectedTransport.isSome = true ∨ s.connectedToPriority = true
  | .head l => l.failure = none → s.atLimit = true → s.canConnect l = true
  | .take l => l.failure = none → s.atLimit = true → (s.pool l.list).isEmpty = false
  | .choose | .backup _ | .prefer _ _ | .attempt _ _ _ | .delay => True

def Safe (s : FailoverTransport U) : Event U → Prop
  | .work _ =>
    match s.taskRunner.control with
    | .performing (.failover phase) => s.SafeAt phase
    | _ => True
  | _ => True

theorem atLimit_setPool (s : FailoverTransport U) (list : ConnectList) (pool : URIPool U) :
    (s.setPool list pool).atLimit = s.atLimit := by
  cases list <;> rfl

variable [DecidableEq U]

variable {s : FailoverTransport U} {l : Connecting U} {phase : Phase U}

theorem Inv.endLoop {p : Phase U} (h : s.Inv)
    (hcontrol : s.taskRunner.control = .performing (.failover p)) (hsettled : s.doRebalance = false)
    (hfailure : l.failure = none → s.atLimit = false) : (s.endLoop l).Inv := by
  refine Inv.conclude (h.congr (core_setPool _ _ _)) (p := p) ?_ ?_ ?_
  · rw [control_congr (core_setPool _ _ _)]
    exact hcontrol
  · rw [doRebalance_congr (core_setPool _ _ _)]
    exact hsettled
  · rw [atLimit_setPool]
    exact hfailure

theorem Inv.iterate (h : s.Inv)
    (hcontrol : s.taskRunner.control = .performing (.failover phase)) (hsafe : s.SafeAt phase)
    (w : Work) : (s.iterate phase w).Inv := by
  have hsettled (hrebalanced : phase.rebalanced = true) : s.doRebalance = false :=
    h.settled phase hcontrol hrebalanced
  cases phase with
  | enter =>
    simp only [FailoverTransport.iterate]
    split
    · rename_i hreturn
      refine h.leave hcontrol (good_leaving ?_)
      by_contra hflag
      have hopen := hsafe (by simpa using hflag)
      simp only [isConnectionStateValid, hopen, Bool.or_false, Bool.and_eq_true] at hreturn
      exact hflag (by simpa using hreturn.1.2)
    · exact h.goto hcontrol nofun
  | choose => exact h.goto hcontrol nofun
  | check list =>
    simp only [FailoverTransport.iterate]
    split
    · rename_i hempty
      refine h.conclude hcontrol ?_ nofun
      by_contra hflag
      simp only [Bool.and_eq_true, Bool.not_eq_true'] at hempty
      rcases hsafe (by simpa using hflag) with hsome | henabled
      · rw [hempty.1] at hsome
        cases hsome
      · rw [hempty.2] at henabled
        cases henabled
    · exact h.goto hcontrol nofun
  | rebalance list =>
    simp only [FailoverTransport.iterate]
    split
    · rename_i hflag
      have hclear : ({ s with doRebalance := false }).Inv :=
        ⟨h.tied, fun _ _ _ => rfl, h.registered, h.alive, h.last⟩
      split
      · exact hclear.leave hcontrol (good_leaving rfl)
      · rename_i hpriority
        split
        · rename_i huri
          have htransport := (hsafe hflag).resolve_right hpriority
          have htied := h.tied
          simp only [core, huri] at htied
          rw [htied] at htransport
          cases htransport
        · split
          · exact hclear.leave hcontrol (good_leaving rfl)
          · have hdisconnected := h.disconnect
            have hnext : ({ s.disconnect with doRebalance := false }).Inv :=
              ⟨hdisconnected.tied, fun _ _ _ => rfl, hdisconnected.registered,
                hdisconnected.alive, hdisconnected.last⟩
            exact hnext.gotoWith (core_resetReconnectDelay _)
              (s.core_disconnect.2.trans hcontrol) (fun _ => rfl)
    · rename_i hflag
      exact h.gotoWith s.core_resetReconnectDelay hcontrol (fun _ => by simpa using hflag)
  | backup list =>
    have hflag := hsettled rfl
    simp only [FailoverTransport.iterate]
    split
    · rename_i henabled
      split
      · rename_i e hget
        simp only [BackupTransportPool.getBackup, henabled] at hget
        cases hget
      · exact h.gotoWith rfl hcontrol (fun _ => hflag)
      · exact h.gotoWith rfl hcontrol (fun _ => hflag)
    · exact h.goto hcontrol (fun _ => hflag)
  | prefer list backup =>
    have hflag := hsettled rfl
    simp only [FailoverTransport.iterate]
    split
    · refine h.disconnect.goto (p := .prefer list backup) ?_ (fun _ => ?_)
      · exact s.core_disconnect.2.trans hcontrol
      · exact s.core_disconnect.1.trans hflag
    · exact h.goto hcontrol (fun _ => hflag)
  | head l =>
    have hflag := hsettled rfl
    simp only [FailoverTransport.iterate]
    split
    · split <;> exact h.goto hcontrol (fun _ => hflag)
    · rename_i hcan
      refine h.endLoop hcontrol hflag fun hnone => ?_
      by_contra hlimit
      exact hcan (hsafe hnone (by simpa using hlimit))
  | take l =>
    have hflag := hsettled rfl
    simp only [FailoverTransport.iterate]
    rcases (s.pool l.list).getURI_cases w.pick with ⟨hempty, hget⟩ | ⟨-, uri, pool, hget, -⟩
    · rw [hget]
      refine h.endLoop hcontrol hflag fun hnone => ?_
      by_contra hlimit
      rw [hsafe hnone (by simpa using hlimit)] at hempty
      cases hempty
    · rw [hget]
      have hcore := core_setPool s l.list pool
      dsimp only
      split <;> exact h.gotoWith hcore hcontrol (fun _ => hflag)
  | attempt l transport uri =>
    have hflag := hsettled rfl
    have hconnect := h.connect l.list transport uri
    have hcore := core_notify (s.connect l.list transport uri) .resumed
    simp only [FailoverTransport.iterate]
    split
    · exact h.gotoWith rfl hcontrol (fun _ => hflag)
    · exact hconnect.gotoWith hcore hcontrol (fun _ => hflag)
    · have hresume := s.core_resume l transport uri
      refine Inv.leave (hconnect.congr hresume) (p := .attempt l transport uri) ?_ (good_leaving ?_)
      · exact (control_congr hresume).trans hcontrol
      · exact (doRebalance_congr hresume).trans hflag
  | delay =>
    have hdelay : (if s.closed then s else s.doDelay).Inv := by
      split
      · exact h
      · exact h.congr s.core_doDelay
    refine hdelay.of_parts rfl rfl rfl ?_ ?_ ?_
    · exact CompositeTaskRunner.Registered.finish hcontrol h.hasTask
    · exact CompositeTaskRunner.Alive.finish h.runs
    · intro phase hphase
      cases hphase

variable {list : ConnectList} {failures : List U}

/-- The other tasks of the runner. -/
theorem Inv.endBuild {c : ConnectList} {f : List U} (h : s.Inv)
    (hcontrol : s.taskRunner.control = .performing (.building c f)) :
    (s.endBuild list failures).Inv := by
  have hfinish : (s.taskRunner.finish .backups).Registered Frame.task .failover :=
    CompositeTaskRunner.Registered.finish hcontrol h.hasTask
  cases list <;>
  · refine h.of_parts rfl rfl rfl hfinish h.runs.finish ?_
    intro phase hphase
    cases hphase

variable (hcontrol : s.taskRunner.control = .performing (.building list failures))
include hcontrol

omit [DecidableEq U] in
theorem Inv.gotoBuilding {t : FailoverTransport U} {failures' : List U} (h : s.Inv)
    (hcore : t.core = s.core) :
    ({ t with taskRunner := t.taskRunner.goto (.building list failures') } :
      FailoverTransport U).Inv := by
  have ht := h.congr hcore
  refine ht.of_parts rfl rfl rfl ?_ ht.runs.goto ?_
  · exact ht.hasTask.goto ((control_congr hcore).trans hcontrol) rfl
  · intro phase hphase
    cases hphase

theorem Inv.build (h : s.Inv) (w : Work) : (s.build list failures w).Inv := by
  unfold FailoverTransport.build
  split
  · split
    · exact h.endBuild hcontrol
    · rename_i connectTo pool _
      have hcore := core_setPool s list pool
      have hbuilding := (control_congr hcore).trans hcontrol
      dsimp only
      split
      · split
        · have hadded backups :
              ({ s.setPool list pool with
                nextTransport := s.nextTransport + 1, backups } : FailoverTransport U).Inv :=
            h.congr hcore
          refine Inv.endBuild ((hadded _).reconnect ?_ false) (c := list) (f := failures) ?_
          · rw [locked]
            rw [hbuilding]
          · unfold FailoverTransport.reconnect
            split <;> exact hbuilding
        · exact h.gotoBuilding hcontrol hcore
      · exact h.gotoBuilding hcontrol hcore
  · exact h.endBuild hcontrol

omit hcontrol

theorem Inv.work (h : s.Inv) (w : Work) (hsafe : s.Safe (.work w)) : (s.work w).Inv := by
  unfold FailoverTransport.work
  split
  · rename_i hcontrol
    refine h.of_parts rfl rfl rfl (h.hasTask.goto hcontrol rfl) h.runs.goto ?_
    intro phase hphase
    cases hphase
  · rename_i list failures hcontrol
    exact h.build hcontrol w
  · rename_i phase hcontrol
    rw [Safe, hcontrol] at hsafe
    exact h.iterate hcontrol hsafe w
  · rename_i hcontrol
    refine h.of_parts rfl rfl rfl (CompositeTaskRunner.Registered.finish hcontrol h.hasTask)
      h.runs.finish ?_
    intro phase hphase
    cases hphase
  · rename_i _ _ hfailover _
    refine h.of_parts rfl rfl rfl (h.hasTask.advance Task.task_call) h.runs.advance ?_
    intro phase hphase
    rcases CompositeTaskRunner.call_of_advance hphase with hcontrol | ⟨task, htask⟩
    · exact (hfailover phase hcontrol).elim
    · cases task with
      | failover =>
        cases htask
        rfl
      | backups => cases htask
      | close => cases htask

theorem Inv.step (h : s.Inv) (event : Event U) (hsafe : s.Safe event) : (s.step event).Inv := by
  -- a step that waits for the mutex, or does nothing to the core
  have hmutex {t : FailoverTransport U} (ht : s.locked = false → t.Inv) :
      (if s.locked then s else t).Inv := by
    split
    · exact h
    · rename_i hlocked
      exact ht (Bool.eq_false_of_not_eq_true hlocked)
  cases event with
  | start => exact hmutex h.start
  | reconnect rebalance => exact hmutex fun hlocked => h.reconnect hlocked rebalance
  | failure error => exact hmutex fun hlocked => h.handleTransportFailure hlocked error
  | setTransportListener | addURI => exact h
  | removeURI | shutdownInfo | clearUpdated | addUpdated =>
    simp only [FailoverTransport.step]
    split <;> exact h
  | backupFailure failed =>
    simp only [FailoverTransport.step]
    split
    · exact h
    · unfold backupFailure
      split <;> exact h
  | work w => exact h.work w hsafe

theorem inv_new (config : Config U) : (new config).Inv where
  tied := rfl
  settled := by
    intro phase hphase
    cases hphase
  registered := .inl (show Task.failover ∈ [Task.backups, .failover, .close] from by decide)
  alive := ⟨fun hcontrol => (by cases hcontrol), rfl⟩
  last := by
    intro left hleft
    cases hleft

/-! ## The result -/

/-- The runner has the task and its thread runs, the last
call of `iterate` ended well, and one that is under way will end. -/
structure Correct (s : FailoverTransport U) : Prop where
  registered : s.taskRunner.Registered Frame.task .failover
  alive : s.taskRunner.Alive
  last : ∀ left ∈ s.last, left.Good
  ends : ∀ works : List Work, s.remaining ≤ works.length → ∃ k ≤ works.length,
    (machine.run s ((works.take k).map Event.work)).iterating = false

theorem Inv.correct (h : s.Inv) : s.Correct :=
  ⟨h.hasTask, h.runs, h.last, s.iterating_ends⟩

omit [DecidableEq U] in
/-- Giving up without a failure is not good, with a listener or without one. -/
theorem not_good_conclude_none (hlimit : s.atLimit = true) :
    ∃ left, (s.conclude none).last = some left ∧ ¬ left.Good := by
  rw [conclude, if_pos hlimit]
  unfold propagateFailureToExceptionListener
  by_cases hlistener : s.transportListener = true
  · rw [if_pos hlistener]
    exact ⟨_, rfl, fun hgood => by cases hgood.normal⟩
  · rw [if_neg hlistener]
    refine ⟨_, rfl, fun hgood => ?_⟩
    obtain ⟨e, he, -⟩ := hgood.reported rfl
    cases he

omit [DecidableEq U] in
/-- Nor is leaving a rebalance pending, whether the limit is reached or not. -/
theorem not_good_conclude_pending (hflag : s.doRebalance = true)
    (e : Exn) : ∃ left, (s.conclude (some e)).last = some left ∧ ¬ left.Good := by
  have hpending : ∀ left : Left, left.doRebalance = true → ¬ left.Good := by
    intro left hleft hgood
    rw [hgood.consumed] at hleft
    cases hleft
  unfold conclude
  dsimp only
  split
  · unfold propagateFailureToExceptionListener
    by_cases hlistener : s.transportListener = true
    · rw [if_pos hlistener]
      refine ⟨_, rfl, hpending _ ?_⟩
      rw [leaving_notify]
      exact hflag
    · rw [if_neg hlistener]
      exact ⟨_, rfl, hpending _ hflag⟩
  · exact ⟨_, rfl, hpending _ hflag⟩

theorem not_good_endLoop (hnone : l.failure = none)
    (hlimit : s.atLimit = true) : ∃ left, (s.endLoop l).last = some left ∧ ¬ left.Good := by
  rw [endLoop, hnone]
  exact not_good_conclude_none ((atLimit_setPool _ _ _).trans hlimit)

/-- Where it is not safe, the call of `iterate` ends badly. -/
theorem not_good_iterate (h : s.Inv) (hexposed : ¬ s.SafeAt phase) (w : Work) :
    ∃ left, (s.iterate phase w).last = some left ∧ ¬ left.Good := by
  cases phase with
  | enter =>
    simp only [SafeAt, Classical.not_imp, Bool.not_eq_false] at hexposed
    simp only [iterate]
    rw [hexposed.2, Bool.or_true]
    refine ⟨_, rfl, fun hgood => ?_⟩
    have hconsumed : s.doRebalance = false := hgood.consumed
    rw [hexposed.1] at hconsumed
    cases hconsumed
  | check list =>
    simp only [SafeAt, Classical.not_imp, not_or, Bool.not_eq_false, Bool.not_eq_true] at hexposed
    obtain ⟨hflag, hempty, hdisabled⟩ := hexposed
    simp only [iterate]
    rw [hempty, hdisabled, Bool.not_false]
    exact not_good_conclude_pending hflag .io
  | rebalance list =>
    simp only [SafeAt, Classical.not_imp, not_or, Bool.not_eq_true] at hexposed
    obtain ⟨hflag, htransport, hpriority⟩ := hexposed
    have huri : s.connectedTransportURI = none := by
      have htied : s.connectedTransport.isSome = s.connectedTransportURI.isSome := h.tied
      rw [htransport] at htied
      simpa using htied.symm
    simp only [iterate]
    rw [hflag, hpriority, huri]
    exact ⟨_, rfl, fun hgood => by cases hgood.normal⟩
  | head l =>
    simp only [SafeAt, Classical.not_imp] at hexposed
    obtain ⟨hnone, hlimit, hcan⟩ := hexposed
    simp only [iterate]
    rw [if_neg hcan]
    exact not_good_endLoop hnone hlimit
  | take l =>
    simp only [SafeAt, Classical.not_imp, Bool.not_eq_false] at hexposed
    obtain ⟨hnone, hlimit, hempty⟩ := hexposed
    simp only [iterate]
    rcases (s.pool l.list).getURI_cases w.pick with ⟨-, hget⟩ | ⟨hsome, -⟩
    · rw [hget]
      exact not_good_endLoop hnone hlimit
    · rw [hempty] at hsome
      cases hsome
  | choose | backup | prefer | attempt | delay => exact absurd trivial hexposed

theorem not_correct_step (h : s.Inv) (event : Event U)
    (hexposed : ¬ s.Safe event) : ¬ (s.step event).Correct := by
  cases event with
  | work w =>
    rw [Safe] at hexposed
    split at hexposed
    · rename_i phase hcontrol
      obtain ⟨left, hlast, hbad⟩ := not_good_iterate h hexposed w
      have hstep : s.step (.work w) = s.iterate phase w := by
        simp [step, work, hcontrol]
      intro hcorrect
      rw [hstep] at hcorrect
      exact hbad (hcorrect.last left hlast)
    · exact absurd trivial hexposed
  | _ => exact absurd trivial hexposed

end FailoverTransport

/-- In every interleaving, all calls of `iterate` end well, with the task still in the hands
of the runner, exactly when each of its steps is taken in a state where it may go on. -/
theorem iterate_correct_iff {U : Type} [DecidableEq U] (config : Config U)
    (events : List (Event U)) :
    machine.Always Correct (.new config) events ↔
      machine.Meets Safe (.new config) events :=
  Machine.always_iff_meets (fun _ event h hsafe => h.step event hsafe) (fun _ h => h.correct)
    (fun _ event h hexposed => not_correct_step h event hexposed)
    (inv_new config)

/-- Steps of the runner's thread in which everything goes well. -/
def smooth {U : Type} (n : Nat) : List (Event U) := List.replicate n (.work ⟨0, .done⟩)

/-- Three runs. The connection fails between the request for a rebalance and the next
iteration: `iterate` throws, the runner loses the task and its thread ends. The pool of
backups is on, there is no broker to try and one attempt is allowed: `iterate` gives up
without a failure and throws. And a rebalance is asked for while the only broker is the one
connected to: the flag stays. -/
theorem iterate_throws :
    (let s := machine.run (.new (Config.default : Config Nat))
      ([.addURI 1, .addURI 2, .setTransportListener true, .start] ++ smooth 11 ++
        [.reconnect true, .failure .io] ++ smooth 16)
     s.last.bind Left.thrown = some .nullPointer ∧ Task.failover ∉ s.taskRunner.tasks ∧
      s.taskRunner.control = .terminated) ∧
    (let s := machine.run
      (.new { (Config.default : Config Nat) with backup := true, maxReconnectAttempts := 1 })
      ([.setTransportListener true, .start] ++ smooth 12)
     s.last.bind Left.thrown = some .nullPointer ∧ s.connectionFailure = none ∧
      Task.failover ∉ s.taskRunner.tasks ∧ s.taskRunner.control = .terminated) ∧
    (let s := machine.run (.new (Config.default : Config Nat))
      ([.addURI 1, .setTransportListener true, .start] ++ smooth 11 ++ [.reconnect true] ++
        smooth 7)
     s.last.map Left.doRebalance = some true) := by
  decide

end ActivemqCpp.Transport.Failover
