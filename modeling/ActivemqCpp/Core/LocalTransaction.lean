import ActivemqCpp.Base.Machine
import ActivemqCpp.Core.TransactionContext

/-!
# Local transactions: every synchronization hears how its transaction ended

The context as a machine driven by the calls of a transacted session. Once the
transaction id is cleared, each synchronization registered in the transaction
is to have received exactly one of `afterCommit` and `afterRollback`.

* `commit` and `rollback` clear the id *before* they send their request, and
  `syncRequest` throws nothing but an `ActiveMQException`, which is not a
  `cms::CMSException`: the clause of `commit` that would call `afterRollback`
  never runs, and `rollback` has no clause at all.
* So the law holds throughout a run *iff* every call that gets as far as its
  request has it answered or finds no synchronization registered
  (`settled_iff_requests_answered`).
-/

namespace ActivemqCpp.Core.Tx

open Base List Context

/-- The calls of a transacted session. -/
inductive LocalCall where
  | begin (faults : Faults)
  | commit (faults : Faults)
  | rollback (faults : Faults)
  | addSynchronization (sync : Synchronization)
  | removeSynchronization (sync : Synchronization)

/-- The context under the calls of a transacted session. -/
def localMachine : Machine Context LocalCall (Except Exn Unit) where
  step s
    | .begin f => s.begin f
    | .commit f => s.commit f
    | .rollback f => s.rollback f 0
    | .addSynchronization sync => (s.addSynchronization sync, .ok ())
    | .removeSynchronization sync => (s.removeSynchronization sync, .ok ())

/-! ## The law, read off the log -/

/-- A transaction was begun on the broker. -/
def Event.isBegin : Event → Bool
  | .sent ⟨_, .begin⟩ (some _) => true
  | _ => false

/-- The events since the last transaction was begun, newest first. -/
def episode (log : List Event) : List Event := log.takeWhile fun e => !e.isBegin

/-- The synchronizations registered inside the transaction of an episode and not
removed from it again. -/
def registeredIn : List Event → List Synchronization
  | [] => []
  | .registered (some _) sync :: es =>
    if sync ∈ registeredIn es then registeredIn es else registeredIn es ++ [sync]
  | .removed (some _) sync :: es => (registeredIn es).filter (· ≠ sync)
  | _ :: es => registeredIn es

/-- How often `sync` heard of a completion. -/
def callbacks (sync : Synchronization) (es : List Event) : Nat :=
  es.count (.after .commit sync) + es.count (.after .rollback sync)

/-- Once the transaction is left, every synchronization registered in it has
heard exactly one completion, and a commit only if the commit request was
answered. -/
def Settled (s : Context) : Prop :=
  s.transactionId = none → ∀ sync ∈ registeredIn (episode s.log),
    callbacks sync (episode s.log) = 1 ∧
      (Event.after .commit sync ∈ episode s.log →
        ∃ id response, Event.sent ⟨id, .commitOnePhase⟩ (some response) ∈ episode s.log)

/-- The broker answers the request of the call. -/
def LocalCall.Answered : LocalCall → Prop
  | .commit f | .rollback f => ∃ response, f.request = .answered response
  | _ => False

/-- `rollback` gets as far as its request: a transaction is open, the connection is not
closed and the callbacks throw nothing but a `TransactionRolledBackException`. -/
def ReachesRollback (s : Context) (f : Faults) (pass : Nat) : Prop :=
  s.isInXATransaction = false ∧ s.transactionId ≠ none ∧ f.closed = false ∧
    (s.beforeEnd (f.beforeEnd pass) = .ok () ∨
      s.beforeEnd (f.beforeEnd pass) = .error (.cms .transactionRolledBack))

/-- The call gets as far as its request. When a callback throws a CMS exception
`commit` turns into `rollback`. -/
def LocalCall.ReachesRequest (s : Context) : LocalCall → Prop
  | .commit f => s.isInXATransaction = false ∧ s.transactionId ≠ none ∧ f.closed = false ∧
      (s.beforeEnd (f.beforeEnd 0) = .ok () ∨
        (∃ kind, s.beforeEnd (f.beforeEnd 0) = .error (.cms kind)) ∧ ReachesRollback s f 1)
  | .rollback f => ReachesRollback s f 0
  | _ => False

/-- A call that gets as far as its request has it answered, or there is no
synchronization to notify. -/
def RequestAnswered (s : Context) (c : LocalCall) : Prop :=
  c.ReachesRequest s → c.Answered ∨ s.synchronizations = []

/-! ## Episodes under new events -/

variable (log : List Event) {sync : Synchronization} {es : List Event}

@[simp] theorem episode_begin (id : TransactionId) (r : Response) :
    episode (.sent ⟨id, .begin⟩ (some r) :: log) = [] := rfl

theorem episode_cons {e : Event} (he : e.isBegin = false) :
    episode (e :: log) = e :: episode log := by
  simp [episode, he]

theorem episode_append (hes : ∀ e ∈ es, e.isBegin = false) :
    episode (es ++ log) = es ++ episode log := by
  exact takeWhile_append_of_pos fun e he => by simp [hes e he]

theorem registeredIn_append_after (o : Completion) (syncs : List Synchronization)
    (es : List Event) : registeredIn (syncs.map (Event.after o) ++ es) = registeredIn es := by
  induction syncs with
  | nil => rfl
  | cons sync syncs ih => exact ih

theorem callbacks_append (sync : Synchronization) (es es' : List Event) :
    callbacks sync (es ++ es') = callbacks sync es + callbacks sync es' := by
  simp only [callbacks, count_append]
  omega

theorem callbacks_map_after (o : Completion)
    {syncs : List Synchronization} (hnodup : syncs.Nodup) (hmem : sync ∈ syncs) :
    callbacks sync (syncs.map (Event.after o)) = 1 := by
  have hself : syncs.count sync = 1 := count_eq_one_of_mem hnodup hmem
  cases o with
  | commit | rollback => simp [callbacks, count_map_after, hself]

theorem callbacks_eq_zero (h : ∀ o, Event.after o sync ∉ es) : callbacks sync es = 0 := by
  simp [callbacks, count_eq_zero, h]

/-! ## What the calls do -/

/-- The request a completion is sent with. -/
def Completion.request : Completion → TransactionState
  | .commit => .commitOnePhase
  | .rollback => .rollback

/-- What becomes of the context `s` when the request that completes its
transaction `id` gets the given reply. -/
def Context.ended (s : Context) (id : TransactionId) (completion : Completion) : Reply → Context
  | .closed _ => { s with transactionId := none }
  | .raised _ => { s with
      transactionId := none
      log := .sent ⟨id, completion.request⟩ none :: s.log }
  | .answered r => notifyAfter completion { s with
      transactionId := none
      log := .sent ⟨id, completion.request⟩ (some r) :: s.log }

/-- A call that does not get as far as its request leaves the context alone. -/
def EndsOrKeeps (reaches : Prop) (f : Faults) (s s' : Context) : Prop :=
  (¬ reaches ∧ s' = s) ∨ (reaches ∧ ∃ id completion, s.transactionId = some id ∧
    s' = s.ended id completion f.request)

variable {s : Context} (f : Faults) {id : TransactionId}

theorem rollbackRequest_eq (hid : s.transactionId = some id) :
    (s.rollbackRequest f).1 = if f.closed then s else s.ended id .rollback f.request := by
  simp only [rollbackRequest, hid]
  cases f.closed <;> cases f.request <;> rfl

theorem commitRequest_eq (hid : s.transactionId = some id) :
    (s.commitRequest f).1 = if f.closed then s else s.ended id .commit f.request := by
  simp only [commitRequest, hid]
  -- a failed request raises an ActiveMQException: the CMS clause is dead code
  cases f.closed <;> cases f.request <;> rfl

variable {f} in
/-- Past the callbacks a call ends the transaction unless the connection is closed. -/
theorem endsOrKeeps_request {reaches : Prop} {s' : Context} {completion : Completion}
    (hid : s.transactionId = some id)
    (hs' : s' = if f.closed then s else s.ended id completion f.request)
    (hreaches : reaches ↔ f.closed = false) : EndsOrKeeps reaches f s s' := by
  cases hclosed : f.closed with
  | true => exact Or.inl ⟨by simp [hreaches, hclosed], by rw [hs', hclosed]; rfl⟩
  | false => exact Or.inr ⟨hreaches.mpr hclosed, id, completion, hid, by rw [hs', hclosed]; rfl⟩

theorem rollback_cases (pass : Nat) (s : Context) :
    EndsOrKeeps (ReachesRollback s f pass) f s (s.rollback f pass).1 := by
  unfold rollback
  split
  · next hxa => exact Or.inl ⟨fun h => by simp [h.1] at hxa, rfl⟩
  · next hxa =>
    have hlocal : s.isInXATransaction = false := by simpa using hxa
    cases hid : s.transactionId with
    | none =>
      refine Or.inl ⟨fun h => h.2.1 hid, ?_⟩
      simp only [rollbackRequest, hid]
      split
      · split <;> rfl
      · rfl
    | some id =>
      split
      · next e hbefore =>
        split
        · next he =>
          exact endsOrKeeps_request hid (rollbackRequest_eq f hid)
            ⟨fun h => h.2.2.1, fun h => ⟨hlocal, by simp [hid], h, Or.inr (he ▸ hbefore)⟩⟩
        · next he =>
          refine Or.inl ⟨fun h => ?_, rfl⟩
          rcases h.2.2.2 with hok | herr
          · rw [hok] at hbefore
            cases hbefore
          · rw [herr] at hbefore
            cases hbefore
            exact he rfl
      · next hbefore =>
        exact endsOrKeeps_request hid (rollbackRequest_eq f hid)
          ⟨fun h => h.2.2.1, fun h => ⟨hlocal, by simp [hid], h, Or.inl hbefore⟩⟩

theorem commit_cases (s : Context) :
    EndsOrKeeps ((LocalCall.commit f).ReachesRequest s) f s (s.commit f).1 := by
  unfold commit
  split
  · next hxa => exact Or.inl ⟨fun h => by simp [h.1] at hxa, rfl⟩
  · next hxa =>
    have hlocal : s.isInXATransaction = false := by simpa using hxa
    split
    · next e hbefore =>
      split
      · next hcms =>
        -- the fallback: whatever `rollback` did is what `commit` did
        obtain ⟨kind, rfl⟩ : ∃ kind, e = .cms kind := by
          cases e with
          | cms kind => exact ⟨kind, rfl⟩
          | _ => cases hcms
        rcases rollback_cases f 1 s with ⟨hnot, hkeep⟩ | ⟨hreach, hended⟩
        · refine Or.inl ⟨fun h => ?_, hkeep⟩
          rcases h.2.2.2 with hok | ⟨-, hroll⟩
          · rw [hok] at hbefore
            cases hbefore
          · exact hnot hroll
        · exact Or.inr ⟨⟨hlocal, hreach.2.1, hreach.2.2.1, Or.inr ⟨⟨kind, hbefore⟩, hreach⟩⟩,
            hended⟩
      · next hcms =>
        refine Or.inl ⟨fun h => ?_, rfl⟩
        rcases h.2.2.2 with hok | ⟨⟨kind, hkind⟩, -⟩
        · rw [hok] at hbefore
          cases hbefore
        · rw [hkind] at hbefore
          cases hbefore
          exact hcms rfl
    · next hbefore =>
      cases hid : s.transactionId with
      | none =>
        refine Or.inl ⟨fun h => h.2.1 hid, ?_⟩
        simp [commitRequest, hid]
      | some id =>
        exact endsOrKeeps_request hid (commitRequest_eq f hid)
          ⟨fun h => h.2.2.1, fun h => ⟨hlocal, by simp [hid], h, Or.inl hbefore⟩⟩

/-- `begin` keeps the context, fails to send (the set is cleared all the same),
or opens a fresh transaction. -/
theorem begin_cases (s : Context) :
    (s.begin f).1 = s ∨
    (s.transactionId = none ∧ ((∃ n, s.lastLocalTransactionId ≤ n ∧ (s.begin f).1 = { s with
        synchronizations := []
        lastLocalTransactionId := n }) ∨
      (s.begin f).1 = { s with
        transactionId := some (.local (s.lastLocalTransactionId + 1))
        synchronizations := []
        lastLocalTransactionId := s.lastLocalTransactionId + 1
        log := .sent ⟨.local (s.lastLocalTransactionId + 1), .begin⟩ (some .plain) :: s.log })) := by
  unfold begin
  split
  · exact Or.inl rfl
  · split
    · exact Or.inl rfl
    · next hin =>
      refine Or.inr ⟨by simpa [isInTransaction] using hin, ?_⟩
      split
      · exact Or.inl ⟨_, le_rfl, rfl⟩
      · cases f.oneway with
        | some e => exact Or.inl ⟨_, Nat.le_succ _, rfl⟩
        | none => exact Or.inr rfl

/-! ## The invariant -/

/-- While a transaction is open the set holds what was registered in it and no
callback has been made; once it is left the law holds. -/
structure LocalInv (s : Context) : Prop where
  nodup : s.synchronizations.Nodup
  registered : s.transactionId ≠ none → s.synchronizations = registeredIn (episode s.log)
  silent : s.transactionId ≠ none → ∀ o sync, Event.after o sync ∉ episode s.log
  settled : Settled s

theorem localInv_init : LocalInv init where
  nodup := nodup_nil
  registered h := absurd rfl h
  silent h := absurd rfl h
  settled _ sync h := by simp [init, episode, registeredIn] at h

@[simp] theorem ended_transactionId (s : Context) (id : TransactionId) (o : Completion)
    (r : Reply) : (s.ended id o r).transactionId = none := by
  cases r <;> rfl

/-- The episode after the request for the end of the transaction. -/
theorem episode_ended (s : Context) (id : TransactionId) (o : Completion) (r : Reply) :
    episode (s.ended id o r).log =
      match r with
      | .closed _ => episode s.log
      | .raised _ => .sent ⟨id, o.request⟩ none :: episode s.log
      | .answered a => s.synchronizations.reverse.map (Event.after o) ++
          .sent ⟨id, o.request⟩ (some a) :: episode s.log := by
  have hsent : ∀ a, Event.isBegin (.sent ⟨id, o.request⟩ a) = false := by
    intro a
    cases o <;> rfl
  cases r with
  | closed e => rfl
  | raised e => exact episode_cons s.log (hsent none)
  | answered a =>
    show episode (s.synchronizations.reverse.map (Event.after o) ++ _) = _
    rw [episode_append _ (fun e he => ?_), episode_cons _ (hsent _)]
    obtain ⟨sync, -, rfl⟩ := mem_map.mp he
    rfl

theorem registeredIn_ended (s : Context) (id : TransactionId) (o : Completion) (r : Reply) :
    registeredIn (episode (s.ended id o r).log) = registeredIn (episode s.log) := by
  rw [episode_ended]
  cases r with
  | closed e => rfl
  | raised e => rfl
  | answered a => exact registeredIn_append_after o _ _

variable (hI : LocalInv s) (hid : s.transactionId = some id)
include hI hid

/-- An answered request settles the transaction. -/
theorem settled_ended_of_answered (o : Completion) (a : Response) :
    Settled (s.ended id o (.answered a)) := by
  have hopen : s.transactionId ≠ none := by simp [hid]
  intro _ sync hsync
  rw [registeredIn_ended, ← hI.registered hopen] at hsync
  rw [episode_ended]
  have hold : callbacks sync (episode s.log) = 0 :=
    callbacks_eq_zero fun o => hI.silent hopen o sync
  have hrequest : callbacks sync [.sent ⟨id, o.request⟩ (some a)] = 0 :=
    callbacks_eq_zero fun o => by simp
  constructor
  · have hnew := callbacks_map_after o (nodup_reverse.mpr hI.nodup) (mem_reverse.mpr hsync)
    have hsplit := callbacks_append sync [.sent ⟨id, o.request⟩ (some a)] (episode s.log)
    rw [callbacks_append]
    simp only [singleton_append] at hsplit
    omega
  · intro hcommit
    -- the callback is one of those just made, so the request was the commit
    have ho : o = .commit := by
      rcases mem_append.mp hcommit with hnew | hrest
      · obtain ⟨_, -, heq⟩ := mem_map.mp hnew
        injection heq
      · rcases mem_cons.mp hrest with hsent | hold
        · cases hsent
        · exact absurd hold (hI.silent hopen _ _)
    subst ho
    exact ⟨id, a, mem_append_right _ mem_cons_self⟩

/-- With nothing registered, leaving the transaction settles it in any case. -/
theorem settled_ended_of_nil
    (hnil : s.synchronizations = []) (o : Completion) (r : Reply) : Settled (s.ended id o r) := by
  intro _ sync hsync
  rw [registeredIn_ended, ← hI.registered (by simp [hid]), hnil] at hsync
  cases hsync

/-- A request that is not answered leaves every registered synchronization
without a callback. -/
theorem not_settled_ended (hne : s.synchronizations ≠ []) (o : Completion) {r : Reply}
    (hr : ¬ ∃ a, r = .answered a) : ¬ Settled (s.ended id o r) := by
  intro hsettled
  have hopen : s.transactionId ≠ none := by simp [hid]
  obtain ⟨sync, hsync⟩ := exists_mem_of_ne_nil _ hne
  rw [hI.registered hopen, ← registeredIn_ended s id o r] at hsync
  have hone := (hsettled (ended_transactionId s id o r) sync hsync).1
  have hzero : callbacks sync (episode (s.ended id o r).log) = 0 := by
    refine callbacks_eq_zero fun o' => ?_
    rw [episode_ended]
    cases r with
    | closed e => exact hI.silent hopen o' sync
    | raised e => simpa using hI.silent hopen o' sync
    | answered a => exact absurd ⟨a, rfl⟩ hr
  omega

omit hid

theorem localInv_ended {o : Completion} {r : Reply}
    (hsettled : Settled (s.ended id o r)) : LocalInv (s.ended id o r) where
  nodup := by
    cases r with
    | closed e => exact hI.nodup
    | raised e => exact hI.nodup
    | answered a => exact nodup_nil
  registered h := absurd (ended_transactionId s id o r) h
  silent h := absurd (ended_transactionId s id o r) h
  settled := hsettled

theorem localInv_addSynchronization (sync : Synchronization) :
    LocalInv (s.addSynchronization sync) := by
  have hlog : episode (s.addSynchronization sync).log =
      .registered s.transactionId sync :: episode s.log := episode_cons s.log rfl
  refine ⟨nodup_adjoin hI.nodup, fun hopen => ?_, fun hopen o t => ?_, fun hclosed => ?_⟩
  · obtain ⟨id, hid⟩ := Option.ne_none_iff_exists'.mp hopen
    change s.transactionId = some id at hid
    rw [hlog, hid]
    show (if sync ∈ s.synchronizations then _ else _) =
      if sync ∈ registeredIn (episode s.log) then _ else _
    rw [← hI.registered (by simp [hid])]
  · rw [hlog]
    simpa using hI.silent hopen o t
  · -- registered outside a transaction: no episode counts it
    have hnone : s.transactionId = none := hclosed
    have hold := hI.settled hnone
    rw [hlog, hnone]
    simpa [registeredIn, callbacks] using hold

theorem localInv_removeSynchronization
    (sync : Synchronization) : LocalInv (s.removeSynchronization sync) := by
  have hlog : episode (s.removeSynchronization sync).log =
      .removed s.transactionId sync :: episode s.log := episode_cons s.log rfl
  refine ⟨hI.nodup.filter _, fun hopen => ?_, fun hopen o t => ?_, fun hclosed => ?_⟩
  · obtain ⟨id, hid⟩ := Option.ne_none_iff_exists'.mp hopen
    change s.transactionId = some id at hid
    rw [hlog, hid]
    show s.synchronizations.filter _ = (registeredIn (episode s.log)).filter _
    rw [← hI.registered (by simp [hid])]
  · rw [hlog]
    simpa using hI.silent hopen o t
  · have hnone : s.transactionId = none := hclosed
    have hold := hI.settled hnone
    rw [hlog, hnone]
    simpa [registeredIn, callbacks] using hold

theorem localInv_begin (f : Faults) : LocalInv (s.begin f).1 := by
  rcases begin_cases f s with hs | ⟨hnone, ⟨n, -, hs⟩ | hs⟩
  · rw [hs]
    exact hI
  · rw [hs]
    exact ⟨nodup_nil, fun h => absurd hnone h, fun h => absurd hnone h, hI.settled⟩
  · rw [hs]
    exact ⟨nodup_nil, fun _ => rfl, fun _ o sync => by simp,
      fun h => absurd h (Option.some_ne_none _)⟩

/-- A call that ends a transaction keeps the invariant when its request is
answered or nothing is registered. -/
theorem localInv_of_endsOrKeeps {reaches : Prop} {f : Faults} {s' : Context}
    (hcases : EndsOrKeeps reaches f s s')
    (hok : reaches → (∃ a, f.request = .answered a) ∨ s.synchronizations = []) :
    LocalInv s' := by
  rcases hcases with ⟨-, rfl⟩ | ⟨hreach, id, o, hid, rfl⟩
  · exact hI
  · refine localInv_ended hI ?_
    rcases hok hreach with ⟨a, ha⟩ | hnil
    · rw [ha]
      exact settled_ended_of_answered hI hid o a
    · exact settled_ended_of_nil hI hid hnil o _

omit hI in
theorem localInv_step (s : Context) (c : LocalCall) (hI : LocalInv s)
    (hok : RequestAnswered s c) : LocalInv (localMachine.step s c).1 := by
  cases c with
  | begin f => exact localInv_begin hI f
  | commit f => exact localInv_of_endsOrKeeps hI (commit_cases f s) hok
  | rollback f => exact localInv_of_endsOrKeeps hI (rollback_cases f 0 s) hok
  | addSynchronization sync => exact localInv_addSynchronization hI sync
  | removeSynchronization sync => exact localInv_removeSynchronization hI sync

/-- A call that ends a transaction breaks the law as soon as its request is not
answered and something is registered. -/
theorem not_settled_of_endsOrKeeps {reaches : Prop} {f : Faults} {s' : Context}
    (hcases : EndsOrKeeps reaches f s s') (hreach : reaches) (hr : ¬ ∃ a, f.request = .answered a)
    (hne : s.synchronizations ≠ []) : ¬ Settled s' := by
  rcases hcases with ⟨hnot, -⟩ | ⟨-, id, o, hid, rfl⟩
  · exact absurd hreach hnot
  · exact not_settled_ended hI hid hne o hr

omit hI

theorem not_settled_step (s : Context) (c : LocalCall) (hI : LocalInv s)
    (hno : ¬ RequestAnswered s c) : ¬ Settled (localMachine.step s c).1 := by
  simp only [RequestAnswered, Classical.not_imp, not_or] at hno
  obtain ⟨hreach, hr, hne⟩ := hno
  cases c with
  | begin f => exact hreach.elim
  | commit f => exact not_settled_of_endsOrKeeps hI (commit_cases f s) hreach hr hne
  | rollback f => exact not_settled_of_endsOrKeeps hI (rollback_cases f 0 s) hreach hr hne
  | addSynchronization sync => exact hreach.elim
  | removeSynchronization sync => exact hreach.elim

/-- **Completion of local transactions.** In every run of a fresh context, under
every pattern of failures, the synchronizations of each transaction that was
left have heard exactly one completion — *iff* no call got as far as its request,
with synchronizations registered, without an answer. -/
theorem settled_iff_requests_answered (calls : List LocalCall) :
    localMachine.Always Settled init calls ↔
      localMachine.Meets RequestAnswered init calls :=
  Machine.always_iff_meets localInv_step (fun _ h => h.settled) not_settled_step localInv_init

/-- The broker refuses the commit of a transaction with one synchronization: the
id is cleared and the synchronization hears nothing. -/
theorem commit_refused_not_settled :
    ¬ localMachine.Always Settled init
        [.begin (.none .plain), .addSynchronization 7,
          .commit { Faults.none .plain with request := .raised .activemq }] := by
  intro h
  have hlast := h.last rfl 7 (by decide)
  exact absurd hlast.1 (by decide)

end ActivemqCpp.Core.Tx
