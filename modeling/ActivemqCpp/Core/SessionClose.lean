import ActivemqCpp.Core.TransactionContext

/-!
# Closing a session in an XA transaction

`ActiveMQSessionKernel::close` waits for the end of an XA transaction: it registers a
`CloseSynhcronization`, which closes the session once the transaction is committed or rolled
back. The test of `synchronizationRegistered` is the wrong way round: the first call takes the
flag and registers nothing, every further call registers a synchronization of its own.

After `n + 1` calls `n` synchronizations are registered (`InXa.closes_succ`). The first that is
notified disposes of the session and each of them sends a `RemoveInfo`, unless the context is
still in the transaction: then `dispose` tries a local rollback, which throws. A `RemoveInfo`
that cannot be sent ends the loop over the synchronizations too.
-/

namespace ActivemqCpp.Core.Tx

open List Context

/-- The part of `ActiveMQSessionKernel` that `close` works with. The synchronizations that it
creates are told apart by number; `disposals` and `removeInfos` count what has been done. -/
structure Session where
  closed : Bool
  synchronizationRegistered : Bool
  context : Context
  closeSyncs : List Synchronization
  nextSync : Nat
  disposals : Nat
  removeInfos : Nat

namespace Session

/-- `dispose`; the consumers and producers that it disposes of are left out. -/
def dispose (f : Faults) (s : Session) : Session × Except Exn Unit :=
  if s.closed then (s, .ok ())
  else
    let s := { s with closed := true, disposals := s.disposals + 1 }
    if s.context.isInTransaction then
      match s.context.rollback f 0 with
      | (context, .error e) => ({ s with context }, .error e.toActiveMQ)
      | (context, .ok ()) => ({ s with context }, .ok ())
    else (s, .ok ())

def doClose (f : Faults) (s : Session) : Session × Except Exn Unit :=
  match s.dispose f with
  | (s, .error e) => (s, .error e)
  | (s, .ok ()) =>
    match f.oneway with
    | some e => (s, .error e.toActiveMQ)
    | none => ({ s with removeInfos := s.removeInfos + 1 }, .ok ())

def close (f : Faults) (s : Session) : Session × Except Exn Unit :=
  if s.closed then (s, .ok ())
  else if s.context.isInXATransaction then
    -- `!compareAndSet(false, true)`
    if s.synchronizationRegistered then
      ({ s with
          context := s.context.addSynchronization s.nextSync
          closeSyncs := s.closeSyncs ++ [s.nextSync]
          nextSync := s.nextSync + 1 }, .ok ())
    else ({ s with synchronizationRegistered := true }, .ok ())
  else s.doClose f

/-- `afterCommit` and `afterRollback` of a `CloseSynhcronization`. -/
def finishClose (f : Faults) (s : Session) : Session × Except Exn Unit :=
  match s.doClose f with
  | (s, .error e) => (s, .error e)
  | (s, .ok ()) => ({ s with synchronizationRegistered := false }, .ok ())

/-- The loop over the synchronizations. What throws ends it; those of the consumers leave
the session as it is. -/
def notify (f : Faults) : List Synchronization → Session → Session
  | [], s => s
  | sync :: rest, s =>
    if sync ∈ s.closeSyncs then
      match s.finishClose f with
      | (s, .error _) => s
      | (s, .ok ()) => notify f rest s
    else notify f rest s

/-- `afterCommit` or `afterRollback` of the context, once the broker has answered. -/
def complete (f : Faults) (s : Session) : Session :=
  let s := notify f s.context.synchronizations s
  { s with context := { s.context with synchronizations := [] } }

/-- `end(xid, TMSUCCESS)` of the associated branch. -/
def endBranch (s : Session) : Session :=
  { s with context := (s.context.setXid (.none .plain) none).1 }

/-- `n` calls of `close`. -/
def closes (f : Faults) (n : Nat) (s : Session) : Session := (fun s => (s.close f).1)^[n] s

/-- The session before the transaction is completed: after `n` calls of `close`, and `end`,
which a `commit` requires and a `rollback` does not. -/
def closing (f : Faults) (n : Nat) (ended : Bool) (s : Session) : Session :=
  if ended then (s.closes f n).endBranch else s.closes f n

/-- The close synchronizations among those of the transaction. -/
def registered (s : Session) : List Synchronization :=
  s.context.synchronizations.filter (· ∈ s.closeSyncs)

/-- An open session in an XA transaction, before any call of `close`. -/
structure InXa (s : Session) : Prop where
  opened : s.closed = false
  unregistered : s.synchronizationRegistered = false
  none : s.closeSyncs = []
  transaction : s.context.isInXATransaction = true
  fresh : ∀ sync ∈ s.context.synchronizations, sync < s.nextSync

/-- One synchronization is registered, the session stays open until the transaction is
completed, and is then disposed of and removed once. -/
structure ClosesOnce (f : Faults) (n : Nat) (ended : Bool) (s : Session) : Prop where
  registered : (s.closing f n ended).registered.length = 1
  stays : (s.closing f n ended).closed = false
  disposed : ((s.closing f n ended).complete f).disposals = s.disposals + 1
  removed : ((s.closing f n ended).complete f).removeInfos = s.removeInfos + 1

variable {f : Faults} {s s' : Session} {n : Nat}

/-! ## The calls of `close` -/

/-- The session after `n + 1` calls. -/
structure Registers (n : Nat) (s s' : Session) : Prop where
  opened : s'.closed = false
  flag : s'.synchronizationRegistered = true
  closeSyncs : s'.closeSyncs = range' s.nextSync n
  next : s'.nextSync = s.nextSync + n
  synchronizations :
    s'.context.synchronizations = s.context.synchronizations ++ range' s.nextSync n
  transaction : s'.context.transactionId = s.context.transactionId
  disposals : s'.disposals = s.disposals
  removeInfos : s'.removeInfos = s.removeInfos

theorem InXa.closes_succ (h : s.InXa) (f : Faults) (n : Nat) :
    Registers n s (s.closes f (n + 1)) := by
  induction n with
  | zero =>
    have hclose : s.closes f 1 = { s with synchronizationRegistered := true } := by
      simp [closes, close, h.opened, h.transaction, h.unregistered]
    rw [hclose]
    exact ⟨h.opened, rfl, h.none, rfl, (append_nil _).symm, rfl, rfl, rfl⟩
  | succ n ih =>
    have hxa : (s.closes f (n + 1)).context.isInXATransaction = true := by
      rw [isInXATransaction, ih.transaction]
      exact h.transaction
    have hstep : s.closes f (n + 1 + 1) = ((s.closes f (n + 1)).close f).1 :=
      Function.iterate_succ_apply' _ _ _
    rw [hstep, close, if_neg (by simp [ih.opened]), if_pos hxa, if_pos ih.flag]
    have hnew : (s.closes f (n + 1)).nextSync ∉ (s.closes f (n + 1)).context.synchronizations := by
      rw [ih.next, ih.synchronizations, mem_append, mem_range'_1]
      rintro (hin | hin)
      · exact absurd (h.fresh _ hin) (Nat.not_lt_of_le (Nat.le_add_right _ _))
      · omega
    have hrange : range' s.nextSync (n + 1) = range' s.nextSync n ++ [s.nextSync + n] := by
      rw [range'_concat, Nat.one_mul]
    refine ⟨ih.opened, ih.flag, ?_, ?_, ?_, ih.transaction, ih.disposals, ih.removeInfos⟩
    · rw [hrange, ih.closeSyncs, ih.next]
    · exact congrArg (· + 1) ih.next
    · rw [addSynchronization, if_neg hnew, ih.synchronizations, ih.next, hrange, append_assoc]

theorem Registers.others (h : s.InXa) (hs : Registers n s s') :
    ∀ sync ∈ s.context.synchronizations, sync ∉ s'.closeSyncs := by
  intro sync hin hclose
  rw [hs.closeSyncs, mem_range'_1] at hclose
  exact absurd (h.fresh sync hin) (Nat.not_lt_of_le hclose.1)

theorem Registers.length_registered (h : s.InXa) (hs : Registers n s s') :
    s'.registered.length = n := by
  have hothers : s.context.synchronizations.filter (· ∈ s'.closeSyncs) = [] := by
    rw [filter_eq_nil_iff]
    intro sync hin
    simpa using hs.others h sync hin
  have hown : (range' s.nextSync n).filter (· ∈ s'.closeSyncs) = range' s.nextSync n := by
    rw [filter_eq_self, hs.closeSyncs]
    exact fun sync hin => decide_eq_true hin
  rw [registered, hs.synchronizations, filter_append, hothers, hown, nil_append, length_range']

/-! ## The end of the transaction -/

variable {syncs : List Synchronization}

/-- The synchronizations of others are passed over. -/
theorem notify_append {others : List Synchronization} (f : Faults)
    (h : ∀ sync ∈ others, sync ∉ s.closeSyncs) : notify f (others ++ syncs) s = notify f syncs s := by
  induction others with
  | nil => rfl
  | cons sync others ih =>
    rw [cons_append, notify, if_neg (h sync mem_cons_self)]
    exact ih fun sync' hin => h sync' (mem_cons_of_mem _ hin)

variable (hsyncs : ∀ sync ∈ syncs, sync ∈ s.closeSyncs)
include hsyncs

/-- Outside a transaction every synchronization sends a `RemoveInfo`. -/
theorem notify_ended (hsent : f.oneway = none) (hended : s.context.transactionId = none) :
    (notify f syncs s).removeInfos = s.removeInfos + syncs.length ∧
      (notify f syncs s).disposals =
        s.disposals + if s.closed = true ∨ syncs = [] then 0 else 1 := by
  induction syncs generalizing s with
  | nil => simp [notify]
  | cons sync rest ih =>
    have hfinish : s.finishClose f = ({ s with
        closed := true
        synchronizationRegistered := false
        disposals := s.disposals + if s.closed then 0 else 1
        removeInfos := s.removeInfos + 1 }, .ok ()) := by
      rcases hclosed : s.closed with _ | _ <;>
        simp [finishClose, doClose, dispose, hclosed, isInTransaction, hended, hsent]
    rw [notify, if_pos (hsyncs sync mem_cons_self), hfinish]
    obtain ⟨hremoved, hdisposed⟩ := ih (s := (s.finishClose f).1)
      (fun sync' hin => by rw [hfinish]; exact hsyncs sync' (mem_cons_of_mem _ hin))
      (by rw [hfinish]; exact hended)
    rw [hfinish] at hremoved hdisposed
    refine ⟨?_, ?_⟩
    · rw [hremoved, length_cons, Nat.add_assoc, Nat.add_comm 1]
    · rw [hdisposed]
      simp

/-- In the transaction the first synchronization throws before it sends anything. -/
theorem notify_associated (f : Faults)
    (hopened : s.closed = false) (hxa : s.context.isInXATransaction = true) :
    (notify f syncs s).removeInfos = s.removeInfos := by
  cases syncs with
  | nil => rfl
  | cons sync rest =>
    have hin : s.context.isInTransaction = true := by
      rw [isInXATransaction, Option.any_eq_true] at hxa
      obtain ⟨id, hid, -⟩ := hxa
      rw [isInTransaction, hid]
      rfl
    rw [notify, if_pos (hsyncs sync mem_cons_self)]
    simp [finishClose, doClose, dispose, hopened, hin, rollback, hxa]

omit hsyncs

theorem removeInfos_dispose (f : Faults) (s : Session) :
    (s.dispose f).1.removeInfos = s.removeInfos := by
  unfold dispose
  split
  · rfl
  · dsimp only
    split
    · rcases s.context.rollback f 0 with ⟨context, _ | _⟩ <;> rfl
    · rfl

/-- The first synchronization throws if its `RemoveInfo` cannot be sent. -/
theorem notify_unsent (hsent : f.oneway ≠ none) (syncs : List Synchronization) (s : Session) :
    (notify f syncs s).removeInfos = s.removeInfos := by
  obtain ⟨e, hsent⟩ := Option.ne_none_iff_exists'.mp hsent
  induction syncs with
  | nil => rfl
  | cons sync rest ih =>
    rw [notify]
    split
    · have hdispose := removeInfos_dispose f s
      unfold finishClose doClose
      rcases hdisposed : s.dispose f with ⟨t, _ | _⟩ <;> rw [hdisposed] at hdispose
      · exact hdispose
      · rw [hsent]
        exact hdispose
    · exact ih

/-- What `end` leaves of the session. -/
theorem endBranch_spec (s : Session) :
    s.endBranch.context.transactionId = none ∧
      s.endBranch.context.synchronizations = s.context.synchronizations := by
  rcases hid : s.context.transactionId with _ | id <;>
    simp [endBranch, setXid, Faults.none, hid, syncRequest, note]

/-- A new session whose first branch is started. -/
def sample : Session :=
  ⟨false, false, (init.start (.none .plain) (some ⟨0, [7], [], by decide, by decide⟩) 0).1,
    [], 0, 0, 0⟩

end Session

end ActivemqCpp.Core.Tx
