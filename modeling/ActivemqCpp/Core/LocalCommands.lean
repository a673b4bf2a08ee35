import ActivemqCpp.Core.LocalTransaction

/-!
# Local transactions: the commands the broker sees

`begin`, `commit` and `rollback` of a transacted session, on a connection that may fail at
any time. Whatever fails — a callback, a send, the broker — the commands on the wire are
those of transactions that follow each other:

* **ids** — every `BEGIN` takes the next number of the connection, whether or not it can be
  sent, so that none is begun twice;
* **completion** — the id is cleared before its command is sent, so that a failed command
  is not sent again, also where `commit` falls back to `rollback`;
* **one at a time** — a transaction whose completion was not sent either is the current one,
  or was left on a connection that has failed, which takes no further `BEGIN`.
-/

namespace ActivemqCpp.Core.Tx

open Base List

/-! ## The connection -/

/-- `checkClosedOrFailed` throws: the connection is closed or its transport has failed. -/
def Reply.isClosed : Reply → Bool
  | .closed _ => true
  | _ => false

/-- What a call meets on a connection that has failed before: nothing is sent. -/
def Faults.on (failed : Bool) (f : Faults) : Faults :=
  if failed then { f with oneway := some .activemq, request := .closed .activemq } else f

def LocalCall.on (failed : Bool) : LocalCall → LocalCall
  | .begin f => .begin (f.on failed)
  | .commit f => .commit (f.on failed)
  | .rollback f => .rollback (f.on failed)
  | c => c

/-- The connection fails during the call. -/
def LocalCall.fails : LocalCall → Bool
  | .begin f | .commit f | .rollback f => f.request.isClosed
  | _ => false

/-- The context and whether its connection has failed; no call of the source takes a
failure back. -/
structure OnConnection where
  context : Context
  failed : Bool

def connectionMachine : Machine OnConnection LocalCall (Except Exn Unit) where
  step s c :=
    let r := localMachine.step s.context (c.on s.failed)
    (⟨r.1, s.failed || c.fails⟩, r.2)

/-! ## The commands in the log -/

/-- The transaction that a command begins. -/
def Event.begins : Event → Option TransactionId
  | .sent ⟨id, .begin⟩ _ => some id
  | _ => none

/-- The transaction that a command commits or rolls back, whatever comes of it. -/
def Event.completes : Event → Option TransactionId
  | .sent ⟨id, .commitOnePhase⟩ _ | .sent ⟨id, .rollback⟩ _ => some id
  | _ => none

def begun (log : List Event) : List TransactionId := log.filterMap Event.begins

def completed (log : List Event) : List TransactionId := log.filterMap Event.completes

/-- The transactions begun and neither committed nor rolled back. -/
def opened (log : List Event) : List TransactionId :=
  (begun log).filter fun id => id ∉ completed log

/-- Every completion comes after the `BEGIN` of its transaction. -/
def CompletesBegun : List Event → Prop
  | [] => True
  | e :: older => (∀ id, e.completes = some id → id ∈ begun older) ∧ CompletesBegun older

/-- The commands of transactions that follow each other. -/
structure Orderly (log : List Event) : Prop where
  begunOnce : (begun log).Nodup
  completedOnce : (completed log).Nodup
  afterBegin : CompletesBegun log
  oneAtATime : (opened log).length ≤ 1

/-- An event that is no command of a transaction. -/
def Event.Quiet (e : Event) : Prop := e.begins = none ∧ e.completes = none

section Log

variable {e : Event} {es log : List Event} {id : TransactionId} (h : ∀ e ∈ es, e.Quiet)
include h

theorem begun_quiet : begun (es ++ log) = begun log := by
  rw [begun, filterMap_append, filterMap_eq_nil_iff.mpr fun e he => (h e he).1]
  rfl

theorem completed_quiet : completed (es ++ log) = completed log := by
  rw [completed, filterMap_append, filterMap_eq_nil_iff.mpr fun e he => (h e he).2]
  rfl

theorem opened_quiet : opened (es ++ log) = opened log := by
  rw [opened, begun_quiet h, completed_quiet h]
  rfl

theorem completesBegun_quiet : CompletesBegun (es ++ log) ↔ CompletesBegun log := by
  induction es with
  | nil => exact Iff.rfl
  | cons e es ih =>
    have hnone : e.completes = none := (h e mem_cons_self).2
    have htail := ih fun e' he' => h e' (mem_cons_of_mem e he')
    simp only [cons_append, CompletesBegun, hnone, reduceCtorEq, false_imp_iff, implies_true,
      true_and]
    exact htail

theorem Orderly.quiet (hlog : Orderly log) : Orderly (es ++ log) where
  begunOnce := by rw [begun_quiet h]; exact hlog.begunOnce
  completedOnce := by rw [completed_quiet h]; exact hlog.completedOnce
  afterBegin := (completesBegun_quiet h).mpr hlog.afterBegin
  oneAtATime := by rw [opened_quiet h]; exact hlog.oneAtATime

omit h

/-- The callbacks of a completion. -/
theorem quiet_after {o : Completion} {syncs : List Synchronization} :
    ∀ e ∈ syncs.map (Event.after o), e.Quiet := by
  intro e he
  obtain ⟨sync, -, rfl⟩ := mem_map.mp he
  exact ⟨rfl, rfl⟩

theorem mem_opened : id ∈ opened log ↔ id ∈ begun log ∧ id ∉ completed log := by
  simp [opened]

/-- A fresh `BEGIN` while no transaction is open. -/
theorem Orderly.begin (hlog : Orderly log) (hfresh : id ∉ begun log)
    (hsub : ∀ id ∈ completed log, id ∈ begun log) (hnone : opened log = []) (r : Option Response) :
    Orderly (.sent ⟨id, .begin⟩ r :: log) ∧ opened (.sent ⟨id, .begin⟩ r :: log) = [id] := by
  have hbegun : begun (.sent ⟨id, .begin⟩ r :: log) = id :: begun log := rfl
  have hcompleted : completed (.sent ⟨id, .begin⟩ r :: log) = completed log := rfl
  have hopened : opened (.sent ⟨id, .begin⟩ r :: log) = [id] := by
    have hnew : id ∉ completed log := fun h => hfresh (hsub id h)
    rw [opened, hbegun, hcompleted, filter_cons_of_pos (by simpa using hnew)]
    exact congrArg (id :: ·) hnone
  refine ⟨⟨?_, ?_, ⟨nofun, hlog.afterBegin⟩, ?_⟩, hopened⟩
  · exact nodup_cons.mpr ⟨hfresh, hlog.begunOnce⟩
  · exact hlog.completedOnce
  · rw [hopened]
    exact Nat.le_refl 1

/-- The completion of a transaction that is open. -/
theorem Orderly.complete (hlog : Orderly log) (hopen : id ∈ opened log) (o : Completion)
    (r : Option Response) : Orderly (.sent ⟨id, o.request⟩ r :: log) := by
  obtain ⟨hmem, hnot⟩ := mem_opened.mp hopen
  have hbegun : begun (.sent ⟨id, o.request⟩ r :: log) = begun log := by cases o <;> rfl
  have hcompletes : Event.completes (.sent ⟨id, o.request⟩ r) = some id := by cases o <;> rfl
  have hcompleted : completed (.sent ⟨id, o.request⟩ r :: log) = id :: completed log := by
    rw [completed, filterMap_cons_some hcompletes]
    rfl
  refine ⟨hbegun ▸ hlog.begunOnce, ?_, ⟨?_, hlog.afterBegin⟩, ?_⟩
  · rw [hcompleted]
    exact nodup_cons.mpr ⟨hnot, hlog.completedOnce⟩
  · intro id' h
    rw [hcompletes] at h
    exact Option.some.inj h ▸ hmem
  · -- one transaction less is open
    have hsub : (opened (.sent ⟨id, o.request⟩ r :: log)).Sublist (opened log) := by
      rw [opened, hbegun, hcompleted]
      refine monotone_filter_right _ fun id' h => ?_
      simp only [mem_cons, not_or, decide_eq_true_eq] at h ⊢
      exact h.2
    exact hsub.length_le.trans hlog.oneAtATime

end Log

/-! ## The invariant -/

/-- The commands are in order, the numbers in use are below the next, and what is open is the
current transaction, or was left on a connection that has failed. -/
structure CommandInv (s : OnConnection) : Prop where
  orderly : Orderly s.context.log
  numbered : ∀ id ∈ begun s.context.log, ∃ n ≤ s.context.lastLocalTransactionId, id = .local n
  fromBegun : ∀ id ∈ completed s.context.log, id ∈ begun s.context.log
  current : ∀ id, s.context.transactionId = some id → id ∈ opened s.context.log
  left : s.failed = false → ∀ id ∈ opened s.context.log, s.context.transactionId = some id

theorem commandInv_init : CommandInv ⟨Context.init, false⟩ where
  orderly := ⟨nodup_nil, nodup_nil, trivial, Nat.zero_le 1⟩
  numbered := nofun
  fromBegun := nofun
  current := nofun
  left _ := nofun

variable {s : OnConnection}

/-- A `BEGIN` that cannot be sent is not in the log. -/
theorem log_begin_of_oneway {f : Faults} {e : Exn} (h : f.oneway = some e) (s : Context) :
    (s.begin f).1.log = s.log := by
  unfold Context.begin
  split
  · rfl
  · split
    · rfl
    · split
      · rfl
      · rw [h]
        rfl

variable (hI : CommandInv s)
include hI

/-- Events that are no commands, and a failure of the connection, change nothing. -/
theorem CommandInv.quiet {c : Context} {es : List Event}
    (hes : ∀ e ∈ es, e.Quiet) (hlog : c.log = es ++ s.context.log)
    (hid : c.transactionId = s.context.transactionId)
    (hlast : s.context.lastLocalTransactionId ≤ c.lastLocalTransactionId) (fails : Bool) :
    CommandInv ⟨c, s.failed || fails⟩ where
  orderly := by
    rw [hlog]
    exact hI.orderly.quiet hes
  numbered id hmem := by
    rw [hlog, begun_quiet hes] at hmem
    obtain ⟨n, hn, rfl⟩ := hI.numbered id hmem
    exact ⟨n, hn.trans hlast, rfl⟩
  fromBegun id hmem := by
    rw [hlog, completed_quiet hes] at hmem
    rw [hlog, begun_quiet hes]
    exact hI.fromBegun id hmem
  current id h := by
    rw [hlog, opened_quiet hes]
    exact hI.current id (hid ▸ h)
  left hfailed id hmem := by
    rw [hlog, opened_quiet hes] at hmem
    rw [hid]
    exact hI.left (Bool.or_eq_false_iff.mp hfailed).1 id hmem

/-- With the next number, `begin` opens a transaction where none is open. -/
theorem CommandInv.opens (hfailed : s.failed = false)
    (hnone : s.context.transactionId = none) (fails : Bool) :
    CommandInv ⟨{ s.context with
      transactionId := some (.local (s.context.lastLocalTransactionId + 1))
      synchronizations := []
      lastLocalTransactionId := s.context.lastLocalTransactionId + 1
      log := .sent ⟨.local (s.context.lastLocalTransactionId + 1), .begin⟩ (some .plain) ::
        s.context.log }, fails⟩ := by
  have hfresh : TransactionId.local (s.context.lastLocalTransactionId + 1) ∉
      begun s.context.log := by
    intro hmem
    obtain ⟨n, hn, heq⟩ := hI.numbered _ hmem
    injection heq with heq
    omega
  have hclosed : opened s.context.log = [] := by
    refine eq_nil_iff_forall_not_mem.mpr fun id hmem => ?_
    have hid := hI.left hfailed id hmem
    rw [hnone] at hid
    cases hid
  obtain ⟨horderly, hopened⟩ := hI.orderly.begin hfresh hI.fromBegun hclosed (some .plain)
  refine ⟨horderly, ?_, ?_, ?_, ?_⟩
  · intro id hmem
    rcases mem_cons.mp hmem with rfl | hold
    · exact ⟨_, le_rfl, rfl⟩
    · obtain ⟨n, hn, rfl⟩ := hI.numbered id hold
      exact ⟨n, Nat.le_succ_of_le hn, rfl⟩
  · intro id hmem
    exact mem_cons_of_mem _ (hI.fromBegun id hmem)
  · rintro id hid
    rw [hopened, ← Option.some.inj hid]
    exact mem_singleton_self _
  · intro _ id hmem
    rw [hopened] at hmem
    rw [mem_singleton.mp hmem]

theorem CommandInv.begin (f : Faults) : CommandInv (connectionMachine.step s (.begin f)).1 := by
  show CommandInv ⟨(s.context.begin (f.on s.failed)).1, s.failed || f.request.isClosed⟩
  rcases begin_cases (f.on s.failed) s.context with hs | ⟨hnone, ⟨n, hn, hs⟩ | hs⟩
  · rw [hs]
    exact hI.quiet (forall_mem_nil _) rfl rfl le_rfl _
  · rw [hs]
    exact hI.quiet (c := { s.context with synchronizations := [], lastLocalTransactionId := n })
      (forall_mem_nil _) rfl rfl hn _
  · have hfailed : s.failed = false := by
      by_contra h
      rw [Bool.not_eq_false] at h
      have hlog := log_begin_of_oneway (f := f.on s.failed) (by rw [h]; rfl) s.context
      rw [hs] at hlog
      exact absurd hlog (cons_ne_self _ _)
    rw [hs]
    exact hI.opens hfailed hnone _

/-- The end of the current transaction: its completion is sent, or the connection has
failed. -/
theorem CommandInv.ended {id : TransactionId}
    (hid : s.context.transactionId = some id) (o : Completion) {r : Reply} {fails : Bool}
    (hclosed : r.isClosed = true → (s.failed || fails) = true) :
    CommandInv ⟨s.context.ended id o r, s.failed || fails⟩ := by
  have hopen := hI.current id hid
  -- the command sent, with the callbacks that come after it
  have hsent : ∀ (answer : Option Response) c es,
      (∀ e ∈ es, e.Quiet) → c.transactionId = none →
      c.lastLocalTransactionId = s.context.lastLocalTransactionId →
      c.log = es ++ .sent ⟨id, o.request⟩ answer :: s.context.log →
      CommandInv ⟨c, s.failed || fails⟩ := by
    intro answer c es hes hnone hlast hlog
    have hbegun : begun (.sent ⟨id, o.request⟩ answer :: s.context.log) = begun s.context.log := by
      cases o <;> rfl
    have hcompleted : completed (.sent ⟨id, o.request⟩ answer :: s.context.log) =
        id :: completed s.context.log := by
      cases o <;> rfl
    refine ⟨?_, ?_, ?_, ?_, ?_⟩
    · rw [hlog]
      exact (hI.orderly.complete hopen o answer).quiet hes
    · rw [hlog, begun_quiet hes, hbegun, hlast]
      exact hI.numbered
    · rw [hlog, begun_quiet hes, completed_quiet hes, hbegun, hcompleted]
      rintro id' (_ | ⟨_, hmem⟩)
      · exact (mem_opened.mp hopen).1
      · exact hI.fromBegun id' hmem
    · rw [hnone]
      nofun
    · intro hfailed id' hmem
      rw [hlog, opened_quiet hes, mem_opened, hbegun, hcompleted, mem_cons, not_or] at hmem
      have hcurrent := hI.left (Bool.or_eq_false_iff.mp hfailed).1 id'
        (mem_opened.mpr ⟨hmem.1, hmem.2.2⟩)
      rw [hid] at hcurrent
      exact absurd (Option.some.inj hcurrent).symm hmem.2.1
  cases r with
  | raised e => exact hsent none _ [] (forall_mem_nil _) rfl rfl rfl
  | answered a => exact hsent (some a) _ _ quiet_after rfl rfl rfl
  | closed e =>
    refine ⟨hI.orderly, hI.numbered, hI.fromBegun, nofun, fun hfailed => ?_⟩
    rw [hclosed rfl] at hfailed
    cases hfailed

theorem CommandInv.endsOrKeeps {f : Faults} {reaches : Prop} {c : Context}
    (h : EndsOrKeeps reaches (f.on s.failed) s.context c) :
    CommandInv ⟨c, s.failed || f.request.isClosed⟩ := by
  rcases h with ⟨-, rfl⟩ | ⟨-, id, o, hid, rfl⟩
  · exact hI.quiet (forall_mem_nil _) rfl rfl le_rfl _
  · refine hI.ended hid o fun hclosed => ?_
    cases hfailed : s.failed with
    | true => rfl
    | false =>
      rw [hfailed] at hclosed
      exact hclosed

omit hI

theorem CommandInv.step (s : OnConnection) (c : LocalCall) (hI : CommandInv s) :
    CommandInv (connectionMachine.step s c).1 := by
  cases c with
  | begin f => exact hI.begin f
  | commit f => exact hI.endsOrKeeps (commit_cases (f.on s.failed) s.context)
  | rollback f => exact hI.endsOrKeeps (rollback_cases (f.on s.failed) 0 s.context)
  | addSynchronization sync =>
    have hquiet : ∀ e ∈ [Event.registered s.context.transactionId sync], e.Quiet :=
      forall_mem_singleton.mpr ⟨rfl, rfl⟩
    exact hI.quiet (c := s.context.addSynchronization sync) hquiet rfl rfl le_rfl _
  | removeSynchronization sync =>
    have hquiet : ∀ e ∈ [Event.removed s.context.transactionId sync], e.Quiet :=
      forall_mem_singleton.mpr ⟨rfl, rfl⟩
    exact hI.quiet (c := s.context.removeSynchronization sync) hquiet rfl rfl le_rfl _

/-- **One transaction after the other.** In every run of a transacted session, under every
pattern of failures of the callbacks, the broker and the connection, no transaction id is
begun twice, at most one commit or rollback is sent for each and only after its begin, and at
most one transaction is open at a time. -/
theorem local_commands_orderly (calls : List LocalCall) :
    connectionMachine.Always (fun s => Orderly s.context.log) ⟨Context.init, false⟩ calls := by
  have hmeets : connectionMachine.Meets (fun _ _ => True) ⟨Context.init, false⟩ calls :=
    Machine.meets_of_forall (fun _ _ => trivial) _
  refine (Machine.invariant_of_meets (fun s c hI _ => hI.step s c) commandInv_init hmeets).mono ?_
  exact fun s hI => hI.orderly

end ActivemqCpp.Core.Tx
