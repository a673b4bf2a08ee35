import ActivemqCpp.Base.Machine
import ActivemqCpp.Core.TransactionContext

/-!
# XA branches: whose synchronizations hear what, and which commit is sent

The context as a machine driven by an XA session and its transaction manager.

* **Ledger** — what every branch owes its own synchronizations, kept beside the
  context from the calls and their results alone. The context has one set for
  all branches, `start` clears it and every completion notifies all of it: it
  agrees with the ledger *iff* no branch is started while synchronizations are
  pending, none completes while another's are, and no prepare or commit fails while any
  are (`isolated_iff_alone`).
* **Two-phase protocol** — `commit(xid, onePhase)` sends the one-phase command
  whatever the flag; the protocol is followed *iff* no commit reaches the broker
  for a prepared branch (`protocol_iff_unprepared`).
* **Failed start** — the set is cleared and the association made before the fallible
  send, and one refusal is thrown as a pointer; when a `start` that fails leaves the
  context alone and raises an `XAException` is `start_atomic_iff`.
-/

namespace ActivemqCpp.Core.Tx

open Base List Context

/-- The calls of an XA session and its transaction manager. -/
inductive XaCall where
  | start (faults : Faults) (xid : Option Xid) (flags : BitVec 32)
  | end (faults : Faults) (xid : Option Xid) (flags : BitVec 32)
  | prepare (faults : Faults) (xid : Option Xid)
  | commit (faults : Faults) (xid : Option Xid) (onePhase : Bool)
  | rollback (faults : Faults) (xid : Option Xid)
  | forget (faults : Faults) (xid : Option Xid)
  | addSynchronization (sync : Synchronization)
  | removeSynchronization (sync : Synchronization)

/-- A call without a result returns `XA_OK` here. -/
def returns (r : Context × Except Exn Unit) : Context × Except Exn Int :=
  (r.1, r.2.map fun _ => xaOk)

/-- The context under the calls of an XA session. -/
def xaMachine : Machine Context XaCall (Except Exn Int) where
  step s
    | .start f xid flags => returns (s.start f xid flags)
    | .end f xid flags => returns (s.end f xid flags)
    | .prepare f xid => s.prepare f xid
    | .commit f xid onePhase => returns (s.commitXid f xid onePhase)
    | .rollback f xid => returns (s.rollbackXid f xid)
    | .forget f xid => returns (s.forget f xid)
    | .addSynchronization sync =>
      -- the kernels of an XA session register inside a branch only
      if s.isInXATransaction then (s.addSynchronization sync, .ok xaOk)
      else (s, .ok xaOk)
    | .removeSynchronization sync => (s.removeSynchronization sync, .ok xaOk)

/-! ## The ledger -/

/-- The completion a call tells of, with the branch that it completes as its caller sees it
from the result: a prepare answered read-only and a commit that returns commit it, a rollback
that returns rolls it back. A prepare or commit that fails tells of a rollback and completes
no branch: it may be tried again. -/
def XaCall.completes (s : Context) : XaCall → Except Exn Int →
    Option (Option XATransactionId × Completion)
  | .prepare _ (some xid), .ok result =>
    if result = xaRdonly then some (some (.ofXid xid), .commit) else none
  | .commit _ (some xid) _, .ok _ => some (some (.ofXid xid), .commit)
  | .prepare _ (some _), .error e | .commit _ (some _) _, .error e =>
    if e = .cms (.xa Exn.xaerRmfail) then some (none, .rollback) else none
  | .rollback _ (some xid), .ok _ => (s.branchId xid).toOption.map (some ·, .rollback)
  | _, _ => none

/-- What the branches owe: `due` pairs each branch with its synchronizations,
`owed` lists the callbacks that were to be made so far. -/
structure Ledger where
  due : List (XATransactionId × Synchronization)
  owed : List (Completion × Synchronization)

namespace Ledger

def empty : Ledger := ⟨[], []⟩

def register (l : Ledger) (x : XATransactionId) (sync : Synchronization) : Ledger :=
  { l with due := if (x, sync) ∈ l.due then l.due else l.due ++ [(x, sync)] }

def remove (l : Ledger) (sync : Synchronization) : Ledger :=
  { l with due := l.due.filter fun p => p.2 ≠ sync }

/-- Branch `x`, if there is one, ended: its own synchronizations, and no others, are notified
and leave the ledger. -/
def complete (l : Ledger) (x : Option XATransactionId) (o : Completion) : Ledger where
  due := l.due.filter fun p => some p.1 ≠ x
  owed := (l.due.filter fun p => some p.1 = x).map (fun p => (o, p.2)) ++ l.owed

/-- One call of the session, made in the context `s`. -/
def account (l : Ledger) (s : Context) (c : XaCall) (result : Except Exn Int) : Ledger :=
  match c with
  | .addSynchronization sync =>
    match s.transactionId with
    | some (.xa x) => l.register x sync
    | _ => l
  | .removeSynchronization sync => l.remove sync
  | c =>
    match c.completes s result with
    | some (x, o) => l.complete x o
    | none => l

end Ledger

/-- The context with the ledger beside it. -/
def auditedMachine : Machine (Context × Ledger) XaCall (Except Exn Int) where
  step s c :=
    let r := xaMachine.step s.1 c
    ((r.1, s.2.account s.1 c r.2), r.2)

/-- The callbacks made are the callbacks owed, and the synchronizations still
held are those still due. -/
structure Isolated (s : Context × Ledger) : Prop where
  fired : ∀ o sync, s.1.log.count (.after o sync) = s.2.owed.count (o, sync)
  held : ∀ sync, sync ∈ s.1.synchronizations ↔ ∃ x, (x, sync) ∈ s.2.due

/-- Whether a call is going to tell of a completion, and of which branch, told from the
context and the answers it will get: a commit that is answered, a prepare answered read-only
and a rollback that is answered end the branch; a prepare or commit that fails ends none. -/
def XaCall.ends (s : Context) : XaCall → Option (Option XATransactionId)
  | .prepare f (some xid) =>
    if Xid.equals s.associatedXid (some xid) then none
    else
      match f.request with
      | .answered (.integer result) =>
        if result = xaRdonly then some (some (.ofXid xid)) else none
      | _ => some none
  | .commit f (some xid) _ =>
    if Xid.equals s.associatedXid (some xid) then none
    else
      match f.check, f.request with
      | none, .answered _ => some (some (.ofXid xid))
      | _, _ => some none
  | .rollback f (some xid) =>
    match f.check, f.request with
    | none, .answered _ => (s.branchId xid).toOption.map some
    | _, _ => none
  | _ => none

/-- No branch is started while synchronizations are pending, none is completed while those of
another are, and no prepare or commit fails while any are. -/
structure Alone (s : Context × Ledger) (c : XaCall) : Prop where
  start : ∀ f xid flags, c = .start f xid flags → s.1.startRefusal flags = none → s.2.due = []
  complete : ∀ x, c.ends s.1 = some x → ∀ p ∈ s.2.due, some p.1 = x

/-! ## What the calls do to the synchronizations -/

/-- How often `sync` heard of the completion `o` so far. -/
def Context.fired (s : Context) (o : Completion) (sync : Synchronization) : Nat :=
  s.log.count (.after o sync)

/-- What a call did, given the branch it completed: nothing to anyone, or it
notified the whole set and emptied it. -/
inductive Effect (s s' : Context) : Option (Option XATransactionId × Completion) → Prop where
  | quiet (hsync : s'.synchronizations = s.synchronizations)
      (hfired : s'.fired = s.fired) : Effect s s' none
  | completed (x : Option XATransactionId) (o : Completion) (hsync : s'.synchronizations = [])
      (hfired : ∀ o' sync, s'.fired o' sync =
        s.fired o' sync + if o' = o then s.synchronizations.count sync else 0) :
      Effect s s' (some (x, o))

theorem fired_notifyAfter (s : Context) (o o' : Completion) (sync : Synchronization) :
    (s.notifyAfter o).fired o' sync =
      s.fired o' sync + if o' = o then s.synchronizations.count sync else 0 := by
  simp only [fired, notifyAfter, count_append, count_map_after, count_reverse]
  omega

variable {s s' : Context}

/-- `s'` has exchanged at most one command with the broker since `s`, and that was a
one-phase commit only where `onePhase` says so. -/
def Exchanged (onePhase : Bool) (s s' : Context) : Prop :=
  s'.synchronizations = s.synchronizations ∧
    (s'.log = s.log ∨ ∃ info a, s'.log = .sent info a :: s.log ∧
      (info.type = .commitOnePhase → onePhase = true))

/-- What a call did, given the branch its result shows to be completed and the branch that
was going to be. -/
inductive Acts (onePhase : Bool) (s s' : Context) :
    Option (Option XATransactionId × Completion) → Option (Option XATransactionId) → Prop where
  | quiet (h : Exchanged onePhase s s') : Acts onePhase s s' none none
  | completed {s₁ : Context} (x : Option XATransactionId) (o : Completion)
      (h : Exchanged onePhase s s₁) (hs' : s' = s₁.notifyAfter o) :
      Acts onePhase s s' (some (x, o)) (some x)

variable {onePhase : Bool}

theorem exchanged_refl (s : Context) : Exchanged onePhase s s :=
  ⟨rfl, .inl rfl⟩

theorem exchanged_note (s : Context) {info : TransactionInfo}
    (a : Option Response) (h : info.type = .commitOnePhase → onePhase = true) :
    Exchanged onePhase s (s.note (.sent info a)) :=
  ⟨rfl, .inr ⟨info, a, rfl, h⟩⟩

theorem Exchanged.fired_eq (h : Exchanged onePhase s s') : s'.fired = s.fired := by
  funext o sync
  obtain ⟨-, hlog | ⟨info, a, hlog, -⟩⟩ := h
  · rw [fired, hlog]
    rfl
  · simp [fired, hlog]

variable {done : Option (Option XATransactionId × Completion)}
  {ends : Option (Option XATransactionId)}

theorem Acts.effect (h : Acts onePhase s s' done ends) : Effect s s' done := by
  cases h with
  | quiet h => exact .quiet h.1 h.fired_eq
  | completed x o h hs' =>
    subst hs'
    refine .completed x o rfl fun o' sync => ?_
    rw [fired_notifyAfter, h.1, h.fired_eq]

/-- The branch the result shows to be completed is the one that was going to be. -/
theorem Acts.fst (h : Acts onePhase s s' done ends) : done.map Prod.fst = ends := by
  cases h with
  | quiet | completed => rfl

variable (f : Faults)

/-- `setXid` exchanges commands and moves the association, no more. -/
theorem exchanged_setXid (s : Context) (xid : Option Xid) :
    Exchanged false s (s.setXid f xid).1 := by
  unfold setXid
  cases f.check with
  | some e => exact exchanged_refl s
  | none =>
    cases xid with
    | some xid =>
      cases f.oneway with
      | some e => exact ⟨rfl, .inl rfl⟩
      | none => exact ⟨rfl, .inr ⟨_, _, rfl, by simp⟩⟩
    | none =>
      cases s.transactionId with
      | none => exact ⟨rfl, .inl rfl⟩
      | some id =>
        cases f.request with
        | closed e => exact ⟨rfl, .inl rfl⟩
        | raised | answered => exact ⟨rfl, .inr ⟨_, _, rfl, by simp⟩⟩

theorem exchanged_end (s : Context) (xid : Option Xid) (flags : BitVec 32) :
    Exchanged false s (s.end f xid flags).1 := by
  have hassoc : Exchanged false s (Context.end.endAssociated f s).1 := by
    unfold Context.end.endAssociated
    split
    · exact exchanged_refl s
    · exact exchanged_setXid f s none
  unfold Context.end
  split
  · exact exchanged_refl s
  · split
    · split
      · exact hassoc
      · exact exchanged_refl s
    · split
      · split
        · exact hassoc
        · exact exchanged_refl s
      · exact exchanged_refl s

theorem exchanged_forget (s : Context) (xid : Option Xid) :
    Exchanged false s (s.forget f xid).1 := by
  cases xid with
  | none => exact exchanged_refl s
  | some xid =>
    simp only [forget]
    cases s.branchId xid with
    | error e => exact exchanged_refl s
    | ok id =>
      cases f.closed with
      | true => exact exchanged_refl s
      | false =>
        cases f.request with
        | closed e => exact exchanged_refl s
        | raised | answered => exact exchanged_note s _ (by simp)

theorem acts_prepare (s : Context) (xid : Option Xid) :
    Acts false s (s.prepare f xid).1 ((XaCall.prepare f xid).completes s (s.prepare f xid).2)
      ((XaCall.prepare f xid).ends s) := by
  cases xid with
  | none => exact .quiet (exchanged_refl s)
  | some xid =>
    simp only [prepare, XaCall.ends]
    by_cases heq : Xid.equals s.associatedXid (some xid) = true
    · rw [if_pos heq, if_pos heq]
      exact .quiet (exchanged_refl s)
    · rw [if_neg heq, if_neg heq]
      cases f.request with
      | closed e => exact .completed _ _ (exchanged_refl s) rfl
      | raised e => exact .completed _ _ (exchanged_note s _ (by simp)) rfl
      | answered a =>
        cases a with
        | plain => exact .completed _ _ (exchanged_note s _ (by simp)) rfl
        | integer result =>
          by_cases hro : result = xaRdonly
          · subst hro
            exact .completed _ _ (exchanged_note s _ (by simp)) rfl
          · simp only [syncRequest, XaCall.completes, if_neg hro]
            exact .quiet (exchanged_note s _ (by simp))

theorem acts_commitXid (s : Context) (xid : Option Xid) (onePhase : Bool) :
    Acts true s (s.commitXid f xid onePhase).1
      ((XaCall.commit f xid onePhase).completes s (returns (s.commitXid f xid onePhase)).2)
      ((XaCall.commit f xid onePhase).ends s) := by
  cases xid with
  | none => exact .quiet (exchanged_refl s)
  | some xid =>
    simp only [commitXid, XaCall.ends]
    by_cases heq : Xid.equals s.associatedXid (some xid) = true
    · rw [if_pos heq, if_pos heq]
      exact .quiet (exchanged_refl s)
    · rw [if_neg heq, if_neg heq]
      cases f.check with
      | some e => exact .completed _ _ (exchanged_refl s) rfl
      | none =>
        cases f.request with
        | closed e => exact .completed _ _ (exchanged_refl s) rfl
        | raised | answered => exact .completed _ _ (exchanged_note s _ (by simp)) rfl

theorem acts_rollbackXid (s : Context) (xid : Option Xid) :
    Acts false s (s.rollbackXid f xid).1
      ((XaCall.rollback f xid).completes s (returns (s.rollbackXid f xid)).2)
      ((XaCall.rollback f xid).ends s) := by
  cases xid with
  | none => exact .quiet (exchanged_refl s)
  | some xid =>
    simp only [rollbackXid, XaCall.ends]
    cases hid : s.branchId xid with
    | error e => cases f.check <;> cases f.request <;> exact .quiet (exchanged_refl s)
    | ok id =>
      cases f.check with
      | some e => exact .quiet (exchanged_refl s)
      | none =>
        cases f.request with
        | closed e => exact .quiet (exchanged_refl s)
        | raised e => exact .quiet (exchanged_note s _ (by simp))
        | answered a =>
          simp only [returns, syncRequest, XaCall.completes, hid, Except.map]
          exact .completed _ _ (exchanged_note s _ (by simp)) rfl

/-- The calls that address a branch, `start` apart. -/
def XaCall.addresses : XaCall → Bool
  | .end _ _ _ | .prepare _ _ | .commit _ _ _ | .rollback _ _ | .forget _ _ => true
  | _ => false

def XaCall.isCommit : XaCall → Bool
  | .commit _ _ _ => true
  | _ => false

variable {c : XaCall}

theorem acts_step (s : Context) (hc : c.addresses = true) :
    Acts c.isCommit s (xaMachine.step s c).1 (c.completes s (xaMachine.step s c).2)
      (c.ends s) := by
  cases c with
  | «end» f xid flags => exact .quiet (exchanged_end f s xid flags)
  | prepare f xid => exact acts_prepare f s xid
  | commit f xid onePhase => exact acts_commitXid f s xid onePhase
  | rollback f xid => exact acts_rollbackXid f s xid
  | forget f xid => exact .quiet (exchanged_forget f s xid)
  | start | addSynchronization | removeSynchronization => cases hc

/-! ## Isolation of the branches -/

structure AuditInv (s : Context × Ledger) : Prop where
  isolated : Isolated s
  nodup : s.1.synchronizations.Nodup
  due_nodup : s.2.due.Nodup

/-- What the ledger books for a completed branch. -/
def Ledger.settle (l : Ledger) : Option (Option XATransactionId × Completion) → Ledger
  | some (x, o) => l.complete x o
  | none => l

theorem auditInv_init : AuditInv (init, Ledger.empty) where
  isolated := ⟨fun _ _ => rfl, fun sync => by simp [init, Ledger.empty]⟩
  nodup := nodup_nil
  due_nodup := nodup_nil

variable {l : Ledger} (hI : AuditInv (s, l))
include hI

variable {x : Option XATransactionId}

/-- When all that is due belongs to `x`, each synchronization is due once, and
exactly those held are due. -/
theorem count_due (hx : ∀ p ∈ l.due, some p.1 = x) (sync : Synchronization) :
    (l.due.map Prod.snd).count sync = s.synchronizations.count sync := by
  have hinj : Set.InjOn Prod.snd {p | p ∈ l.due} := by
    rintro ⟨x₁, a⟩ h₁ ⟨x₂, b⟩ h₂ hab
    have hx₁ : some x₁ = x := hx _ h₁
    have hx₂ : some x₂ = x := hx _ h₂
    grind
  have hnodup : (l.due.map Prod.snd).Nodup := Nodup.map_on
    (fun p hp q hq hpq => hinj hp hq hpq) hI.due_nodup
  have hmem : sync ∈ l.due.map Prod.snd ↔ sync ∈ s.synchronizations := by
    rw [hI.isolated.held sync]
    simp
  by_cases hin : sync ∈ s.synchronizations
  · rw [count_eq_one_of_mem hnodup (hmem.mpr hin), count_eq_one_of_mem hI.nodup hin]
  · rw [count_eq_zero.mpr hin, count_eq_zero.mpr (mt hmem.mp hin)]

theorem auditInv_of_effect
    (heff : Effect s s' done) (hok : ∀ x o, done = some (x, o) → ∀ p ∈ l.due, some p.1 = x) :
    AuditInv (s', l.settle done) := by
  cases heff with
  | quiet hsync hfired =>
    refine ⟨⟨fun o sync => ?_, fun sync => ?_⟩, ?_, hI.due_nodup⟩
    · exact (congrFun (congrFun hfired o) sync).trans (hI.isolated.fired o sync)
    · show sync ∈ s'.synchronizations ↔ _
      rw [hsync]
      exact hI.isolated.held sync
    · show s'.synchronizations.Nodup
      rw [hsync]
      exact hI.nodup
  | completed x o hsync hfired =>
    have hx := hok x o rfl
    have hall : l.due.filter (fun p => some p.1 = x) = l.due := by
      rw [filter_eq_self]
      intro p hp
      simpa using hx p hp
    have hnone : l.due.filter (fun p => some p.1 ≠ x) = [] := by
      rw [filter_eq_nil_iff]
      intro p hp
      simpa using hx p hp
    refine ⟨⟨fun o' sync => ?_, fun sync => ?_⟩, ?_, ?_⟩
    · show s'.fired o' sync = _
      have hold : s.fired o' sync = l.owed.count (o', sync) := hI.isolated.fired o' sync
      show _ = (((l.due.filter fun p => some p.1 = x).map fun p => (o, p.2)) ++ l.owed).count
        (o', sync)
      rw [hfired, hall, count_append, ← count_due hI hx sync, Nat.add_comm]
      congr 1
      have hmap : l.due.map (fun p => (o, p.2)) = (l.due.map Prod.snd).map (Prod.mk o) := by
        rw [map_map]
        rfl
      rw [hmap]
      split
      · next heq =>
        subst heq
        exact (count_map_of_injective _ _ (Prod.mk_right_injective o') sync).symm
      · next hne =>
        symm
        rw [count_eq_zero]
        intro hmem
        obtain ⟨_, -, heq⟩ := mem_map.mp hmem
        exact hne (Prod.mk.inj heq).1.symm
    · show sync ∈ s'.synchronizations ↔ ∃ y, (y, sync) ∈ l.due.filter fun p => some p.1 ≠ x
      rw [hsync, hnone]
      simp
    · show s'.synchronizations.Nodup
      rw [hsync]
      exact nodup_nil
    · exact hI.due_nodup.filter _

omit hI in
/-- Telling of a completion while a synchronization of another branch is due drops it. -/
theorem not_isolated_of_effect {o : Completion}
    (heff : Effect s s' (some (x, o))) {p : XATransactionId × Synchronization} (hp : p ∈ l.due)
    (hne : some p.1 ≠ x) : ¬ Isolated (s', l.complete x o) := by
  intro hiso
  have hdue : p ∈ (l.complete x o).due := mem_filter.mpr ⟨hp, by simpa using hne⟩
  have hheld : p.2 ∈ s'.synchronizations := (hiso.held p.2).mpr ⟨p.1, hdue⟩
  cases heff with
  | completed _ _ hsync _ =>
    rw [hsync] at hheld
    cases hheld

variable {flags : BitVec 32}

omit hI in
/-- `start` past its tests empties the set and notifies no one. -/
theorem start_accepted (xid : Option Xid) (h : s.startRefusal flags = none) :
    (s.start f xid flags).1.synchronizations = [] ∧ (s.start f xid flags).1.fired = s.fired := by
  have hset := exchanged_setXid f { s with synchronizations := [] } xid
  simp only [start, h]
  exact ⟨hset.1, hset.fired_eq⟩

variable {xid : Option Xid}

omit hI in
theorem start_refused {f : Faults} {e : Exn}
    (h : s.startRefusal flags = some e) : (s.start f xid flags).1 = s := by
  simp only [start, h]

theorem auditInv_start (f : Faults) (xid : Option Xid) (flags : BitVec 32)
    (hok : s.startRefusal flags = none → l.due = []) : AuditInv ((s.start f xid flags).1, l) := by
  cases h : s.startRefusal flags with
  | some e =>
    rw [start_refused h]
    exact hI
  | none =>
    obtain ⟨hsync, hfired⟩ := start_accepted f xid h
    have hdue : l.due = [] := hok h
    refine ⟨⟨fun o sync => ?_, fun sync => ?_⟩, ?_, hI.due_nodup⟩
    · exact (congrFun (congrFun hfired o) sync).trans (hI.isolated.fired o sync)
    · simp [hsync, hdue]
    · simp [hsync]

theorem auditInv_register (x : XATransactionId) (sync : Synchronization) :
    AuditInv (s.addSynchronization sync, l.register x sync) := by
  have hdue : ∀ p, p ∈ (l.register x sync).due ↔ p ∈ l.due ∨ p = (x, sync) :=
    fun p => mem_adjoin
  have hheld : ∀ t, t ∈ (s.addSynchronization sync).synchronizations ↔
      t ∈ s.synchronizations ∨ t = sync := fun t => mem_adjoin
  refine ⟨⟨fun o t => ?_, fun t => ?_⟩, nodup_adjoin hI.nodup, nodup_adjoin hI.due_nodup⟩
  · have hold := hI.isolated.fired o t
    simpa [addSynchronization, Ledger.register] using hold
  · rw [hheld, hI.isolated.held t]
    constructor
    · rintro (⟨y, hy⟩ | rfl)
      · exact ⟨y, (hdue _).mpr (Or.inl hy)⟩
      · exact ⟨x, (hdue _).mpr (Or.inr rfl)⟩
    · rintro ⟨y, hy⟩
      rcases (hdue _).mp hy with hold | hnew
      · exact Or.inl ⟨y, hold⟩
      · exact Or.inr (Prod.mk.inj hnew).2

theorem auditInv_remove
    (sync : Synchronization) : AuditInv (s.removeSynchronization sync, l.remove sync) := by
  refine ⟨⟨fun o t => ?_, fun t => ?_⟩, hI.nodup.filter _, hI.due_nodup.filter _⟩
  · have hold := hI.isolated.fired o t
    simpa [removeSynchronization, Ledger.remove] using hold
  · have hold := hI.isolated.held t
    simp only [removeSynchronization, Ledger.remove, mem_filter] at hold ⊢
    rw [hold]
    constructor
    · rintro ⟨⟨x, hx⟩, hne⟩
      exact ⟨x, hx, hne⟩
    · rintro ⟨x, hx, hne⟩
      exact ⟨⟨x, hx⟩, hne⟩

theorem auditInv_of_alone (hok : Alone (s, l) c) (hc : c.addresses = true) :
    AuditInv ((xaMachine.step s c).1, l.settle (c.completes s (xaMachine.step s c).2)) := by
  have hacts := acts_step s hc
  refine auditInv_of_effect hI hacts.effect fun x o hdone => hok.complete x ?_
  rw [← hacts.fst, hdone]
  rfl

omit hI

theorem auditInv_step (s : Context × Ledger) (c : XaCall) (hI : AuditInv s)
    (hok : Alone s c) : AuditInv (auditedMachine.step s c).1 := by
  obtain ⟨s, l⟩ := s
  cases c with
  | start f xid flags => exact auditInv_start hI f xid flags (hok.start f xid flags rfl)
  | «end» | prepare | commit | rollback | forget => exact auditInv_of_alone hI hok rfl
  | addSynchronization sync =>
    -- outside a branch the kernels register nothing
    cases htx : s.transactionId with
    | none => simpa [auditedMachine, xaMachine, Ledger.account, isInXATransaction, htx]
        using hI
    | some id =>
      cases id with
      | «local» v => simpa [auditedMachine, xaMachine, Ledger.account,
          isInXATransaction, TransactionId.isXATransactionId, htx] using hI
      | xa x => simpa [auditedMachine, xaMachine, Ledger.account,
          isInXATransaction, TransactionId.isXATransactionId, htx]
          using auditInv_register hI x sync
  | removeSynchronization sync => exact auditInv_remove hI sync

/-- A call other than `start` that is not alone completes a branch over the
synchronizations of another. -/
theorem not_isolated_of_foreign (hno : ¬ Alone (s, l) c) (hc : c.addresses = true) :
    ¬ Isolated ((xaMachine.step s c).1, l.settle (c.completes s (xaMachine.step s c).2)) := by
  have hforeign : ¬ ∀ x, c.ends s = some x → ∀ p ∈ l.due, some p.1 = x := by
    refine fun h => hno ⟨?_, h⟩
    rintro f xid flags rfl
    cases hc
  push Not at hforeign
  obtain ⟨x, hends, p, hp, hne⟩ := hforeign
  have hacts := acts_step s hc
  rw [← hacts.fst, Option.map_eq_some_iff] at hends
  obtain ⟨⟨x, o⟩, hdone, rfl⟩ := hends
  have heff := hacts.effect
  rw [hdone] at heff ⊢
  exact not_isolated_of_effect heff hp hne

theorem not_isolated_step (s : Context × Ledger) (c : XaCall) (hno : ¬ Alone s c) :
    ¬ Isolated (auditedMachine.step s c).1 := by
  obtain ⟨s, l⟩ := s
  cases c with
  | start f xid flags =>
    have haccepted : s.startRefusal flags = none ∧ l.due ≠ [] := by
      by_contra hnot
      refine hno ⟨?_, by simp [XaCall.ends]⟩
      rintro f' xid' flags' hc hnone
      injection hc with _ _ hflags
      subst hflags
      by_contra hdue
      exact hnot ⟨hnone, hdue⟩
    intro hiso
    obtain ⟨p, hp⟩ := exists_mem_of_ne_nil _ haccepted.2
    have hheld : p.2 ∈ (s.start f xid flags).1.synchronizations := (hiso.held p.2).mpr ⟨p.1, hp⟩
    rw [(start_accepted f xid haccepted.1).1] at hheld
    cases hheld
  | «end» | prepare | commit | rollback | forget => exact not_isolated_of_foreign hno rfl
  | addSynchronization | removeSynchronization =>
    exact absurd ⟨by simp, by simp [XaCall.ends]⟩ hno

/-- A branch of a global transaction, and another of the same. -/
def branchOne : Xid := ⟨1, [0x67], [1], by decide, by decide⟩

def branchTwo : Xid := ⟨1, [0x67], [2], by decide, by decide⟩

/-- Branch one has ended its work with one synchronization pending. -/
def branchOneEnded : List XaCall :=
  [.start (.none .plain) (some branchOne) 0, .addSynchronization 7,
    .end (.none .plain) (some branchOne) tmSuccess]

/-- The broker answers with an `ExceptionResponse`. -/
def refused : Faults := { Faults.none .plain with request := .raised .activemq }

/-- The branch `x` has been prepared and not completed since, read off the log
(newest first). A read-only prepare leaves nothing to commit. -/
def prepared (x : XATransactionId) : List Event → Bool
  | [] => false
  | .sent ⟨.xa y, .prepare⟩ (some (.integer result)) :: es =>
    if y = x then result ≠ xaRdonly else prepared x es
  | .sent ⟨.xa y, .commitOnePhase⟩ (some _) :: es
  | .sent ⟨.xa y, .commitTwoPhase⟩ (some _) :: es
  | .sent ⟨.xa y, .rollback⟩ (some _) :: es => if y = x then false else prepared x es
  | _ :: es => prepared x es

def Event.info? : Event → Option TransactionInfo
  | .sent info _ => some info
  | _ => none

/-- The commands a call gave to the transport. -/
def sentBy (s : Context) (c : XaCall) : List TransactionInfo :=
  let log := (xaMachine.step s c).1.log
  (log.take (log.length - s.log.length)).filterMap Event.info?

/-- The call follows the two-phase protocol: a one-phase commit sends the
one-phase command, the commit of a prepared branch the two-phase one, and no
call completes a prepared branch with the one-phase command. -/
structure FollowsProtocol (s : Context) (c : XaCall) : Prop where
  onePhase : ∀ f xid, c = .commit f (some xid) true →
    ∀ info ∈ sentBy s c, info = ⟨.xa (.ofXid xid), .commitOnePhase⟩
  twoPhase : ∀ f xid, c = .commit f (some xid) false → prepared (.ofXid xid) s.log →
    ∀ info ∈ sentBy s c, info = ⟨.xa (.ofXid xid), .commitTwoPhase⟩
  never : ∀ x, prepared x s.log → ⟨.xa x, .commitOnePhase⟩ ∉ sentBy s c

/-- The commit of `xid` gets as far as the broker: the branch is not associated, the
connection is up and the request is sent. -/
def ReachesBroker (s : Context) (f : Faults) (xid : Xid) : Prop :=
  Xid.equals s.associatedXid (some xid) = false ∧ f.check = none ∧ ∀ e, f.request ≠ .closed e

/-- A commit that gets as far as the broker is for a branch that is not prepared. -/
def CommitsUnprepared (s : Context) (c : XaCall) : Prop :=
  ∀ f xid onePhase, c = .commit f (some xid) onePhase → ReachesBroker s f xid →
    prepared (.ofXid xid) s.log = false

/-- The log grew from `s` to `s'`, by the commands `sent` and by callbacks. -/
def Grew (s s' : Context) (sent : List TransactionInfo) : Prop :=
  ∃ es, s'.log = es ++ s.log ∧ es.filterMap Event.info? = sent

theorem grew_refl (s : Context) : Grew s s [] := ⟨[], rfl, rfl⟩

theorem grew_sent (s : Context) (info : TransactionInfo) (a : Option Response) :
    Grew s (s.note (.sent info a)) [info] := ⟨[.sent info a], rfl, rfl⟩

variable {sent : List TransactionInfo}

theorem Grew.notifyAfter (h : Grew s s' sent)
    (o : Completion) : Grew s (s'.notifyAfter o) sent := by
  obtain ⟨es, hlog, hsent⟩ := h
  refine ⟨s'.synchronizations.reverse.map (Event.after o) ++ es, ?_, ?_⟩
  · simp [Context.notifyAfter, hlog]
  · have hafter : (s'.synchronizations.reverse.map (Event.after o)).filterMap Event.info? = [] := by
      simp [Event.info?]
    rw [filterMap_append, hafter, hsent, nil_append]

theorem sentBy_of_grew (h : Grew s (xaMachine.step s c).1 sent) : sentBy s c = sent := by
  obtain ⟨es, hlog, hsent⟩ := h
  simp [sentBy, hlog, hsent]

/-- `commit(xid, onePhase)` sends the one-phase command, whatever the flag, when it
gets as far as the broker. -/
theorem sentBy_commit (s : Context) (f : Faults) (xid : Xid) (onePhase : Bool) :
    (ReachesBroker s f xid ∧
      sentBy s (.commit f (some xid) onePhase) = [⟨.xa (.ofXid xid), .commitOnePhase⟩]) ∨
    (¬ ReachesBroker s f xid ∧ sentBy s (.commit f (some xid) onePhase) = []) := by
  have hgrew : ∃ sent, Grew s (s.commitXid f (some xid) onePhase).1 sent ∧
      ((ReachesBroker s f xid ∧ sent = [⟨.xa (.ofXid xid), .commitOnePhase⟩]) ∨
        (¬ ReachesBroker s f xid ∧ sent = [])) := by
    simp only [commitXid, ite_self]
    by_cases heq : Xid.equals s.associatedXid (some xid) = true
    · rw [if_pos heq]
      exact ⟨_, grew_refl s, Or.inr ⟨fun h => by simp [h.1] at heq, rfl⟩⟩
    · rw [if_neg heq]
      cases hcheck : f.check with
      | some e =>
        exact ⟨_, (grew_refl s).notifyAfter _, Or.inr ⟨fun h => by simp [h.2.1] at hcheck, rfl⟩⟩
      | none =>
        cases hreq : f.request with
        | closed e =>
          exact ⟨_, (grew_refl s).notifyAfter _, Or.inr ⟨fun h => h.2.2 e hreq, rfl⟩⟩
        | raised | answered =>
          exact ⟨_, (grew_sent s _ _).notifyAfter _,
            Or.inl ⟨⟨by simpa using heq, hcheck, by simp [hreq]⟩, rfl⟩⟩
  obtain ⟨sent, hgrew, hsent⟩ := hgrew
  rw [sentBy_of_grew hgrew]
  exact hsent

/-- No one-phase commit was sent between `s` and `s'`. -/
def Spares (s s' : Context) : Prop :=
  ∃ sent, Grew s s' sent ∧ ∀ info ∈ sent, info.type ≠ .commitOnePhase

theorem Exchanged.spares (h : Exchanged false s s') : Spares s s' := by
  obtain ⟨-, hlog | ⟨info, a, hlog, hone⟩⟩ := h
  · exact ⟨[], ⟨[], hlog, rfl⟩, nofun⟩
  · exact ⟨[info], ⟨[.sent info a], hlog, rfl⟩, by simpa using hone⟩

theorem Acts.spares (h : Acts false s s' done ends) : Spares s s' := by
  cases h with
  | quiet h => exact h.spares
  | completed x o h hs' =>
    subst hs'
    obtain ⟨sent, hgrew, hne⟩ := h.spares
    exact ⟨sent, hgrew.notifyAfter o, hne⟩

theorem spares_step (hc : c.addresses = true) (hcommit : c.isCommit = false) :
    Spares s (xaMachine.step s c).1 := by
  have hacts := acts_step s hc
  rw [hcommit] at hacts
  exact hacts.spares

theorem spares_start (s : Context) (xid : Option Xid) (flags : BitVec 32) :
    Spares s (s.start f xid flags).1 := by
  unfold start
  split
  · exact (exchanged_refl s).spares
  · exact (exchanged_setXid f { s with synchronizations := [] } xid).spares

/-- Only `commit` sends a one-phase commit. -/
theorem onePhase_not_mem_sentBy (s : Context) (c : XaCall) (x : TransactionId)
    (hc : ∀ f xid onePhase, c ≠ .commit f (some xid) onePhase) :
    ⟨x, .commitOnePhase⟩ ∉ sentBy s c := by
  have hspares : Spares s (xaMachine.step s c).1 := by
    cases c with
    | start f xid flags => exact spares_start f s xid flags
    | commit f xid onePhase =>
      cases xid with
      | none => exact (exchanged_refl s).spares
      | some xid => exact absurd rfl (hc f xid onePhase)
    | «end» | prepare | rollback | forget => exact spares_step rfl rfl
    | addSynchronization sync =>
      simp only [xaMachine]
      split
      · exact ⟨[], ⟨[.registered s.transactionId sync], rfl, rfl⟩, nofun⟩
      · exact (exchanged_refl s).spares
    | removeSynchronization sync =>
      exact ⟨[], ⟨[.removed s.transactionId sync], rfl, rfl⟩, nofun⟩
  obtain ⟨sent, hgrew, hne⟩ := hspares
  rw [sentBy_of_grew hgrew]
  exact fun hmem => hne _ hmem rfl

/-- On one call: the protocol is followed iff the call is no commit of a prepared
branch that gets as far as the broker. -/
theorem followsProtocol_iff (s : Context) (c : XaCall) :
    FollowsProtocol s c ↔ CommitsUnprepared s c := by
  constructor
  · rintro hfollows f xid onePhase rfl hreach
    by_contra hprep
    rcases sentBy_commit s f xid onePhase with ⟨-, hone⟩ | ⟨hnot, -⟩
    · refine hfollows.never (.ofXid xid) (by simpa using hprep) ?_
      rw [hone]
      exact mem_singleton_self _
    · exact hnot hreach
  · intro hunprepared
    refine ⟨?_, ?_, ?_⟩
    · rintro f xid rfl info hinfo
      rcases sentBy_commit s f xid true with ⟨-, hone⟩ | ⟨-, hnil⟩
      · simpa [hone] using hinfo
      · simp [hnil] at hinfo
    · rintro f xid rfl hprep info hinfo
      rcases sentBy_commit s f xid false with ⟨hreach, -⟩ | ⟨-, hnil⟩
      · simp [hunprepared f xid false rfl hreach] at hprep
      · simp [hnil] at hinfo
    · intro x hprep hmem
      -- whoever sends the one-phase command is a commit, of `x` itself
      by_cases hc : ∃ f xid onePhase, c = .commit f (some xid) onePhase
      · obtain ⟨f, xid, onePhase, rfl⟩ := hc
        rcases sentBy_commit s f xid onePhase with ⟨hreach, hone⟩ | ⟨-, hnil⟩
        · simp only [hone, mem_singleton, TransactionInfo.mk.injEq, TransactionId.xa.injEq,
            and_true] at hmem
          rw [hmem, hunprepared f xid onePhase rfl hreach] at hprep
          cases hprep
        · simp [hnil] at hmem
      · push Not at hc
        exact onePhase_not_mem_sentBy s c (.xa x) hc hmem

/-- **Two-phase protocol.** Every call of a run follows the protocol *iff* no
commit in the run gets as far as the broker for a branch that is prepared. -/
theorem protocol_iff_unprepared (calls : List XaCall) :
    xaMachine.Meets FollowsProtocol init calls ↔
      xaMachine.Meets CommitsUnprepared init calls :=
  Machine.meets_congr followsProtocol_iff init calls

/-- Start, end, prepare, then the second phase: the command on the wire is the
one-phase commit. -/
theorem second_phase_sends_onePhase :
    ¬ xaMachine.Meets FollowsProtocol init
        [.start (.none .plain) (some branchOne) 0,
          .end (.none .plain) (some branchOne) tmSuccess,
          .prepare (.none (.integer xaOk)) (some branchOne),
          .commit (.none .plain) (some branchOne) false] := by
  intro h
  have hcommit := h.2.2.2.1
  exact hcommit.never (.ofXid branchOne) (by decide) (by decide)

/-! ## A `start` that fails -/

/-- Thrown by value: what `catch (cms::XAException&)` catches. -/
def Exn.isXAException : Exn → Bool
  | .cms (.xa _) => true
  | _ => false

/-- When `start` fails, the association, the transaction id and the registered
synchronizations are as before, and an `XAException` was thrown. -/
def StartAtomic (f : Faults) (s : Context) (xid : Option Xid) (flags : BitVec 32) : Prop :=
  ∀ e, (s.start f xid flags).2 = .error e →
    (s.start f xid flags).1.associatedXid = s.associatedXid ∧
    (s.start f xid flags).1.transactionId = s.transactionId ∧
    (s.start f xid flags).1.synchronizations = s.synchronizations ∧
    e.isXAException = true

/-- The broker takes what `setXid` has to send: the `BEGIN` of a branch, or, for a null
`xid`, the `END` of the transaction there is. -/
def BrokerTakes (f : Faults) (s : Context) : Option Xid → Prop
  | some _ => f.oneway = none
  | none => s.transactionId = none ∨ ∃ response, f.request = .answered response

theorem startAtomic_of_refused {f : Faults} {e : Exn} (h : s.startRefusal flags = some e) :
    StartAtomic f s xid flags ↔ e.isXAException = true := by
  unfold StartAtomic
  simp [start, h]

/-- The tests at the head of `start`, in their order. -/
theorem startRefusal_cases (s : Context) (flags : BitVec 32) :
    (s.isInLocalTransaction = true ∧ s.startRefusal flags = some (.cms (.xa Exn.xaerProto))) ∨
    (s.isInLocalTransaction = false ∧ s.associatedXid ≠ none ∧
      s.startRefusal flags = some (.xaPointer Exn.xaerProto)) ∨
    (s.associatedXid = none ∧ (flags &&& tmJoin = tmJoin ∨ flags &&& tmResume = tmResume) ∧
      s.startRefusal flags = some (.cms (.xa 0))) ∨
    (s.isInLocalTransaction = false ∧ s.associatedXid = none ∧
      ¬ (flags &&& tmJoin = tmJoin ∨ flags &&& tmResume = tmResume) ∧
      s.startRefusal flags = none) := by
  unfold startRefusal
  by_cases hlocal : s.isInLocalTransaction = true
  · simp [hlocal]
  · cases hxid : s.associatedXid with
    | some x => simp
    | none =>
      by_cases hjoin : flags &&& tmJoin = tmJoin
      · simp [hlocal, hjoin]
      · by_cases hresume : flags &&& tmResume = tmResume
        · simp [hlocal, hresume]
        · simp [hjoin, hresume]

/-- Past the tests: a connection that is closed costs the registered synchronizations, a
send that fails costs everything. -/
theorem startAtomic_of_accepted {f : Faults} (h : s.startRefusal flags = none)
    (hfree : s.associatedXid = none) :
    StartAtomic f s xid flags ↔
      (f.check ≠ none → s.synchronizations = []) ∧ (f.check = none → BrokerTakes f s xid) := by
  unfold StartAtomic
  simp only [start, h]
  cases hcheck : f.check with
  | some e =>
    simp only [setXid, hcheck]
    have hxa : (Exn.toXAException e.toActiveMQ).isXAException = true := rfl
    constructor
    · intro hatomic
      obtain ⟨-, -, hsyncs, -⟩ := hatomic _ rfl
      exact ⟨fun _ => hsyncs.symm, nofun⟩
    · rintro ⟨hempty, -⟩ e' he'
      obtain rfl := Except.error.inj he'
      exact ⟨trivial, trivial, (hempty (Option.some_ne_none e)).symm, hxa⟩
  | none =>
    cases xid with
    | some x =>
      cases hsend : f.oneway with
      | some e =>
        -- the branch is associated by now
        simp [setXid, hcheck, hsend, oneway, hfree, BrokerTakes]
      | none => simp [setXid, hcheck, hsend, oneway, BrokerTakes]
    | none =>
      cases hid : s.transactionId with
      | none => simp [setXid, hcheck, hid, BrokerTakes]
      | some id =>
        cases hrequest : f.request with
        | answered response =>
          simp [setXid, hcheck, hrequest, syncRequest, BrokerTakes]
        | closed e | raised e =>
          -- an ActiveMQException passes the only clause there is
          simp [setXid, hcheck, hid, hrequest, syncRequest, BrokerTakes,
            Exn.toActiveMQ, Exn.cmsToXAException, Exn.isXAException]

/-- **Failed starts.** In every context, for every xid, flags and failure: a `start` that
fails leaves the context as it was and raises an `XAException` *iff* a local transaction is
open, or nothing is associated and the flags ask for a join or a resume, or, past these
tests, a closed connection finds no synchronization registered and an open one takes what is
sent. -/
theorem start_atomic_iff (f : Faults) (s : Context) (xid : Option Xid) (flags : BitVec 32) :
    StartAtomic f s xid flags ↔
      s.isInLocalTransaction = true ∨ s.associatedXid = none ∧
        (flags &&& tmJoin = tmJoin ∨
          flags &&& tmResume = tmResume ∨
          (f.check ≠ none → s.synchronizations = []) ∧
            (f.check = none → BrokerTakes f s xid)) := by
  rcases startRefusal_cases s flags with ⟨hlocal, h⟩ | ⟨hlocal, hxid, h⟩ | ⟨hfree, hflags, h⟩ |
    ⟨hlocal, hfree, hflags, h⟩
  · simp [startAtomic_of_refused h, hlocal, Exn.isXAException]
  · simp [startAtomic_of_refused h, hlocal, hxid, Exn.isXAException]
  · have hsome : (Exn.cms (.xa 0)).isXAException = true := rfl
    rw [startAtomic_of_refused h]
    exact iff_of_true hsome (Or.inr ⟨hfree, hflags.elim Or.inl fun hr => Or.inr (Or.inl hr)⟩)
  · rw [startAtomic_of_accepted h hfree]
    rw [not_or] at hflags
    simp [hlocal, hfree, hflags.1, hflags.2]

/-- The send of the `BEGIN` throws: the branch stays associated. A context that is
associated refuses the next `start` with a pointer. -/
theorem start_failed_associates :
    ¬ StartAtomic { Faults.none .plain with oneway := some .decaf } init
        (some branchOne) 0 ∧
      ¬ StartAtomic (.none .plain)
        (init.start { Faults.none .plain with oneway := some .decaf } (some branchOne) 0).1
        (some branchTwo) 0 := by
  refine ⟨fun h => ?_, fun h => ?_⟩
  · obtain ⟨hxid, -⟩ := h _ rfl
    cases hxid
  · obtain ⟨-, -, -, hxa⟩ := h _ rfl
    cases hxa

end ActivemqCpp.Core.Tx
