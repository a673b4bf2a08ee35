import Mathlib.Data.List.DropRight
import Mathlib.Tactic

/-!
# The transaction context of a session

`core/ActiveMQTransactionContext.cpp`: the local transaction of a transacted
session and the XA branches of an XA session, with the synchronizations that
the consumers register to hear how their work ended.

* **Calls with their faults** — whatever the environment may do during one
  call (a `beforeEnd` callback throws, the connection is closed, the broker
  refuses) is the call's `Faults`; quantifying over the calls of a run
  quantifies over every failure point.
* **Exceptions** — the catch clauses of the source tell three families apart:
  `cms::CMSException`, `decaf::lang::Exception` and everything else. A call
  that throws keeps the state it had reached.
* **The log** — registrations, exchanges with the broker and completion
  callbacks, newest first. No function of the source reads it.
-/

namespace ActivemqCpp.Core.Tx

open List

/-! ## Exceptions -/

/-- The `cms::CMSException` classes the context throws or catches by name. -/
inductive CmsKind where
  | transactionInProgress
  | transactionRolledBack
  | xa (errorCode : Int)
  | other
deriving DecidableEq, Repr

/-- What can be thrown, as far as the catch clauses tell it apart. -/
inductive Exn where
  | cms (kind : CmsKind)
  /-- `activemq::exceptions::ActiveMQException`, a `decaf::lang::Exception`. -/
  | activemq
  /-- Any other `decaf::lang::Exception`. -/
  | decaf
  /-- `throw new XAException(..)`: a pointer, which no clause by type catches. -/
  | xaPointer (errorCode : Int)
  | unknown
deriving DecidableEq, Repr

namespace Exn

/-- Caught by `catch (cms::CMSException&)`. -/
def isCms : Exn → Bool
  | .cms _ => true
  | _ => false

/-- The clauses that end `begin`, `commit` and `rollback`: CMS and ActiveMQ
exceptions pass, all others leave as an `ActiveMQException`. -/
def surface : Exn → Exn
  | .cms kind => .cms kind
  | _ => .activemq

/-- The clauses that end `oneway`, `syncRequest` and `ensureConnectionInfoSent` of
the connection: whatever was thrown leaves as an `ActiveMQException`. -/
def toActiveMQ : Exn → Exn
  | _ => .activemq

/-- `XAException::XAER_INVAL`. -/
def xaerInval : Int := -5

/-- `XAException::XAER_PROTO`. -/
def xaerProto : Int := -6

/-- `XAException::XAER_RMFAIL`. -/
def xaerRmfail : Int := -7

/-- `catch (Exception&)` and `catch (CMSException&)` with `toXAException`;
what neither clause catches passes unchanged. -/
def toXAException : Exn → Exn
  | .cms _ | .activemq | .decaf => .cms (.xa xaerRmfail)
  | e => e

/-- `catch (CMSException&)` with `toXAException` alone. -/
def cmsToXAException : Exn → Exn
  | .cms _ => .cms (.xa xaerRmfail)
  | e => e

end Exn

/-! ## Transaction ids -/

/-- `Xid::MAXGTRIDSIZE` and `Xid::MAXBQUALSIZE`. -/
def maxXidPart : Nat := 64

/-- The value of a `cms::Xid`. -/
structure Xid where
  formatId : Int
  globalTransactionId : List UInt8
  branchQualifier : List UInt8
  globalTransactionId_le : globalTransactionId.length ≤ maxXidPart
  branchQualifier_le : branchQualifier.length ≤ maxXidPart
deriving DecidableEq

namespace Xid

/-- `getBranchQualifier(buffer, size)` and `getGlobalTransactionId(buffer, size)`:
the part overwrites the head of the buffer; a part longer than the buffer
leaves it alone. -/
def copyInto (part buffer : List UInt8) : List UInt8 :=
  if buffer.length < part.length then buffer
  else part ++ buffer.drop part.length

/-- The fresh vector of `MAXBQUALSIZE` zero bytes that `equals` reads into. -/
def zeroBuffer : List UInt8 := replicate maxXidPart 0

/-- `ActiveMQTransactionContext::equals`: both parts compared as they stand in
zero-filled buffers. -/
def equals : Option Xid → Option Xid → Bool
  | none, none => true
  | some x, some y =>
    x.formatId == y.formatId
      && copyInto x.branchQualifier zeroBuffer == copyInto y.branchQualifier zeroBuffer
      && copyInto x.globalTransactionId zeroBuffer == copyInto y.globalTransactionId zeroBuffer
  | _, _ => false

/-! ### Which ids are told apart -/

/-- A part without the zero bytes at its end. -/
def strip (part : List UInt8) : List UInt8 := part.rdropWhile (· = 0)

theorem strip_append_zeros (part : List UInt8) (n : Nat) :
    strip (part ++ replicate n 0) = strip part := by
  induction n with
  | zero => rw [replicate_zero, append_nil]
  | succ n ih =>
    rw [replicate_succ', ← append_assoc, strip, rdropWhile_concat_pos _ _ _ (by simp)]
    exact ih

theorem strip_append_eq (part : List UInt8) :
    ∃ n, part = strip part ++ replicate n 0 ∧ (strip part).length + n = part.length := by
  induction part using reverseRecOn with
  | nil => exact ⟨0, rfl, rfl⟩
  | append_singleton part c ih =>
    obtain ⟨n, heq, hlength⟩ := ih
    by_cases hc : c = 0
    · subst hc
      have hstrip : strip (part ++ [0]) = strip part := strip_append_zeros part 1
      rw [hstrip, length_append, ← hlength]
      refine ⟨n + 1, ?_, rfl⟩
      rw [replicate_succ', ← append_assoc, ← heq]
    · have hstrip : strip (part ++ [c]) = part ++ [c] :=
        rdropWhile_concat_neg _ _ _ (by simpa using hc)
      rw [hstrip]
      exact ⟨0, (append_nil _).symm, rfl⟩

variable {part : List UInt8} (h : part.length ≤ maxXidPart)
include h

theorem copyInto_zeroBuffer :
    copyInto part zeroBuffer = part ++ replicate (maxXidPart - part.length) 0 := by
  unfold copyInto zeroBuffer
  rw [if_neg (by simpa using h), drop_replicate]

theorem pad_strip : part ++ replicate (maxXidPart - part.length) 0 =
      strip part ++ replicate (maxXidPart - (strip part).length) 0 := by
  obtain ⟨n, hpart, hn⟩ := strip_append_eq part
  have hzeros : n + (maxXidPart - part.length) = maxXidPart - (strip part).length := by omega
  rw [← hzeros, ← replicate_append_replicate, ← append_assoc, ← hpart]

variable {part' : List UInt8}

/-- In the buffers nothing but the zeros at the end is lost. -/
theorem copyInto_inj (h' : part'.length ≤ maxXidPart) :
    copyInto part zeroBuffer = copyInto part' zeroBuffer ↔ strip part = strip part' := by
  rw [copyInto_zeroBuffer h, copyInto_zeroBuffer h']
  constructor
  · intro heq
    rw [← strip_append_zeros part, heq, strip_append_zeros]
  · intro heq
    rw [pad_strip h, pad_strip h', heq]

omit h

/-- The ids agree but for zero bytes at the ends of their parts. -/
def Alike (x y : Xid) : Prop :=
  x.formatId = y.formatId ∧ strip x.globalTransactionId = strip y.globalTransactionId ∧
    strip x.branchQualifier = strip y.branchQualifier

theorem equals_iff_alike (x y : Xid) : equals (some x) (some y) = true ↔ Alike x y := by
  simp only [equals, Bool.and_eq_true, beq_iff_eq,
    copyInto_inj x.branchQualifier_le y.branchQualifier_le,
    copyInto_inj x.globalTransactionId_le y.globalTransactionId_le]
  rw [Alike]
  tauto

theorem eq_of_strip (h : strip part = strip part')
    (hlength : part.length = part'.length) : part = part' := by
  obtain ⟨n, hpart, hn⟩ := strip_append_eq part
  obtain ⟨n', hpart', hn'⟩ := strip_append_eq part'
  rw [h] at hn hpart
  obtain rfl : n = n' := by omega
  exact hpart.trans hpart'.symm

/-- The equality is exact on two ids iff they do not agree but for zeros and still have parts
of different lengths. -/
theorem equals_exact_iff (x y : Xid) :
    (equals (some x) (some y) = true ↔ x = y) ↔
      (Alike x y → x.globalTransactionId.length = y.globalTransactionId.length ∧
        x.branchQualifier.length = y.branchQualifier.length) := by
  rw [equals_iff_alike]
  constructor
  · intro hexact halike
    rw [hexact.mp halike]
    exact ⟨rfl, rfl⟩
  · intro hlengths
    refine ⟨fun halike => ?_, fun heq => heq ▸ ⟨rfl, rfl, rfl⟩⟩
    obtain ⟨hglobal, hbranch⟩ := hlengths halike
    rw [mk.injEq]
    exact ⟨halike.1, eq_of_strip halike.2.1 hglobal, eq_of_strip halike.2.2 hbranch⟩

/-- Two ids with one byte of global transaction id, the second followed by a zero. -/
theorem equals_trailing_zero :
    equals (some ⟨0, [7], [], by decide, by decide⟩) (some ⟨0, [7, 0], [], by decide, by decide⟩) =
      true ∧
    (⟨0, [7], [], by decide, by decide⟩ : Xid) ≠ ⟨0, [7, 0], [], by decide, by decide⟩ := by
  decide

end Xid

/-- `commands::XATransactionId`. -/
structure XATransactionId where
  formatId : Int
  globalTransactionId : List UInt8
  branchQualifier : List UInt8
deriving DecidableEq, Repr

/-- `XATransactionId(const cms::Xid*)`. A part within its bound is copied whole,
so the constructor's `-1` branches are unreachable for an `Xid`. -/
def XATransactionId.ofXid (xid : Xid) : XATransactionId where
  formatId := xid.formatId
  globalTransactionId := xid.globalTransactionId
  branchQualifier := xid.branchQualifier

/-- `commands::TransactionId`; the connection id of a local one is fixed. -/
inductive TransactionId where
  | local (value : Nat)
  | xa (id : XATransactionId)
deriving DecidableEq, Repr

def TransactionId.isLocalTransactionId : TransactionId → Bool
  | .local _ => true
  | .xa _ => false

def TransactionId.isXATransactionId : TransactionId → Bool
  | .local _ => false
  | .xa _ => true

/-! ## Commands, replies and the log -/

/-- `ActiveMQConstants::TransactionState`. -/
inductive TransactionState where
  | begin
  | prepare
  | commitOnePhase
  | commitTwoPhase
  | rollback
  | recover
  | forget
  | end
deriving DecidableEq, Repr

/-- `commands::TransactionInfo`. -/
structure TransactionInfo where
  transactionId : TransactionId
  type : TransactionState
deriving DecidableEq, Repr

/-- A response that is no `ExceptionResponse`. -/
inductive Response where
  | plain
  | integer (result : Int)
deriving DecidableEq, Repr

/-- How the transport ends a request. -/
inductive Reply where
  /-- `checkClosedOrFailed` throws, nothing is sent. -/
  | closed (e : Exn)
  /-- The transport throws, or the broker answers with an `ExceptionResponse`. -/
  | raised (e : Exn)
  | answered (response : Response)
deriving DecidableEq, Repr

/-- A synchronization object, by identity. -/
abbrev Synchronization := Nat

/-- How a transaction ended, as its synchronizations hear of it. -/
inductive Completion where
  | commit
  | rollback
deriving DecidableEq, Repr

inductive Event where
  /-- `addSynchronization`, with the transaction it was called in. -/
  | registered (transactionId : Option TransactionId) (sync : Synchronization)
  /-- `removeSynchronization`, with the transaction it was called in. -/
  | removed (transactionId : Option TransactionId) (sync : Synchronization)
  /-- A command given to the transport; `none` when the exchange failed. -/
  | sent (info : TransactionInfo) (answer : Option Response)
  /-- `afterCommit` or `afterRollback` of one synchronization. -/
  | after (completion : Completion) (sync : Synchronization)
deriving DecidableEq, Repr

/-- Whatever the environment does during one call. -/
structure Faults where
  /-- What a `beforeEnd` callback throws. `commit` can notify twice, once itself
  and once through `rollback`: the first argument tells the passes apart. -/
  beforeEnd : Nat → Synchronization → Option Exn
  /-- The connection is closed: its `getConnectionInfo` throws. -/
  closed : Bool
  /-- `checkClosedOrFailed` and `ensureConnectionInfoSent`. -/
  check : Option Exn
  /-- The one-way send of a `BEGIN`. -/
  oneway : Option Exn
  /-- The one synchronous request a call makes. -/
  request : Reply

/-- Nothing fails, the broker answers `response`. -/
def Faults.none (response : Response) : Faults where
  beforeEnd _ _ := Option.none
  closed := false
  check := Option.none
  oneway := Option.none
  request := .answered response

/-! ## The context -/

/-- `TxContextData` and the synchronization set; `lastLocalTransactionId` is the
connection's sequence generator. -/
structure Context where
  transactionId : Option TransactionId
  associatedXid : Option Xid
  synchronizations : List Synchronization
  lastLocalTransactionId : Nat
  log : List Event

namespace Context

/-- A new context. -/
def init : Context := ⟨none, none, [], 0, []⟩

def isInTransaction (s : Context) : Bool := s.transactionId.isSome

def isInLocalTransaction (s : Context) : Bool :=
  s.transactionId.any TransactionId.isLocalTransactionId

def isInXATransaction (s : Context) : Bool :=
  s.transactionId.any TransactionId.isXATransactionId

def note (s : Context) (e : Event) : Context := { s with log := e :: s.log }

/-- `addSynchronization`: the set keeps one copy. -/
def addSynchronization (s : Context) (sync : Synchronization) : Context :=
  { s with
    synchronizations :=
      if sync ∈ s.synchronizations then s.synchronizations
      else s.synchronizations ++ [sync]
    log := .registered s.transactionId sync :: s.log }

def removeSynchronization (s : Context) (sync : Synchronization) : Context :=
  { s with
    synchronizations := s.synchronizations.filter (· ≠ sync)
    log := .removed s.transactionId sync :: s.log }

/-- `ActiveMQConnection::syncRequest`: whatever goes wrong leaves as an
`ActiveMQException`. -/
def syncRequest (s : Context) (info : TransactionInfo) : Reply → Context × Except Exn Response
  | .closed e => (s, .error e.toActiveMQ)
  | .raised e => (s.note (.sent info none), .error e.toActiveMQ)
  | .answered response => (s.note (.sent info (some response)), .ok response)

/-- `ActiveMQConnection::oneway`. -/
def oneway (s : Context) (info : TransactionInfo) : Option Exn → Context × Except Exn Unit
  | some e => (s, .error e.toActiveMQ)
  | none => (s.note (.sent info (some .plain)), .ok ())

/-- `beforeEnd`: the callbacks in turn, up to the first that throws. -/
def beforeEnd (s : Context) (throws : Synchronization → Option Exn) : Except Exn Unit :=
  match s.synchronizations.findSome? throws with
  | some e => .error e
  | none => .ok ()

/-- The loop of `afterCommit` and `afterRollback`: every callback in turn, then
the set is cleared (`Finally`). -/
def notifyAfter (completion : Completion) (s : Context) : Context :=
  { s with
    synchronizations := []
    log := s.synchronizations.reverse.map (Event.after completion) ++ s.log }

def afterCommit (s : Context) : Context := s.notifyAfter .commit

def afterRollback (s : Context) : Context := s.notifyAfter .rollback

/-! ### Local transactions -/

def begin (f : Faults) (s : Context) : Context × Except Exn Unit :=
  if s.isInXATransaction then (s, .error (.cms .transactionInProgress))
  else if s.isInTransaction then (s, .ok ())
  -- the connection's id is asked for before its next number
  else if f.closed then ({ s with synchronizations := [] }, .error .activemq)
  else
    let id := TransactionId.local (s.lastLocalTransactionId + 1)
    let s := { s with
      synchronizations := []
      lastLocalTransactionId := s.lastLocalTransactionId + 1 }
    match s.oneway ⟨id, .begin⟩ f.oneway with
    | (s, .error e) => (s, .error e.surface)
    | (s, .ok ()) => ({ s with transactionId := some id }, .ok ())

/-- What `rollback` does once the callbacks have been notified. -/
def rollbackRequest (f : Faults) (s : Context) : Context × Except Exn Unit :=
  match s.transactionId with
  | none => (s, .ok ())
  | some id =>
    if f.closed then (s, .error .activemq)
    else
      -- the id is cleared before the command is sent
      match { s with transactionId := none }.syncRequest ⟨id, .rollback⟩ f.request with
      | (s, .error e) => (s, .error e.surface)
      | (s, .ok _) => (s.afterRollback, .ok ())

/-- `rollback()`, whose `beforeEnd` notification is the call's `pass`-th. -/
def rollback (f : Faults) (pass : Nat) (s : Context) : Context × Except Exn Unit :=
  if s.isInXATransaction then (s, .error (.cms .transactionInProgress))
  else
    match s.beforeEnd (f.beforeEnd pass) with
    | .error e =>
      -- a TransactionRolledBackException is ignored, the rest leaves rollback
      if e = .cms .transactionRolledBack then rollbackRequest f s
      else (s, .error e.surface)
    | .ok () => rollbackRequest f s

/-- What `commit` does once the callbacks have been notified. -/
def commitRequest (f : Faults) (s : Context) : Context × Except Exn Unit :=
  match s.transactionId with
  | none => (s, .ok ())
  | some id =>
    if f.closed then (s, .error .activemq)
    else
      match { s with transactionId := none }.syncRequest ⟨id, .commitOnePhase⟩ f.request with
      | (s, .ok _) => (s.afterCommit, .ok ())
      | (s, .error e) =>
        -- `catch (cms::CMSException&)` is the only clause here
        if e.isCms then (s.afterRollback, .error e.surface) else (s, .error e.surface)

def commit (f : Faults) (s : Context) : Context × Except Exn Unit :=
  if s.isInXATransaction then (s, .error (.cms .transactionInProgress))
  else
    match s.beforeEnd (f.beforeEnd 0) with
    | .error e =>
      if e.isCms then
        -- an exception of `rollback` replaces the one being handled
        let r := rollback f 1 s
        (r.1, match r.2 with
          | .error e' => .error e'
          | .ok () => .error e)
      else (s, .error e.surface)
    | .ok () => commitRequest f s

/-! ### XA branches -/

/-- `XAResource::TMSUSPEND`. -/
def tmSuspend : BitVec 32 := 0x2000000#32

/-- `XAResource::TMSUCCESS`. -/
def tmSuccess : BitVec 32 := 0x4000000#32

/-- `XAResource::TMRESUME`. -/
def tmResume : BitVec 32 := 0x8000000#32

/-- `XAResource::TMFAIL`. -/
def tmFail : BitVec 32 := 0x20000000#32

/-- `XAResource::TMJOIN`. -/
def tmJoin : BitVec 32 := 0x200000#32

/-- `XAResource::XA_RDONLY`. -/
def xaRdonly : Int := 3

/-- `XAResource::XA_OK`. -/
def xaOk : Int := 0

def setXid (f : Faults) (s : Context) (xid : Option Xid) : Context × Except Exn Unit :=
  match f.check with
  | some e => (s, .error e.toActiveMQ.toXAException)
  | none =>
    match xid with
    | some xid =>
      let id := TransactionId.xa (.ofXid xid)
      let s := { s with associatedXid := some xid, transactionId := some id }
      match s.oneway ⟨id, .begin⟩ f.oneway with
      | (s, .error e) => (s, .error e.toXAException)
      | (s, .ok ()) => (s, .ok ())
    | none =>
      match s.transactionId with
      | some id =>
        match s.syncRequest ⟨id, .end⟩ f.request with
        | (s, .error e) => (s, .error e.cmsToXAException)
        | (s, .ok _) => ({ s with associatedXid := none, transactionId := none }, .ok ())
      | none => ({ s with associatedXid := none, transactionId := none }, .ok ())

/-- The tests at the head of `start`. -/
def startRefusal (s : Context) (flags : BitVec 32) : Option Exn :=
  if s.isInLocalTransaction then some (.cms (.xa Exn.xaerProto))
  else if s.associatedXid.isSome then some (.xaPointer Exn.xaerProto)
  -- suspend and resume are not supported
  else if flags &&& tmJoin = tmJoin then some (.cms (.xa 0))
  else if flags &&& tmResume = tmResume then some (.cms (.xa 0))
  else none

/-- `start(xid, flags)`. -/
def start (f : Faults) (s : Context) (xid : Option Xid) (flags : BitVec 32) :
    Context × Except Exn Unit :=
  match s.startRefusal flags with
  | some e => (s, .error e)
  | none => { s with synchronizations := [] }.setXid f xid

/-- `end(xid, flags)`. -/
def «end» (f : Faults) (s : Context) (xid : Option Xid) (flags : BitVec 32) :
    Context × Except Exn Unit :=
  if s.isInLocalTransaction then (s, .error (.cms (.xa Exn.xaerProto)))
  else if flags &&& (tmSuspend ||| tmFail) ≠ 0 then
    if Xid.equals s.associatedXid xid then endAssociated
    else (s, .error (.cms (.xa Exn.xaerProto)))
  else if flags &&& tmSuccess = tmSuccess then
    -- the end of a branch that is not associated may be an asynchronous call
    if Xid.equals s.associatedXid xid then endAssociated else (s, .ok ())
  else (s, .error (.cms (.xa Exn.xaerInval)))
where
  endAssociated : Context × Except Exn Unit :=
    match s.beforeEnd (f.beforeEnd 0) with
    | .error e => (s, .error e.toXAException)
    | .ok () => s.setXid f none

/-- `prepare(xid)`. -/
def prepare (f : Faults) (s : Context) (xid : Option Xid) : Context × Except Exn Int :=
  match xid with
  | none => (s, .error (.cms (.xa Exn.xaerProto)))
  | some x =>
    if Xid.equals s.associatedXid xid then (s, .error (.cms (.xa Exn.xaerProto)))
    else
      match s.syncRequest ⟨.xa (.ofXid x), .prepare⟩ f.request with
      | (s, .ok (.integer result)) =>
        -- a read-only branch ends here
        if result = xaRdonly then (s.afterCommit, .ok result) else (s, .ok result)
      -- the cast to IntegerResponse throws a ClassCastException
      | (s, .ok .plain) => (s.afterRollback, .error Exn.decaf.toXAException)
      | (s, .error e) => (s.afterRollback, .error e.toXAException)

/-- `commit(xid, onePhase)`. -/
def commitXid (f : Faults) (s : Context) (xid : Option Xid) (onePhase : Bool) :
    Context × Except Exn Unit :=
  match xid with
  | none => (s, .error (.cms (.xa Exn.xaerProto)))
  | some x =>
    if Xid.equals s.associatedXid xid then (s, .error (.cms (.xa Exn.xaerProto)))
    else
      match f.check with
      | some e => (s.afterRollback, .error e.toActiveMQ.toXAException)
      | none =>
        -- both arms of the source's conditional name the one-phase commit
        let type := if onePhase then TransactionState.commitOnePhase else .commitOnePhase
        match s.syncRequest ⟨.xa (.ofXid x), type⟩ f.request with
        | (s, .ok _) => (s.afterCommit, .ok ())
        | (s, .error e) => (s.afterRollback, .error e.toXAException)

/-- The branch that `rollback(xid)` and `forget(xid)` name: the associated one by
the context's own id, whose cast throws when it is no XA id. -/
def branchId (s : Context) (xid : Xid) : Except Exn XATransactionId :=
  if Xid.equals s.associatedXid (some xid) then
    match s.transactionId with
    | some (.xa id) => .ok id
    | _ => .error .decaf
  else .ok (.ofXid xid)

/-- `rollback(xid)`. -/
def rollbackXid (f : Faults) (s : Context) (xid : Option Xid) : Context × Except Exn Unit :=
  match xid with
  | none => (s, .error (.cms (.xa Exn.xaerProto)))
  | some xid =>
    match s.branchId xid with
    | .error e => (s, .error e)
    | .ok id =>
      match f.check with
      | some e => (s, .error e.toActiveMQ.toXAException)
      | none =>
        match s.syncRequest ⟨.xa id, .rollback⟩ f.request with
        | (s, .error e) => (s, .error e.toXAException)
        | (s, .ok _) => (s.afterRollback, .ok ())

/-- `forget(xid)`. -/
def forget (f : Faults) (s : Context) (xid : Option Xid) : Context × Except Exn Unit :=
  match xid with
  | none => (s, .error (.cms (.xa Exn.xaerProto)))
  | some xid =>
    match s.branchId xid with
    | .error e => (s, .error e)
    | .ok id =>
      if f.closed then (s, .error .activemq)
      else
        match s.syncRequest ⟨.xa id, .forget⟩ f.request with
        | (s, .error e) => (s, .error e.toXAException)
        | (s, .ok _) => (s, .ok ())

end Context

/-! ## The set of synchronizations and its callbacks -/

section Adjoin

variable {α : Type} {xs : List α} {a : α} [Decidable (a ∈ xs)]

theorem mem_adjoin {x : α} : x ∈ (if a ∈ xs then xs else xs ++ [a]) ↔ x ∈ xs ∨ x = a := by
  split
  · next hin => exact ⟨Or.inl, fun h => h.elim id fun hx => hx ▸ hin⟩
  · simp

theorem nodup_adjoin (h : xs.Nodup) : (if a ∈ xs then xs else xs ++ [a]).Nodup := by
  split
  · exact h
  · next hnew =>
    exact h.append (nodup_singleton a) (disjoint_singleton.mpr hnew)

end Adjoin

theorem count_map_after (syncs : List Synchronization) (o o' : Completion)
    (sync : Synchronization) :
    (syncs.map (Event.after o)).count (.after o' sync) =
      if o' = o then syncs.count sync else 0 := by
  split
  · next heq =>
    subst heq
    exact count_map_of_injective _ _ (fun a b h => by injection h) sync
  · next hne =>
    rw [count_eq_zero]
    intro hmem
    obtain ⟨_, -, heq⟩ := mem_map.mp hmem
    injection heq with ho
    exact hne ho.symm

end ActivemqCpp.Core.Tx
