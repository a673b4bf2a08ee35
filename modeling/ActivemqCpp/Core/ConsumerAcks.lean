import ActivemqCpp.Core.ConsumerKernel
import ActivemqCpp.Core.PreviouslyDelivered

/-!
# How a consumer acknowledges

`ActiveMQConsumerKernel` once more, with everything that decides which acknowledgements it
sends: the list of delivered messages, newest first, the pending acknowledgement with its
counter, the flag and the task of `deliverAcks`, and what a failover leaves behind. What the
consumer shares with its session and its connection is the `ConsumerKernel` it extends.

* **Modes** — one consumer for every acknowledgement mode; `beforeMessageIsConsumed` and
  `afterMessageIsConsumed` branch on it as the source does.
* **Sends** — an acknowledgement that is sent is kept in `sent`, newest first. Sends do not
  fail here; the calls of the audit may throw, and `rollback` ends where they do.
-/

namespace ActivemqCpp.Core

open Base Commands Decaf

/-- `ActiveMQConstants::AckType`. -/
inductive AckType where
  | delivered
  | poison
  | consumed
  | redelivered
  | individual
  | unmatched
  | expired
deriving DecidableEq, Repr

/-- `commands::MessageAck`. -/
structure MessageAck where
  ackType : AckType
  firstMessageId : Option MessageId
  lastMessageId : MessageId
  messageCount : Int
deriving DecidableEq, Repr

namespace MessageAck

/-- `MessageAck(dispatch, ackType, messageCount)`. -/
def ofDispatch (dispatch : MessageDispatch) (ackType : AckType) (messageCount : Int) : MessageAck :=
  ⟨ackType, none, dispatch.messageId, messageCount⟩

def isStandardAck (ack : MessageAck) : Bool := ack.ackType = .consumed

def isDeliveredAck (ack : MessageAck) : Bool := ack.ackType = .delivered

def isExpiredAck (ack : MessageAck) : Bool := ack.ackType = .expired

/-- An acknowledgement of all the given messages, newest first. -/
def ofAll (ackType : AckType) : List MessageDispatch → Option MessageAck
  | [] => none
  | newest :: older =>
    some { ofDispatch newest ackType (older.length + 1) with
      firstMessageId := some ((newest :: older).getLast (List.cons_ne_nil newest older)).messageId }

end MessageAck

/-- The id of the message, as the keys of a hash map see it. -/
def MessageDispatch.idPointer (dispatch : MessageDispatch) : MessageIdPointer :=
  ⟨dispatch.address, dispatch.messageId⟩

/-- What is fixed when the consumer is created. Only a consumer that acknowledges
automatically and is no browser optimizes its acknowledgements. -/
structure AckSettings extends ConsumerSettings where
  browser : Bool
  transactedIndividualAck : Bool
  optimizes_auto : optimizeAcknowledge = true → ackMode = .auto ∧ browser = false

/-- The consumer with all that decides about its acknowledgements. -/
structure Consumer (cfg : AckSettings) extends ConsumerKernel where
  /-- `unconsumedMessages->isClosed()`. -/
  closed : Bool
  pendingAck : Option MessageAck
  deliveredCounter : Int
  additionalWindowSize : Int
  deliveringAcks : Bool
  /-- The `AsyncMessageAckTask` that waits for the executor. -/
  ackTask : Option MessageAck
  /-- Set when the transport is interrupted. -/
  isClearDeliveredList : Bool
  previouslyDelivered : Option PreviouslyDeliveredMap
  /-- The acknowledgements sent so far, newest first. -/
  sent : List MessageAck
  recovering_transacted : previouslyDelivered ≠ none → cfg.isTransacted = true

namespace Consumer

variable {cfg : AckSettings}

/-- A new consumer of a new connection. -/
def new (cfg : AckSettings) (auditDepth : Nat) (maxProducers : Int) : Consumer cfg where
  toConsumerKernel := .new cfg.toConsumerSettings auditDepth maxProducers
  closed := false
  pendingAck := none
  deliveredCounter := 0
  additionalWindowSize := 0
  deliveringAcks := false
  ackTask := none
  isClearDeliveredList := false
  previouslyDelivered := none
  sent := []
  recovering_transacted := fun h => absurd rfl h

/-- `session->sendAck(ack)`. -/
def sendAck (s : Consumer cfg) (ack : MessageAck) : Consumer cfg := { s with sent := ack :: s.sent }

/-- `makeAckForAllDeliveredMessages(type)`. -/
def makeAckForAllDeliveredMessages (type : AckType) (s : Consumer cfg) : Option MessageAck :=
  MessageAck.ofAll type s.deliveredMessages

/-- `isTimeForOptimizedAck(prefetchSize)`; the clock decides whether the time-out has passed. -/
def isTimeForOptimizedAck (timedOut : Bool) (s : Consumer cfg) : Bool :=
  13 * (cfg.prefetchSize : Int) ≤ 20 * (s.ackCounter + s.deliveredCounter) || timedOut

/-! ## Acknowledging later -/

/-- The acknowledgement that supersedes the pending one: it starts where the old one started
if they are of one type. -/
def supersede (pendingAck : Option MessageAck) (ack : MessageAck) : MessageAck :=
  match pendingAck with
  | none => { ack with firstMessageId := some ack.lastMessageId }
  | some old =>
    if old.ackType = ack.ackType then { ack with firstMessageId := old.firstMessageId } else ack

/-- What must not be lost when it is superseded by another type. -/
def superseded (pendingAck : Option MessageAck) (ack : MessageAck) : List MessageAck :=
  match pendingAck with
  | none => []
  | some old => if old.ackType = ack.ackType ∨ old.isDeliveredAck then [] else [old]

/-- `ackLater(dispatch, ackType)`. -/
def ackLater (dispatch : MessageDispatch) (ackType : AckType) (s : Consumer cfg) : Consumer cfg :=
  let counter := s.deliveredCounter + 1
  let ack := MessageAck.ofDispatch dispatch ackType counter
  let pending := supersede s.pendingAck ack
  let sent := superseded s.pendingAck ack ++ s.sent
  -- `0.5 * prefetchSize <= pendingAcks`
  if (cfg.prefetchSize : Int) ≤ 2 * (counter + s.ackCounter - s.additionalWindowSize) then
    { s with
      sent := pending :: sent
      pendingAck := none
      deliveredCounter := 0
      additionalWindowSize := 0 }
  else { s with sent := sent, pendingAck := some pending, deliveredCounter := counter }

/-! ## Consuming a message -/

/-- `immediateIndividualTransactedAck(dispatch)`. -/
def immediateIndividualTransactedAck (dispatch : MessageDispatch) (s : Consumer cfg) :
    Consumer cfg :=
  s.sendAck (MessageAck.ofDispatch dispatch .individual 1)

def beforeMessageIsConsumed (dispatch : MessageDispatch) (s : Consumer cfg) : Consumer cfg :=
  if cfg.isAutoAcknowledgeBatch then s
  else
    let s := { s with deliveredMessages := dispatch :: s.deliveredMessages }
    if cfg.isTransacted then
      if cfg.transactedIndividualAck then s.immediateIndividualTransactedAck dispatch
      else s.ackLater dispatch .delivered
    else s

/-- `acknowledge(dispatch, ackType)`. -/
def acknowledgeOne (dispatch : MessageDispatch) (ackType : AckType) (s : Consumer cfg) :
    Consumer cfg :=
  let ack := MessageAck.ofDispatch dispatch ackType 1
  let ack := if ack.isExpiredAck then { ack with firstMessageId := some ack.lastMessageId } else ack
  { s.sendAck ack with deliveredMessages := s.deliveredMessages.erase dispatch }

/-- The acknowledgement of everything delivered, sent at once. -/
def ackDelivered (s : Consumer cfg) : Consumer cfg :=
  match s.makeAckForAllDeliveredMessages .consumed with
  | none => s
  | some ack => { s with deliveredMessages := [] }.sendAck ack

/-- The optimized acknowledgement, when it is time for it, and after it the pending one. -/
def optimizedAck (s : Consumer cfg) : Consumer cfg :=
  let s :=
    match s.makeAckForAllDeliveredMessages .consumed with
    | none => s
    | some ack => { s with deliveredMessages := [], ackCounter := 0 }.sendAck ack
  match s.pendingAck with
  | none => s
  | some ack =>
    if s.deliveredCounter > 0 then { s.sendAck ack with pendingAck := none, deliveredCounter := 0 }
    else s

/-- `afterMessageIsConsumed(message, messageExpired)`. -/
def afterMessageIsConsumed (timedOut : Bool) (dispatch : MessageDispatch) (messageExpired : Bool)
    (s : Consumer cfg) : Consumer cfg :=
  if s.closed then s
  else if messageExpired then s.acknowledgeOne dispatch .expired
  else if cfg.isTransacted then s
  else if cfg.isAutoAcknowledgeEach then
    -- an acknowledgement that is still being delivered leaves the message in the list
    if s.deliveringAcks || s.deliveredMessages.isEmpty then s
    else if cfg.optimizeAcknowledge then
      let s := { s with ackCounter := s.ackCounter + 1 }
      if s.isTimeForOptimizedAck timedOut then s.optimizedAck else s
    else s.ackDelivered
  else if cfg.isAutoAcknowledgeBatch then s.ackLater dispatch .consumed
  else if dispatch ∈ s.deliveredMessages then s.ackLater dispatch .delivered
  else s

/-! ## `deliverAcks` -/

/-- What `deliverAcks` has to deliver, and the consumer without it. -/
def takeAck (s : Consumer cfg) : Option MessageAck × Consumer cfg :=
  if cfg.isAutoAcknowledgeEach then
    match s.makeAckForAllDeliveredMessages .consumed with
    | some ack => (some ack, { s with deliveredMessages := [], ackCounter := 0 })
    | none => (s.pendingAck, { s with pendingAck := none })
  else if s.pendingAck.any MessageAck.isStandardAck then
    (s.pendingAck, { s with pendingAck := none })
  else (none, s)

/-- `deliverAcks()`: the acknowledgement is given to the executor. -/
def deliverAcks (s : Consumer cfg) : Consumer cfg :=
  if s.deliveringAcks then s
  else
    match s.takeAck with
    | (some ack, s) => { s with deliveringAcks := true, ackTask := some ack }
    | (none, s) => s

/-- `AsyncMessageAckTask::run`, when one was submitted. -/
def runAckTask (s : Consumer cfg) : Consumer cfg :=
  match s.ackTask with
  | none => s
  | some ack => { s.sendAck ack with ackTask := none, deliveringAcks := false }

/-! ## What a failover leaves behind -/

/-- `rollbackDuplicate` of the messages in turn, up to a call that throws. -/
def rollbackDuplicates : ConnectionAudit Unit → List MessageDispatch →
    ConnectionAudit Unit × Except Exn Unit
  | audit, [] => (audit, .ok ())
  | audit, dispatch :: rest =>
    match ConsumerKernel.rollbackDuplicate audit dispatch with
    | (audit, .error e) => (audit, .error e)
    | (audit, .ok ()) => rollbackDuplicates audit rest

/-- `clearDeliveredList()`, after an interruption of the transport. A transacted consumer
keeps the list and notes what it has to see again; the others forget it. -/
def clearDeliveredList (s : Consumer cfg) : Consumer cfg × Except Exn Unit :=
  if s.isClearDeliveredList then
    if s.deliveredMessages.isEmpty then ({ s with isClearDeliveredList := false }, .ok ())
    else if htransacted : cfg.isTransacted = true then
      ({ s with
        previouslyDelivered := some (s.deliveredMessages.foldl
          (fun map dispatch => PreviouslyDeliveredMap.put map dispatch.idPointer false)
          (s.previouslyDelivered.getD []))
        isClearDeliveredList := false
        recovering_transacted := fun _ => htransacted }, .ok ())
    else
      let (audit, result) :=
        if (cfg.ackMode = .client ∨ cfg.ackMode = .individual) ∧ cfg.browser = false then
          rollbackDuplicates s.connectionAudit s.deliveredMessages
        else (s.connectionAudit, .ok ())
      match result with
      | .error e => ({ s with connectionAudit := audit }, .error e)
      | .ok () =>
        ({ s with
          connectionAudit := audit
          deliveredMessages := []
          pendingAck := none
          isClearDeliveredList := false }, .ok ())
  else (s, .ok ())

/-- `removeFromDeliveredMessages(key)`: the newest message of that id. -/
def removeFromDeliveredMessages (key : MessageId) : ConnectionAudit Unit → List MessageDispatch →
    ConnectionAudit Unit × List MessageDispatch × Except Exn Unit
  | audit, [] => (audit, [], .ok ())
  | audit, candidate :: rest =>
    if candidate.messageId = key then
      match ConsumerKernel.rollbackDuplicate audit candidate with
      | (audit, .error e) => (audit, candidate :: rest, .error e)
      | (audit, .ok ()) => (audit, rest, .ok ())
    else
      let (audit, rest, result) := removeFromDeliveredMessages key audit rest
      (audit, candidate :: rest, result)

/-- The loop of `rollbackPreviouslyDeliveredAndNotRedelivered`. -/
def removeNotRedelivered : PreviouslyDeliveredMap → ConnectionAudit Unit → List MessageDispatch →
    ConnectionAudit Unit × List MessageDispatch × Except Exn Unit
  | [], audit, delivered => (audit, delivered, .ok ())
  | (id, replayed) :: map, audit, delivered =>
    if replayed then removeNotRedelivered map audit delivered
    else
      match removeFromDeliveredMessages id.messageId audit delivered with
      | (audit, delivered, .error e) => (audit, delivered, .error e)
      | (audit, delivered, .ok ()) => removeNotRedelivered map audit delivered

/-- `rollbackPreviouslyDeliveredAndNotRedelivered()`. -/
def rollbackPreviouslyDeliveredAndNotRedelivered (s : Consumer cfg) :
    Consumer cfg × Except Exn Unit :=
  match s.previouslyDelivered with
  | none => (s, .ok ())
  | some map =>
    match removeNotRedelivered map s.connectionAudit s.deliveredMessages with
    | (audit, delivered, .error e) =>
      ({ s with connectionAudit := audit, deliveredMessages := delivered }, .error e)
    | (audit, delivered, .ok ()) =>
      ({ s with
        connectionAudit := audit
        deliveredMessages := delivered
        previouslyDelivered := none
        recovering_transacted := fun h => absurd rfl h }, .ok ())

/-! ## `rollback` -/

/-- The loop that drops the messages read but not acknowledged yet. -/
def discardOptimized (s : Consumer cfg) : Consumer cfg × Except Exn Unit :=
  if cfg.optimizeAcknowledge && !cfg.browser then
    let (audit, delivered, result) := ConsumerKernel.rollbackOptimized s.ackCounter
      s.deliveredMessages.length 0 s.connectionAudit s.deliveredMessages
    ({ s with connectionAudit := audit, deliveredMessages := delivered }, result)
  else (s, .ok ())

/-- The POISON acknowledgement of all delivered messages, the newest of which leads. -/
def poisonDelivered (s : Consumer cfg) : Consumer cfg :=
  match MessageAck.ofAll .poison s.deliveredMessages with
  | none => s
  | some ack =>
    { s.sendAck ack with
      toConsumerKernel := s.toConsumerKernel.poisonDelivered
      additionalWindowSize := max 0 (s.additionalWindowSize - s.deliveredMessages.length)
      deliveredCounter := s.deliveredCounter - s.deliveredMessages.length }

/-- The REDELIVERED acknowledgement, for messages that were delivered before. -/
def redeliveredAck (currentRedeliveryCount : Int) (s : Consumer cfg) : Consumer cfg :=
  if currentRedeliveryCount > 0 then
    match MessageAck.ofAll .redelivered s.deliveredMessages with
    | none => s
    | some ack => s.sendAck ack
  else s

/-- The delivered messages are scheduled again, or put back in front of the others. -/
def redeliver (o : Outcome) (s : Consumer cfg) : Consumer cfg :=
  if s.closed then
    if cfg.nonBlockingRedelivery then s
    else
      { s with
        unconsumedMessages :=
          s.deliveredMessages.foldl (fun q d => q.enqueueFirst d) s.unconsumedMessages.stop
        deliveredMessages := []
        deliveredCounter := s.deliveredCounter - s.deliveredMessages.length }
  else
    { s with
      toConsumerKernel := s.toConsumerKernel.redeliver cfg.toConsumerSettings o
      deliveredCounter := s.deliveredCounter - s.deliveredMessages.length }

/-- The newest message was delivered more often than the policy allows. -/
def exceedsLimit (cfg : AckSettings) (delivered : List MessageDispatch) : Prop :=
  cfg.maximumRedeliveries ≠ ConsumerSettings.noMaximumRedeliveries ∧
    ∃ last ∈ delivered.head?, last.messageRedeliveryCounter > cfg.maximumRedeliveries

instance (cfg : AckSettings) (delivered : List MessageDispatch) :
    Decidable (exceedsLimit cfg delivered) := by
  unfold exceedsLimit
  infer_instance

/-- The messages, with their counters raised, are given up or redelivered. -/
def applyPolicy (o : Outcome) (currentRedeliveryCount : Int) (s : Consumer cfg) : Consumer cfg :=
  if exceedsLimit cfg s.deliveredMessages then s.poisonDelivered
  else (s.redeliveredAck currentRedeliveryCount).redeliver o

/-- `session->redispatch(unconsumedMessages)`, when there is a listener. -/
def toListener (s : Consumer cfg) : Consumer cfg :=
  if s.listener then { s with toConsumerKernel := s.toConsumerKernel.redispatch } else s

/-- The consumer after the loop that raises the counters and calls the audit. -/
def rolledBack (s : Consumer cfg) (audit : ConnectionAudit Unit)
    (delivered : List MessageDispatch) : Consumer cfg :=
  { s with
    connectionAudit := audit
    deliveredMessages := delivered
    journal := { s.journal with
      rolledBack := s.deliveredMessages.map (·.messageId) ++ s.journal.rolledBack } }

/-- `rollback()` from where the messages to redeliver are known. -/
def rollbackDelivered (o : Outcome) (s : Consumer cfg) : Consumer cfg × Except Exn Unit :=
  match s.deliveredMessages with
  | [] => (s, .ok ())
  | lastMsg :: _ =>
    match ConsumerKernel.rollbackEach s.connectionAudit s.deliveredMessages with
    | (audit, delivered, .error e) => (s.rolledBack audit delivered, .error e)
    | (audit, delivered, .ok ()) =>
      (((s.rolledBack audit delivered).applyPolicy o lastMsg.messageRedeliveryCounter).toListener,
        .ok ())

/-- What `rollback()` does before the messages to redeliver are known. -/
def prepareRollback (s : Consumer cfg) : Consumer cfg × Except Exn Unit :=
  match s.clearDeliveredList with
  | (s, .error e) => (s, .error e)
  | (s, .ok ()) =>
    match s.discardOptimized with
    | (s, .error e) => (s, .error e)
    | (s, .ok ()) => s.rollbackPreviouslyDeliveredAndNotRedelivered

/-- `rollback()`; a call of the audit that throws ends it. -/
def rollback (o : Outcome) (s : Consumer cfg) : Consumer cfg × Except Exn Unit :=
  match s.prepareRollback with
  | (s, .error e) => (s, .error e)
  | (s, .ok ()) => s.rollbackDelivered o

/-! ## Acknowledging everything, and the end of a transaction -/

/-- `acknowledge()`. In a transaction it throws when a failover was not recovered from. -/
def acknowledge (s : Consumer cfg) : Consumer cfg :=
  match s.clearDeliveredList with
  | (s, .error _) => s
  | (s, .ok ()) =>
    match s.makeAckForAllDeliveredMessages .consumed with
    | none => s
    | some ack =>
      if cfg.isTransacted && numberNotReplayed s.previouslyDelivered > 0 then s
      else
        { s.sendAck ack with
          pendingAck := none
          deliveredCounter := max 0 (s.deliveredCounter - s.deliveredMessages.length)
          additionalWindowSize := max 0 (s.additionalWindowSize - s.deliveredMessages.length)
          deliveredMessages := if cfg.isTransacted then s.deliveredMessages else [] }

def commit (s : Consumer cfg) : Consumer cfg :=
  { s with
    deliveredMessages := []
    previouslyDelivered := none
    recovering_transacted := fun h => absurd rfl h }

/-! ## Closing -/

/-- `dispose()` as far as it acknowledges. -/
def disposeAcks (s : Consumer cfg) : Consumer cfg :=
  if s.closed || cfg.isTransacted then s
  else if cfg.isAutoAcknowledgeBatch then s.deliverAcks.acknowledge
  else s.deliverAcks

/-- The rest of `dispose()`, in one step: the executor runs what it has, the list is cleared and
the channel closed. -/
def disposeChannel (s : Consumer cfg) : Consumer cfg :=
  if s.closed then s
  else
    let s := s.runAckTask
    { s with
      deliveredMessages := if cfg.isTransacted then s.deliveredMessages else []
      closed := true }

/-! ## A consumer to look at -/

/-- The defaults of a connection, without optimized acknowledgement. -/
def defaults (ackMode : AckMode) (onQueue : Bool) (prefetchSize : Nat) : AckSettings where
  ackMode := ackMode
  onQueue := onQueue
  prefetchSize := prefetchSize
  sessionAsyncDispatch := true
  messagePrioritySupported := false
  checkForDuplicates := true
  optimizeAcknowledge := false
  nonBlockingRedelivery := false
  consumerExpiryCheckEnabled := true
  maximumRedeliveries := 6
  browser := false
  transactedIndividualAck := false
  optimizes_auto := nofun

/-- Automatic and optimized acknowledgement. -/
def optimizing (prefetchSize : Nat) : AckSettings where
  toConsumerSettings :=
    { (defaults .auto true prefetchSize).toConsumerSettings with optimizeAcknowledge := true }
  browser := false
  transactedIndividualAck := false
  optimizes_auto := fun _ => ⟨rfl, rfl⟩

/-- The `n`th message of the producer, from the queue `q`. -/
def message (n : Nat) : MessageDispatch where
  address := n
  messageId := ⟨some sampleProducer, n⟩
  destination := some ⟨.queue, [0x71]⟩
  priority := 4
  redeliveryCounter := 0
  messageRedeliveryCounter := 0
  hasRedeliveryDelay := false

/-- The message is consumed. -/
def consume (dispatch : MessageDispatch) (s : Consumer cfg) : Consumer cfg :=
  (s.beforeMessageIsConsumed dispatch).afterMessageIsConsumed false dispatch false

end Consumer

end ActivemqCpp.Core
