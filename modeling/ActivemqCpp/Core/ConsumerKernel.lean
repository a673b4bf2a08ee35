import ActivemqCpp.Core.ConnectionAudit
import ActivemqCpp.Core.DispatchChannel

/-!
# A consumer, the executor of its session and the audit of its connection

The path of a message from the broker to a listener: `ActiveMQSessionExecutor` queues it
and dispatches it, `ActiveMQConsumerKernel::dispatch` tests it against the connection's
audit and then hands it to the listener, or keeps it in `unconsumedMessages`.
`setMessageListener` and `rollback` hand what is kept there back to the executor.

An event is one call that runs under the session's locks. What the code reads from the
clock, the listener and the redelivery policy's delays is the `Outcome` of the event. The
`Journal` records what has happened to each message; no modelled function reads it.
-/

namespace ActivemqCpp.Core

open Base Commands Decaf

/-- `cms::Session::AcknowledgeMode`. -/
inductive AckMode where
  | auto
  | dupsOk
  | client
  | transacted
  | individual
deriving DecidableEq, Repr

/-- What is fixed when the consumer is created. -/
structure ConsumerSettings where
  ackMode : AckMode
  /-- `consumerInfo->getDestination()->isQueue()`. -/
  onQueue : Bool
  prefetchSize : Nat
  sessionAsyncDispatch : Bool
  messagePrioritySupported : Bool
  checkForDuplicates : Bool
  optimizeAcknowledge : Bool
  nonBlockingRedelivery : Bool
  consumerExpiryCheckEnabled : Bool
  maximumRedeliveries : Int

namespace ConsumerSettings

variable (cfg : ConsumerSettings)

def isTransacted : Bool := cfg.ackMode = .transacted

def isAutoAcknowledgeEach : Bool :=
  cfg.ackMode = .auto || (cfg.ackMode = .dupsOk && cfg.onQueue)

def isAutoAcknowledgeBatch : Bool := cfg.ackMode = .dupsOk && !cfg.onQueue

/-- `RedeliveryPolicy::NO_MAXIMUM_REDELIVERIES`. -/
def noMaximumRedeliveries : Int := -1

/-- `redeliveryExceeded(dispatch)`: the broker's count of earlier deliveries decides. -/
def redeliveryExceeded (dispatch : MessageDispatch) : Bool :=
  cfg.isTransacted && cfg.maximumRedeliveries ≠ noMaximumRedeliveries &&
    dispatch.redeliveryCounter > cfg.maximumRedeliveries && !dispatch.hasRedeliveryDelay

end ConsumerSettings

/-- How a call of the listener ends. -/
inductive ListenerResult where
  | returns
  | throwsRuntimeException
  | throwsOther
deriving DecidableEq, Repr

/-- What a dispatch reads from outside. -/
structure Outcome where
  /-- `getMessage()->isExpired()`. -/
  expired : Bool
  listener : ListenerResult
  /-- `isTimeForOptimizedAck(prefetchSize)`. -/
  timeForOptimizedAck : Bool
  /-- The policy's next redelivery delay is positive. -/
  delayed : Bool

/-- Why a POISON acknowledgement is sent. -/
inductive PoisonCause where
  /-- Suppressing duplicate delivery on connection. -/
  | duplicate
  /-- The dispatch exceeds the redelivery policy's limit. -/
  | dispatchExceedsLimit
  /-- The rollback exceeds the redelivery policy's limit. -/
  | rollbackExceedsLimit
deriving DecidableEq, Repr

/-- What has happened to the messages so far. -/
structure Journal where
  /-- Dispatched by the broker. -/
  arrived : List MessageId
  /-- Given to `onMessage`. -/
  heard : List MessageId
  /-- Acknowledged as EXPIRED. -/
  expired : List MessageId
  /-- Acknowledged as POISON. -/
  poisoned : List (MessageDispatch × PoisonCause)
  rolledBack : List MessageId
  /-- Handed back to the session by `setMessageListener`. -/
  handedBack : List MessageDispatch

/-- The consumer, with the executor's queue and the connection's audit. -/
structure ConsumerKernel where
  connectionAudit : ConnectionAudit Unit
  messageQueue : DispatchChannel
  unconsumedMessages : DispatchChannel
  deliveredMessages : List MessageDispatch
  listener : Bool
  ackCounter : Nat
  /-- Scheduled `StartConsumerTask`s. -/
  startTasks : Nat
  /-- The messages of each scheduled `NonBlockingRedeliveryTask`. -/
  redeliveryTasks : List (List MessageDispatch)
  journal : Journal

namespace ConsumerKernel

variable (cfg : ConsumerSettings)

def newChannel : DispatchChannel :=
  if cfg.messagePrioritySupported then .simplePriority else .fifo

/-- A new consumer without a listener, in a session that is not started. -/
def new (auditDepth : Nat) (maxProducers : Int) : ConsumerKernel where
  connectionAudit := .new auditDepth maxProducers
  messageQueue := newChannel cfg
  unconsumedMessages := newChannel cfg
  deliveredMessages := []
  listener := false
  ackCounter := 0
  startTasks := 0
  redeliveryTasks := []
  journal := ⟨[], [], [], [], [], []⟩

/-- `ActiveMQConnection::isDuplicate`. -/
def isDuplicate (dispatch : MessageDispatch) (s : ConsumerKernel) :
    ConnectionAudit Unit × Except Exn Bool :=
  if cfg.checkForDuplicates then
    s.connectionAudit.isDuplicate () dispatch.destination (some dispatch.messageId)
  else (s.connectionAudit, .ok false)

/-- `ActiveMQConnection::rollbackDuplicate`. -/
def rollbackDuplicate (audit : ConnectionAudit Unit) (dispatch : MessageDispatch) :
    ConnectionAudit Unit × Except Exn Unit :=
  audit.rollbackDuplicate () dispatch.destination (some dispatch.messageId)

/-- `posionAck(dispatch, cause)`. -/
def poisonAck (dispatch : MessageDispatch) (cause : PoisonCause) (s : ConsumerKernel) :
    ConsumerKernel :=
  { s with journal.poisoned := (dispatch, cause) :: s.journal.poisoned }

def beforeMessageIsConsumed (dispatch : MessageDispatch) (s : ConsumerKernel) : ConsumerKernel :=
  if cfg.isAutoAcknowledgeBatch then s
  else { s with deliveredMessages := dispatch :: s.deliveredMessages }

/-- `afterMessageIsConsumed(message, expired)`; `ackLater` changes nothing modelled. -/
def afterMessageIsConsumed (o : Outcome) (dispatch : MessageDispatch) (expired : Bool)
    (s : ConsumerKernel) : ConsumerKernel :=
  if expired then
    { s with
      deliveredMessages := s.deliveredMessages.erase dispatch
      journal.expired := dispatch.messageId :: s.journal.expired }
  else if cfg.isTransacted then s
  else if cfg.isAutoAcknowledgeEach && !s.deliveredMessages.isEmpty then
    if cfg.optimizeAcknowledge then
      if o.timeForOptimizedAck then { s with deliveredMessages := [], ackCounter := 0 }
      else { s with ackCounter := s.ackCounter + 1 }
    else { s with deliveredMessages := [] }
  else s

/-- `ActiveMQSessionKernel::redispatch`: back to the front of the executor's queue. -/
def redispatch (s : ConsumerKernel) : ConsumerKernel :=
  { s with
    messageQueue :=
      s.unconsumedMessages.messages.foldr (fun d q => q.enqueueFirst d) s.messageQueue
    unconsumedMessages := s.unconsumedMessages.clear }

/-! ## `rollback` -/

/-- The first loop of `rollback`: it counts up while `removeLast` shortens the list. -/
def rollbackOptimized (ackCounter : Nat) : (fuel i : Nat) → ConnectionAudit Unit →
    List MessageDispatch → ConnectionAudit Unit × List MessageDispatch × Except Exn Unit
  | 0, _, audit, delivered => (audit, delivered, .ok ())
  | fuel + 1, i, audit, delivered =>
    match delivered.getLast? with
    | none => (audit, delivered, .ok ())
    | some last =>
      if i < delivered.length ∧ i < ackCounter then
        match rollbackDuplicate audit last with
        | (audit, .error e) => (audit, delivered.dropLast, .error e)
        | (audit, .ok ()) =>
          rollbackOptimized ackCounter fuel (i + 1) audit delivered.dropLast
      else (audit, delivered, .ok ())

/-- `message->setRedeliveryCounter(message->getRedeliveryCounter() + 1)`. -/
def redelivered (dispatch : MessageDispatch) : MessageDispatch :=
  { dispatch with messageRedeliveryCounter := dispatch.messageRedeliveryCounter + 1 }

/-- The loop over `deliveredMessages`, up to a call that throws. -/
def rollbackEach : ConnectionAudit Unit → List MessageDispatch →
    ConnectionAudit Unit × List MessageDispatch × Except Exn Unit
  | audit, [] => (audit, [], .ok ())
  | audit, dispatch :: rest =>
    match rollbackDuplicate audit dispatch with
    | (audit, .error e) => (audit, redelivered dispatch :: rest, .error e)
    | (audit, .ok ()) =>
      let (audit, rest, result) := rollbackEach audit rest
      (audit, redelivered dispatch :: rest, result)

/-- The POISON acknowledgement of all delivered messages. -/
def poisonDelivered (s : ConsumerKernel) : ConsumerKernel :=
  { s with
    deliveredMessages := []
    journal.poisoned :=
      s.deliveredMessages.map (fun d => (d, .rollbackExceedsLimit)) ++ s.journal.poisoned }

/-- The delivered messages are scheduled again, or put back in front of the others. -/
def redeliver (o : Outcome) (s : ConsumerKernel) : ConsumerKernel :=
  if cfg.nonBlockingRedelivery then
    { s with
      redeliveryTasks := s.redeliveryTasks ++ [s.deliveredMessages.reverse]
      deliveredMessages := [] }
  else
    let channel := s.deliveredMessages.foldl (fun q d => q.enqueueFirst d) s.unconsumedMessages.stop
    if o.delayed then
      { s with unconsumedMessages := channel, deliveredMessages := [], startTasks := s.startTasks + 1 }
    else { s with unconsumedMessages := channel.start, deliveredMessages := [] }

/-- `rollback()` once the delivered messages are rolled back; the last of them leads. -/
def rollbackDelivered (o : Outcome) (s : ConsumerKernel) : ConsumerKernel :=
  let exceeds := cfg.maximumRedeliveries ≠ ConsumerSettings.noMaximumRedeliveries ∧
    ∃ last ∈ s.deliveredMessages.head?, last.messageRedeliveryCounter > cfg.maximumRedeliveries
  let s := if exceeds then s.poisonDelivered else redeliver cfg o s
  if s.listener then s.redispatch else s

/-- `rollback()`; a call of the audit that throws ends it. -/
def rollback (o : Outcome) (s : ConsumerKernel) : ConsumerKernel :=
  let (audit, delivered, result) :=
    if cfg.optimizeAcknowledge then
      rollbackOptimized s.ackCounter s.deliveredMessages.length 0 s.connectionAudit
        s.deliveredMessages
    else (s.connectionAudit, s.deliveredMessages, .ok ())
  let s := { s with connectionAudit := audit, deliveredMessages := delivered }
  match result, delivered with
  | .error _, _ => s
  | .ok (), [] => s
  | .ok (), _ :: _ =>
    let (audit, rolledBack, result) := rollbackEach audit delivered
    let s := { s with
      connectionAudit := audit
      deliveredMessages := rolledBack
      journal.rolledBack := delivered.map (·.messageId) ++ s.journal.rolledBack }
    match result with
    | .error _ => s
    | .ok () => rollbackDelivered cfg o s

/-! ## `dispatch` -/

/-- The branch of `dispatch` that runs the listener. -/
def deliver (o : Outcome) (dispatch : MessageDispatch) (s : ConsumerKernel) : ConsumerKernel :=
  if cfg.redeliveryExceeded dispatch then s.poisonAck dispatch .dispatchExceedsLimit
  else
    let s := beforeMessageIsConsumed cfg dispatch s
    if cfg.consumerExpiryCheckEnabled && o.expired then afterMessageIsConsumed cfg o dispatch true s
    else
      let s := { s with journal.heard := dispatch.messageId :: s.journal.heard }
      match o.listener with
      | .returns => afterMessageIsConsumed cfg o dispatch false s
      | .throwsRuntimeException =>
        if cfg.isAutoAcknowledgeBatch || cfg.isAutoAcknowledgeEach || cfg.ackMode = .individual then
          rollback cfg o s
        else afterMessageIsConsumed cfg o dispatch false s
      | .throwsOther => s

/-- `dispatch(dispatch)`. What it throws ends it here: the executor reports it and goes on. -/
def dispatch (o : Outcome) (dispatch : MessageDispatch) (s : ConsumerKernel) : ConsumerKernel :=
  match isDuplicate cfg dispatch s with
  | (audit, .error _) => { s with connectionAudit := audit }
  | (audit, .ok true) => { s with connectionAudit := audit }.poisonAck dispatch .duplicate
  | (audit, .ok false) =>
    if s.unconsumedMessages.running then
      if s.listener then deliver cfg o dispatch { s with connectionAudit := audit }
      else
        { s with
          connectionAudit := audit
          unconsumedMessages := s.unconsumedMessages.enqueue dispatch }
    else
      match rollbackDuplicate audit dispatch with
      | (audit, .error _) => { s with connectionAudit := audit }
      | (audit, .ok ()) =>
        { s with
          connectionAudit := audit
          unconsumedMessages := s.unconsumedMessages.enqueue dispatch }

/-! ## The session and its executor -/

/-- `ActiveMQSessionExecutor::execute`. -/
def execute (o : Outcome) (dispatch : MessageDispatch) (s : ConsumerKernel) : ConsumerKernel :=
  if cfg.sessionAsyncDispatch then { s with messageQueue := s.messageQueue.enqueue dispatch }
  else ConsumerKernel.dispatch cfg o dispatch s

/-- `ActiveMQSessionExecutor::iterate`, which asks the consumer first. A task runner calls
it, and there is one only while an asynchronous session is started. -/
def iterate (o : Outcome) (s : ConsumerKernel) : ConsumerKernel :=
  if cfg.sessionAsyncDispatch && s.messageQueue.running then
    match (if s.listener then s.unconsumedMessages.dequeueNoWait else none) with
    | some (d, channel) => dispatch cfg o d { s with unconsumedMessages := channel }
    | none =>
      match s.messageQueue.dequeueNoWait with
      | some (d, channel) => dispatch cfg o d { s with messageQueue := channel }
      | none => s
  else s

/-- `ActiveMQSessionKernel::start`. -/
def start (s : ConsumerKernel) : ConsumerKernel :=
  { s with unconsumedMessages := s.unconsumedMessages.start, messageQueue := s.messageQueue.start }

/-- `ActiveMQSessionKernel::stop`. -/
def stop (s : ConsumerKernel) : ConsumerKernel :=
  { s with unconsumedMessages := s.unconsumedMessages.stop, messageQueue := s.messageQueue.stop }

/-- The listener is set and the messages it missed are handed back. -/
def installListener (s : ConsumerKernel) : ConsumerKernel :=
  { s with
    listener := true
    journal.handedBack := s.unconsumedMessages.messages ++ s.journal.handedBack }.redispatch

/-- `setMessageListener(listener)`; with a prefetch of zero it throws. -/
def setMessageListener (listener : Bool) (s : ConsumerKernel) : ConsumerKernel :=
  if listener then
    if cfg.prefetchSize = 0 then s
    else if s.messageQueue.running then s.stop.installListener.start
    else s.installListener
  else { s with listener := false }

/-- `StartConsumerTask::run`, when one is scheduled. -/
def runStartTask (s : ConsumerKernel) : ConsumerKernel :=
  if s.startTasks = 0 then s
  else { s with startTasks := s.startTasks - 1, unconsumedMessages := s.unconsumedMessages.start }

/-- `NonBlockingRedeliveryTask::run` of the task at the index. -/
def runRedeliveryTask (i : Nat) (o : MessageId → Outcome) (s : ConsumerKernel) : ConsumerKernel :=
  match s.redeliveryTasks[i]? with
  | none => s
  | some task =>
    task.foldl (fun s d => execute cfg (o d.messageId) d s)
      { s with redeliveryTasks := s.redeliveryTasks.eraseIdx i }

/-- `ActiveMQConnection::onCommand` for a `MessageDispatch`. -/
def onMessageDispatch (o : Outcome) (dispatch : MessageDispatch) (s : ConsumerKernel) :
    ConsumerKernel :=
  execute cfg o { dispatch with messageRedeliveryCounter := dispatch.redeliveryCounter }
    { s with journal.arrived := dispatch.messageId :: s.journal.arrived }

end ConsumerKernel

/-- The events on a consumer. -/
inductive ConsumerEvent where
  | dispatch (dispatch : MessageDispatch) (o : Outcome)
  | iterate (o : Outcome)
  | start
  | stop
  | setMessageListener (listener : Bool)
  | startTask
  | redeliveryTask (i : Nat) (o : MessageId → Outcome)

open ConsumerKernel in
/-- The runs of a consumer. -/
def consumerMachine (cfg : ConsumerSettings) : Machine ConsumerKernel ConsumerEvent Unit where
  step s
    | .dispatch d o => (onMessageDispatch cfg o d s, ())
    | .iterate o => (iterate cfg o s, ())
    | .start => (s.start, ())
    | .stop => (s.stop, ())
    | .setMessageListener listener => (setMessageListener cfg listener s, ())
    | .startTask => (s.runStartTask, ())
    | .redeliveryTask i o => (runRedeliveryTask cfg i o s, ())

end ActivemqCpp.Core
