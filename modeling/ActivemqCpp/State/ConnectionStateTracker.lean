import ActivemqCpp.Base.Loop
import ActivemqCpp.Decaf.LinkedHashMap
import ActivemqCpp.State.ConnectionState

/-!
# `ConnectionStateTracker`

The tracker sees every command that goes out over a failover transport. It keeps the
objects that the broker holds for this client, the commands of open transactions and
the latest messages, and writes them to a new transport after a failover (`restore`).

* **Lookups** — the maps are searched with the comparators of the ids; a `get` that
  finds nothing throws `NoSuchElementException`, a `remove` does nothing.
* **Exceptions** — a visit that throws keeps what it had changed; `track` lets every
  exception out as an `IOException`.
* **Removed destinations** — `DestinationInfo::visit` calls `processDestinationInfo`
  whatever the operation, so `processRemoveDestination` is never reached and left out.
-/

namespace ActivemqCpp.State

open Base Decaf Commands

/-- The settings of the tracker. -/
structure Options where
  trackTransactions : Bool
  restoreSessions : Bool
  restoreConsumers : Bool
  restoreProducers : Bool
  restoreTransaction : Bool
  trackMessages : Bool
  trackTransactionProducers : Bool
  maxMessageCacheSize : Int
  maxMessagePullCacheSize : Int

/-- The settings of the constructor. -/
def Options.new : Options where
  trackTransactions := false
  restoreSessions := true
  restoreConsumers := true
  restoreProducers := true
  restoreTransaction := true
  trackMessages := true
  trackTransactionProducers := true
  maxMessageCacheSize := 128 * 1024
  maxMessagePullCacheSize := 10

structure Tracker where
  connectionStates : StlMap ConnectionId ConnectionState
  messageCache : LinkedHashMap Nat Message
  /-- An `int`, to which message sizes are added and from which they are taken. -/
  currentCacheSize : BitVec 32
  messagePullCache : LinkedHashMap Bytes MessagePull
deriving DecidableEq, Repr

/-- What `track` returns. -/
inductive Tracked where
  /-- The null pointer. -/
  | untracked
  /-- `TRACKED_RESPONSE_MARKER`. -/
  | marker
  /-- A `RemoveTransactionAction` to run when the response arrives. -/
  | onResponse (info : TransactionInfo)
deriving DecidableEq, Repr

/-- The response that tells the listener of a commit in doubt. Its message is a fixed
text that ends in the transaction id. -/
structure ExceptionResponse where
  correlationId : Int
  exceptionClass : String
  transactionId : TransactionId
deriving DecidableEq, Repr

/-- What `restore` does outside the tracker. -/
inductive Sent where
  /-- `transport->oneway(command)`. -/
  | oneway (command : Command)
  /-- `transport->getTransportListener()->onCommand(response)`. -/
  | onCommand (response : ExceptionResponse)
deriving DecidableEq, Repr

namespace Tracker

def new : Tracker := ⟨[], [], 0, []⟩

/-- `connectionStates.get(id)`, and the changes made to the state behind it. -/
def withConnection {α : Type} (id : ConnectionId)
    (f : ConnectionState → ConnectionState × Except Exn α) (t : Tracker) :
    Tracker × Except Exn α :=
  match t.connectionStates.find ConnectionId.less id with
  | none => (t, .error .noSuchElement)
  | some cs =>
    ({ t with
        connectionStates := t.connectionStates.update ConnectionId.less id fun _ => (f cs).1 },
      (f cs).2)

/-- `getSessionState(id)`, and the changes made with it. -/
def withSession (id : SessionId) (f : SessionState → ConnectionState) (cs : ConnectionState) :
    ConnectionState × Except Exn Tracked :=
  match cs.sessions.find SessionId.less id with
  | none => (cs, .error .noSuchElement)
  | some ss => (f ss, .ok .marker)

/-- `id.dynamicCast<LocalTransactionId>()`. -/
def localTransactionId : TransactionId → Except Exn LocalTransactionId
  | .local id => .ok id
  | .xa _ => .error .classCast

/-- `getTransactionState(id)`, and what is done with it. -/
def withTransaction (id : TransactionId)
    (f : LocalTransactionId → TransactionState → ConnectionState × Except Exn Tracked)
    (cs : ConnectionState) : ConnectionState × Except Exn Tracked :=
  match localTransactionId id with
  | .error e => (cs, .error e)
  | .ok id =>
    match cs.transactions.find LocalTransactionId.less id with
    | none => (cs, .error .noSuchElement)
    | some tx => f id tx

/-! ## Objects -/

def processDestinationInfo (info : DestinationInfo) (t : Tracker) : Tracker × Except Exn Tracked :=
  t.withConnection info.connectionId fun cs =>
    (if info.destination.isTemporary then cs.addTempDestination info else cs, .ok .marker)

def processProducerInfo (info : ProducerInfo) (t : Tracker) : Tracker × Except Exn Tracked :=
  t.withConnection info.producerId.parentId.parentId fun cs =>
    withSession info.producerId.parentId
      (fun _ => cs.updateSession info.producerId.parentId (.addProducer info)) cs

def processRemoveProducer (id : ProducerId) (t : Tracker) : Tracker × Except Exn Tracked :=
  t.withConnection id.parentId.parentId fun cs =>
    withSession id.parentId (fun ss => cs.removeProducer id ss) cs

def processConsumerInfo (info : ConsumerInfo) (t : Tracker) : Tracker × Except Exn Tracked :=
  t.withConnection info.consumerId.parentId.parentId fun cs =>
    withSession info.consumerId.parentId
      (fun _ => cs.updateSession info.consumerId.parentId (.addConsumer info)) cs

/-- The consumer also leaves the consumers that wait for their prefetch. -/
def processRemoveConsumer (id : ConsumerId) (t : Tracker) : Tracker × Except Exn Tracked :=
  t.withConnection id.parentId.parentId fun cs =>
    withSession id.parentId
      (fun _ =>
        { cs.updateSession id.parentId (.removeConsumer id) with
          recoveringPullConsumers := cs.recoveringPullConsumers.remove ConsumerId.less id }) cs

def processSessionInfo (info : SessionInfo) (t : Tracker) : Tracker × Except Exn Tracked :=
  t.withConnection info.sessionId.parentId fun cs => (cs.addSession info, .ok .marker)

def processRemoveSession (id : SessionId) (t : Tracker) : Tracker × Except Exn Tracked :=
  t.withConnection id.parentId fun cs => (cs.removeSession id, .ok .marker)

def processConnectionInfo (info : ConnectionInfo) (t : Tracker) : Tracker × Except Exn Tracked :=
  ({ t with
      connectionStates := t.connectionStates.put ConnectionId.less info.connectionId (.new info) },
    .ok .marker)

def processRemoveConnection (id : ConnectionId) (t : Tracker) : Tracker × Except Exn Tracked :=
  ({ t with connectionStates := t.connectionStates.remove ConnectionId.less id }, .ok .marker)

/-- `CommandVisitorAdapter::processRemoveInfo`. -/
def processRemoveInfo (info : RemoveInfo) (t : Tracker) : Tracker × Except Exn Tracked :=
  match info.objectId with
  | .connection id => t.processRemoveConnection id
  | .session id => t.processRemoveSession id
  | .consumer id => t.processRemoveConsumer id
  | .producer id => t.processRemoveProducer id
  | .other => (t, .error .io)

/-! ## Messages and transactions -/

/-- `messageCache.put`: `removeEldestEntry` looks at the size once. -/
def cacheMessage (opts : Options) (m : Message) (t : Tracker) : Tracker :=
  match t.messageCache.put m.messageId m with
  | [] => t
  | eldest :: rest =>
    if t.currentCacheSize.toInt > opts.maxMessageCacheSize then
      { t with messageCache := rest, currentCacheSize := t.currentCacheSize - eldest.2.size }
    else { t with messageCache := eldest :: rest }

/-- A message sent in a transaction. With `trackTransactionProducers` its producer
points to the transaction from then on; when the producer is not found the command
has been added all the same. -/
def trackInTransaction (opts : Options) (m : Message) (id : LocalTransactionId)
    (tx : TransactionState) (cs : ConnectionState) : ConnectionState × Except Exn Tracked :=
  let cs := cs.updateTransaction id (.addCommand (.message m))
  if opts.trackTransactionProducers then
    match cs.sessions.find SessionId.less m.producerId.parentId with
    | none => (cs, .error .noSuchElement)
    | some ss =>
      match ss.producers.find ProducerId.less m.producerId with
      | none => (cs, .error .noSuchElement)
      | some _ =>
        (cs.updateSession m.producerId.parentId (.setTransactionState m.producerId tx.serial),
          .ok .marker)
  else (cs, .ok .marker)

def processMessage (opts : Options) (m : Message) (t : Tracker) : Tracker × Except Exn Tracked :=
  match opts.trackTransactions, m.transactionId with
  | true, some id =>
    t.withConnection m.producerId.parentId.parentId fun cs =>
      withTransaction id (fun id tx => trackInTransaction opts m id tx cs) cs
  | _, _ => (if opts.trackMessages then t.cacheMessage opts m else t, .ok .untracked)

def processBeginTransaction (opts : Options) (info : TransactionInfo) (t : Tracker) :
    Tracker × Except Exn Tracked :=
  if opts.trackTransactions then
    t.withConnection info.connectionId fun cs =>
      match localTransactionId info.transactionId with
      | .error e => (cs, .error e)
      | .ok id =>
        ((cs.addTransactionState id).updateTransaction id (.addCommand (.info info)), .ok .marker)
  else (t, .ok .untracked)

/-- The common body of the steps that follow `begin`. -/
def processInTransaction (result : TransactionInfo → Tracked) (opts : Options)
    (info : TransactionInfo) (t : Tracker) : Tracker × Except Exn Tracked :=
  if opts.trackTransactions then
    t.withConnection info.connectionId fun cs =>
      withTransaction info.transactionId
        (fun id _ => (cs.updateTransaction id (.addCommand (.info info)), .ok (result info))) cs
  else (t, .ok .untracked)

def processPrepareTransaction := processInTransaction fun _ => .marker

def processCommitTransactionOnePhase := processInTransaction .onResponse

def processCommitTransactionTwoPhase := processInTransaction .onResponse

def processRollbackTransaction := processInTransaction .onResponse

def processEndTransaction := processInTransaction fun _ => .marker

/-- `CommandVisitorAdapter::processTransactionInfo`. -/
def processTransactionInfo (opts : Options) (info : TransactionInfo) (t : Tracker) :
    Tracker × Except Exn Tracked :=
  match info.type with
  | .begin => processBeginTransaction opts info t
  | .prepare => processPrepareTransaction opts info t
  | .commitOnePhase => processCommitTransactionOnePhase opts info t
  | .commitTwoPhase => processCommitTransactionTwoPhase opts info t
  | .rollback => processRollbackTransaction opts info t
  | .end => processEndTransaction opts info t
  | .recover | .forget => (t, .ok .untracked)

/-- The key of a pull: destination and consumer. -/
def pullKey (destination : Destination) (consumerId : ConsumerId) : Bytes :=
  destination.toString ++ colon :: colon :: consumerId.toString

def processMessagePull (opts : Options) (pull : MessagePull) (t : Tracker) :
    Tracker × Except Exn Tracked :=
  match pull.destination, pull.consumerId with
  | some destination, some consumerId =>
    let cache := t.messagePullCache.put (pullKey destination consumerId) pull
    ({ t with
        messagePullCache :=
          if (cache.length : Int) > opts.maxMessagePullCacheSize then cache.tail else cache },
      .ok .untracked)
  | _, _ => (t, .ok .untracked)

/-- `command->visit(this)`. -/
def visit (opts : Options) (command : Command) (t : Tracker) : Tracker × Except Exn Tracked :=
  match command with
  | .connectionInfo info => t.processConnectionInfo info
  | .sessionInfo info => t.processSessionInfo info
  | .producerInfo info => t.processProducerInfo info
  | .consumerInfo info => t.processConsumerInfo info
  | .destinationInfo info => t.processDestinationInfo info
  | .removeInfo info => t.processRemoveInfo info
  | .message m => t.processMessage opts m
  | .messagePull pull => t.processMessagePull opts pull
  | .transactionInfo info => t.processTransactionInfo opts info
  | .consumerControl _ | .other _ _ => (t, .ok .untracked)

def track (opts : Options) (command : Command) (t : Tracker) : Tracker × Except Exn Tracked :=
  ((t.visit opts command).1, (t.visit opts command).2.mapError fun _ => .io)

/-- `trackBack`: a message outside transactions counts once it has been sent. -/
def trackBack (opts : Options) (command : Command) (t : Tracker) : Tracker :=
  match command with
  | .message m =>
    if opts.trackMessages ∧ m.transactionId = none then
      { t with currentCacheSize := t.currentCacheSize + m.size }
    else t
  | _ => t

/-- `RemoveTransactionAction::run`. -/
def removeTransaction (info : TransactionInfo) (t : Tracker) : Tracker × Except Exn Unit :=
  t.withConnection info.connectionId fun cs =>
    match localTransactionId info.transactionId with
    | .error e => (cs, .error e)
    | .ok id => (cs.removeTransactionState id, .ok ())

/-! ## After a failover -/

def transportInterrupted (t : Tracker) : Tracker :=
  { t with
    connectionStates := t.connectionStates.map fun e =>
      (e.1, { e.2 with connectionInterruptProcessingComplete := false }) }

/-- `connectionInterruptProcessingComplete`: every stalled consumer gets its prefetch
back. The map that is cleared in the end is a copy. -/
def connectionInterruptProcessingComplete (id : ConnectionId) (t : Tracker) :
    Tracker × Except Exn (List Command) :=
  t.withConnection id fun cs =>
    ({ cs with connectionInterruptProcessingComplete := true },
      .ok (cs.recoveringPullConsumers.map fun e =>
        .consumerControl ⟨0, e.1, e.2.destination, e.2.prefetchSize⟩))

def doRestoreTempDestinations (cs : ConnectionState) : List Sent :=
  cs.tempDestinations.map fun info => .oneway (.destinationInfo info)

def doRestoreProducers (ss : SessionState) : List Sent :=
  ss.producers.map fun e => .oneway (.producerInfo e.2.info)

/-- A consumer is restored without prefetch while the connection recovers. -/
def stalls (version : Int) (cs : ConnectionState) (info : ConsumerInfo) : Bool :=
  !cs.connectionInterruptProcessingComplete && info.prefetchSize > 0 && version > 5

/-- The connection is looked up by the id of the session's parent. -/
def doRestoreConsumers (version : Int) (ss : SessionState) (t : Tracker) :
    Except Exn (Tracker × List Sent) :=
  match t.connectionStates.find ConnectionId.less ss.info.sessionId.parentId with
  | none => .error .noSuchElement
  | some cs =>
    let recovering := ss.consumers.foldl
      (fun map e =>
        if stalls version cs e.2.info then
          map.put ConsumerId.less e.2.info.consumerId e.2.info
        else map)
      cs.recoveringPullConsumers
    .ok
      ({ t with
          connectionStates :=
            t.connectionStates.update ConnectionId.less ss.info.sessionId.parentId
              fun cs => { cs with recoveringPullConsumers := recovering } },
        ss.consumers.map fun e =>
          .oneway (.consumerInfo
            (if stalls version cs e.2.info then { e.2.info with prefetchSize := 0 }
            else e.2.info)))

/-- One round of `doRestoreSessions`. -/
def doRestoreSession (opts : Options) (version : Int) (t : Tracker) (ss : SessionState) :
    Except Exn (Tracker × List Sent) :=
  let front := .oneway (.sessionInfo ss.info) ::
    if opts.restoreProducers then doRestoreProducers ss else []
  if opts.restoreConsumers then
    match doRestoreConsumers version ss t with
    | .error e => .error e
    | .ok (t, sent) => .ok (t, front ++ sent)
  else .ok (t, front)

def doRestoreSessions (opts : Options) (version : Int) (cs : ConnectionState) (t : Tracker) :
    Except Exn (Tracker × List Sent) :=
  collect (fun t e => doRestoreSession opts version t e.2) t cs.sessions

/-- The commit whose outcome is unknown, when it is the last command tracked. -/
def inDoubt : TransactionCommand → Option TransactionInfo
  | .info info => if info.type = .commitOnePhase then some info else none
  | .message _ => none

/-- The replay of a transaction, with the producers that were removed meanwhile. -/
def replay (tx : TransactionState) : List Sent :=
  (tx.producers.map fun e => .oneway (.producerInfo e.2.info)) ++
    (tx.commands.map fun c => .oneway c.command) ++
    tx.producers.map fun e => .oneway (.removeInfo e.2.info.createRemoveCommand)

/-- One round of `doRestoreTransactions`. -/
def doRestoreTransaction (toRollback : List TransactionInfo) (tx : TransactionState) :
    Except Exn (List TransactionInfo × List Sent) :=
  match tx.commands.getLast? with
  | none => .error .noSuchElement
  | some lastCommand =>
    match inDoubt lastCommand with
    | some info => .ok (toRollback ++ [info], [])
    | none => .ok (toRollback, replay tx)

/-- The `ExceptionResponse` for a commit in doubt. -/
def forceRollback (info : TransactionInfo) : Sent :=
  .onCommand ⟨info.commandId, "TransactionRolledBackException", info.transactionId⟩

def doRestoreTransactions (cs : ConnectionState) : Except Exn (List Sent) :=
  match collect (fun toRollback e => doRestoreTransaction toRollback e.2) [] cs.transactions with
  | .error e => .error e
  | .ok (toRollback, sent) => .ok (sent ++ toRollback.map forceRollback)

/-- One round of the first loop of `restore`. -/
def restoreConnection (opts : Options) (version : Int) (t : Tracker) (cs : ConnectionState) :
    Except Exn (Tracker × List Sent) :=
  let front := .oneway (.connectionInfo { cs.info with failoverReconnect := true }) ::
    doRestoreTempDestinations cs
  match if opts.restoreSessions then doRestoreSessions opts version cs t else .ok (t, []) with
  | .error e => .error e
  | .ok (t, sessions) =>
    match if opts.restoreTransaction then doRestoreTransactions cs else .ok [] with
    | .error e => .error e
    | .ok transactions => .ok (t, front ++ sessions ++ transactions)

/-- `info->setFailoverReconnect(true)` on every connection. -/
def markReconnected (t : Tracker) : Tracker :=
  { t with
    connectionStates := t.connectionStates.map fun e =>
      (e.1, { e.2 with info := { e.2.info with failoverReconnect := true } }) }

/-- `restore` on a transport that accepts every command and speaks wire format
`version`. The loops change neither the connections visited nor their objects, so they
run over the states as they were. -/
def restore (opts : Options) (version : Int) (t : Tracker) : Except Exn (Tracker × List Sent) :=
  match collect (fun t e => restoreConnection opts version t e.2) t t.connectionStates with
  | .error e => .error e
  | .ok (t, sent) =>
    .ok (t.markReconnected,
      sent ++ t.messageCache.values.map (fun m => .oneway (.message m)) ++
        t.messagePullCache.values.map fun pull => .oneway (.messagePull pull))

end Tracker

end ActivemqCpp.State
