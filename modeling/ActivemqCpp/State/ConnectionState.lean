import ActivemqCpp.Commands.Command

/-!
# The tracked state of a connection

`state/ConnectionState`, `SessionState`, `ProducerState`, `ConsumerState` and
`TransactionState`. A tracked producer points to the transaction it last sent in; when
it is removed its state moves into that transaction, which can then announce it again
for the replay. The pointer is the number that the transaction state was created with,
so that it keeps to the object when another transaction takes the same id.

The `disposed` flags are left out: the tracker shuts no state down.
-/

namespace ActivemqCpp.State

open Decaf Commands

structure ProducerState where
  info : ProducerInfo
  /-- The `transactionState` pointer. -/
  transactionState : Option Nat
deriving DecidableEq, Repr

structure ConsumerState where
  info : ConsumerInfo
deriving DecidableEq, Repr

/-- What `TransactionState::addCommand` is called with. -/
inductive TransactionCommand where
  | message (message : Message)
  | info (info : TransactionInfo)
deriving DecidableEq, Repr

def TransactionCommand.command : TransactionCommand → Command
  | .message m => .message m
  | .info i => .transactionInfo i

structure TransactionState where
  serial : Nat
  commands : List TransactionCommand
  producers : StlMap ProducerId ProducerState
deriving DecidableEq, Repr

namespace TransactionState

def addCommand (operation : TransactionCommand) (tx : TransactionState) : TransactionState :=
  { tx with commands := tx.commands ++ [operation] }

/-- `addProducerState`: the producer's own pointer is reset. -/
def addProducerState (producer : ProducerState) (tx : TransactionState) : TransactionState :=
  { tx with
    producers := tx.producers.put ProducerId.less producer.info.producerId
      { producer with transactionState := none } }

end TransactionState

structure SessionState where
  info : SessionInfo
  producers : StlMap ProducerId ProducerState
  consumers : StlMap ConsumerId ConsumerState
deriving DecidableEq, Repr

namespace SessionState

def new (info : SessionInfo) : SessionState := ⟨info, [], []⟩

def addProducer (info : ProducerInfo) (ss : SessionState) : SessionState :=
  { ss with producers := ss.producers.put ProducerId.less info.producerId ⟨info, none⟩ }

def addConsumer (info : ConsumerInfo) (ss : SessionState) : SessionState :=
  { ss with consumers := ss.consumers.put ConsumerId.less info.consumerId ⟨info⟩ }

def dropProducer (id : ProducerId) (ss : SessionState) : SessionState :=
  { ss with producers := ss.producers.remove ProducerId.less id }

def removeConsumer (id : ConsumerId) (ss : SessionState) : SessionState :=
  { ss with consumers := ss.consumers.remove ConsumerId.less id }

/-- `getProducerState(id)->setTransactionState(tx)`. -/
def setTransactionState (id : ProducerId) (serial : Nat) (ss : SessionState) : SessionState :=
  { ss with
    producers := ss.producers.update ProducerId.less id
      fun ps => { ps with transactionState := some serial } }

end SessionState

structure ConnectionState where
  info : ConnectionInfo
  transactions : StlMap LocalTransactionId TransactionState
  sessions : StlMap SessionId SessionState
  tempDestinations : List DestinationInfo
  connectionInterruptProcessingComplete : Bool
  recoveringPullConsumers : StlMap ConsumerId ConsumerInfo
  /-- The number of the next transaction state. -/
  nextSerial : Nat
deriving DecidableEq, Repr

namespace ConnectionState

def addSession (info : SessionInfo) (cs : ConnectionState) : ConnectionState :=
  { cs with sessions := cs.sessions.put SessionId.less info.sessionId (.new info) }

/-- The id of the session that every connection has from the start. -/
def defaultSessionId (id : ConnectionId) : SessionId := ⟨id.value, -1⟩

/-- The constructor adds the default session. -/
def new (info : ConnectionInfo) : ConnectionState :=
  addSession ⟨0, defaultSessionId info.connectionId⟩
    { info
      transactions := []
      sessions := []
      tempDestinations := []
      connectionInterruptProcessingComplete := true
      recoveringPullConsumers := []
      nextSerial := 0 }

def removeSession (id : SessionId) (cs : ConnectionState) : ConnectionState :=
  { cs with sessions := cs.sessions.remove SessionId.less id }

/-- A change to the state behind `getSessionState(id)`. -/
def updateSession (id : SessionId) (f : SessionState → SessionState) (cs : ConnectionState) :
    ConnectionState :=
  { cs with sessions := cs.sessions.update SessionId.less id f }

def addTempDestination (info : DestinationInfo) (cs : ConnectionState) : ConnectionState :=
  { cs with tempDestinations := cs.tempDestinations ++ [info] }

/-- `transactions.put(id, new TransactionState(id))`. -/
def addTransactionState (id : LocalTransactionId) (cs : ConnectionState) : ConnectionState :=
  { cs with
    transactions := cs.transactions.put LocalTransactionId.less id ⟨cs.nextSerial, [], []⟩
    nextSerial := cs.nextSerial + 1 }

/-- A change to the state behind `getTransactionState(id)`. -/
def updateTransaction (id : LocalTransactionId) (f : TransactionState → TransactionState)
    (cs : ConnectionState) : ConnectionState :=
  { cs with transactions := cs.transactions.update LocalTransactionId.less id f }

def removeTransactionState (id : LocalTransactionId) (cs : ConnectionState) : ConnectionState :=
  { cs with transactions := cs.transactions.remove LocalTransactionId.less id }

/-- The second half of `SessionState::removeProducer`: the producer moves into the
transaction that it points to. A transaction that has left the map keeps it unseen. -/
def handOver (producer : ProducerState) (cs : ConnectionState) : ConnectionState :=
  match producer.transactionState with
  | none => cs
  | some serial =>
    { cs with
      transactions := cs.transactions.map fun e =>
        if e.2.serial = serial then (e.1, e.2.addProducerState producer) else e }

/-- `getSessionState(sessionId)->removeProducer(id)`. -/
def removeProducer (id : ProducerId) (ss : SessionState) (cs : ConnectionState) : ConnectionState :=
  match ss.producers.find ProducerId.less id with
  | none => cs
  | some producer => (cs.updateSession id.parentId (.dropProducer id)).handOver producer

end ConnectionState

end ActivemqCpp.State
