import ActivemqCpp.Commands.Ids
import ActivemqCpp.Core.TransactionContext

/-!
# The commands that a transport tracks

The commands of `activemq/commands` as `ConnectionStateTracker` reads and re-sends
them: the ids of the object announced or removed, and the fields that decide what is
kept of it. Ids are values, so that the clone of a command is the command, with its
`commandId`. A command carries the ids that its kind requires.
-/

namespace ActivemqCpp.Commands

open Base Decaf ActivemqCpp.Core

/-! ## Destinations -/

/-- `cms::Destination::DestinationType`. -/
inductive DestinationType where
  | topic
  | queue
  | temporaryTopic
  | temporaryQueue
deriving DecidableEq, Repr

/-- `ActiveMQDestination`. -/
structure Destination where
  destinationType : DestinationType
  physicalName : Bytes
deriving DecidableEq, Repr

namespace Destination

def isTemporary (d : Destination) : Bool :=
  d.destinationType = .temporaryTopic || d.destinationType = .temporaryQueue

def isTopic (d : Destination) : Bool :=
  d.destinationType = .topic || d.destinationType = .temporaryTopic

def isQueue (d : Destination) : Bool := !d.isTopic

/-- `compareTo`: the name alone decides. -/
def compareTo (d d' : Destination) : Int :=
  StringUtils.compare d.physicalName d'.physicalName

/-- `COMPARATOR`. -/
def less (d d' : Destination) : Bool := compareTo d d' < 0

theorem less_self (d : Destination) : less d d = false := by
  simp [less, compareTo, StringUtils.compare_self]

/-- The scheme in front of the name. -/
def scheme : DestinationType → String
  | .topic => "topic://"
  | .temporaryTopic => "temp-topic://"
  | .temporaryQueue => "temp-queue://"
  | .queue => "queue://"

def toString (d : Destination) : Bytes :=
  (scheme d.destinationType).toUTF8.toList ++ d.physicalName

end Destination

/-! ## Transactions -/

inductive TransactionId where
  | local (id : LocalTransactionId)
  | xa (id : Tx.XATransactionId)
deriving DecidableEq, Repr

structure TransactionInfo where
  commandId : Int
  connectionId : ConnectionId
  transactionId : TransactionId
  type : Tx.TransactionState
deriving DecidableEq, Repr

/-! ## Objects of a connection -/

structure ConnectionInfo where
  commandId : Int
  connectionId : ConnectionId
  failoverReconnect : Bool
deriving DecidableEq, Repr

structure SessionInfo where
  commandId : Int
  sessionId : SessionId
deriving DecidableEq, Repr

structure ProducerInfo where
  commandId : Int
  producerId : ProducerId
  responseRequired : Bool
deriving DecidableEq, Repr

structure ConsumerInfo where
  commandId : Int
  consumerId : ConsumerId
  destination : Destination
  prefetchSize : Int
deriving DecidableEq, Repr

/-- `ActiveMQConstants::DestinationActions`. -/
inductive DestinationAction where
  | add
  | remove
deriving DecidableEq, Repr

structure DestinationInfo where
  commandId : Int
  connectionId : ConnectionId
  destination : Destination
  operationType : DestinationAction
deriving DecidableEq, Repr

/-- The `objectId` of a `RemoveInfo`. -/
inductive ObjectId where
  | connection (id : ConnectionId)
  | session (id : SessionId)
  | consumer (id : ConsumerId)
  | producer (id : ProducerId)
  /-- Any other data structure. -/
  | other
deriving DecidableEq, Repr

structure RemoveInfo where
  commandId : Int
  objectId : ObjectId
  responseRequired : Bool
deriving DecidableEq, Repr

/-- `ProducerInfo::createRemoveCommand`. -/
def ProducerInfo.createRemoveCommand (info : ProducerInfo) : RemoveInfo where
  commandId := 0
  objectId := .producer info.producerId
  responseRequired := info.responseRequired

/-! ## Messages -/

/-- A message. Maps keyed by the pointer to its `MessageId` see the object, not the
id, so the object has a number of its own. -/
structure Message where
  commandId : Int
  messageId : Nat
  producerId : ProducerId
  transactionId : Option TransactionId
  /-- `getSize()`, an `unsigned int`. -/
  size : BitVec 32
deriving DecidableEq, Repr

structure MessagePull where
  commandId : Int
  consumerId : Option ConsumerId
  destination : Option Destination
deriving DecidableEq, Repr

structure ConsumerControl where
  commandId : Int
  consumerId : ConsumerId
  destination : Destination
  prefetch : Int
deriving DecidableEq, Repr

/-- What `oneway` asks about a command that is not tracked. -/
inductive OtherCommand where
  | messageAck
  | shutdownInfo
  | other
deriving DecidableEq, Repr

inductive Command where
  | connectionInfo (info : ConnectionInfo)
  | sessionInfo (info : SessionInfo)
  | producerInfo (info : ProducerInfo)
  | consumerInfo (info : ConsumerInfo)
  | destinationInfo (info : DestinationInfo)
  | removeInfo (info : RemoveInfo)
  | message (message : Message)
  | messagePull (pull : MessagePull)
  | transactionInfo (info : TransactionInfo)
  | consumerControl (control : ConsumerControl)
  /-- A command for which the visitor has no more than the default. -/
  | other (kind : OtherCommand) (commandId : Int)
deriving DecidableEq, Repr

end ActivemqCpp.Commands
