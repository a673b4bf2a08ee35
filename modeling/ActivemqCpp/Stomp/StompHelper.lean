import ActivemqCpp.Commands.Command
import ActivemqCpp.Stomp.StompWireFormat

/-!
# `StompHelper`

The headers of a message that is sent. `convertProperties` sets one header for each field that
has something to say and then one for each property of the message, under the name of the
property; the `receipt` comes before them and the `content-length` of a bytes message behind
(`marshal`). Later settings replace earlier ones.

A destination is written behind the prefix of its kind. A name with commas stands for several
destinations; they are written in the order of their names and without repetitions.
-/

namespace ActivemqCpp.Stomp

open Base List
open Decaf
open Commands (Destination DestinationType TransactionId)
open StompFrame

/-- The characters of a constant. -/
def literal (text : String) : Bytes := text.toUTF8.toList

/-! ## Destinations -/

def comma : UInt8 := 44

def questionMark : UInt8 := 63

/-- `ActiveMQDestination::setPhysicalName`: options are cut off. -/
def newDestination (type : DestinationType) (name : Bytes) : Destination :=
  ⟨type, name.takeWhile (· ≠ questionMark)⟩

/-- `QUEUE_QUALIFIED_PREFIX` and its like. -/
def qualifiedPrefix (type : DestinationType) : Bytes := literal (Destination.scheme type)

/-- `ActiveMQDestination::createDestination`: a scheme in the name decides before the type. -/
def createDestination (type : DestinationType) (name : Bytes) : Destination :=
  let types : List DestinationType := [.queue, .topic, .temporaryQueue, .temporaryTopic]
  match types.find? fun t => (qualifiedPrefix t).isPrefixOf name with
  | some t => newDestination t (name.drop (qualifiedPrefix t).length)
  | none => newDestination type name

def isComposite (d : Destination) : Bool := comma ∈ d.physicalName

/-- `trim`, of spaces and tabs. -/
def trim (input : Bytes) : Bytes :=
  let blank : UInt8 → Bool := fun c => c = 32 ∨ c = 9
  ((input.dropWhile blank).reverse.dropWhile blank).reverse

/-- `getCompositeDestinations`: the names go through a `StlSet`. -/
def getCompositeDestinations (d : Destination) : List Destination :=
  let names := ((d.physicalName.splitOn comma).map trim).filter (· ≠ [])
  let components : StlMap Bytes Unit :=
    names.foldl (fun set name => StlMap.put (fun a b => decide (a < b)) name () set) []
  components.map fun component => createDestination d.destinationType component.1

/-- The prefixes of a `StompWireFormat`. -/
structure Prefixes where
  topicPrefix : Bytes := literal "/topic/"
  queuePrefix : Bytes := literal "/queue/"
  tempTopicPrefix : Bytes := literal "/temp-topic/"
  tempQueuePrefix : Bytes := literal "/temp-queue/"

def doConvertDestination (wireFormat : Prefixes) (d : Destination) : Bytes :=
  match d.destinationType with
  | .topic => wireFormat.topicPrefix ++ d.physicalName
  | .temporaryTopic =>
    if (literal "/remote-temp-topic/").isPrefixOf d.physicalName then d.physicalName
    else wireFormat.tempTopicPrefix ++ d.physicalName
  | .temporaryQueue =>
    if (literal "/remote-temp-queue/").isPrefixOf d.physicalName then d.physicalName
    else wireFormat.tempQueuePrefix ++ d.physicalName
  | .queue => wireFormat.queuePrefix ++ d.physicalName

def convertDestination (wireFormat : Prefixes) : Option Destination → Bytes
  | none => []
  | some d =>
    if isComposite d then
      (getCompositeDestinations d).foldl (fun result composite =>
        (if result ≠ [] then result ++ [comma] else result) ++
          doConvertDestination wireFormat composite) []
    else doConvertDestination wireFormat d

/-- `convertTransactionId`, which knows local transactions only. -/
def convertTransactionId : TransactionId → Except Exn Bytes
  | .local id => .ok (id.connectionId.value ++ colon :: decimal id.value)
  | .xa _ => .error .classCast

/-! ## Messages -/

/-- A message as `marshalMessage` reads it. The properties are those strings that
`getString` gives. -/
structure StompMessage where
  commandId : Int
  responseRequired : Bool
  destination : Option Destination
  correlationId : Bytes
  expiration : Int
  persistent : Bool
  redeliveryCounter : Int
  priority : UInt8
  replyTo : Option Destination
  timestamp : Int
  type : Bytes
  transactionId : Option TransactionId
  groupSequence : Int
  groupId : Bytes
  properties : LinkedHashMap Bytes Bytes
  content : Message
  nodup : properties.keys.Nodup

def headerDestination : Bytes := literal "destination"

def headerTransactionId : Bytes := literal "transaction"

def headerReceiptRequired : Bytes := literal "receipt"

def headerCorrelationId : Bytes := literal "correlation-id"

def headerExpires : Bytes := literal "expires"

def headerPersistent : Bytes := literal "persistent"

def headerReplyTo : Bytes := literal "reply-to"

def headerType : Bytes := literal "type"

def headerJmsPriority : Bytes := literal "priority"

def headerTimestamp : Bytes := literal "timestamp"

def headerRedelivered : Bytes := literal "redelivered"

/-- `Boolean::toString`. -/
def boolText (b : Bool) : Bytes := if b then literal "true" else literal "false"

/-- A header that is set under a condition. -/
def setIf (condition : Bool) (name value : Bytes) : List (Bytes × Bytes) :=
  if condition then [(name, value)] else []

/-- A header that is set when there is a value for it. -/
def setSome (name : Bytes) (value : Option Bytes) : List (Bytes × Bytes) :=
  (value.map fun value => (name, value)).toList

/-- The headers that `convertProperties` sets for the fields of a message, in order. -/
def fieldHeaders (wireFormat : Prefixes) (m : StompMessage) : Except Exn (List (Bytes × Bytes)) := do
  let transaction ← m.transactionId.mapM convertTransactionId
  pure ([(headerDestination, convertDestination wireFormat m.destination)] ++
    setIf (m.correlationId ≠ []) headerCorrelationId m.correlationId ++
    [(headerExpires, decimal m.expiration), (headerPersistent, boolText m.persistent)] ++
    setIf (m.redeliveryCounter ≠ 0) headerRedelivered (boolText true) ++
    [(headerJmsPriority, decimalNat m.priority.toNat)] ++
    setSome headerReplyTo (m.replyTo.map fun d => convertDestination wireFormat (some d)) ++
    [(headerTimestamp, decimal m.timestamp)] ++
    setIf (m.type ≠ []) headerType m.type ++
    setSome headerTransactionId transaction ++
    [(literal "JMSXDeliveryCount", decimal m.redeliveryCounter),
      (literal "JMSXGroupSeq", decimal m.groupSequence)] ++
    setIf (m.groupId ≠ []) (literal "JMSXGroupID") m.groupId)

/-- `frame->setProperty`, once for each header. -/
def setProperties (frame : StompFrame) (headers : List (Bytes × Bytes)) : StompFrame :=
  { frame with properties := LinkedHashMap.putAll headers frame.properties }

/-- `convertProperties`: the fields, then the properties. -/
def convertProperties (wireFormat : Prefixes) (m : StompMessage) (frame : StompFrame) :
    Except Exn StompFrame :=
  (fieldHeaders wireFormat m).map fun headers =>
    setProperties (setProperties frame headers) m.properties

/-- `StompWireFormat::marshalMessage`. -/
def marshal (wireFormat : Prefixes) (m : StompMessage) : Except Exn StompFrame :=
  let frame := setProperties ⟨send, [], []⟩
    (setIf m.responseRequired headerReceiptRequired (decimal m.commandId))
  (convertProperties wireFormat m frame).map fun frame =>
    marshalMessage frame.properties m.content

/-- The names that the format gives to fields of a message. -/
def standardHeaders : List Bytes :=
  [headerReceiptRequired, headerDestination, headerCorrelationId, headerExpires, headerPersistent,
    headerRedelivered, headerJmsPriority, headerReplyTo, headerTimestamp, headerType,
    headerTransactionId, literal "JMSXDeliveryCount", literal "JMSXGroupSeq",
    literal "JMSXGroupID", contentLength]

/-- The message without its properties. -/
def StompMessage.bare (m : StompMessage) : StompMessage :=
  { m with properties := [], nodup := nodup_nil }

/-! ## Which header is set -/

variable {wireFormat : Prefixes} {m : StompMessage}

theorem keys_append (a b : LinkedHashMap Bytes Bytes) :
    LinkedHashMap.keys (a ++ b) = a.keys ++ b.keys := map_append

theorem setIf_sublist (condition : Bool) (name value : Bytes) :
    (LinkedHashMap.keys (setIf condition name value)).Sublist [name] := by
  cases condition
  · exact nil_sublist _
  · exact Sublist.refl _

theorem setSome_sublist (name : Bytes) (value : Option Bytes) :
    (LinkedHashMap.keys (setSome name value)).Sublist [name] := by
  cases value
  · exact nil_sublist _
  · exact Sublist.refl _

theorem nodup_standardHeaders : standardHeaders.Nodup := by decide +kernel

/-- Each field has a header of its own, in the order of `standardHeaders`. -/
theorem fieldHeaders_sublist {headers : List (Bytes × Bytes)}
    (h : fieldHeaders wireFormat m = .ok headers) :
    (headerReceiptRequired :: LinkedHashMap.keys headers ++ [contentLength]).Sublist
      standardHeaders := by
  rw [fieldHeaders] at h
  cases hmap : m.transactionId.mapM convertTransactionId with
  | error e =>
    rw [hmap] at h
    cases h
  | ok transaction =>
    rw [hmap] at h
    cases h
    simp only [keys_append]
    have hone : ∀ headers : LinkedHashMap Bytes Bytes, headers.keys.Sublist headers.keys :=
      fun headers => Sublist.refl _
    exact Sublist.append (Sublist.cons_cons headerReceiptRequired (
      (((((((((((hone _).append (setIf_sublist _ _ _)).append (hone _)).append
        (setIf_sublist _ _ _)).append (hone _)).append (setSome_sublist _ _)).append
        (hone _)).append (setIf_sublist _ _ _)).append (setSome_sublist _ _)).append
        (hone _)).append (setIf_sublist _ _ _)))) (Sublist.refl _)

/-- The headers of the fields, in front of the properties and of a `content-length`. -/
structure Own (own : LinkedHashMap Bytes Bytes) : Prop where
  nodup : own.keys.Nodup
  standard : ∀ name ∈ own.keys, name ∈ standardHeaders
  unsized : contentLength ∉ own.keys

/-- A message goes out with the headers of its fields, those of its properties over them. -/
theorem exists_own {frame : StompFrame} (h : marshal wireFormat m = .ok frame) :
    ∃ own, Own own ∧ marshal wireFormat m.bare = .ok (marshalMessage own m.content) ∧
      frame = marshalMessage (LinkedHashMap.putAll m.properties own) m.content := by
  cases hfields : fieldHeaders wireFormat m with
  | error e =>
    rw [marshal, convertProperties, hfields] at h
    cases h
  | ok headers =>
    have hfields' : fieldHeaders wireFormat m.bare = .ok headers := hfields
    generalize hreceipt : setIf m.responseRequired headerReceiptRequired (decimal m.commandId) =
      receipt
    have hsub : (LinkedHashMap.keys (receipt ++ headers) ++ [contentLength]).Sublist
        standardHeaders := by
      have hone : (LinkedHashMap.keys receipt).Sublist [headerReceiptRequired] :=
        hreceipt ▸ setIf_sublist _ _ _
      rw [keys_append]
      exact ((hone.append (Sublist.refl _)).append (Sublist.refl _)).trans
        (fieldHeaders_sublist hfields)
    have hnodup := hsub.nodup nodup_standardHeaders
    have hown : Own (receipt ++ headers) := by
      refine ⟨hnodup.of_append_left, fun name hname => ?_, fun hin => ?_⟩
      · exact hsub.subset (mem_append_left _ hname)
      · exact disjoint_of_nodup_append hnodup hin mem_cons_self
    have hset : setProperties (setProperties ⟨send, [], []⟩ receipt) headers =
        ⟨send, receipt ++ headers, []⟩ := by
      have hfirst : LinkedHashMap.putAll receipt [] = receipt := by
        rw [← hreceipt]
        cases m.responseRequired <;> rfl
      rw [setProperties, setProperties, hfirst, LinkedHashMap.putAll_of_disjoint hown.nodup]
    refine ⟨receipt ++ headers, hown, ?_, ?_⟩
    · show (convertProperties wireFormat m.bare (setProperties ⟨send, [], []⟩
        (setIf m.responseRequired headerReceiptRequired (decimal m.commandId)))).map _ = _
      rw [hreceipt, convertProperties, hfields']
      show Except.ok (marshalMessage (setProperties _ []).properties _) = _
      rw [hset]
      rfl
    · rw [marshal, hreceipt, convertProperties, hfields] at h
      cases h
      show marshalMessage (setProperties (setProperties _ headers) _).properties _ = _
      rw [hset]
      rfl

end ActivemqCpp.Stomp
