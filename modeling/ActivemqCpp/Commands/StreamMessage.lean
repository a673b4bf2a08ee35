import ActivemqCpp.Decaf.ByteArrayStreams
import ActivemqCpp.Openwire.PrimitiveTypes

/-!
# `ActiveMQStreamMessage`

The body of a stream message is a row of typed values: a type code, then the value. It is
written through a stream that `reset` turns into the content, and read back through a
stream on the content. A typed read takes the type code first; a value of a type that it does
not convert is left where it is. A byte array is read in pieces: `remainingBytes` is
what is left of it between two calls of `readBytes`, and `-1` outside an array.

The message is not compressed here. Numbers of floating point are their bit patterns; their
conversions from and to text, and from `float` to `double`, are a parameter
(`FloatConversions`).
-/

namespace ActivemqCpp.Commands

open Base Decaf Openwire

/-- What a call on the message throws. `broken` is memory behind the buffer written to. -/
inductive StreamFault where
  | messageEOF
  | messageFormat
  | messageNotReadable
  | messageNotWriteable
  | cms
  | broken
deriving DecidableEq, Repr

structure StreamMessage where
  content : Bytes
  readOnlyBody : Bool
  dataOut : Option ByteArrayOutputStream
  /-- What is left to read. -/
  dataIn : Option Bytes
  remainingBytes : Int
deriving DecidableEq, Repr

/-- The conversions that the typed reads use for floating point. -/
structure FloatConversions where
  parseFloat : Bytes → Except Exn (BitVec 32)
  parseDouble : Bytes → Except Exn (BitVec 64)
  floatText : BitVec 32 → Bytes
  doubleText : BitVec 64 → Bytes
  widen : BitVec 32 → BitVec 64

namespace StreamMessage

/-- `clearBody()`, which the constructor ends with. -/
def clearBody : StreamMessage := ⟨[], false, none, none, -1⟩

/-- `storeContent()`. -/
def storeContent (m : StreamMessage) : StreamMessage :=
  match m.dataOut with
  | none => m
  | some bytesOut =>
    { m with
      content := if bytesOut.bytes.length > 0 then bytesOut.bytes else m.content
      dataOut := none }

/-- `reset()`. -/
def reset (m : StreamMessage) : StreamMessage :=
  { m.storeContent with dataIn := none, dataOut := none, remainingBytes := -1, readOnlyBody := true }

/-! ## Writing -/

/-- `initializeWriting()`. -/
def initializeWriting (m : StreamMessage) : Except StreamFault ByteArrayOutputStream :=
  if m.readOnlyBody then .error .messageNotWriteable
  else .ok (m.dataOut.getD .new)

/-- A write: whatever the streams throw becomes a `CMSException`. -/
def writeWith (m : StreamMessage) (writer : OutWriter) : StreamMessage × Except StreamFault Unit :=
  match m.initializeWriting with
  | .error e => (m, .error e)
  | .ok bytesOut =>
    match writer bytesOut with
    | .ok () bytesOut => ({ m with dataOut := some bytesOut }, .ok ())
    | .error (.thrown _) bytesOut => ({ m with dataOut := some bytesOut }, .error .cms)
    | .error .broken bytesOut => ({ m with dataOut := some bytesOut }, .error .broken)

open ByteArrayOutputStream

/-- A type code and a value of fixed size, which is one byte or one short array. -/
def writeTyped (type : PrimitiveType) (value : Bytes) : OutWriter := do
  doWriteByte type.code
  match value with
  | [b] => doWriteByte b
  | value => doWriteArrayBounded value value.length

/-- `MarshallingSupport::writeString16`; the sizes are `int`s. -/
def writeString16 (value : Bytes) : OutWriter :=
  let strSize := wrap 32 value.length
  if strSize > 32767 then throw (.thrown .io)
  else do
    doWriteArrayBounded (writeShort (BitVec.ofInt 16 strSize)) 2
    if strSize > 0 then doWriteArrayBounded value strSize else pure ()

/-- `MarshallingSupport::writeString32`; no `int` is above `Integer::MAX_VALUE`. -/
def writeString32 (value : Bytes) : OutWriter :=
  let strSize := wrap 32 value.length
  if strSize > 2147483647 then throw (.thrown .io)
  else do
    doWriteArrayBounded (writeInt (BitVec.ofInt 32 strSize)) 4
    if strSize > 0 then doWriteArrayBounded value strSize else pure ()

/-- `MarshallingSupport::writeString`. -/
def marshalString (value : Bytes) : OutWriter :=
  if wrap 32 value.length ≤ bigStringLimit then do
    doWriteByte PrimitiveType.string.code
    writeString16 value
  else do
    doWriteByte PrimitiveType.bigString.code
    writeString32 value

/-- The body of `writeBytes(vector)`. -/
def marshalBytes (value : Bytes) : OutWriter := do
  let size := wrap 32 value.length
  doWriteByte PrimitiveType.byteArray.code
  doWriteArrayBounded (writeInt (BitVec.ofInt 32 size)) 4
  doWriteArrayBounded value size

/-- A value together with the type it is written and read as. -/
inductive Item where
  | boolean (value : Bool)
  | byte (value : UInt8)
  | char (value : UInt8)
  | short (value : BitVec 16)
  | unsignedShort (value : BitVec 16)
  | int (value : BitVec 32)
  | long (value : BitVec 64)
  | float (value : BitVec 32)
  | double (value : BitVec 64)
  | string (value : Bytes)
  | bytes (value : Bytes)
deriving DecidableEq, Repr

/-- `writeBoolean`, `writeByte`, …, `writeString` and `writeBytes(vector)`. -/
def writer : Item → OutWriter
  | .boolean value => writeTyped .boolean (writeBoolean value)
  | .byte value => writeTyped .byte (writeByte value)
  | .char value => writeTyped .char (writeByte value)
  | .short value => writeTyped .short (writeShort value)
  | .unsignedShort value => writeTyped .short (writeShort value)
  | .int value => writeTyped .integer (writeInt value)
  | .long value => writeTyped .long (writeLong value)
  | .float value => writeTyped .float (writeInt value)
  | .double value => writeTyped .double (writeLong value)
  | .string value => marshalString value
  | .bytes value => marshalBytes value

def write (m : StreamMessage) (item : Item) : StreamMessage × Except StreamFault Unit :=
  m.writeWith (writer item)

/-! ## Reading -/

/-- `initializeReading()`; the stream takes the size of the content for an `int`. -/
def initializeReading (m : StreamMessage) : StreamMessage × Except StreamFault Bytes :=
  if m.readOnlyBody = false then (m, .error .messageNotReadable)
  else
    match m.dataIn with
    | some input => (m, .ok input)
    | none =>
      let size := wrap 32 m.content.length
      if size < 0 then (m, .error .cms)
      else
        let input := m.content.take size.toNat
        ({ m with dataIn := some input }, .ok input)

/-- A typed read. `accept` says which types it takes and how; `numberFormat` is what a
text that is no number leads to. -/
def readTyped {α : Type} (m : StreamMessage) (accept : PrimitiveType → Option (InReader α))
    (numberFormat : StreamFault) : StreamMessage × Except StreamFault α :=
  match m.initializeReading with
  | (m, .error e) => (m, .error e)
  | (m, .ok input) =>
    match input with
    | [] => (m, .error .messageEOF)
    | code :: rest =>
      match PrimitiveType.ofCode code with
      | none => (m, .error .messageFormat)
      | some type =>
        match accept type with
        | none =>
          -- back to the mark, before the type code
          if type = .null then (m, .error .cms) else (m, .error .messageFormat)
        | some reader =>
          match reader rest with
          | .ok value rest => ({ m with dataIn := some rest }, .ok value)
          | .error .numberFormat _ => (m, .error numberFormat)
          | .error .eof rest => ({ m with dataIn := some rest }, .error .messageEOF)
          | .error .utfDataFormat rest => ({ m with dataIn := some rest }, .error .messageFormat)
          | .error .io rest => ({ m with dataIn := some rest }, .error .messageFormat)
          | .error _ rest => ({ m with dataIn := some rest }, .error .cms)

/-- `Byte::parseByte`. -/
def parseByte (text : Bytes) : Except Exn UInt8 :=
  match parseInt text with
  | .error e => .error e
  | .ok value => if 0 ≤ value ∧ value < 256 then .ok (UInt8.ofNat value.toNat) else .error .numberFormat

/-- `Short::parseShort`. -/
def parseShort (text : Bytes) : Except Exn (BitVec 16) :=
  match parseInt text with
  | .error e => .error e
  | .ok value =>
    if -2 ^ 15 ≤ value ∧ value < 2 ^ 15 then .ok (BitVec.ofInt 16 value) else .error .numberFormat

/-- A `char` is signed: what `readByte` returns is spread over the sign. -/
def readSignedByte (w : Nat) : InReader (BitVec w) :=
  (fun b : UInt8 => b.toBitVec.signExtend w) <$> onBytes Decaf.readByte

def readBoolean (m : StreamMessage) : StreamMessage × Except StreamFault Bool :=
  m.readTyped (fun
    | .boolean => some (onBytes Decaf.readBoolean)
    | .string => some (readParsed fun text => .ok (parseBoolean text))
    | _ => none) .cms

def readByte (m : StreamMessage) : StreamMessage × Except StreamFault UInt8 :=
  m.readTyped (fun
    | .byte => some (onBytes Decaf.readByte)
    | .string => some (readParsed parseByte)
    | _ => none) .messageFormat

def readChar (m : StreamMessage) : StreamMessage × Except StreamFault UInt8 :=
  m.readTyped (fun
    | .char => some (onBytes Decaf.readByte)
    | _ => none) .cms

def readShort (m : StreamMessage) : StreamMessage × Except StreamFault (BitVec 16) :=
  m.readTyped (fun
    | .short => some (onBytes Decaf.readShort)
    | .byte => some (readSignedByte 16)
    | .string => some (readParsed parseShort)
    | _ => none) .cms

def readUnsignedShort (m : StreamMessage) : StreamMessage × Except StreamFault (BitVec 16) :=
  m.readTyped (fun
    | .short => some (onBytes Decaf.readShort)
    | .byte => some ((fun b : UInt8 => b.toBitVec.setWidth 16) <$> onBytes Decaf.readByte)
    | .string => some (readParsed parseShort)
    | _ => none) .cms

def readInt (m : StreamMessage) : StreamMessage × Except StreamFault (BitVec 32) :=
  m.readTyped (fun
    | .integer => some (onBytes Decaf.readInt)
    | .short => some (BitVec.signExtend 32 <$> onBytes Decaf.readShort)
    | .byte => some (readSignedByte 32)
    | .string => some (readParsed fun text => (parseInt text).map (BitVec.ofInt 32))
    | _ => none) .cms

def readLong (m : StreamMessage) : StreamMessage × Except StreamFault (BitVec 64) :=
  m.readTyped (fun
    | .long => some (onBytes Decaf.readLong)
    | .integer => some (BitVec.signExtend 64 <$> onBytes Decaf.readInt)
    | .short => some (BitVec.signExtend 64 <$> onBytes Decaf.readShort)
    | .byte => some (readSignedByte 64)
    | .string => some (readParsed fun text => (parseLong text).map (BitVec.ofInt 64))
    | _ => none) .cms

section Floats

variable (conv : FloatConversions)

def readFloat (m : StreamMessage) : StreamMessage × Except StreamFault (BitVec 32) :=
  m.readTyped (fun
    | .float => some (onBytes Decaf.readInt)
    | .string => some (readParsed conv.parseFloat)
    | _ => none) .cms

def readDouble (m : StreamMessage) : StreamMessage × Except StreamFault (BitVec 64) :=
  m.readTyped (fun
    | .double => some (onBytes Decaf.readLong)
    | .float => some (conv.widen <$> onBytes Decaf.readInt)
    | .string => some (readParsed conv.parseDouble)
    | _ => none) .cms

/-- `MarshallingSupport::readString16`. -/
def readString16 : DataReader Bytes := do readSized (← Decaf.readShort)

/-- `MarshallingSupport::readString32`. -/
def readString32 : DataReader Bytes := do readSized (← Decaf.readInt)

def readString (m : StreamMessage) : StreamMessage × Except StreamFault Bytes :=
  m.readTyped (fun
    | .null => some (pure [])
    | .bigString => some (onBytes readString32)
    | .string => some (onBytes readString16)
    | .long => some ((fun v => decimal v.toInt) <$> onBytes Decaf.readLong)
    | .integer => some ((fun v => decimal v.toInt) <$> onBytes Decaf.readInt)
    | .short => some ((fun v => decimal v.toInt) <$> onBytes Decaf.readShort)
    | .byte => some ((fun b : UInt8 => decimalNat b.toNat) <$> onBytes Decaf.readByte)
    | .float => some (conv.floatText <$> onBytes Decaf.readInt)
    | .double => some (conv.doubleText <$> onBytes Decaf.readLong)
    -- true and false
    | .boolean => some ((fun b => if b then [116, 114, 117, 101] else [102, 97, 108, 115, 101]) <$>
        onBytes Decaf.readBoolean)
    | .char => some ((fun c => [c]) <$> onBytes Decaf.readByte)
    | _ => none) .cms

end Floats

/-- The second half of `readBytes`, within an array. A buffer of `2^31` bytes has a length
below zero. -/
def fillBuffer (m : StreamMessage) (input : Bytes) (length : Int) :
    StreamMessage × Except StreamFault (Option Bytes) :=
  if length ≤ m.remainingBytes then
    let m := { m with remainingBytes := wrap 32 (m.remainingBytes - length) }
    if length < 0 then (m, .error .cms)
    else if input.length < length then ({ m with dataIn := some [] }, .error .messageEOF)
    else ({ m with dataIn := some (input.drop length.toNat) },
      .ok (some (input.take length.toNat)))
  -- the size came from the stream
  else if m.remainingBytes < 0 then (m, .error .cms)
  else
    let size := m.remainingBytes.toNat
    let m := { m with remainingBytes := 0 }
    if size = 0 then (m, .ok (some []))
    else if input = [] then (m, .ok none)
    else ({ m with dataIn := some (input.drop size) }, .ok (some (input.take size)))

/-- `readBytes(buffer, length)`: the bytes put into the buffer, or `none` for `-1`. A value of
another type is not put back. -/
def readBytesInto (m : StreamMessage) (length : Int) :
    StreamMessage × Except StreamFault (Option Bytes) :=
  match m.initializeReading with
  | (m, .error e) => (m, .error e)
  | (m, .ok input) =>
    if m.remainingBytes = -1 then
      match input with
      | [] => (m, .error .messageEOF)
      | code :: rest =>
        if code ≠ PrimitiveType.byteArray.code then
          ({ m with dataIn := some rest }, .error .messageFormat)
        else
          match onBytes Decaf.readInt rest with
          | .error _ rest => ({ m with dataIn := some rest }, .error .messageEOF)
          | .ok size rest =>
            fillBuffer { m with dataIn := some rest, remainingBytes := size.toInt } rest length
    else if m.remainingBytes = 0 then ({ m with remainingBytes := -1 }, .ok none)
    else m.fillBuffer input length

/-- `readBytes(value)` with a vector of `size` bytes. -/
def readBytes (m : StreamMessage) (size : Nat) :
    StreamMessage × Except StreamFault (Option Bytes) :=
  if size = 0 then (m, .ok (some [])) else m.readBytesInto (wrap 32 size)

end StreamMessage

end ActivemqCpp.Commands
