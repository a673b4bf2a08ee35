import ActivemqCpp.Openwire.BrokerError

/-!
# Generated marshallers

The marshaller generator turns a class description (a chain of base classes, each
with its list of properties) into five functions: the two passes of the tight
encoding, its unmarshaller, and the loose pair. Here those functions take the class
description itself; a property that was introduced after the negotiated version is
neither written nor read.

Nested objects go through `OpenWireFormat`: a null flag, the type byte, then the
marshaller registered for that type.
-/

namespace ActivemqCpp.Openwire

open Base Decaf

/-! ## Objects -/

/-- The value of a property. `α` stands for nested objects, or for what becomes of
them in one of the functions below. -/
inductive FieldValue (α : Type)
  | boolean (value : Bool)
  | byte (value : UInt8)
  | char (value : UInt8)
  | short (value : BitVec 16)
  | int (value : BitVec 32)
  | long (value : BitVec 64)
  | string (value : Bytes)
  | byteArray (value : Bytes)
  | objectArray (values : List α)
  | throwable (error : ErrorChain)
  | object (value : α)

/-- A pointer to a `DataStructure`: its type and, class by class from the most derived
one down to the root, the values of its properties. -/
inductive DataStructure
  | null
  | object (type : UInt8) (levels : List (List (FieldValue DataStructure)))

namespace FieldValue

variable {α β : Type}

def map (f : α → β) : FieldValue α → FieldValue β
  | .boolean value => .boolean value
  | .byte value => .byte value
  | .char value => .char value
  | .short value => .short value
  | .int value => .int value
  | .long value => .long value
  | .string value => .string value
  | .byteArray value => .byteArray value
  | .objectArray values => .objectArray (values.map f)
  | .throwable error => .throwable error
  | .object value => .object (f value)

def children : FieldValue α → List α
  | .objectArray values => values
  | .object value => [value]
  | _ => []

end FieldValue

/-- The nested objects of an object. -/
def children {α : Type} (levels : List (List (FieldValue α))) : List α :=
  levels.flatMap fun fields => fields.flatMap FieldValue.children

section Fold

variable {β : Type} (null : β) (object : UInt8 → List (List (FieldValue β)) → β)

mutual

/-- Replace every object, from the innermost on, by what `null` and `object` make of it. -/
def DataStructure.fold : DataStructure → β
  | .null => null
  | .object type levels => object type (foldLevels levels)

def foldLevels : List (List (FieldValue DataStructure)) → List (List (FieldValue β))
  | [] => []
  | fields :: levels => foldFields fields :: foldLevels levels

def foldFields : List (FieldValue DataStructure) → List (FieldValue β)
  | [] => []
  | field :: fields => foldField field :: foldFields fields

def foldField : FieldValue DataStructure → FieldValue β
  | .objectArray values => .objectArray (foldObjects values)
  | .object value => .object (DataStructure.fold value)
  | .boolean value => .boolean value
  | .byte value => .byte value
  | .char value => .char value
  | .short value => .short value
  | .int value => .int value
  | .long value => .long value
  | .string value => .string value
  | .byteArray value => .byteArray value
  | .throwable error => .throwable error

def foldObjects : List DataStructure → List β
  | [] => []
  | value :: values => DataStructure.fold value :: foldObjects values

end

theorem foldObjects_eq (values : List DataStructure) :
    foldObjects null object values = values.map (DataStructure.fold null object) := by
  induction values with
  | nil => rfl
  | cons value values ih => rw [foldObjects, List.map_cons, ih]

theorem foldField_eq (field : FieldValue DataStructure) :
    foldField null object field = field.map (DataStructure.fold null object) := by
  cases field <;> simp [foldField, FieldValue.map, foldObjects_eq]

theorem foldFields_eq (fields : List (FieldValue DataStructure)) :
    foldFields null object fields =
      fields.map (FieldValue.map (DataStructure.fold null object)) := by
  induction fields with
  | nil => rfl
  | cons field fields ih => rw [foldFields, List.map_cons, foldField_eq, ih]

/-- One level of the fold. -/
theorem DataStructure.fold_object (type : UInt8) (levels : List (List (FieldValue DataStructure))) :
    DataStructure.fold null object (.object type levels) =
      object type (levels.map (List.map (FieldValue.map (DataStructure.fold null object)))) := by
  rw [DataStructure.fold]
  congr 1
  induction levels with
  | nil => rfl
  | cons fields levels ih => rw [foldLevels, List.map_cons, foldFields_eq, ih]

end Fold

/-! ## Class descriptions -/

/-- The types of properties the generator supports. An object property knows which
type bytes its C++ type can hold; a cached property is marshalled like any other. -/
inductive PropType
  | boolean
  | byte
  | char
  | short
  | int
  | long
  | string
  | byteArray (size : Option Nat)
  | objectArray (accepts : UInt8 → Bool)
  | throwable
  | object (accepts : UInt8 → Bool)

/-- A property with the version that introduced it and the value that the constructor
of the class gives it. -/
structure Property where
  type : PropType
  version : Nat
  default : FieldValue DataStructure

/-- The properties of a class, then those of its base class, down to the root. -/
structure ClassDesc where
  levels : List (List Property)
  marshalAware : Bool

/-- The settings of an `OpenWireFormat` and its table of marshallers. -/
structure WireFormat where
  version : Nat
  stackTraceEnabled : Bool
  dataMarshallers : UInt8 → Option ClassDesc

/-- The guard around a property; there is none for version 1. -/
def Property.active (property : Property) (wireVersion : Nat) : Bool :=
  property.version ≤ 1 || property.version ≤ wireVersion

/-- The value in a new object. An array of objects starts empty. -/
def Property.initial (property : Property) : FieldValue DataStructure :=
  match property.type with
  | .objectArray _ => .objectArray []
  | _ => property.default

variable (format : WireFormat)

/-! ## First pass -/

/-- The bytes that `generateTightMarshal1Body` adds to `baseSize`, whatever the guard. -/
def PropType.baseSize : PropType → Nat
  | .byte => 1
  | .char => 2
  | .short => 2
  | .int => 4
  | .byteArray (some size) => size
  | _ => 0

def baseSize (properties : List Property) : Nat :=
  (properties.map fun property => property.type.baseSize).sum

/-- `return rc + baseSize`. -/
def addSize (size : Nat) (first : Pass1) : Pass1 :=
  first.map fun counted => (counted.1 + BitVec.ofNat 32 size, counted.2)

/-- `tightMarshalObjectArray1`. -/
def tightMarshalObjectArray1 (objects : List Pass1) : Pass1 :=
  if objects = [] then countFlag false (.ok (0, []))
  else countFlag true (countBoth (.ok (2, [])) (countAll objects))

/-- What the first pass does for an active property. A value of another type than the
property's cannot occur. -/
def tightField1 : PropType → FieldValue Pass1 → Pass1
  | .boolean, .boolean value => countFlag value (.ok (0, []))
  | .byte, .byte _ => .ok (0, [])
  | .char, .char _ => .ok (0, [])
  | .short, .short _ => .ok (0, [])
  | .int, .int _ => .ok (0, [])
  | .long, .long value => .ok ((tightMarshalLong1 value).1, (tightMarshalLong1 value).2)
  | .string, .string value => tightMarshalString1 value
  | .byteArray none, .byteArray data =>
    if data = [] then countFlag false (.ok (0, []))
    else countFlag true (.ok (BitVec.ofNat 32 data.length + 4, []))
  | .byteArray (some _), .byteArray _ => .ok (0, [])
  | .objectArray _, .objectArray objects => tightMarshalObjectArray1 objects
  | .throwable, .throwable error => tightMarshalBrokerError1 format.stackTraceEnabled error
  | .object _, .object nested => nested
  | _, _ => .error .classCast

/-- The body that `generateTightMarshal1Body` prints. -/
def tightBody1 : List Property → List (FieldValue Pass1) → Pass1
  | [], [] => .ok (0, [])
  | property :: properties, field :: fields =>
    countBoth
      (if property.active format.version then tightField1 format property.type field
        else .ok (0, []))
      (tightBody1 properties fields)
  | _, _ => .error .classCast

/-- `tightMarshal1` of a class: the base class first. -/
def tightMarshal1 : List (List Property) → List (List (FieldValue Pass1)) → Pass1
  | [], [] => .ok (0, [])
  | own :: base, fields :: levels =>
    countBoth (tightMarshal1 base levels) (addSize (baseSize own) (tightBody1 format own fields))
  | _, _ => .error .classCast

/-- `OpenWireFormat::tightMarshalNestedObject1`. -/
def tightMarshalNestedObject1 : DataStructure → Pass1 :=
  DataStructure.fold (countFlag false (.ok (0, []))) fun type levels =>
    match format.dataMarshallers type with
    | none => .error .io
    | some cls =>
      if type = 0 then .error .io
      else
        countFlag true
          -- a marshal-aware object says whether it has a marshalled form; none has
          ((if cls.marshalAware then countFlag false else id)
            (countBoth (.ok (1, [])) (tightMarshal1 format cls.levels levels)))

/-! ## Second pass -/

/-- `tightMarshalObjectArray2`. -/
def tightMarshalObjectArray2 (objects : List DataEmitter) : DataEmitter :=
  onFlag fun present =>
    if present then
      emitBoth (emitItems (writeShort (BitVec.ofNat 16 objects.length))) (emitAll objects)
    else emitItems []

/-- What the second pass does for an active property. -/
def tightField2 : PropType → FieldValue DataEmitter → DataEmitter
  | .boolean, .boolean _ => onFlag fun _ => emitItems []
  | .byte, .byte value => emitItems (writeByte value)
  | .char, .char value => emitItems (writeByte value)
  | .short, .short value => emitItems (writeShort value)
  | .int, .int value => emitItems (writeInt value)
  | .long, .long value => tightMarshalLong2 value
  | .string, .string value => tightMarshalString2 value
  | .byteArray none, .byteArray data => onFlag fun present =>
    if present then emitItems (writeInt (BitVec.ofNat 32 data.length) ++ data) else emitItems []
  | .byteArray (some size), .byteArray data => emitItems (data.take size)
  | .objectArray _, .objectArray objects => tightMarshalObjectArray2 objects
  | .throwable, .throwable error => tightMarshalBrokerError2 format.stackTraceEnabled error
  | .object _, .object nested => nested
  | _, _ => emitExcept (.error .classCast)

/-- The body that `generateTightMarshal2Body` prints. -/
def tightBody2 : List Property → List (FieldValue DataEmitter) → DataEmitter
  | [], [] => emitItems []
  | property :: properties, field :: fields =>
    emitBoth
      (if property.active format.version then tightField2 format property.type field
        else emitItems [])
      (tightBody2 properties fields)
  | _, _ => emitExcept (.error .classCast)

/-- `tightMarshal2` of a class. -/
def tightMarshal2 : List (List Property) → List (List (FieldValue DataEmitter)) → DataEmitter
  | [], [] => emitItems []
  | own :: base, fields :: levels =>
    emitBoth (tightMarshal2 base levels) (tightBody2 format own fields)
  | _, _ => emitExcept (.error .classCast)

/-- `OpenWireFormat::tightMarshalNestedObject2`. -/
def tightMarshalNestedObject2 : DataStructure → DataEmitter :=
  DataStructure.fold
    (onFlag fun present =>
      -- a present object is dereferenced
      if present then emitExcept (.error .nullPointer) else emitItems [])
    fun type levels => onFlag fun present =>
      if present then
        emitBoth (emitItems (writeByte type))
          (match format.dataMarshallers type with
          | none => emitExcept (.error .io)
          | some cls =>
            if cls.marshalAware then
              onFlag fun sequence =>
                if sequence then emitItems [] else tightMarshal2 format cls.levels levels
            else tightMarshal2 format cls.levels levels)
      else emitItems []

/-! ## Tight unmarshalling -/

/-- `dynamic_cast` to the type of a property. -/
def castTo (accepts : UInt8 → Bool) : DataStructure → DataStructure
  | .null => .null
  | .object type levels => if accepts type then .object type levels else .null

/-- The values behind a signed 16-bit size, appended to an empty vector. -/
def readObjects (accepts : UInt8 → Bool) (nested : DataReader DataStructure) :
    DataReader (List DataStructure) := do
  let size ← readShort
  -- `reserve` takes no negative size
  if size.toInt < 0 then throw .io
  else readLoop (pushItem (castTo accepts <$> nested)) size.toInt.toNat []

/-- What the unmarshaller does for an active property, with the readers of an error
and of a nested object. -/
def tightUnmarshalField (error : DataReader ErrorChain) (nested : DataReader DataStructure) :
    PropType → DataReader (FieldValue DataStructure)
  | .boolean => .boolean <$> readFlag
  | .byte => .byte <$> readByte
  | .char => .char <$> readByte
  | .short => .short <$> readShort
  | .int => .int <$> readInt
  | .long => .long <$> tightUnmarshalLong
  | .string => .string <$> tightUnmarshalString
  | .byteArray none => do
    if ← readFlag then .byteArray <$> (readInt >>= readSized) else pure (.byteArray [])
  | .byteArray (some size) => .byteArray <$> readFully size
  | .objectArray accepts => do
    if ← readFlag then .objectArray <$> readObjects accepts nested
    else pure (.objectArray [])
  | .throwable => .throwable <$> error
  | .object accepts => (fun value => .object (castTo accepts value)) <$> nested

/-- A property with its guard, with what the unmarshaller does for an active one. -/
def unmarshalProperty (field : PropType → DataReader (FieldValue DataStructure))
    (property : Property) : DataReader (FieldValue DataStructure) :=
  if property.active format.version then field property.type else pure property.initial

/-- The body of an unmarshaller. -/
def unmarshalBody (field : PropType → DataReader (FieldValue DataStructure)) :
    List Property → DataReader (List (FieldValue DataStructure))
  | [] => pure []
  | property :: properties => do
    let value ← unmarshalProperty format field property
    let values ← unmarshalBody field properties
    pure (value :: values)

/-- An unmarshaller: the base class first. -/
def unmarshalLevels (field : PropType → DataReader (FieldValue DataStructure)) :
    List (List Property) → DataReader (List (List (FieldValue DataStructure)))
  | [] => pure []
  | own :: base => do
    let levels ← unmarshalLevels field base
    let fields ← unmarshalBody format field own
    pure (fields :: levels)

/-- `tightUnmarshal` of a class. -/
def tightUnmarshal (error : DataReader ErrorChain) (nested : DataReader DataStructure) :
    List (List Property) → DataReader (List (List (FieldValue DataStructure))) :=
  unmarshalLevels format (tightUnmarshalField error nested)

/-- `OpenWireFormat::tightUnmarshalNestedObject`, with the unmarshaller of a class. -/
def tightNestedObject
    (unmarshal : List (List Property) → DataReader (List (List (FieldValue DataStructure)))) :
    DataReader DataStructure := do
  if ← readFlag then
    let type ← readByte
    match format.dataMarshallers type with
    | none => throw .io
    | some cls =>
      if cls.marshalAware then
        if ← readFlag then
          -- the marshalled form is a whole command, with booleans of its own
          let _ ← readInt
          let _ ← readByte
          let booleans ← BooleanStream.unmarshalBooleans
          .object type <$> withBooleans booleans (unmarshal cls.levels)
        else .object type <$> unmarshal cls.levels
      else .object type <$> unmarshal cls.levels
  else pure .null

/-- A nested object reads its type byte before what it nests, so with as much fuel as
there are bytes the last level is never reached. -/
def tightUnmarshalNestedObject : (fuel : Nat) → DataReader DataStructure
  | 0 => tightNestedObject format fun _ => throw .eof
  | fuel + 1 => tightNestedObject format
      (tightUnmarshal format (tightUnmarshalBrokerError format.stackTraceEnabled fuel)
        (tightUnmarshalNestedObject fuel))

/-! ## Loose encoding -/

/-- `looseMarshalObjectArray`. -/
def looseMarshalObjectArray (objects : List Written) : Written :=
  if objects = [] then .ok [writeBoolean false]
  else
    writeBoth (.ok [writeBoolean true])
      (writeBoth (.ok [writeShort (BitVec.ofNat 16 objects.length)]) (writeAll objects))

def looseField : PropType → FieldValue Written → Written
  | .boolean, .boolean value => .ok [writeBoolean value]
  | .byte, .byte value => .ok [writeByte value]
  | .char, .char value => .ok [writeByte value]
  | .short, .short value => .ok [writeShort value]
  | .int, .int value => .ok [writeInt value]
  | .long, .long value => .ok [writeLong value]
  | .string, .string value => looseMarshalString value
  | .byteArray none, .byteArray data =>
    if data = [] then .ok [writeBoolean false]
    else .ok [writeBoolean true, writeInt (BitVec.ofNat 32 data.length), data]
  | .byteArray (some size), .byteArray data => .ok [data.take size]
  | .objectArray _, .objectArray objects => looseMarshalObjectArray objects
  | .throwable, .throwable error => looseMarshalBrokerError format.stackTraceEnabled error
  | .object _, .object nested => nested
  | _, _ => .error .classCast

/-- The body that `generateLooseMarshalBody` prints. -/
def looseBody : List Property → List (FieldValue Written) → Written
  | [], [] => .ok []
  | property :: properties, field :: fields =>
    writeBoth
      (if property.active format.version then looseField format property.type field else .ok [])
      (looseBody properties fields)
  | _, _ => .error .classCast

/-- `looseMarshal` of a class. -/
def looseMarshal : List (List Property) → List (List (FieldValue Written)) → Written
  | [], [] => .ok []
  | own :: base, fields :: levels =>
    writeBoth (looseMarshal base levels) (looseBody format own fields)
  | _, _ => .error .classCast

/-- `OpenWireFormat::looseMarshalNestedObject`. -/
def looseMarshalNestedObject : DataStructure → Written :=
  DataStructure.fold (.ok [writeBoolean false]) fun type levels =>
    writeBoth (.ok [writeBoolean true])
      (writeBoth (.ok [writeByte type])
        (match format.dataMarshallers type with
        | none => .error .io
        | some cls => looseMarshal format cls.levels levels))

def looseUnmarshalField (error : DataReader ErrorChain) (nested : DataReader DataStructure) :
    PropType → DataReader (FieldValue DataStructure)
  | .boolean => .boolean <$> readBoolean
  | .byte => .byte <$> readByte
  | .char => .char <$> readByte
  | .short => .short <$> readShort
  | .int => .int <$> readInt
  | .long => .long <$> readLong
  | .string => .string <$> looseUnmarshalString
  | .byteArray none => do
    if ← readBoolean then .byteArray <$> (readInt >>= readSized) else pure (.byteArray [])
  | .byteArray (some size) => .byteArray <$> readFully size
  | .objectArray accepts => do
    if ← readBoolean then .objectArray <$> readObjects accepts nested
    else pure (.objectArray [])
  | .throwable => .throwable <$> error
  | .object accepts => (fun value => .object (castTo accepts value)) <$> nested

/-- `looseUnmarshal` of a class. -/
def looseUnmarshal (error : DataReader ErrorChain) (nested : DataReader DataStructure) :
    List (List Property) → DataReader (List (List (FieldValue DataStructure))) :=
  unmarshalLevels format (looseUnmarshalField error nested)

/-- `OpenWireFormat::looseUnmarshalNestedObject`, with the unmarshaller of a class. -/
def looseNestedObject
    (unmarshal : List (List Property) → DataReader (List (List (FieldValue DataStructure)))) :
    DataReader DataStructure := do
  if ← readBoolean then
    let type ← readByte
    match format.dataMarshallers type with
    | none => throw .io
    | some cls => .object type <$> unmarshal cls.levels
  else pure .null

def looseUnmarshalNestedObject : (fuel : Nat) → DataReader DataStructure
  | 0 => looseNestedObject format fun _ => throw .eof
  | fuel + 1 => looseNestedObject format
      (looseUnmarshal format (looseUnmarshalBrokerError format.stackTraceEnabled fuel)
        (looseUnmarshalNestedObject fuel))

/-! ## A whole object -/

/-- The first pass of `OpenWireFormat::marshal` over an object of the class. -/
def tightMarshalObject1 (cls : ClassDesc) (levels : List (List (FieldValue DataStructure))) :
    Pass1 :=
  tightMarshal1 format cls.levels
    (levels.map (List.map (FieldValue.map (tightMarshalNestedObject1 format))))

/-- The second pass. -/
def tightMarshalObject2 (cls : ClassDesc) (levels : List (List (FieldValue DataStructure))) :
    DataEmitter :=
  tightMarshal2 format cls.levels
    (levels.map (List.map (FieldValue.map (tightMarshalNestedObject2 format))))

/-- Tight decoding into a new object of the class; the fuel is what is on the stream. -/
def tightUnmarshalObject (cls : ClassDesc) :
    DataReader (List (List (FieldValue DataStructure))) := fun input =>
  tightUnmarshal format
    (tightUnmarshalBrokerError format.stackTraceEnabled input.items.length)
    (tightUnmarshalNestedObject format input.items.length) cls.levels input

/-- Loose encoding of an object of the class. -/
def looseMarshalObject (cls : ClassDesc) (levels : List (List (FieldValue DataStructure))) :
    Written :=
  looseMarshal format cls.levels
    (levels.map (List.map (FieldValue.map (looseMarshalNestedObject format))))

/-- Loose decoding into a new object of the class. -/
def looseUnmarshalObject (cls : ClassDesc) :
    DataReader (List (List (FieldValue DataStructure))) := fun input =>
  looseUnmarshal format
    (looseUnmarshalBrokerError format.stackTraceEnabled input.items.length)
    (looseUnmarshalNestedObject format input.items.length) cls.levels input

end ActivemqCpp.Openwire
