import ActivemqCpp.Openwire.Schema

/-!
# Laws of the generated marshallers

For every class description and every object within the encodable limits, by one
induction over the nesting of the object (`twoPass_nestedObject`):

* the first pass counts the bytes of the second and `surplus` more. The surplus comes
  from the sizes that are added whatever the version guard (and from `char`, counted
  as two bytes and written as one), so the count is exact *iff* the object has no such
  property (`tightMarshal1_exact_iff`);
* tight and loose decoding consume exactly what was written and give `visible`: the
  object as the negotiated version and the stack trace setting let it through
  (`schema_roundTrip`).
-/

namespace ActivemqCpp.Openwire

open Base Decaf List FieldValue DataStructure TwoPass

variable (format : WireFormat)

/-! ## Objects that can be encoded -/

/-- The object fits into a property of the type. -/
def Accepted (accepts : UInt8 → Bool) : DataStructure → Prop
  | .null => True
  | .object type _ => accepts type = true

/-- The value has the type of the property and can be encoded: strings of less than
`limit` encoded bytes, sizes that fit their length field, and for a property of fixed
size exactly that many bytes. -/
def FieldFits (limit : Nat) : PropType → FieldValue DataStructure → Prop
  | .boolean, .boolean _ => True
  | .byte, .byte _ => True
  | .char, .char _ => True
  | .short, .short _ => True
  | .int, .int _ => True
  | .long, .long _ => True
  | .string, .string value => countUTFLength value < limit
  | .byteArray none, .byteArray data => data.length < 2 ^ 31
  | .byteArray (some size), .byteArray data => data.length = size
  | .objectArray accepts, .objectArray values =>
    values.length ≤ 32767 ∧ ∀ value ∈ values, Accepted accepts value
  | .throwable, .throwable error => ∀ level ∈ error, level.Fits limit
  | .object accepts, .object value => Accepted accepts value
  | _, _ => False

/-- An object of the class, value by value. -/
def Fits (limit : Nat) (cls : List (List Property))
    (levels : List (List (FieldValue DataStructure))) : Prop :=
  Forall₂ (Forall₂ fun property field => FieldFits limit property.type field) cls levels

/-- An object that can be encoded, with everything that it nests. -/
inductive Encodable (limit : Nat) : DataStructure → Prop
  | null : Encodable limit .null
  | object {type : UInt8} {levels : List (List (FieldValue DataStructure))} {cls : ClassDesc}
      (registered : format.dataMarshallers type = some cls) (valid : type ≠ 0)
      (fits : Fits limit cls.levels levels)
      (nested : ∀ value ∈ children levels, Encodable limit value) :
      Encodable limit (.object type levels)

/-! ## What is counted and not written -/

/-- The properties of a class with the values of an object. -/
def paired {α : Type} (cls : List (List Property)) (levels : List (List (FieldValue α))) :
    List (Property × FieldValue α) :=
  (zipWith zip cls levels).flatten

def PropType.isChar : PropType → Bool
  | .char => true
  | _ => false

/-- The bytes counted for a property beyond those written. -/
def Property.surplus (property : Property) (wireVersion : Nat) : Nat :=
  if property.active wireVersion then property.type.isChar.toNat else property.type.baseSize

/-- The bytes counted beyond those written for some properties, given those of the
nested objects. -/
def surplusOf (pairs : List (Property × FieldValue Nat)) : Nat :=
  (pairs.map fun pair => pair.1.surplus format.version +
    if pair.1.active format.version then pair.2.children.sum else 0).sum

def surplus : DataStructure → Nat :=
  fold 0 fun type levels =>
    match format.dataMarshallers type with
    | none => 0
    | some cls => surplusOf format (paired cls.levels levels)

variable {α : Type}

theorem paired_cons (own : List Property) (base : List (List Property))
    (fields : List (FieldValue α)) (levels : List (List (FieldValue α))) :
    paired (own :: base) (fields :: levels) = own.zip fields ++ paired base levels := rfl

theorem surplusOf_append (pairs pairs' : List (Property × FieldValue Nat)) :
    surplusOf format (pairs ++ pairs') = surplusOf format pairs + surplusOf format pairs' := by
  simp [surplusOf]

/-- The size of the property is added to the count exactly when it is written, and as
it is written. -/
def Property.Counted (property : Property) (wireVersion : Nat) : Prop :=
  property.type.isChar = false ∧
    (property.active wireVersion = true ∨ property.type.baseSize = 0)

/-- Every property of the class is counted exactly, and so is every object nested in a
property that is written. -/
def CountedBy (cls : List (List Property)) (levels : List (List (FieldValue Prop))) : Prop :=
  ∀ pair ∈ paired cls levels, pair.1.Counted format.version ∧
    (pair.1.active format.version = true → ∀ counted ∈ pair.2.children, counted)

def Counted : DataStructure → Prop :=
  fold True fun type levels =>
    match format.dataMarshallers type with
    | none => True
    | some cls => CountedBy format cls.levels levels

/-! ## What is decoded -/

/-- The value as it arrives: an error may lose its trace and its cause. -/
def passed : FieldValue DataStructure → FieldValue DataStructure
  | .throwable error => .throwable (seenBy format.stackTraceEnabled error)
  | field => field

/-- The value that is decoded for a property: that of the object, or the initial one if
the property is later than the negotiated version. -/
def visibleField (property : Property) (field : FieldValue DataStructure) :
    FieldValue DataStructure :=
  if property.active format.version then passed format field else property.initial

def visibleLevels (cls : List (List Property))
    (levels : List (List (FieldValue DataStructure))) :
    List (List (FieldValue DataStructure)) :=
  zipWith (zipWith (visibleField format)) cls levels

/-- The object that is decoded. -/
def visible : DataStructure → DataStructure :=
  fold .null fun type levels =>
    match format.dataMarshallers type with
    | none => .object type levels
    | some cls => .object type (visibleLevels format cls.levels levels)

variable {accepts : UInt8 → Bool} {value : DataStructure}

/-- A decoded object has the type of the original. -/
theorem castTo_visible
    (h : Accepted accepts value) : castTo accepts (visible format value) = visible format value := by
  cases value with
  | null => rfl
  | object type levels =>
    have haccepts : accepts type = true := h
    rw [visible, fold_object]
    cases format.dataMarshallers type <;> simp [castTo, haccepts]

/-! ## Tight encoding -/

theorem addSize_zero (first : Pass1) : addSize 0 first = first := by
  cases first <;> simp [addSize, Except.map]

variable {reader : Nat → DataReader α}

theorem twoPass_addSize_zero {ok : Prop} {first : Pass1} {second : DataEmitter}
    {extra : Nat} {value : α} (h : TwoPass ok first second reader extra value) :
    TwoPass ok (addSize 0 first) second reader (0 + extra) value := by
  rwa [addSize_zero, Nat.zero_add]

/-- Sizes may be added part by part. -/
theorem addSize_countBoth (size size' : Nat) (first second : Pass1) :
    addSize (size + size') (countBoth first second) =
      countBoth (addSize size first) (addSize size' second) := by
  cases first with
  | error e => rfl
  | ok counted =>
    cases second with
    | error e => rfl
    | ok counted' =>
      show Except.ok (_, _) = Except.ok (_, _)
      congr 2
      rw [BitVec.ofNat_add]
      exact add_add_add_comm ..

variable {limit : Nat} {values : List DataStructure}

/-- The three parts of the tight encoding of a nested object agree. -/
def NestedTwoPass (limit : Nat) (value : DataStructure) : Prop :=
  TwoPass (limit ≤ 32768) (tightMarshalNestedObject1 format value)
    (tightMarshalNestedObject2 format value) (tightUnmarshalNestedObject format)
    (surplus format value) (visible format value)

/-- The unmarshaller of a property at some fuel. -/
def tightReader (type : PropType) (fuel : Nat) : DataReader (FieldValue DataStructure) :=
  tightUnmarshalField (tightUnmarshalBrokerError format.stackTraceEnabled fuel)
    (tightUnmarshalNestedObject format fuel) type

theorem twoPass_objectArray (hlength : values.length ≤ 32767)
    (haccepted : ∀ value ∈ values, Accepted accepts value)
    (hnested : ∀ value ∈ values, NestedTwoPass format limit value) :
    TwoPass (limit ≤ 32768)
      (tightMarshalObjectArray1 (values.map (tightMarshalNestedObject1 format)))
      (tightMarshalObjectArray2 (values.map (tightMarshalNestedObject2 format)))
      (tightReader format (.objectArray accepts)) (values.map (surplus format)).sum
      (.objectArray (values.map (visible format))) := by
  unfold tightMarshalObjectArray1
  by_cases hnil : values = []
  · subst hnil
    refine flag ?_
    exact twoPass_flags (emits_items []) fun _ _ => decodes_pure _
  · rw [if_neg (by simpa using hnil)]
    refine flag (map ?_ objectArray)
    have hsize : TwoPass (limit ≤ 32768) (.ok ((2 : BitVec 32), []))
        (emitItems (writeShort (BitVec.ofNat 16 values.length))) (fun _ => readShort) 0
        (BitVec.ofNat 16 values.length) :=
      twoPass_items (by simp [writeShort]) fun _ _ _ => decodes_readShort _
    rw [length_map]
    refine hsize.exactly ?_
    have hnonneg : ¬ values.length < 0 := by omega
    simp only [toInt_ofNat_of_lt (show 2 * values.length < 2 ^ 16 by omega)]
    refine twoPass_list (fun value hvalue => ?_) []
    have hcast := (hnested value hvalue).map (castTo accepts)
    rwa [castTo_visible format (haccepted value hvalue)] at hcast

/-- A property of a fixed width, which the base size counts. -/
theorem twoPass_fixed {ok : Prop} {items : Bytes} {count extra : Nat} {reader : DataReader α}
    {value : α} (f : α → FieldValue DataStructure) (hcount : count = items.length + extra)
    (h : Decodes reader items [] value) :
    TwoPass ok (addSize count (.ok (0, []))) (emitItems items) (fun _ => f <$> reader) extra
      (f value) := by
  show TwoPass ok (.ok (0 + BitVec.ofNat 32 count, [])) _ _ _ _
  exact twoPass_items (by rw [zero_add, hcount]; rfl) fun _ _ _ => h.map f

theorem twoPass_byteArray {data : Bytes} (h : data.length < 2 ^ 31) :
    TwoPass (limit ≤ 32768) (tightField1 format (.byteArray none) (.byteArray data))
      (tightField2 format (.byteArray none) (.byteArray data))
      (tightReader format (.byteArray none)) 0 (.byteArray data) := by
  rw [tightField1]
  by_cases hnil : data = []
  · subst hnil
    refine flag ?_
    exact twoPass_flags (emits_items []) fun _ _ => decodes_pure _
  · rw [if_neg hnil]
    refine flag (map ?_ byteArray)
    refine twoPass_items ?_ fun _ _ _ =>
      (decodes_readInt _).thenItems (decodes_readSized (by omega))
    rw [length_append, writeInt, length_bigEndian, Nat.add_comm, Nat.zero_add, Nat.add_comm]
    exact (BitVec.ofNat_add _ _).symm

variable {field : FieldValue DataStructure} (hlimit : limit ≤ 65536)
  (hnested : ∀ value ∈ field.children, NestedTwoPass format limit value)
include hlimit hnested

/-- An active property: its values agree, one case for each type of property. -/
theorem twoPass_field {type : PropType} (hfits : FieldFits limit type field) :
    TwoPass (limit ≤ 32768) (addSize type.baseSize
        (tightField1 format type (field.map (tightMarshalNestedObject1 format))))
      (tightField2 format type (field.map (tightMarshalNestedObject2 format)))
      (tightReader format type)
      (type.isChar.toNat + (field.map (surplus format)).children.sum)
      (passed format (field.map (visible format))) := by
  cases type
  case' byteArray size => cases size
  all_goals cases field <;> try exact hfits.elim
  case boolean.boolean =>
    refine twoPass_addSize_zero (twoPass_flags (emits_withFlag Exn.io (emits_items [])) ?_)
    exact fun _ _ => (decodes_takeFlag Exn.io _).map boolean
  case byte.byte => exact twoPass_fixed byte rfl (decodes_readByte _)
  case char.char => exact twoPass_fixed char rfl (decodes_readByte _)
  case short.short => exact twoPass_fixed short rfl (decodes_readShort _)
  case int.int => exact twoPass_fixed int rfl (decodes_readInt _)
  case long.long =>
    exact twoPass_addSize_zero (((twoPass_long _).cast.mono fun _ => trivial).map long)
  case string.string =>
    exact twoPass_addSize_zero ((twoPass_string_limit hlimit hfits).map string)
  case byteArray.none.byteArray =>
    exact twoPass_addSize_zero (twoPass_byteArray format hfits)
  case byteArray.some.byteArray size data =>
    obtain rfl : data.length = size := hfits
    have htake : data.take data.length = data := take_length
    simp only [FieldValue.map, tightField2, htake]
    exact twoPass_fixed FieldValue.byteArray rfl (decodes_readFully data rfl)
  case objectArray.objectArray =>
    exact twoPass_addSize_zero (twoPass_objectArray format hfits.1 hfits.2 hnested)
  case throwable.throwable =>
    exact twoPass_addSize_zero ((twoPass_brokerError hlimit _ hfits).map throwable)
  case object.object accepts value =>
    have hcast := (hnested value (mem_singleton_self value)).map fun v =>
      object (castTo accepts v)
    rw [castTo_visible format hfits] at hcast
    exact twoPass_addSize_zero hcast

variable {property : Property}

/-- A property with its guard. -/
theorem twoPass_property (hfits : FieldFits limit property.type field) :
    TwoPass (limit ≤ 32768) (addSize property.type.baseSize (if property.active format.version then
        tightField1 format property.type (field.map (tightMarshalNestedObject1 format))
        else .ok (0, [])))
      (if property.active format.version then
        tightField2 format property.type (field.map (tightMarshalNestedObject2 format))
        else emitItems [])
      (fun fuel => unmarshalProperty format (fun type => tightReader format type fuel) property)
      (property.surplus format.version + if property.active format.version then
        (field.map (surplus format)).children.sum else 0)
      (visibleField format property (field.map (visible format))) := by
  unfold Property.surplus visibleField unmarshalProperty
  cases hactive : property.active format.version with
  | true => exact twoPass_field format hlimit hnested hfits
  | false =>
    -- nothing is written, but the base size is counted
    exact twoPass_items (by simp) fun _ _ _ => decodes_pure _

omit hnested

variable {fields : List (FieldValue DataStructure)} {properties : List Property}

/-- The body of one class. -/
theorem twoPass_body (hfits : Forall₂ (fun property field => FieldFits limit property.type field)
      properties fields)
    (hnested : ∀ value ∈ fields.flatMap FieldValue.children, NestedTwoPass format limit value) :
    TwoPass (limit ≤ 32768)
      (addSize (baseSize properties)
        (tightBody1 format properties (fields.map (map (tightMarshalNestedObject1 format)))))
      (tightBody2 format properties (fields.map (map (tightMarshalNestedObject2 format))))
      (fun fuel => unmarshalBody format (fun type => tightReader format type fuel) properties)
      (surplusOf format (properties.zip (fields.map (map (surplus format)))))
      (zipWith (visibleField format) properties
        (fields.map (map (visible format)))) := by
  induction hfits with
  | nil => exact twoPass_flags (emits_items []) fun _ _ => decodes_pure _
  | @cons property field properties fields hfield _ ih =>
    rw [flatMap_cons, forall_mem_append] at hnested
    have hfirst := twoPass_property format hlimit hnested.1 hfield
    have hrest := ih hnested.2
    rw [show baseSize (property :: properties) = property.type.baseSize + baseSize properties
      from rfl]
    simp only [map_cons, tightBody1, addSize_countBoth]
    refine hfirst.bind ?_
    exact hrest.map (visibleField format property (field.map (visible format)) :: ·)

variable {cls : List (List Property)} {levels : List (List (FieldValue DataStructure))}

/-- The marshallers of a class: the base class, then its own body. -/
theorem twoPass_levels (hfits : Fits limit cls levels)
    (hnested : ∀ value ∈ children levels, NestedTwoPass format limit value) :
    TwoPass (limit ≤ 32768) (tightMarshal1 format cls
        (levels.map (map (map (tightMarshalNestedObject1 format)))))
      (tightMarshal2 format cls
        (levels.map (map (map (tightMarshalNestedObject2 format)))))
      (fun fuel => unmarshalLevels format (fun type => tightReader format type fuel) cls)
      (surplusOf format (paired cls (levels.map (map (map (surplus format))))))
      (visibleLevels format cls (levels.map (map (map (visible format))))) := by
  induction hfits with
  | nil => exact twoPass_flags (emits_items []) fun _ _ => decodes_pure _
  | @cons own fields base levels hown _ ih =>
    rw [children, flatMap_cons, forall_mem_append] at hnested
    have hbody := twoPass_body format hlimit hown hnested.1
    have hbase := ih hnested.2
    simp only [map_cons, paired_cons, surplusOf_append]
    rw [Nat.add_comm (surplusOf format _)]
    refine hbase.bind ?_
    exact hbody.map (· :: visibleLevels format base _)

omit hlimit

/-- The unmarshaller of nested objects as one level over the level below. -/
theorem tightUnmarshalNestedObject_eq :
    tightUnmarshalNestedObject format = fun fuel => tightNestedObject format fun levels =>
      below .eof (fun fuel => unmarshalLevels format (fun type => tightReader format type fuel)
        levels) fuel := by
  funext fuel
  cases fuel <;> rfl

/-- The first pass writes the flag of a marshal-aware object before it counts the type. -/
theorem countFlag_countBoth (b : Bool) (count : BitVec 32) (first : Pass1) :
    countFlag b (countBoth (.ok (count, [])) first) =
      countBoth (.ok (count, [])) (countFlag b first) := by
  cases first <;> rfl

/-- **Tight encoding.** The two passes and the unmarshaller agree on every object that
can be encoded. -/
theorem twoPass_nestedObject (hlimit : limit ≤ 65536)
    (h : Encodable format limit value) : NestedTwoPass format limit value := by
  rw [NestedTwoPass, tightUnmarshalNestedObject_eq, tightMarshalNestedObject1,
    tightMarshalNestedObject2, surplus, visible]
  induction h with
  | null =>
    refine flag ?_
    exact twoPass_flags (emits_items []) fun _ _ => decodes_pure _
  | @object type levels cls registered valid fits nested ih =>
    simp only [← tightUnmarshalNestedObject_eq] at ih
    have hlevels := (twoPass_levels format hlimit fits ih).map (object type)
    simp only [fold_object, registered, valid]
    refine flag ?_
    cases haware : cls.marshalAware with
    | false =>
      refine descend (by simp [writeByte]) (by simp [writeByte]) (decodes_readByte type) ?_
        fun _ => rfl
      simp only [registered, haware]
      exact hlevels
    | true =>
      simp only [if_true, countFlag_countBoth]
      refine descend (by simp [writeByte]) (by simp [writeByte]) (decodes_readByte type) ?_
        fun _ => rfl
      simp only [registered, haware]
      exact flag hlevels

/-! ## The count of the first pass -/

theorem FieldValue.children_map {β : Type} (f : α → β) (field : FieldValue α) :
    (field.map f).children = field.children.map f := by
  cases field <;> rfl

theorem paired_map {β : Type} (f : α → β) (cls : List (List Property))
    (levels : List (List (FieldValue α))) :
    paired cls (levels.map (map (map f))) =
      (paired cls levels).map fun pair => (pair.1, pair.2.map f) := by
  induction cls generalizing levels with
  | nil => simp [paired]
  | cons own base ih =>
    cases levels with
    | nil => simp [paired]
    | cons fields levels =>
      rw [map_cons, paired_cons, paired_cons, ih, map_append, zip_map_right]
      rfl

theorem mem_children_of_paired {levels : List (List (FieldValue α))}
    {pair : Property × FieldValue α} (hpair : pair ∈ paired cls levels) {value : α}
    (hvalue : value ∈ pair.2.children) :
    value ∈ children levels := by
  induction cls generalizing levels with
  | nil => simp [paired] at hpair
  | cons own base ih =>
    cases levels with
    | nil => simp [paired] at hpair
    | cons fields levels =>
      rw [paired_cons, mem_append] at hpair
      rw [children, flatMap_cons, mem_append]
      rcases hpair with hpair | hpair
      · exact Or.inl (mem_flatMap.mpr ⟨pair.2, (of_mem_zip hpair).2, hvalue⟩)
      · exact Or.inr (ih hpair)

theorem Property.surplus_eq_zero_iff (property : Property) (wireVersion : Nat) :
    property.surplus wireVersion = 0 ↔ property.Counted wireVersion := by
  unfold Property.surplus Property.Counted
  cases hactive : property.active wireVersion with
  | true => simp
  | false =>
    have hchar : property.type.baseSize = 0 → property.type.isChar = false := by
      cases property.type <;> simp [PropType.baseSize, PropType.isChar]
    simpa using hchar

/-- Nothing is counted in excess iff every property and every nested object is counted
exactly. -/
theorem surplusOf_eq_zero_iff
    (hnested : ∀ value ∈ children levels, surplus format value = 0 ↔ Counted format value) :
    surplusOf format (paired cls (levels.map (map (map (surplus format))))) = 0 ↔
      CountedBy format cls (levels.map (map (map (Counted format)))) := by
  rw [surplusOf, CountedBy, paired_map, paired_map, sum_eq_zero_iff]
  simp only [forall_mem_map, Nat.add_eq_zero_iff, Property.surplus_eq_zero_iff, children_map]
  refine forall₂_congr fun pair hpair => and_congr_right fun _ => ?_
  cases pair.1.active format.version with
  | false => simp
  | true =>
    simp only [if_true, sum_eq_zero_iff, forall_mem_map, forall_const]
    exact forall₂_congr fun value hvalue => hnested value (mem_children_of_paired hpair hvalue)

theorem surplus_eq_zero_iff (h : Encodable format limit value) :
    surplus format value = 0 ↔ Counted format value := by
  induction h with
  | null => simp [surplus, Counted, fold]
  | @object type levels cls registered valid fits nested ih =>
    rw [surplus, Counted]
    simp only [fold_object, registered]
    exact surplusOf_eq_zero_iff format ih

/-- An object of the class within the limits, with everything that it nests. -/
def EncodableAs (limit : Nat) (cls : ClassDesc)
    (levels : List (List (FieldValue DataStructure))) : Prop :=
  Fits limit cls.levels levels ∧ ∀ value ∈ children levels, Encodable format limit value

theorem twoPass_object (hlimit : limit ≤ 65536) {cls : ClassDesc}
    (h : EncodableAs format limit cls levels) :
    TwoPass (limit ≤ 32768) (tightMarshalObject1 format cls levels)
      (tightMarshalObject2 format cls levels)
      (fun fuel => unmarshalLevels format (fun type => tightReader format type fuel) cls.levels)
      (surplusOf format (paired cls.levels
        (levels.map (map (map (surplus format))))))
      (visibleLevels format cls.levels
        (levels.map (map (map (visible format))))) :=
  twoPass_levels format hlimit h.1 fun value hvalue =>
    twoPass_nestedObject format hlimit (h.2 value hvalue)

/-- The booleans of the first pass go through a stream, and it returns the number of bytes
that the second pass writes. -/
def SizeExact (cls : ClassDesc) (levels : List (List (FieldValue DataStructure))) : Prop :=
  ∃ size flags bytes, tightMarshalObject1 format cls levels = .ok (size, flags) ∧
    BooleanStream.Streamed flags ∧
    tightMarshalObject2 format cls levels flags = .ok (bytes, []) ∧ size.toInt = bytes.length

/-- The loose encoding of a nested object is read back as what is visible of it. -/
def NestedReadsBack (value : DataStructure) : Prop :=
  ReadsBack (looseMarshalNestedObject format value) (looseUnmarshalNestedObject format)
    (visible format value)

def looseReader (type : PropType) (fuel : Nat) : DataReader (FieldValue DataStructure) :=
  looseUnmarshalField (looseUnmarshalBrokerError format.stackTraceEnabled fuel)
    (looseUnmarshalNestedObject format fuel) type

theorem readsBack_objectArray (hlength : values.length ≤ 32767)
    (haccepted : ∀ value ∈ values, Accepted accepts value)
    (hnested : ∀ value ∈ values, NestedReadsBack format value) :
    ReadsBack (looseMarshalObjectArray (values.map (looseMarshalNestedObject format)))
      (looseReader format (.objectArray accepts)) (.objectArray (values.map (visible format))) := by
  unfold looseMarshalObjectArray
  by_cases hnil : values = []
  · subst hnil
    exact readsBack_ok fun _ => (decodes_readBoolean false).thenItems (decodes_pure _)
  · rw [if_neg (by simpa using hnil), length_map]
    refine (readsBack_ok fun _ => decodes_readBoolean true).bind ?_
    refine ReadsBack.map ?_ objectArray
    refine (readsBack_ok fun _ => decodes_readShort (BitVec.ofNat 16 values.length)).bind ?_
    have hnonneg : ¬ values.length < 0 := by omega
    simp only [toInt_ofNat_of_lt (show 2 * values.length < 2 ^ 16 by omega)]
    refine readsBack_list (fun value hvalue => ?_) []
    have hcast := (hnested value hvalue).map (castTo accepts)
    rwa [castTo_visible format (haccepted value hvalue)] at hcast

theorem readsBack_byteArray {data : Bytes} (h : data.length < 2 ^ 31) :
    ReadsBack (looseField format (.byteArray none) (.byteArray data))
      (looseReader format (.byteArray none)) (.byteArray data) := by
  rw [looseField]
  by_cases hnil : data = []
  · subst hnil
    exact readsBack_ok fun _ => (decodes_readBoolean false).thenItems (decodes_pure _)
  · rw [if_neg hnil]
    exact readsBack_ok fun _ => (decodes_readBoolean true).thenItems
      (((decodes_readInt _).thenItems (decodes_readSized (by omega))).map byteArray)

variable (hlimit : limit ≤ 65536)
include hlimit

theorem readsBack_field {type : PropType} (hfits : FieldFits limit type field)
    (hnested : ∀ value ∈ field.children, NestedReadsBack format value) :
    ReadsBack (looseField format type (field.map (looseMarshalNestedObject format)))
      (looseReader format type) (passed format (field.map (visible format))) := by
  cases type
  case' byteArray size => cases size
  all_goals cases field <;> try exact hfits.elim
  case boolean.boolean => exact readsBack_ok fun _ => (decodes_readBoolean _).map boolean
  case byte.byte => exact readsBack_ok fun _ => (decodes_readByte _).map byte
  case char.char => exact readsBack_ok fun _ => (decodes_readByte _).map char
  case short.short => exact readsBack_ok fun _ => (decodes_readShort _).map short
  case int.int => exact readsBack_ok fun _ => (decodes_readInt _).map int
  case long.long => exact readsBack_ok fun _ => (decodes_readLong _).map long
  case string.string =>
    exact (readsBack_looseString (Nat.lt_of_lt_of_le hfits hlimit)).map string
  case byteArray.none.byteArray =>
    exact readsBack_byteArray format hfits
  case byteArray.some.byteArray size data =>
    obtain rfl : data.length = size := hfits
    have htake : data.take data.length = data := take_length
    simp only [FieldValue.map, looseField, htake]
    exact readsBack_ok fun _ => (decodes_readFully data rfl).map FieldValue.byteArray
  case objectArray.objectArray => exact readsBack_objectArray format hfits.1 hfits.2 hnested
  case throwable.throwable => exact (readsBack_brokerError hlimit _ hfits).map throwable
  case object.object accepts value =>
    have hcast := (hnested value (mem_singleton_self value)).map fun v =>
      object (castTo accepts v)
    rwa [castTo_visible format hfits] at hcast

theorem readsBack_property (hfits : FieldFits limit property.type field)
    (hnested : ∀ value ∈ field.children, NestedReadsBack format value) :
    ReadsBack
      (if property.active format.version then
        looseField format property.type (field.map (looseMarshalNestedObject format)) else .ok [])
      (fun fuel => unmarshalProperty format (fun type => looseReader format type fuel) property)
      (visibleField format property (field.map (visible format))) := by
  unfold visibleField unmarshalProperty
  cases hactive : property.active format.version with
  | true => exact readsBack_field format hlimit hfits hnested
  | false => exact readsBack_ok fun _ => decodes_pure _

theorem readsBack_body (hfits : Forall₂ (fun property field => FieldFits limit property.type field)
      properties fields)
    (hnested : ∀ value ∈ fields.flatMap FieldValue.children, NestedReadsBack format value) :
    ReadsBack
      (looseBody format properties (fields.map (map (looseMarshalNestedObject format))))
      (fun fuel => unmarshalBody format (fun type => looseReader format type fuel) properties)
      (zipWith (visibleField format) properties
        (fields.map (map (visible format)))) := by
  induction hfits with
  | nil => exact readsBack_ok fun _ => decodes_pure _
  | @cons property field properties fields hfield _ ih =>
    rw [flatMap_cons, forall_mem_append] at hnested
    refine (readsBack_property format hlimit hfield hnested.1).bind ?_
    exact (ih hnested.2).map (visibleField format property (field.map (visible format)) :: ·)

theorem readsBack_levels (hfits : Fits limit cls levels)
    (hnested : ∀ value ∈ children levels, NestedReadsBack format value) : ReadsBack
      (looseMarshal format cls
        (levels.map (map (map (looseMarshalNestedObject format)))))
      (fun fuel => unmarshalLevels format (fun type => looseReader format type fuel) cls)
      (visibleLevels format cls (levels.map (map (map (visible format))))) := by
  induction hfits with
  | nil => exact readsBack_ok fun _ => decodes_pure _
  | @cons own fields base levels hown _ ih =>
    rw [children, flatMap_cons, forall_mem_append] at hnested
    refine (ih hnested.2).bind ?_
    exact (readsBack_body format hlimit hown hnested.1).map (· :: visibleLevels format base _)

omit hlimit in
theorem looseUnmarshalNestedObject_eq :
    looseUnmarshalNestedObject format = fun fuel => looseNestedObject format fun levels =>
      below .eof (fun fuel => unmarshalLevels format (fun type => looseReader format type fuel)
        levels) fuel := by
  funext fuel
  cases fuel <;> rfl

/-- **Loose encoding.** Every object that can be encoded is read back. -/
theorem readsBack_nestedObject
    (h : Encodable format limit value) : NestedReadsBack format value := by
  rw [NestedReadsBack, looseUnmarshalNestedObject_eq, looseMarshalNestedObject, visible]
  induction h with
  | null =>
    exact readsBack_ok fun _ => (decodes_readBoolean false).thenItems (decodes_pure _)
  | @object type levels cls registered valid fits nested ih =>
    simp only [← looseUnmarshalNestedObject_eq] at ih
    have hlevels := (readsBack_levels format hlimit fits ih).map (object type)
    simp only [fold_object]
    refine (readsBack_ok fun _ => decodes_readBoolean true).bind ?_
    refine ReadsBack.descend (by simp [writeByte]) (decodes_readByte type) ?_ fun _ => rfl
    simp only [registered]
    exact hlevels

/-! ## Round trip -/

omit hlimit

/-- The object that is decoded from an object of the class. -/
def visibleObject (cls : ClassDesc) (levels : List (List (FieldValue DataStructure))) :
    List (List (FieldValue DataStructure)) :=
  visibleLevels format cls.levels (levels.map (map (map (visible format))))

/-- The tight passes succeed, their booleans go through a stream, and decoding consumes exactly
their bytes and booleans and gives `decoded`. -/
def TightDecodes (cls : ClassDesc) (levels decoded : List (List (FieldValue DataStructure))) :
    Prop :=
  ∃ size flags bytes, tightMarshalObject1 format cls levels = .ok (size, flags) ∧
    BooleanStream.Streamed flags ∧ Emits (tightMarshalObject2 format cls levels) flags bytes ∧
    Decodes (tightUnmarshalObject format cls) bytes flags decoded

/-- The same for the loose encoding, which has no booleans. -/
def LooseDecodes (cls : ClassDesc) (levels decoded : List (List (FieldValue DataStructure))) :
    Prop :=
  ∃ chunks, looseMarshalObject format cls levels = .ok chunks ∧
    Decodes (looseUnmarshalObject format cls) chunks.flatten [] decoded

/-- The fuel of a whole stream is enough for what stands first on it. -/
theorem decodes_of_length {items : Bytes} {flags : List Bool}
    {value : α} (h : ∀ fuel, items.length ≤ fuel → Decodes (reader fuel) items flags value) :
    Decodes (fun input => reader input.items.length input) items flags value := by
  intro rest more
  exact h (items ++ rest).length (by simp) rest more

/-- **Round trip.** For every class description, every wire version and every object with
strings of less than 32768 encoded bytes, arrays within their length fields and at most
262136 booleans in the tight encoding, tight and loose decoding consume exactly what was
written and give the same object: `visibleObject`, the original on the properties that the
version has, initial values on later ones, and errors cut to their first level when stack
traces are disabled. -/
theorem schema_roundTrip (cls : ClassDesc) (levels : List (List (FieldValue DataStructure)))
    (h : EncodableAs format 32768 cls levels)
    (hbooleans : ∀ size flags, tightMarshalObject1 format cls levels = .ok (size, flags) →
      flags.length ≤ BooleanStream.capacity) :
    TightDecodes format cls levels (visibleObject format cls levels) ∧
      LooseDecodes format cls levels (visibleObject format cls levels) := by
  have hlimit : 32768 ≤ 65536 := by omega
  constructor
  · obtain ⟨flags, bytes, hfirst, hsecond, hdecodes⟩ := twoPass_object format hlimit h
    exact ⟨_, flags, bytes, hfirst, (BooleanStream.streamed_iff flags).mpr (hbooleans _ _ hfirst),
      hsecond, decodes_of_length (hdecodes le_rfl)⟩
  · obtain ⟨chunks, hchunks, hdecodes⟩ := readsBack_levels format hlimit h.1 fun value hvalue =>
      readsBack_nestedObject format hlimit (h.2 value hvalue)
    exact ⟨chunks, hchunks, decodes_of_length hdecodes⟩

/-- A nested object with a property of version 5 at wire version 3: it comes back with
that property at its initial value. -/
theorem schema_roundTrip_nested :
    TightDecodes ⟨3, true, fun _ => some ⟨[[⟨.int, 1, .int 0⟩, ⟨.string, 5, .string []⟩]], true⟩⟩
      ⟨[[⟨.object fun _ => true, 1, .object .null⟩]], false⟩
      [[.object (.object 9 [[.int 7, .string [97]]])]]
      [[.object (.object 9 [[.int 7, .string []]])]] := by
  have hdecoded := (schema_roundTrip
    ⟨3, true, fun _ => some ⟨[[⟨.int, 1, .int 0⟩, ⟨.string, 5, .string []⟩]], true⟩⟩
    ⟨[[⟨.object fun _ => true, 1, .object .null⟩]], false⟩
    [[.object (.object 9 [[.int 7, .string [97]]])]] ⟨?_, ?_⟩ ?_).1
  · exact hdecoded
  · exact .cons (.cons rfl .nil) .nil
  · intro value hvalue
    obtain rfl := mem_singleton.mp hvalue
    refine .object rfl (by decide) (.cons (.cons trivial (.cons ?_ .nil)) .nil) ?_
    · show countUTFLength [97] < 32768
      decide
    · simp [children, FieldValue.children]
  · intro size flags hfirst
    cases hfirst
    decide

/-- With stack traces disabled an error of message `m` comes back without its trace. -/
theorem stackTrace_not_roundTrip :
    ¬ TightDecodes ⟨11, false, fun _ => none⟩ ⟨[[⟨.throwable, 1, .throwable []⟩]], false⟩
      [[.throwable [⟨[], [109], [⟨[], [], [], 5⟩]⟩]]]
      [[.throwable [⟨[], [109], [⟨[], [], [], 5⟩]⟩]]] := by
  intro hround
  obtain ⟨size, flags, bytes, hfirst, -, hsecond, hdecodes⟩ := hround
  have hflags : .ok [true, false, true, true] = Except.ok flags :=
    Eq.trans (by decide) (congrArg (Except.map Prod.snd) hfirst)
  cases hflags
  have hbytes : .ok [0, 1, 109] = Except.ok bytes :=
    Eq.trans (by decide) (congrArg (Except.map Prod.fst) (hsecond []))
  cases hbytes
  have hdecoded : (tightUnmarshalObject ⟨11, false, fun _ => none⟩
      ⟨[[⟨.throwable, 1, .throwable []⟩]], false⟩).run ⟨[0, 1, 109], [true, false, true, true]⟩ =
      .ok ([[.throwable [⟨[], [109], []⟩]]], ⟨[], []⟩) := rfl
  have hlost := hdecodes.unique hdecoded
  simp at hlost

end ActivemqCpp.Openwire
