import ActivemqCpp.Commands.StreamMessage

/-!
# What a stream message gives back

A client writes a row of items, resets the message and reads the same types again, each
byte array through buffers of its own choice until `-1`.

* `writes_writer` — the bytes of an item (`encode`), for strings and arrays whose length is
  an `int`.
* `drain_array` — whatever the buffers, the pieces of an array make up the array, and
  the stream is left where the next item starts.
* `stream_round_trip` — the items come back, and every further read finds the end. A
  string of `2^31` bytes has a length below zero and is written as the empty one
  (`stream_loses_long_strings`).
-/

namespace ActivemqCpp.Commands.StreamMessage

open Base Decaf Openwire List PrimitiveType

/-! ## The client -/

/-- The write calls, up to the first that throws. -/
def writeAll : StreamMessage → List Item → StreamMessage × Except StreamFault Unit
  | m, [] => (m, .ok ())
  | m, item :: rest =>
    match m.write item with
    | (m, .error e) => (m, .error e)
    | (m, .ok ()) => m.writeAll rest

/-- The type a read asks for. -/
inductive Kind where
  | boolean | byte | char | short | unsignedShort | int | long | float | double | string | bytes
deriving DecidableEq, Repr

def Item.kind : Item → Kind
  | .boolean _ => .boolean
  | .byte _ => .byte
  | .char _ => .char
  | .short _ => .short
  | .unsignedShort _ => .unsignedShort
  | .int _ => .int
  | .long _ => .long
  | .float _ => .float
  | .double _ => .double
  | .string _ => .string
  | .bytes _ => .bytes

/-- Reading an array with a buffer of `sizes 0` bytes, then one of `sizes 1` bytes and so on,
until `-1`. `none` as an error: not at the end after `fuel` calls. -/
def drain : (fuel : Nat) → (sizes : Nat → Nat) → StreamMessage → (pieces : Bytes) →
    StreamMessage × Except (Option StreamFault) Bytes
  | 0, _, m, _ => (m, .error none)
  | fuel + 1, sizes, m, pieces =>
    match m.readBytes (sizes 0) with
    | (m, .error e) => (m, .error (some e))
    | (m, .ok none) => (m, .ok pieces)
    | (m, .ok (some piece)) => drain fuel (fun i => sizes (i + 1)) m (pieces ++ piece)

/-- The item a read returned. -/
def received {α : Type} (item : α → Item) (result : StreamMessage × Except StreamFault α) :
    StreamMessage × Except (Option StreamFault) Item :=
  (result.1, (result.2.map item).mapError some)

variable (conv : FloatConversions)

def readAs (fuel : Nat) (m : StreamMessage) (kind : Kind) (sizes : Nat → Nat) :
    StreamMessage × Except (Option StreamFault) Item :=
  match kind with
  | .boolean => received .boolean m.readBoolean
  | .byte => received .byte m.readByte
  | .char => received .char m.readChar
  | .short => received .short m.readShort
  | .unsignedShort => received .unsignedShort m.readUnsignedShort
  | .int => received .int m.readInt
  | .long => received .long m.readLong
  | .float => received .float (m.readFloat conv)
  | .double => received .double (m.readDouble conv)
  | .string => received .string (m.readString conv)
  | .bytes => ((drain fuel sizes m []).1, (drain fuel sizes m []).2.map .bytes)

/-- The reads, up to the first that throws. -/
def readAll (fuel : Nat) : StreamMessage → List (Kind × (Nat → Nat)) →
    StreamMessage × Except (Option StreamFault) (List Item)
  | m, [] => (m, .ok [])
  | m, (kind, sizes) :: rest =>
    match readAs conv fuel m kind sizes with
    | (m, .error e) => (m, .error e)
    | (m, .ok item) =>
      match readAll fuel m rest with
      | (m, .error e) => (m, .error e)
      | (m, .ok items) => (m, .ok (item :: items))

/-! ## What is written -/

/-- The bytes of an item. -/
def encode : Item → Bytes
  | .boolean value => boolean.code :: writeBoolean value
  | .byte value => byte.code :: writeByte value
  | .char value => char.code :: writeByte value
  | .short value => short.code :: writeShort value
  | .unsignedShort value => short.code :: writeShort value
  | .int value => integer.code :: writeInt value
  | .long value => long.code :: writeLong value
  | .float value => float.code :: writeInt value
  | .double value => double.code :: writeLong value
  | .string value =>
    if value.length ≤ bigStringLimit then
      string.code :: (writeShort (BitVec.ofNat 16 value.length) ++ value)
    else bigString.code :: (writeInt (BitVec.ofNat 32 value.length) ++ value)
  | .bytes value =>
    byteArray.code :: (writeInt (BitVec.ofNat 32 value.length) ++ value)

/-- The length of a string or an array is an `int`, and an array is not empty. -/
def Item.Fits : Item → Prop
  | .string value => value.length < 2 ^ 31
  | .bytes value => value ≠ [] ∧ value.length < 2 ^ 31
  | _ => True

instance (item : Item) : Decidable item.Fits := by
  cases item <;> unfold Item.Fits <;> infer_instance

variable {value : Bytes}

theorem wrap_length (h : value.length < 2 ^ 31) : wrap 32 value.length = value.length :=
  wrap_of_bounds

open ByteArrayOutputStream

theorem writes_writeTyped (type : PrimitiveType) (value : Bytes) :
    Writes (writeTyped type value) (type.code :: value) := by
  refine (writes_doWriteByte type.code).andThen ?_
  match value with
  | [] => exact writes_doWriteArrayBounded []
  | [b] => exact writes_doWriteByte b
  | b :: c :: rest => exact writes_doWriteArrayBounded (b :: c :: rest)

/-- The length and the bytes of a string or an array. -/
theorem writes_sized {size : Bytes} {width : Nat} (hsize : size.length = width) (value : Bytes) :
    Writes (do doWriteArrayBounded size width; doWriteArrayBounded value value.length)
      (size ++ value) := by
  subst hsize
  exact (writes_doWriteArrayBounded size).andThen (writes_doWriteArrayBounded value)

/-- Whether or not the call for no bytes is made. -/
theorem write_if_pos (value : Bytes) :
    (if (value.length : Int) > 0 then doWriteArrayBounded value value.length else pure ()) =
      doWriteArrayBounded value value.length := by
  by_cases hpos : (value.length : Int) > 0
  · rw [if_pos hpos]
  · rw [if_neg hpos, doWriteArrayBounded, if_pos (by omega)]

variable {item : Item}

theorem writes_writer (h : item.Fits) : Writes (writer item) (encode item) := by
  cases item with
  | boolean value => exact writes_writeTyped .boolean (writeBoolean value)
  | byte value => exact writes_writeTyped .byte (writeByte value)
  | char value => exact writes_writeTyped .char (writeByte value)
  | short value | unsignedShort value => exact writes_writeTyped .short (writeShort value)
  | int value => exact writes_writeTyped .integer (writeInt value)
  | long value => exact writes_writeTyped .long (writeLong value)
  | float value => exact writes_writeTyped .float (writeInt value)
  | double value => exact writes_writeTyped .double (writeLong value)
  | string value =>
    have hlength := wrap_length h
    simp only [writer, marshalString, encode, writeString16, writeString32, hlength,
      write_if_pos, Nat.cast_le]
    by_cases hshort : value.length ≤ bigStringLimit
    · rw [if_pos hshort, if_pos hshort, if_neg (by rw [bigStringLimit] at hshort; omega)]
      exact (writes_doWriteByte _).andThen (writes_sized (length_bigEndian 2 _) value)
    · rw [if_neg hshort, if_neg hshort, if_neg (by have : value.length < 2 ^ 31 := h; omega)]
      exact (writes_doWriteByte _).andThen (writes_sized (length_bigEndian 4 _) value)
  | bytes value =>
    simp only [writer, marshalBytes, wrap_length h.2]
    exact (writes_doWriteByte _).andThen (writes_sized (length_bigEndian 4 _) value)

/-- A message that is being written, with the bytes it holds. -/
structure Writing (m : StreamMessage) (bytes : Bytes) : Prop where
  open_ : m.readOnlyBody = false
  content : m.content = []
  wf : (m.dataOut.getD .new).Wf
  bytes : (m.dataOut.getD .new).bytes = bytes

theorem writing_clearBody : Writing clearBody [] := ⟨rfl, rfl, wf_new, rfl⟩

variable {bytes : Bytes}

theorem Writing.write {m m' : StreamMessage} (hm : Writing m bytes) (hitem : item.Fits)
    (h : m.write item = (m', .ok ())) : Writing m' (bytes ++ encode item) := by
  simp only [StreamMessage.write, writeWith, initializeWriting, hm.open_] at h
  rcases hw : writer item (m.dataOut.getD .new) with ⟨⟨⟩, t⟩ | ⟨_ | _, t⟩
  · simp only [hw, Bool.false_eq_true, if_false, Prod.mk.injEq, and_true] at h
    obtain ⟨hwf, hbytes⟩ := (writes_writer hitem).appends _ t hm.wf hw
    subst h
    exact ⟨rfl, hm.content, hwf, by rw [← hm.bytes]; exact hbytes⟩
  · simp [hw] at h
  · simp [hw] at h

variable {m : StreamMessage} {items : List Item}

theorem Writing.write_returns (hm : Writing m bytes) (hitem : item.Fits)
    (hsize : (bytes ++ encode item).length < 2 ^ 30) : ∃ m', m.write item = (m', .ok ()) := by
  rw [length_append, ← hm.bytes] at hsize
  obtain ⟨t, hw⟩ := (writes_writer hitem).returns _ hm.wf hsize
  refine ⟨{ m with dataOut := some t }, ?_⟩
  simp [StreamMessage.write, writeWith, initializeWriting, hm.open_, hw]

theorem Writing.writeAll {m m' : StreamMessage} (hm : Writing m bytes)
    (hitems : ∀ item ∈ items, item.Fits)
    (h : m.writeAll items = (m', .ok ())) : Writing m' (bytes ++ items.flatMap encode) := by
  induction items generalizing m bytes with
  | nil =>
    cases h
    simpa using hm
  | cons item rest ih =>
    rcases hwrite : m.write item with ⟨t, e | ⟨⟩⟩
    · simp [StreamMessage.writeAll, hwrite] at h
    · simp only [StreamMessage.writeAll, hwrite] at h
      have ht := hm.write (hitems item mem_cons_self) hwrite
      have hrest := ih ht (fun item hi => hitems item (mem_cons_of_mem _ hi)) h
      simpa using hrest

theorem Writing.writeAll_returns (hm : Writing m bytes)
    (hitems : ∀ item ∈ items, item.Fits) (hsize : (bytes ++ items.flatMap encode).length < 2 ^ 30) :
    ∃ m', m.writeAll items = (m', .ok ()) := by
  induction items generalizing m bytes with
  | nil => exact ⟨m, rfl⟩
  | cons item rest ih =>
    rw [flatMap_cons, ← append_assoc] at hsize
    have hone : (bytes ++ encode item).length < 2 ^ 30 := by
      rw [length_append] at hsize
      omega
    obtain ⟨t, hwrite⟩ := hm.write_returns (hitems item mem_cons_self) hone
    have ht := hm.write (hitems item mem_cons_self) hwrite
    simp only [StreamMessage.writeAll, hwrite]
    exact ih ht (fun item hi => hitems item (mem_cons_of_mem _ hi)) hsize

/-! ## What is read -/

/-- A message that is being read, between two items, with what is left of it. -/
structure Reading (m : StreamMessage) (input : Bytes) : Prop where
  open_ : m.readOnlyBody = true
  between : m.remainingBytes = -1
  input : m.initializeReading = ({ m with dataIn := some input }, .ok input)

theorem reading_of_dataIn {input : Bytes} (hopen : m.readOnlyBody = true)
    (hbetween : m.remainingBytes = -1) (hin : m.dataIn = some input) : Reading m input := by
  obtain ⟨content, readOnlyBody, dataOut, dataIn, remainingBytes⟩ := m
  subst hopen hbetween hin
  exact ⟨rfl, rfl, rfl⟩

/-- After `reset`, everything that was written is to be read. -/
theorem Writing.reset (hm : Writing m bytes) : Reading m.reset bytes := by
  have hlength : bytes.length < 2 ^ 31 := by
    have hle := hm.wf.length_le
    have hlt := hm.wf.size_lt
    rw [hm.bytes] at hle
    omega
  have hcontent : m.reset.content = bytes := by
    have hbytes := hm.bytes
    rcases hout : m.dataOut with _ | out
    · rw [hout] at hbytes
      simp only [StreamMessage.reset, storeContent, hout, hm.content]
      exact hbytes
    · rw [hout] at hbytes
      simp only [StreamMessage.reset, storeContent, hout, hm.content]
      rw [← hbytes, Option.getD_some]
      split
      · rfl
      · next hempty => exact (eq_nil_of_length_eq_zero (by omega)).symm
  refine ⟨rfl, rfl, ?_⟩
  have htake : m.reset.content.take (wrap 32 m.reset.content.length).toNat = bytes := by
    rw [hcontent, wrap_length hlength, Int.toNat_natCast, take_length]
  have hnonneg : ¬ wrap 32 m.reset.content.length < 0 := by
    rw [hcontent, wrap_length hlength]
    omega
  rw [initializeReading, if_neg (by simp [StreamMessage.reset])]
  simp [show m.reset.dataIn = none from rfl, if_neg hnonneg, htake]

variable {m : StreamMessage} {rest : Bytes} {data : Bytes}

/-- A read finds a value of a type it takes. -/
theorem received_typed {α : Type} (make : α → Item) (type : PrimitiveType)
    (hm : Reading m (type.code :: (data ++ rest))) {accept : PrimitiveType → Option (InReader α)}
    {numberFormat : StreamFault} {reader : DataReader α}
    (haccept : accept type = some (onBytes reader)) {value : α}
    (hread : Decodes reader data [] value) :
    received make (m.readTyped accept numberFormat) =
      ({ m with dataIn := some rest }, .ok (make value)) := by
  have htyped : m.readTyped accept numberFormat = ({ m with dataIn := some rest }, .ok value) := by
    simp [readTyped, hm.input, ofCode_code, haccept, onBytes_append hread]
  rw [htyped]
  rfl

/-- A read finds no type code. -/
theorem received_end {α : Type} (hm : Reading m []) (make : α → Item)
    (accept : PrimitiveType → Option (InReader α)) (numberFormat : StreamFault) :
    (received make (m.readTyped accept numberFormat)).2 = .error (some .messageEOF) := by
  simp only [readTyped, hm.input]
  rfl

/-! ### Byte arrays -/

/-- One call within an array: as many bytes as the buffer takes. -/
theorem fillBuffer_array (hne : data ≠ []) (hlength : data.length < 2 ^ 31)
    (hremaining : m.remainingBytes = data.length) {size : Nat} (hsize : 0 < size) :
    m.fillBuffer (data ++ rest) size =
      ({ m with
          dataIn := some (data.drop size ++ rest)
          remainingBytes := (data.drop size).length },
        .ok (some (data.take size))) := by
  have hpos : 0 < data.length := length_pos_iff.mpr hne
  by_cases hsmall : size ≤ data.length
  · have hleft : wrap 32 (m.remainingBytes - size) = ((data.drop size).length : Nat) := by
      rw [wrap_of_bounds, length_drop]
      omega
    rw [fillBuffer, if_pos (by omega)]
    rw [if_neg (by omega), if_neg (by simp; omega), hleft, Int.toNat_natCast,
      drop_append_of_le_length hsmall, take_append_of_le_length hsmall]
  · -- the buffer is bigger than what is left
    rw [fillBuffer, if_neg (by omega), if_neg (by omega)]
    rw [hremaining, Int.toNat_natCast, if_neg (by omega), if_neg (by simp [hne]),
      drop_left, take_left, drop_eq_nil_of_le (by omega),
      take_of_length_le (by omega)]
    rfl

theorem readBytes_of_pos {size : Nat} (hpos : 0 < size) (hlt : size < 2 ^ 31) :
    m.readBytes size = m.readBytesInto size := by
  rw [readBytes, if_neg (by omega), wrap_of_bounds]

/-- The rest of an array, from any state within it. -/
theorem drain_rest : ∀ (fuel : Nat) (data : Bytes) (sizes : Nat → Nat) (m : StreamMessage)
    (pieces : Bytes), data.length < fuel → data.length < 2 ^ 31 →
    (∀ i, 0 < sizes i ∧ sizes i < 2 ^ 31) → m.readOnlyBody = true →
    m.dataIn = some (data ++ rest) → m.remainingBytes = data.length →
    drain fuel sizes m pieces =
      ({ m with dataIn := some rest, remainingBytes := -1 }, .ok (pieces ++ data))
  | 0, _, _, _, _, hfuel, _, _, _, _, _ => absurd hfuel (by omega)
  | fuel + 1, data, sizes, m, pieces, hfuel, hlength, hsizes, hopen, hin, hremaining => by
    have hinit : m.initializeReading = (m, .ok (data ++ rest)) := by
      rw [initializeReading, hopen, if_neg (by decide), hin]
    rw [drain, readBytes_of_pos (hsizes 0).1 (hsizes 0).2, readBytesInto, hinit]
    dsimp only
    rw [if_neg (by omega)]
    by_cases hempty : data = []
    · subst hempty
      rw [if_pos (by simpa using hremaining)]
      rw [nil_append] at hin
      simp [← hin]
    · have hpos : 0 < data.length := length_pos_iff.mpr hempty
      rw [if_neg (by omega), fillBuffer_array hempty hlength hremaining (hsizes 0).1]
      dsimp only
      have hshorter : (data.drop (sizes 0)).length < data.length := by
        have := (hsizes 0).1
        rw [length_drop]
        omega
      rw [drain_rest fuel (data.drop (sizes 0)) _ _ _ (by omega) (by omega)
        (fun i => hsizes (i + 1)) (by exact hopen) rfl rfl, append_assoc,
        take_append_drop]

variable {sizes : Nat → Nat} {fuel : Nat} (hsizes : ∀ i, 0 < sizes i ∧ sizes i < 2 ^ 31)
include hsizes

/-- Whatever the buffers, the pieces of an array make up the array. -/
theorem drain_array (hne : data ≠ []) (hlength : data.length < 2 ^ 31)
    (hm : Reading m (encode (.bytes data) ++ rest)) (hfuel : data.length < fuel) :
    drain fuel sizes m [] = ({ m with dataIn := some rest }, .ok data) := by
  obtain ⟨fuel, rfl⟩ : ∃ n, fuel = n + 1 := ⟨fuel - 1, by omega⟩
  have hsize : onBytes Decaf.readInt (writeInt (BitVec.ofNat 32 data.length) ++ (data ++ rest)) =
      .ok (BitVec.ofNat 32 data.length) (data ++ rest) :=
    onBytes_append (decodes_readInt _) _
  have hvalue : (BitVec.ofNat 32 data.length).toInt = data.length := toInt_ofNat_of_lt (by omega)
  have hinput := hm.input
  simp only [encode, cons_append, append_assoc] at hinput
  rw [drain, readBytes_of_pos (hsizes 0).1 (hsizes 0).2, readBytesInto, hinput]
  dsimp only
  rw [if_pos hm.between, if_neg (by simp), hsize]
  dsimp only
  rw [hvalue, fillBuffer_array hne hlength rfl (hsizes 0).1]
  dsimp only
  have hshorter : (data.drop (sizes 0)).length < data.length := by
    have hpos : 0 < data.length := length_pos_iff.mpr hne
    have := (hsizes 0).1
    rw [length_drop]
    omega
  rw [drain_rest fuel (data.drop (sizes 0)) _ _ _ (by omega) (by omega)
    (fun i => hsizes (i + 1)) (by exact hm.open_) rfl rfl, nil_append,
    take_append_drop]
  simp [← hm.between]

/-! ### Whole items -/

omit hsizes in
theorem decodes_readString16 (h : value.length ≤ bigStringLimit) :
    Decodes readString16 (writeShort (BitVec.ofNat 16 value.length) ++ value) [] value := by
  rw [bigStringLimit] at h
  exact (decodes_readShort _).bind (decodes_readSized (by omega))

omit hsizes in
theorem decodes_readString32 (h : value.length < 2 ^ 31) :
    Decodes readString32 (writeInt (BitVec.ofNat 32 value.length) ++ value) [] value :=
  (decodes_readInt _).bind (decodes_readSized (by omega))

/-- Each item is read back by the read of its type, which stops where the next one starts. -/
theorem readAs_item (hitem : item.Fits) (hm : Reading m (encode item ++ rest))
    (hfuel : (encode item).length ≤ fuel) :
    readAs conv fuel m item.kind sizes = ({ m with dataIn := some rest }, .ok item) := by
  cases item with
  | boolean value => exact received_typed .boolean .boolean hm rfl (decodes_readBoolean value)
  | byte value => exact received_typed .byte .byte hm rfl (decodes_readByte value)
  | char value => exact received_typed .char .char hm rfl (decodes_readByte value)
  | short value => exact received_typed .short .short hm rfl (decodes_readShort value)
  | unsignedShort value =>
    exact received_typed .unsignedShort .short hm rfl (decodes_readShort value)
  | int value => exact received_typed .int .integer hm rfl (decodes_readInt value)
  | long value => exact received_typed .long .long hm rfl (decodes_readLong value)
  | float value => exact received_typed .float .float hm rfl (decodes_readInt value)
  | double value => exact received_typed .double .double hm rfl (decodes_readLong value)
  | string value =>
    by_cases hshort : value.length ≤ bigStringLimit
    · rw [encode, if_pos hshort] at hm
      exact received_typed .string .string hm rfl (decodes_readString16 hshort)
    · rw [encode, if_neg hshort] at hm
      exact received_typed .string .bigString hm rfl (decodes_readString32 hitem)
  | bytes value =>
    have hlong : value.length < fuel := by
      simp only [encode, length_cons, length_append] at hfuel
      omega
    show ((drain fuel sizes m []).1, (drain fuel sizes m []).2.map Item.bytes) = _
    rw [drain_array hsizes hitem.1 hitem.2 hm hlong]
    rfl

theorem readAs_end (hm : Reading m []) (hfuel : 0 < fuel) (kind : Kind) :
    (readAs conv fuel m kind sizes).2 = .error (some .messageEOF) := by
  cases kind with
  | boolean | byte | char | short | unsignedShort | int | long | float | double | string =>
    exact received_end hm _ _ _
  | bytes =>
    obtain ⟨fuel, rfl⟩ : ∃ n, fuel = n + 1 := ⟨fuel - 1, by omega⟩
    show (drain (fuel + 1) sizes m []).2.map Item.bytes = _
    rw [drain, readBytes_of_pos (hsizes 0).1 (hsizes 0).2, readBytesInto, hm.input]
    dsimp only
    rw [if_pos hm.between]
    rfl

omit hsizes

/-- A row of items and the buffers each is read with. -/
theorem readAll_items : ∀ {items : List (Item × (Nat → Nat))} {m : StreamMessage},
    (∀ x ∈ items, x.1.Fits) → (∀ x ∈ items, ∀ i, 0 < x.2 i ∧ x.2 i < 2 ^ 31) →
    (∀ x ∈ items, (encode x.1).length ≤ fuel) →
    Reading m ((items.map Prod.fst).flatMap encode) →
    ∃ m', readAll conv fuel m (items.map fun x => (x.1.kind, x.2)) =
      (m', .ok (items.map Prod.fst)) ∧ Reading m' []
  | [], m, _, _, _, hm => ⟨m, rfl, hm⟩
  | (item, sizes) :: rest, m, hitems, hsizes, hfuel, hm => by
    obtain ⟨hitem, hitems⟩ := forall_mem_cons.mp hitems
    obtain ⟨hsize, hsizes⟩ := forall_mem_cons.mp hsizes
    obtain ⟨hlong, hfuel⟩ := forall_mem_cons.mp hfuel
    rw [map_cons, flatMap_cons] at hm
    have hread := readAs_item conv hsize hitem hm hlong
    obtain ⟨m', hrest, hend⟩ := readAll_items hitems hsizes hfuel
      (reading_of_dataIn (m := { m with dataIn := some ((rest.map Prod.fst).flatMap encode) })
        hm.open_ hm.between rfl)
    refine ⟨m', ?_, hend⟩
    simp [map_cons, readAll, hread, hrest]

/-- Strings, arrays and buffers of fewer than `2^31` bytes. A write that returns has written its
item, and all writes return as long as the content stays below `2^30` bytes. Then the
reads of the same types return the items, and every further read finds the end. -/
theorem stream_round_trip (items : List (Item × (Nat → Nat))) (hitems : ∀ x ∈ items, x.1.Fits)
    (hsizes : ∀ x ∈ items, ∀ i, 0 < x.2 i ∧ x.2 i < 2 ^ 31) :
    (((items.map Prod.fst).flatMap encode).length < 2 ^ 30 →
        ∃ m, clearBody.writeAll (items.map Prod.fst) = (m, .ok ())) ∧
      ∀ m, clearBody.writeAll (items.map Prod.fst) = (m, .ok ()) →
        ∀ fuel, 0 < fuel → (∀ x ∈ items, (encode x.1).length ≤ fuel) →
          ∃ m', readAll conv fuel m.reset (items.map fun x => (x.1.kind, x.2)) =
              (m', .ok (items.map Prod.fst)) ∧
            ∀ kind sizes, (∀ i, 0 < sizes i ∧ sizes i < 2 ^ 31) →
              (readAs conv fuel m' kind sizes).2 = .error (some .messageEOF) := by
  have hfits : ∀ item ∈ items.map Prod.fst, item.Fits := by
    intro item hitem
    obtain ⟨x, hx, rfl⟩ := mem_map.mp hitem
    exact hitems x hx
  constructor
  · intro hsize
    exact writing_clearBody.writeAll_returns hfits (by simpa using hsize)
  · intro m hwritten fuel hpos hfuel
    have hreading := (writing_clearBody.writeAll hfits hwritten).reset
    obtain ⟨m', hread, hend⟩ := readAll_items conv hitems hsizes hfuel hreading
    exact ⟨m', hread, fun kind sizes hsizes => readAs_end conv hsizes hend hpos kind⟩

/-- No text is a number of floating point, and no such number has one. -/
def noFloats : FloatConversions where
  parseFloat _ := .error .numberFormat
  parseDouble _ := .error .numberFormat
  floatText _ := []
  doubleText _ := []
  widen _ := 0

/-- An array of three bytes between two other items, read two bytes at a time. -/
def sampleItems : List (Item × (Nat → Nat)) :=
  [(.string [104, 105], fun _ => 1), (.bytes [1, 2, 3], fun _ => 2), (.int 7, fun _ => 1)]

theorem stream_round_trip_sample :
    ∃ m, clearBody.writeAll (sampleItems.map Prod.fst) = (m, .ok ()) ∧
      ∃ m', readAll noFloats 9 m.reset (sampleItems.map fun x => (x.1.kind, x.2)) =
        (m', .ok [.string [104, 105], .bytes [1, 2, 3], .int 7]) := by
  have hround := stream_round_trip noFloats sampleItems (by decide) (by simp [sampleItems])
  obtain ⟨m, hwritten⟩ := hround.1 (by decide)
  obtain ⟨m', hread, -⟩ := hround.2 m hwritten 9 (by decide) (by decide)
  exact ⟨m, hwritten, m', hread⟩

variable (h : wrap 32 value.length = -2147483648)
include h

/-- The length of `2^31` is one below zero. -/
theorem writer_long_string : writer (.string value) = writer (.string []) := by
  have hshort : ((-2147483648 : Int) ≤ bigStringLimit) := by decide
  have hzero : wrap 32 (([] : Bytes).length : Int) = 0 := by decide
  have hsize : BitVec.ofInt 16 (-2147483648) = BitVec.ofInt 16 0 := by decide
  simp only [writer, marshalString, writeString16, h, hzero, hsize]
  rw [if_pos hshort, if_neg (by decide), if_neg (by decide), if_pos (by decide),
    if_neg (by decide), if_neg (by decide)]

theorem writeAll_long_string :
    clearBody.writeAll [.string value] = clearBody.writeAll [.string []] := by
  rw [writeAll, writeAll, write, write, writer_long_string h]

omit h

/-- A string of `2^31` bytes is written as the empty string, and a buffer of `2^31` bytes reads
nothing of an array. -/
theorem stream_loses_long_strings :
    (∃ m, clearBody.writeAll [.string (replicate 2147483648 65)] = (m, .ok ()) ∧
      (readAll noFloats 1 m.reset [(.string, fun _ => 1)]).2 = .ok [.string []]) ∧
    ∃ m, clearBody.writeAll [.bytes [1]] = (m, .ok ()) ∧
      (m.reset.readBytes 2147483648).2 = .error .cms := by
  have hempty : clearBody.writeAll [.string []] =
      ((clearBody.writeAll [.string []]).1, .ok ()) := by decide
  have hlong : wrap 32 ((replicate 2147483648 (65 : UInt8)).length : Int) = -2147483648 := by
    rw [length_replicate]
    decide
  exact ⟨⟨(clearBody.writeAll [.string []]).1, (writeAll_long_string hlong).trans hempty,
    by decide⟩, (clearBody.writeAll [.bytes [1]]).1, by decide, by decide⟩

end ActivemqCpp.Commands.StreamMessage
