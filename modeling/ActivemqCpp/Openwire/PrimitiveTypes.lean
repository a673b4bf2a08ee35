import ActivemqCpp.Decaf.ByteArrayStreams
import ActivemqCpp.Decaf.StlMap

/-!
# `PrimitiveTypesMarshaller`

Maps and lists of primitive values, nested to any depth, as the message bodies and
the message properties carry them.

* Every value is written behind the code of its type and read back by that code.
  What comes back is `readBack`: the value itself, but with every empty string
  turned into a null value, because the reader sets a string only when its length
  is positive (`readsBack_marshalPrimitive`).
* So a map or a list that the buffer has room for comes back as it was *iff* no string in
  it is empty (`primitives_roundTrip_iff`).
* A value is read from its own bytes and no others (`primitive_self_delimiting`).
-/

namespace ActivemqCpp.Openwire

open Base Decaf List ByteArrayOutputStream

/-! ## Values -/

/-- `PrimitiveValueNode::PrimitiveType`. -/
inductive PrimitiveType
  | null | boolean | byte | char | short | integer | long | double | float
  | string | byteArray | map | list | bigString
deriving DecidableEq, Repr

/-- The byte a type is written as. -/
def PrimitiveType.code : PrimitiveType → UInt8
  | .null => 0
  | .boolean => 1
  | .byte => 2
  | .char => 3
  | .short => 4
  | .integer => 5
  | .long => 6
  | .double => 7
  | .float => 8
  | .string => 9
  | .byteArray => 10
  | .map => 11
  | .list => 12
  | .bigString => 13

/-- The `case` labels of `unmarshalPrimitive`. -/
def PrimitiveType.ofCode (code : UInt8) : Option PrimitiveType :=
  [.null, .boolean, .byte, .char, .short, .integer, .long, .double, .float, .string,
    .byteArray, .map, .list, .bigString].find? fun t => t.code == code

theorem PrimitiveType.ofCode_code (t : PrimitiveType) : ofCode t.code = some t := by
  cases t <;> decide

/-- `PrimitiveValueNode`. Floats and doubles are their bit patterns; a map is its
entries in iteration order. -/
inductive PrimitiveValueNode
  | null
  | bool (value : Bool)
  | byte (value : UInt8)
  | char (value : UInt8)
  | short (value : BitVec 16)
  | int (value : BitVec 32)
  | long (value : BitVec 64)
  | double (bits : BitVec 64)
  | float (bits : BitVec 32)
  | string (value : Bytes)
  | byteArray (value : Bytes)
  | map (entries : List (Bytes × PrimitiveValueNode))
  | list (items : List PrimitiveValueNode)
deriving Repr

/-- `std::less<std::string>`. -/
def keyLess (a b : Bytes) : Bool := decide (a < b)

/-! ## Marshalling -/

/-- A string is big from here on: `Short::MAX_VALUE / 4`. -/
def bigStringLimit : Nat := 32767 / 4

/-- What a container writes: its size, then its members. -/
def sized (size : Nat) (body : Written) : Written :=
  writeBoth (.ok [writeInt (BitVec.ofNat 32 size)]) body

mutual

/-- `marshalPrimitive`. -/
def marshalPrimitive : PrimitiveValueNode → Written
  | .bool value => .ok [[PrimitiveType.boolean.code], writeBoolean value]
  | .byte value => .ok [[PrimitiveType.byte.code], writeByte value]
  -- a Java char is two bytes
  | .char value => .ok [[PrimitiveType.char.code], writeByte 0, writeByte value]
  | .short value => .ok [[PrimitiveType.short.code], writeShort value]
  | .int value => .ok [[PrimitiveType.integer.code], writeInt value]
  | .long value => .ok [[PrimitiveType.long.code], writeLong value]
  | .float bits => .ok [[PrimitiveType.float.code], writeInt bits]
  | .double bits => .ok [[PrimitiveType.double.code], writeLong bits]
  | .byteArray data =>
    .ok [[PrimitiveType.byteArray.code], writeInt (BitVec.ofNat 32 data.length), data]
  -- the source has a branch for the empty string; it writes what the last one would
  | .string data =>
    if data.length > bigStringLimit then
      .ok [[PrimitiveType.bigString.code], writeInt (BitVec.ofNat 32 data.length), data]
    else .ok [[PrimitiveType.string.code], writeShort (BitVec.ofNat 16 data.length), data]
  | .list items =>
    writeBoth (.ok [[PrimitiveType.list.code]]) (sized items.length (marshalItems items))
  | .map entries =>
    writeBoth (.ok [[PrimitiveType.map.code]]) (sized entries.length (marshalEntries entries))
  -- "Object is not a primitive"
  | .null => .error .io

/-- The loop of `marshalPrimitiveList`. -/
def marshalItems : List PrimitiveValueNode → Written
  | [] => .ok []
  | value :: rest => writeBoth (marshalPrimitive value) (marshalItems rest)

/-- The loop of `marshalPrimitiveMap`. -/
def marshalEntries : List (Bytes × PrimitiveValueNode) → Written
  | [] => .ok []
  | (key, value) :: rest =>
    writeBoth (writeBoth (writeUTFChunks key) (marshalPrimitive value)) (marshalEntries rest)

end

/-- `marshalPrimitiveList`. -/
def marshalPrimitiveList (items : List PrimitiveValueNode) : Written :=
  sized items.length (marshalItems items)

/-- `marshalPrimitiveMap`. -/
def marshalPrimitiveMap (entries : List (Bytes × PrimitiveValueNode)) : Written :=
  sized entries.length (marshalEntries entries)

/-- `marshal(const PrimitiveMap*, …)` through a `ByteArrayOutputStream`; `none` is `NULL`. -/
def marshalMap : Option (List (Bytes × PrimitiveValueNode)) → Except Exn Bytes
  | none => buffered [writeInt (-1)]
  | some entries => marshalPrimitiveMap entries >>= buffered

/-- `marshal(const PrimitiveList*, …)`; `none` is `NULL`. -/
def marshalList : Option (List PrimitiveValueNode) → Except Exn Bytes
  | none => buffered [writeInt (-1)]
  | some items => marshalPrimitiveList items >>= buffered

/-! ## Unmarshalling -/

/-- A string behind a signed length: the node stays null unless it is positive. -/
def readStringNode {w : Nat} (length : BitVec w) : DataReader PrimitiveValueNode :=
  if length.toInt > 0 then .string <$> readFully length.toInt.toNat else pure .null

/-- One round of `unmarshalPrimitiveMap`. -/
def putEntry (read : DataReader PrimitiveValueNode) (map : StlMap Bytes PrimitiveValueNode) :
    DataReader (StlMap Bytes PrimitiveValueNode) := do
  let key ← readUTF
  let value ← read
  pure (StlMap.put keyLess key value map)

/-- `unmarshalPrimitiveList` with the reader of one value, into an empty list. -/
def unmarshalPrimitiveList (read : DataReader PrimitiveValueNode) :
    DataReader (List PrimitiveValueNode) := do
  let size ← readInt
  readLoop (pushItem read) size.toInt.toNat []

/-- `unmarshalPrimitiveMap` with the reader of one value, into an empty map. -/
def unmarshalPrimitiveMap (read : DataReader PrimitiveValueNode) :
    DataReader (StlMap Bytes PrimitiveValueNode) := do
  let size ← readInt
  readLoop (putEntry read) size.toInt.toNat []

/-- The `switch` of `unmarshalPrimitive`. -/
def unmarshalTyped (read : DataReader PrimitiveValueNode) :
    PrimitiveType → DataReader PrimitiveValueNode
  | .null => pure .null
  | .byte => .byte <$> readByte
  | .boolean => .bool <$> readBoolean
  | .char => do
    -- the high byte is thrown away
    let _ ← readByte
    .char <$> readByte
  | .short => .short <$> readShort
  | .integer => .int <$> readInt
  | .long => .long <$> readLong
  | .float => .float <$> readInt
  | .double => .double <$> readLong
  | .byteArray => do .byteArray <$> readSized (← readInt)
  | .string => do readStringNode (← readShort)
  | .bigString => do readStringNode (← readInt)
  | .list => .list <$> unmarshalPrimitiveList read
  | .map => .map <$> unmarshalPrimitiveMap read

/-- `unmarshalPrimitive`. Every level of nesting reads a type byte first, so with as
much fuel as there are bytes left the fuel is spent only at the end of the stream. -/
def unmarshalPrimitive : (fuel : Nat) → DataReader PrimitiveValueNode
  | 0 => throw .eof
  | fuel + 1 => do
    match PrimitiveType.ofCode (← readByte) with
    | some type => unmarshalTyped (unmarshalPrimitive fuel) type
    -- "Unsupported data type"
    | none => throw .io

/-- `unmarshal(…, buffer)` into a container that holds `old`. -/
def unmarshalBuffer {α : Type} (reader : DataReader PrimitiveValueNode → DataReader α) (old : α)
    (buffer : Bytes) : Except Exn α :=
  if buffer = [] then .ok old
  else (·.1) <$> (reader (unmarshalPrimitive buffer.length)).run ⟨buffer, []⟩

/-- `unmarshal(PrimitiveMap*, …)`. -/
def unmarshalMap : StlMap Bytes PrimitiveValueNode → Bytes →
    Except Exn (StlMap Bytes PrimitiveValueNode) :=
  unmarshalBuffer unmarshalPrimitiveMap

/-- `unmarshal(PrimitiveList*, …)`. -/
def unmarshalList : List PrimitiveValueNode → Bytes → Except Exn (List PrimitiveValueNode) :=
  unmarshalBuffer unmarshalPrimitiveList

/-! ## What is marshalled -/

mutual

/-- A property of every node of a value. -/
def Every (p : PrimitiveValueNode → Prop) : PrimitiveValueNode → Prop
  | .list items => p (.list items) ∧ EveryItem p items
  | .map entries => p (.map entries) ∧ EveryEntry p entries
  | value => p value

def EveryItem (p : PrimitiveValueNode → Prop) : List PrimitiveValueNode → Prop
  | [] => True
  | value :: rest => Every p value ∧ EveryItem p rest

def EveryEntry (p : PrimitiveValueNode → Prop) : List (Bytes × PrimitiveValueNode) → Prop
  | [] => True
  | (_, value) :: rest => Every p value ∧ EveryEntry p rest

end

/-- What the C++ types guarantee of a node: a size is an `int`, and a map holds its
keys in strictly increasing order. -/
def NodeWf : PrimitiveValueNode → Prop
  | .string value => value.length < 2 ^ 31
  | .byteArray value => value.length < 2 ^ 31
  | .list items => items.length < 2 ^ 31
  | .map entries =>
    entries.length < 2 ^ 31 ∧ entries.Pairwise fun a b => keyLess a.1 b.1 = true
  | _ => True

/-- What the marshaller is made for: no null node, and keys that `writeUTF` takes. -/
def NodeSupported : PrimitiveValueNode → Prop
  | .null => False
  | .map entries => ∀ e ∈ entries, countUTFLength e.1 ≤ 65535
  | _ => True

/-- `PrimitiveMap`. -/
structure PrimitiveMap where
  entries : StlMap Bytes PrimitiveValueNode
  wf : Every NodeWf (.map entries)

/-- `PrimitiveList`. -/
structure PrimitiveList where
  items : List PrimitiveValueNode
  wf : Every NodeWf (.list items)

def Supported (value : PrimitiveValueNode) : Prop := Every NodeSupported value

/-! ## What comes back -/

mutual

/-- The value that is read back: an empty string is lost. -/
def readBack : PrimitiveValueNode → PrimitiveValueNode
  | .string value => if value = [] then .null else .string value
  | .list items => .list (readBackItems items)
  | .map entries => .map (readBackEntries entries)
  | value => value

def readBackItems : List PrimitiveValueNode → List PrimitiveValueNode
  | [] => []
  | value :: rest => readBack value :: readBackItems rest

def readBackEntries :
    List (Bytes × PrimitiveValueNode) → List (Bytes × PrimitiveValueNode)
  | [] => []
  | (key, value) :: rest => (key, readBack value) :: readBackEntries rest

end

/-- Not the empty string. -/
def NotEmptyString (value : PrimitiveValueNode) : Prop := value ≠ .string []

mutual

theorem readBack_eq_iff : ∀ value : PrimitiveValueNode,
    readBack value = value ↔ Every NotEmptyString value
  | .string value => by
    by_cases h : value = [] <;> simp [readBack, Every, NotEmptyString, h]
  | .list items => by
    simp [readBack, Every, NotEmptyString, readBackItems_eq_iff items]
  | .map entries => by
    simp [readBack, Every, NotEmptyString, readBackEntries_eq_iff entries]
  | .null | .bool _ | .byte _ | .char _ | .short _ | .int _ | .long _ | .double _ | .float _
  | .byteArray _ => by simp [readBack, Every, NotEmptyString]

theorem readBackItems_eq_iff : ∀ items : List PrimitiveValueNode,
    readBackItems items = items ↔ EveryItem NotEmptyString items
  | [] => by simp [readBackItems, EveryItem]
  | value :: rest => by
    simp [readBackItems, EveryItem, readBack_eq_iff value, readBackItems_eq_iff rest]

theorem readBackEntries_eq_iff : ∀ entries : List (Bytes × PrimitiveValueNode),
    readBackEntries entries = entries ↔ EveryEntry NotEmptyString entries
  | [] => by simp [readBackEntries, EveryEntry]
  | (key, value) :: rest => by
    simp [readBackEntries, EveryEntry, readBack_eq_iff value, readBackEntries_eq_iff rest]

end

theorem decodes_readStringNode {w : Nat} {data : Bytes} (h : 2 * data.length < 2 ^ w) :
    Decodes (readStringNode (BitVec.ofNat w data.length)) data [] (readBack (.string data)) := by
  rw [readStringNode, toInt_ofNat_of_lt h, readBack]
  by_cases hnil : data = []
  · rw [hnil]
    exact decodes_pure PrimitiveValueNode.null
  · have hpos : 0 < data.length := length_pos_of_ne_nil hnil
    rw [if_pos (by omega), if_neg hnil]
    exact (decodes_readFully data rfl).map PrimitiveValueNode.string

/-- A value behind the code of its type. -/
theorem readsBack_typed {t : PrimitiveType} {w : Written} {value : PrimitiveValueNode}
    (h : ReadsBack w (fun fuel => unmarshalTyped (unmarshalPrimitive fuel) t) value) :
    ReadsBack (writeBoth (.ok [[t.code]]) w) unmarshalPrimitive value := by
  refine ReadsBack.descend (by simp) (decodes_readByte t.code) ?_ (fun _ => rfl)
  simp only [PrimitiveType.ofCode_code]
  exact h

variable {body : Written} {size : Nat} {α : Type}

/-- The members of a container behind its size. -/
theorem readsBack_sized {round : Nat → α → DataReader α} {empty value : α} (hsize : size < 2 ^ 31)
    (h : ReadsBack body (fun fuel => readLoop (round fuel) size empty) value) :
    ReadsBack (sized size body)
      (fun fuel => do readLoop (round fuel) (← readInt).toInt.toNat empty) value := by
  refine (readsBack_ok fun _ => decodes_readInt (BitVec.ofNat 32 size)).bind ?_
  rwa [toInt_ofNat_of_lt (by omega)]

theorem readsBack_string {data : Bytes} (hlen : data.length < 2 ^ 31) :
    ReadsBack (marshalPrimitive (.string data)) unmarshalPrimitive (readBack (.string data)) := by
  rw [marshalPrimitive]
  by_cases hbig : data.length > bigStringLimit
  · rw [if_pos hbig]
    exact readsBack_typed (w := .ok [_, _]) (readsBack_ok fun _ =>
      (decodes_readInt (BitVec.ofNat 32 data.length)).thenItems (decodes_readStringNode (by omega)))
  · rw [if_neg hbig]
    have hsmall : data.length ≤ bigStringLimit := by omega
    unfold bigStringLimit at hsmall
    exact readsBack_typed (w := .ok [_, _]) (readsBack_ok fun _ =>
      (decodes_readShort (BitVec.ofNat 16 data.length)).thenItems
        (decodes_readStringNode (by omega)))

mutual

/-- Every value that can be marshalled comes back as `readBack` of it. The induction is
on the nesting of the value; `typed` and `sized` pass the fuel on to the members. -/
theorem readsBack_marshalPrimitive : ∀ value : PrimitiveValueNode, Every NodeWf value →
    Supported value → ReadsBack (marshalPrimitive value) unmarshalPrimitive (readBack value)
  | .null => fun _ hsup => absurd hsup (by simp [Supported, Every, NodeSupported])
  | .bool value => fun _ _ => readsBack_typed (w := .ok _)
      (readsBack_ok fun _ => (decodes_readBoolean value).map PrimitiveValueNode.bool)
  | .byte value => fun _ _ => readsBack_typed (w := .ok _)
      (readsBack_ok fun _ => (decodes_readByte value).map PrimitiveValueNode.byte)
  | .char value => fun _ _ => readsBack_typed (w := .ok [_, _])
      (readsBack_ok fun _ => (decodes_readByte 0).thenItems
        ((decodes_readByte value).map PrimitiveValueNode.char))
  | .short value => fun _ _ => readsBack_typed (w := .ok _)
      (readsBack_ok fun _ => (decodes_readShort value).map PrimitiveValueNode.short)
  | .int value => fun _ _ => readsBack_typed (w := .ok _)
      (readsBack_ok fun _ => (decodes_readInt value).map PrimitiveValueNode.int)
  | .long value => fun _ _ => readsBack_typed (w := .ok _)
      (readsBack_ok fun _ => (decodes_readLong value).map PrimitiveValueNode.long)
  | .double bits => fun _ _ => readsBack_typed (w := .ok _)
      (readsBack_ok fun _ => (decodes_readLong bits).map PrimitiveValueNode.double)
  | .float bits => fun _ _ => readsBack_typed (w := .ok _)
      (readsBack_ok fun _ => (decodes_readInt bits).map PrimitiveValueNode.float)
  | .byteArray data => fun hwf _ => by
    have hlen : data.length < 2 ^ 31 := hwf
    exact readsBack_typed (w := .ok [_, _]) (readsBack_ok fun _ =>
      (decodes_readInt (BitVec.ofNat 32 data.length)).thenItems
        ((decodes_readSized (by omega)).map PrimitiveValueNode.byteArray))
  | .string data => fun hwf _ => readsBack_string hwf
  | .list items => fun hwf hsup => by
    have hitems := readsBack_items items hwf.2 hsup.2 []
    exact readsBack_typed ((readsBack_sized hwf.1 hitems).map PrimitiveValueNode.list)
  | .map entries => fun hwf hsup => by
    have hentries := readsBack_entries entries hwf.2 hsup.2 hwf.1.2 hsup.1 [] (by simp)
    exact readsBack_typed ((readsBack_sized hwf.1.1 hentries).map PrimitiveValueNode.map)

/-- The loop over a list, with `before` read already. -/
theorem readsBack_items : ∀ items : List PrimitiveValueNode, EveryItem NodeWf items →
    EveryItem NodeSupported items → ∀ before,
    ReadsBack (marshalItems items)
      (fun fuel => readLoop (pushItem (unmarshalPrimitive fuel)) items.length before)
      (before ++ readBackItems items)
  | [] => fun _ _ before => by
    rw [readBackItems, append_nil]
    exact readsBack_ok fun _ => decodes_pure before
  | value :: rest => fun hwf hsup before => by
    have hvalue := (readsBack_marshalPrimitive value hwf.1 hsup.1).map (before ++ [·])
    have hrest := readsBack_items rest hwf.2 hsup.2 (before ++ [readBack value])
    rw [append_assoc] at hrest
    exact hvalue.bind hrest

/-- The loop over a map: every key is greater than those read `before`. -/
theorem readsBack_entries : ∀ entries : List (Bytes × PrimitiveValueNode),
    EveryEntry NodeWf entries → EveryEntry NodeSupported entries →
    (entries.Pairwise fun a b => keyLess a.1 b.1 = true) →
    (∀ e ∈ entries, countUTFLength e.1 ≤ 65535) → ∀ before : StlMap Bytes PrimitiveValueNode,
    (∀ e ∈ before, ∀ e' ∈ entries, keyLess e.1 e'.1 = true) →
    ReadsBack (marshalEntries entries)
      (fun fuel => readLoop (putEntry (unmarshalPrimitive fuel)) entries.length before)
      (before ++ readBackEntries entries)
  | [] => fun _ _ _ _ before _ => by
    rw [readBackEntries, append_nil]
    exact readsBack_ok fun _ => decodes_pure before
  | (key, value) :: rest => fun hwf hsup hsorted hkeys before hbefore => by
    obtain ⟨hhead, htail⟩ := pairwise_cons.mp hsorted
    obtain ⟨hkey, hkeys⟩ := forall_mem_cons.mp hkeys
    have hput : StlMap.put keyLess key (readBack value) before = before ++ [(key, readBack value)] :=
      StlMap.put_of_forall_less keyLess _ fun e he => hbefore e he _ mem_cons_self
    have hbefore' : ∀ e ∈ before ++ [(key, readBack value)], ∀ e' ∈ rest,
        keyLess e.1 e'.1 = true := by
      intro e he e' he'
      rcases mem_append.mp he with he | he
      · exact hbefore e he e' (mem_cons_of_mem _ he')
      · rw [mem_singleton.mp he]
        exact hhead e' he'
    have hread := readsBack_writeUTF (Nat.lt_succ_of_le hkey)
    have hvalue := (readsBack_marshalPrimitive value hwf.1 hsup.1).map fun v =>
      StlMap.put keyLess key v before
    have hrest := readsBack_entries rest hwf.2 hsup.2 htail hkeys _ hbefore'
    rw [← hput] at hrest
    have hloop := (hread.bind (k := fun fuel key => do
      pure (StlMap.put keyLess key (← unmarshalPrimitive fuel) before)) hvalue).bind hrest
    rwa [hput, append_assoc] at hloop

end

mutual

/-- Only supported values are marshalled. -/
theorem supported_of_marshalled : ∀ (value : PrimitiveValueNode) {chunks : List Bytes},
    marshalPrimitive value = .ok chunks → Supported value
  | .null, _, h => by cases h
  | .list items, _, h => by
    obtain ⟨-, _, hsized⟩ := ok_of_writeBoth h
    obtain ⟨-, _, hitems⟩ := ok_of_writeBoth hsized
    exact ⟨trivial, items_supported items hitems⟩
  | .map entries, _, h => by
    obtain ⟨-, _, hsized⟩ := ok_of_writeBoth h
    obtain ⟨-, _, hentries⟩ := ok_of_writeBoth hsized
    exact entries_supported entries hentries
  | .bool _, _, _ | .byte _, _, _ | .char _, _, _ | .short _, _, _ | .int _, _, _ | .long _, _, _
  | .double _, _, _ | .float _, _, _ | .string _, _, _ | .byteArray _, _, _ => trivial

theorem items_supported : ∀ (items : List PrimitiveValueNode) {chunks : List Bytes},
    marshalItems items = .ok chunks → EveryItem NodeSupported items
  | [], _, _ => trivial
  | value :: rest, _, h => by
    obtain ⟨⟨_, hvalue⟩, _, hrest⟩ := ok_of_writeBoth h
    exact ⟨supported_of_marshalled value hvalue, items_supported rest hrest⟩

theorem entries_supported : ∀ (entries : List (Bytes × PrimitiveValueNode))
    {chunks : List Bytes}, marshalEntries entries = .ok chunks →
    (∀ e ∈ entries, countUTFLength e.1 ≤ 65535) ∧ EveryEntry NodeSupported entries
  | [], _, _ => ⟨by simp, trivial⟩
  | (key, value) :: rest, _, h => by
    obtain ⟨⟨_, hentry⟩, _, hrest⟩ := ok_of_writeBoth h
    obtain ⟨⟨_, hkey⟩, _, hvalue⟩ := ok_of_writeBoth hentry
    obtain ⟨hkeys, hvalues⟩ := entries_supported rest hrest
    have hfits : countUTFLength key ≤ 65535 := by
      by_contra hlong
      rw [writeUTFChunks, writeUTF, if_pos (by omega)] at hkey
      cases hkey
    exact ⟨forall_mem_cons.mpr ⟨hfits, hkeys⟩, supported_of_marshalled value hvalue, hvalues⟩

end

/-! ## Round trip -/

/-- A container comes back from its buffer, whatever the target held. -/
theorem unmarshalBuffer_sized
    {round : DataReader PrimitiveValueNode → α → DataReader α} {empty value : α}
    (hsize : size < 2 ^ 31) (hroom : FitsBuffer (sized size body))
    (h : ReadsBack body (fun fuel => readLoop (round (unmarshalPrimitive fuel)) size empty)
      value) :
    ∃ bytes, sized size body >>= buffered = .ok bytes ∧
      ∀ old, unmarshalBuffer (fun read => do readLoop (round read) (← readInt).toInt.toNat empty)
        old bytes = .ok value := by
  obtain ⟨chunks, hchunks, hdecodes⟩ := readsBack_sized hsize h
  refine ⟨chunks.flatten, by rw [hchunks]; exact buffered_eq (hroom chunks hchunks), ?_⟩
  intro old
  have hread := hdecodes _ le_rfl [] []
  rw [append_nil] at hread
  have hnil : chunks.flatten ≠ [] := by
    intro hnil
    rw [hnil] at hread
    cases hread
  rw [unmarshalBuffer, if_neg hnil]
  exact congrArg _ hread

/-- The map comes back equal, into a target of any content. -/
def MapRoundTrips (map : PrimitiveMap) : Prop :=
  ∃ bytes, marshalMap (some map.entries) = .ok bytes ∧
    ∀ old, unmarshalMap old bytes = .ok map.entries

/-- The list comes back equal, into a target of any content. -/
def ListRoundTrips (list : PrimitiveList) : Prop :=
  ∃ bytes, marshalList (some list.items) = .ok bytes ∧
    ∀ old, unmarshalList old bytes = .ok list.items

/-- A function of the bytes gives back `value` iff what it gives is `value`. -/
theorem exists_ok_iff {marshalled : Except Exn Bytes} {read : α → Bytes → Except Exn α}
    {back value : α} (h : ∃ bytes, marshalled = .ok bytes ∧ ∀ old, read old bytes = .ok back) :
    (∃ bytes, marshalled = .ok bytes ∧ ∀ old, read old bytes = .ok value) ↔ back = value := by
  obtain ⟨bytes, hbytes, hread⟩ := h
  constructor
  · intro hround
    obtain ⟨bytes', hbytes', hread'⟩ := hround
    rw [hbytes] at hbytes'
    cases hbytes'
    have heq := (hread value).symm.trans (hread' value)
    injection heq
  · intro heq
    rw [← heq]
    exact ⟨bytes, hbytes, hread⟩

theorem mapRoundTrips_iff (map : PrimitiveMap) (hsup : Supported (.map map.entries))
    (hroom : FitsBuffer (marshalPrimitiveMap map.entries)) :
    MapRoundTrips map ↔ Every NotEmptyString (.map map.entries) := by
  obtain ⟨⟨hsize, hsorted⟩, hwf⟩ := map.wf
  have hentries := readsBack_entries map.entries hwf hsup.2 hsorted hsup.1 [] (by simp)
  rw [← readBack_eq_iff, readBack, PrimitiveValueNode.map.injEq]
  exact exists_ok_iff (unmarshalBuffer_sized hsize hroom hentries)

theorem listRoundTrips_iff (list : PrimitiveList) (hsup : Supported (.list list.items))
    (hroom : FitsBuffer (marshalPrimitiveList list.items)) :
    ListRoundTrips list ↔ Every NotEmptyString (.list list.items) := by
  have hitems := readsBack_items list.items list.wf.2 hsup.2 []
  rw [← readBack_eq_iff, readBack, PrimitiveValueNode.list.injEq]
  exact exists_ok_iff (unmarshalBuffer_sized list.wf.1 hroom hitems)

theorem nested_wf : Every NodeWf (.map [([107], .list [.string [97], .map []])]) ∧
    Every NodeWf (.list [.byteArray [], .string [97]]) ∧
    Every NodeWf (.map [([107], .string [])]) := by
  simp [Every, EveryItem, EveryEntry, NodeWf]

/-- **Values delimit themselves.** Whatever follows the bytes of a value that was marshalled,
its reading takes those bytes and leaves the rest. -/
theorem primitive_self_delimiting (value : PrimitiveValueNode) (hwf : Every NodeWf value)
    {chunks : List Bytes} (h : marshalPrimitive value = .ok chunks) {fuel : Nat}
    (hfuel : chunks.flatten.length ≤ fuel) (rest : Bytes) :
    (unmarshalPrimitive fuel).run ⟨chunks.flatten ++ rest, []⟩ =
      .ok (readBack value, ⟨rest, []⟩) := by
  obtain ⟨written, hwritten, hdecodes⟩ :=
    readsBack_marshalPrimitive value hwf (supported_of_marshalled value h)
  rw [h] at hwritten
  cases hwritten
  exact hdecodes fuel hfuel rest []

/-- The map `k ↦ ["a", {}]` in front of a byte that looks like a type. -/
theorem primitive_self_delimiting_nested :
    (unmarshalPrimitive 22).run ⟨[11, 0, 0, 0, 1, 0, 1, 107, 12, 0, 0, 0, 2, 9, 0, 1, 97, 11,
      0, 0, 0, 0] ++ [12], []⟩ =
      .ok (.map [([107], .list [.string [97], .map []])], ⟨[12], []⟩) :=
  primitive_self_delimiting (.map [([107], .list [.string [97], .map []])]) nested_wf.1 rfl
    le_rfl [12]

end ActivemqCpp.Openwire
