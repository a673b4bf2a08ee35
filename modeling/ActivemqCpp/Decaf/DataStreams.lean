import ActivemqCpp.Base.BigEndian
import ActivemqCpp.Base.Codec
import ActivemqCpp.Decaf.Lang

/-!
# `DataOutputStream` and `DataInputStream`

What the writers put on the stream and what the readers take off it. A writer is
the list of bytes it writes, or the exception it throws, and a marshaller the list of those
lists; a reader runs on what is
left of the input. Each reader gives back what its writer wrote and leaves what
follows (`decodes_readShort`, …, `decodes_readUTF`).

`writeUTF` is the modified UTF-8 of single-byte characters: one byte for
`1..127`, two for `0` and `128..255`.
-/

namespace ActivemqCpp.Decaf

open Base

abbrev DataReader := Reader UInt8 Exn

/-- What a marshaller hands to the stream below, call by call. -/
abbrev Written := Except Exn (List Bytes)

/-! ## Fixed-width values -/

def writeBoolean (value : Bool) : Bytes := [if value then 1 else 0]

def writeByte (value : UInt8) : Bytes := [value]

def writeShort (value : BitVec 16) : Bytes := bigEndian 2 value.toNat

def writeInt (value : BitVec 32) : Bytes := bigEndian 4 value.toNat

def writeLong (value : BitVec 64) : Bytes := bigEndian 8 value.toNat

/-- `readFully(buffer, size)`. -/
def readFully (size : Nat) : DataReader Bytes := takeItems .eof size

/-- A word of `width` bytes as the number it stands for. -/
def readWord (width : Nat) : DataReader Nat := ofBigEndian <$> readFully width

def readBoolean : DataReader Bool := (fun n => n != 0) <$> readWord 1

def readByte : DataReader UInt8 := UInt8.ofNat <$> readWord 1

def readShort : DataReader (BitVec 16) := BitVec.ofNat 16 <$> readWord 2

def readUnsignedShort : DataReader Nat := readWord 2

def readInt : DataReader (BitVec 32) := BitVec.ofNat 32 <$> readWord 4

def readLong : DataReader (BitVec 64) := BitVec.ofNat 64 <$> readWord 8

theorem decodes_readFully (bytes : Bytes) {size : Nat} (h : bytes.length = size) :
    Decodes (readFully size) bytes [] bytes := by
  subst h
  exact decodes_takeItems Exn.eof bytes

theorem decodes_readWord (width n : Nat) :
    Decodes (readWord width) (bigEndian width n) [] (n % 256 ^ width) := by
  rw [← ofBigEndian_bigEndian]
  exact (decodes_readFully _ (length_bigEndian width n)).map ofBigEndian

theorem decodes_readBoolean (b : Bool) : Decodes readBoolean (writeBoolean b) [] b := by
  have hbytes : writeBoolean b = bigEndian 1 b.toNat := by cases b <;> rfl
  have hvalue : b = (b.toNat % 256 ^ 1 != 0) := by cases b <;> rfl
  rw [hbytes]
  nth_rewrite 2 [hvalue]
  exact (decodes_readWord 1 b.toNat).map fun n => n != 0

theorem decodes_readByte (b : UInt8) : Decodes readByte (writeByte b) [] b := by
  have hbytes : writeByte b = bigEndian 1 b.toNat := by simp [writeByte, bigEndian]
  have hvalue : b = UInt8.ofNat (b.toNat % 256 ^ 1) := by
    apply UInt8.toNat_inj.mp
    simp
  rw [hbytes]
  nth_rewrite 2 [hvalue]
  exact (decodes_readWord 1 b.toNat).map UInt8.ofNat

/-- A word read back at its own width. -/
theorem ofNat_toNat_mod {w width : Nat} (hw : 2 ^ w = 256 ^ width) (v : BitVec w) :
    BitVec.ofNat w (v.toNat % 256 ^ width) = v := by
  rw [← hw, Nat.mod_eq_of_lt v.isLt, BitVec.ofNat_toNat, BitVec.setWidth_eq]

theorem decodes_readShort (v : BitVec 16) : Decodes readShort (writeShort v) [] v := by
  have h := (decodes_readWord 2 v.toNat).map (BitVec.ofNat 16)
  rwa [ofNat_toNat_mod (by norm_num) v] at h

theorem decodes_readInt (v : BitVec 32) : Decodes readInt (writeInt v) [] v := by
  have h := (decodes_readWord 4 v.toNat).map (BitVec.ofNat 32)
  rwa [ofNat_toNat_mod (by norm_num) v] at h

theorem decodes_readLong (v : BitVec 64) : Decodes readLong (writeLong v) [] v := by
  have h := (decodes_readWord 8 v.toNat).map (BitVec.ofNat 64)
  rwa [ofNat_toNat_mod (by norm_num) v] at h

theorem decodes_readUnsignedShort (v : BitVec 16) :
    Decodes readUnsignedShort (writeShort v) [] v.toNat := by
  have h := decodes_readWord 2 v.toNat
  rwa [Nat.mod_eq_of_lt (by simpa using v.isLt)] at h

/-- A size that fits a signed word of `w` bits is the same number when read signed. -/
theorem toInt_ofNat_of_lt {w n : Nat} (h : 2 * n < 2 ^ w) : (BitVec.ofNat w n).toInt = n := by
  rw [BitVec.toInt_eq_toNat_cond, BitVec.toNat_ofNat, Nat.mod_eq_of_lt (by omega)]
  rw [if_pos h]

/-- The bytes behind a signed length: none unless it is positive. -/
def readSized {w : Nat} (length : BitVec w) : DataReader Bytes :=
  if length.toInt > 0 then readFully length.toInt.toNat else pure []

theorem decodes_readSized {w : Nat} {data : Bytes} (h : 2 * data.length < 2 ^ w) :
    Decodes (readSized (BitVec.ofNat w data.length)) data [] data := by
  rw [readSized, toInt_ofNat_of_lt h]
  by_cases hpos : (data.length : Int) > 0
  · rw [if_pos hpos]
    exact decodes_readFully data rfl
  · have hnil : data = [] := List.eq_nil_of_length_eq_zero (by omega)
    rw [hnil]
    exact decodes_pure []

/-! ## Modified UTF-8 -/

/-- The first byte of the two-byte form. -/
def utfLead (c : UInt8) : UInt8 := (0xC0 : UInt8) ||| ((0x1F : UInt8) &&& (c >>> 6))

/-- The second byte of the two-byte form. -/
def utfTrail (c : UInt8) : UInt8 := (0x80 : UInt8) ||| ((0x3F : UInt8) &&& c)

/-- The bytes of one character; a character is one byte. -/
def utfBytes (c : UInt8) : Bytes :=
  if 0 < c ∧ c ≤ 127 then [c] else [utfLead c, utfTrail c]

/-- `countUTFLength`. -/
def countUTFLength (value : Bytes) : Nat :=
  (value.map fun c => if 0 < c ∧ c ≤ 127 then 1 else 2).sum

/-- `writeUTF`. -/
def writeUTF (value : Bytes) : Except Exn Bytes :=
  if countUTFLength value > 65535 then .error .utfDataFormat
  else .ok (writeShort (BitVec.ofNat 16 (countUTFLength value)) ++ value.flatMap utfBytes)

/-- The two calls of `writeUTF` on the stream below: the length, then the bytes. -/
def writeUTFChunks (value : Bytes) : Written :=
  (writeUTF value).map fun bytes => [bytes.take 2, bytes.drop 2]

/-- The decoding loop of `readUTF` over the bytes of one text. -/
def decodeUTF : Bytes → Except Exn Bytes
  | [] => .ok []
  | a :: rest =>
    if a < 0x80 then (decodeUTF rest).map (a :: ·)
    else if a &&& 0xE0 = 0xC0 then
      match rest with
      | [] => .error .utfDataFormat
      | b :: rest =>
        if b &&& 0xC0 ≠ 0x80 then .error .utfDataFormat
        -- a value above 255 is not supported
        else if a &&& 0x1C ≠ 0 then .error .utfDataFormat
        else (decodeUTF rest).map (((a &&& 0x1F) <<< 6 ||| (b &&& 0x3F)) :: ·)
    -- the three-byte form and anything else
    else .error .utfDataFormat

/-- `readUTF`. -/
def readUTF : DataReader Bytes := do
  let utfLength ← readUnsignedShort
  if utfLength = 0 then pure []
  else
    let buffer ← readFully utfLength
    StateT.lift (decodeUTF buffer)

theorem length_flatMap_utfBytes (value : Bytes) :
    (value.flatMap utfBytes).length = countUTFLength value := by
  induction value with
  | nil => rfl
  | cons c value ih =>
    simp only [List.flatMap_cons, List.length_append, ih, countUTFLength, List.map_cons, utfBytes]
    split <;> rfl

/-- The two-byte form passes every test of the decoder and carries its character. -/
theorem utf_two_byte (c : UInt8) :
    ¬ utfLead c < 0x80 ∧ utfLead c &&& 0xE0 = 0xC0 ∧ utfTrail c &&& 0xC0 = 0x80 ∧
      utfLead c &&& 0x1C = 0 ∧ (utfLead c &&& 0x1F) <<< 6 ||| (utfTrail c &&& 0x3F) = c := by
  -- a character is one of 256 values
  have hall : ∀ n : Fin 256, ¬ utfLead (UInt8.ofFin n) < 0x80 ∧
      utfLead (UInt8.ofFin n) &&& 0xE0 = 0xC0 ∧ utfTrail (UInt8.ofFin n) &&& 0xC0 = 0x80 ∧
      utfLead (UInt8.ofFin n) &&& 0x1C = 0 ∧
      (utfLead (UInt8.ofFin n) &&& 0x1F) <<< 6 ||| (utfTrail (UInt8.ofFin n) &&& 0x3F) =
        UInt8.ofFin n := by
    decide +kernel
  exact hall c.toFin

/-- Every character is decoded from its own bytes. -/
theorem decodeUTF_utfBytes (c : UInt8) (rest : Bytes) :
    decodeUTF (utfBytes c ++ rest) = (decodeUTF rest).map (c :: ·) := by
  unfold utfBytes
  split
  · next hascii =>
    have hlt : c < 0x80 := by
      have h := hascii.2
      exact Nat.lt_succ_of_le h
    show decodeUTF (c :: rest) = _
    rw [decodeUTF.eq_def]
    exact if_pos hlt
  · obtain ⟨hge, hlead, htrail, hsmall, hvalue⟩ := utf_two_byte c
    show decodeUTF (utfLead c :: utfTrail c :: rest) = _
    rw [decodeUTF.eq_def]
    simp [hge, hlead, htrail, hsmall, hvalue]

theorem decodeUTF_flatMap (value : Bytes) : decodeUTF (value.flatMap utfBytes) = .ok value := by
  induction value with
  | nil => rfl
  | cons c value ih =>
    rw [List.flatMap_cons, decodeUTF_utfBytes, ih]
    rfl

variable {value : Bytes}

theorem writeUTF_of_count_lt (h : countUTFLength value < 65536) :
    ∃ bytes, writeUTF value = .ok bytes := by
  rw [writeUTF, if_neg (by omega)]
  exact ⟨_, rfl⟩

theorem length_of_writeUTF {bytes : Bytes} (h : writeUTF value = .ok bytes) :
    bytes.length = countUTFLength value + 2 := by
  unfold writeUTF at h
  split at h
  · cases h
  · cases h
    rw [List.length_append, length_flatMap_utfBytes, writeShort, length_bigEndian]
    omega

/-- `readUTF` on any bytes behind their length. -/
theorem run_readUTF {b : Bytes} (hle : b.length ≤ 65535) (rest : Bytes) (more : List Bool) :
    readUTF.run ⟨writeShort (BitVec.ofNat 16 b.length) ++ (b ++ rest), more⟩ =
      (decodeUTF b).map (·, ⟨rest, more⟩) := by
  have hlen : (BitVec.ofNat 16 b.length).toNat = b.length := by
    rw [BitVec.toNat_ofNat, Nat.mod_eq_of_lt (by omega)]
  have hshort := decodes_readUnsignedShort (BitVec.ofNat 16 b.length) (b ++ rest) more
  rw [hlen, List.nil_append] at hshort
  rw [readUTF, StateT.run_bind, hshort]
  show ((if b.length = 0 then _ else _ : DataReader Bytes).run _) = _
  split
  · next hnil =>
    rw [List.eq_nil_of_length_eq_zero hnil]
    rfl
  · have hbody := decodes_readFully b rfl rest more
    rw [List.nil_append] at hbody
    rw [StateT.run_bind, hbody]
    show (StateT.lift (decodeUTF b) : DataReader Bytes).run _ = _
    cases decodeUTF b <;> rfl

/-- `readUTF` after `writeUTF`. -/
theorem decodes_readUTF {bytes : Bytes} (h : writeUTF value = .ok bytes) :
    Decodes readUTF bytes [] value := by
  unfold writeUTF at h
  split at h
  · cases h
  · next hle =>
    cases h
    intro rest more
    rw [← length_flatMap_utfBytes] at hle ⊢
    rw [List.append_assoc, run_readUTF (not_lt.mp hle), decodeUTF_flatMap]
    rfl

theorem readsBack_writeUTF (h : countUTFLength value < 65536) :
    ReadsBack (writeUTFChunks value) (fun _ => readUTF) value := by
  obtain ⟨bytes, hbytes⟩ := writeUTF_of_count_lt h
  rw [writeUTFChunks, hbytes]
  exact readsBack_ok fun _ => decodes_readUTF hbytes

end ActivemqCpp.Decaf
