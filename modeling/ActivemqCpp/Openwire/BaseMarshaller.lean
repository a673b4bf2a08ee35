import ActivemqCpp.Openwire.BooleanStream
import Mathlib.Data.BitVec

/-!
# `BaseDataStreamMarshaller`: strings and longs

The helpers every generated marshaller calls. The tight encoding packs its
booleans into a stream of their own: `…1` appends them and counts the bytes to
come, `…2` reads them back and writes the bytes.

* A string is written in ASCII form (raw bytes behind a 16-bit length) when all
  its bytes are in `1..127`, else as modified UTF-8. The ASCII reader takes the
  length as a *signed* short, so from 32768 bytes on it reads nothing, and the counter of
  the first pass is an `int`: the round trip holds *iff* the string is not of that kind and
  its count does not wrap around (`string_roundTrip_iff`).
* A long is written in 0, 2, 4 or 8 bytes (`twoPass_long`).
-/

namespace ActivemqCpp.Openwire

open Base Decaf BitVec
open Exn (io)

/-- What a first pass returns, an `int`, and the booleans it writes. -/
abbrev Pass1 := Except Exn (BitVec 32 × List Bool)

abbrev DataEmitter := Emitter UInt8 Exn

/-- The booleans of the first pass fit a stream, and the number of bytes of the second is an
`int`. -/
def WithinLimits (first : Pass1) (second : DataEmitter) : Prop :=
  ∀ size flags bytes, first = .ok (size, flags) → Emits second flags bytes →
    flags.length ≤ BooleanStream.capacity ∧ bytes.length < 2 ^ 31

/-- `BooleanStream::readBoolean` in an unmarshaller. -/
def readFlag : DataReader Bool := takeFlag .io

/-- `BooleanStream::readBoolean` in a second pass. -/
def onFlag (k : Bool → DataEmitter) : DataEmitter := withFlag .io k

/-- Read with booleans of its own. -/
def withBooleans {α : Type} (booleans : List Bool) (reader : DataReader α) : DataReader α :=
  fun input =>
    match reader.run { input with flags := booleans } with
    | .error e => .error e
    | .ok (value, rest) => .ok (value, { rest with flags := input.flags })

/-! ## Strings -/

/-- `isOnlyAscii` of the counting loop. -/
def isOnlyAscii (value : Bytes) : Bool := value.all fun c => 0 < c && c ≤ 127

/-- `tightMarshalString1`: the bytes that will follow and the booleans written. The
loop counts as `countUTFLength` does, a `char` being one byte. -/
def tightMarshalString1 (value : Bytes) : Pass1 :=
  if value = [] then .ok (0, [false])
  else
    let utflen := wrap 32 (countUTFLength value)
    if utflen ≥ 0x10000 then .error .io
    else .ok (BitVec.ofInt 32 (utflen + 2), [true, isOnlyAscii value])

/-- `tightMarshalString2`. -/
def tightMarshalString2 (value : Bytes) : DataEmitter :=
  onFlag fun present =>
    if present then
      onFlag fun ascii =>
        if ascii then emitItems (writeShort (BitVec.ofNat 16 value.length) ++ value)
        else emitExcept (writeUTF value)
    else emitItems []

/-- `readAsciiString`: the length is a signed short. -/
def readAsciiString : DataReader Bytes := do
  let size ← readShort
  readSized size

/-- `tightUnmarshalString`. -/
def tightUnmarshalString : DataReader Bytes := do
  if ← readFlag then
    if ← readFlag then readAsciiString else readUTF
  else pure []

/-- `looseMarshalString`. -/
def looseMarshalString (value : Bytes) : Written :=
  if value = [] then .ok [writeBoolean false]
  else writeBoth (.ok [writeBoolean true]) (writeUTFChunks value)

/-- `looseUnmarshalString`. -/
def looseUnmarshalString : DataReader Bytes := do
  if ← readBoolean then readUTF else pure []

variable {value : Bytes}

/-- The ASCII form counts one byte for each character. -/
theorem countUTFLength_of_ascii (h : isOnlyAscii value = true) :
    countUTFLength value = value.length := by
  induction value with
  | nil => rfl
  | cons c value ih =>
    simp only [isOnlyAscii, List.all_cons, Bool.and_eq_true, decide_eq_true_eq] at h
    have hrest : countUTFLength value = value.length := ih (by simpa [isOnlyAscii] using h.2)
    simp only [countUTFLength, List.map_cons, List.sum_cons, List.length_cons] at hrest ⊢
    rw [if_pos h.1]
    omega

theorem decodes_readAsciiString (hlt : value.length < 32768) :
    Decodes readAsciiString (writeShort (BitVec.ofNat 16 value.length) ++ value) [] value :=
  (decodes_readShort _).thenItems (decodes_readSized (by omega))

/-- The second pass in ASCII form. -/
theorem emits_string_ascii (value : Bytes) :
    Emits (tightMarshalString2 value) [true, true]
      (writeShort (BitVec.ofNat 16 value.length) ++ value) :=
  emits_withFlag io (emits_withFlag io (emits_items _))

variable {bytes : Bytes} (h : writeUTF value = .ok bytes)
include h

/-- The second pass in modified UTF-8. -/
theorem emits_string_utf : Emits (tightMarshalString2 value) [true, false] bytes :=
  emits_withFlag io (emits_withFlag io (emits_except h))

omit h in
theorem decodes_string_ascii (hlt : value.length < 32768) :
    Decodes tightUnmarshalString (writeShort (BitVec.ofNat 16 value.length) ++ value)
      [true, true] value :=
  (decodes_takeFlag io true).thenFlags
    ((decodes_takeFlag io true).thenFlags (decodes_readAsciiString hlt))

theorem decodes_string_utf : Decodes tightUnmarshalString bytes [true, false] value :=
  (decodes_takeFlag io true).thenFlags
    ((decodes_takeFlag io false).thenFlags (decodes_readUTF h))

omit h

/-- The string comes back, tight and loose, from whatever stream the first pass
accepts it for. -/
def StringRoundTrips (value : Bytes) : Prop :=
  ∀ size flags, tightMarshalString1 value = .ok (size, flags) →
    (∃ bytes, Emits (tightMarshalString2 value) flags bytes ∧
      Decodes tightUnmarshalString bytes flags value) ∧
    (∃ chunks, looseMarshalString value = .ok chunks ∧
      Decodes looseUnmarshalString chunks.flatten [] value)

theorem readsBack_looseString (h : countUTFLength value < 65536) :
    ReadsBack (looseMarshalString value) (fun _ => looseUnmarshalString) value := by
  unfold looseMarshalString
  by_cases hnil : value = []
  · rw [hnil]
    exact readsBack_ok fun _ => (decodes_readBoolean false).thenItems (decodes_pure [])
  · rw [if_neg hnil]
    exact (readsBack_ok fun _ => decodes_readBoolean true).bind (readsBack_writeUTF h)

/-- Every string that the first pass accepts is written as counted; it is read back
unless it is ASCII and too long for a signed length. -/
theorem twoPass_string (h : countUTFLength value < 65536) :
    TwoPass (isOnlyAscii value = true → value.length < 32768) (tightMarshalString1 value)
      (tightMarshalString2 value) (fun _ => tightUnmarshalString) 0 value := by
  unfold tightMarshalString1
  by_cases hnil : value = []
  · rw [hnil]
    exact twoPass_flags (emits_withFlag io (emits_items [])) fun _ _ =>
      (decodes_takeFlag io false).thenFlags (decodes_pure [])
  · have hwrap : wrap 32 (countUTFLength value) = countUTFLength value := wrap_of_bounds
    simp only [if_neg hnil, hwrap]
    rw [if_neg (by omega), show ((countUTFLength value : Int) + 2) =
      (countUTFLength value + 2 : ℕ) from rfl, BitVec.ofInt_natCast]
    cases hascii : isOnlyAscii value with
    | true =>
      refine ⟨_, _, ?_, emits_string_ascii value, fun hshort _ _ =>
        decodes_string_ascii (hshort rfl)⟩
      rw [countUTFLength_of_ascii hascii, List.length_append, writeShort, length_bigEndian,
        Nat.add_comm 2]
      rfl
    | false =>
      obtain ⟨bytes, hutf⟩ := writeUTF_of_count_lt h
      refine ⟨_, bytes, ?_, emits_string_utf hutf, fun _ _ _ => decodes_string_utf hutf⟩
      rw [length_of_writeUTF hutf]
      rfl

/-- The string is accepted, and under `ok` read back. -/
def StringFits (ok : Prop) (value : Bytes) : Prop :=
  countUTFLength value < 65536 ∧ (ok → isOnlyAscii value = true → value.length < 32768)

theorem StringFits.twoPass {ok : Prop} (h : StringFits ok value) :
    TwoPass ok (tightMarshalString1 value) (tightMarshalString2 value)
      (fun _ => tightUnmarshalString) 0 value :=
  (twoPass_string h.1).mono h.2

/-- The same with one limit for the encoded length: what is below it is written, and
read back if the limit is the signed one. -/
theorem twoPass_string_limit {limit : Nat} (hlimit : limit ≤ 65536)
    (h : countUTFLength value < limit) :
    TwoPass (limit ≤ 32768) (tightMarshalString1 value) (tightMarshalString2 value)
      (fun _ => tightUnmarshalString) 0 value := by
  refine (twoPass_string (by omega)).mono ?_
  intro hsigned hascii
  rw [countUTFLength_of_ascii hascii] at h
  omega

/-! The reader goes by the flags of the first pass, so from what it gives back follows what it
can give back. -/

theorem quiet_readFully (n : Nat) : Quiet (readFully n) := fun _ _ _ h => (run_takeItems h).2

theorem length_of_decodeUTF : ∀ {buffer value : Bytes}, decodeUTF buffer = .ok value →
    value.length ≤ buffer.length := by
  intro buffer
  fun_induction decodeUTF buffer with
  | case1 =>
    rintro _ ⟨⟩
    rfl
  | case2 a rest _ ih =>
    intro value h
    cases hrest : decodeUTF rest <;> rw [hrest] at h <;> cases h
    exact Nat.succ_le_succ (ih hrest)
  | case6 a _ _ b rest _ _ ih =>
    intro value h
    cases hrest : decodeUTF rest <;> rw [hrest] at h <;> cases h
    exact Nat.succ_le_succ ((ih hrest).trans (Nat.le_succ _))
  | _ => rintro _ ⟨⟩

variable {size : BitVec 32} {flags more : List Bool} {items : Bytes} {input left : Input UInt8}

theorem run_readUTF_ok (h : readUTF.run input = .ok (value, left)) :
    value.length < 65536 ∧ left.flags = input.flags := by
  obtain ⟨n, rest, hn, h⟩ := run_of_bind h
  obtain ⟨word, hword, rfl⟩ := run_of_map hn
  obtain ⟨hwidth, hflags⟩ := run_takeItems hword
  have hlt := ofBigEndian_lt word
  rw [hwidth] at hlt
  split at h
  · cases h
    exact ⟨by decide, hflags⟩
  · obtain ⟨buffer, _, hbuffer, h⟩ := run_of_bind h
    obtain ⟨hsize, hkeep⟩ := run_takeItems hbuffer
    cases hdecode : decodeUTF buffer <;> rw [hdecode] at h <;> cases h
    have hlength := length_of_decodeUTF hdecode
    exact ⟨by omega, hkeep.trans hflags⟩

theorem run_readAsciiString (h : readAsciiString.run input = .ok (value, left)) :
    value.length < 32768 ∧ left.flags = input.flags := by
  obtain ⟨length, rest, hlength, hrest⟩ := run_of_bind h
  have hflags := ((quiet_readFully 2).map _).map _ _ _ _ hlength
  unfold readSized at hrest
  split at hrest
  · obtain ⟨hsize, hkeep⟩ := run_takeItems hrest
    have hlt := length.toInt_lt
    exact ⟨by omega, hkeep.trans hflags⟩
  · cases hrest
    exact ⟨by decide, hflags⟩

theorem countUTFLength_le (value : Bytes) : countUTFLength value ≤ 2 * value.length := by
  induction value with
  | nil => exact le_rfl
  | cons c value ih =>
    rw [countUTFLength] at ih ⊢
    rw [List.map_cons, List.sum_cons, List.length_cons]
    split <;> omega

theorem string_aligned (hfirst : tightMarshalString1 value = .ok (size, flags))
    (hrun : tightUnmarshalString.run ⟨items, flags ++ more⟩ = .ok (value, left)) :
    left.flags = more ∧ StringFits True value := by
  unfold tightMarshalString1 at hfirst
  split at hfirst
  · next hnil =>
    cases hfirst
    cases hrun
    exact ⟨rfl, by decide, by simp⟩
  · simp only at hfirst
    split at hfirst
    · cases hfirst
    · next hcount =>
      obtain ⟨-, rfl⟩ := Prod.mk.inj (Except.ok.inj hfirst)
      -- a string that is read is too short for its count to wrap around
      have hsmall : value.length < 65536 → countUTFLength value < 65536 := by
        intro hlength
        have hle := countUTFLength_le value
        rw [wrap_of_bounds] at hcount
        omega
      cases hascii : isOnlyAscii value with
      | true =>
        rw [hascii] at hrun
        obtain ⟨hshort, hflags⟩ := run_readAsciiString hrun
        exact ⟨hflags, hsmall (by omega), fun _ _ => hshort⟩
      | false =>
        rw [hascii] at hrun
        obtain ⟨hlength, hflags⟩ := run_readUTF_ok hrun
        exact ⟨hflags, hsmall hlength, by simp [hascii]⟩

theorem StringRoundTrips.fits (h : StringRoundTrips value)
    (hcount : wrap 32 (countUTFLength value) < 65536) : StringFits True value := by
  obtain ⟨size, flags, hfirst⟩ : ∃ size flags, tightMarshalString1 value = .ok (size, flags) := by
    unfold tightMarshalString1
    split
    · exact ⟨_, _, rfl⟩
    · exact ⟨_, _, if_neg (by omega)⟩
  obtain ⟨⟨bytes, -, hdecodes⟩, -⟩ := h size flags hfirst
  exact (string_aligned hfirst (hdecodes [] [])).2

/-- **Strings.** For every string: if the first pass accepts it, the tight pair and
the loose pair both give it back and consume exactly its bytes — *iff* its count in the first
pass, an `int`, is so great that it is refused, or it has less than 65536 encoded bytes and
less than 32768 if they are all ASCII. -/
theorem string_roundTrip_iff (value : Bytes) :
    StringRoundTrips value ↔ 65536 ≤ wrap 32 (countUTFLength value) ∨
      (countUTFLength value < 65536 ∧ (isOnlyAscii value = true → value.length < 32768)) := by
  constructor
  · intro hround
    by_cases hcount : wrap 32 (countUTFLength value) < 65536
    · have hfits := hround.fits hcount
      exact Or.inr ⟨hfits.1, hfits.2 trivial⟩
    · exact Or.inl (not_lt.mp hcount)
  · rintro (hrefused | ⟨hcount, hshort⟩) size flags hfirst
    · unfold tightMarshalString1 at hfirst
      split at hfirst
      · next hnil =>
        subst hnil
        exact absurd hrefused (by decide)
      · rw [if_pos hrefused] at hfirst
        cases hfirst
    · obtain ⟨flags', bytes, hfirst', hemits, hdecodes⟩ := twoPass_string hcount
      rw [hfirst] at hfirst'
      cases hfirst'
      obtain ⟨chunks, hloose, hread⟩ := readsBack_looseString hcount
      exact ⟨⟨bytes, hemits, hdecodes hshort _ le_rfl⟩, ⟨chunks, hloose, hread _ le_rfl⟩⟩

/-- 32768 letters `a` come back as the empty string. -/
theorem long_ascii_not_roundTrip : ¬ StringRoundTrips (List.replicate 32768 97) := by
  intro hround
  have hascii : isOnlyAscii (List.replicate 32768 97) = true := by
    simp only [isOnlyAscii, List.all_replicate]
    decide
  have hcount := countUTFLength_of_ascii hascii
  rw [List.length_replicate] at hcount
  have hfits := (hround.fits (by rw [hcount]; decide)).2 trivial hascii
  rw [List.length_replicate] at hfits
  omega

/-! ## Longs -/

/-- `tightMarshalLong1`. -/
def tightMarshalLong1 (value : BitVec 64) : Nat × List Bool :=
  if value = 0 then (0, [false, false])
  else if value &&& 0xFFFFFFFFFFFF0000#64 = 0 then (2, [false, true])
  else if value &&& 0xFFFFFFFF00000000#64 = 0 then (4, [true, false])
  else (8, [true, true])

/-- `tightMarshalLong2`. -/
def tightMarshalLong2 (value : BitVec 64) : DataEmitter :=
  onFlag fun wide =>
    if wide then
      onFlag fun full =>
        if full then emitItems (writeLong value) else emitItems (writeInt (value.setWidth 32))
    else
      onFlag fun some =>
        if some then emitItems (writeShort (value.setWidth 16)) else emitItems []

/-- `tightUnmarshalLong`: the shorter forms are unsigned. -/
def tightUnmarshalLong : DataReader (BitVec 64) := do
  if ← readFlag then
    if ← readFlag then readLong else (fun v => v.setWidth 64) <$> readInt
  else
    if ← readFlag then (fun v => BitVec.ofNat 64 v) <$> readUnsignedShort else pure 0

variable {value : BitVec 64}

/-- A value that a mask of all bits from `k` on finds empty fits into `k` bits. -/
theorem setWidth_of_mask {mask : BitVec 64} {k : Nat}
    (hmask : ∀ i : Fin 64, k ≤ i → mask.getLsbD i = true) (h : value &&& mask = 0) :
    (value.setWidth k).setWidth 64 = value := by
  apply eq_of_getLsbD_eq
  intro i hi
  by_cases hlt : i < k
  · simp [hi, hlt]
  · have hbit : (value &&& mask).getLsbD i = false := by
      rw [h]
      simp
    rw [getLsbD_and, hmask ⟨i, hi⟩ (by simpa using hlt), Bool.and_true] at hbit
    simp [hbit]

theorem short_of_mask (h : value &&& 0xFFFFFFFFFFFF0000#64 = 0) :
    BitVec.ofNat 64 (value.setWidth 16).toNat = value := by
  have hfits := setWidth_of_mask (k := 16) (by decide) h
  rwa [← BitVec.ofNat_toNat] at hfits

theorem int_of_mask (h : value &&& 0xFFFFFFFF00000000#64 = 0) :
    (value.setWidth 32).setWidth 64 = value :=
  setWidth_of_mask (by decide) h

/-- A long written in 0, 2, 4 or 8 bytes comes back. -/
theorem twoPass_long (value : BitVec 64) :
    TwoPass True (.ok (tightMarshalLong1 value)) (tightMarshalLong2 value)
      (fun _ => tightUnmarshalLong) 0 value := by
  -- both flags, then the bytes of the form they stand for
  have hform : ∀ (wide full : Bool) bytes,
      Emits (tightMarshalLong2 value) [wide, full] bytes →
      Decodes tightUnmarshalLong bytes [wide, full] value →
      TwoPass True (.ok ((bytes.length : ℕ), [wide, full])) (tightMarshalLong2 value)
        (fun _ => tightUnmarshalLong) 0 value := by
    intro wide full bytes hemits hdecodes
    exact ⟨_, bytes, rfl, hemits, fun _ _ _ => hdecodes⟩
  unfold tightMarshalLong1
  split
  · next hzero =>
    refine hform false false [] (emits_withFlag io (emits_withFlag io (emits_items []))) ?_
    rw [hzero]
    exact (decodes_takeFlag io false).thenFlags
      ((decodes_takeFlag io false).thenFlags (decodes_pure 0))
  · split
    · next hshort =>
      refine hform false true (writeShort (value.setWidth 16))
        (emits_withFlag io (emits_withFlag io (emits_items _))) ?_
      have hread := (decodes_readUnsignedShort (value.setWidth 16)).map (BitVec.ofNat 64)
      rw [short_of_mask hshort] at hread
      exact (decodes_takeFlag io false).thenFlags ((decodes_takeFlag io true).thenFlags hread)
    · split
      · next hint =>
        refine hform true false (writeInt (value.setWidth 32))
          (emits_withFlag io (emits_withFlag io (emits_items _))) ?_
        have hread := (decodes_readInt (value.setWidth 32)).map fun v => v.setWidth 64
        rw [int_of_mask hint] at hread
        exact (decodes_takeFlag io true).thenFlags ((decodes_takeFlag io false).thenFlags hread)
      · refine hform true true (writeLong value)
          (emits_withFlag io (emits_withFlag io (emits_items _))) ?_
        exact (decodes_takeFlag io true).thenFlags
          ((decodes_takeFlag io true).thenFlags (decodes_readLong value))

/-- **Longs.** Every 64-bit value is written in as many bytes as the first pass counts,
which are 0, 2, 4 or 8, and read back from them. -/
theorem long_roundTrip (value : BitVec 64) : ∃ bytes,
    Emits (tightMarshalLong2 value) (tightMarshalLong1 value).2 bytes ∧
      bytes.length = (tightMarshalLong1 value).1 ∧ bytes.length ∈ [0, 2, 4, 8] ∧
      Decodes tightUnmarshalLong bytes (tightMarshalLong1 value).2 value := by
  obtain ⟨flags, bytes, hfirst, hemits, hdecodes⟩ := twoPass_long value
  have hcount : tightMarshalLong1 value = (bytes.length, flags) := Except.ok.inj hfirst
  have hsize : (tightMarshalLong1 value).1 ∈ [0, 2, 4, 8] := by
    unfold tightMarshalLong1
    split_ifs <;> simp
  rw [hcount] at hsize ⊢
  exact ⟨bytes, hemits, rfl, hsize, hdecodes trivial _ le_rfl⟩

end ActivemqCpp.Openwire
