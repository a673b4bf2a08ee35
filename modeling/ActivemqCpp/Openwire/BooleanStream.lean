import ActivemqCpp.Decaf.DataStreams
import ActivemqCpp.Decaf.Numbers

/-!
# `BooleanStream`

The booleans of the tight encoding, eight to a byte. The stream is a vector that grows
by doubling, with the number of bytes in use and the position in 16-bit variables.

* Up to 262136 booleans (32767 bytes) the bits of the vector are the booleans written
  so far, then zeros (`Holds`), whatever was regrown in between.
* Such a stream is marshalled in as many bytes as `marshalledSize` reports, and what is
  read back are its booleans, filled up to a whole byte (`Holds.marshal`), one by one
  (`booleans_roundTrip`). Marshalling into a vector leaves a byte out (`marshalVector_iff`).
* With the next boolean the number of bytes wraps around, and the stream cannot be
  marshalled any more (`marshal_of_overflow`).
-/

namespace ActivemqCpp.Openwire

open Base Decaf List

structure BooleanStream where
  data : Bytes := replicate 1000 0
  arrayLimit : Int := 0
  arrayPos : Int := 0
  bytePos : Nat := 0

/-- The booleans of one byte, the lowest bit first. -/
def byteBits (b : UInt8) : List Bool := (range 8).map b.toNat.testBit

def bits (data : Bytes) : List Bool := data.flatMap byteBits

namespace BooleanStream

/-- The start of a new byte: `arrayLimit` is compared as an unsigned number. -/
def grow (bs : BooleanStream) : BooleanStream :=
  let arrayLimit := wrap 16 (bs.arrayLimit + 1)
  { bs with
    arrayLimit
    data := if arrayLimit < 0 ∨ bs.data.length ≤ arrayLimit then
        bs.data ++ replicate bs.data.length 0 else bs.data }

/-- `if (value) data[arrayPos] |= 1 << bytePos`; there is no element outside the vector. -/
def setBit (value : Bool) (bs : BooleanStream) : Except Exn BooleanStream :=
  if !value then .ok bs
  else if 0 ≤ bs.arrayPos ∧ bs.arrayPos < bs.data.length then
    .ok { bs with
      data := bs.data.modify bs.arrayPos.toNat fun b => b ||| (1 <<< UInt8.ofNat bs.bytePos) }
  else .error .io

/-- On to the next bit. -/
def advance (bs : BooleanStream) : BooleanStream :=
  if bs.bytePos + 1 ≥ 8 then { bs with bytePos := 0, arrayPos := wrap 16 (bs.arrayPos + 1) }
  else { bs with bytePos := bs.bytePos + 1 }

/-- `writeBoolean`. -/
def writeBoolean (bs : BooleanStream) (value : Bool) : Except Exn BooleanStream :=
  ((if bs.bytePos = 0 then bs.grow else bs).setBit value).map advance

/-- The booleans of a first pass. -/
def writeAll (booleans : List Bool) : Except Exn BooleanStream :=
  booleans.foldlM writeBoolean {}

/-- What `marshal` writes in front of the bytes. -/
def header (arrayLimit : Int) : Bytes :=
  if arrayLimit < 64 then [UInt8.ofInt arrayLimit]
  else if arrayLimit < 256 then [0xC0, UInt8.ofInt arrayLimit]
  else 0x80 :: writeShort (BitVec.ofInt 16 arrayLimit)

/-- `marshal`: the bounds are those of `DataOutputStream::write`. -/
def marshal (bs : BooleanStream) : Except Exn Bytes :=
  if bs.arrayLimit < 0 ∨ bs.arrayLimit > bs.data.length then .error .io
  else .ok (header bs.arrayLimit ++ bs.data.take bs.arrayLimit.toNat)

/-- `marshal` into a vector: the bytes inserted end in front of `data[arrayLimit - 1]`, of
which there has to be one. -/
def marshalVector (bs : BooleanStream) (dataOut : Bytes) : Except Exn Bytes :=
  if bs.arrayLimit - 1 < 0 ∨ bs.arrayLimit - 1 ≥ bs.data.length then .error .io
  else .ok (dataOut ++ header bs.arrayLimit ++ bs.data.take (bs.arrayLimit - 1).toNat)

/-- The number of bytes that the header announces. -/
def readHeader : DataReader Int := do
  let first ← readByte
  if first = 0xC0 then (fun b : UInt8 => (b.toNat : Int)) <$> readByte
  else if first = 0x80 then BitVec.toInt <$> readShort
  else pure (first.toNat : Int)

/-- `unmarshal`. -/
def unmarshal : DataReader BooleanStream := do
  let arrayLimit ← readHeader
  -- a vector cannot be resized to a negative length
  if arrayLimit < 0 then throw .io
  else
    let data ← readFully arrayLimit.toNat
    pure { data, arrayLimit }

/-- The booleans of a stream that is itself on the wire. -/
def unmarshalBooleans : DataReader (List Bool) := (bits ·.data) <$> unmarshal

/-- `readBoolean`; there is no element outside the vector. -/
def readBoolean (bs : BooleanStream) : Except Exn (Bool × BooleanStream) :=
  if 0 ≤ bs.arrayPos ∧ bs.arrayPos < bs.data.length then
    .ok ((bs.data.getD bs.arrayPos.toNat 0).toNat.testBit bs.bytePos, bs.advance)
  else .error .io

/-- The next `n` booleans. -/
def readAll : Nat → BooleanStream → Except Exn (List Bool)
  | 0, _ => .ok []
  | n + 1, bs => do
    let (value, bs) ← bs.readBoolean
    let more ← readAll n bs
    .ok (value :: more)

/-- `marshalledSize`. -/
def marshalledSize (bs : BooleanStream) : Int :=
  if bs.arrayLimit < 64 then 1 + bs.arrayLimit
  else if bs.arrayLimit < 256 then 2 + bs.arrayLimit
  else 3 + bs.arrayLimit

/-- The most booleans a stream can hold: 32767 bytes. -/
def capacity : Nat := 8 * 32767

end BooleanStream

/-! ## Bits -/

@[simp]
theorem length_byteBits (b : UInt8) : (byteBits b).length = 8 := by simp [byteBits]

theorem bits_cons (b : UInt8) (data : Bytes) : bits (b :: data) = byteBits b ++ bits data :=
  flatMap_cons

variable (data : Bytes) {k : Nat}

theorem bits_append (data' : Bytes) : bits (data ++ data') = bits data ++ bits data' :=
  flatMap_append

theorem length_bits : (bits data).length = 8 * data.length := by
  induction data with
  | nil => rfl
  | cons b data ih =>
    rw [bits_cons, length_append, length_byteBits, ih, length_cons]
    omega

theorem bits_replicate (n : Nat) : bits (replicate n 0) = replicate (8 * n) false := by
  induction n with
  | zero => rfl
  | succ n ih =>
    have hbyte : byteBits 0 = replicate 8 false := by decide
    rw [replicate_succ, bits_cons, ih, hbyte, replicate_append_replicate]
    congr 1
    omega

theorem byteBits_or (b : UInt8) (hk : k < 8) :
    byteBits (b ||| (1 <<< UInt8.ofNat k)) = (byteBits b).set k true := by
  have hshift : (1 <<< UInt8.ofNat k : UInt8).toNat = 2 ^ k := by
    interval_cases k <;> rfl
  refine ext_getElem (by simp) ?_
  intro i hi _
  rw [getElem_set]
  simp only [byteBits, getElem_map, getElem_range, UInt8.toNat_or, hshift, Nat.testBit_or,
    Nat.testBit_two_pow]
  split <;> simp [*]

/-- Setting a bit of a byte sets one boolean. -/
theorem bits_modify (hk : k < 8) : ∀ (data : Bytes) {pos : Nat}, pos < data.length →
    bits (data.modify pos fun b => b ||| (1 <<< UInt8.ofNat k)) =
      (bits data).set (8 * pos + k) true
  | [], pos, hpos => absurd hpos (by simp)
  | b :: data, 0, _ => by
    rw [modify_zero_cons, bits_cons, bits_cons, byteBits_or b hk,
      set_append_left _ _ (by simpa using hk)]
    congr 2
    omega
  | b :: data, pos + 1, hpos => by
    have ih := bits_modify hk data (Nat.lt_of_succ_lt_succ hpos)
    rw [modify_succ_cons, bits_cons, bits_cons, ih,
      set_append_right _ _ (by rw [length_byteBits]; omega)]
    congr 2
    rw [length_byteBits]
    omega

/-- The booleans of the first bytes. -/
theorem bits_take (n : Nat) : bits (data.take n) = (bits data).take (8 * n) := by
  by_cases hle : n ≤ data.length
  · have hsplit : bits data = bits (data.take n) ++ bits (data.drop n) := by
      rw [← bits_append, take_append_drop]
    have hlength : (bits (data.take n)).length = 8 * n := by
      rw [length_bits, length_take, Nat.min_eq_left hle]
    rw [hsplit, take_left' hlength]
  · rw [take_of_length_le (by omega), take_of_length_le (by rw [length_bits]; omega)]

theorem getElem_bits (hk : k < 8) : ∀ (data : Bytes) {pos : Nat}, pos < data.length →
    (bits data)[8 * pos + k]? = some ((data.getD pos 0).toNat.testBit k)
  | [], pos, hpos => absurd hpos (by simp)
  | b :: data, 0, _ => by
    rw [bits_cons, getElem?_append_left (by rw [length_byteBits]; omega)]
    simp [byteBits, hk]
  | b :: data, pos + 1, hpos => by
    have ih := getElem_bits hk data (Nat.lt_of_succ_lt_succ hpos)
    rw [bits_cons, getElem?_append_right (by rw [length_byteBits]; omega), length_byteBits,
      show 8 * (pos + 1) + k - 8 = 8 * pos + k by omega, ih]
    rfl

/-! ## What a stream holds -/

namespace BooleanStream

/-- The stream after the booleans have been written. -/
structure Holds (bs : BooleanStream) (booleans : List Bool) : Prop where
  limit : bs.arrayLimit = ((booleans.length + 7) / 8 : Nat)
  pos : bs.arrayPos = (booleans.length / 8 : Nat)
  byte : bs.bytePos = booleans.length % 8
  room : bs.arrayLimit < bs.data.length
  bits : ∃ n, bits bs.data = booleans ++ replicate n false

theorem holds_new : Holds {} [] where
  limit := rfl
  pos := rfl
  byte := rfl
  room := by
    rw [length_replicate]
    decide
  bits := ⟨8 * 1000, bits_replicate 1000⟩

variable {bs : BooleanStream} {booleans : List Bool}

/-- There is room for one more byte after `grow`, and nothing but zeros in it. -/
theorem Holds.grow (h : bs.Holds booleans) (hfull : bs.bytePos = 0)
    (hlt : booleans.length < capacity) :
    bs.grow.arrayLimit = (booleans.length / 8 + 1 : Nat) ∧
      bs.grow.arrayLimit < bs.grow.data.length ∧
      ∃ n, Openwire.bits bs.grow.data = booleans ++ replicate n false := by
  have hbyte := h.byte
  have hroom := h.room
  have hlimit : wrap 16 (bs.arrayLimit + 1) = (booleans.length / 8 + 1 : Nat) := by
    simp only [capacity] at hlt
    rw [h.limit, wrap_of_bounds]
    omega
  have hlimit' := h.limit
  unfold BooleanStream.grow
  simp only [hlimit]
  refine ⟨trivial, ?_⟩
  obtain ⟨n, hbits⟩ := h.bits
  split
  · -- the vector has doubled
    rw [length_append, length_replicate, bits_append, hbits, bits_replicate,
      append_assoc, replicate_append_replicate]
    exact ⟨by omega, _, rfl⟩
  · exact ⟨by omega, n, hbits⟩

/-- The bit at the position is the next boolean. -/
theorem bits_setBit {data : Bytes} {n : Nat}
    (hbits : Openwire.bits data = booleans ++ replicate n false)
    (hroom : booleans.length / 8 < data.length) :
    Openwire.bits (data.modify (booleans.length / 8) fun b =>
      b ||| (1 <<< UInt8.ofNat (booleans.length % 8))) =
        booleans ++ true :: replicate (n - 1) false := by
  have hlength := congrArg length hbits
  rw [length_bits, length_append, length_replicate] at hlength
  obtain ⟨m, rfl⟩ : ∃ m, n = m + 1 := ⟨n - 1, by omega⟩
  have hindex : 8 * (booleans.length / 8) + booleans.length % 8 = booleans.length := by omega
  rw [bits_modify (Nat.mod_lt _ (by decide)) data hroom, hindex, hbits,
    set_append_right _ _ le_rfl, Nat.sub_self, replicate_succ, set_cons_zero,
    Nat.add_sub_cancel]

theorem advance_keeps (bs : BooleanStream) :
    bs.advance.arrayLimit = bs.arrayLimit ∧ bs.advance.data = bs.data := by
  unfold advance
  split <;> exact ⟨rfl, rfl⟩

/-- The counters, with or without a carry into the next byte. -/
theorem advance_counters {n : Nat} (hpos : bs.arrayPos = (n / 8 : Nat)) (hbyte : bs.bytePos = n % 8)
    (hlt : n < capacity) :
    bs.advance.arrayPos = ((n + 1) / 8 : Nat) ∧ bs.advance.bytePos = (n + 1) % 8 := by
  have hwrap : wrap 16 (bs.arrayPos + 1) = (n / 8 + 1 : Nat) := by
    simp only [capacity] at hlt
    rw [hpos, wrap_of_bounds]
    omega
  unfold advance
  split
  · simp only [hwrap]
    omega
  · simp only
    omega

/-- One more boolean, as long as the number of bytes fits a short. -/
theorem Holds.writeBoolean (h : bs.Holds booleans) (value : Bool)
    (hlt : booleans.length < capacity) :
    ∃ bs', bs.writeBoolean value = .ok bs' ∧ bs'.Holds (booleans ++ [value]) := by
  -- whether or not a byte has been started, there is one for the boolean to go into
  obtain ⟨bs₁, hbs₁, hpos, hbyte, hlimit, hroom, n, hbits⟩ : ∃ bs₁,
      (if bs.bytePos = 0 then bs.grow else bs) = bs₁ ∧ bs₁.arrayPos = bs.arrayPos ∧
      bs₁.bytePos = bs.bytePos ∧ bs₁.arrayLimit = (booleans.length / 8 + 1 : Nat) ∧
      bs₁.arrayLimit < bs₁.data.length ∧
      ∃ n, Openwire.bits bs₁.data = booleans ++ replicate n false := by
    have hbyte := h.byte
    by_cases hfull : bs.bytePos = 0
    · obtain ⟨hlimit, hroom, hbits⟩ := h.grow hfull hlt
      exact ⟨_, if_pos hfull, rfl, rfl, hlimit, hroom, hbits⟩
    · refine ⟨bs, if_neg hfull, rfl, rfl, ?_, h.room, h.bits⟩
      rw [h.limit]
      omega
  rw [h.pos] at hpos
  rw [h.byte] at hbyte
  have hlast : booleans.length / 8 < bs₁.data.length := by omega
  -- the boolean is set or stays off
  obtain ⟨bs₂, hbs₂, hpos₂, hbyte₂, hlimit₂, hroom₂, hbits₂⟩ : ∃ bs₂,
      bs₁.setBit value = .ok bs₂ ∧ bs₂.arrayPos = bs₁.arrayPos ∧
      bs₂.bytePos = bs₁.bytePos ∧ bs₂.arrayLimit = bs₁.arrayLimit ∧
      bs₂.data.length = bs₁.data.length ∧
      Openwire.bits bs₂.data = booleans ++ value :: replicate (n - 1) false := by
    cases value with
    | true =>
      have hin : 0 ≤ bs₁.arrayPos ∧ bs₁.arrayPos < bs₁.data.length := by omega
      refine ⟨_, if_pos hin, rfl, rfl, rfl, length_modify .., ?_⟩
      have hset := bits_setBit hbits hlast
      rw [← hbyte] at hset
      rw [hpos, Int.toNat_natCast]
      exact hset
    | false =>
      refine ⟨bs₁, rfl, rfl, rfl, rfl, rfl, ?_⟩
      have hlength := congrArg length hbits
      rw [length_bits, length_append, length_replicate] at hlength
      obtain ⟨m, rfl⟩ : ∃ m, n = m + 1 := ⟨n - 1, by omega⟩
      rw [hbits, replicate_succ, Nat.add_sub_cancel]
  refine ⟨bs₂.advance, ?_, ?_⟩
  · rw [BooleanStream.writeBoolean, hbs₁, hbs₂]
    rfl
  have hcounters := advance_counters (hpos₂.trans hpos) (hbyte₂.trans hbyte) hlt
  have hkeep := bs₂.advance_keeps
  have hlength : (booleans ++ [value]).length = booleans.length + 1 := by simp
  constructor
  · omega
  · rw [hcounters.1, hlength]
  · rw [hcounters.2, hlength]
  · rw [hkeep.1, hkeep.2, hlimit₂, hroom₂]
    exact hroom
  · refine ⟨n - 1, ?_⟩
    rw [hkeep.2, hbits₂, append_assoc]
    rfl

/-- The whole first pass. -/
theorem Holds.writeAll (h : bs.Holds booleans) :
    ∀ (more : List Bool), booleans.length + more.length ≤ capacity →
      ∃ bs', more.foldlM BooleanStream.writeBoolean bs = .ok bs' ∧ bs'.Holds (booleans ++ more) := by
  intro more
  induction more generalizing bs booleans with
  | nil =>
    intro _
    exact ⟨bs, rfl, by rwa [append_nil]⟩
  | cons value more ih =>
    intro hle
    rw [length_cons] at hle
    obtain ⟨bs₁, hwrite, hholds⟩ := h.writeBoolean value (by omega)
    obtain ⟨bs', hrest, hholds'⟩ := ih hholds (by
      rw [length_append, length_singleton]
      omega)
    refine ⟨bs', ?_, by rwa [append_assoc] at hholds'⟩
    rw [foldlM_cons, hwrite]
    exact hrest

theorem writeAll_holds (booleans : List Bool) (hle : booleans.length ≤ capacity) :
    ∃ bs, BooleanStream.writeAll booleans = .ok bs ∧ bs.Holds booleans :=
  holds_new.writeAll booleans (by simpa using hle)

/-! ## Marshalling -/

/-- The header tells the number of bytes; the first byte of the longer forms is no
number of bytes below 64. -/
theorem decodes_header {limit : Nat} (hlimit : limit ≤ 32767) :
    Decodes readHeader (header limit) [] limit := by
  unfold header
  have hbyte : ∀ {n : Nat}, n < 256 → (UInt8.ofInt (n : Int)).toNat = n := by
    intro n hn
    rw [UInt8.ofInt, UInt8.toNat_ofNat']
    omega
  split
  · next hshort =>
    have hn := hbyte (n := limit) (by omega)
    refine (decodes_readByte _).thenItems ?_
    have hne : ∀ b : UInt8, 64 ≤ b.toNat → UInt8.ofInt (limit : Int) ≠ b := by
      intro b hb heq
      rw [heq] at hn
      omega
    rw [if_neg (hne 0xC0 (by decide)), if_neg (hne 0x80 (by decide)), hn]
    exact decodes_pure _
  · split
    · next hbig =>
      have hn := hbyte (n := limit) (by omega)
      refine (decodes_readByte 0xC0).thenItems ?_
      have hread := (decodes_readByte (UInt8.ofInt (limit : Int))).map
        fun b : UInt8 => (b.toNat : Int)
      rw [hn] at hread
      exact hread
    · refine (decodes_readByte 0x80).thenItems ?_
      have hread := (decodes_readShort (BitVec.ofInt 16 limit)).map BitVec.toInt
      rw [BitVec.ofInt_natCast, toInt_ofNat_of_lt (by omega)] at hread
      exact hread

theorem length_header {limit : Nat} :
    ((header limit).length : Int) + limit =
      if (limit : Int) < 64 then 1 + (limit : Int)
      else if (limit : Int) < 256 then 2 + (limit : Int) else 3 + (limit : Int) := by
  unfold header
  split
  · simp
  · split
    · simp
    · simp [writeShort, length_bigEndian]

/-- A stream of up to 262136 booleans is marshalled in exactly `marshalledSize` bytes:
those of the booleans, filled up to a whole byte, behind their number. -/
theorem Holds.written (h : bs.Holds booleans) (hle : booleans.length ≤ capacity) :
    ∃ data n, data.length ≤ 32767 ∧
      Openwire.bits data = booleans ++ replicate n false ∧
      bs.marshal = .ok (header data.length ++ data) ∧
      ((header data.length ++ data).length : Int) = bs.marshalledSize := by
  have hlimit := h.limit
  have hroom := h.room
  obtain ⟨n, hbits⟩ := h.bits
  have hdata : (bs.data.take ((booleans.length + 7) / 8)).length = (booleans.length + 7) / 8 := by
    rw [length_take]
    omega
  refine ⟨bs.data.take ((booleans.length + 7) / 8),
    8 * ((booleans.length + 7) / 8) - booleans.length, ?_, ?_, ?_, ?_⟩
  · simp only [capacity] at hle
    omega
  · have hlength := congrArg length hbits
    rw [length_bits, length_append, length_replicate] at hlength
    rw [bits_take, hbits, take_append, take_of_length_le (by omega), take_replicate]
    congr 2
    omega
  · rw [BooleanStream.marshal, hlimit, if_neg (by omega), Int.toNat_natCast, hdata]
  · rw [length_append, hdata, marshalledSize, hlimit]
    exact length_header

theorem decodes_unmarshal {data : Bytes} (hshort : data.length ≤ 32767) :
    Decodes unmarshal (header data.length ++ data) [] { data, arrayLimit := data.length } := by
  refine (decodes_header hshort).thenItems ?_
  exact (decodes_readFully data rfl).map (BooleanStream.mk · data.length 0 0)

/-- **Boolean streams.** A stream of up to 262136 booleans is marshalled in exactly
`marshalledSize` bytes, and unmarshalling gives the booleans, filled up to whole bytes. -/
theorem Holds.marshal (h : bs.Holds booleans) (hle : booleans.length ≤ capacity) :
    ∃ bytes n, bs.marshal = .ok bytes ∧ (bytes.length : Int) = bs.marshalledSize ∧
      Decodes unmarshalBooleans bytes [] (booleans ++ replicate n false) := by
  obtain ⟨data, n, hshort, hbits, hmarshal, hsize⟩ := h.written hle
  refine ⟨_, n, hmarshal, hsize, ?_⟩
  rw [← hbits]
  exact (decodes_unmarshal hshort).map (Openwire.bits ·.data)

/-- The booleans are written, marshalled, and read back filled up to whole bytes. -/
def Streamed (booleans : List Bool) : Prop :=
  ∃ bs bytes n, BooleanStream.writeAll booleans = .ok bs ∧ bs.marshal = .ok bytes ∧
    Decodes unmarshalBooleans bytes [] (booleans ++ replicate n false)

/-- The number of bytes is a byte or a short. -/
theorem length_of_unmarshal {input left : Input UInt8} (h : unmarshal.run input = .ok (bs, left)) :
    bs.data.length ≤ 32767 := by
  obtain ⟨arrayLimit, rest, hheader, h⟩ := run_of_bind h
  obtain ⟨first, _, -, hlimit⟩ := run_of_bind hheader
  have hle : arrayLimit ≤ 32767 := by
    split at hlimit
    · obtain ⟨b, -, rfl⟩ := run_of_map hlimit
      have := b.toNat_lt
      omega
    · split at hlimit
      · obtain ⟨b, -, rfl⟩ := run_of_map hlimit
        have := b.toInt_lt
        omega
      · cases hlimit
        have := first.toNat_lt
        omega
  split at h
  · cases h
  · obtain ⟨data, _, hdata, h⟩ := run_of_bind h
    cases h
    have := (run_takeItems hdata).1
    simp only
    omega

theorem streamed_iff (booleans : List Bool) : Streamed booleans ↔ booleans.length ≤ capacity := by
  constructor
  · rintro ⟨bs, bytes, n, -, -, hread⟩
    obtain ⟨back, hback, hbits⟩ := run_of_map (hread [] [])
    have hlength := congrArg length hbits
    have hshort := length_of_unmarshal hback
    rw [length_append, length_bits] at hlength
    simp only [capacity]
    omega
  · intro hle
    obtain ⟨bs, hwrite, hholds⟩ := writeAll_holds booleans hle
    obtain ⟨bytes, n, hmarshal, -, hread⟩ := hholds.marshal hle
    exact ⟨bs, bytes, n, hwrite, hmarshal, hread⟩

/-- One read after another takes the booleans in order. -/
theorem readAll_eq (done : List Bool) {more rest : List Bool}
    (hpos : bs.arrayPos = (done.length / 8 : Nat)) (hbyte : bs.bytePos = done.length % 8)
    (hbits : Openwire.bits bs.data = done ++ (more ++ rest)) (hshort : bs.data.length ≤ 32767) :
    readAll more.length bs = .ok more := by
  induction more generalizing bs done with
  | nil => rfl
  | cons value more ih =>
    have hlength := congrArg length hbits
    simp only [length_bits, length_append, length_cons] at hlength
    have hin : done.length / 8 < bs.data.length := by omega
    have hbit := getElem_bits (Nat.mod_lt done.length (by decide : 0 < 8)) bs.data hin
    rw [hbits, Nat.div_add_mod, getElem?_append_right le_rfl, Nat.sub_self] at hbit
    have hread : bs.readBoolean = .ok (value, bs.advance) := by
      rw [BooleanStream.readBoolean, if_pos (by omega), hpos, hbyte, Int.toNat_natCast,
        ← Option.some.inj hbit]
    obtain ⟨hpos', hbyte'⟩ := advance_counters hpos hbyte (by simp only [capacity]; omega)
    have hnext : readAll more.length bs.advance = .ok more := by
      refine ih (done ++ [value]) ?_ ?_ ?_ ?_
      · rw [hpos', length_append, length_singleton]
      · rw [hbyte', length_append, length_singleton]
      · rw [bs.advance_keeps.2, hbits, append_assoc]
        rfl
      · rwa [bs.advance_keeps.2]
    simp [length_cons, readAll, hread, hnext, bind, Except.bind]

/-- **Booleans come back.** Up to 262136 booleans are written within the buffer, marshalled
in `marshalledSize` bytes, and read back within the buffer of another stream. -/
theorem booleans_roundTrip (booleans : List Bool) (hle : booleans.length ≤ capacity) :
    ∃ bs bytes back, BooleanStream.writeAll booleans = .ok bs ∧ bs.marshal = .ok bytes ∧
      (bytes.length : Int) = bs.marshalledSize ∧ Decodes unmarshal bytes [] back ∧
      readAll booleans.length back = .ok booleans := by
  obtain ⟨bs, hwrite, hholds⟩ := writeAll_holds booleans hle
  obtain ⟨data, n, hshort, hbits, hmarshal, hsize⟩ := hholds.written hle
  exact ⟨bs, _, _, hwrite, hmarshal, hsize, decodes_unmarshal hshort,
    readAll_eq [] rfl rfl hbits hshort⟩

theorem booleans_roundTrip_three : ∃ bs bytes back,
    BooleanStream.writeAll [true, false, true] = .ok bs ∧ bs.marshal = .ok bytes ∧
      (bytes.length : Int) = bs.marshalledSize ∧ Decodes unmarshal bytes [] back ∧
      readAll 3 back = .ok [true, false, true] :=
  booleans_roundTrip [true, false, true] (by decide)

/-- **Into a vector.** The bytes are those of the other `marshal` only where both throw:
the last byte is left out, and a stream without booleans is refused. -/
theorem marshalVector_iff (bs : BooleanStream) (dataOut : Bytes) :
    bs.marshalVector dataOut = bs.marshal.map (dataOut ++ ·) ↔
      bs.arrayLimit < 0 ∨ bs.data.length < bs.arrayLimit := by
  by_cases hout : bs.arrayLimit < 0 ∨ bs.data.length < bs.arrayLimit
  · rw [marshalVector, if_pos (by omega), BooleanStream.marshal, if_pos hout]
    simp [Except.map, hout]
  · refine iff_of_false ?_ hout
    rw [BooleanStream.marshal, if_neg hout, marshalVector]
    intro heq
    split at heq
    · cases heq
    · have hlength := congrArg length (Except.ok.inj heq)
      simp only [length_append, length_take] at hlength
      omega

/-- The byte of one boolean is missing. -/
theorem marshalVector_one :
    (BooleanStream.writeAll [true]).bind (·.marshalVector []) = .ok [1] ∧
      (BooleanStream.writeAll [true]).bind BooleanStream.marshal = .ok [1, 1] := by
  decide +kernel

/-- One boolean more than there is room for: the number of bytes is negative now. -/
theorem marshal_of_overflow (h : bs.Holds booleans) (hfull : booleans.length = capacity)
    {bs' : BooleanStream} (hwrite : bs.writeBoolean false = .ok bs') :
    bs'.marshal = .error .io := by
  have hlimit := h.limit
  rw [hfull] at hlimit
  have hbyte : bs.bytePos = 0 := by
    rw [h.byte, hfull]
    rfl
  have hgrown : bs.grow.arrayLimit = -32768 := by
    have hfour : bs.arrayLimit = 32767 := hlimit
    show wrap 16 (bs.arrayLimit + 1) = _
    rw [hfour]
    decide
  rw [BooleanStream.writeBoolean, if_pos hbyte] at hwrite
  obtain rfl : bs.grow.advance = bs' := Except.ok.inj hwrite
  rw [BooleanStream.marshal, if_pos]
  left
  rw [bs.grow.advance_keeps.1, hgrown]
  decide

end BooleanStream

end ActivemqCpp.Openwire
