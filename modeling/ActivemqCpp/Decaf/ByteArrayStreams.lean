import ActivemqCpp.Decaf.DataStreams
import ActivemqCpp.Decaf.Numbers

/-!
# `ByteArrayOutputStream` and `ByteArrayInputStream`

The ends of a chain of streams that is kept in memory. The output stream counts its bytes and
sizes its buffer in `int`s: a buffer that would take `2^31` bytes is refused by `new`, and
a count that wraps around is taken for one that fits, so that the bytes land behind the
buffer (`broken`).

`Writes w data` is what is asked of a writer: where it returns, it has appended `data`;
and it returns as long as the content stays below `2^30` bytes.

The input stream is what is left to read. Its readers are those of `DataInputStream`; one that
meets the end has read all there was.
-/

namespace ActivemqCpp.Decaf

open Base

/-- `bytes` is the buffer up to `count`. -/
structure ByteArrayOutputStream where
  bytes : Bytes
  bufferSize : Int
deriving DecidableEq, Repr

/-- What a call on the stream throws, or the write behind the buffer. -/
inductive OutFault where
  | thrown (e : Exn)
  | broken
deriving DecidableEq, Repr

/-- A call on the stream; what has been written stays when it throws. -/
abbrev OutWriter := EStateM OutFault ByteArrayOutputStream Unit

namespace ByteArrayOutputStream

/-- `ByteArrayOutputStream()`. -/
def new : ByteArrayOutputStream := ⟨[], 32⟩

/-- `checkExpandSize(needed)`. -/
def checkExpandSize (needed : Int) : OutWriter := fun s =>
  let total := wrap 32 (s.bytes.length + needed)
  if total ≤ s.bufferSize then .ok () s
  else
    let newSize := wrap 32 (total * 2)
    -- `new` throws for a size below zero
    if newSize < 0 then .error (.thrown .io) s else .ok () { s with bufferSize := newSize }

/-- The copy to the end of the content. -/
def store (data : Bytes) : OutWriter := fun s =>
  if s.bytes.length + data.length > s.bufferSize then .error .broken s
  else .ok () { s with bytes := s.bytes ++ data }

/-- `doWriteByte`. -/
def doWriteByte (c : UInt8) : OutWriter := fun s =>
  (if s.bytes.length = s.bufferSize then do checkExpandSize 1; store [c] else store [c]) s

/-- `doWriteArrayBounded(buffer, size, 0, size)`. -/
def doWriteArrayBounded (buffer : Bytes) (size : Int) : OutWriter :=
  if size = 0 then pure ()
  else if size < 0 then throw (.thrown .indexOutOfBounds)
  else do
    checkExpandSize size
    store (buffer.take size.toNat)

/-- The content is in the buffer, and the size of the buffer is an `int`. -/
structure Wf (s : ByteArrayOutputStream) : Prop where
  length_le : s.bytes.length ≤ s.bufferSize
  size_lt : s.bufferSize < 2 ^ 31

theorem wf_new : new.Wf := ⟨by decide, by decide⟩

/-- The bytes a call puts behind the content. -/
structure Writes (w : OutWriter) (data : Bytes) : Prop where
  appends : ∀ s s', s.Wf → w s = .ok () s' → s'.Wf ∧ s'.bytes = s.bytes ++ data
  returns : ∀ s, s.Wf → s.bytes.length + data.length < 2 ^ 30 → ∃ s', w s = .ok () s'

/-- One call after another. -/
theorem Writes.andThen {v w : OutWriter} {first second : Bytes} (hv : Writes v first)
    (hw : Writes w second) : Writes (do v; w) (first ++ second) where
  appends s s' hs h := by
    rcases hfirst : v s with ⟨⟨⟩, t⟩ | ⟨e, t⟩
    · obtain ⟨ht, hbytes⟩ := hv.appends s t hs hfirst
      have hsecond : w t = .ok () s' := by
        rw [← h]
        simp [bind, EStateM.bind, hfirst]
      obtain ⟨hs', hbytes'⟩ := hw.appends t s' ht hsecond
      exact ⟨hs', by rw [hbytes', hbytes, List.append_assoc]⟩
    · simp [bind, EStateM.bind, hfirst] at h
  returns s hs hsize := by
    rw [List.length_append] at hsize
    obtain ⟨t, hfirst⟩ := hv.returns s hs (by omega)
    obtain ⟨ht, hbytes⟩ := hv.appends s t hs hfirst
    obtain ⟨s', hsecond⟩ := hw.returns t ht (by rw [hbytes, List.length_append]; omega)
    exact ⟨s', by simp only [bind, EStateM.bind, hfirst, hsecond]⟩

theorem writes_nothing : Writes (pure ()) [] where
  appends s s' hs h := by
    cases h
    exact ⟨hs, (List.append_nil _).symm⟩
  returns s _ _ := ⟨s, rfl⟩

theorem wrap_lt (value : Int) : wrap 32 value < 2 ^ 31 := by
  have h := Int.bmod_lt (x := value) (m := 2 ^ 32) (by decide)
  simpa [wrap] using h

variable {s : ByteArrayOutputStream} {t : ByteArrayOutputStream}

/-- The content stays, and the buffer keeps a size that is an `int`. -/
theorem checkExpandSize_ok {needed : Int} (hs : s.Wf)
    (h : checkExpandSize needed s = .ok () t) : t.bytes = s.bytes ∧ t.bufferSize < 2 ^ 31 := by
  simp only [checkExpandSize] at h
  split at h
  · cases h
    exact ⟨rfl, hs.size_lt⟩
  · split at h
    · cases h
    · cases h
      exact ⟨rfl, wrap_lt _⟩

/-- Below half of the range there is always room. -/
theorem checkExpandSize_returns {needed : Nat} (hsize : s.bytes.length + needed < 2 ^ 30) :
    ∃ t, checkExpandSize needed s = .ok () t ∧ t.bytes = s.bytes ∧
      s.bytes.length + needed ≤ t.bufferSize := by
  have htotal : wrap 32 (s.bytes.length + needed) = s.bytes.length + needed :=
    wrap_of_bounds
  have hdouble : wrap 32 ((s.bytes.length + needed) * 2) =
      (s.bytes.length + needed) * 2 :=
    wrap_of_bounds
  simp only [checkExpandSize, htotal, hdouble]
  by_cases hroom : (s.bytes.length + needed) ≤ s.bufferSize
  · exact ⟨s, by rw [if_pos hroom], rfl, hroom⟩
  · refine ⟨{ s with bufferSize := (s.bytes.length + needed) * 2 }, ?_, rfl, ?_⟩
    · rw [if_neg hroom, if_neg (by omega)]
    · show _ ≤ (s.bytes.length + needed : Int) * 2
      omega

theorem store_ok {data : Bytes} (hs : s.bufferSize < 2 ^ 31)
    (h : store data s = .ok () t) : t.Wf ∧ t.bytes = s.bytes ++ data := by
  simp only [store] at h
  split at h
  · cases h
  · next hroom =>
    cases h
    refine ⟨⟨?_, hs⟩, rfl⟩
    simp only [List.length_append]
    omega

variable (data : Bytes)

theorem store_returns
    (hroom : (s.bytes.length + data.length : Int) ≤ s.bufferSize) : ∃ t, store data s = .ok () t :=
  ⟨_, if_neg (by omega)⟩

/-- Making room for `data` and copying it. -/
theorem writes_expanded : Writes (do checkExpandSize data.length; store data) data where
  appends s s' hs h := by
    rcases hroom : checkExpandSize data.length s with ⟨⟨⟩, t⟩ | ⟨e, t⟩
    · obtain ⟨hbytes, hsize⟩ := checkExpandSize_ok hs hroom
      have hstore : store data t = .ok () s' := by
        rw [← h]
        simp [bind, EStateM.bind, hroom]
      obtain ⟨hs', hbytes'⟩ := store_ok hsize hstore
      exact ⟨hs', by rw [hbytes', hbytes]⟩
    · simp [bind, EStateM.bind, hroom] at h
  returns s _ hsize := by
    obtain ⟨t, hroom, hbytes, hle⟩ := checkExpandSize_returns hsize
    obtain ⟨s', hstore⟩ := store_returns data (by rw [hbytes]; exact hle)
    exact ⟨s', by simp only [bind, EStateM.bind, hroom, hstore]⟩

theorem writes_doWriteByte (c : UInt8) : Writes (doWriteByte c) [c] where
  appends s s' hs h := by
    simp only [doWriteByte] at h
    split at h
    · exact (writes_expanded [c]).appends s s' hs h
    · exact store_ok hs.size_lt h
  returns s hs hsize := by
    simp only [doWriteByte]
    by_cases hfull : s.bytes.length = s.bufferSize
    · rw [if_pos hfull]
      exact (writes_expanded [c]).returns s hs hsize
    · rw [if_neg hfull]
      have hle := hs.length_le
      exact store_returns [c] (by simp; omega)

theorem writes_doWriteArrayBounded : Writes (doWriteArrayBounded data data.length) data := by
  unfold doWriteArrayBounded
  by_cases hempty : (data.length : Int) = 0
  · have hnil : data = [] := List.eq_nil_of_length_eq_zero (by omega)
    rw [hnil]
    exact writes_nothing
  · rw [if_neg hempty, Int.toNat_natCast, List.take_length]
    exact writes_expanded data

/-- One `write` after another. A single byte finds the room that an array of one finds. -/
def writeChunks (chunks : List Bytes) : OutWriter :=
  chunks.forM fun chunk => doWriteArrayBounded chunk chunk.length

theorem writes_chunks : ∀ chunks : List Bytes, Writes (writeChunks chunks) chunks.flatten
  | [] => writes_nothing
  | chunk :: chunks => (writes_doWriteArrayBounded chunk).andThen (writes_chunks chunks)

/-- What a new stream holds after the writes; nothing comes of a write behind the buffer. -/
def buffered (chunks : List Bytes) : Except Exn Bytes :=
  match writeChunks chunks new with
  | .ok _ s => .ok s.bytes
  | .error (.thrown e) _ => .error e
  | .error .broken _ => .error .io

/-- What is written takes less than half of the range of an `int`. -/
def FitsBuffer (written : Written) : Prop :=
  ∀ chunks, written = .ok chunks → chunks.flatten.length < 2 ^ 30

theorem buffered_eq {chunks : List Bytes} (h : chunks.flatten.length < 2 ^ 30) :
    buffered chunks = .ok chunks.flatten := by
  obtain ⟨s, hs⟩ := (writes_chunks chunks).returns new wf_new (by simpa [new] using h)
  have hbytes := ((writes_chunks chunks).appends new s wf_new hs).2
  rw [buffered, hs]
  exact congrArg _ hbytes

end ByteArrayOutputStream

/-! ## Input -/

/-- A reader on what is left of the input, which stays read when it throws. -/
abbrev InReader := EStateM Exn Bytes

/-- The readers of `DataInputStream` only throw at the end of the input. -/
def onBytes {α : Type} (reader : DataReader α) : InReader α := fun input =>
  match reader.run ⟨input, []⟩ with
  | .ok (value, left) => .ok value left.items
  | .error e => .error e []

theorem onBytes_append {α : Type} {reader : DataReader α} {data : Bytes} {value : α}
    (h : Decodes reader data [] value) (rest : Bytes) :
    onBytes reader (data ++ rest) = .ok value rest := by
  have hrun := h rest []
  rw [List.append_nil] at hrun
  rw [onBytes, hrun]

/-- The bytes of a text, before they are decoded. -/
def readUTFBytes : DataReader Bytes := do
  let utfLength ← readUnsignedShort
  readFully utfLength

/-- A value given as text: the text is read before it is found wanting. -/
def readParsed {α : Type} (parse : Bytes → Except Exn α) : InReader α := do
  let buffer ← onBytes readUTFBytes
  match decodeUTF buffer with
  | .error e => throw e
  | .ok text =>
    match parse text with
    | .error e => throw e
    | .ok value => pure value

end ActivemqCpp.Decaf
