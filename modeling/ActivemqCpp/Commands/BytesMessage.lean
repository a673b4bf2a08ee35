import ActivemqCpp.Commands.StreamMessageRoundTrip

/-!
# `ActiveMQBytesMessage`: the body as an array

`getBodyLength` is the size of the whole body. `getBodyBytes` makes an array of that size and
fills it through the stream that the other calls read from, so that it holds the body only as
long as nothing of it has been read (`getBodyBytes_iff`). What is left of the array is not set.
-/

namespace ActivemqCpp.Commands

open Base Decaf Openwire

structure BytesMessage where
  content : Bytes
  readOnlyBody : Bool
  /-- What is left to read. -/
  dataIn : Option Bytes
  length : Int
deriving DecidableEq, Repr

namespace BytesMessage

/-- `initializeReading()`. -/
def initializeReading (m : BytesMessage) : BytesMessage × Except StreamFault Bytes :=
  if m.readOnlyBody = false then (m, .error .messageNotReadable)
  else
    match m.dataIn with
    | some input => (m, .ok input)
    | none =>
      let size := wrap 32 m.content.length
      if size < 0 then (m, .error .cms)
      else
        let input := m.content.take size.toNat
        ({ m with dataIn := some input, length := size }, .ok input)

/-- `getBodyLength()`. -/
def getBodyLength (m : BytesMessage) : BytesMessage × Except StreamFault Int :=
  match m.initializeReading with
  | (m, .error e) => (m, .error e)
  | (m, .ok _) => (m, .ok m.length)

/-- `getBodyBytes()`: the cells of the array, `none` where nothing was put. No cells are a
null pointer. -/
def getBodyBytes (m : BytesMessage) : BytesMessage × Except StreamFault (List (Option UInt8)) :=
  match m.initializeReading with
  | (m, .error e) => (m, .error e)
  | (m, .ok input) =>
    let read := input.take m.length.toNat
    ({ m with dataIn := some (input.drop m.length.toNat) },
      .ok (read.map some ++ List.replicate (m.length.toNat - read.length) none))

/-- The calls that read. -/
inductive Read
  | boolean | byte | char | short | unsignedShort | int | long | float | double | string | utf
  | bytes (length : Int)
  | bodyLength
  | bodyBytes
deriving DecidableEq, Repr

/-- What a read leaves of the input; one that meets the end has taken all there was. -/
def Read.left (bodyLength : Int) (input : Bytes) : Read → Bytes
  | .boolean | .byte | .char => input.drop 1
  | .short | .unsignedShort => input.drop 2
  | .int | .float => input.drop 4
  | .long | .double => input.drop 8
  | .string => ((cut 0 input).map Prod.snd).getD []
  | .utf => input.drop (2 + ((input.getD 0 0).toNat * 256 + (input.getD 1 0).toNat))
  | .bytes length => input.drop length.toNat
  | .bodyLength => input
  | .bodyBytes => input.drop bodyLength.toNat

/-- The message after a read. -/
def read (m : BytesMessage) (r : Read) : BytesMessage :=
  match m.initializeReading with
  | (m, .error _) => m
  | (m, .ok input) => { m with dataIn := some (r.left m.length input) }

/-- What the next read starts with. -/
def unread (m : BytesMessage) : Bytes := m.dataIn.getD m.content

/-- A message that is read: the stream, once there is one, is on the content. -/
structure Reading (m : BytesMessage) (body : Bytes) : Prop where
  readOnlyBody : m.readOnlyBody = true
  content : m.content = body
  input : ∀ input, m.dataIn = some input →
    input.length ≤ body.length ∧ m.length = body.length

variable {m : BytesMessage} {body : Bytes}

theorem Reading.initializeReading (h : m.Reading body) (hsize : body.length < 2 ^ 31) :
    m.initializeReading =
      ({ m with dataIn := some m.unread, length := body.length }, .ok m.unread) := by
  obtain ⟨content, readOnlyBody, dataIn, length⟩ := m
  obtain ⟨rfl, rfl, hinput⟩ := h
  cases dataIn with
  | none => simp [BytesMessage.initializeReading, unread, StreamMessage.wrap_length hsize]
  | some input =>
    simp_all [BytesMessage.initializeReading, unread]

theorem Reading.length_unread (h : m.Reading body) : m.unread.length ≤ body.length := by
  cases hin : m.dataIn with
  | none => rw [unread, hin, Option.getD_none, h.content]
  | some input => rw [unread, hin]; exact (h.input input hin).1

theorem Read.length_left_le (n : Int) (input : Bytes) (r : Read) :
    (r.left n input).length ≤ input.length := by
  cases r with
  | string =>
    simp only [Read.left, cut]
    split
    · simp
    · next heq =>
      have hle := (List.dropWhile_suffix (p := fun x => decide (x ≠ 0)) (l := input)).length_le
      rw [heq, List.length_cons] at hle
      simp only [Option.map_some, Option.getD_some]
      omega
  | _ => simp [Read.left]

theorem Reading.read (h : m.Reading body) (hsize : body.length < 2 ^ 31) (r : Read) :
    (m.read r).Reading body := by
  rw [BytesMessage.read, h.initializeReading hsize]
  refine ⟨h.readOnlyBody, h.content, fun input hin => ⟨?_, rfl⟩⟩
  rw [← Option.some.inj hin]
  exact (r.length_left_le _ _).trans h.length_unread

/-- After any reads of a message that is to be read, the array that `getBodyBytes` returns has
`getBodyLength` cells, and they hold the body iff nothing of it has been read. -/
theorem getBodyBytes_iff (m : BytesMessage) (hread : m.readOnlyBody = true) (hin : m.dataIn = none)
    (hsize : m.content.length < 2 ^ 31) (reads : List Read) :
    let reached := reads.foldl BytesMessage.read m
    reached.getBodyLength.2 = .ok m.content.length ∧
      (reached.getBodyBytes.2 = .ok (m.content.map some) ↔ reached.unread = m.content) := by
  intro reached
  have h : reached.Reading m.content :=
    List.foldlRecOn (motive := fun t : BytesMessage => t.Reading m.content) reads _
      ⟨hread, rfl, by simp [hin]⟩
      fun t ht r _ => ht.read hsize r
  have hle := h.length_unread
  rw [getBodyLength, getBodyBytes, h.initializeReading hsize]
  refine ⟨rfl, ?_⟩
  simp only [Int.toNat_natCast, List.take_of_length_le hle, Except.ok.injEq]
  constructor
  · intro heq
    have hshort : m.content.length - reached.unread.length = 0 := by
      by_contra hne
      have hmem : none ∈ m.content.map some := by
        rw [← heq]
        exact List.mem_append_right _ (List.mem_replicate.mpr ⟨hne, rfl⟩)
      simp at hmem
    rw [hshort, List.replicate_zero, List.append_nil] at heq
    exact List.map_injective_iff.mpr (Option.some_injective _) heq
  · intro heq
    simp [heq]

/-- Before anything was read the body is there; after one byte was read it is not. -/
theorem getBodyBytes_first :
    (⟨[7, 8], true, none, 0⟩ : BytesMessage).getBodyBytes.2 = .ok [some 7, some 8] ∧
      ((⟨[7, 8], true, none, 0⟩ : BytesMessage).read .byte).getBodyBytes.2 ≠
        .ok [some 7, some 8] := by
  have hafter := getBodyBytes_iff ⟨[7, 8], true, none, 0⟩ rfl rfl (by decide) [.byte]
  exact ⟨(getBodyBytes_iff ⟨[7, 8], true, none, 0⟩ rfl rfl (by decide) []).2.mpr rfl,
    fun h => absurd (hafter.2.mp h) (by decide)⟩

/-- After one byte was read, and on a second call, cells are left as they were allocated. -/
theorem getBodyBytes_again :
    let m : BytesMessage := ⟨[7, 8], true, none, 0⟩
    (m.read .byte).getBodyBytes.2 = .ok [some 8, none] ∧
      m.getBodyBytes.1.getBodyBytes.2 = .ok [none, none] := by
  decide

end BytesMessage

end ActivemqCpp.Commands
