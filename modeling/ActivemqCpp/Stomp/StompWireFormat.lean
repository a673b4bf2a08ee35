import ActivemqCpp.Stomp.StompFrame

/-!
# Messages in `StompWireFormat`

A text message is sent with its NUL as part of the body and without a `content-length`; a
bytes message with one. On the way back the presence of the header decides the kind. The
broker sends on the body and the `content-length`, under headers of its own (`echo`).

* **text** — what arrives is the text up to its first NUL, and what follows that NUL is
  taken for the next frame (`readBody_text`);
* **bytes** — the counted bytes arrive; a body of length zero is read by the rule for
  texts, and arrives as the NUL that ends it (`readBody_counted`).

So the round trip is exact for texts without a NUL and for bodies that are not empty, and
for no others (`stomp_roundTrip_iff`).
-/

namespace ActivemqCpp.Stomp

open Base List
open Decaf
open StompFrame

/-! ## The code -/

/-- The two kinds of messages that are sent as frames. A bytes message is marshalled for the
first time and none of it has been read: `getBodyBytes` reads from where its stream stands. -/
inductive Message
  | text (text : Bytes)
  | bytes (body : Bytes)
deriving DecidableEq

/-- `marshalMessage`, with the headers that the properties of the message were converted
to. -/
def marshalMessage (headers : LinkedHashMap Bytes Bytes) : Message → StompFrame
  | .text text => ⟨send, headers, text ++ [0]⟩
  | .bytes body => setProperty ⟨send, headers, body⟩ contentLength (decimalNat body.length)

/-- `unmarshalMessage`: the kind and the body. -/
def unmarshalMessage (frame : StompFrame) : Message :=
  if frame.hasProperty contentLength then .bytes frame.body else .text (cString frame.body)

/-- What the broker makes of a frame that it was sent. -/
def echo (headers : LinkedHashMap Bytes Bytes) (frame : StompFrame) : StompFrame :=
  ⟨message,
    headers ++ ((frame.properties.get contentLength).map fun value => (contentLength, value)).toList,
    frame.body⟩

/-- A message comes back as it was, whatever follows it on the stream, and what follows
is read as if it stood there alone. -/
def RoundTrips (sent headers : LinkedHashMap Bytes Bytes) (m : Message) : Prop :=
  ∃ bytes, (echo headers (marshalMessage sent m)).toStream = .ok bytes ∧
    ∀ rest, ∃ frame rest', fromStream (bytes ++ rest) = .ok (frame, rest') ∧
      unmarshalMessage frame = m ∧ fromStream rest' = fromStream rest

/-- A text has no NUL, no property that is taken for a length, and a size that fits an
`int`; a body is not empty. -/
def Safe (sent : LinkedHashMap Bytes Bytes) : Message → Prop
  | .text text => 0 ∉ text ∧ sent.get contentLength = none ∧ text.length + 1 < 2 ^ 31
  | .bytes body => body ≠ []

/-! ## The body -/

variable {sent headers : LinkedHashMap Bytes Bytes} {n : Nat}

theorem getProperty_echo (h : contentLength ∉ headers.keys) (frame : StompFrame) :
    (echo headers frame).properties.get contentLength = frame.properties.get contentLength := by
  show LinkedHashMap.get contentLength (headers ++ _) = _
  induction headers with
  | nil =>
    cases hget : frame.properties.get contentLength with
    | none => rfl
    | some value => exact if_pos rfl
  | cons e rest ih =>
    rw [LinkedHashMap.keys, map_cons, mem_cons, not_or] at h
    rw [cons_append, LinkedHashMap.get, if_neg h.1]
    exact ih h.2

/-- The body goes out as it came in. -/
theorem writeBody_echo (h : contentLength ∉ headers.keys) (frame : StompFrame) :
    (echo headers frame).writeBody = frame.writeBody := by
  unfold writeBody getProperty
  rw [getProperty_echo h]
  rfl

/-- The broker's headers are lines, and so is the length that it passes on. -/
structure Legible (sent headers : LinkedHashMap Bytes Bytes) : Prop where
  lines : ∀ header ∈ headers, OneLine header
  nodup : headers.keys.Nodup
  fresh : contentLength ∉ headers.keys
  length : ∀ value ∈ sent.get contentLength, OneLine (contentLength, value)

theorem length_decimalNat_lt (h : n < 2 ^ 31) : (decimalNat n).length < 2 ^ 31 := by
  unfold decimalNat
  split
  · decide
  · next hne =>
    rw [length_reverse, length_map, Nat.length_digits 10 n (by decide) hne]
    have := Nat.log_lt_self 10 hne
    omega

theorem oneLine_decimalNat (h : n < 2 ^ 31) : OneLine (contentLength, decimalNat n) := by
  have hdigit : ∀ b ∈ decimalNat n, b ≠ lineFeed ∧ b ≠ 0 := by
    intro b hb
    obtain ⟨hlo, -⟩ := mem_decimalNat hb
    constructor
    · rintro rfl
      exact absurd hlo (by decide)
    · rintro rfl
      cases hlo
  have hkey : lineFeed ∉ contentLength ∧ colon ∉ contentLength ∧ 0 ∉ contentLength := by decide
  exact ⟨⟨hkey.1, hkey.2.1, hkey.2.2, fun hin => (hdigit _ hin).1 rfl,
    fun hin => (hdigit _ hin).2 rfl⟩, (by decide : contentLength.length < 2 ^ 31),
    length_decimalNat_lt h⟩

theorem contentLength_bytes (body : Bytes) :
    (marshalMessage sent (.bytes body)).properties.get contentLength =
      some (decimalNat body.length) := LinkedHashMap.get_put_self _

/-- The length of a bytes message is an `int`. -/
def Sized (m : Message) : Prop := ∀ body, m = .bytes body → body.length < 2 ^ 31

theorem sized_text (text : Bytes) : Sized (.text text) := nofun

variable {body : Bytes}

theorem sized_bytes (h : body.length < 2 ^ 31) : Sized (.bytes body) := by
  rintro _ ⟨⟩
  exact h

variable {m : Message} (h : Legible sent headers)
include h

theorem wellFormed_echo (hm : Sized m) : (echo headers (marshalMessage sent m)).WellFormed := by
  have hlength : ∀ value ∈ (marshalMessage sent m).properties.get contentLength,
      OneLine (contentLength, value) := by
    cases m with
    | text text => exact h.length
    | bytes body =>
      rw [contentLength_bytes]
      intro value hvalue
      rw [← Option.some.inj hvalue]
      exact oneLine_decimalNat (hm body rfl)
  have hcommand : message ≠ [] ∧ lineFeed ∉ message ∧ 0 ∉ message ∧
      ∀ c ∈ message, StringUtils.isWhitespace c = false := by decide +kernel
  refine ⟨hcommand, (by decide : message.length < 2 ^ 31), ?_, ?_⟩
  · intro header hin
    rcases mem_append.mp hin with hin | hin
    · exact h.lines header hin
    · rw [Option.mem_toList] at hin
      obtain ⟨value, hvalue, rfl⟩ := Option.map_eq_some_iff.mp hin
      exact hlength value hvalue
  · show (map Prod.fst (headers ++ _)).Nodup
    rw [map_append]
    cases (marshalMessage sent m).properties.get contentLength with
    | none =>
      rw [Option.map_none, Option.toList_none, map_nil, append_nil]
      exact h.nodup
    | some value =>
      refine h.nodup.append (nodup_singleton contentLength) ?_
      exact disjoint_singleton.mpr h.fresh

/-- The frame that is read in front of `rest`. -/
theorem fromStream_echo (hm : Sized m) {tail bytes : Bytes}
    (hwrite : (marshalMessage sent m).writeBody = .ok tail)
    (hbytes : (echo headers (marshalMessage sent m)).toStream = .ok bytes) (rest : Bytes) :
    fromStream (bytes ++ rest) =
      (readBody (echo headers (marshalMessage sent m)).properties (tail ++ rest)).map
        fun (body, rest) =>
          (⟨message, (echo headers (marshalMessage sent m)).properties, body⟩, rest) := by
  rw [toStream_eq (wellFormed_echo h hm), writeBody_echo h.fresh, hwrite] at hbytes
  cases hbytes
  rw [append_assoc, fromStream_headerText _ (wellFormed_echo h hm)]
  rfl

theorem readBody_text (text : Bytes) (hnone : sent.get contentLength = none) (input : Bytes) :
    readBody (echo headers (marshalMessage sent (.text text))).properties input =
      match cut 0 input with
      | none => .error .eof
      | some (before, rest) => .ok (before ++ [0], rest) :=
  readBody_uncounted input ((getProperty_echo h.fresh _).trans hnone)

omit h in
/-- A length that was written is read. -/
theorem readContentLength_counted {properties : LinkedHashMap Bytes Bytes}
    (h : properties.get contentLength = some (decimalNat n)) (hsmall : n < 2 ^ 31) :
    readContentLength properties = .ok n := by
  rw [readContentLength, h]
  exact parseNumber_decimal (by decide) (z := n) (by omega) (by omega)

theorem contentLength_echo_bytes (body : Bytes) :
    (echo headers (marshalMessage sent (.bytes body))).properties.get contentLength =
      some (decimalNat body.length) := by
  rw [getProperty_echo h.fresh, contentLength_bytes]

omit h in
theorem writeBody_bytes (hsmall : body.length < 2 ^ 31) :
    (marshalMessage sent (.bytes body)).writeBody = .ok (body ++ [0, lineFeed]) := by
  have hdigits : (marshalMessage sent (.bytes body)).getProperty contentLength ≠ [] := by
    rw [getProperty, contentLength_bytes]
    exact decimalNat_ne_nil _
  rw [writeBody_of_lt (by exact hsmall), if_pos (.inr hdigits), append_assoc]
  rfl

theorem toStream_echo (hm : Sized m) {tail : Bytes}
    (hwrite : (marshalMessage sent m).writeBody = .ok tail) :
    ∃ bytes, (echo headers (marshalMessage sent m)).toStream = .ok bytes :=
  ⟨_, by rw [toStream_eq (wellFormed_echo h hm), writeBody_echo h.fresh, hwrite]; rfl⟩

/-! ## Round trips -/

theorem roundTrips_bytes (hsmall : body.length < 2 ^ 31) :
    RoundTrips sent headers (.bytes body) ↔ body ≠ [] := by
  have hwrite : (marshalMessage sent (.bytes body)).writeBody = _ := writeBody_bytes hsmall
  obtain ⟨bytes, hbytes⟩ := toStream_echo h (sized_bytes hsmall) hwrite
  have hkind : ∀ read : Bytes, unmarshalMessage
      ⟨message, (echo headers (marshalMessage sent (.bytes body))).properties, read⟩ =
        .bytes read := by
    intro read
    refine if_pos ?_
    rw [hasProperty, contentLength_echo_bytes h]
    rfl
  constructor
  · rintro ⟨bytes', hbytes', hread⟩ rfl
    obtain rfl : bytes = bytes' := Except.ok.inj (hbytes.symm.trans hbytes')
    -- the NUL behind the empty body is read as its content
    obtain ⟨frame, rest', hframe, hmessage, -⟩ := hread []
    have hempty : readBody (echo headers (marshalMessage sent (.bytes []))).properties
        [0, lineFeed] = .ok ([0], [lineFeed]) := by
      rw [readBody, readContentLength_counted (contentLength_echo_bytes h []) hsmall]
      rfl
    rw [fromStream_echo h (sized_bytes hsmall) hwrite hbytes, append_nil, nil_append, hempty] at hframe
    cases hframe
    rw [hkind] at hmessage
    cases hmessage
  · intro hne
    refine ⟨bytes, hbytes, fun rest => ⟨_, lineFeed :: rest, ?_, hkind body, fromStream_lineFeed rest⟩⟩
    rw [fromStream_echo h (sized_bytes hsmall) hwrite hbytes, append_assoc]
    show Except.map _ (readBody _ (body ++ 0 :: lineFeed :: rest)) = _
    rw [readBody_counted (readContentLength_counted (contentLength_echo_bytes h body) hsmall) hne]
    rfl

omit h in
/-- A text goes out with its NUL, as far as its size fits. -/
theorem writeBody_text (hnone : sent.get contentLength = none) (text : Bytes) :
    (marshalMessage sent (.text text)).writeBody =
      if wrap 32 ((text.length + 1 : Nat) : Int) < 0 then .error .indexOutOfBounds
      else .ok ((text ++ [0]).take (wrap 32 ((text.length + 1 : Nat) : Int)).toNat ++ [lineFeed]) := by
  have hbody : (marshalMessage sent (.text text)).body = text ++ [0] := rfl
  have hlength : (marshalMessage sent (.text text)).getProperty contentLength = [] := by
    show (sent.get contentLength).getD [] = []
    rw [hnone]
    rfl
  rw [writeBody, hbody, hlength, length_append, length_singleton,
    if_neg (by simp : ¬ (text ++ [0] = [] ∨ ([]) ≠ [])), append_nil]

theorem roundTrips_text (text : Bytes) :
    RoundTrips sent headers (.text text) ↔ Safe sent (.text text) := by
  have hkind : sent.get contentLength = none → ∀ read : Bytes, unmarshalMessage
      ⟨message, (echo headers (marshalMessage sent (.text text))).properties, read⟩ =
        .text (cString read) := by
    intro hnone read
    refine if_neg ?_
    rw [hasProperty, getProperty_echo h.fresh]
    show ¬ (sent.get contentLength).isSome = true
    rw [hnone]
    exact Bool.false_ne_true
  constructor
  · rintro ⟨bytes, hbytes, hread⟩
    obtain ⟨frame, rest', hframe, hmessage, -⟩ := hread []
    obtain ⟨written, hwrite⟩ : ∃ written, (marshalMessage sent (.text text)).writeBody =
        .ok written := by
      cases hwrite : (marshalMessage sent (.text text)).writeBody with
      | ok written => exact ⟨written, rfl⟩
      | error e =>
        rw [toStream_eq (wellFormed_echo h (sized_text text)), writeBody_echo h.fresh, hwrite]
          at hbytes
        cases hbytes
    rw [fromStream_echo h (sized_text text) hwrite hbytes, append_nil] at hframe
    -- a property of that name makes it a bytes message
    have hnone : sent.get contentLength = none := by
      by_contra hsome
      cases hbody : readBody (echo headers (marshalMessage sent (.text text))).properties written with
      | error e =>
        rw [hbody] at hframe
        cases hframe
      | ok read =>
        rw [hbody] at hframe
        cases hframe
        have hbytesKind : hasProperty ⟨message,
            (echo headers (marshalMessage sent (.text text))).properties, read.1⟩ contentLength =
              true := by
          rw [hasProperty, getProperty_echo h.fresh]
          exact Option.isSome_iff_ne_none.mpr hsome
        rw [unmarshalMessage, if_pos hbytesKind] at hmessage
        cases hmessage
    rw [writeBody_text hnone] at hwrite
    split at hwrite
    · cases hwrite
    · next hsize =>
      obtain rfl := Except.ok.inj hwrite
      have hbound : wrap 32 ((text.length + 1 : Nat) : Int) < 2 ^ 31 := Int.bmod_lt (by decide)
      generalize hn : (wrap 32 ((text.length + 1 : Nat) : Int)).toNat = n at hframe
      rw [readBody_text h text hnone] at hframe
      -- what is read ends at a NUL that was written
      have hin : 0 ∈ (text ++ [0]).take n := by
        by_contra hnotin
        rw [cut_eq_none] at hframe
        · cases hframe
        · rw [mem_append, not_or]
          exact ⟨hnotin, by decide⟩
      obtain ⟨before, after, hsplit, hbefore⟩ := eq_append_cons_of_mem hin
      rw [hsplit, append_assoc, cons_append, cut_append hbefore] at hframe
      cases hframe
      rw [hkind hnone, cString_append _ hbefore] at hmessage
      obtain rfl := Message.text.inj hmessage
      have hlength := congrArg length hsplit
      simp only [length_take, length_append, length_cons] at hlength
      exact ⟨hbefore, hnone, by omega⟩
  · rintro ⟨hnul, hnone, hsmall⟩
    have hsize : wrap 32 ((text.length + 1 : Nat) : Int) = (text.length + 1 : Nat) :=
      wrap_of_bounds
    have hwrite : (marshalMessage sent (.text text)).writeBody = .ok (text ++ [0, lineFeed]) := by
      rw [writeBody_text hnone, hsize, if_neg (by omega), take_of_length_le]
      · simp
      · simp
    obtain ⟨bytes, hbytes⟩ := toStream_echo h (sized_text text) hwrite
    refine ⟨bytes, hbytes, fun rest => ⟨_, lineFeed :: rest, ?_, (hkind hnone (text ++ [0])).trans ?_,
      fromStream_lineFeed rest⟩⟩
    · rw [fromStream_echo h (sized_text text) hwrite hbytes, append_assoc]
      show Except.map _ (readBody _ (text ++ 0 :: lineFeed :: rest)) = _
      rw [readBody_text h text hnone, cut_append hnul]
      rfl
    · rw [cString_append _ hnul]

omit h

/-- **Messages over STOMP.** Under any headers of the broker's that lines can hold, a
message comes back with its kind and its body, and the next frame is read from its first
byte, iff it is a text without a NUL (under no property that is taken for a length, of a
size that fits) or a bytes message that is not empty. The length of a bytes message is an
`int`, and it was not marshalled before. -/
theorem stomp_roundTrip_iff (sent headers : LinkedHashMap Bytes Bytes)
    (hlegible : Legible sent headers) (m : Message)
    (hint : ∀ body, m = .bytes body → body.length < 2 ^ 31) :
    RoundTrips sent headers m ↔ Safe sent m := by
  cases m with
  | text text => exact roundTrips_text hlegible text
  | bytes body => exact roundTrips_bytes hlegible (hint body rfl)

/-- Three bytes, two of which would end a text, under one header. -/
theorem stomp_roundTrip_three : RoundTrips [] [([105, 100], [55])] (.bytes [0, 10, 0]) :=
  (stomp_roundTrip_iff [] [([105, 100], [55])]
    ⟨by decide, by decide, by decide, fun value hvalue => by cases hvalue⟩ (.bytes [0, 10, 0])
    (by rintro body ⟨⟩; decide)).mpr (cons_ne_nil _ _)

/-- An empty bytes message comes back with one byte. And of the text `a NUL b` only the
`a` comes back, and its rest is read as the command of the next frame. -/
theorem stomp_loses_bodies :
    ((echo [] (marshalMessage [] (.bytes []))).toStream.bind fromStream).map
        (fun read => unmarshalMessage read.1) = .ok (.bytes [0]) ∧
    (let first := (echo [] (marshalMessage [] (.text [97, 0, 98]))).toStream.bind fun bytes =>
        (echo [] (marshalMessage [] (.text [99]))).toStream.bind fun next =>
          fromStream (bytes ++ next)
     first.map (fun read => unmarshalMessage read.1) = .ok (.text [97]) ∧
      (first.bind fun read => fromStream read.2).map (fun read => read.1.command) = .ok [98]) := by
  decide

end ActivemqCpp.Stomp
