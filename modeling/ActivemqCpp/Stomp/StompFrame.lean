import ActivemqCpp.Base.Codec
import ActivemqCpp.Decaf.LinkedHashMap
import ActivemqCpp.Decaf.Numbers

/-!
# `StompFrame`

A frame is a command line, header lines, an empty line and a body. Two rules tell where
the body ends:

* **writing** — a NUL follows a body that is empty or comes with a `content-length`; any
  other body is written as it is and must bring its own (`toStream`);
* **reading** — a `content-length` other than zero counts the bytes, and a NUL must
  follow; without one, and with zero, the body is what comes up to the first NUL, that
  NUL included (`readBody`).

Behind the NUL every frame has a line feed, which its reader leaves to the next one, who
skips it with all white space in front of the command (`fromStream_lineFeed`).

The header section of a well-formed frame is read back as it was written
(`fromStream_headerText`), so that the body is all that remains to be followed. A row of
frames whose bodies show where they end is read back frame by frame (`frames_roundTrip`).
-/

namespace ActivemqCpp.Stomp

open Base List
open Decaf
open StringUtils (isWhitespace)

def lineFeed : UInt8 := 10

def colon : UInt8 := 58

/-- `StompCommandConstants::SEND`. -/
def send : Bytes := [83, 69, 78, 68]

/-- `StompCommandConstants::MESSAGE`. -/
def message : Bytes := [77, 69, 83, 83, 65, 71, 69]

/-- `StompCommandConstants::HEADER_CONTENTLENGTH`, that is `content-length`. -/
def contentLength : Bytes := [99, 111, 110, 116, 101, 110, 116, 45, 108, 101, 110, 103, 116, 104]

/-- The properties are listed in the order in which they were set; the reader does not
depend on it. -/
structure StompFrame where
  command : Bytes
  properties : LinkedHashMap Bytes Bytes
  body : Bytes
deriving DecidableEq

namespace StompFrame

def hasProperty (frame : StompFrame) (name : Bytes) : Bool :=
  (frame.properties.get name).isSome

def getProperty (frame : StompFrame) (name : Bytes) : Bytes :=
  (frame.properties.get name).getD []

def setProperty (frame : StompFrame) (name value : Bytes) : StompFrame :=
  { frame with properties := frame.properties.put name value }

/-! ## Writing -/

def headerLine (header : Bytes × Bytes) : Bytes := header.1 ++ colon :: header.2 ++ [lineFeed]

/-- A string of the header section. Its size is cast to an `int`, and a negative one refused
by `DataOutputStream::write`. -/
def writeString (text : Bytes) : Except Exn Bytes :=
  let size := wrap 32 text.length
  if size < 0 then .error .indexOutOfBounds else .ok (text.take size.toNat)

def writeHeader (header : Bytes × Bytes) : Except Exn Bytes := do
  let name ← writeString header.1
  let value ← writeString header.2
  pure (headerLine (name, value))

/-- The body and what ends it, with the same cast. -/
def writeBody (frame : StompFrame) : Except Exn Bytes :=
  let size := wrap 32 frame.body.length
  if size < 0 then .error .indexOutOfBounds
  else .ok (frame.body.take size.toNat ++
    (if frame.body = [] ∨ frame.getProperty contentLength ≠ [] then [0] else []) ++ [lineFeed])

/-- What stands in front of the body. -/
def writeHeaders (frame : StompFrame) : Except Exn Bytes := do
  let command ← writeString frame.command
  let headers ← frame.properties.mapM writeHeader
  pure (command ++ lineFeed :: headers.flatten ++ [lineFeed])

/-- `toStream`. -/
def toStream (frame : StompFrame) : Except Exn Bytes := do
  let headers ← frame.writeHeaders
  let body ← frame.writeBody
  pure (headers ++ body)

/-! ## Reading -/

/-- The `char*` at the beginning of a buffer, as a string. -/
def cString (buffer : Bytes) : Bytes := buffer.takeWhile (· ≠ 0)

/-- `readHeaderLine`: the line, without its line feed. -/
def readHeaderLine (input : Bytes) : Except Exn (Bytes × Bytes) :=
  match cut lineFeed input with
  | none => .error .eof
  | some line => .ok line

/-- `readCommandHeader`: lines of white space are skipped. Every line takes a byte, so
without fuel nothing is left to read. -/
def readCommandHeader : (fuel : Nat) → Bytes → Except Exn (Bytes × Bytes)
  | 0, _ => .error .eof
  | fuel + 1, input =>
    match readHeaderLine input with
    | .error e => .error e
    | .ok (line, rest) =>
      match line.dropWhile isWhitespace with
      | [] => readCommandHeader fuel rest
      | command => .ok (cString command, rest)

/-- A header line: of two headers with one key the first counts, and a line without a
colon is ignored. -/
def addHeader (properties : LinkedHashMap Bytes Bytes) (line : Bytes) : LinkedHashMap Bytes Bytes :=
  match cut colon line with
  | none => properties
  | some (key, value) =>
    if (properties.get (cString key)).isSome then properties
    else properties.put (cString key) (cString value)

/-- `readHeaders`. -/
def readHeaders : (fuel : Nat) → LinkedHashMap Bytes Bytes → Bytes →
    Except Exn (LinkedHashMap Bytes Bytes × Bytes)
  | 0, _, _ => .error .eof
  | fuel + 1, properties, input =>
    match readHeaderLine input with
    | .error e => .error e
    | .ok ([], rest) => .ok (properties, rest)
    | .ok (line, rest) => readHeaders fuel (addHeader properties line) rest

/-- The value of the header, or zero without one. -/
def readContentLength (properties : LinkedHashMap Bytes Bytes) : Except Exn Int :=
  match properties.get contentLength with
  | none => .ok 0
  | some value => parseInt value

/-- `readBody`. A negative length becomes a size that `readFully` refuses. -/
def readBody (properties : LinkedHashMap Bytes Bytes) (input : Bytes) :
    Except Exn (Bytes × Bytes) :=
  match readContentLength properties with
  | .error _ => .error .io
  | .ok length =>
    if length = 0 then
      match cut 0 input with
      | none => .error .eof
      | some (before, rest) => .ok (before ++ [0], rest)
    else if length < 0 then .error .io
    else if input.length < length.toNat then .error .eof
    else
      match input.drop length.toNat with
      | [] => .error .eof
      | last :: rest => if last = 0 then .ok (input.take length.toNat, rest) else .error .io

/-- `fromStream`, with what is left of the stream. -/
def fromStream (input : Bytes) : Except Exn (StompFrame × Bytes) :=
  match readCommandHeader input.length input with
  | .error e => .error e
  | .ok (command, input) =>
    match readHeaders input.length [] input with
    | .error e => .error e
    | .ok (properties, input) =>
      (readBody properties input).map fun (body, rest) => (⟨command, properties, body⟩, rest)

/-! ## The header section -/

/-- A header without what ends a key, a value or a line. -/
def Undivided (header : Bytes × Bytes) : Prop :=
  lineFeed ∉ header.1 ∧ colon ∉ header.1 ∧ 0 ∉ header.1 ∧ lineFeed ∉ header.2 ∧ 0 ∉ header.2

instance (header : Bytes × Bytes) : Decidable (Undivided header) :=
  inferInstanceAs (Decidable (_ ∧ _))

/-- A header that one line can hold: its sizes fit an `int`. -/
def OneLine (header : Bytes × Bytes) : Prop :=
  Undivided header ∧ header.1.length < 2 ^ 31 ∧ header.2.length < 2 ^ 31

instance (header : Bytes × Bytes) : Decidable (OneLine header) := inferInstanceAs (Decidable (_ ∧ _))

/-- The command is a word on one line, and the headers have different keys. -/
structure WellFormed (frame : StompFrame) : Prop where
  command : frame.command ≠ [] ∧ lineFeed ∉ frame.command ∧ 0 ∉ frame.command ∧
    ∀ c ∈ frame.command, isWhitespace c = false
  short : frame.command.length < 2 ^ 31
  headers : ∀ header ∈ frame.properties, OneLine header
  nodup : frame.properties.keys.Nodup

theorem cString_eq_self {bytes : Bytes} (h : 0 ∉ bytes) : cString bytes = bytes := by
  rw [cString, takeWhile_eq_self_iff]
  intro b hb
  rw [decide_eq_true_iff]
  exact ne_of_mem_of_not_mem hb h

variable (rest : Bytes)
include rest

theorem cString_append {bytes : Bytes} (h : 0 ∉ bytes) : cString (bytes ++ 0 :: rest) = bytes := by
  rw [cString, takeWhile_append_of_pos, takeWhile_cons_of_neg (by simp), append_nil]
  intro b hb
  rw [decide_eq_true_iff]
  exact ne_of_mem_of_not_mem hb h

theorem readHeaderLine_append {line : Bytes} (h : lineFeed ∉ line) :
    readHeaderLine (line ++ lineFeed :: rest) = .ok (line, rest) := by
  rw [readHeaderLine, cut_append h]

/-- A line feed in front of a frame is not part of it. -/
theorem fromStream_lineFeed : fromStream (lineFeed :: rest) = fromStream rest := by
  have hskip : readCommandHeader (lineFeed :: rest).length (lineFeed :: rest) =
      readCommandHeader rest.length rest := by
    rfl
  rw [fromStream, hskip, fromStream]

theorem readCommandHeader_append {command : Bytes} (h : command ≠ [] ∧ lineFeed ∉ command ∧
      0 ∉ command ∧ ∀ c ∈ command, isWhitespace c = false) (fuel : Nat) :
    readCommandHeader (fuel + 1) (command ++ lineFeed :: rest) = .ok (command, rest) := by
  obtain ⟨hne, hline, hnul, hword⟩ := h
  rw [readCommandHeader, readHeaderLine_append _ hline]
  obtain ⟨c, word, rfl⟩ := exists_cons_of_ne_nil hne
  have hkeep : (c :: word).dropWhile isWhitespace = c :: word := by
    rw [dropWhile_cons_of_neg]
    rw [hword c mem_cons_self]
    exact Bool.false_ne_true
  dsimp only
  rw [hkeep]
  dsimp only
  rw [cString_eq_self hnul]

omit rest

/-- Of two headers with one key the first counts. -/
def keepFirst (properties : LinkedHashMap Bytes Bytes) (header : Bytes × Bytes) :
    LinkedHashMap Bytes Bytes :=
  if (properties.get header.1).isSome then properties else properties.put header.1 header.2

variable {header : Bytes × Bytes}

theorem addHeader_undivided (properties : LinkedHashMap Bytes Bytes) (h : Undivided header) :
    addHeader properties (header.1 ++ colon :: header.2) = keepFirst properties header := by
  obtain ⟨-, hcolon, hkey, -, hvalue⟩ := h
  rw [addHeader, cut_append hcolon]
  dsimp only
  rw [cString_eq_self hkey, cString_eq_self hvalue]
  rfl

/-- The header lines, one after the other. -/
theorem readHeaders_lines (headers : List (Bytes × Bytes)) :
    ∀ (properties : LinkedHashMap Bytes Bytes) (rest : Bytes) (fuel : Nat),
      (∀ header ∈ headers, Undivided header) → headers.length < fuel →
      readHeaders fuel properties (headers.flatMap headerLine ++ lineFeed :: rest) =
        .ok (headers.foldl keepFirst properties, rest) := by
  induction headers with
  | nil =>
    intro properties rest fuel _ hfuel
    obtain ⟨fuel, rfl⟩ : ∃ n, fuel = n + 1 := ⟨fuel - 1, by simp at hfuel; omega⟩
    rfl
  | cons header headers ih =>
    intro properties rest fuel hlines hfuel
    obtain ⟨fuel, rfl⟩ : ∃ n, fuel = n + 1 := ⟨fuel - 1, by simp at hfuel; omega⟩
    obtain ⟨hline, hlines⟩ := forall_mem_cons.mp hlines
    have htext : lineFeed ∉ header.1 ++ colon :: header.2 := by
      simp only [mem_append, mem_cons, not_or]
      exact ⟨hline.1, by decide, hline.2.2.2.1⟩
    have hsplit : (header :: headers).flatMap headerLine ++ lineFeed :: rest =
        (header.1 ++ colon :: header.2) ++
          lineFeed :: (headers.flatMap headerLine ++ lineFeed :: rest) := by
      simp [headerLine]
    rw [hsplit, readHeaders, readHeaderLine_append _ htext]
    obtain ⟨c, line, hcons⟩ : ∃ c line, header.1 ++ colon :: header.2 = c :: line :=
      exists_cons_of_ne_nil (by simp)
    rw [hcons]
    dsimp only
    rw [← hcons, addHeader_undivided properties hline]
    exact ih _ rest fuel hlines (by
      rw [length_cons] at hfuel
      omega)

/-- Headers with different keys are all kept. -/
theorem foldl_keepFirst_of_nodup {headers properties : LinkedHashMap Bytes Bytes}
    (h : (LinkedHashMap.keys (properties ++ headers)).Nodup) :
    headers.foldl keepFirst properties = properties ++ headers := by
  induction headers generalizing properties with
  | nil => rw [append_nil]; rfl
  | cons header headers ih =>
    have hfresh : header.1 ∉ properties.keys := by
      intro hin
      rw [LinkedHashMap.keys, map_append] at h
      exact disjoint_of_nodup_append h hin mem_cons_self
    have hkeep : keepFirst properties header = properties ++ [header] := by
      rw [keepFirst, LinkedHashMap.get_eq_none hfresh]
      exact LinkedHashMap.put_of_notMem hfresh
    have hsplit : properties ++ header :: headers = (properties ++ [header]) ++ headers := by
      simp
    rw [hsplit] at h ⊢
    rw [foldl_cons, hkeep]
    exact ih h

variable (input : Bytes) {headers : List (Bytes × Bytes)}

theorem length_lt_headerLines (headers : List (Bytes × Bytes)) :
    headers.length < (headers.flatMap headerLine ++ lineFeed :: input).length := by
  induction headers with
  | nil => simp
  | cons header headers ih =>
    simp only [flatMap_cons, length_append, length_cons, headerLine] at ih ⊢
    omega

/-- A header section as text. -/
def headerText (command : Bytes) (headers : List (Bytes × Bytes)) : Bytes :=
  command ++ lineFeed :: headers.flatMap headerLine ++ [lineFeed]

/-- Behind a header section of undivided lines, reading has come to the body. -/
theorem fromStream_lines {command : Bytes} (hcommand : command ≠ [] ∧ lineFeed ∉ command ∧
      0 ∉ command ∧ ∀ c ∈ command, isWhitespace c = false)
    (hlines : ∀ header ∈ headers, Undivided header) :
    fromStream (headerText command headers ++ input) =
      (readBody (headers.foldl keepFirst []) input).map fun (body, rest) =>
        (⟨command, headers.foldl keepFirst [], body⟩, rest) := by
  have hsplit : headerText command headers ++ input = command ++
      lineFeed :: (headers.flatMap headerLine ++ lineFeed :: input) := by
    simp [headerText]
  obtain ⟨fuel, hfuel⟩ : ∃ fuel, (command ++
      lineFeed :: (headers.flatMap headerLine ++ lineFeed :: input)).length = fuel + 1 :=
    ⟨_, by rw [length_append]; rfl⟩
  rw [fromStream, hsplit, hfuel, readCommandHeader_append _ hcommand]
  dsimp only
  rw [readHeaders_lines headers [] input _ hlines (length_lt_headerLines input _)]

variable {frame : StompFrame}

/-- A well-formed frame keeps all its headers. -/
theorem fromStream_headerText (h : frame.WellFormed) :
    fromStream (headerText frame.command frame.properties ++ input) =
      (readBody frame.properties input).map fun (body, rest) =>
        (⟨frame.command, frame.properties, body⟩, rest) := by
  have hkeep : frame.properties.foldl keepFirst [] = frame.properties :=
    foldl_keepFirst_of_nodup (show (LinkedHashMap.keys ([] ++ frame.properties)).Nodup from h.nodup)
  rw [fromStream_lines _ h.command (fun header hin => (h.headers header hin).1), hkeep]

theorem writeString_of_lt {text : Bytes} (h : text.length < 2 ^ 31) :
    writeString text = .ok text := by
  have hsize : wrap 32 text.length = text.length :=
    wrap_of_bounds
  rw [writeString, hsize, if_neg (by omega), Int.toNat_natCast, take_length]

theorem writeHeader_of_oneLine (h : OneLine header) :
    writeHeader header = .ok (headerLine header) := by
  rw [writeHeader, writeString_of_lt h.2.1, writeString_of_lt h.2.2]
  rfl

theorem mapM_writeHeader (h : ∀ header ∈ headers, OneLine header) :
    headers.mapM writeHeader = .ok (headers.map headerLine) := by
  induction headers with
  | nil => rfl
  | cons header headers ih =>
    obtain ⟨hhead, hrest⟩ := forall_mem_cons.mp h
    rw [mapM_cons, writeHeader_of_oneLine hhead, ih hrest]
    rfl

/-- Where every line holds its header, the section is written as it is. -/
theorem writeHeaders_eq (h : frame.WellFormed) :
    frame.writeHeaders = .ok (headerText frame.command frame.properties) := by
  rw [writeHeaders, writeString_of_lt h.short, mapM_writeHeader h.headers, headerText]
  rfl

theorem toStream_eq (h : frame.WellFormed) :
    frame.toStream = frame.writeBody.map (headerText frame.command frame.properties ++ ·) := by
  rw [toStream, writeHeaders_eq h]
  cases frame.writeBody <;> rfl

theorem writeBody_of_lt (h : frame.body.length < 2 ^ 31) :
    frame.writeBody = .ok (frame.body ++
      (if frame.body = [] ∨ frame.getProperty contentLength ≠ [] then [0] else []) ++
        [lineFeed]) := by
  have hsize : wrap 32 frame.body.length = frame.body.length :=
    wrap_of_bounds
  rw [writeBody, hsize, if_neg (by omega), Int.toNat_natCast, take_length]

variable {properties : LinkedHashMap Bytes Bytes}

/-- With a length other than zero as many bytes are read. -/
theorem readBody_counted {body : Bytes} (h : readContentLength properties = .ok body.length)
    (hne : body ≠ []) (rest : Bytes) : readBody properties (body ++ 0 :: rest) = .ok (body, rest) := by
  have hpos := length_pos_of_ne_nil hne
  rw [readBody, h]
  dsimp only
  rw [if_neg (by omega), if_neg (by omega), Int.toNat_natCast, if_neg (by simp), drop_left]
  dsimp only
  rw [if_pos rfl, take_left]

/-- Without a length the body ends at the first NUL. -/
theorem readBody_uncounted (h : properties.get contentLength = none) : readBody properties input =
      match cut 0 input with
      | none => .error .eof
      | some (before, rest) => .ok (before ++ [0], rest) := by
  rw [readBody, readContentLength, h]
  exact if_pos rfl

/-! ## Frames one after the other -/

/-- `toStream` for each frame. -/
def writeFrames (frames : List StompFrame) : Except Exn Bytes :=
  (frames.mapM toStream).map flatten

/-- As many calls of `fromStream`. -/
def readFrames : Nat → Bytes → Except Exn (List StompFrame)
  | 0, _ => .ok []
  | n + 1, input => do
    let (frame, rest) ← fromStream input
    let frames ← readFrames n rest
    pure (frame :: frames)

/-- A length that counts the body, or one NUL at its end. -/
def Delimited (frame : StompFrame) : Prop :=
  (frame.body ≠ [] ∧ ∃ value, frame.properties.get contentLength = some value ∧
    parseInt value = .ok frame.body.length) ∨
  frame.properties.get contentLength = none ∧ ∃ text, 0 ∉ text ∧ frame.body = text ++ [0]

/-- A frame that can be told from what follows it. -/
structure Separable (frame : StompFrame) : Prop extends frame.WellFormed where
  sized : frame.body.length < 2 ^ 31
  delimited : frame.Delimited

/-- A frame is read up to the line feed behind it, whatever follows. -/
theorem Separable.fromStream (h : frame.Separable) :
    ∃ bytes, frame.toStream = .ok bytes ∧
      ∀ rest, fromStream (bytes ++ rest) = .ok (frame, lineFeed :: rest) := by
  have hwrite := writeBody_of_lt h.sized
  rcases h.delimited with ⟨hne, value, hget, hparse⟩ | ⟨hnone, text, hnul, hbody⟩
  · have hvalue : value ≠ [] := by
      rintro rfl
      cases hparse
    have hread : readContentLength frame.properties = .ok frame.body.length := by
      rw [readContentLength, hget]
      exact hparse
    rw [getProperty, hget, if_pos (.inr hvalue), append_assoc] at hwrite
    refine ⟨_, by rw [toStream_eq h.toWellFormed, hwrite]; rfl, fun rest => ?_⟩
    simp only [append_assoc, cons_append, nil_append]
    rw [fromStream_headerText _ h.toWellFormed, readBody_counted hread hne]
    rfl
  · rw [getProperty, hnone, if_neg (by simp [hbody]), append_nil, hbody] at hwrite
    refine ⟨_, by rw [toStream_eq h.toWellFormed, hwrite]; rfl, fun rest => ?_⟩
    simp only [append_assoc, cons_append, nil_append]
    rw [fromStream_headerText _ h.toWellFormed, readBody_uncounted _ hnone, cut_append hnul]
    simp only [Except.map, ← hbody]

/-- The line feed that a frame leaves is skipped by the next call. -/
theorem readFrames_lineFeed (n : Nat) : readFrames n (lineFeed :: input) = readFrames n input := by
  cases n with
  | zero => rfl
  | succ n => rw [readFrames, fromStream_lineFeed, readFrames]

/-- Frames whose commands are words, whose headers are lines with different keys, and whose
bodies end with their length or with their only NUL are read back in order, as long as their
sizes are `int`s. -/
theorem frames_roundTrip (frames : List StompFrame) (h : ∀ frame ∈ frames, frame.Separable) :
    (writeFrames frames).bind (readFrames frames.length) = .ok frames := by
  -- with anything behind the last frame
  suffices hall : ∃ bytes, writeFrames frames = .ok bytes ∧
      ∀ rest, readFrames frames.length (bytes ++ rest) = .ok frames by
    obtain ⟨bytes, hwrite, hread⟩ := hall
    rw [hwrite, ← append_nil bytes]
    exact hread []
  induction frames with
  | nil => exact ⟨[], rfl, fun _ => rfl⟩
  | cons frame frames ih =>
    obtain ⟨hframe, hframes⟩ := forall_mem_cons.mp h
    obtain ⟨first, hfirst, hread⟩ := hframe.fromStream
    obtain ⟨bytes, hwrite, hreads⟩ := ih hframes
    obtain ⟨texts, htexts, rfl⟩ : ∃ texts, frames.mapM toStream = .ok texts ∧
        texts.flatten = bytes := by
      cases htexts : frames.mapM toStream with
      | error e => simp [writeFrames, htexts, Except.map] at hwrite
      | ok texts => exact ⟨texts, rfl, by simpa [writeFrames, htexts, Except.map] using hwrite⟩
    refine ⟨first ++ texts.flatten, ?_, fun rest => ?_⟩
    · rw [writeFrames, mapM_cons, hfirst, htexts]
      rfl
    · rw [length_cons, readFrames, append_assoc, hread]
      show (readFrames frames.length (lineFeed :: (texts.flatten ++ rest)) >>= _) = _
      rw [readFrames_lineFeed, hreads]
      rfl

/-- A counted body with a NUL and a line feed in it, and a text behind it. -/
theorem frames_roundTrip_two :
    let frames : List StompFrame :=
      [⟨send, [(contentLength, [51])], [0, 10, 0]⟩, ⟨message, [([105], [58])], [97, 0]⟩]
    (writeFrames frames).bind (readFrames 2) = .ok frames := by
  refine frames_roundTrip _ (forall_mem_cons.mpr ⟨⟨⟨?_, ?_, ?_, ?_⟩, ?_, ?_⟩,
    forall_mem_singleton.mpr ⟨⟨?_, ?_, ?_, ?_⟩, ?_, ?_⟩⟩)
  all_goals first
    | decide +kernel
    | exact .inl ⟨by decide, [51], by decide +kernel, by decide +kernel⟩
    | exact .inr ⟨by decide +kernel, [97], by decide, rfl⟩

/-- White space in front of a command is skipped, and so is the line of a command that is
empty: the line of the body is then taken for the command. -/
theorem empty_command_lost : (writeFrames [⟨[], [], [0]⟩]).bind (readFrames 1) = .error .eof := by
  decide

end StompFrame

end ActivemqCpp.Stomp
