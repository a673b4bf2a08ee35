import ActivemqCpp.Stomp.StompHelper

/-!
# Application strings in the headers of a frame

Names and values of properties, correlation ids, types and names of destinations are written
into the header section as they are. The frame is read back as the message (`Intact`) iff
none of these strings means something to the reader (`Inert`):

* **delimiters** — whatever a frame is read from, a key has no line feed, no colon and no NUL,
  and a value no line feed and no NUL (`undivided_fromStream`), so that a string with one of
  them is not read back;
* **names** — a property under the name of a standard header replaces that header, or is read
  as one that the message does not have; a `content-length` decides where the body ends;
* **sizes** — what does not fit an `int` is cut off (`toStream_ok`).

The other direction is the round trip of well-formed frames.
-/

namespace ActivemqCpp.Stomp

open Base List
open Decaf
open Commands (Destination)
open StompFrame

/-! ## The property -/

/-- What is on the wire is read with these headers: the standard ones as the message without
its properties sets them, the properties, and nothing else. The body, and the place where the
next frame begins, are those of the message without its properties. -/
structure IntactAs (bare : StompFrame) (m : StompMessage) (bytes : Bytes)
    (headers : LinkedHashMap Bytes Bytes) : Prop where
  reads : ∀ rest, fromStream (bytes ++ rest) = bare.writeBody.bind fun tail =>
    (readBody bare.properties (tail ++ rest)).map fun (body, rest) => (⟨send, headers, body⟩, rest)
  standard : ∀ name ∈ standardHeaders, headers.get name = bare.properties.get name
  properties : ∀ property ∈ m.properties, headers.get property.1 = some property.2
  only : ∀ name ∈ headers.keys, name ∈ bare.properties.keys ∨ name ∈ m.properties.keys

def Intact (bare : StompFrame) (m : StompMessage) (bytes : Bytes) : Prop :=
  ∃ headers, IntactAs bare m bytes headers

/-- One line holds each header, and no property has the name of a standard header, unless it
says the same. -/
structure Inert (bare : StompFrame) (m : StompMessage) : Prop where
  fields : ∀ header ∈ bare.properties, OneLine header
  properties : ∀ property ∈ m.properties, OneLine property
  names : ∀ property ∈ m.properties, property.1 ∈ standardHeaders →
    bare.properties.get property.1 = some property.2

/-! ## What is set -/

section Set

variable {own : LinkedHashMap Bytes Bytes} {m : StompMessage} (content : Message)
include content

theorem command_marshalMessage (headers : LinkedHashMap Bytes Bytes) :
    (marshalMessage headers content).command = send := by
  cases content <;> rfl

theorem body_marshalMessage (headers headers' : LinkedHashMap Bytes Bytes) :
    (marshalMessage headers content).body = (marshalMessage headers' content).body := by
  cases content <;> rfl

theorem nodup_marshalMessage {headers : LinkedHashMap Bytes Bytes} (h : headers.keys.Nodup) :
    (marshalMessage headers content).properties.keys.Nodup := by
  cases content with
  | text text => exact h
  | bytes body => exact LinkedHashMap.nodup_keys_put h _

theorem get_marshalMessage (headers : LinkedHashMap Bytes Bytes) {name : Bytes}
    (h : name ≠ contentLength) :
    (marshalMessage headers content).properties.get name = headers.get name := by
  cases content with
  | text text => rfl
  | bytes body => exact LinkedHashMap.get_put_of_ne h _

omit content in
theorem contentLength_standard : contentLength ∈ standardHeaders := by decide +kernel

theorem Own.mem_standardHeaders (hown : Own own) {name : Bytes}
    (h : name ∈ (marshalMessage own content).properties.keys) : name ∈ standardHeaders := by
  cases content with
  | text text => exact hown.standard name h
  | bytes body =>
    rcases LinkedHashMap.mem_keys_put h with rfl | hin
    · exact contentLength_standard
    · exact hown.standard name hin

omit content

/-- The frame of a message whose fields set the headers `own`: the properties go over them. -/
abbrev framed (own : LinkedHashMap Bytes Bytes) (m : StompMessage) : StompFrame :=
  marshalMessage (LinkedHashMap.putAll m.properties own) m.content

variable (hnames : ∀ property ∈ m.properties, property.1 ∈ standardHeaders →
  (marshalMessage own m.content).properties.get property.1 = some property.2)

include hnames

/-- The headers of the frame, when no property contradicts a field. -/
theorem get_framed (name : Bytes) :
    (framed own m).properties.get name =
      (m.properties.get name).or ((marshalMessage own m.content).properties.get name) := by
  rw [framed]
  by_cases hname : name = contentLength
  · subst hname
    cases hcontent : m.content with
    | text text => exact LinkedHashMap.get_putAll contentLength m.nodup
    | bytes body =>
      rw [contentLength_bytes, contentLength_bytes]
      cases hget : m.properties.get contentLength with
      | none => rfl
      | some value =>
        have hsame := hnames _ (LinkedHashMap.mem_of_get hget) contentLength_standard
        rw [hcontent, contentLength_bytes] at hsame
        exact hsame
  · rw [get_marshalMessage _ _ hname, get_marshalMessage _ _ hname,
      LinkedHashMap.get_putAll name m.nodup]

theorem mem_framed (hown : Own own) {header : Bytes × Bytes}
    (h : header ∈ (framed own m).properties) :
    header ∈ (marshalMessage own m.content).properties ∨ header ∈ m.properties := by
  have hnodup := nodup_marshalMessage
    m.content (LinkedHashMap.nodup_keys_putAll m.properties hown.nodup)
  have hget := LinkedHashMap.get_of_mem hnodup h
  rw [get_framed hnames, Option.or_eq_some_iff] at hget
  rcases hget with hproperty | ⟨-, hfield⟩
  · exact .inr (LinkedHashMap.mem_of_get hproperty)
  · exact .inl (LinkedHashMap.mem_of_get hfield)

/-- The length that the body is written and read by is that of the fields. -/
theorem contentLength_framed :
    (framed own m).properties.get contentLength =
      (marshalMessage own m.content).properties.get contentLength := by
  rw [get_framed hnames]
  cases hget : m.properties.get contentLength with
  | none => rfl
  | some value => exact (hnames _ (LinkedHashMap.mem_of_get hget) contentLength_standard).symm

end Set

variable {properties : LinkedHashMap Bytes Bytes}

theorem readBody_congr {properties' : LinkedHashMap Bytes Bytes}
    (h : properties.get contentLength = properties'.get contentLength) (input : Bytes) :
    readBody properties input = readBody properties' input := by
  rw [readBody, readBody, readContentLength, readContentLength, h]

variable {frame : StompFrame}

theorem writeBody_congr {frame' : StompFrame} (hbody : frame.body = frame'.body)
    (h : frame.properties.get contentLength = frame'.properties.get contentLength) :
    frame.writeBody = frame'.writeBody := by
  rw [writeBody, writeBody, getProperty, getProperty, hbody, h]

/-! ## What is written -/

/-- A string as its size, cast to an `int`, lets it out. -/
def asWritten (text : Bytes) : Bytes := text.take (wrap 32 text.length).toNat

def headerAsWritten (header : Bytes × Bytes) : Bytes × Bytes :=
  (asWritten header.1, asWritten header.2)

theorem length_asWritten_lt (text : Bytes) : (asWritten text).length < 2 ^ 31 := by
  have hbound : wrap 32 text.length < 2 ^ 31 := Int.bmod_lt (by decide)
  rw [asWritten, length_take]
  omega

theorem length_headerAsWritten_lt (header : Bytes × Bytes) :
    (headerAsWritten header).1.length < 2 ^ 31 ∧ (headerAsWritten header).2.length < 2 ^ 31 := by
  dsimp only [headerAsWritten]
  exact ⟨length_asWritten_lt header.1, length_asWritten_lt header.2⟩

theorem asWritten_subset (text : Bytes) : asWritten text ⊆ text := by
  exact take_subset _ _

variable {header : Bytes × Bytes} {headers : List (Bytes × Bytes)}

theorem undivided_headerAsWritten (h : Undivided header) : Undivided (headerAsWritten header) := by
  obtain ⟨hkeyLine, hkeyColon, hkeyNul, hline, hnul⟩ := h
  have hkey := asWritten_subset header.1
  have hvalue := asWritten_subset header.2
  dsimp only [Undivided, headerAsWritten]
  exact ⟨fun hc => hkeyLine (hkey hc), fun hc => hkeyColon (hkey hc), fun hc => hkeyNul (hkey hc),
    fun hc => hline (hvalue hc), fun hc => hnul (hvalue hc)⟩

theorem writeString_ok {text written : Bytes} (h : writeString text = .ok written) :
    written = asWritten text := by
  rw [writeString] at h
  split at h
  · cases h
  · exact (Except.ok.inj h).symm

theorem writeHeader_ok {line : Bytes} (h : writeHeader header = .ok line) :
    line = headerLine (headerAsWritten header) := by
  obtain ⟨name, hname, h⟩ := ok_of_bind h
  obtain ⟨value, hvalue, h⟩ := ok_of_bind h
  rw [← Except.ok.inj h, writeString_ok hname, writeString_ok hvalue]
  rfl

theorem mapM_writeHeader_ok {lines : List Bytes} (h : headers.mapM writeHeader = .ok lines) :
    lines = (headers.map headerAsWritten).map headerLine := by
  induction headers generalizing lines with
  | nil => exact (Except.ok.inj h).symm
  | cons header headers ih =>
    rw [mapM_cons] at h
    obtain ⟨line, hline, h⟩ := ok_of_bind h
    obtain ⟨rest, hrest, h⟩ := ok_of_bind h
    rw [← Except.ok.inj h, writeHeader_ok hline, ih hrest]
    rfl

/-- What is on the wire when a frame was written. -/
theorem toStream_ok {bytes : Bytes} (h : frame.toStream = .ok bytes) :
    ∃ tail, frame.writeBody = .ok tail ∧ bytes =
      headerText (asWritten frame.command) (frame.properties.map headerAsWritten) ++ tail := by
  obtain ⟨lines, hlines, h⟩ := ok_of_bind h
  obtain ⟨tail, hbody, h⟩ := ok_of_bind h
  obtain ⟨command, hcommand, hlines⟩ := ok_of_bind hlines
  obtain ⟨fields, hfields, hlines⟩ := ok_of_bind hlines
  refine ⟨tail, hbody, ?_⟩
  rw [← Except.ok.inj h, ← Except.ok.inj hlines, writeString_ok hcommand,
    mapM_writeHeader_ok hfields, headerText, flatMap_def]

/-! ## What is read -/

theorem cString_subset (bytes : Bytes) : cString bytes ⊆ bytes := takeWhile_subset _

theorem zero_notMem_cString (bytes : Bytes) : 0 ∉ cString bytes := by
  intro hin
  have hne := mem_takeWhile_imp hin
  exact of_decide_eq_true hne rfl

theorem undivided_addHeader {line : Bytes} (hline : lineFeed ∉ line)
    (h : ∀ header ∈ properties, Undivided header) :
    ∀ header ∈ addHeader properties line, Undivided header := by
  intro header hin
  rw [addHeader] at hin
  cases hcut : cut colon line with
  | none =>
    rw [hcut] at hin
    exact h header hin
  | some parts =>
    obtain ⟨key, value⟩ := parts
    obtain ⟨rfl, hcolon⟩ := eq_of_cut hcut
    rw [mem_append, mem_cons, not_or, not_or] at hline
    rw [hcut] at hin
    dsimp only at hin
    split at hin
    · exact h header hin
    · rcases LinkedHashMap.mem_put hin with rfl | hold
      · exact ⟨fun hc => hline.1 (cString_subset key hc), fun hc => hcolon (cString_subset key hc),
          zero_notMem_cString key, fun hc => hline.2.2 (cString_subset value hc),
          zero_notMem_cString value⟩
      · exact h header hold

theorem undivided_readHeaders (fuel : Nat) :
    ∀ {properties headers : LinkedHashMap Bytes Bytes} {input rest : Bytes},
      readHeaders fuel properties input = .ok (headers, rest) →
      (∀ header ∈ properties, Undivided header) → ∀ header ∈ headers, Undivided header := by
  induction fuel with
  | zero =>
    intro properties headers input rest h
    cases h
  | succ fuel ih =>
    intro properties headers input rest h hproperties
    rw [readHeaders, readHeaderLine] at h
    cases hcut : cut lineFeed input with
    | none => rw [hcut] at h; cases h
    | some parts =>
      obtain ⟨line, after⟩ := parts
      rw [hcut] at h
      have hline := (eq_of_cut hcut).2
      cases line with
      | nil =>
        cases h
        exact hproperties
      | cons c line => exact ih h (undivided_addHeader hline hproperties)

/-- Whatever is read, no header holds a delimiter. -/
theorem undivided_fromStream {input rest : Bytes}
    (h : fromStream input = .ok (frame, rest)) : ∀ header ∈ frame.properties, Undivided header := by
  rw [fromStream] at h
  cases hcommand : readCommandHeader input.length input with
  | error e => rw [hcommand] at h; cases h
  | ok read =>
    obtain ⟨command, after⟩ := read
    rw [hcommand] at h
    dsimp only at h
    cases hheaders : readHeaders after.length [] after with
    | error e => rw [hheaders] at h; cases h
    | ok read =>
      obtain ⟨headers, after'⟩ := read
      rw [hheaders] at h
      dsimp only at h
      cases hbody : readBody headers after' with
      | error e => rw [hbody] at h; cases h
      | ok read =>
        rw [hbody] at h
        cases h
        exact undivided_readHeaders _ hheaders (forall_mem_nil _)

theorem mem_foldl_keepFirst
    (h : header ∈ headers.foldl keepFirst properties) : header ∈ properties ∨ header ∈ headers := by
  induction headers generalizing properties with
  | nil => exact .inl h
  | cons first headers ih =>
    rcases ih h with hin | hin
    · rw [keepFirst] at hin
      split at hin
      · exact .inl hin
      · rcases LinkedHashMap.mem_put hin with rfl | hold
        · exact .inr mem_cons_self
        · exact .inl hold
    · exact .inr (mem_cons_of_mem _ hin)

/-- A body that was written can be read, at the latest when a NUL follows it. -/
theorem readBody_own {own : LinkedHashMap Bytes Bytes} (hown : Own own) {content : Message}
    (hsized : Sized content) {tail : Bytes}
    (hwrite : (marshalMessage own content).writeBody = .ok tail) :
    ∃ read, readBody (marshalMessage own content).properties (tail ++ [0]) = .ok read := by
  have hcut : ∀ input : Bytes, ∃ parts, cut 0 (input ++ [0]) = some parts := by
    intro input
    have hin : 0 ∈ input ++ [0] := mem_append_right _ mem_cons_self
    obtain ⟨first, rest, heq, hfirst⟩ := eq_append_cons_of_mem hin
    exact ⟨(first, rest), by rw [heq, cut_append hfirst]⟩
  obtain ⟨parts, hparts⟩ := hcut tail
  cases content with
  | text text =>
    have hlength : readContentLength (marshalMessage own (.text text)).properties = .ok 0 := by
      show readContentLength own = _
      rw [readContentLength, LinkedHashMap.get_eq_none hown.unsized]
    rw [readBody, hlength]
    dsimp only
    rw [hparts]
    exact ⟨_, rfl⟩
  | bytes body =>
    have hsmall := hsized body rfl
    by_cases hne : body = []
    · subst hne
      rw [readBody, readContentLength_counted (contentLength_bytes []) hsmall]
      dsimp only
      rw [hparts]
      exact ⟨_, rfl⟩
    · rw [writeBody_bytes hsmall] at hwrite
      cases hwrite
      rw [append_assoc]
      exact ⟨_, readBody_counted (readContentLength_counted (contentLength_bytes body) hsmall) hne _⟩

/-! ## The two directions -/

section Frame

variable {own : LinkedHashMap Bytes Bytes} {m : StompMessage} {bytes : Bytes}

theorem wellFormed_of_inert (hown : Own own) (h : Inert (marshalMessage own m.content) m) :
    (framed own m).WellFormed where
  command := by
    rw [command_marshalMessage]
    decide +kernel
  short := by
    rw [command_marshalMessage]
    decide
  headers header hin := by
    rcases mem_framed h.names hown hin with hfield | hproperty
    · exact h.fields header hfield
    · exact h.properties header hproperty
  nodup := nodup_marshalMessage m.content (LinkedHashMap.nodup_keys_putAll m.properties hown.nodup)

variable (hwritten : (framed own m).toStream = .ok bytes)
include hwritten

theorem intact_of_inert (hown : Own own) (h : Inert (marshalMessage own m.content) m) :
    Intact (marshalMessage own m.content) m bytes := by
  have hwell := wellFormed_of_inert hown h
  have hlength := contentLength_framed h.names
  have hbody : (framed own m).writeBody = (marshalMessage own m.content).writeBody :=
    writeBody_congr (body_marshalMessage _ _ _) hlength
  refine ⟨(framed own m).properties,
    ⟨fun rest => ?_, fun name hname => ?_, fun property hin => ?_, fun name hname => ?_⟩⟩
  · rw [toStream_eq hwell, hbody] at hwritten
    cases htail : (marshalMessage own m.content).writeBody with
    | error e => rw [htail] at hwritten; cases hwritten
    | ok tail =>
      rw [htail] at hwritten
      cases hwritten
      rw [append_assoc, fromStream_headerText _ hwell, readBody_congr hlength,
        command_marshalMessage]
      rfl
  · rw [get_framed h.names]
    cases hget : m.properties.get name with
    | none => rfl
    | some value => exact (h.names _ (LinkedHashMap.mem_of_get hget) hname).symm
  · rw [get_framed h.names, LinkedHashMap.get_of_mem m.nodup hin]
    rfl
  · obtain ⟨header, hin, rfl⟩ := mem_map.mp hname
    exact (mem_framed h.names hown hin).imp mem_map_of_mem mem_map_of_mem

theorem inert_of_intact (hown : Own own) (hsized : Sized m.content)
    (h : Intact (marshalMessage own m.content) m bytes) :
    Inert (marshalMessage own m.content) m := by
  obtain ⟨headers, hreads, hstandard, hproperties, -⟩ := h
  obtain ⟨tail, hbody, hbytes⟩ := toStream_ok hwritten
  have hnames : ∀ property ∈ m.properties, property.1 ∈ standardHeaders →
      (marshalMessage own m.content).properties.get property.1 = some property.2 :=
    fun property hin hname => (hstandard _ hname).symm.trans (hproperties property hin)
  rw [writeBody_congr (body_marshalMessage _ _ own) (contentLength_framed hnames)] at hbody
  obtain ⟨read, hread⟩ := readBody_own hown hsized hbody
  have hparsed : fromStream (bytes ++ [0]) = .ok (⟨send, headers, read.1⟩, read.2) := by
    rw [hreads, hbody]
    show Except.map _ (readBody _ (tail ++ [0])) = _
    rw [hread]
    rfl
  -- every header that was set is among those that were read
  have hset : ∀ header, header ∈ (marshalMessage own m.content).properties ∨
      header ∈ m.properties → header ∈ headers := by
    rintro header (hfield | hproperty)
    · have hname : header.1 ∈ standardHeaders :=
        hown.mem_standardHeaders m.content (mem_map_of_mem hfield)
      have hget := LinkedHashMap.get_of_mem (nodup_marshalMessage m.content hown.nodup) hfield
      exact LinkedHashMap.mem_of_get ((hstandard _ hname).trans hget)
    · exact LinkedHashMap.mem_of_get (hproperties header hproperty)
  have hundivided : ∀ header ∈ headers, Undivided header := undivided_fromStream hparsed
  -- so the lines were those of the headers, as far as their sizes go
  have hlines : ∀ header ∈ (framed own m).properties.map headerAsWritten, Undivided header := by
    intro header hin
    obtain ⟨whole, hwhole, rfl⟩ := mem_map.mp hin
    exact undivided_headerAsWritten (hundivided whole (hset whole (mem_framed hnames hown hwhole)))
  have hsizes : ∀ header ∈ headers, header.1.length < 2 ^ 31 ∧ header.2.length < 2 ^ 31 := by
    intro header hin
    rw [hbytes, command_marshalMessage, append_assoc,
      fromStream_lines _ (by decide +kernel) hlines] at hparsed
    cases hread' : readBody (((framed own m).properties.map headerAsWritten).foldl keepFirst [])
        (tail ++ [0]) with
    | error e => rw [hread'] at hparsed; cases hparsed
    | ok read' =>
      rw [hread'] at hparsed
      have hsame := congrArg StompFrame.properties (Prod.mk.inj (Except.ok.inj hparsed)).1
      rw [← show _ = headers from hsame] at hin
      rcases mem_foldl_keepFirst hin with hnil | hmem
      · cases hnil
      · obtain ⟨whole, -, rfl⟩ := mem_map.mp hmem
        exact length_headerAsWritten_lt whole
  have hline : ∀ header ∈ headers, OneLine header :=
    fun header hin => ⟨hundivided header hin, hsizes header hin⟩
  exact ⟨fun header hin => hline header (hset header (.inl hin)),
    fun header hin => hline header (hset header (.inr hin)), hnames⟩

end Frame

/-- **Application strings and headers.** Whatever message is written, the frame is read with
exactly the headers that its fields and properties set, and with its body, iff every header
fits a line and no property takes the name of a standard header. -/
theorem headers_intact_iff (wireFormat : Prefixes) (m : StompMessage) (hsized : Sized m.content)
    {bare frame : StompFrame} {bytes : Bytes} (hbare : marshal wireFormat m.bare = .ok bare)
    (hframe : marshal wireFormat m = .ok frame) (hwritten : frame.toStream = .ok bytes) :
    Intact bare m bytes ↔ Inert bare m := by
  obtain ⟨own, hown, hbare', rfl⟩ := exists_own hframe
  obtain rfl := Except.ok.inj (hbare.symm.trans hbare')
  exact ⟨inert_of_intact hwritten hown hsized, intact_of_inert hwritten hown⟩

/-- A text for a queue, with a correlation id and a property. -/
def sampleMessage (properties : LinkedHashMap Bytes Bytes) (nodup : properties.keys.Nodup) :
    StompMessage where
  commandId := 7
  responseRequired := true
  destination := some ⟨.queue, literal "A"⟩
  correlationId := literal "order:17"
  expiration := 0
  persistent := true
  redeliveryCounter := 0
  priority := 4
  replyTo := none
  timestamp := 1
  type := []
  transactionId := none
  groupSequence := 0
  groupId := []
  properties := properties
  content := .text (literal "hello")
  nodup := nodup

/-- What is read of a message that was written. -/
def readBack (m : StompMessage) : Except Exn StompFrame :=
  ((marshal {} m).bind toStream).bind fun bytes => (fromStream bytes).map Prod.fst

/-- The headers that the fields of the sample set. -/
def sampleBare : StompFrame :=
  ⟨send, [("receipt", "7"), ("destination", "/queue/A"), ("correlation-id", "order:17"),
    ("expires", "0"), ("persistent", "true"), ("priority", "4"), ("timestamp", "1"),
    ("JMSXDeliveryCount", "0"), ("JMSXGroupSeq", "0")].map fun (name, value) =>
      (literal name, literal value), literal "hello\x00"⟩

def sampleBytes : Bytes := literal (
  "SEND\nreceipt:7\ndestination:/queue/A\ncorrelation-id:order:17\nexpires:0\n" ++
  "persistent:true\npriority:4\ntimestamp:1\nJMSXDeliveryCount:0\nJMSXGroupSeq:0\n" ++
  "color:red\n\nhello\x00\n")

theorem headers_intact_sample :
    Intact sampleBare (sampleMessage [(literal "color", literal "red")] (by decide)) sampleBytes := by
  have hframe : marshal {} (sampleMessage [(literal "color", literal "red")] (by decide)) =
      .ok (marshalMessage (sampleBare.properties ++ [(literal "color", literal "red")])
        (.text (literal "hello"))) := by decide +kernel
  refine (headers_intact_iff {} _ (sized_text _) (by decide +kernel) hframe
    (by decide +kernel)).mpr ?_
  exact ⟨by decide +kernel, by decide +kernel, by decide +kernel⟩

/-- The value of a property brings a `reply-to` that the message does not have; a property
called `destination` sends the message to another queue; a property called `content-length`
makes its frame unreadable. -/
theorem application_strings_interfere :
    (readBack (sampleMessage [(literal "color", literal "red\nreply-to:/queue/B")]
        (by decide))).map (fun frame => frame.properties.get headerReplyTo) =
      .ok (some (literal "/queue/B")) ∧
    (readBack (sampleMessage [(headerDestination, literal "/queue/B")] (by decide))).map
        (fun frame => frame.properties.get headerDestination) =
      .ok (some (literal "/queue/B")) ∧
    (readBack (sampleMessage [(contentLength, literal "2")] (by decide))).map
        (fun frame => frame.body) = .error .io := by
  decide +kernel

end ActivemqCpp.Stomp
