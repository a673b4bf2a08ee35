import ActivemqCpp.Openwire.Negotiation
import ActivemqCpp.Openwire.SchemaLaws

/-!
# `OpenWireFormat::marshal` and `unmarshal`

A command goes out as an optional size, its type byte and what the marshaller of that
type writes; in the tight encoding the booleans of its first pass stand in front of
the bytes of its second one. The reader skips the size and goes by the type byte.

The marshallers are any that agree with themselves on a command (`Marshals`), as the
generated ones do (`marshals_generated`). Then one command after the other comes back,
and every size is the number of bytes that follow it (`marshal_unmarshal`), as long as its
booleans fit one stream and a loose frame, where it is measured, fits its buffer (`Fits`).
-/

namespace ActivemqCpp.Openwire

open Base Decaf List BooleanStream OpenWireFormat

/-! ## Marshallers -/

/-- A `DataStreamMarshaller`: what its two tight passes write, its loose encoding, and
what its unmarshallers read into a new object. -/
structure DataStreamMarshaller (C : Type) where
  tightMarshal1 : C → Pass1
  tightMarshal2 : C → DataEmitter
  tightUnmarshal : DataReader C
  looseMarshal : C → Written
  looseUnmarshal : DataReader C

/-- The types of the commands and the marshallers registered for them. -/
structure Marshallers (C : Type) where
  getDataStructureType : C → UInt8
  dataMarshallers : UInt8 → Option (DataStreamMarshaller C)

/-- The marshaller counts the bytes it writes and reads them back as `back`. -/
structure DataStreamMarshaller.Exact {C : Type} (dsm : DataStreamMarshaller C) (command back : C) :
    Prop where
  tight : TwoPass True (dsm.tightMarshal1 command) (dsm.tightMarshal2 command)
    (fun _ => dsm.tightUnmarshal) 0 back
  loose : ReadsBack (dsm.looseMarshal command) (fun _ => dsm.looseUnmarshal) back

/-- The type byte of a null pointer. -/
def NULL_TYPE : UInt8 := 0

/-- A marshaller is registered for the command, under a type that is not the null
type, and it is exact. -/
def Marshallers.Marshals {C : Type} (ms : Marshallers C) (command back : C) : Prop :=
  ms.getDataStructureType command ≠ NULL_TYPE ∧
    ∃ dsm, ms.dataMarshallers (ms.getDataStructureType command) = some dsm ∧
      dsm.Exact command back

namespace OpenWireFormat

variable {C : Type}

/-! ## The code -/

/-- `AMQ_CATCH_RETHROW(IOException)`, then everything else converted to it. -/
def rethrowIO {α : Type} : Except Exn α → Except Exn α
  | .error .eof => .error .eof
  | .error .utfDataFormat => .error .utfDataFormat
  | .error _ => .error .io
  | .ok value => .ok value

/-- The size in front of a frame, where there is one. -/
def sizePrefix (format : OpenWireFormat) (size : BitVec 32) : Bytes :=
  if format.sizePrefixDisabled then [] else writeInt size

/-- The tight branch of `marshal`. -/
def marshalTight (format : OpenWireFormat) (dsm : DataStreamMarshaller C) (type : UInt8)
    (command : C) : Except Exn Bytes := do
  let (count, booleans) ← dsm.tightMarshal1 command
  let bs ← writeAll booleans
  let size := 1 + count + BitVec.ofInt 32 bs.marshalledSize
  let stream ← bs.marshal
  let (bytes, _) ← dsm.tightMarshal2 command (bits bs.data)
  .ok (format.sizePrefix size ++ writeByte type ++ stream ++ bytes)

/-- What the loose branch of `marshal` writes behind the size. -/
def looseFrame (dsm : DataStreamMarshaller C) (type : UInt8) (command : C) : Written :=
  writeBoth (.ok [writeByte type]) (dsm.looseMarshal command)

/-- The loose branch of `marshal`: with a size the frame is buffered and measured. -/
def marshalLoose (format : OpenWireFormat) (dsm : DataStreamMarshaller C) (type : UInt8)
    (command : C) : Except Exn Bytes := do
  let chunks ← looseFrame dsm type command
  let frame ← if format.sizePrefixDisabled then .ok chunks.flatten
    else ByteArrayOutputStream.buffered chunks
  .ok (format.sizePrefix (BitVec.ofNat 32 frame.length) ++ frame)

/-- `marshal`; `none` is `NULL`. -/
def marshal (format : OpenWireFormat) (ms : Marshallers C) : Option C → Except Exn Bytes
  | none => .ok (writeInt 1 ++ writeByte NULL_TYPE)
  | some command =>
    let type := ms.getDataStructureType command
    match ms.dataMarshallers type with
    | none => .error .io
    | some dsm =>
      rethrowIO (if format.tightEncodingEnabled then format.marshalTight dsm type command
        else format.marshalLoose dsm type command)

/-- `doUnmarshal`; `none` is `NULL`. -/
def doUnmarshal (format : OpenWireFormat) (ms : Marshallers C) : DataReader (Option C) := do
  let dataType ← readByte
  if dataType = NULL_TYPE then pure none
  else
    match ms.dataMarshallers dataType with
    | none => throw .io
    | some dsm =>
      if format.tightEncodingEnabled then
        let booleans ← unmarshalBooleans
        some <$> withBooleans booleans dsm.tightUnmarshal
      else some <$> dsm.looseUnmarshal

/-- `unmarshal`. -/
def unmarshal (format : OpenWireFormat) (ms : Marshallers C) : DataReader C := do
  if !format.sizePrefixDisabled then
    let _ ← readInt
  match ← format.doUnmarshal ms with
  | none => throw .io
  | some command => pure command

/-- The booleans of a tight command fit one stream, and a loose one that is measured fits its
buffer. -/
def Fits (format : OpenWireFormat) (ms : Marshallers C) (command : C) : Prop :=
  ∀ dsm, ms.dataMarshallers (ms.getDataStructureType command) = some dsm →
    (format.tightEncodingEnabled = true → ∀ size booleans,
      dsm.tightMarshal1 command = .ok (size, booleans) → booleans.length ≤ capacity) ∧
    (format.tightEncodingEnabled = false → format.sizePrefixDisabled = false →
      ByteArrayOutputStream.FitsBuffer (looseFrame dsm (ms.getDataStructureType command) command))

/-! ## One command -/

variable {format : OpenWireFormat} {ms : Marshallers C} {dsm : DataStreamMarshaller C}
  {command back : C} {booleans : List Bool}

/-- Booleans that follow those of the reader stay unread. -/
theorem decodes_withBooleans {α : Type} {reader : DataReader α} {items : Bytes} {a : α}
    (h : Decodes reader items booleans a) (more : List Bool) :
    Decodes (withBooleans (booleans ++ more) reader) items [] a := by
  intro rest flags
  have hrun := h rest more
  dsimp only [withBooleans, StateT.run] at hrun ⊢
  rw [hrun]
  rfl

/-- A frame: its size, where there is one, is the number of bytes behind it. -/
def Frame (format : OpenWireFormat) (bytes : Bytes) : Prop :=
  format.sizePrefixDisabled = false →
    ∃ size body, bytes = writeInt size ++ body ∧
      (body.length < 2 ^ 31 → size.toInt = body.length)

theorem frame_sizePrefix (format : OpenWireFormat) (body : Bytes) :
    format.Frame (format.sizePrefix (BitVec.ofNat 32 body.length) ++ body) := by
  intro hsize
  refine ⟨BitVec.ofNat 32 body.length, body, ?_, ?_⟩
  · rw [sizePrefix, hsize]
    rfl
  · intro hlt
    exact toInt_ofNat_of_lt (by omega)

/-- The reader skips the size and takes the rest of the frame. -/
theorem decodes_unmarshal {size : BitVec 32} {body : Bytes}
    (h : Decodes (format.doUnmarshal ms) body [] (some back)) :
    Decodes (format.unmarshal ms) (format.sizePrefix size ++ body) [] back := by
  have hbody : Decodes (format.doUnmarshal ms >>= fun data =>
      match data with
      | none => throw .io
      | some command => pure command) (body ++ []) [] back := h.thenItems (decodes_pure back)
  rw [append_nil] at hbody
  unfold unmarshal sizePrefix
  cases format.sizePrefixDisabled with
  | true => exact hbody
  | false => exact (decodes_readInt _).thenItems hbody

/-- The tight frame: the size is that of the type byte, of the boolean stream and of
the bytes of the second pass. -/
theorem marshalTight_eq (format : OpenWireFormat) {size : BitVec 32} {items : Bytes}
    (hfirst : dsm.tightMarshal1 command = .ok (size, booleans)) (hcount : size = items.length)
    (hsecond : Emits (dsm.tightMarshal2 command) booleans items)
    (hfits : booleans.length ≤ capacity) (type : UInt8) :
    ∃ stream n, Decodes unmarshalBooleans stream [] (booleans ++ replicate n false) ∧
      format.marshalTight dsm type command =
        .ok (format.sizePrefix (BitVec.ofNat 32 (writeByte type ++ stream ++ items).length) ++
          (writeByte type ++ stream ++ items)) := by
  obtain ⟨bs, hwrite, hholds⟩ := writeAll_holds booleans hfits
  obtain ⟨stream, n, hmarshal, hlength, hread⟩ := hholds.marshal hfits
  obtain ⟨m, hbits⟩ := hholds.bits
  refine ⟨stream, n, hread, ?_⟩
  have hbytes : dsm.tightMarshal2 command (bits bs.data) =
      .ok (items, replicate m false) := by
    rw [hbits]
    exact hsecond _
  have hsize : 1 + size + BitVec.ofInt 32 bs.marshalledSize =
      BitVec.ofNat 32 (writeByte type ++ stream ++ items).length := by
    rw [length_append, length_append, ← hlength, hcount, BitVec.ofInt_natCast, BitVec.ofNat_add,
      BitVec.ofNat_add, add_right_comm]
    rfl
  rw [marshalTight, hfirst]
  show (do
    let bs ← writeAll booleans
    let stream ← bs.marshal
    let (bytes, _) ← dsm.tightMarshal2 command (bits bs.data)
    Except.ok (format.sizePrefix (1 + size + BitVec.ofInt 32 bs.marshalledSize) ++
      writeByte type ++ stream ++ bytes)) = _
  rw [hwrite]
  show (do
    let stream ← bs.marshal
    let (bytes, _) ← dsm.tightMarshal2 command (bits bs.data)
    Except.ok (format.sizePrefix (1 + size + BitVec.ofInt 32 bs.marshalledSize) ++
      writeByte type ++ stream ++ bytes)) = _
  rw [hmarshal, hbytes, hsize]
  simp only [append_assoc]
  rfl

/-- A boolean stream that cannot be marshalled. -/
theorem marshalTight_error (format : OpenWireFormat) {count : BitVec 32} {bs : BooleanStream}
    {e : Exn}
    (hfirst : dsm.tightMarshal1 command = .ok (count, booleans))
    (hwrite : writeAll booleans = .ok bs) (hmarshal : bs.marshal = .error e)
    (type : UInt8) : format.marshalTight dsm type command = .error e := by
  simp [marshalTight, hfirst, hwrite, hmarshal, bind, Except.bind]

/-- The loose frame. -/
theorem marshalLoose_eq (format : OpenWireFormat) {type : UInt8} {chunks : List Bytes}
    (hchunks : looseFrame dsm type command = .ok chunks)
    (hroom : format.sizePrefixDisabled = false →
      ByteArrayOutputStream.FitsBuffer (looseFrame dsm type command)) :
    format.marshalLoose dsm type command =
      .ok (format.sizePrefix (BitVec.ofNat 32 chunks.flatten.length) ++ chunks.flatten) := by
  rw [marshalLoose, hchunks]
  cases hsize : format.sizePrefixDisabled with
  | true => simp [bind, Except.bind]
  | false =>
    have hbuffered := ByteArrayOutputStream.buffered_eq (hroom hsize chunks hchunks)
    simp [bind, Except.bind, hbuffered]

/-- One command. -/
theorem marshal_command (hms : ms.Marshals command back) (hfits : format.Fits ms command) :
    ∃ bytes, format.marshal ms (some command) = .ok bytes ∧ format.Frame bytes ∧
      Decodes (format.unmarshal ms) bytes [] back := by
  obtain ⟨htype, dsm, hdsm, hexact⟩ := hms
  -- the frame behind the size
  obtain ⟨body, hbody, hdecodes⟩ : ∃ body,
      format.marshal ms (some command) =
        .ok (format.sizePrefix (BitVec.ofNat 32 body.length) ++ body) ∧
      Decodes (format.doUnmarshal ms) body [] (some back) := by
    unfold marshal doUnmarshal
    simp only [hdsm]
    cases htight : format.tightEncodingEnabled with
    | true =>
      obtain ⟨booleans, items, hfirst, hsecond, hread⟩ := hexact.tight
      obtain ⟨stream, n, hstream, hmarshal⟩ := marshalTight_eq format hfirst rfl hsecond
        ((hfits dsm hdsm).1 htight _ _ hfirst) (ms.getDataStructureType command)
      refine ⟨_, by rw [hmarshal]; rfl, ?_⟩
      refine (decodes_readByte _).thenItems ?_
      rw [if_neg htype]
      simp only [hdsm]
      exact hstream.thenItems ((decodes_withBooleans (hread trivial _ le_rfl) _).map some)
    | false =>
      obtain ⟨chunks, hchunks, hread⟩ := hexact.loose
      have hframe : looseFrame dsm (ms.getDataStructureType command) command =
          .ok (writeByte (ms.getDataStructureType command) :: chunks) := by
        rw [looseFrame, hchunks]
        rfl
      refine ⟨writeByte (ms.getDataStructureType command) ++ chunks.flatten, ?_, ?_⟩
      · rw [if_neg (by simp), marshalLoose_eq format hframe ((hfits dsm hdsm).2 htight)]
        rfl
      · refine (decodes_readByte _).thenItems ?_
        rw [if_neg htype]
        simp only [hdsm]
        exact (hread _ le_rfl).map some
  exact ⟨_, hbody, frame_sizePrefix format body, decodes_unmarshal hdecodes⟩

/-! ## A stream of commands -/

/-- One command after the other, and as many calls of `unmarshal`. -/
theorem marshal_commands : ∀ {commands backs : List C},
    Forall₂ ms.Marshals commands backs →
    (∀ c ∈ commands, format.Fits ms c) →
    ∃ frames, Forall₂ (fun c bytes => format.marshal ms (some c) = .ok bytes) commands frames ∧
      (∀ bytes ∈ frames, format.Frame bytes) ∧
      ∀ before, Decodes (readLoop (pushItem (format.unmarshal ms)) commands.length before)
        frames.flatten [] (before ++ backs)
  | _, _, .nil, _ => by
    refine ⟨[], .nil, by simp, fun before => ?_⟩
    rw [append_nil]
    exact decodes_pure before
  | command :: commands, back :: backs, .cons hms hrest, hfits => by
    obtain ⟨hhead, htail⟩ := forall_mem_cons.mp hfits
    obtain ⟨bytes, hmarshal, hframe, hread⟩ := marshal_command hms hhead
    obtain ⟨frames, hmarshals, hframes, hreads⟩ := marshal_commands hrest htail
    refine ⟨bytes :: frames, .cons hmarshal hmarshals,
      forall_mem_cons.mpr ⟨hframe, hframes⟩, fun before => ?_⟩
    have hnext := hreads (before ++ [back])
    rw [append_assoc] at hnext
    exact (hread.map (before ++ [·])).thenItems hnext

end OpenWireFormat

/-! ## Generated marshallers -/

section Generated

variable (wire : WireFormat)

/-- The marshaller that the generator makes for a class. -/
def generated (type : UInt8) (cls : ClassDesc) : DataStreamMarshaller DataStructure where
  tightMarshal1
    | .null => .error .nullPointer
    | .object _ levels => tightMarshalObject1 wire cls levels
  tightMarshal2
    | .null => emitExcept (.error .nullPointer)
    | .object _ levels => tightMarshalObject2 wire cls levels
  tightUnmarshal := .object type <$> tightUnmarshalObject wire cls
  looseMarshal
    | .null => .error .nullPointer
    | .object _ levels => looseMarshalObject wire cls levels
  looseUnmarshal := .object type <$> looseUnmarshalObject wire cls

/-- The table that `MarshallerFactory::configure` fills. -/
def generatedMarshallers : Marshallers DataStructure where
  getDataStructureType
    | .null => NULL_TYPE
    | .object type _ => type
  dataMarshallers type := (wire.dataMarshallers type).map (generated wire type)

/-- An object of a registered class, within the limits, whose size is counted right. -/
def Sendable (command : DataStructure) : Prop :=
  ∃ type levels cls, command = .object type levels ∧ type ≠ NULL_TYPE ∧
    wire.dataMarshallers type = some cls ∧ EncodableAs wire 32768 cls levels ∧
    SizeExact wire cls levels

/-- A generated marshaller is exact up to what the wire version shows of an object. -/
theorem marshals_generated {command : DataStructure} (h : Sendable wire command) :
    (generatedMarshallers wire).Marshals command (visible wire command) := by
  obtain ⟨type, levels, cls, rfl, htype, hregistered, hencodable, hsize⟩ := h
  rw [show visible wire (.object type levels) = .object type (visibleObject wire cls levels) by
    rw [visible, DataStructure.fold_object, hregistered]
    rfl]
  have hdsm : (generatedMarshallers wire).dataMarshallers type =
      some (generated wire type cls) := by
    show (wire.dataMarshallers type).map _ = _
    rw [hregistered]
    rfl
  refine ⟨htype, generated wire type cls, hdsm, ?_⟩
  have hlimit : 32768 ≤ 65536 := by omega
  obtain ⟨booleans, bytes, hfirst, hsecond, hread⟩ := twoPass_object wire hlimit hencodable
  obtain ⟨chunks, hchunks, hloose⟩ := readsBack_levels wire hlimit hencodable.1 fun value hvalue =>
    readsBack_nestedObject wire hlimit (hencodable.2 value hvalue)
  obtain ⟨size', booleans', bytes', hfirst', -, hsecond', hcount⟩ := hsize
  -- both speak of the same passes
  obtain ⟨-, rfl⟩ := Prod.mk.inj (Except.ok.inj (hfirst.symm.trans hfirst'))
  have hwritten := hsecond []
  rw [append_nil, hsecond'] at hwritten
  cases hwritten
  have hexact : size' = (bytes.length + 0 : ℕ) := by
    rw [← BitVec.ofInt_toInt (x := size'), hcount]
    exact BitVec.ofInt_natCast ..
  constructor
  · exact ⟨booleans, bytes, by rw [← hexact]; exact hfirst', hsecond,
      fun _ _ _ => (decodes_of_length (hread le_rfl)).map _⟩
  · exact ⟨chunks, hchunks, fun _ _ => (decodes_of_length hloose).map _⟩

/-- **Generated streams.** What `marshal` writes for a list of commands, however deep they nest,
is read back one after the other, as far as the wire version shows them. A tight command has
at most 262136 booleans, a loose one with a size prefix less than `2^30` bytes. -/
theorem generated_stream (format : OpenWireFormat) (commands : List DataStructure)
    (hsendable : ∀ c ∈ commands, Sendable wire c)
    (hfits : ∀ c ∈ commands, format.Fits (generatedMarshallers wire) c) :
    ∃ frames, Forall₂ (fun c bytes => format.marshal (generatedMarshallers wire) (some c) =
        .ok bytes) commands frames ∧
      Decodes (readLoop (pushItem (format.unmarshal (generatedMarshallers wire)))
        commands.length []) frames.flatten [] (commands.map (visible wire)) := by
  have hpaired := forall₂_map_right_iff.mpr (forall₂_same.mpr fun c hc =>
    marshals_generated wire (hsendable c hc))
  obtain ⟨frames, hframes, -, hreads⟩ := marshal_commands hpaired hfits
  exact ⟨frames, hframes, hreads []⟩

end Generated

/-- An object with an `int`, in the tight encoding. -/
theorem generated_stream_int : ∃ frames : List Bytes,
    Decodes (readLoop (pushItem (unmarshal { tightEncodingEnabled := true }
      (generatedMarshallers ⟨1, true, fun _ => some ⟨[[⟨.int, 1, .int 0⟩]], true⟩⟩))) 1 [])
      frames.flatten [] [.object 9 [[.int 7]]] := by
  refine (generated_stream _ { tightEncodingEnabled := true } [.object 9 [[.int 7]]] ?_ ?_).imp
    fun _ h => h.2
  · intro c hc
    obtain rfl := mem_singleton.mp hc
    exact ⟨9, _, _, rfl, by decide, rfl, ⟨.cons (.cons trivial .nil) .nil, nofun⟩,
      _, _, _, rfl, (streamed_iff []).mpr (by decide), rfl, rfl⟩
  · intro c hc dsm hdsm
    obtain rfl := mem_singleton.mp hc
    cases hdsm
    refine ⟨fun _ size booleans hfirst => ?_, nofun⟩
    cases hfirst
    decide

/-! ## The result -/

/-- **Streams of commands.** For every list of commands, every setting and any
marshallers that are exact on them, with at most 262136 booleans for a command in the
tight encoding and less than `2^30` bytes for one in the loose encoding that has a size
prefix: every command is written, as many calls of `unmarshal` give the
commands in order and consume the stream exactly, and with the size prefix on each
prefix is the number of bytes that follow it, up to the greatest number it can hold. -/
theorem marshal_unmarshal {C : Type} (format : OpenWireFormat) (ms : Marshallers C)
    (commands : List C) (hexact : ∀ c ∈ commands, ms.Marshals c c)
    (hfits : ∀ c ∈ commands, format.Fits ms c) :
    ∃ frames,
      Forall₂ (fun c bytes => format.marshal ms (some c) = .ok bytes) commands frames ∧
      Decodes (readLoop (pushItem (format.unmarshal ms)) commands.length []) frames.flatten []
        commands ∧
      (format.sizePrefixDisabled = false → ∀ bytes ∈ frames,
        ∃ size body, bytes = writeInt size ++ body ∧
          (body.length < 2 ^ 31 → size.toInt = body.length)) := by
  have hpaired : Forall₂ ms.Marshals commands commands :=
    forall₂_same.mpr hexact
  obtain ⟨frames, hframes, hsizes, hreads⟩ := marshal_commands hpaired hfits
  exact ⟨frames, hframes, hreads [], fun hsize bytes hbytes => hsizes bytes hbytes hsize⟩

/-- The marshallers of one command that is nothing but `n` booleans. -/
def booleansOnly (n : Nat) : Marshallers Unit where
  getDataStructureType _ := 1
  dataMarshallers _ := some {
    tightMarshal1 := fun _ => .ok (0, replicate n false)
    tightMarshal2 := fun _ flags =>
      if flags.length < n then .error .io else .ok ([], flags.drop n)
    tightUnmarshal := fun input =>
      if input.flags.length < n then .error .io
      else .ok ((), { input with flags := input.flags.drop n })
    looseMarshal := fun _ => .ok [replicate n 0]
    looseUnmarshal := (fun _ => ()) <$> readFully n }

theorem marshals_booleansOnly (n : Nat) : (booleansOnly n).Marshals () () := by
  have htype : 1 ≠ NULL_TYPE := by decide
  refine ⟨htype, _, rfl, ?_, ?_⟩
  · refine ⟨replicate n false, [], rfl, fun more => ?_, fun _ _ _ rest more => ?_⟩
    all_goals
      show (if (replicate n false ++ more).length < n then _ else _) = _
      simp
  · exact readsBack_ok fun _ =>
      (decodes_readFully (replicate n 0) length_replicate).map fun _ => ()

/-- Two commands of three booleans each, in the tight encoding and with sizes. -/
theorem marshal_unmarshal_two : ∃ frames : List Bytes,
    Forall₂ (fun c bytes => marshal { tightEncodingEnabled := true }
      (booleansOnly 3) (some c) = .ok bytes) [(), ()] frames ∧
    Decodes (readLoop (pushItem (unmarshal { tightEncodingEnabled := true }
      (booleansOnly 3))) 2 []) frames.flatten [] [(), ()] ∧
    (false = false → ∀ bytes ∈ frames, ∃ size body, bytes = writeInt size ++ body ∧
      (body.length < 2 ^ 31 → size.toInt = body.length)) := by
  refine marshal_unmarshal { tightEncodingEnabled := true } (booleansOnly 3) [(), ()]
    (fun c _ => marshals_booleansOnly 3) ?_
  intro c _ dsm hdsm
  cases hdsm
  refine ⟨fun _ size booleans hfirst => ?_, nofun⟩
  cases hfirst
  decide

/-- One boolean more than a stream can hold: the last one starts a byte that the counter
of bytes has no room for. -/
theorem marshal_booleansOnly_error {n : Nat} (hn : n = capacity + 1) :
    marshal { tightEncodingEnabled := true } (booleansOnly n) (some ()) =
      .error .io := by
  obtain ⟨bs, hwrite, hholds⟩ := writeAll_holds (replicate capacity false) length_replicate.le
  obtain ⟨bs', hlast⟩ : ∃ bs', bs.writeBoolean false = .ok bs' := ⟨_, rfl⟩
  have hall : writeAll (replicate n false) = .ok bs' := by
    have hsplit : replicate n false =
        replicate capacity false ++ [false] := by
      rw [hn]
      exact replicate_succ'
    rw [BooleanStream.writeAll] at hwrite
    rw [BooleanStream.writeAll, hsplit, foldlM_append, hwrite]
    simp [bind, Except.bind, foldlM_cons, foldlM_nil, hlast, pure, Except.pure]
  have hmarshal := marshal_of_overflow hholds length_replicate hlast
  exact congrArg rethrowIO (marshalTight_error { tightEncodingEnabled := true } rfl hall hmarshal 1)

/-- With 262137 booleans a command cannot be written in the tight encoding, although
its marshaller is exact: the number of bytes of the boolean stream is a short. -/
theorem marshal_too_many_booleans :
    (booleansOnly 262137).Marshals () () ∧
      marshal { tightEncodingEnabled := true } (booleansOnly 262137) (some ()) =
        .error .io :=
  ⟨marshals_booleansOnly 262137, marshal_booleansOnly_error rfl⟩

end ActivemqCpp.Openwire
