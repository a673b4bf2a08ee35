import ActivemqCpp.Openwire.BaseMarshaller

/-!
# `BrokerError` marshalling

A `BrokerError` carries the exception class, the message, the stack trace and the
error that caused it. The stack trace and the cause go over the wire only when the
wire format has stack traces enabled, so what the peer sees is `seenBy`: the whole
error, or its first level without a trace.
-/

namespace ActivemqCpp.Openwire

open Base Decaf

/-- `BrokerError::StackTraceElement`. -/
structure StackTraceElement where
  className : Bytes
  methodName : Bytes
  fileName : Bytes
  lineNumber : BitVec 32
deriving DecidableEq, Repr

/-- `BrokerError` without its cause. -/
structure BrokerError where
  exceptionClass : Bytes
  message : Bytes
  stackTrace : List StackTraceElement
deriving DecidableEq, Repr

/-- A pointer to a `BrokerError`: the error, its cause, the cause of that, and so on;
`[]` is `NULL`. -/
abbrev ErrorChain := List BrokerError

/-! ## Tight -/

def tightElement1 (element : StackTraceElement) : Pass1 :=
  countBoth (tightMarshalString1 element.className)
    (countBoth (tightMarshalString1 element.methodName)
      (countBoth (tightMarshalString1 element.fileName) (.ok (4, []))))

/-- `tightMarshalBrokerError1`. -/
def tightMarshalBrokerError1 (stackTraceEnabled : Bool) : ErrorChain → Pass1
  | [] => countFlag false (.ok (0, []))
  | error :: cause =>
    countFlag true
      (countBoth (tightMarshalString1 error.exceptionClass)
        (countBoth (tightMarshalString1 error.message)
          (if stackTraceEnabled then
            countBoth (.ok (2, []))
              (countBoth (countAll (error.stackTrace.map tightElement1))
                (tightMarshalBrokerError1 stackTraceEnabled cause))
          else .ok (0, []))))

def tightElement2 (element : StackTraceElement) : DataEmitter :=
  emitBoth (tightMarshalString2 element.className)
    (emitBoth (tightMarshalString2 element.methodName)
      (emitBoth (tightMarshalString2 element.fileName)
        (emitItems (writeInt element.lineNumber))))

/-- `(short) error->getStackTraceElements().size()`. -/
def traceLength (error : BrokerError) : BitVec 16 := BitVec.ofNat 16 error.stackTrace.length

/-- `tightMarshalBrokerError2`. -/
def tightMarshalBrokerError2 (stackTraceEnabled : Bool) : ErrorChain → DataEmitter
  | [] => onFlag fun present =>
    -- a present error is dereferenced
    if present then emitExcept (.error .nullPointer) else emitItems []
  | error :: cause => onFlag fun present =>
    if present then
      emitBoth (tightMarshalString2 error.exceptionClass)
        (emitBoth (tightMarshalString2 error.message)
          (if stackTraceEnabled then
            emitBoth (emitItems (writeShort (traceLength error)))
              (emitBoth
                -- the loop runs to the length as it was cast
                (emitAll ((error.stackTrace.take (traceLength error).toInt.toNat).map
                  tightElement2))
                (tightMarshalBrokerError2 stackTraceEnabled cause))
          else emitItems []))
    else emitItems []

def tightUnmarshalElement : DataReader StackTraceElement := do
  let className ← tightUnmarshalString
  let methodName ← tightUnmarshalString
  let fileName ← tightUnmarshalString
  let lineNumber ← readInt
  pure { className, methodName, fileName, lineNumber }

/-- One level of either unmarshaller, with the readers of a string and of an element. -/
def unmarshalError (stackTraceEnabled : Bool) (readPresent : DataReader Bool)
    (readString : DataReader Bytes) (readElement : DataReader StackTraceElement)
    (readCause : DataReader ErrorChain) : DataReader ErrorChain := do
  if ← readPresent then
    let exceptionClass ← readString
    let message ← readString
    if stackTraceEnabled then
      let length ← readShort
      let stackTrace ← readLoop (pushItem readElement) length.toInt.toNat []
      let cause ← readCause
      pure ({ exceptionClass, message, stackTrace } :: cause)
    else pure [{ exceptionClass, message, stackTrace := [] }]
  else pure []

/-- `tightUnmarshalBrokerError`. A level reads two bytes before it reads its cause, so
with as much fuel as there are bytes the last level is never reached. -/
def tightUnmarshalBrokerError (stackTraceEnabled : Bool) : (fuel : Nat) → DataReader ErrorChain
  | 0 => unmarshalError stackTraceEnabled readFlag tightUnmarshalString tightUnmarshalElement
      (throw .eof)
  | fuel + 1 => unmarshalError stackTraceEnabled readFlag tightUnmarshalString
      tightUnmarshalElement (tightUnmarshalBrokerError stackTraceEnabled fuel)

/-! ## Loose -/

def looseElement (element : StackTraceElement) : Written :=
  writeBoth (looseMarshalString element.className)
    (writeBoth (looseMarshalString element.methodName)
      (writeBoth (looseMarshalString element.fileName) (.ok [writeInt element.lineNumber])))

/-- `looseMarshalBrokerError`. -/
def looseMarshalBrokerError (stackTraceEnabled : Bool) : ErrorChain → Written
  | [] => .ok [writeBoolean false]
  | error :: cause =>
    writeBoth (.ok [writeBoolean true])
      (writeBoth (looseMarshalString error.exceptionClass)
        (writeBoth (looseMarshalString error.message)
          (if stackTraceEnabled then
            writeBoth (.ok [writeShort (traceLength error)])
              (writeBoth (writeAll (error.stackTrace.map looseElement))
                (looseMarshalBrokerError stackTraceEnabled cause))
          else .ok [])))

def looseUnmarshalElement : DataReader StackTraceElement := do
  let className ← looseUnmarshalString
  let methodName ← looseUnmarshalString
  let fileName ← looseUnmarshalString
  let lineNumber ← readInt
  pure { className, methodName, fileName, lineNumber }

/-- `looseUnmarshalBrokerError`. -/
def looseUnmarshalBrokerError (stackTraceEnabled : Bool) : (fuel : Nat) → DataReader ErrorChain
  | 0 => unmarshalError stackTraceEnabled readBoolean looseUnmarshalString looseUnmarshalElement
      (throw .eof)
  | fuel + 1 => unmarshalError stackTraceEnabled readBoolean looseUnmarshalString
      looseUnmarshalElement (looseUnmarshalBrokerError stackTraceEnabled fuel)

/-! ## What the peer sees -/

/-- The error as it arrives. -/
def seenBy (stackTraceEnabled : Bool) (chain : ErrorChain) : ErrorChain :=
  if stackTraceEnabled then chain
  else (chain.take 1).map fun error => { error with stackTrace := [] }

/-- Strings of less than `limit` encoded bytes. -/
def StackTraceElement.Fits (limit : Nat) (element : StackTraceElement) : Prop :=
  countUTFLength element.className < limit ∧ countUTFLength element.methodName < limit ∧
    countUTFLength element.fileName < limit

/-- Strings of less than `limit` encoded bytes and a stack trace whose length is a short. -/
def BrokerError.Fits (limit : Nat) (error : BrokerError) : Prop :=
  countUTFLength error.exceptionClass < limit ∧ countUTFLength error.message < limit ∧
    error.stackTrace.length ≤ 32767 ∧ ∀ element ∈ error.stackTrace, element.Fits limit

def StackTraceElement.Every (P : Bytes → Prop) (element : StackTraceElement) : Prop :=
  P element.className ∧ P element.methodName ∧ P element.fileName

def BrokerError.Every (P : Bytes → Prop) (error : BrokerError) : Prop :=
  P error.exceptionClass ∧ P error.message ∧ ∀ element ∈ error.stackTrace, element.Every P

variable {limit : Nat} {ok : Prop} {trace : List StackTraceElement} {element : StackTraceElement}
  {value : Bytes}

theorem twoPass_element (h : element.Every (StringFits ok)) :
    TwoPass ok (tightElement1 element) (tightElement2 element)
      (fun _ => tightUnmarshalElement) 0 element := by
  have hline : TwoPass ok (.ok ((4 : BitVec 32), [])) (emitItems (writeInt element.lineNumber))
      (fun _ => StackTraceElement.mk element.className element.methodName element.fileName <$>
        readInt) 0 element :=
    twoPass_items (by simp [writeInt]) fun _ _ _ => (decodes_readInt _).map _
  exact h.1.twoPass.exactly (h.2.1.twoPass.exactly (h.2.2.twoPass.exactly hline))

theorem twoPass_trace (h : ∀ element ∈ trace, element.Every (StringFits ok)) :
    TwoPass ok (countAll (trace.map tightElement1)) (emitAll (trace.map tightElement2))
      (fun _ => readLoop (pushItem tightUnmarshalElement) trace.length []) 0 trace := by
  have hlist := twoPass_list (fun element he => twoPass_element (h element he)) []
  simpa using hlist

theorem traceLength_toNat {error : BrokerError} (h : error.stackTrace.length ≤ 32767) :
    (traceLength error).toInt.toNat = error.stackTrace.length := by
  rw [traceLength, toInt_ofNat_of_lt (by omega), Int.toNat_natCast]

/-- The unmarshaller as one level over the level below. -/
theorem tightUnmarshalBrokerError_eq (stackTraceEnabled : Bool) :
    tightUnmarshalBrokerError stackTraceEnabled = fun fuel =>
      unmarshalError stackTraceEnabled readFlag tightUnmarshalString tightUnmarshalElement
        (below .eof (tightUnmarshalBrokerError stackTraceEnabled) fuel) := by
  funext fuel
  cases fuel <;> rfl

theorem twoPass_chain (stackTraceEnabled : Bool) : ∀ {chain : ErrorChain},
    (∀ error ∈ chain, error.Every (StringFits ok) ∧ error.stackTrace.length ≤ 32767) →
    TwoPass ok (tightMarshalBrokerError1 stackTraceEnabled chain)
      (tightMarshalBrokerError2 stackTraceEnabled chain)
      (tightUnmarshalBrokerError stackTraceEnabled) 0 (seenBy stackTraceEnabled chain)
  | [] => by
    intro _
    have hseen : seenBy stackTraceEnabled [] = [] := by cases stackTraceEnabled <;> rfl
    rw [hseen, tightUnmarshalBrokerError_eq]
    refine TwoPass.flag ?_
    exact twoPass_flags (emits_items []) fun _ _ => decodes_pure []
  | error :: cause => by
    intro h
    obtain ⟨⟨⟨hclass, hmessage, helements⟩, hlength⟩, hcause⟩ := List.forall_mem_cons.mp h
    rw [tightUnmarshalBrokerError_eq]
    refine TwoPass.flag ?_
    refine hclass.twoPass.exactly (hmessage.twoPass.exactly ?_)
    cases stackTraceEnabled with
    | false => exact twoPass_flags (emits_items []) fun _ _ => decodes_pure _
    | true =>
      refine TwoPass.descend (by simp [writeShort]) (by simp [writeShort, bigEndian])
        (decodes_readShort _) ?_ fun _ => rfl
      rw [traceLength_toNat hlength, List.take_length]
      refine (twoPass_trace helements).exactly ?_
      exact (twoPass_chain true hcause).map (error :: ·)

variable {chain : ErrorChain}

theorem twoPass_brokerError (hlimit : limit ≤ 65536) (stackTraceEnabled : Bool)
    (h : ∀ error ∈ chain, error.Fits limit) :
    TwoPass (limit ≤ 32768) (tightMarshalBrokerError1 stackTraceEnabled chain)
      (tightMarshalBrokerError2 stackTraceEnabled chain)
      (tightUnmarshalBrokerError stackTraceEnabled) 0 (seenBy stackTraceEnabled chain) := by
  have hfits : ∀ {value : Bytes}, countUTFLength value < limit →
      StringFits (limit ≤ 32768) value := by
    intro value hvalue
    refine ⟨by omega, fun hsigned hascii => ?_⟩
    rw [countUTFLength_of_ascii hascii] at hvalue
    omega
  refine twoPass_chain stackTraceEnabled fun error herror => ?_
  obtain ⟨hclass, hmessage, hlength, helements⟩ := h error herror
  refine ⟨⟨hfits hclass, hfits hmessage, fun element helement => ?_⟩, hlength⟩
  obtain ⟨hname, hmethod, hfile⟩ := helements element helement
  exact ⟨hfits hname, hfits hmethod, hfits hfile⟩

/-! The loose encoding has no flags and no count. -/

theorem readsBack_element (hlimit : limit ≤ 65536) (h : element.Fits limit) :
    ReadsBack (looseElement element) (fun _ => looseUnmarshalElement) element := by
  have hline : ReadsBack (.ok [writeInt element.lineNumber])
      (fun _ => StackTraceElement.mk element.className element.methodName element.fileName <$>
        readInt) element :=
    readsBack_ok fun _ => (decodes_readInt _).map _
  obtain ⟨hclass, hmethod, hfile⟩ := h
  refine (readsBack_looseString (by omega)).bind ?_
  refine (readsBack_looseString (by omega)).bind ?_
  exact (readsBack_looseString (by omega)).bind hline

theorem readsBack_trace (hlimit : limit ≤ 65536) (h : ∀ element ∈ trace, element.Fits limit) :
    ReadsBack (writeAll (trace.map looseElement))
      (fun _ => readLoop (pushItem looseUnmarshalElement) trace.length []) trace := by
  have hlist := readsBack_list (fun element he => readsBack_element hlimit (h element he)) []
  simpa using hlist

theorem looseUnmarshalBrokerError_eq (stackTraceEnabled : Bool) :
    looseUnmarshalBrokerError stackTraceEnabled = fun fuel =>
      unmarshalError stackTraceEnabled readBoolean looseUnmarshalString looseUnmarshalElement
        (below .eof (looseUnmarshalBrokerError stackTraceEnabled) fuel) := by
  funext fuel
  cases fuel <;> rfl

theorem readsBack_brokerError (hlimit : limit ≤ 65536) (stackTraceEnabled : Bool) :
    ∀ {chain : ErrorChain}, (∀ error ∈ chain, error.Fits limit) →
    ReadsBack (looseMarshalBrokerError stackTraceEnabled chain)
      (looseUnmarshalBrokerError stackTraceEnabled) (seenBy stackTraceEnabled chain)
  | [] => by
    intro _
    have hseen : seenBy stackTraceEnabled [] = [] := by cases stackTraceEnabled <;> rfl
    rw [hseen, looseUnmarshalBrokerError_eq]
    exact readsBack_ok fun _ => (decodes_readBoolean false).thenItems (decodes_pure [])
  | error :: cause => by
    intro h
    obtain ⟨⟨hclass, hmessage, hlength, helements⟩, hcause⟩ := List.forall_mem_cons.mp h
    rw [looseUnmarshalBrokerError_eq]
    refine (readsBack_ok fun _ => decodes_readBoolean true).bind ?_
    refine (readsBack_looseString (by omega)).bind ?_
    refine (readsBack_looseString (by omega)).bind ?_
    cases stackTraceEnabled with
    | false => exact readsBack_ok fun _ => decodes_pure _
    | true =>
      refine ReadsBack.descend (by simp [writeShort, bigEndian]) (decodes_readShort _) ?_
        fun _ => rfl
      rw [traceLength_toNat hlength]
      refine (readsBack_trace hlimit helements).bind ?_
      exact (readsBack_brokerError hlimit true hcause).map (error :: ·)

/-! ## Errors that come back

The reader takes the flags of the first pass one string after another. -/

variable {size : BitVec 32} {flags more : List Bool} {items : Bytes} {left : Input UInt8}

theorem element_aligned (hfirst : tightElement1 element = .ok (size, flags))
    (hrun : tightUnmarshalElement.run ⟨items, flags ++ more⟩ = .ok (element, left)) :
    left.flags = more ∧ element.Every (StringFits True) := by
  obtain ⟨_, _, _, _, hname₁, hrest₁, rfl⟩ := ok_of_countBoth hfirst
  obtain ⟨_, _, _, _, hmethod₁, hrest₂, rfl⟩ := ok_of_countBoth hrest₁
  obtain ⟨_, _, _, _, hfile₁, hrest₃, rfl⟩ := ok_of_countBoth hrest₂
  cases hrest₃
  obtain ⟨_, ⟨_, _⟩, hname, hrun⟩ := run_of_bind hrun
  obtain ⟨_, ⟨_, _⟩, hmethod, hrun⟩ := run_of_bind hrun
  obtain ⟨_, ⟨_, _⟩, hfile, hrun⟩ := run_of_bind hrun
  obtain ⟨_, ⟨_, _⟩, hline, hrun⟩ := run_of_bind hrun
  cases hrun
  simp only [List.append_assoc] at hname
  obtain ⟨rfl, hname'⟩ := string_aligned hname₁ hname
  obtain ⟨rfl, hmethod'⟩ := string_aligned hmethod₁ hmethod
  obtain ⟨rfl, hfile'⟩ := string_aligned hfile₁ hfile
  exact ⟨((quiet_readFully 4).map _).map _ _ _ _ hline, hname', hmethod', hfile'⟩

theorem trace_aligned {before : List StackTraceElement}
    (hfirst : countAll (trace.map tightElement1) = .ok (size, flags))
    (hrun : (readLoop (pushItem tightUnmarshalElement) trace.length before).run
      ⟨items, flags ++ more⟩ = .ok (before ++ trace, left)) :
    left.flags = more ∧ ∀ element ∈ trace, element.Every (StringFits True) := by
  induction trace generalizing before size flags items with
  | nil =>
    cases hfirst
    obtain ⟨-, rfl⟩ := Prod.mk.inj (Except.ok.inj hrun)
    exact ⟨rfl, by simp⟩
  | cons element trace ih =>
    obtain ⟨_, _, _, _, helement₁, hrest, rfl⟩ := ok_of_countBoth hfirst
    obtain ⟨_, ⟨_, _⟩, hpush, hloop⟩ := run_of_bind hrun
    obtain ⟨element', helement, rfl⟩ := run_of_map hpush
    obtain ⟨more', hmore⟩ := (run_readLoop hloop).1
    obtain ⟨rfl, -⟩ : element' = element ∧ more' = trace := by simpa using hmore
    rw [List.append_assoc] at helement
    obtain ⟨rfl, hevery⟩ := element_aligned helement₁ helement
    have hrest' := ih hrest (by rwa [← List.append_cons] )
    exact ⟨hrest'.1, List.forall_mem_cons.mpr ⟨hevery, hrest'.2⟩⟩

/-- What the peer can read of an error. -/
def BrokerError.Readable (error : BrokerError) : Prop :=
  error.Every (StringFits True) ∧ error.stackTrace.length ≤ 32767

theorem readable_of_run {fuel : Nat}
    (hfirst : tightMarshalBrokerError1 true chain = .ok (size, flags))
    (hrun : (tightUnmarshalBrokerError true fuel).run ⟨items, flags ++ more⟩ = .ok (chain, left)) :
    ∀ error ∈ chain, error.Readable := by
  induction chain generalizing fuel size flags items with
  | nil => simp
  | cons error cause ih =>
    obtain ⟨⟨_, _⟩, hcount, hflag⟩ := ok_of_bind hfirst
    cases hflag
    obtain ⟨_, _, _, _, hclass₁, hrest₁, rfl⟩ := ok_of_countBoth hcount
    obtain ⟨_, _, _, _, hmessage₁, hrest₂, rfl⟩ := ok_of_countBoth hrest₁
    obtain ⟨_, _, _, _, hsize₁, hrest₃, rfl⟩ := ok_of_countBoth hrest₂
    obtain ⟨_, _, _, _, htrace₁, hcause₁, rfl⟩ := ok_of_countBoth hrest₃
    cases hsize₁
    rw [tightUnmarshalBrokerError_eq] at hrun
    obtain ⟨_, _, hpresent, hrun⟩ := run_of_bind hrun
    cases hpresent
    obtain ⟨_, ⟨_, _⟩, hclass, hrun⟩ := run_of_bind hrun
    obtain ⟨_, ⟨_, _⟩, hmessage, hrun⟩ := run_of_bind hrun
    obtain ⟨length, ⟨_, _⟩, hlength, hrun⟩ := run_of_bind hrun
    obtain ⟨trace, ⟨_, _⟩, htrace, hrun⟩ := run_of_bind hrun
    obtain ⟨_, ⟨_, _⟩, hcause, hrun⟩ := run_of_bind hrun
    cases hrun
    simp only [List.append_eq, List.append_assoc] at hclass
    obtain ⟨rfl, hclass'⟩ := string_aligned hclass₁ hclass
    obtain ⟨rfl, hmessage'⟩ := string_aligned hmessage₁ hmessage
    obtain rfl := ((quiet_readFully 2).map _).map _ _ _ _ hlength
    -- the length that was read is that of the trace
    have hsize := (run_readLoop htrace).2
    rw [List.length_nil, Nat.zero_add] at hsize
    rw [← hsize] at htrace
    obtain ⟨rfl, helements⟩ := trace_aligned htrace₁ htrace
    have hlt := length.toInt_lt
    refine List.forall_mem_cons.mpr ⟨⟨⟨hclass', hmessage', helements⟩, by simp only; omega⟩, ?_⟩
    cases fuel with
    | zero => cases hcause
    | succ fuel => exact ih hcause₁ hcause

/-- With stack traces on, the error comes back, tight and loose, its booleans through a stream,
and the tight form has the size that was counted. -/
def ErrorRoundTrips (chain : ErrorChain) : Prop :=
  ∃ size flags, tightMarshalBrokerError1 true chain = .ok (size, flags) ∧
    BooleanStream.Streamed flags ∧
    (∃ bytes, Emits (tightMarshalBrokerError2 true chain) flags bytes ∧
      size.toInt = bytes.length ∧
      Decodes (tightUnmarshalBrokerError true bytes.length) bytes flags chain) ∧
    ∃ chunks, looseMarshalBrokerError true chain = .ok chunks ∧
      Decodes (looseUnmarshalBrokerError true chunks.flatten.length) chunks.flatten [] chain

theorem ErrorRoundTrips.readable (h : ErrorRoundTrips chain) : ∀ error ∈ chain, error.Readable := by
  obtain ⟨size, flags, hfirst, -, ⟨bytes, -, -, hdecodes⟩, -⟩ := h
  exact readable_of_run hfirst (hdecodes [] [])

theorem ErrorRoundTrips.withinLimits (h : ErrorRoundTrips chain) :
    WithinLimits (tightMarshalBrokerError1 true chain) (tightMarshalBrokerError2 true chain) := by
  obtain ⟨size, flags, hfirst, hstreamed, ⟨bytes, hemits, hsize, -⟩, -⟩ := h
  intro _ _ _ hfirst' hemits'
  obtain ⟨-, rfl⟩ := Prod.mk.inj (Except.ok.inj (hfirst.symm.trans hfirst'))
  rw [← hemits.unique hemits']
  have hlt := size.toInt_lt
  exact ⟨(BooleanStream.streamed_iff flags).mp hstreamed, by omega⟩

end ActivemqCpp.Openwire
