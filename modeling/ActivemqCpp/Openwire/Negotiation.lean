import Mathlib.Order.Lattice
import ActivemqCpp.Decaf.Numbers
import ActivemqCpp.Openwire.PrimitiveTypes

/-!
# Negotiation of the wire format

Each side sends the `WireFormatInfo` it would prefer and answers the other's with
`OpenWireFormat::renegotiateWireFormat`.

* What a `WireFormatInfo` offers is a point of a product of chains: versions, flags,
  sizes and durations (`WireFormatInfo.offer`).
* What an `OpenWireFormat` ends up with is the meet of the two offers
  (`renegotiateWireFormat_eq`), whatever its settings were before. So the two sides
  settle on the same point, and it lies below both offers.
-/

namespace ActivemqCpp.Openwire

open Base Decaf

/-! ## Settings -/

/-- What two sides settle on. -/
@[ext]
structure Settings where
  version : Int
  stackTraceEnabled : Bool
  tcpNoDelayEnabled : Bool
  cacheEnabled : Bool
  tightEncodingEnabled : Bool
  sizePrefixDisabled : Bool
  cacheSize : Int
  maxInactivityDuration : Int
  maxInactivityDurationInitialDelay : Int
deriving DecidableEq, Repr

namespace Settings

/-- No setting exceeds the other's: a flag is on only where the other's is. -/
@[mk_iff]
structure AtMost (a b : Settings) : Prop where
  version : a.version ≤ b.version
  stackTraceEnabled : a.stackTraceEnabled ≤ b.stackTraceEnabled
  tcpNoDelayEnabled : a.tcpNoDelayEnabled ≤ b.tcpNoDelayEnabled
  cacheEnabled : a.cacheEnabled ≤ b.cacheEnabled
  tightEncodingEnabled : a.tightEncodingEnabled ≤ b.tightEncodingEnabled
  sizePrefixDisabled : a.sizePrefixDisabled ≤ b.sizePrefixDisabled
  cacheSize : a.cacheSize ≤ b.cacheSize
  maxInactivityDuration : a.maxInactivityDuration ≤ b.maxInactivityDuration
  maxInactivityDurationInitialDelay :
    a.maxInactivityDurationInitialDelay ≤ b.maxInactivityDurationInitialDelay

/-- The lower of each. -/
def meet (a b : Settings) : Settings where
  version := a.version ⊓ b.version
  stackTraceEnabled := a.stackTraceEnabled ⊓ b.stackTraceEnabled
  tcpNoDelayEnabled := a.tcpNoDelayEnabled ⊓ b.tcpNoDelayEnabled
  cacheEnabled := a.cacheEnabled ⊓ b.cacheEnabled
  tightEncodingEnabled := a.tightEncodingEnabled ⊓ b.tightEncodingEnabled
  sizePrefixDisabled := a.sizePrefixDisabled ⊓ b.sizePrefixDisabled
  cacheSize := a.cacheSize ⊓ b.cacheSize
  maxInactivityDuration := a.maxInactivityDuration ⊓ b.maxInactivityDuration
  maxInactivityDurationInitialDelay :=
    a.maxInactivityDurationInitialDelay ⊓ b.maxInactivityDurationInitialDelay

/-- The settings as a point of a product of chains. -/
def toProd (s : Settings) :=
  (s.version, s.stackTraceEnabled, s.tcpNoDelayEnabled, s.cacheEnabled, s.tightEncodingEnabled,
    s.sizePrefixDisabled, s.cacheSize, s.maxInactivityDuration, s.maxInactivityDurationInitialDelay)

theorem atMost_iff_le {a b : Settings} : AtMost a b ↔ a.toProd ≤ b.toProd := by
  simp [atMost_iff, toProd]

instance : PartialOrder Settings where
  le := AtMost
  le_refl _ := atMost_iff_le.mpr le_rfl
  le_trans _ _ _ h h' := atMost_iff_le.mpr ((atMost_iff_le.mp h).trans (atMost_iff_le.mp h'))
  le_antisymm _ _ h h' := by
    have heq := le_antisymm (atMost_iff_le.mp h) (atMost_iff_le.mp h')
    simpa [toProd, Settings.ext_iff] using heq

instance : SemilatticeInf Settings where
  inf := meet
  inf_le_left _ _ := by constructor <;> exact inf_le_left
  inf_le_right _ _ := by constructor <;> exact inf_le_right
  le_inf _ _ _ h h' := atMost_iff_le.mpr (le_inf (atMost_iff_le.mp h) (atMost_iff_le.mp h'))

end Settings

/-! ## `WireFormatInfo` -/

/-- The version and the properties of a `WireFormatInfo`. -/
structure WireFormatInfo where
  version : Int := 5
  properties : StlMap Bytes PrimitiveValueNode := []

/-- `PrimitiveValueConverter::convert<bool>`. -/
def convertBool : PrimitiveValueNode → Except Exn Bool
  | .bool value => .ok value
  | .string value => .ok (parseBoolean value)
  | _ => .error .unsupportedOperation

/-- `PrimitiveValueConverter::convert<int>`: a byte is unsigned, and text that is no
number falls through to the default. -/
def convertInt : PrimitiveValueNode → Except Exn Int
  | .byte value => .ok value.toNat
  | .short value => .ok value.toInt
  | .int value => .ok value.toInt
  | .string value =>
    match parseInt value with
    | .ok n => .ok n
    | .error _ => .error .unsupportedOperation
  | _ => .error .unsupportedOperation

/-- `PrimitiveValueConverter::convert<long long>`. -/
def convertLong : PrimitiveValueNode → Except Exn Int
  | .byte value => .ok value.toNat
  | .short value => .ok value.toInt
  | .int value => .ok value.toInt
  | .long value => .ok value.toInt
  | .string value =>
    match parseLong value with
    | .ok n => .ok n
    | .error _ => .error .unsupportedOperation
  | _ => .error .unsupportedOperation

namespace WireFormatInfo

/-- `properties.getBool(key)` and the like, with every exception caught. -/
def property {α : Type} (convert : PrimitiveValueNode → Except Exn α) (default : α)
    (name : String) (info : WireFormatInfo) : α :=
  match StlMap.find keyLess name.toUTF8.toList info.properties with
  | none => default
  | some node =>
    match convert node with
    | .ok value => value
    | .error _ => default

def isStackTraceEnabled : WireFormatInfo → Bool := property convertBool false "StackTraceEnabled"

def isTcpNoDelayEnabled : WireFormatInfo → Bool := property convertBool false "TcpNoDelayEnabled"

/-- The cache is not supported: it is never offered, whatever the properties say. -/
def isCacheEnabled (_ : WireFormatInfo) : Bool := false

def isTightEncodingEnabled : WireFormatInfo → Bool :=
  property convertBool false "TightEncodingEnabled"

def isSizePrefixDisabled : WireFormatInfo → Bool :=
  property convertBool false "SizePrefixDisabled"

def getCacheSize : WireFormatInfo → Int := property convertInt 0 "CacheSize"

def getMaxInactivityDuration : WireFormatInfo → Int :=
  property convertLong 0 "MaxInactivityDuration"

def getMaxInactivityDurationInitalDelay : WireFormatInfo → Int :=
  property convertLong 0 "MaxInactivityDurationInitalDelay"

/-- What the getters report. -/
def offer (info : WireFormatInfo) : Settings where
  version := info.version
  stackTraceEnabled := info.isStackTraceEnabled
  tcpNoDelayEnabled := info.isTcpNoDelayEnabled
  cacheEnabled := info.isCacheEnabled
  tightEncodingEnabled := info.isTightEncodingEnabled
  sizePrefixDisabled := info.isSizePrefixDisabled
  cacheSize := info.getCacheSize
  maxInactivityDuration := info.getMaxInactivityDuration
  maxInactivityDurationInitialDelay := info.getMaxInactivityDurationInitalDelay

end WireFormatInfo

/-! ## `OpenWireFormat` -/

def DEFAULT_VERSION : Int := 1

def MAX_SUPPORTED_VERSION : Int := 11

/-- The settings of an `OpenWireFormat`, as its constructor leaves them, and what it
prefers. -/
structure OpenWireFormat extends Settings where
  version := DEFAULT_VERSION
  stackTraceEnabled := true
  tcpNoDelayEnabled := true
  cacheEnabled := true
  tightEncodingEnabled := false
  sizePrefixDisabled := false
  cacheSize := 1024
  maxInactivityDuration := 30000
  maxInactivityDurationInitialDelay := 10000
  preferedWireFormatInfo : Option WireFormatInfo := none

namespace OpenWireFormat

/-- `Math::min`. -/
def mathMin (a b : Int) : Int := if a ≤ b then a else b

/-- `std::min`. -/
def stdMin (a b : Int) : Int := if b < a then b else a

theorem mathMin_eq (a b : Int) : mathMin a b = a ⊓ b := by
  unfold mathMin
  split
  · next h => exact (inf_eq_left.mpr h).symm
  · next h => exact (inf_eq_right.mpr (le_of_not_ge h)).symm

theorem stdMin_eq (a b : Int) : stdMin a b = a ⊓ b := by
  unfold stdMin
  split
  · next h => exact (inf_eq_right.mpr h.le).symm
  · next h => exact (inf_eq_left.mpr (le_of_not_gt h)).symm

/-- `setVersion`. -/
def setVersion (version : Int) (format : OpenWireFormat) : Except Exn OpenWireFormat :=
  if version = format.version then .ok format
  else if version > MAX_SUPPORTED_VERSION then .error .illegalArgument
  else .ok { format with version }

/-- `renegotiateWireFormat`. -/
def renegotiateWireFormat (info : WireFormatInfo) (format : OpenWireFormat) :
    Except Exn OpenWireFormat :=
  match format.preferedWireFormatInfo with
  | none => .error .illegalState
  | some prefered => do
    let format ← format.setVersion (mathMin prefered.version info.version)
    .ok { format with
      stackTraceEnabled := info.isStackTraceEnabled && prefered.isStackTraceEnabled
      tcpNoDelayEnabled := info.isTcpNoDelayEnabled && prefered.isTcpNoDelayEnabled
      cacheEnabled := info.isCacheEnabled && prefered.isCacheEnabled
      tightEncodingEnabled := info.isTightEncodingEnabled && prefered.isTightEncodingEnabled
      sizePrefixDisabled := info.isSizePrefixDisabled && prefered.isSizePrefixDisabled
      cacheSize := stdMin info.getCacheSize prefered.getCacheSize
      maxInactivityDuration :=
        stdMin info.getMaxInactivityDuration prefered.getMaxInactivityDuration
      maxInactivityDurationInitialDelay :=
        stdMin info.getMaxInactivityDurationInitalDelay
          prefered.getMaxInactivityDurationInitalDelay }

/-- A supported version is set, whether it is new or not. -/
theorem setVersion_eq {version : Int} (format : OpenWireFormat)
    (h : version ≤ MAX_SUPPORTED_VERSION) :
    format.setVersion version = .ok { format with version } := by
  unfold setVersion
  split
  · next heq => rw [heq]
  · rw [if_neg (by omega)]

/-- The settings before do not matter: what is left is the meet of the two offers. -/
theorem renegotiateWireFormat_eq {format : OpenWireFormat} {prefered : WireFormatInfo}
    (info : WireFormatInfo) (hprefered : format.preferedWireFormatInfo = some prefered)
    (hversion : prefered.version ⊓ info.version ≤ MAX_SUPPORTED_VERSION) :
    format.renegotiateWireFormat info =
      .ok { format with toSettings := prefered.offer ⊓ info.offer } := by
  have hset := setVersion_eq format hversion
  rw [renegotiateWireFormat, hprefered]
  dsimp only
  rw [mathMin_eq, hset]
  show Except.ok _ = Except.ok _
  congr 2
  -- the version is the one setting with the preferred side first
  rw [inf_comm prefered.offer]
  apply Settings.ext <;> try rfl
  · exact inf_comm _ _
  · exact stdMin_eq _ _
  · exact stdMin_eq _ _
  · exact stdMin_eq _ _

end OpenWireFormat

/-- **Agreement.** Two peers that prefer `a` and `b`, whatever their settings, and are
sent each other's choice: both succeed, with the same settings, and none of them
exceeds what either side offered. -/
theorem renegotiate_agree (client server : OpenWireFormat) (a b : WireFormatInfo)
    (hclient : client.preferedWireFormatInfo = some a)
    (hserver : server.preferedWireFormatInfo = some b)
    (ha : a.version ≤ MAX_SUPPORTED_VERSION) (hb : b.version ≤ MAX_SUPPORTED_VERSION) :
    ∃ client' server', client.renegotiateWireFormat b = .ok client' ∧
      server.renegotiateWireFormat a = .ok server' ∧
      client'.toSettings = server'.toSettings ∧
      client'.toSettings ≤ a.offer ∧ client'.toSettings ≤ b.offer := by
  have hab := OpenWireFormat.renegotiateWireFormat_eq b hclient (inf_le_left.trans ha)
  have hba := OpenWireFormat.renegotiateWireFormat_eq a hserver (inf_le_left.trans hb)
  refine ⟨_, _, hab, hba, ?_, ?_, ?_⟩
  · exact inf_comm _ _
  · exact inf_le_left
  · exact inf_le_right

/-- A client that prefers version 9 against a broker of version 11. -/
theorem renegotiate_agree_sample :
    ∃ client' server' : OpenWireFormat,
      OpenWireFormat.renegotiateWireFormat ⟨11, []⟩ { preferedWireFormatInfo := some ⟨9, []⟩ } =
        .ok client' ∧
      OpenWireFormat.renegotiateWireFormat ⟨9, []⟩ { preferedWireFormatInfo := some ⟨11, []⟩ } =
        .ok server' ∧
      client'.toSettings = server'.toSettings ∧
      client'.toSettings ≤ (WireFormatInfo.mk 9 []).offer ∧
      client'.toSettings ≤ (WireFormatInfo.mk 11 []).offer :=
  renegotiate_agree { preferedWireFormatInfo := some ⟨9, []⟩ }
    { preferedWireFormatInfo := some ⟨11, []⟩ } ⟨9, []⟩ ⟨11, []⟩ rfl rfl (by decide) (by decide)

end ActivemqCpp.Openwire
