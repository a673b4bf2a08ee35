import ActivemqCpp.Decaf.ByteArrayStreams

/-!
# `MarshallingSupport`: strings and their modified UTF-8

The same encoding as that of `writeUTF` and `readUTF`, between strings in memory. The encoder
counts the bytes it needs in an `int`; its own check of the count can never fail, so an
encoding of `2^31` bytes or more is refused only as far as `std::string` refuses the length.
-/

namespace ActivemqCpp.Util

open Base Decaf List

/-- `asciiToModifiedUtf8`. -/
def asciiToModifiedUtf8 (asciiString : Bytes) : Except OutFault Bytes :=
  if asciiString.length > 0 then
    let utfLength := wrap 32 (countUTFLength asciiString)
    if utfLength > 2 ^ 31 - 1 then .error (.thrown .utfDataFormat)
    -- a `std::string` of this length does not exist
    else if utfLength < 0 then .error (.thrown .utfDataFormat)
    -- the bytes land behind the string
    else if utfLength < countUTFLength asciiString then .error .broken
    else .ok (asciiString.flatMap utfBytes)
  else .ok []

/-- `modifiedUtf8ToAscii`; its loop is that of `readUTF`. -/
def modifiedUtf8ToAscii (modifiedUtf8String : Bytes) : Except Exn Bytes :=
  if modifiedUtf8String.length = 0 then .ok [] else decodeUTF modifiedUtf8String

theorem modifiedUtf8ToAscii_eq (b : Bytes) : modifiedUtf8ToAscii b = decodeUTF b := by
  unfold modifiedUtf8ToAscii
  split
  · next hnil => rw [eq_nil_of_length_eq_zero hnil, decodeUTF]
  · rfl

/-- The encoder returns the bytes of the characters, or does not return. -/
theorem asciiToModifiedUtf8_eq_ok {s utf : Bytes} :
    asciiToModifiedUtf8 s = .ok utf ↔ countUTFLength s < 2 ^ 31 ∧ s.flatMap utfBytes = utf := by
  have hfits := wrap_fits (w := 32) (by decide) (countUTFLength s)
  unfold asciiToModifiedUtf8
  split
  · dsimp only
    split_ifs with hmax hneg hshort
    · omega
    · refine ⟨nofun, fun h => absurd hneg ?_⟩
      rw [wrap_of_bounds]
      omega
    · refine ⟨nofun, fun h => absurd hshort ?_⟩
      rw [wrap_of_bounds]
      omega
    · exact ⟨fun h => ⟨by omega, Except.ok.inj h⟩, fun h => congrArg _ h.2⟩
  · next hnil =>
    rw [eq_nil_of_length_eq_zero (not_lt.mp hnil |> Nat.le_zero.mp)]
    exact ⟨fun h => ⟨by decide, Except.ok.inj h⟩, fun h => congrArg _ h.2⟩

/-- **One encoding.** A string whose encoding stays below 2^31 bytes, and no other, comes back
from the encoding in memory; one that `writeUTF` takes comes back through `readUTF`; and on
any bytes the two decoders agree. -/
theorem modifiedUtf8_agree (s b rest : Bytes) :
    ((∃ utf, asciiToModifiedUtf8 s = .ok utf ∧ modifiedUtf8ToAscii utf = .ok s) ↔
      countUTFLength s < 2 ^ 31) ∧
    (countUTFLength s ≤ 65535 → ∃ bytes, writeUTF s = .ok bytes ∧
      readUTF.run ⟨bytes ++ rest, []⟩ = .ok (s, ⟨rest, []⟩)) ∧
    (b.length ≤ 65535 →
      readUTF.run ⟨writeShort (BitVec.ofNat 16 b.length) ++ (b ++ rest), []⟩ =
        (modifiedUtf8ToAscii b).map (·, ⟨rest, []⟩)) := by
  refine ⟨⟨?_, ?_⟩, ?_, ?_⟩
  · rintro ⟨utf, hutf, -⟩
    exact (asciiToModifiedUtf8_eq_ok.mp hutf).1
  · intro hlt
    refine ⟨_, asciiToModifiedUtf8_eq_ok.mpr ⟨hlt, rfl⟩, ?_⟩
    rw [modifiedUtf8ToAscii_eq, decodeUTF_flatMap]
  · intro hle
    obtain ⟨bytes, hbytes⟩ := writeUTF_of_count_lt (Nat.lt_succ_of_le hle)
    exact ⟨bytes, hbytes, decodes_readUTF hbytes rest []⟩
  · intro hle
    rw [modifiedUtf8ToAscii_eq]
    exact run_readUTF hle rest []

/-- Two texts with a NUL and a byte above 127, and a truncated two-byte form. -/
theorem modifiedUtf8_agree_two_byte :
    (∃ utf, asciiToModifiedUtf8 [0, 255] = .ok utf ∧ modifiedUtf8ToAscii utf = .ok [0, 255]) ∧
    (∃ bytes, writeUTF [0, 255] = .ok bytes ∧
      readUTF.run ⟨bytes ++ [7], []⟩ = .ok ([0, 255], ⟨[7], []⟩)) ∧
    readUTF.run ⟨[0, 1, 0xC3, 7], []⟩ = .error .utfDataFormat := by
  obtain ⟨hmemory, hstream, hdecoders⟩ := modifiedUtf8_agree [0, 255] [0xC3] [7]
  exact ⟨hmemory.mpr (by decide), hstream (by decide), hdecoders (by decide)⟩

theorem countUTFLength_nuls (n : Nat) : countUTFLength (replicate n 0) = n * 2 := by
  simp [countUTFLength]

/-- The encoding of 2^30 NUL characters takes 2^31 bytes. -/
theorem modifiedUtf8_too_long : ¬ ∃ utf, asciiToModifiedUtf8 (replicate (2 ^ 30) 0) = .ok utf := by
  rintro ⟨utf, hutf⟩
  have hlt := (asciiToModifiedUtf8_eq_ok.mp hutf).1
  rw [countUTFLength_nuls] at hlt
  omega

end ActivemqCpp.Util
