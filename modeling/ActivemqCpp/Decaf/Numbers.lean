import Mathlib.Data.Nat.Digits.Lemmas
import ActivemqCpp.Base.Decimal
import ActivemqCpp.Decaf.StringUtils

/-!
# Numbers and truth values as text

`Integer::parseInt` and `Long::parseLong` share one loop, written out twice in the
source for the two widths. It builds the number below zero, where there is room for
the least value, and tells an overflow by the sign of what wrapped around.

That test is exact in every radix (`parseDigits_eq`): the loop accepts the digits of
the numbers that fit, and no others.
-/

namespace ActivemqCpp.Decaf

open Base

/-- `Character::digit`; `none` is `-1`. -/
def digit (c : UInt8) (radix : Nat) : Option Nat :=
  let result : Option Nat :=
    if 48 ≤ c ∧ c ≤ 57 then some (c.toNat - 48)
    else if 97 ≤ c ∧ c ≤ 122 then some (c.toNat - 87)
    else if 65 ≤ c ∧ c ≤ 90 then some (c.toNat - 55)
    else none
  result.filter (· < radix)

/-- What a `w`-bit signed variable holds of a value. -/
def wrap (w : Nat) (value : Int) : Int := value.bmod (2 ^ w)

/-- The loop of `parse`. -/
def parseDigits (w radix : Nat) : Bytes → (result : Int) → Except Exn Int
  | [], result => .ok result
  | c :: rest, result =>
    match digit c radix with
    | none => .error .numberFormat
    | some d =>
      if Int.tdiv (-2 ^ (w - 1)) radix > result then .error .numberFormat
      else
        let next := wrap w (result * radix - d)
        if next > result then .error .numberFormat else parseDigits w radix rest next

/-- `parse` behind the sign. -/
def parse (w radix : Nat) (digits : Bytes) (negative : Bool) : Except Exn Int :=
  match parseDigits w radix digits 0 with
  | .error e => .error e
  | .ok result =>
    if negative then .ok result
    else if wrap w (-result) < 0 then .error .numberFormat
    else .ok (wrap w (-result))

/-- How the sign is treated. -/
def signed (f : Bytes → (negative : Bool) → Except Exn Int) (value : Bytes) : Except Exn Int :=
  match value with
  | [] => .error .numberFormat
  | c :: rest =>
    if c = minusByte then
      -- only a minus sign
      if rest = [] then .error .numberFormat else f rest true
    else f value false

/-- `parseInt` and `parseLong` in any radix. -/
def parseInRadix (w : Nat) (value : Bytes) (radix : Int) : Except Exn Int :=
  if radix < 2 ∨ radix > 36 then .error .numberFormat else signed (parse w radix.toNat) value

/-- `parseInt` and `parseLong` in radix 10. -/
def parseNumber (w : Nat) (value : Bytes) : Except Exn Int := parseInRadix w value 10

/-- `Integer::parseInt`. -/
def parseInt (value : Bytes) : Except Exn Int := parseNumber 32 value

/-- `Long::parseLong`. -/
def parseLong (value : Bytes) : Except Exn Int := parseNumber 64 value

/-- The character of a digit in `toString`. -/
def digitChar (ch : Nat) : UInt8 := UInt8.ofNat (if ch > 9 then ch - 10 + 97 else ch + 48)

/-- The loop of `toString`, on a number that is not positive. It fills the buffer from the end;
`count` comes from the same divisions. -/
def toStringLoop (radix : Nat) (j : Int) (buffer : Bytes) : Bytes :=
  let buffer := digitChar (0 - j.tmod radix).toNat :: buffer
  if j.tdiv radix = 0 ∨ radix < 2 then buffer else toStringLoop radix (j.tdiv radix) buffer
termination_by j.natAbs
decreasing_by
  rename_i h
  rw [not_or] at h
  rw [Int.natAbs_tdiv, Int.natAbs_natCast]
  refine Nat.div_lt_self (Int.natAbs_pos.mpr ?_) (by omega)
  rintro rfl
  simp at h

/-- `Integer::toString` and `Long::toString`. -/
def toStringInRadix (value radix : Int) : Bytes :=
  let radix := if radix < 2 ∨ radix > 36 then 10 else radix.toNat
  if value = 0 then [48]
  else if value < 0 then minusByte :: toStringLoop radix value []
  else toStringLoop radix (-value) []

/-- `Boolean::parseBoolean`. -/
def parseBoolean (value : Bytes) : Bool :=
  StringUtils.compareIgnoreCase value [116, 114, 117, 101] = 0

/-! ## The numbers that texts denote -/

/-- The number that a text of digits of the radix denotes behind digits that denote `n`. -/
def denoted (radix : Nat) (text : Bytes) (n : Nat) : Option Nat :=
  numeral (digit · radix) radix text n

theorem denoted_cons (radix : Nat) (c : UInt8) (rest : Bytes) (n : Nat) :
    denoted radix (c :: rest) n =
      (digit c radix).bind fun d => denoted radix rest (n * radix + d) := rfl

variable {radix : Nat}

theorem digit_lt {c : UInt8} {d : Nat} (h : digit c radix = some d) : d < radix := by
  simpa using (Option.filter_eq_some_iff.mp h).2

theorem le_of_denoted {n m : Nat} (hr : 0 < radix) {text : Bytes}
    (h : denoted radix text n = some m) : n ≤ m := by
  induction text generalizing n with
  | nil => exact (Option.some.inj h).le
  | cons c rest ih =>
    obtain ⟨d, -, hrest⟩ := Option.bind_eq_some_iff.mp h
    have hle := ih hrest
    have hmul := Nat.le_mul_of_pos_right n hr
    omega

variable {w : Nat} {v : Int} {s : Bytes}

theorem wrap_of_bounds {value : Int} (hlo : -2 ^ (w - 1) ≤ value := by omega)
    (hhi : value < 2 ^ (w - 1) := by omega) (hw : 0 < w := by omega) : wrap w value = value := by
  obtain ⟨k, rfl⟩ : ∃ k, w = k + 1 := ⟨w - 1, by omega⟩
  rw [Nat.add_sub_cancel] at hlo hhi
  refine Int.bmod_eq_of_le ?_ ?_ <;> push_cast [pow_succ] <;> omega

theorem wrap_fits (hw : 0 < w) (value : Int) :
    -2 ^ (w - 1) ≤ wrap w value ∧ wrap w value < 2 ^ (w - 1) := by
  obtain ⟨k, rfl⟩ : ∃ k, w = k + 1 := ⟨w - 1, by omega⟩
  have hlo := Int.le_bmod (x := value) (Nat.two_pow_pos (k + 1))
  have hhi := Int.bmod_lt (x := value) (Nat.two_pow_pos (k + 1))
  push_cast [pow_succ] at hlo hhi
  rw [wrap, Nat.add_sub_cancel, pow_succ]
  omega

theorem wrap_add (hw : 0 < w) (value : Int) : wrap w (value + 2 ^ (w - 1) * 2) = wrap w value := by
  rw [← pow_succ, Nat.sub_add_cancel hw]
  simpa [wrap] using Int.add_bmod_right value (2 ^ w)

/-- An overflow by less than the whole range shows as the wrong sign. -/
theorem wrap_of_overflow {value : Int} (hw : 0 < w) (hhi : value < -2 ^ (w - 1))
    (hlo : -2 ^ (w - 1) * 2 ≤ value) : 0 ≤ wrap w value := by
  rw [← wrap_add hw, wrap_of_bounds]
  omega

/-- `v` is the number of `w` bits that one or more digits denote behind a sign or none. -/
def Denotes (w radix : Nat) (negative : Bool) (digits : Bytes) (v : Int) : Prop :=
  digits ≠ [] ∧ ∃ n : Nat, denoted radix digits 0 = some n ∧
    v = (if negative then -(n : Int) else n) ∧ -2 ^ (w - 1) ≤ v ∧ v < 2 ^ (w - 1)

theorem signed_iff {f : Bytes → Bool → Except Exn Int}
    {P : Bool → Bytes → Prop} (hnil : ∀ b, ¬ P b [])
    (hminus : ∀ rest, ¬ P false (minusByte :: rest))
    (hf : ∀ text, text ≠ [] → ∀ b, f text b = .ok v ↔ P b text) :
    signed f s = .ok v ↔ P false s ∨ ∃ rest, s = minusByte :: rest ∧ P true rest := by
  cases s with
  | nil => simp [signed, hnil]
  | cons c rest =>
    rw [signed]
    by_cases hc : c = minusByte
    · subst hc
      by_cases hrest : rest = []
      · simp [hrest, hminus, hnil]
      · simp [hrest, hminus, hf rest hrest]
    · simp [hc, hf _ (List.cons_ne_nil c rest)]

section Parse

variable {radix : Nat} (hw : 6 < w) (hlo : 2 ≤ radix) (hhi : radix ≤ 36)
include hw hlo hhi

/-- The loop takes in the digits of a number that fits, and stops at any other. -/
theorem parseDigits_eq (text : Bytes) {n : Nat} (hn : n ≤ 2 ^ (w - 1)) :
    parseDigits w radix text (-n) = .ok v ↔
      ∃ m, denoted radix text n = some m ∧ m ≤ 2 ^ (w - 1) ∧ v = -m := by
  have hfits : 2 ^ 6 ≤ 2 ^ (w - 1) := Nat.pow_le_pow_right (by decide) (by omega)
  induction text generalizing n with
  | nil => simp [parseDigits, denoted, numeral, hn, eq_comm]
  | cons c rest ih =>
    rw [parseDigits, denoted_cons]
    cases hd : digit c radix with
    | none => simp
    | some d =>
      have hlt := digit_lt hd
      have hle := Nat.le_mul_of_pos_right n (by omega : 0 < radix)
      have hpow : ((2 ^ (w - 1) : Nat) : Int) = 2 ^ (w - 1) := by push_cast; rfl
      have hmax : Int.tdiv (-2 ^ (w - 1)) radix > -n ↔ 2 ^ (w - 1) < n * radix := by
        rw [Int.neg_tdiv, Int.tdiv_eq_ediv_of_nonneg (by positivity), ← hpow, gt_iff_lt,
          ← Nat.div_lt_iff_lt_mul (by omega)]
        omega
      have hnext : -(n : Int) * radix - d = -(n * radix + d : Nat) := by push_cast; ring
      dsimp only [Option.bind_some]
      rw [hnext]
      by_cases hsum : n * radix + d ≤ 2 ^ (w - 1)
      · rw [if_neg (by rw [hmax]; omega), wrap_of_bounds, if_neg (by omega)]
        exact ih hsum
      · -- the next number does not fit: it is refused, or it comes out as not negative
        have hrefused {x : Except Exn Int} : (if Int.tdiv (-2 ^ (w - 1)) radix > -n then
            .error .numberFormat else if wrap w (-(n * radix + d : Nat)) > -n then
            .error .numberFormat else x) = .error .numberFormat := by
          split
          · rfl
          · next hsmall =>
            rw [hmax] at hsmall
            have hsign : 0 ≤ wrap w (-(n * radix + d : Nat)) :=
              wrap_of_overflow (by omega) (by omega) (by omega)
            have hpos : 0 < n := by
              refine Nat.pos_of_ne_zero fun hzero => ?_
              rw [hzero] at hsum
              omega
            rw [if_pos (by omega)]
        rw [hrefused]
        refine iff_of_false (by simp) ?_
        rintro ⟨m, hm, hmle, -⟩
        have := le_of_denoted (by omega) hm
        omega

theorem parse_eq {digits : Bytes} {negative : Bool} (hne : digits ≠ []) :
    parse w radix digits negative = .ok v ↔ Denotes w radix negative digits v := by
  have hloop {v : Int} := parseDigits_eq (v := v) hw hlo hhi digits (Nat.zero_le _)
  have hpow : ((2 ^ (w - 1) : Nat) : Int) = 2 ^ (w - 1) := by push_cast; rfl
  have hpos : 0 < 2 ^ (w - 1) := Nat.two_pow_pos _
  rw [Nat.cast_zero, neg_zero] at hloop
  unfold parse Denotes
  rw [and_iff_right hne]
  cases h : parseDigits w radix digits 0 with
  | error e =>
    refine iff_of_false (by simp) ?_
    rintro ⟨n, hn, rfl, hrange⟩
    have hok := hloop.mpr ⟨n, hn, by split at hrange <;> omega, rfl⟩
    rw [h] at hok
    cases hok
  | ok result =>
    obtain ⟨n, hn, hle, rfl⟩ := hloop.mp h
    rw [hn]
    cases negative with
    | true =>
      simp only [if_true, Except.ok.injEq, Option.some.injEq, exists_eq_left']
      omega
    | false =>
      simp only [neg_neg, Bool.false_eq_true, if_false, Option.some.injEq, exists_eq_left']
      rcases hle.lt_or_eq with hlt | hlast
      · rw [wrap_of_bounds, if_neg (by omega), Except.ok.injEq]
        omega
      · -- the least number has no positive counterpart
        have hwrap : wrap w n = -2 ^ (w - 1) := by
          rw [show (n : Int) = -2 ^ (w - 1) + 2 ^ (w - 1) * 2 by omega, wrap_add (by omega),
            wrap_of_bounds]
        rw [hwrap]
        refine iff_of_false (by simp) ?_
        omega

theorem signed_parse_iff : signed (parse w radix) s = .ok v ↔
    Denotes w radix false s v ∨ ∃ rest, s = minusByte :: rest ∧ Denotes w radix true rest v := by
  refine signed_iff (P := fun b text => Denotes w radix b text v) (fun b h => h.1 rfl) ?_
    (fun text hne b => parse_eq hw hlo hhi hne)
  rintro rest ⟨-, n, hn, -⟩
  cases hn

end Parse

/-! ## Texts that are read back -/

theorem digit_digitChar {d : Nat} (hd : d < radix) (hr : radix ≤ 36) :
    digit (digitChar d) radix = some d := by
  have hall : ∀ d : Fin 36, digit (digitChar d) 36 = some d.val := by decide
  exact Option.filter_eq_some_iff.mpr
    ⟨(Option.filter_eq_some_iff.mp (hall ⟨d, by omega⟩)).1, by simpa using hd⟩

theorem toStringLoop_neg (hr : 2 ≤ radix) (m : Nat) (buffer : Bytes) :
    toStringLoop radix (-m) buffer = if m / radix = 0 then digitChar (m % radix) :: buffer
      else toStringLoop radix (-(m / radix : Nat)) (digitChar (m % radix) :: buffer) := by
  rw [toStringLoop]
  have hmod : (0 - (-(m : Int)).tmod radix).toNat = m % radix := by
    rw [Int.neg_tmod, zero_sub, neg_neg]
    rfl
  have hdiv : (-(m : Int)).tdiv radix = -(m / radix : Nat) := by
    rw [Int.neg_tdiv]
    rfl
  rw [hmod, hdiv]
  simp only [neg_eq_zero, Nat.cast_eq_zero, show ¬ radix < 2 by omega, or_false]

theorem denoted_toStringLoop (hlo : 2 ≤ radix) (hhi : radix ≤ 36) (m : Nat) (buffer : Bytes) :
    denoted radix (toStringLoop radix (-m) buffer) 0 = denoted radix buffer m := by
  induction m using Nat.strong_induction_on generalizing buffer with
  | _ m ih =>
    have hdigit := digit_digitChar (Nat.mod_lt m (by omega)) hhi
    have hstep n : denoted radix (digitChar (m % radix) :: buffer) n =
        denoted radix buffer (n * radix + m % radix) := by
      rw [denoted_cons, hdigit]
      rfl
    rw [toStringLoop_neg hlo]
    split
    · next hzero =>
      rw [hstep, ← hzero, Nat.div_add_mod']
    · next hne =>
      rw [ih _ (Nat.div_lt_self (Nat.pos_of_ne_zero fun h => hne (by simp [h])) hlo), hstep,
        Nat.div_add_mod']

theorem denotes_toStringLoop (hlo : 2 ≤ radix) (hhi : radix ≤ 36) {m : Nat}
    (hm : m ≠ 0) {negative : Bool} (hv : v = if negative then -(m : Int) else m)
    (hmin : -2 ^ (w - 1) ≤ v) (hmax : v < 2 ^ (w - 1)) :
    Denotes w radix negative (toStringLoop radix (-m) []) v := by
  have hdenoted := denoted_toStringLoop hlo hhi m []
  refine ⟨fun hnil => hm ?_, m, hdenoted, hv, hmin, hmax⟩
  rw [hnil] at hdenoted
  exact (Option.some.inj hdenoted).symm

/-- In every radix a number is read back from its text, and the texts that are read are those
of the numbers that fit. -/
theorem parse_toString_radix (hw : w = 32 ∨ w = 64) {radix : Nat} (hlo : 2 ≤ radix)
    (hhi : radix ≤ 36) :
    (∀ v, -2 ^ (w - 1) ≤ v → v < 2 ^ (w - 1) →
      parseInRadix w (toStringInRadix v radix) radix = .ok v) ∧
    ∀ s v, parseInRadix w s radix = .ok v ↔ Denotes w radix false s v ∨
      ∃ digits, s = minusByte :: digits ∧ Denotes w radix true digits v := by
  have hparse s : parseInRadix w s radix = signed (parse w radix) s := by
    rw [parseInRadix, if_neg (by omega)]
    rfl
  refine ⟨fun v hmin hmax => ?_, fun s v => ?_⟩
  · have hradix : (if (radix : Int) < 2 ∨ (radix : Int) > 36 then 10 else (radix : Int).toNat) =
        radix := by
      rw [if_neg (by omega), Int.toNat_natCast]
    rw [hparse, signed_parse_iff (by omega) hlo hhi]
    simp only [toStringInRadix, hradix]
    split
    · next hzero =>
      subst hzero
      have hdigit : digit 48 radix = some 0 := digit_digitChar (d := 0) (by omega) hhi
      exact .inl ⟨by simp, 0, by simp [hdigit, denoted, numeral], rfl, hmin, hmax⟩
    · split
      · next hneg =>
        obtain ⟨m, hm⟩ := Int.eq_ofNat_of_zero_le (show 0 ≤ -v by omega)
        refine .inr ⟨_, rfl, ?_⟩
        rw [show v = -m by omega]
        exact denotes_toStringLoop hlo hhi (by omega) rfl (by omega) (by omega)
      · obtain ⟨m, rfl⟩ := Int.eq_ofNat_of_zero_le (show 0 ≤ v by omega)
        exact .inl (denotes_toStringLoop hlo hhi (by omega) rfl hmin hmax)
  · rw [hparse]
    exact signed_parse_iff (by omega) hlo hhi

theorem parse_toString_hex : parseInRadix 32 (toStringInRadix (-255) 16) 16 = .ok (-255) :=
  (parse_toString_radix (.inl rfl) (by decide) (by decide)).1 (-255) (by decide) (by decide)

theorem denoted_decimalNat (n : Nat) : denoted 10 (decimalNat n) 0 = some n :=
  numeral_decimalNat _ (by decide) n

section ParseNumber

variable (hw : 6 < w)
include hw

theorem parseNumber_iff : parseNumber w s = .ok v ↔
    Denotes w 10 false s v ∨ ∃ rest, s = minusByte :: rest ∧ Denotes w 10 true rest v := by
  rw [← signed_parse_iff hw (by decide) (by decide)]
  rfl

/-- What is read fits into the width. -/
theorem parseNumber_fits {value : Bytes} {n : Int} (h : parseNumber w value = .ok n) :
    -2 ^ (w - 1) ≤ n ∧ n < 2 ^ (w - 1) := by
  rcases (parseNumber_iff hw).mp h with ⟨-, -, -, -, hfits⟩ | ⟨-, -, -, -, -, -, hfits⟩
  · exact hfits
  · exact hfits

/-- A number of either sign, the least one included. -/
theorem parseNumber_decimal {z : Int} (hlo : -2 ^ (w - 1) ≤ z) (hhi : z < 2 ^ (w - 1)) :
    parseNumber w (decimal z) = .ok z := by
  rw [parseNumber_iff hw]
  cases z with
  | ofNat n => exact .inl ⟨decimalNat_ne_nil n, n, denoted_decimalNat n, rfl, hlo, hhi⟩
  | negSucc n =>
    exact .inr ⟨_, rfl, decimalNat_ne_nil _, n + 1, denoted_decimalNat _, rfl, hlo, hhi⟩

end ParseNumber

/-! ## Marks of a base -/

/-- `decode` behind the sign: the base and the digits. The tests for a text that ends with its
mark come one character early and never hold. -/
def decodeDigits (text : Bytes) : Nat × Bytes :=
  match text with
  | 48 :: c :: rest => if c = 120 ∨ c = 88 then (16, rest) else (8, c :: rest)
  | 35 :: rest => (16, rest)
  | text => (10, text)

/-- `Integer::decode` and `Long::decode`. -/
def decode (w : Nat) : Bytes → Except Exn Int :=
  signed fun text negative =>
    if text = [48] then .ok 0 else parse w (decodeDigits text).1 (decodeDigits text).2 negative

/-- The marks of hexadecimal numbers. -/
def hexMarks : List Bytes := [[48, 120], [48, 88], [35]]

/-- `text` is a hexadecimal, octal or decimal numeral, each with a digit at least. -/
def Decoded (w : Nat) (negative : Bool) (text : Bytes) (v : Int) : Prop :=
  (∃ mark ∈ hexMarks, ∃ digits, text = mark ++ digits ∧ Denotes w 16 negative digits v) ∨
    Denotes w (if text.head? = some 48 then 8 else 10) negative text v

section Decode

variable {radix : Nat} {negative : Bool} {c : UInt8} {rest : Bytes} {v : Int}

theorem not_denotes (hc : digit c radix = none) : ¬ Denotes w radix negative (c :: rest) v := by
  rintro ⟨-, n, hn, -⟩
  rw [denoted_cons, hc] at hn
  cases hn

theorem denotes_zero_cons (hr : digit 48 radix = some 0) :
    Denotes w radix negative (48 :: c :: rest) v ↔ Denotes w radix negative (c :: rest) v := by
  simp [Denotes, denoted_cons, hr]

/-- No digits at all are read as zero. -/
theorem parse_iff (hw : 6 < w) (hlo : 2 ≤ radix) (hhi : radix ≤ 36) {digits : Bytes} :
    parse w radix digits negative = .ok v ↔
      Denotes w radix negative digits v ∨ (digits = [] ∧ v = 0) := by
  cases digits with
  | nil => cases negative <;> simp [parse, parseDigits, Denotes, wrap, eq_comm]
  | cons c rest =>
    rw [parse_eq hw hlo hhi (List.cons_ne_nil c rest)]
    simp

/-- Behind the sign `decode` accepts the numerals, and the bare marks as zero. -/
theorem decodeDigits_iff (hw : 6 < w) {text : Bytes} (hne : text ≠ []) :
    (if text = [48] then .ok 0 else parse w (decodeDigits text).1 (decodeDigits text).2 negative) =
      Except.ok v ↔ Decoded w negative text v ∨ (text ∈ hexMarks ∧ v = 0) := by
  obtain ⟨c, rest, rfl⟩ := List.exists_cons_of_ne_nil hne
  by_cases hzero : c = 48
  · subst hzero
    rcases rest with _ | ⟨d, digits⟩
    · have hpos : (0 : Int) < 2 ^ (w - 1) := by positivity
      have hdenoted : denoted 8 [48] 0 = some 0 := rfl
      cases negative <;> simp [Decoded, hexMarks, Denotes, hdenoted] <;> omega
    · by_cases hx : d = 120 ∨ d = 88
      · rcases hx with rfl | rfl <;>
          simp [decodeDigits, Decoded, hexMarks, parse_iff hw, denotes_zero_cons, not_denotes, digit]
      · rw [not_or] at hx
        simp [decodeDigits, Decoded, hexMarks, hx, parse_iff hw, denotes_zero_cons, digit]
  · by_cases hsharp : c = 35
    · subst hsharp
      simp [decodeDigits, Decoded, hexMarks, parse_iff hw, not_denotes, digit]
    · simp [decodeDigits, Decoded, hexMarks, hzero, hsharp, parse_iff hw]

end Decode

/-- The texts that are only a sign and a mark. -/
def bareMarks : List Bytes := hexMarks ++ hexMarks.map (minusByte :: ·)

/-- `s` is a numeral with a sign or none. -/
def Numeral (w : Nat) (s : Bytes) (v : Int) : Prop :=
  Decoded w false s v ∨ ∃ text, s = minusByte :: text ∧ Decoded w true text v

theorem not_numeral (hs : s ∈ bareMarks) (v : Int) : ¬ Numeral w s v := by
  have hnil (b : Bool) : ¬ Denotes w 16 b [] v := fun h => h.1 rfl
  simp [bareMarks, hexMarks] at hs
  rcases hs with rfl | rfl | rfl | rfl | rfl | rfl <;>
    simp [Numeral, Decoded, hexMarks, hnil, denotes_zero_cons, not_denotes, digit, minusByte]

theorem decode_eq (hw : 6 < w) : decode w s = .ok v ↔ Numeral w s v ∨ (s ∈ bareMarks ∧ v = 0) := by
  refine (signed_iff (P := fun b text => Decoded w b text v ∨ (text ∈ hexMarks ∧ v = 0)) ?_ ?_
    fun text hne b => decodeDigits_iff hw hne).trans ?_
  · simp [Decoded, hexMarks, Denotes]
  · simp [Decoded, hexMarks, not_denotes, digit, minusByte]
  · simp only [Numeral, bareMarks, List.mem_append, List.mem_map]
    grind

/-- `decode` accepts the numerals of the three bases and returns their value, except that it
takes a mark of a hexadecimal number without any digits for zero. -/
theorem decode_iff (hw : w = 32 ∨ w = 64) (s : Bytes) :
    (∀ v, decode w s = .ok v ↔ Numeral w s v) ↔ s ∉ bareMarks := by
  constructor
  · intro h hs
    exact not_numeral hs 0 ((h 0).mp ((decode_eq (by omega)).mpr (.inr ⟨hs, rfl⟩)))
  · intro hs v
    rw [decode_eq (by omega)]
    simp [hs]

theorem decode_seventeen : decode 32 [48, 49, 55] = .ok 15 := by
  refine ((decode_iff (.inl rfl) [48, 49, 55]).mpr (by decide) 15).mpr (.inl (.inr ?_))
  exact ⟨by simp, 15, rfl, rfl, by decide, by decide⟩

/-- `decode` of a bare `0x`. -/
theorem decode_bare_mark : decode 32 [48, 120] = .ok 0 ∧ ¬ Numeral 32 [48, 120] 0 :=
  ⟨rfl, not_numeral (by decide) 0⟩

end ActivemqCpp.Decaf
