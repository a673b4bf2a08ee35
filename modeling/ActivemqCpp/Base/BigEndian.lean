import Mathlib.Tactic

/-!
# Big-endian words

A word of `width` bytes, most significant byte first. Writing keeps the number
modulo `256 ^ width` and reading gives that back (`ofBigEndian_bigEndian`), for
every width; the fixed widths of a data stream are instances.
-/

namespace ActivemqCpp.Base

/-- The lowest `width` bytes of `n`, most significant first. -/
def bigEndian : (width : Nat) → Nat → List UInt8
  | 0, _ => []
  | width + 1, n => UInt8.ofNat (n >>> (8 * width)) :: bigEndian width n

/-- The number a word stands for. -/
def ofBigEndian (bytes : List UInt8) : Nat :=
  bytes.foldl (fun acc b => acc * 256 + b.toNat) 0

@[simp] theorem length_bigEndian (width n : Nat) : (bigEndian width n).length = width := by
  induction width with
  | zero => rfl
  | succ width ih => simp [bigEndian, ih]

/-- One more byte in front: the digit of weight `256 ^ width`. -/
theorem mod_succ_width (width n : Nat) :
    n % 256 ^ (width + 1) = (n / 256 ^ width % 256) * 256 ^ width + n % 256 ^ width := by
  rw [Nat.pow_succ, Nat.mod_mul, Nat.mul_comm (256 ^ width)]
  omega

theorem foldl_bigEndian (width n acc : Nat) :
    (bigEndian width n).foldl (fun acc b => acc * 256 + b.toNat) acc =
      acc * 256 ^ width + n % 256 ^ width := by
  induction width generalizing acc with
  | zero => simp [bigEndian, Nat.mod_one]
  | succ width ih =>
    have hbyte : (UInt8.ofNat (n >>> (8 * width))).toNat = n / 256 ^ width % 256 := by
      have hpow : 2 ^ (8 * width) = 256 ^ width := by rw [Nat.pow_mul]
      rw [UInt8.toNat_ofNat', Nat.shiftRight_eq_div_pow, hpow]
    rw [bigEndian, List.foldl_cons, ih, hbyte, mod_succ_width]
    ring

theorem ofBigEndian_bigEndian (width n : Nat) :
    ofBigEndian (bigEndian width n) = n % 256 ^ width := by
  rw [ofBigEndian, foldl_bigEndian]
  omega

theorem ofBigEndian_lt (bytes : List UInt8) : ofBigEndian bytes < 256 ^ bytes.length := by
  induction bytes using List.reverseRecOn with
  | nil => decide
  | append_singleton bytes b ih =>
    have hb := b.toNat_lt
    rw [ofBigEndian] at ih ⊢
    rw [List.foldl_append, List.length_append, List.length_singleton, Nat.pow_succ]
    show _ * 256 + b.toNat < _
    omega

end ActivemqCpp.Base
