import Mathlib.Data.Nat.Digits.Defs
import Mathlib.Tactic

/-!
# Decimal text

Numbers as the bytes a text stream prints for them. `numeral` reads digits of any radix;
decimal text is read back by it (`numeral_decimalNat`).

That makes such text usable as the tail of a composed key: it is never empty, it holds no
separator, and it determines the number (`decimal_inj`). `append_separated_inj` is the rule
for composing keys: from the right, the field behind the last separator can be
told apart.
-/

namespace ActivemqCpp.Base

open List

/-- The byte of a decimal digit. -/
def digitByte (d : Nat) : UInt8 := UInt8.ofNat (48 + d)

/-- `-` -/
def minusByte : UInt8 := 45

/-- The digits of a natural number, most significant first. -/
def decimalNat (n : Nat) : List UInt8 :=
  if n = 0 then [digitByte 0] else ((Nat.digits 10 n).map digitByte).reverse

/-- The text of an integer. -/
def decimal : Int → List UInt8
  | .ofNat n => decimalNat n
  | .negSucc n => minusByte :: decimalNat (n + 1)

theorem digitByte_toNat {d : Nat} (hd : d < 10) : (digitByte d).toNat = 48 + d := by
  simp only [digitByte, UInt8.toNat_ofNat']
  omega

/-- Every byte of the text is a digit. -/
theorem mem_decimalNat {n : Nat} {b : UInt8} (hb : b ∈ decimalNat n) :
    48 ≤ b.toNat ∧ b.toNat ≤ 57 := by
  have hdigit : ∀ d, d < 10 → 48 ≤ (digitByte d).toNat ∧ (digitByte d).toNat ≤ 57 := by
    intro d hd
    rw [digitByte_toNat hd]
    omega
  unfold decimalNat at hb
  split at hb
  · rw [mem_singleton] at hb
    subst hb
    exact hdigit 0 (by decide)
  · rw [mem_reverse, mem_map] at hb
    obtain ⟨d, hd, rfl⟩ := hb
    exact hdigit d (Nat.digits_lt_base (by decide) hd)

theorem decimalNat_ne_nil (n : Nat) : decimalNat n ≠ [] := by
  unfold decimalNat
  split
  · simp
  · next hne => simpa using Nat.digits_ne_nil_iff_ne_zero.mpr hne

theorem decimal_ne_nil (z : Int) : decimal z ≠ [] := by
  cases z with
  | ofNat n => exact decimalNat_ne_nil n
  | negSucc n => exact cons_ne_nil _ _

/-- The number that a text of digits denotes behind digits that denote `n`. -/
def numeral (value : UInt8 → Option Nat) (radix : Nat) : List UInt8 → (n : Nat) → Option Nat
  | [], n => some n
  | c :: rest, n => (value c).bind fun d => numeral value radix rest (n * radix + d)

theorem numeral_append {value : UInt8 → Option Nat} {radix : Nat} (text rest : List UInt8) (n : Nat) :
    numeral value radix (text ++ rest) n =
      (numeral value radix text n).bind (numeral value radix rest) := by
  induction text generalizing n with
  | nil => rfl
  | cons c text ih => simp [cons_append, numeral, ih, Option.bind_assoc]

theorem numeral_decimalNat (value : UInt8 → Option Nat)
    (hvalue : ∀ d < 10, value (digitByte d) = some d) (n : Nat) :
    numeral value 10 (decimalNat n) 0 = some n := by
  have hdigits {ds : List Nat} (hlt : ∀ d ∈ ds, d < 10) :
      numeral value 10 (ds.map digitByte).reverse 0 = some (Nat.ofDigits 10 ds) := by
    induction ds with
    | nil => rfl
    | cons d ds ih =>
      obtain ⟨hd, hrest⟩ := forall_mem_cons.mp hlt
      rw [map_cons, reverse_cons, numeral_append, ih hrest, Nat.ofDigits_cons]
      simp [numeral, hvalue d hd, Nat.mul_comm, Nat.add_comm]
  unfold decimalNat
  split
  · next hzero =>
    rw [hzero, numeral, hvalue 0 (by decide)]
    rfl
  · rw [hdigits fun d hd => Nat.digits_lt_base (by decide) hd, Nat.ofDigits_digits]

theorem decimalNat_inj {m n : Nat} (h : decimalNat m = decimalNat n) : m = n := by
  have hread := numeral_decimalNat (fun b => some (b.toNat - 48)) fun d hd => by
    simp [digitByte_toNat hd]
  exact Option.some.inj ((hread m).symm.trans (h ▸ hread n))

/-- Every byte of the text is a digit or the sign. -/
theorem mem_decimal {z : Int} {b : UInt8} (hb : b ∈ decimal z) :
    b = minusByte ∨ (48 ≤ b.toNat ∧ b.toNat ≤ 57) := by
  cases z with
  | ofNat n => exact Or.inr (mem_decimalNat hb)
  | negSucc n =>
    rcases mem_cons.mp hb with h | h
    · exact Or.inl h
    · exact Or.inr (mem_decimalNat h)

theorem decimal_inj {y z : Int} (h : decimal y = decimal z) : y = z := by
  have hsign : ∀ m n, decimalNat m ≠ minusByte :: decimalNat n := by
    intro m n heq
    have hmem : minusByte ∈ decimalNat m := by rw [heq]; exact mem_cons_self
    have := (mem_decimalNat hmem).1
    simp [minusByte] at this
  cases y with
  | ofNat m =>
    cases z with
    | ofNat n => rw [decimalNat_inj h]
    | negSucc n => exact absurd h (hsign m (n + 1))
  | negSucc m =>
    cases z with
    | ofNat n => exact absurd h.symm (hsign n (m + 1))
    | negSucc n =>
      rw [decimal, decimal, cons.injEq] at h
      have := decimalNat_inj h.2
      congr
      omega

/-- Splitting at the last separator: fields without the separator can be read
back from the right. -/
theorem append_separated_inj {α : Type*} {sep : α} {xs ys f g : List α}
    (hf : sep ∉ f) (hg : sep ∉ g) (h : xs ++ sep :: f = ys ++ sep :: g) : xs = ys ∧ f = g := by
  induction xs generalizing ys with
  | nil =>
    cases ys with
    | nil => exact ⟨rfl, (cons.inj h).2⟩
    | cons y ys =>
      -- the separator of the right side would lie inside `f`
      have hmem : sep ∈ f := by
        rw [(cons.inj h).2]
        exact mem_append_right _ mem_cons_self
      exact absurd hmem hf
  | cons x xs ih =>
    cases ys with
    | nil =>
      have hmem : sep ∈ g := by
        rw [← (cons.inj h).2]
        exact mem_append_right _ mem_cons_self
      exact absurd hmem hg
    | cons y ys =>
      obtain ⟨hhead, htail⟩ := cons.inj h
      obtain ⟨hxs, hfg⟩ := ih htail
      exact ⟨by rw [hhead, hxs], hfg⟩

end ActivemqCpp.Base
