import Mathlib.Tactic

/-!
# Copying within and between arrays

An array is the list of its cells. `store` writes a list into an array from one index on;
`copyLoop` copies a range of cells within one array in ascending order. Both are described
cell by cell.

When the ranges overlap, `copyLoop` copies correctly towards the front
(`getElem?_copyLoop_of_le`), and towards the back only as far as the distance
(`getElem?_copyLoop_of_disjoint`).
-/

namespace ActivemqCpp.Base

open List

variable {α : Type*}

/-- Write `xs` into the cells from `i` on. -/
def store (a : List α) (i : Nat) : List α → List α
  | [] => a
  | x :: xs => store (a.set i x) (i + 1) xs

/-- `for` ascending `k`, copy the cell `src + k` to the cell `dst + k`. -/
def copyLoop (a : List α) (src dst : Nat) : Nat → List α
  | 0 => a
  | n + 1 => copyLoop (a[src]?.elim a (a.set dst)) (src + 1) (dst + 1) n

variable (a : List α)

@[simp] theorem length_store (i : Nat) (xs : List α) : (store a i xs).length = a.length := by
  induction xs generalizing a i with
  | nil => rfl
  | cons x xs ih => rw [store, ih, length_set]

variable (k : Nat)

theorem getElem?_store (i : Nat) (xs : List α) (hfit : i + xs.length ≤ a.length) :
    (store a i xs)[k]? = if i ≤ k ∧ k < i + xs.length then xs[k - i]? else a[k]? := by
  induction xs generalizing a i with
  | nil => rw [store, if_neg (by simp only [length_nil]; omega)]
  | cons x xs ih =>
    simp only [length_cons] at hfit ⊢
    rw [store, ih (a.set i x) (i + 1) (by rw [length_set]; omega)]
    by_cases hk : k = i
    · subst hk
      rw [if_neg (by omega), if_pos (by omega), getElem?_set_self (by omega), Nat.sub_self,
        getElem?_cons_zero]
    · rw [getElem?_set_ne (fun h => hk h.symm)]
      by_cases hin : i + 1 ≤ k ∧ k < i + 1 + xs.length
      · rw [if_pos hin, if_pos (by omega), show k - i = (k - (i + 1)) + 1 by omega,
          getElem?_cons_succ]
      · rw [if_neg hin, if_neg (by omega)]

@[simp] theorem length_copyLoop (src dst n : Nat) : (copyLoop a src dst n).length = a.length := by
  induction n generalizing a src dst with
  | zero => rfl
  | succ n ih =>
    rw [copyLoop, ih]
    cases a[src]? with
    | none => rfl
    | some x => exact length_set

/-- The step of the induction: a cell is copied before anyone writes to it. -/
theorem getElem?_copyLoop_aux (src dst n : Nat) (hsrc : src + n ≤ a.length)
    (hdst : dst + n ≤ a.length) (hsafe : dst ≤ src ∨ src + n ≤ dst) : (copyLoop a src dst n)[k]? =
      if dst ≤ k ∧ k < dst + n then a[src + (k - dst)]? else a[k]? := by
  induction n generalizing a src dst with
  | zero => rw [copyLoop, if_neg (by omega)]
  | succ n ih =>
    have hlt : src < a.length := by omega
    rw [copyLoop, getElem?_eq_getElem hlt, Option.elim_some,
      ih (a.set dst a[src]) (src + 1) (dst + 1) (by rw [length_set]; omega)
        (by rw [length_set]; omega) (by omega)]
    by_cases hk : k = dst
    · subst hk
      rw [if_neg (by omega), if_pos (by omega), getElem?_set_self (by omega), Nat.sub_self,
        Nat.add_zero, getElem?_eq_getElem hlt]
    · by_cases hin : dst + 1 ≤ k ∧ k < dst + 1 + n
      · rw [if_pos hin, if_pos (by omega), getElem?_set_ne (by omega)]
        congr 1
        omega
      · rw [if_neg hin, if_neg (by omega), getElem?_set_ne (fun h => hk h.symm)]

/-- Towards the front. -/
theorem getElem?_copyLoop_of_le {a : List α} {src dst n : Nat} (hsrc : src + n ≤ a.length)
    (hle : dst ≤ src) : (copyLoop a src dst n)[k]? =
      if dst ≤ k ∧ k < dst + n then a[src + (k - dst)]? else a[k]? :=
  getElem?_copyLoop_aux a k src dst n hsrc (by omega) (.inl hle)

/-- Towards the back, when the ranges do not overlap. -/
theorem getElem?_copyLoop_of_disjoint {a : List α} {src dst n : Nat}
    (hdst : dst + n ≤ a.length) (hdisjoint : src + n ≤ dst) : (copyLoop a src dst n)[k]? =
      if dst ≤ k ∧ k < dst + n then a[src + (k - dst)]? else a[k]? :=
  getElem?_copyLoop_aux a k src dst n (by omega) hdst (.inr hdisjoint)

end ActivemqCpp.Base
