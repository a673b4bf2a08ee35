import Mathlib.Tactic

/-!
# Reentrant locks

A lock that one owner at a time holds, any number of times. A lock is free, or it has an
owner and the number of holds beyond the first: a lock with an owner and no holds cannot
be written down.

* `acquire` takes one more hold, unless somebody else has the lock (`none`: the caller
  blocks);
* `release` gives one hold back;
* `abandon` gives all of them back, as waiting for a condition does, and `retake` takes
  that many again when the wait is over.

`holds` counts; the lemmas say what each operation does to the holds of the caller, and
that it leaves everybody else's alone.
-/

namespace ActivemqCpp.Base

inductive ReentrantLock (τ : Type*)
  | free
  | held (owner : τ) (more : Nat)
deriving DecidableEq

namespace ReentrantLock

variable {τ : Type*} [DecidableEq τ]

/-- How many holds `t` has. -/
def holds : ReentrantLock τ → τ → Nat
  | free, _ => 0
  | held owner more, t => if owner = t then more + 1 else 0

def acquire : ReentrantLock τ → τ → Option (ReentrantLock τ)
  | free, t => some (held t 0)
  | held owner more, t => if owner = t then some (held owner (more + 1)) else none

def release : ReentrantLock τ → τ → ReentrantLock τ
  | free, _ => free
  | held owner 0, t => if owner = t then free else held owner 0
  | held owner (more + 1), t => if owner = t then held owner more else held owner (more + 1)

def abandon : ReentrantLock τ → τ → ReentrantLock τ
  | free, _ => free
  | held owner more, t => if owner = t then free else held owner more

def retake : ReentrantLock τ → τ → Nat → Option (ReentrantLock τ)
  | free, _, 0 => some free
  | free, t, n + 1 => some (held t n)
  | held _ _, _, _ => none

variable {l l' : ReentrantLock τ} {t u : τ}

/-- Two who hold the lock are one. -/
theorem eq_of_holds_pos (ht : 0 < l.holds t) (hu : 0 < l.holds u) : t = u := by
  cases l with
  | free => exact absurd ht (Nat.lt_irrefl 0)
  | held owner more =>
    have howner {v : τ} (hv : 0 < (held owner more).holds v) : owner = v := by
      by_contra hne
      simp [holds, hne] at hv
    exact (howner ht).symm.trans (howner hu)

/-! ## The caller's holds -/

theorem holds_acquire (h : l.acquire t = some l') : l'.holds t = l.holds t + 1 := by
  cases l with
  | free =>
    cases h
    simp [holds]
  | held owner more =>
    by_cases howner : owner = t
    · rw [acquire, if_pos howner] at h
      cases h
      simp [holds, howner]
    · rw [acquire, if_neg howner] at h
      cases h

theorem holds_release (l : ReentrantLock τ) (t : τ) : (l.release t).holds t = l.holds t - 1 := by
  cases l with
  | free => rfl
  | held owner more =>
    by_cases howner : owner = t <;> cases more <;> simp [release, holds, howner]

theorem holds_abandon (l : ReentrantLock τ) (t : τ) : (l.abandon t).holds t = 0 := by
  cases l with
  | free => rfl
  | held owner more => by_cases howner : owner = t <;> simp [abandon, holds, howner]

theorem holds_retake {n : Nat} (h : l.retake t n = some l') : l'.holds t = n := by
  cases l with
  | free =>
    cases n with
    | zero => cases h; rfl
    | succ n => cases h; simp [holds]
  | held owner more => cases h

/-! ## Everybody else's holds -/

variable (hne : u ≠ t)
include hne

theorem holds_acquire_of_ne (h : l.acquire t = some l') : l'.holds u = l.holds u := by
  cases l with
  | free =>
    cases h
    simp [holds, hne.symm]
  | held owner more =>
    by_cases howner : owner = t
    · rw [acquire, if_pos howner] at h
      cases h
      simp [holds, howner, hne.symm]
    · rw [acquire, if_neg howner] at h
      cases h

theorem holds_release_of_ne (l : ReentrantLock τ) : (l.release t).holds u = l.holds u := by
  cases l with
  | free => rfl
  | held owner more =>
    by_cases howner : owner = t
    · subst howner
      cases more <;> simp [release, holds, hne.symm]
    · cases more <;> simp [release, howner]

theorem holds_abandon_of_ne (l : ReentrantLock τ) : (l.abandon t).holds u = l.holds u := by
  cases l with
  | free => rfl
  | held owner more =>
    by_cases howner : owner = t
    · subst howner
      simp [abandon, holds, hne.symm]
    · simp [abandon, howner]

theorem holds_retake_of_ne {n : Nat} (h : l.retake t n = some l') : l'.holds u = l.holds u := by
  cases l with
  | free =>
    cases n with
    | zero => cases h; rfl
    | succ n =>
      cases h
      simp [holds, hne.symm]
  | held owner more => cases h

end ReentrantLock

end ActivemqCpp.Base
