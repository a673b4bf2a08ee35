import Mathlib.Data.List.GetD
import ActivemqCpp.Decaf.Numbers

/-!
# `decaf::util::BitSet`

The bit set as the source lays it out: an array of 64-bit words, the number of
leading words that may hold a set bit (`actualArrayLength`) and the flag
`needClear`, false while no bit was ever set. `Wf` is what the operations keep:
beyond `actualArrayLength`, and everywhere while `needClear` is false, all words
are zero. Under `Wf` the operations on single bits are those of a set of
indices (`testBit_setBit`, `testBit_clearBit`), up to the last word of the index
range, whose number of bits does not fit an `int` (`set_found_iff`).
-/

namespace ActivemqCpp.Decaf

open List

/-- `bits` is the array up to `bitsSize`. The operations here set the two together; `OR` and
`XOR`, which are not among them, leave `bitsSize` as it was and do not keep `Wf`. -/
structure BitSet where
  bits : List (BitVec 64)
  needClear : Bool
  actualArrayLength : Nat
  isLengthActual : Bool
deriving DecidableEq, Repr

namespace BitSet

/-- `TWO_N_ARRAY[k]`. -/
def twoN (k : Nat) : BitVec 64 := BitVec.twoPow 64 k

/-- The word at an array position; positions outside the array are never read. -/
def word (s : BitSet) (pos : Nat) : BitVec 64 := s.bits.getD pos 0

/-- `BitSet(bitCount)`. -/
def ofCount (bitCount : Int) : Except Exn BitSet :=
  if bitCount < 0 then .error .negativeArraySize
  else
    let n := bitCount.toNat
    .ok {
      bits := replicate (n / 64 + if n % 64 > 0 then 1 else 0) 0
      needClear := false
      actualArrayLength := 0
      isLengthActual := true }

/-- `ensureCapacity(length)`: only the words in use are copied. -/
def ensureCapacity (s : BitSet) (length : Nat) : BitSet :=
  let newSize := max length (s.bits.length * 2)
  { s with
    bits := s.bits.take s.actualArrayLength ++
      replicate (newSize - s.actualArrayLength) 0 }

/-- `get(index)` of an index that is not negative. -/
def testBit (s : BitSet) (i : Nat) : Bool :=
  if i / 64 < s.actualArrayLength then (s.word (i / 64) &&& twoN (i % 64)) != 0
  else false

/-- The capacity test of `set` and `flip`: room for the word of index `i`. -/
def grown (s : BitSet) (i : Nat) : BitSet :=
  if i / 64 + 1 > s.bits.length then s.ensureCapacity (i / 64 + 1) else s

/-- `set(index)` of an index that is not negative. -/
def setBit (s : BitSet) (i : Nat) : BitSet :=
  let len := i / 64 + 1
  let s := s.grown i
  { s with
    bits := s.bits.set (len - 1) (s.word (len - 1) ||| twoN (i % 64))
    needClear := true
    actualArrayLength := if len > s.actualArrayLength then len else s.actualArrayLength
    isLengthActual := if len > s.actualArrayLength then true else s.isLengthActual }

/-- `clear(index)` of an index that is not negative. -/
def clearBit (s : BitSet) (i : Nat) : BitSet :=
  if s.needClear = false then s
  else if i / 64 < s.actualArrayLength then
    let bits := s.bits.set (i / 64) (s.word (i / 64) &&& ~~~twoN (i % 64))
    { s with
      bits := bits
      isLengthActual :=
        if bits.getD (s.actualArrayLength - 1) 0 = 0 then false else s.isLengthActual }
  else s

/-- `get(index)`. -/
def get (s : BitSet) (index : Int) : Except Exn Bool :=
  if index < 0 then .error .indexOutOfBounds else .ok (s.testBit index.toNat)

/-- `set(index)`. -/
def set (s : BitSet) (index : Int) : Except Exn BitSet :=
  if index < 0 then .error .indexOutOfBounds else .ok (s.setBit index.toNat)

/-- `clear(index)`. -/
def clear (s : BitSet) (index : Int) : Except Exn BitSet :=
  if index < 0 then .error .indexOutOfBounds else .ok (s.clearBit index.toNat)

/-- `set(index, value)`. -/
def setTo (s : BitSet) (index : Int) (value : Bool) : Except Exn BitSet :=
  if value then s.set index else s.clear index

/-- The first loop of `length`: the last word in use that is not zero, one up. -/
def wordsInUse (bits : List (BitVec 64)) : (length : Nat) → Nat
  | 0 => 0
  | idx + 1 => if bits.getD idx 0 = 0 then wordsInUse bits idx else idx + 1

/-- The second loop of `length`: down from bit `i` to the highest bit set. -/
def highestBit (val : BitVec 64) : (i : Nat) → Nat
  | 0 => 0
  | i + 1 => if val &&& twoN (i + 1) = 0 then highestBit val i else i + 1

/-- `length()`, which also corrects `actualArrayLength`. -/
def length (s : BitSet) : BitSet × Int :=
  let n := wordsInUse s.bits s.actualArrayLength
  let s := { s with actualArrayLength := n }
  if n = 0 then (s, 0) else (s, wrap 32 ((n - 1) * 64 + highestBit (s.word (n - 1)) 63 + 1))

/-- The loops of `nextSetBit` over the bits of one word, from bit `j` on. -/
def firstBit (val : BitVec 64) (j : Nat) : Option Nat :=
  (range' j (64 - j)).find? fun k => (val &&& twoN k) != 0

/-- `nextSetBit(index)`. The number of words is turned into a number of bits in an `int`. -/
def nextSetBit (s : BitSet) (index : Int) : Except Exn Int :=
  if index < 0 then .error .indexOutOfBounds
  else if index ≥ wrap 32 (s.actualArrayLength * 64) then .ok (-1)
  else
    let idx := index.toNat / 64
    match firstBit (s.word idx) (index.toNat % 64) with
    | some j => .ok (idx * 64 + j)
    | none =>
      match (range' (idx + 1) (s.actualArrayLength - (idx + 1))).find? (s.word · != 0) with
      | none => .ok (-1)
      | some idx => .ok (((firstBit (s.word idx) 0).map (idx * 64 + ·)).elim (-1) Nat.cast)

/-! ## Well-formed bit sets -/

structure Wf (s : BitSet) : Prop where
  length_le : s.actualArrayLength ≤ s.bits.length
  zero_beyond : ∀ pos, s.actualArrayLength ≤ pos → s.word pos = 0
  zero_unset : s.needClear = false → ∀ pos, s.word pos = 0

theorem word_replicate_zero (n pos : Nat) : (replicate n (0 : BitVec 64)).getD pos 0 = 0 := by
  rw [getD_eq_getElem?_getD, getElem?_replicate]
  split <;> rfl

variable {s : BitSet}

theorem wf_ofCount {bitCount : Int} (h : ofCount bitCount = .ok s) : s.Wf := by
  unfold ofCount at h
  split at h
  · cases h
  · cases h
    exact ⟨Nat.zero_le _, fun pos _ => word_replicate_zero _ pos,
      fun _ pos => word_replicate_zero _ pos⟩

variable (i : Nat) {k : Nat}

theorem testBit_ofCount {bitCount : Int} (h : ofCount bitCount = .ok s) : s.testBit i = false := by
  unfold ofCount at h
  split at h
  · cases h
  · cases h
    simp [testBit]

/-- The word at `pos` after one word was stored. -/
theorem getD_set (bits : List (BitVec 64)) (hk : k < bits.length) (w : BitVec 64)
    (pos : Nat) : (bits.set k w).getD pos 0 = if pos = k then w else bits.getD pos 0 := by
  by_cases h : k = pos
  · subst h
    simp [hk]
  · simp [h, Ne.symm h]

theorem getLsbD_twoN (k j : Nat) (hk : k < 64) : (twoN k).getLsbD j = decide (j = k) := by
  simp only [twoN]
  by_cases h : j = k
  · simp [h, hk]
  · simp [h, Ne.symm h]

/-- The mask test reads one bit. -/
theorem and_twoN_ne_zero (w : BitVec 64) (hk : k < 64) : ((w &&& twoN k) != 0) = w.getLsbD k := by
  cases hbit : w.getLsbD k with
  | true =>
    have hne : w &&& twoN k ≠ 0 := by
      intro h
      have hk' : (w &&& twoN k).getLsbD k = false := by rw [h]; simp
      rw [BitVec.getLsbD_and, hbit, getLsbD_twoN k k hk] at hk'
      simp at hk'
    simpa using hne
  | false =>
    have heq : w &&& twoN k = 0 := by
      apply BitVec.eq_of_getLsbD_eq
      intro j _
      by_cases h : j = k
      · subst h
        simp [hbit]
      · simp [getLsbD_twoN k j hk, h]
    simp [heq]

theorem eq_of_div_mod {i j : Nat} (hdiv : i / 64 = j / 64) (hmod : i % 64 = j % 64) : i = j := by
  omega

theorem wordsInUse_eq {bits : List (BitVec 64)} {n : Nat} (hk : k < n)
    (hword : bits.getD k 0 ≠ 0) (hzero : ∀ m, k < m → bits.getD m 0 = 0) :
    wordsInUse bits n = k + 1 := by
  induction n with
  | zero => omega
  | succ n ih =>
    unfold wordsInUse
    rcases Nat.lt_or_ge k n with hlt | hge
    · rw [if_pos (hzero n hlt), ih hlt]
    · obtain rfl : k = n := by omega
      rw [if_neg hword]

theorem highestBit_eq {val : BitVec 64} {n : Nat} (hk : k ≤ n) (hbit : val &&& twoN k ≠ 0)
    (hzero : ∀ m, k < m → m ≤ n → val &&& twoN m = 0) : highestBit val n = k := by
  induction n with
  | zero => exact (Nat.le_zero.mp hk).symm
  | succ n ih =>
    unfold highestBit
    rcases Nat.lt_or_ge n k with hlt | hge
    · obtain rfl : k = n + 1 := by omega
      rw [if_neg hbit]
    · rw [if_pos (hzero _ (by omega) (le_refl _))]
      exact ih hge fun m hm hmn => hzero m hm (by omega)

variable (hs : s.Wf)
include hs

/-- Growing the array changes no word. -/
theorem word_ensureCapacity (length pos : Nat) :
    (s.ensureCapacity length).word pos = s.word pos := by
  have hlen : (s.bits.take s.actualArrayLength).length = s.actualArrayLength := by
    simp [hs.length_le]
  simp only [word, ensureCapacity]
  by_cases hpos : pos < s.actualArrayLength
  · rw [getD_append _ _ _ _ (by omega)]
    simp [hpos]
  · rw [getD_append_right _ _ _ _ (by omega), word_replicate_zero]
    exact (hs.zero_beyond pos (by omega)).symm

theorem wf_ensureCapacity (length : Nat) : (s.ensureCapacity length).Wf := by
  have hle := hs.length_le
  refine ⟨?_, fun pos hpos => ?_, fun hclear pos => ?_⟩
  · simp only [ensureCapacity, length_append, length_take]
    omega
  · rw [word_ensureCapacity hs]
    exact hs.zero_beyond pos hpos
  · rw [word_ensureCapacity hs]
    exact hs.zero_unset hclear pos

theorem grown_spec : (s.grown i).Wf ∧ i / 64 < (s.grown i).bits.length ∧
      (∀ pos, (s.grown i).word pos = s.word pos) ∧
      (s.grown i).actualArrayLength = s.actualArrayLength := by
  have hle := hs.length_le
  unfold grown
  split
  · next hgt =>
    refine ⟨wf_ensureCapacity hs _, ?_, word_ensureCapacity hs _, rfl⟩
    simp only [ensureCapacity, length_append, length_take, length_replicate]
    omega
  · exact ⟨hs, by omega, fun _ => rfl, rfl⟩

/-- Membership, read off the words alone. -/
theorem testBit_eq : s.testBit i = (s.word (i / 64)).getLsbD (i % 64) := by
  unfold testBit
  split
  · exact and_twoN_ne_zero _ (Nat.mod_lt _ (by decide))
  · next h =>
    rw [hs.zero_beyond _ (by omega)]
    simp

theorem wf_setBit : (s.setBit i).Wf := by
  obtain ⟨hg, hlen, hword, hact⟩ := grown_spec i hs
  have hgle := hg.length_le
  refine ⟨?_, fun pos hpos => ?_, nofun⟩
  · simp only [setBit, length_set]
    split <;> omega
  · simp only [setBit] at hpos
    show ((s.grown i).bits.set (i / 64) _).getD pos 0 = 0
    rw [getD_set _ hlen, if_neg (by split at hpos <;> omega)]
    exact hg.zero_beyond pos (by split at hpos <;> omega)

theorem testBit_setBit (i j : Nat) : (s.setBit i).testBit j = (decide (j = i) || s.testBit j) := by
  obtain ⟨hg, hlen, hword, hact⟩ := grown_spec i hs
  have hi : i % 64 < 64 := Nat.mod_lt _ (by decide)
  rw [testBit_eq _ (wf_setBit i hs), testBit_eq _ hs]
  show (((s.grown i).bits.set (i / 64) _).getD (j / 64) 0).getLsbD (j % 64) = _
  rw [getD_set _ hlen]
  by_cases hpos : j / 64 = i / 64
  · rw [if_pos hpos, hpos]
    simp only [BitVec.getLsbD_or, getLsbD_twoN _ _ hi, hword]
    by_cases hbit : j % 64 = i % 64
    · have hji : j = i := eq_of_div_mod hpos hbit
      simp [hji]
    · have hji : j ≠ i := fun h => hbit (by rw [h])
      simp [hbit, hji]
  · have hji : j ≠ i := fun h => hpos (by rw [h])
    rw [if_neg hpos]
    show ((s.grown i).word (j / 64)).getLsbD (j % 64) = _
    simp [hword, hji]

theorem wf_clearBit : (s.clearBit i).Wf := by
  unfold clearBit
  split
  · exact hs
  · next hclear =>
    split
    · next hin =>
      have hlt : i / 64 < s.bits.length := lt_of_lt_of_le hin hs.length_le
      refine ⟨by simpa using hs.length_le, fun pos hpos => ?_, fun h => absurd h hclear⟩
      change s.actualArrayLength ≤ pos at hpos
      show (s.bits.set (i / 64) _).getD pos 0 = 0
      rw [getD_set _ hlt, if_neg (by omega)]
      exact hs.zero_beyond pos hpos
    · exact hs

theorem testBit_clearBit (i j : Nat) :
    (s.clearBit i).testBit j = (decide (j ≠ i) && s.testBit j) := by
  have hi : i % 64 < 64 := Nat.mod_lt _ (by decide)
  rw [testBit_eq _ (wf_clearBit i hs), testBit_eq _ hs]
  unfold clearBit
  split
  · next hclear =>
    -- no bit was ever set
    simp [hs.zero_unset hclear]
  · split
    · next hin =>
      have hlt : i / 64 < s.bits.length := lt_of_lt_of_le hin hs.length_le
      show ((s.bits.set (i / 64) _).getD (j / 64) 0).getLsbD (j % 64) = _
      rw [getD_set _ hlt]
      by_cases hpos : j / 64 = i / 64
      · have hj : j % 64 < 64 := Nat.mod_lt _ (by decide)
        rw [if_pos hpos, hpos]
        simp only [BitVec.getLsbD_and, BitVec.getLsbD_not, getLsbD_twoN _ _ hi, hj]
        by_cases hbit : j % 64 = i % 64
        · have hji : j = i := eq_of_div_mod hpos hbit
          simp [hji]
        · have hji : j ≠ i := fun h => hbit (by rw [h])
          simp [hbit, hji]
      · have hji : j ≠ i := fun h => hpos (by rw [h])
        rw [if_neg hpos]
        simp [hji, word]
    · next hout =>
      by_cases hji : j = i
      · simp [hs.zero_beyond (j / 64) (by omega)]
      · simp [hji]

/-! ## The end of the index range -/

theorem actualArrayLength_setBit (i : Nat) :
    (s.setBit i).actualArrayLength = max (i / 64 + 1) s.actualArrayLength := by
  simp only [setBit, (grown_spec i hs).2.2.2]
  split <;> omega

/-- `length` of a set is one more than its largest index. -/
theorem length_of_largest {i : Nat} (hfits : i + 1 < 2 ^ 31) (hi : s.testBit i = true)
    (hlargest : ∀ j, s.testBit j = true → j ≤ i) : s.length.2 = i + 1 := by
  have hbit (j k : Nat) (hk : k < 64) :
      (s.word j &&& twoN k ≠ 0) ↔ s.testBit (j * 64 + k) = true := by
    rw [testBit_eq _ hs, ← and_twoN_ne_zero _ (Nat.mod_lt _ (by decide)),
      show (j * 64 + k) / 64 = j by omega, show (j * 64 + k) % 64 = k by omega]
    simp
  have hlt : i / 64 < s.actualArrayLength := by
    by_contra hge
    rw [testBit, if_neg hge] at hi
    cases hi
  have htop : s.word (i / 64) &&& twoN (i % 64) ≠ 0 := by
    rw [hbit _ _ (Nat.mod_lt _ (by decide)), Nat.div_add_mod']
    exact hi
  have hwords : wordsInUse s.bits s.actualArrayLength = i / 64 + 1 := by
    refine wordsInUse_eq hlt (fun hzero => htop ?_) (fun m hm => ?_)
    · change s.word (i / 64) = 0 at hzero
      rw [hzero]
      simp
    · apply BitVec.eq_of_getLsbD_eq
      intro k hk
      show (s.word m).getLsbD k = _
      rw [← and_twoN_ne_zero _ hk]
      by_contra hne
      have hj := hlargest _ ((hbit m k hk).mp (by simpa using hne))
      omega
  have hhighest : highestBit (s.word (i / 64)) 63 = i % 64 := by
    refine highestBit_eq (by omega) htop fun m hm hmn => ?_
    by_contra hne
    have hj := hlargest _ ((hbit _ m (by omega)).mp hne)
    omega
  simp only [length, hwords, Nat.add_sub_cancel, Nat.succ_ne_zero, if_false]
  show wrap 32 (((i / 64 + 1 : Nat) - 1 : Int) * 64 + highestBit (s.word (i / 64)) 63 + 1) = _
  rw [hhighest, wrap_of_bounds]
  omega

omit hs

theorem nextSetBit_self {i : Nat} (hi : s.testBit i = true)
    (hlen : s.actualArrayLength < 2 ^ 25) : s.nextSetBit i = .ok i := by
  unfold testBit at hi
  split at hi
  · next hlt =>
    have hfirst : firstBit (s.word (i / 64)) (i % 64) = some (i % 64) := by
      rw [firstBit, show 64 - i % 64 = (63 - i % 64) + 1 by omega, range'_succ, find?_cons, hi]
    rw [nextSetBit, if_neg (by omega), wrap_of_bounds, if_neg (by omega), Int.toNat_natCast]
    simp only [hfirst]
    show Except.ok (((i / 64 : Nat) : Int) * 64 + ((i % 64 : Nat) : Int)) = _
    congr 1
    omega
  · cases hi

/-- A bit that was set is found again, counts for the length and can be cleared, without an
overflow on the way, exactly while no index of the last word was ever used. -/
theorem set_found_iff {t : BitSet} {index : Int} (hs : s.Wf) (h : s.set index = .ok t) :
    (t.get index = .ok true ∧ t.nextSetBit index = .ok index ∧
      ((∀ j, t.testBit j = true → j ≤ index) → t.length.2 - 1 = index ∧ t.length.2 < 2 ^ 31) ∧
      (t.clear index >>= (·.get index)) = .ok false ∧ t.actualArrayLength * 64 < 2 ^ 31) ↔
      index < 2 ^ 31 - 64 ∧ s.actualArrayLength < 2 ^ 25 := by
  unfold set at h
  split at h
  · cases h
  · next hneg =>
    obtain ⟨i, rfl⟩ := Int.eq_ofNat_of_zero_le (not_lt.mp hneg)
    cases h
    rw [Int.toNat_natCast, actualArrayLength_setBit hs]
    constructor
    · rintro ⟨-, -, -, -, hlen⟩
      omega
    · rintro ⟨hi, hlen⟩
      have hset : (s.setBit i).testBit i = true := by simp [testBit_setBit hs]
      refine ⟨by simp [get, hset], nextSetBit_self hset ?_, fun hlargest => ?_, ?_, by omega⟩
      · rw [actualArrayLength_setBit hs]
        omega
      · rw [length_of_largest (wf_setBit i hs) (by omega) hset
          fun j hj => by exact_mod_cast hlargest j hj]
        omega
      · rw [clear, if_neg hneg, ok_bind, get, if_neg hneg, Int.toNat_natCast,
          testBit_clearBit (wf_setBit i hs)]
        simp

theorem set_found_seventy : ∃ s t, ofCount 1 = .ok s ∧ s.set 70 = .ok t ∧
    t.nextSetBit 70 = .ok 70 := by
  have hs := wf_ofCount (show ofCount 1 = .ok _ from rfl)
  exact ⟨_, _, rfl, rfl, ((set_found_iff hs rfl).mpr ⟨by decide, by decide⟩).2.1⟩

/-- In an empty set the largest `int` is set; it is not found. -/
theorem last_not_found : ∃ s t, ofCount 1 = .ok s ∧ s.set 2147483647 = .ok t ∧
      t.get 2147483647 = .ok true ∧ t.nextSetBit 2147483647 = .ok (-1) := by
  have hs := wf_ofCount (show ofCount 1 = .ok _ from rfl)
  refine ⟨_, _, rfl, rfl, ?_, ?_⟩
  · rw [get, if_neg (by decide), testBit_setBit hs]
    rfl
  · rw [nextSetBit, if_neg (by decide), actualArrayLength_setBit hs, if_pos (by decide)]

end BitSet

end ActivemqCpp.Decaf
