import Mathlib.Tactic

/-!
# Binary heaps in an array

The first `n` cells of an array `f` as a binary tree: the parent of cell `i` is cell
`(i - 1) / 2`. `HeapOn le f n` orders every cell behind its parent. A value that moves up
(`Rising`) or down (`Sinking`) leaves the order broken at one place only; one exchange with
the parent or with the least child moves that place, and where nothing is left to exchange
the heap is whole. Exchanges keep the contents, as a multiset.
-/

namespace ActivemqCpp.Base.BinaryHeap

open Function Multiset

variable {α : Type*} {i : Nat}

def parent (i : Nat) : Nat := (i - 1) / 2

theorem parent_lt (hi : 0 < i) : parent i < i := by
  unfold parent
  omega

/-- The two cells with parent `c`. -/
theorem parent_eq_iff {c : Nat} (hi : 0 < i) : parent i = c ↔ i = 2 * c + 1 ∨ i = 2 * c + 2 := by
  unfold parent
  omega

def exchange (f : Nat → α) (i j : Nat) : Nat → α := fun k =>
  if k = i then f j else if k = j then f i else f k

theorem exchange_left (f : Nat → α) (i j : Nat) : exchange f i j i = f j := if_pos rfl

theorem exchange_right (f : Nat → α) (i j : Nat) : exchange f i j j = f i := by
  unfold exchange
  by_cases h : j = i
  · rw [if_pos h, h]
  · rw [if_neg h, if_pos rfl]

theorem exchange_other (f : Nat → α) {j k : Nat} (hi : k ≠ i) (hj : k ≠ j) :
    exchange f i j k = f k := by
  rw [exchange, if_neg hi, if_neg hj]

/-! ## Contents -/

/-- What the first `n` cells hold. -/
def contents (f : Nat → α) (n : Nat) : Multiset α := (range n).map f

theorem contents_succ (f : Nat → α) (n : Nat) : contents f (n + 1) = f n ::ₘ contents f n := by
  rw [contents, range_succ, map_cons, contents]

variable {n : Nat}

theorem contents_congr {f g : Nat → α} (h : ∀ i, i < n → f i = g i) : contents f n = contents g n :=
  map_congr rfl fun i hi => h i (mem_range.mp hi)

theorem mem_contents {f : Nat → α} {a : α} : a ∈ contents f n ↔ ∃ i, i < n ∧ f i = a := by
  simp [contents]

theorem map_swap_range {j : Nat} (hi : i < n) (hj : j < n) :
    (range n).map (Equiv.swap i j) = range n := by
  have hnodup := (nodup_range n).map (Equiv.swap i j).injective
  refine (Nodup.ext hnodup (nodup_range n)).mpr fun k => ?_
  rw [mem_map, mem_range]
  constructor
  · rintro ⟨m, hm, rfl⟩
    rw [mem_range] at hm
    rw [Equiv.swap_apply_def]
    split_ifs <;> omega
  · intro hk
    refine ⟨Equiv.swap i j k, ?_, Equiv.swap_apply_self i j k⟩
    rw [mem_range, Equiv.swap_apply_def]
    split_ifs <;> omega

theorem contents_exchange (f : Nat → α) {j : Nat} (hi : i < n) (hj : j < n) :
    contents (exchange f i j) n = contents f n := by
  have hcomp : exchange f i j = f ∘ Equiv.swap i j := by
    funext k
    show (if k = i then f j else if k = j then f i else f k) = f (Equiv.swap i j k)
    rw [Equiv.swap_apply_def]
    split_ifs <;> rfl
  rw [contents, hcomp, ← map_map, map_swap_range hi hj, contents]

/-- A cell leaves, and the last cell takes its place. -/
theorem contents_replace (f : Nat → α) (hi : i < n) :
    contents f (n + 1) = f i ::ₘ contents (update f i (f n)) n := by
  have hmem : i ∈ range n := mem_range.mpr hi
  have hrest : ((range n).erase i).map (update f i (f n)) =
      ((range n).erase i).map f := by
    refine map_congr rfl fun k hk => update_of_ne ?_ _ _
    exact ((nodup_range n).mem_erase_iff.mp hk).1
  have hsplit : ∀ g : Nat → α, contents g n = g i ::ₘ ((range n).erase i).map g := by
    intro g
    rw [contents, ← map_cons, cons_erase hmem]
  rw [contents_succ, hsplit f, hsplit (update f i (f n)), hrest, update_self, cons_swap]

/-! ## Order -/

variable (le : α → α → Prop)

/-- Every cell is behind its parent. -/
def HeapOn (f : Nat → α) (n : Nat) : Prop := ∀ i, 0 < i → i < n → le (f (parent i)) (f i)

/-- Cell `c` may be too small for its place, and nothing else is wrong. -/
structure Rising (f : Nat → α) (n c : Nat) : Prop where
  above : ∀ i, 0 < i → i < n → i ≠ c → le (f (parent i)) (f i)
  across : 0 < c → ∀ i, 0 < i → i < n → parent i = c → le (f (parent c)) (f i)

/-- Cell `c` may be too large for its place, and nothing else is wrong. -/
structure Sinking (f : Nat → α) (n c : Nat) : Prop where
  above : ∀ i, 0 < i → i < n → parent i ≠ c → le (f (parent i)) (f i)
  across : 0 < c → ∀ i, 0 < i → i < n → parent i = c → le (f (parent c)) (f i)

variable {le} {f g : Nat → α} {n c : Nat}

theorem HeapOn.congr (h : HeapOn le f n) (hfg : ∀ i, i < n → f i = g i) : HeapOn le g n := by
  intro i hi hin
  have hlt := parent_lt hi
  rw [← hfg i hin, ← hfg (parent i) (by omega)]
  exact h i hi hin

theorem HeapOn.mono {m : Nat} (h : HeapOn le f n) (hm : m ≤ n) : HeapOn le f m :=
  fun i hi him => h i hi (Nat.lt_of_lt_of_le him hm)

theorem Rising.done (h : Rising le f n c) (hdone : 0 < c → le (f (parent c)) (f c)) :
    HeapOn le f n := by
  intro i hi hin
  by_cases hic : i = c
  · rw [hic] at hi ⊢
    exact hdone hi
  · exact h.above i hi hin hic

theorem Sinking.done (h : Sinking le f n c)
    (hdone : ∀ i, 0 < i → i < n → parent i = c → le (f c) (f i)) : HeapOn le f n := by
  intro i hi hin
  by_cases hic : parent i = c
  · rw [hic]
    exact hdone i hi hin hic
  · exact h.above i hi hin hic

/-- A new last cell. -/
theorem HeapOn.append (h : HeapOn le f n) (a : α) : Rising le (update f n a) (n + 1) n := by
  refine ⟨?_, ?_⟩
  · intro i hi hin hne
    have hlt := parent_lt hi
    rw [update_of_ne hne, update_of_ne (by omega)]
    exact h i hi (by omega)
  · intro _ i hi hin hparent
    have hlt := parent_lt hi
    omega

section

variable (htrans : ∀ a b c, le a b → le b c → le a c)

include htrans

theorem HeapOn.root_le (hrefl : ∀ a, le a a) (h : HeapOn le f n) (hi : i < n) : le (f 0) (f i) := by
  induction i using Nat.strong_induction_on with
  | _ i ih =>
    by_cases hzero : i = 0
    · rw [hzero]
      exact hrefl _
    · have hpos := Nat.pos_of_ne_zero hzero
      have hlt := parent_lt hpos
      exact htrans _ _ _ (ih (parent i) hlt (by omega)) (h i hpos hi)

theorem Rising.step (h : Rising le f n c) (hc : 0 < c) (hcn : c < n)
    (hle : le (f c) (f (parent c))) : Rising le (exchange f c (parent c)) n (parent c) := by
  have hlt := parent_lt hc
  refine ⟨?_, ?_⟩
  · intro i hi hin hne
    by_cases hic : i = c
    · rw [hic, exchange_right, exchange_left]
      exact hle
    · rw [exchange_other f hic hne]
      by_cases hpc : parent i = c
      · rw [hpc, exchange_left]
        exact h.across hc i hi hin hpc
      · by_cases hpp : parent i = parent c
        · rw [hpp, exchange_right]
          have habove := h.above i hi hin hic
          rw [hpp] at habove
          exact htrans _ _ _ hle habove
        · rw [exchange_other f hpc hpp]
          exact h.above i hi hin hic
  · intro hpos i hi hin hparent
    have hplt := parent_lt hi
    have hpplt := parent_lt hpos
    have hgrand := h.above (parent c) hpos (by omega) (by omega)
    rw [exchange_other f (by omega) (by omega)]
    by_cases hic : i = c
    · rw [hic, exchange_left]
      exact hgrand
    · rw [exchange_other f hic (by omega)]
      have habove := h.above i hi hin hic
      rw [hparent] at habove
      exact htrans _ _ _ hgrand habove

omit htrans in
theorem Sinking.step (h : Sinking le f n c) {k : Nat} (hk : 0 < k) (hkn : k < n)
    (hparent : parent k = c) (hle : le (f k) (f c))
    (hleast : ∀ i, 0 < i → i < n → parent i = c → le (f k) (f i)) :
    Sinking le (exchange f c k) n k := by
  have hlt := parent_lt hk
  refine ⟨?_, ?_⟩
  · intro i hi hin hne
    have hplt := parent_lt hi
    by_cases hpc : parent i = c
    · rw [hpc, exchange_left]
      by_cases hik : i = k
      · rw [hik, exchange_right]
        exact hle
      · rw [exchange_other f (by omega) hik]
        exact hleast i hi hin hpc
    · rw [exchange_other f hpc hne]
      by_cases hic : i = c
      · rw [hic, exchange_left]
        exact h.across (by omega) k hk hkn hparent
      · have hik : i ≠ k := fun heq => hpc (by rw [heq]; exact hparent)
        rw [exchange_other f hic hik]
        exact h.above i hi hin hpc
  · intro _ i hi hin hik
    have hplt := parent_lt hi
    rw [hparent, exchange_left, exchange_other f (by omega) (by omega)]
    have habove := h.above i hi hin (by omega)
    rwa [hik] at habove

/-- The last cell takes the place of another one whose parent it is behind. -/
theorem HeapOn.replace (h : HeapOn le f (n + 1)) (hi : i < n)
    (hfits : 0 < i → le (f (parent i)) (f n)) : Sinking le (update f i (f n)) n i := by
  refine ⟨?_, ?_⟩
  · intro k hk hkn hne
    rw [update_of_ne hne]
    by_cases hki : k = i
    · rw [hki, update_self]
      exact hfits (by omega)
    · rw [update_of_ne hki]
      exact h k hk (by omega)
  · intro hpos k hk hkn hparent
    have hplt := parent_lt hk
    have hilt := parent_lt hpos
    rw [update_of_ne (by omega), update_of_ne (by omega)]
    have hki := h k hk (by omega)
    rw [hparent] at hki
    exact htrans _ _ _ (h i hpos (by omega)) hki

end

end ActivemqCpp.Base.BinaryHeap
