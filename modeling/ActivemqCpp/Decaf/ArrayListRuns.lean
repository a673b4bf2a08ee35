import ActivemqCpp.Decaf.ArrayList

/-!
# Runs of an `ArrayList`

The array against the sequence it stands for (`Represents`), over whole runs of all list
operations.

* `arraycopy` is described cell by cell; within one array the template needs ranges that do
  not overlap, or a copy towards the front (`arraycopyWithin_spec`).
* `expand` frees the cells for an insertion (`Represents.expand`), `write` fills them.
* Call by call the array answers as the sequence does (`represents_step`), and after every
  run every question has the answer of the sequence (`Observes`).

`Fits` says when: an insertion in front of other elements needs an element type that is
moved, or too little room, or as many new elements as it moves; and `ensureCapacity` must
not copy a list whose constructor has moved `head`.
-/

namespace ActivemqCpp.Decaf

open Base List ArrayList

namespace ArrayList

variable {E : Type}

/-! ## Copies -/

theorem getElem?_slice (a : List E) (p n k : Nat) :
    ((a.drop p).take n)[k]? = if k < n then a[p + k]? else none := by
  rw [getElem?_take, getElem?_drop]

variable {n : Nat}

theorem length_slice {a : List E} {p : Nat} (h : p + n ≤ a.length) :
    ((a.drop p).take n).length = n := by
  rw [length_take, length_drop]
  omega

/-- What a copy leaves in the cells of the destination. -/
def Copied (src dest a : List E) (srcPos destPos length : Nat) : Prop :=
  a.length = dest.length ∧ ∀ k,
    a[k]? = if destPos ≤ k ∧ k < destPos + length then src[srcPos + (k - destPos)]? else dest[k]?

theorem copied_store {src dest : List E} {srcPos destPos length : Nat}
    (hsrc : srcPos + length ≤ src.length) (hdest : destPos + length ≤ dest.length) :
    Copied src dest (store dest destPos ((src.drop srcPos).take length)) srcPos destPos length := by
  have hlength := length_slice hsrc
  refine ⟨length_store _ _ _, fun k => ?_⟩
  rw [getElem?_store _ _ _ _ (by rw [hlength]; exact hdest), hlength]
  by_cases hin : destPos ≤ k ∧ k < destPos + length
  · rw [if_pos hin, if_pos hin, getElem?_slice, if_pos (by omega)]
  · rw [if_neg hin, if_neg hin]

theorem arraycopy_spec (src : List E) (srcPos : Nat) (dest : List E) (destPos length : Nat)
    (hsrc : srcPos + length ≤ src.length) (hdest : destPos + length ≤ dest.length) :
    ∃ a, arraycopy src srcPos dest destPos length = .ok a ∧
      Copied src dest a srcPos destPos length :=
  ⟨_, if_pos ⟨hsrc, hdest⟩, copied_store hsrc hdest⟩

theorem Copied.same {src a : List E} (h : Copied src src a 0 0 n) (k : Nat) : a[k]? = src[k]? := by
  rw [h.2]
  split
  · rw [Nat.zero_add, Nat.sub_zero]
  · rfl

/-- Within one array: moved, towards the front, or without overlap. -/
theorem arraycopyWithin_spec (moves : Bool) (a : List E) (srcPos destPos length : Nat)
    (hsrc : srcPos + length ≤ a.length) (hdest : destPos + length ≤ a.length)
    (hsafe : moves = true ∨ destPos ≤ srcPos ∨ srcPos + length ≤ destPos) :
    ∃ b, arraycopyWithin moves a srcPos destPos length = .ok b ∧
      Copied a a b srcPos destPos length := by
  refine ⟨_, if_pos ⟨hsrc, hdest⟩, ?_⟩
  by_cases hmoves : moves = true
  · rw [if_pos hmoves]
    exact copied_store hsrc hdest
  · rw [if_neg hmoves]
    refine ⟨length_copyLoop _ _ _ _, fun k => ?_⟩
    rcases hsafe.resolve_left hmoves with hle | hdisjoint
    · exact getElem?_copyLoop_of_le k hsrc hle
    · exact getElem?_copyLoop_of_disjoint k hdest hdisjoint

theorem newArray_spec [Inhabited E] (h : n < 2 ^ 31) :
    ∃ a : List E, newArray n = .ok a ∧ a.length = n :=
  ⟨_, if_pos h, length_replicate⟩

/-! ## The sequence -/

structure Represents (s : ArrayList E) (xs : List E) : Prop where
  size : xs.length = s.curSize
  room : s.curSize ≤ s.capacity
  small : s.capacity < 2 ^ 31
  cells : ∀ k < s.curSize, s.elements[k]? = xs[k]?

variable {s : ArrayList E} {xs : List E} (h : s.Represents xs)
include h

theorem Represents.toArray : s.toArray = xs := by
  refine ext_getElem? fun k => ?_
  rw [ArrayList.toArray, getElem?_take]
  by_cases hk : k < s.curSize
  · rw [if_pos hk, h.cells k hk]
  · rw [if_neg hk, getElem?_eq_none (by rw [h.size]; omega)]

/-- A new array with the same elements in front. -/
theorem Represents.replace {t : ArrayList E} (hsize : t.curSize = s.curSize)
    (hroom : t.curSize ≤ t.capacity) (hsmall : t.capacity < 2 ^ 31)
    (hcells : ∀ k < s.curSize, t.elements[k]? = s.elements[k]?) : t.Represents xs where
  size := h.size.trans hsize.symm
  room := hroom
  small := hsmall
  cells := by
    intro k hk
    rw [hsize] at hk
    rw [hcells k hk, h.cells k hk]

/-! ## Insertions -/

/-- After `expand`: `amount` cells from `index` on are free, the others moved up. -/
structure Expanded (s t : ArrayList E) (xs : List E) (index amount : Nat) : Prop where
  size : t.curSize = s.curSize
  room : s.curSize + amount ≤ t.capacity
  small : t.capacity < 2 ^ 31
  before : ∀ k < index, t.elements[k]? = xs[k]?
  after : ∀ k, index ≤ k → k < s.curSize → t.elements[k + amount]? = xs[k]?

/-- When `expand` frees the cells as it should. -/
def Roomy (moves : Bool) (s : ArrayList E) (index amount : Nat) : Prop :=
  if s.Short amount then s.capacity + amount + 11 < 2 ^ 31
  else moves = true ∨ s.curSize ≤ index + amount

instance (moves : Bool) (s : ArrayList E) (index amount : Nat) :
    Decidable (s.Roomy moves index amount) := by
  unfold Roomy
  infer_instance

/-- The new elements are written between what was in front and what moved up. -/
theorem Expanded.write {t : ArrayList E} (values : List E)
    (hindex : index ≤ s.curSize) (ht : Expanded s t xs index values.length) :
    ∃ u, t.write index values = .ok u ∧ u.Represents (xs.take index ++ values ++ xs.drop index) := by
  have hroom : s.curSize + values.length ≤ t.elements.length := ht.room
  have hsize := h.size
  refine ⟨_, if_pos (by unfold capacity; omega), ?_, ?_, ?_, ?_⟩
  · show _ = t.curSize + values.length
    simp only [length_append, length_take, length_drop, ht.size]
    omega
  · show t.curSize + values.length ≤ (store t.elements index values).length
    rw [length_store, ht.size]
    exact hroom
  · show (store t.elements index values).length < _
    rw [length_store]
    exact ht.small
  · intro k hk
    replace hk : k < s.curSize + values.length := ht.size ▸ hk
    show (store t.elements index values)[k]? = _
    rw [getElem?_store _ _ _ _ (by omega), append_assoc, getElem?_append,
      length_take, Nat.min_eq_left (by omega)]
    by_cases hfront : k < index
    · rw [if_neg (by omega), if_pos hfront, getElem?_take, if_pos hfront]
      exact ht.before k hfront
    · rw [if_neg hfront, getElem?_append]
      by_cases hnew : k - index < values.length
      · rw [if_pos (by omega), if_pos hnew]
      · rw [if_neg (by omega), if_neg hnew, getElem?_drop,
          show index + (k - index - values.length) = k - values.length by omega]
        have hafter := ht.after (k - values.length) (by omega) (by omega)
        rwa [show k - values.length + values.length = k by omega] at hafter

variable [Inhabited E] {moves : Bool} {amount : Nat} (hamount : 0 < amount)
include hamount

theorem Represents.expandEnd (hroomy : s.Roomy moves s.curSize amount) :
    ∃ t, s.expandEnd amount = .ok t ∧ Expanded s t xs s.curSize amount := by
  have hroom : s.curSize ≤ s.elements.length := h.room
  rw [ArrayList.expandEnd, if_neg hamount.ne']
  by_cases hshort : s.Short amount
  · rw [Roomy, if_pos hshort] at hroomy
    obtain ⟨new, hnew, hlength⟩ := newArray_spec (E := E) hroomy
    obtain ⟨a, ha, hsize, hcells⟩ := arraycopy_spec s.elements 0 new 0 s.curSize (by omega)
      (by unfold capacity at hlength; omega)
    refine ⟨{ s with elements := a }, ?_, rfl, ?_, ?_, ?_, by intros; omega⟩
    · rw [if_pos hshort, hnew, ok_bind, ha]
      rfl
    · show _ ≤ a.length
      unfold capacity at hlength
      omega
    · show a.length < _
      omega
    · intro k hk
      show a[k]? = _
      rw [hcells k, if_pos (by omega), Nat.sub_zero, Nat.zero_add, h.cells k hk]
  · refine ⟨s, if_neg hshort, rfl, ?_, h.small, h.cells, by intros; omega⟩
    unfold Short at hshort
    omega

theorem Represents.expandFront (hroomy : s.Roomy moves 0 amount) :
    ∃ t, s.expandFront moves amount = .ok t ∧ Expanded s t xs 0 amount := by
  have hroom : s.curSize ≤ s.elements.length := h.room
  rw [ArrayList.expandFront, if_neg hamount.ne']
  -- the cells that are copied, from wherever to wherever
  have hdone src {dest a : List E} (hsrc : ∀ k < s.curSize, src[k]? = s.elements[k]?)
      (hroom : s.curSize + amount ≤ dest.length) (hsmall : dest.length < 2 ^ 31)
      (ha : Copied src dest a 0 amount s.curSize) :
      Expanded s { s with elements := a } xs 0 amount := by
    obtain ⟨hsize, hcells⟩ := ha
    refine ⟨rfl, ?_, ?_, by intros; omega, ?_⟩
    · show _ ≤ a.length
      omega
    · show a.length < _
      omega
    · intro k _ hk
      show a[k + amount]? = _
      rw [hcells, if_pos (by omega), Nat.zero_add, Nat.add_sub_cancel, hsrc k hk, h.cells k hk]
  by_cases hshort : s.Short amount
  · rw [Roomy, if_pos hshort] at hroomy
    obtain ⟨new, hnew, hlength⟩ := newArray_spec (E := E) hroomy
    have hbound : s.curSize + amount ≤ new.length := by
      unfold capacity at hlength
      omega
    obtain ⟨a, ha, hcopied⟩ := arraycopy_spec s.elements 0 new amount s.curSize (by omega)
      (by omega)
    rw [if_pos hshort, hnew]
    show ∃ t, ((if 0 < s.curSize then arraycopy s.elements 0 new amount s.curSize
      else .ok new) >>= _) = _ ∧ _
    split
    · rw [ha]
      exact ⟨_, rfl, hdone s.elements (fun _ _ => rfl) hbound (by omega) hcopied⟩
    · refine ⟨_, rfl, hdone new (by intros; omega) hbound (by omega) ?_⟩
      exact ⟨rfl, fun k => (if_neg (by omega)).symm⟩
  · have hspare : s.curSize + amount ≤ s.elements.length := by
      unfold Short capacity at hshort
      omega
    rw [Roomy, if_neg hshort] at hroomy
    obtain ⟨a, ha, hcopied⟩ := arraycopyWithin_spec moves s.elements 0 amount s.curSize
      (by omega) (by omega) (hroomy.imp_right fun hle => .inr (by omega))
    rw [if_neg hshort]
    show ∃ t, ((if 0 < s.curSize then arraycopyWithin moves s.elements 0 amount s.curSize
      else .ok s.elements) >>= _) = _ ∧ _
    split
    · rw [ha]
      exact ⟨_, rfl, hdone s.elements (fun _ _ => rfl) hspare h.small hcopied⟩
    · refine ⟨_, rfl, hdone s.elements (by intros; omega) hspare h.small ?_⟩
      exact ⟨rfl, fun k => (if_neg (by omega)).symm⟩

variable {index : Nat}

theorem Represents.expandMiddle (hindex : index < s.curSize) (hroomy : s.Roomy moves index amount) :
    ∃ t, s.expandMiddle moves index amount = .ok t ∧ Expanded s t xs index amount := by
  have hroom : s.curSize ≤ s.elements.length := h.room
  rw [ArrayList.expandMiddle, if_neg hamount.ne']
  have hpos : 0 < s.curSize := by omega
  -- the front of the first copy, and behind the gap the second one
  have hdone {src dest a b : List E} (hsrc : ∀ k < s.curSize, src[k]? = s.elements[k]?)
      (hroom : s.curSize + amount ≤ dest.length) (hsmall : dest.length < 2 ^ 31)
      (ha : Copied s.elements dest a 0 0 index)
      (hb : Copied src a b index (index + amount) (s.curSize - index)) :
      Expanded s { s with elements := b } xs index amount := by
    refine ⟨rfl, ?_, ?_, ?_, ?_⟩
    · show _ ≤ b.length
      rw [hb.1, ha.1]
      exact hroom
    · show b.length < _
      rw [hb.1, ha.1]
      exact hsmall
    · intro k hk
      show b[k]? = _
      rw [hb.2, if_neg (by omega), ha.2, if_pos (by omega), Nat.zero_add, Nat.sub_zero,
        h.cells k (by omega)]
    · intro k hle hk
      show b[k + amount]? = _
      rw [hb.2, if_pos (by omega), show index + (k + amount - (index + amount)) = k by omega,
        hsrc k hk, h.cells k hk]
  by_cases hshort : s.Short amount
  · rw [Roomy, if_pos hshort] at hroomy
    obtain ⟨new, hnew, hlength⟩ := newArray_spec (E := E) hroomy
    have hbound : s.curSize + amount ≤ new.length := by
      unfold capacity at hlength
      omega
    obtain ⟨a, ha, hfront⟩ := arraycopy_spec s.elements 0 new 0 index (by omega) (by omega)
    obtain ⟨b, hb, hback⟩ := arraycopy_spec s.elements index a (index + amount)
      (s.curSize - index) (by omega) (by rw [hfront.1]; omega)
    rw [if_pos hshort, hnew, ok_bind, if_pos hpos, ha, ok_bind, if_pos hindex, hb]
    exact ⟨_, rfl, hdone (fun _ _ => rfl) hbound (by omega) hfront hback⟩
  · have hspare : s.curSize + amount ≤ s.elements.length := by
      unfold Short capacity at hshort
      omega
    rw [Roomy, if_neg hshort] at hroomy
    obtain ⟨a, ha, hfront⟩ := arraycopyWithin_spec moves s.elements 0 0 index
      (by omega) (by omega) (.inr (.inl (Nat.le_refl _)))
    obtain ⟨b, hb, hback⟩ := arraycopyWithin_spec moves a index (index + amount)
      (s.curSize - index) (by rw [hfront.1]; omega) (by rw [hfront.1]; omega)
      (hroomy.imp_right fun hle => .inr (by omega))
    rw [if_neg hshort, if_pos hpos, ha, ok_bind, if_pos hindex, hb]
    exact ⟨_, rfl, hdone (fun k _ => hfront.same k) hspare h.small hfront hback⟩

theorem Represents.expand (hindex : index ≤ s.curSize) (hroomy : s.Roomy moves index amount) :
    ∃ t, s.expand moves index amount = .ok t ∧ Expanded s t xs index amount := by
  unfold ArrayList.expand
  split
  · next hzero =>
    subst hzero
    exact h.expandFront hamount hroomy
  · split
    · next hend =>
      subst hend
      exact h.expandEnd hamount hroomy
    · exact h.expandMiddle hamount (by omega) hroomy

omit hamount [Inhabited E]

/-! ## The other changes -/

theorem Represents.modified (n : Nat) :
    Represents { s with modCount := n } xs := ⟨h.size, h.room, h.small, h.cells⟩

/-- The list in a new array, copied from the first cell. -/
theorem Represents.copyTo [Inhabited E] (hle : s.curSize ≤ n) (hsmall : n < 2 ^ 31)
    (modCount : Nat) :
    ∃ t, (do
        let newElements ← newArray n
        let newElements ←
          (if 0 < s.curSize then arraycopy s.elements 0 newElements 0 s.curSize
          else .ok newElements)
        return { s with elements := newElements, modCount := modCount }) = Except.ok t ∧
      t.Represents xs := by
  have hroom : s.curSize ≤ s.elements.length := h.room
  obtain ⟨new, hnew, hlength⟩ := newArray_spec (E := E) hsmall
  obtain ⟨a, ha, hsize, hcells⟩ := arraycopy_spec s.elements 0 new 0 s.curSize (by omega) (by omega)
  rw [hnew]
  show ∃ t, ((if 0 < s.curSize then arraycopy s.elements 0 new 0 s.curSize else .ok new) >>= _) =
    _ ∧ _
  split
  · rw [ha]
    refine ⟨_, rfl, h.replace rfl ?_ ?_ ?_⟩
    · show s.curSize ≤ a.length
      omega
    · show a.length < _
      omega
    · intro k hk
      show a[k]? = _
      rw [hcells k, if_pos (by omega), Nat.zero_add, Nat.sub_zero]
  · refine ⟨_, rfl, h.replace rfl ?_ ?_ (by intros; omega)⟩
    · show s.curSize ≤ new.length
      omega
    · show new.length < _
      omega

theorem Represents.ensureCapacity [Inhabited E] {n : Int} (hsmall : n < 2 ^ 31)
    (hhead : n ≤ s.capacity ∨ s.curSize = 0 ∨ s.head = 0) :
    ∃ t, s.ensureCapacity n = .ok t ∧ t.Represents xs := by
  unfold ArrayList.ensureCapacity
  have hroom := h.room
  split
  · exact ⟨s, rfl, h⟩
  · next hgrow =>
    rw [if_neg (by omega : n ≠ 0)]
    have hcopy := h.copyTo (n := n.toNat) (by omega) (by omega) (s.modCount + 1)
    -- without elements nothing is copied, wherever `head` is
    rcases Nat.eq_zero_or_pos s.curSize with hzero | hpos
    · simp only [hzero] at hcopy ⊢
      exact hcopy
    · have hhead' : s.head = 0 := by omega
      rw [hhead'] at hcopy ⊢
      exact hcopy

theorem Represents.trimToSize [Inhabited E] : ∃ t, s.trimToSize = .ok t ∧ t.Represents xs := by
  have hsmall := h.small
  unfold ArrayList.trimToSize
  split
  · refine h.copyTo ?_ ?_ (s.modCount + 1)
    · split <;> omega
    · split <;> omega
  · exact ⟨_, rfl, h.modified _⟩

theorem Represents.clear [Inhabited E] : ∃ t, s.clear = .ok t ∧ t.Represents [] := by
  unfold ArrayList.clear
  split
  · refine ⟨_, rfl, rfl, Nat.zero_le _, ?_, fun k hk => absurd hk (Nat.not_lt_zero k)⟩
    show (replicate 10 default).length < _
    simp
  · next hempty =>
    have hnil : xs = [] := length_eq_zero_iff.mp (by rw [h.size]; omega)
    subst hnil
    exact h.ensureCapacity (by decide) (.inr (.inl (by omega)))

/-! ## One element -/

/-- The element at an index of a sequence. -/
def seqGet (xs : List E) (index : Int) : Except Fault E :=
  if index < 0 then .error (.thrown .indexOutOfBounds)
  else
    match xs[index.toNat]? with
    | some e => .ok e
    | none => .error (.thrown .indexOutOfBounds)

theorem Represents.get (index : Int) : s.get index = seqGet xs index := by
  have hsize := h.size
  unfold ArrayList.get seqGet
  by_cases hneg : index < 0
  · rw [if_pos (.inl hneg), if_pos hneg]
  · rw [if_neg hneg]
    by_cases hlarge : s.curSize ≤ index
    · rw [if_pos (.inr hlarge), getElem?_eq_none (by omega)]
    · rw [if_neg (by omega), h.cells index.toNat (by omega)]
      rw [getElem?_eq_getElem (by omega)]

omit h in
/-- An index inside, or an exception. -/
theorem seqGet_cases (xs : List E) (index : Int) :
    (seqGet xs index = .error (.thrown .indexOutOfBounds) ∧
      ¬ (0 ≤ index ∧ index < xs.length)) ∨
    ∃ e, seqGet xs index = .ok e ∧ xs[index.toNat]? = some e ∧ 0 ≤ index ∧
      index < xs.length := by
  unfold seqGet
  by_cases hneg : index < 0
  · exact .inl ⟨if_pos hneg, by omega⟩
  · rw [if_neg hneg]
    by_cases hlarge : index < xs.length
    · have hlt : index.toNat < xs.length := by omega
      rw [getElem?_eq_getElem hlt]
      exact .inr ⟨_, rfl, rfl, by omega, hlarge⟩
    · rw [getElem?_eq_none (by omega)]
      exact .inl ⟨rfl, by omega⟩

theorem Represents.set (index : Nat) (element : E) :
    Represents { s with elements := s.elements.set index element } (xs.set index element) where
  size := by rw [length_set, h.size]
  room := by
    show s.curSize ≤ (s.elements.set index element).length
    rw [length_set]
    exact h.room
  small := by
    show (s.elements.set index element).length < _
    rw [length_set]
    exact h.small
  cells := by
    intro k hk
    have hroom : s.curSize ≤ s.elements.length := h.room
    have hsize := h.size
    replace hk : k < s.curSize := hk
    show (s.elements.set index element)[k]? = _
    by_cases heq : index = k
    · subst heq
      rw [getElem?_set_self (by omega), getElem?_set_self (by omega)]
    · rw [getElem?_set_ne heq, getElem?_set_ne heq, h.cells k hk]

/-- The elements behind the removed one are copied towards the front. -/
theorem Represents.removeAt [Inhabited E] (moves : Bool) {index : Int} {e : E}
    (hget : seqGet xs index = .ok e) (hpos : 0 ≤ index) (hlt : index < xs.length) :
    ∃ t, s.removeAt moves index = .ok (t, e) ∧ t.Represents (xs.eraseIdx index.toNat) := by
  have hroom : s.curSize ≤ s.elements.length := h.room
  have hsize := h.size
  obtain ⟨a, ha, hfront⟩ := arraycopyWithin_spec moves s.elements 0 0 index.toNat (by omega)
    (by omega) (.inr (.inl (Nat.le_refl _)))
  obtain ⟨b, hb, hback⟩ := arraycopyWithin_spec moves a (index.toNat + 1) index.toNat
    (s.curSize - index.toNat - 1) (by rw [hfront.1]; omega) (by rw [hfront.1]; omega)
    (.inr (.inl (by omega)))
  rw [ArrayList.removeAt, h.get, hget, ok_bind, ha, ok_bind, hb]
  refine ⟨_, rfl, ?_, ?_, ?_, ?_⟩
  · show _ = s.curSize - 1
    rw [length_eraseIdx_of_lt (by omega), hsize]
  · show s.curSize - 1 ≤ (b.set _ _).length
    rw [length_set, hback.1, hfront.1]
    omega
  · show (b.set _ _).length < _
    rw [length_set, hback.1, hfront.1]
    exact h.small
  · intro k hk
    replace hk : k < s.curSize - 1 := hk
    show (b.set (s.curSize - 1) default)[k]? = _
    rw [getElem?_set_ne (by omega), hback.2, getElem?_eraseIdx]
    by_cases hbefore : k < index.toNat
    · rw [if_neg (by omega), if_pos hbefore, hfront.same, h.cells k (by omega)]
    · rw [if_pos (by omega), if_neg hbefore, hfront.same,
        show index.toNat + 1 + (k - index.toNat) = k + 1 by omega, h.cells (k + 1) (by omega)]

/-! ## Iteration and search -/

theorem Represents.drain (n : Nat) (hn : n ≤ s.curSize) :
    s.drain ⟨n, s.modCount⟩ n = .ok (xs.drop (s.curSize - n)) := by
  have hsize := h.size
  induction n with
  | zero => rw [ArrayList.drain, drop_of_length_le (by omega)]
  | succ n ih =>
    have hlt : s.curSize - (n + 1) < xs.length := by omega
    have hget : s.get (s.curSize - ((n + 1 : Nat) : Int)) =
        .ok xs[s.curSize - (n + 1)] := by
      have hindex : (s.curSize - ((n + 1 : Nat) : Int)).toNat = s.curSize - (n + 1) := by
        omega
      rw [h.get, seqGet, if_neg (by omega), hindex, getElem?_eq_getElem hlt]
    have hnext : s.next ⟨((n + 1 : Nat) : Int), s.modCount⟩ =
        .ok (xs[s.curSize - (n + 1)], ⟨n, s.modCount⟩) := by
      rw [next]
      rw [hget]
      simp
    rw [ArrayList.drain, if_pos (by simp), hnext]
    show (s.drain ⟨n, s.modCount⟩ n >>= _) = _
    rw [ih (by omega), drop_eq_getElem_cons hlt, show s.curSize - (n + 1) + 1 = s.curSize - n by omega]
    rfl

theorem Represents.iterate : s.iterate = .ok xs := by
  have hdrain := h.drain s.curSize (Nat.le_refl _)
  rw [Nat.sub_self] at hdrain
  exact hdrain

variable [DecidableEq E]

/-- The first index of a value in a sequence, or -1. -/
def seqIndexOf (xs : List E) (value : E) : Int :=
  if value ∈ xs then (xs.idxOf value : Int) else -1

theorem Represents.indexOfFrom (value : E) (i n : Nat) (hn : i + n = s.curSize) :
    s.indexOfFrom value i n =
      if value ∈ xs.drop i then ((i + (xs.drop i).idxOf value : Nat) : Int) else -1 := by
  have hsize := h.size
  induction n generalizing i with
  | zero =>
    rw [ArrayList.indexOfFrom, drop_of_length_le (by omega), if_neg not_mem_nil]
  | succ n ih =>
    have hlt : i < xs.length := by omega
    rw [ArrayList.indexOfFrom, h.cells i (by omega), drop_eq_getElem_cons hlt,
      getElem?_eq_getElem hlt, ih (i + 1) (by omega)]
    by_cases heq : xs[i] = value
    · rw [if_pos (by rw [heq]), if_pos (by rw [heq]; exact mem_cons_self),
        heq, idxOf_cons_self, Nat.add_zero]
    · rw [if_neg (by simpa using heq), idxOf_cons_ne _ heq]
      by_cases hmem : value ∈ xs.drop (i + 1)
      · rw [if_pos hmem, if_pos (mem_cons_of_mem _ hmem)]
        omega
      · rw [if_neg hmem, if_neg (by rw [mem_cons, not_or]; exact ⟨Ne.symm heq, hmem⟩)]

theorem Represents.indexOf (value : E) : s.indexOf value = seqIndexOf xs value := by
  rw [ArrayList.indexOf, h.indexOfFrom value 0 s.curSize (Nat.zero_add _), drop_zero,
    seqIndexOf, Nat.zero_add]

/-! ## Runs -/

end ArrayList

/-- The calls that change a list. -/
inductive ArrayList.Op (E : Type)
  | add (value : E)
  | addAt (index : Int) (element : E)
  | addAll (collection : List E)
  | addAllAt (index : Int) (collection : List E)
  | set (index : Int) (element : E)
  | remove (value : E)
  | removeAt (index : Int)
  | ensureCapacity (minimumCapacity : Int)
  | trimToSize
  | clear

/-- What a call returns. -/
inductive ArrayList.Result (E : Type)
  | done
  | flag (changed : Bool)
  | element (old : E)
deriving DecidableEq

namespace ArrayList

variable {E : Type} [Inhabited E] [DecidableEq E]

def apply (moves : Bool) (s : ArrayList E) : Op E → Except Fault (ArrayList E × Result E)
  | .add value => do return (← s.add value, .flag true)
  | .addAt index element => do return (← s.addAt moves index element, .done)
  | .addAll collection => do
    let (t, changed) ← s.addAll collection
    return (t, .flag changed)
  | .addAllAt index collection => do
    let (t, changed) ← s.addAllAt moves index collection
    return (t, .flag changed)
  | .set index element => do
    let (t, old) ← s.set index element
    return (t, .element old)
  | .remove value => do
    let (t, changed) ← s.remove moves value
    return (t, .flag changed)
  | .removeAt index => do
    let (t, old) ← s.removeAt moves index
    return (t, .element old)
  | .ensureCapacity n => do return (← s.ensureCapacity n, .done)
  | .trimToSize => do return (← s.trimToSize, .done)
  | .clear => do return (← s.clear, .done)

/-- The same call on a sequence. -/
def seqApply (xs : List E) : Op E → Except Fault (List E × Result E)
  | .add value => .ok (xs ++ [value], .flag true)
  | .addAt index element =>
    if 0 ≤ index ∧ index ≤ xs.length then
      .ok (xs.take index.toNat ++ [element] ++ xs.drop index.toNat, .done)
    else .error (.thrown .indexOutOfBounds)
  | .addAll collection => .ok (xs ++ collection, .flag !collection.isEmpty)
  | .addAllAt index collection =>
    if 0 ≤ index ∧ index ≤ xs.length then
      .ok (xs.take index.toNat ++ collection ++ xs.drop index.toNat, .flag !collection.isEmpty)
    else .error (.thrown .indexOutOfBounds)
  | .set index element => do return (xs.set index.toNat element, .element (← seqGet xs index))
  | .remove value => .ok (xs.erase value, .flag (value ∈ xs))
  | .removeAt index => do return (xs.eraseIdx index.toNat, .element (← seqGet xs index))
  | .ensureCapacity _ | .trimToSize => .ok (xs, .done)
  | .clear => .ok ([], .done)

/-- A call that throws leaves the state; `none` is a broken list. -/
def after {σ : Type} (s : σ) : Except Fault (σ × Result E) → Option σ × Except Fault (Result E)
  | .ok (t, result) => (some t, .ok result)
  | .error (.thrown e) => (some s, .error (.thrown e))
  | .error .broken => (none, .error .broken)

def machine (moves : Bool) : Machine (Option (ArrayList E)) (Op E) (Except Fault (Result E)) where
  step
    | none, _ => (none, .error .broken)
    | some s, op => after s (s.apply moves op)

def seqMachine : Machine (Option (List E)) (Op E) (Except Fault (Result E)) where
  step
    | none, _ => (none, .error .broken)
    | some xs, op => after xs (seqApply xs op)

/-- The calls that the array can carry out: the capacity stays below 2^31, an insertion in
front of other elements finds no room for a copy over itself, and `ensureCapacity` does not
copy from a `head` that is not the first cell. -/
def Fits (moves : Bool) : Option (ArrayList E) → Op E → Prop
  | none, _ => False
  | some s, .add _ => s.Roomy moves s.curSize 1
  | some s, .addAt index _ => 0 ≤ index → index ≤ s.curSize → s.Roomy moves index.toNat 1
  | some s, .addAll collection =>
    collection ≠ [] → s.Roomy moves s.curSize collection.length
  | some s, .addAllAt index collection => 0 ≤ index → index ≤ s.curSize → collection ≠ [] →
    s.Roomy moves index.toNat collection.length
  | some s, .ensureCapacity n =>
    n < 2 ^ 31 ∧ (n ≤ s.capacity ∨ s.curSize = 0 ∨ s.head = 0)
  | some _, .set _ _ | some _, .remove _ | some _, .removeAt _ | some _, .trimToSize
  | some _, .clear => True

instance (moves : Bool) (s : Option (ArrayList E)) (op : Op E) : Decidable (Fits moves s op) :=
  match s, op with
  | none, _ => .isFalse id
  | some s, .add _ => inferInstanceAs (Decidable (s.Roomy _ _ _))
  | some s, .addAt _ _ => inferInstanceAs (Decidable (_ → _ → s.Roomy _ _ _))
  | some s, .addAll _ => inferInstanceAs (Decidable (_ → s.Roomy _ _ _))
  | some s, .addAllAt _ _ => inferInstanceAs (Decidable (_ → _ → _ → s.Roomy _ _ _))
  | some _, .ensureCapacity _ => inferInstanceAs (Decidable (_ ∧ _))
  | some _, .set _ _ | some _, .remove _ | some _, .removeAt _ | some _, .trimToSize
  | some _, .clear => .isTrue trivial

/-- Every question is answered from the sequence. -/
structure Observes (s : ArrayList E) (xs : List E) : Prop where
  size : s.size = xs.length
  isEmpty : s.isEmpty = xs.isEmpty
  get : ∀ index, s.get index = seqGet xs index
  indexOf : ∀ value, s.indexOf value = seqIndexOf xs value
  contains : ∀ value, s.contains value = decide (value ∈ xs)
  toArray : s.toArray = xs
  iterate : s.iterate = .ok xs

variable {s : ArrayList E} {xs : List E}

omit [Inhabited E] in
theorem seqIndexOf_eq_neg_one {value : E} : seqIndexOf xs value = -1 ↔ value ∉ xs := by
  unfold seqIndexOf
  by_cases hmem : value ∈ xs
  · rw [if_pos hmem]
    exact ⟨by omega, fun hnot => absurd hmem hnot⟩
  · rw [if_neg hmem]
    exact ⟨fun _ => hmem, fun _ => rfl⟩

variable (h : s.Represents xs)
include h

omit [Inhabited E] in
theorem Represents.observes : s.Observes xs where
  size := h.size.symm
  isEmpty := by
    rw [isEmpty, ← h.size]
    cases xs <;> simp
  get := h.get
  indexOf := h.indexOf
  contains := by
    intro value
    rw [contains, h.indexOf]
    by_cases hmem : value ∈ xs
    · have hne := mt seqIndexOf_eq_neg_one.mp (not_not.mpr hmem)
      simp [hmem, hne]
    · simp [hmem, seqIndexOf_eq_neg_one.mpr hmem]
  toArray := h.toArray
  iterate := h.iterate

/-- The state after a call, and what it returns. -/
def Agrees (moves : Bool) (s : ArrayList E) (xs : List E) (op : Op E) : Prop :=
  (∃ t ys result, s.apply moves op = .ok (t, result) ∧ seqApply xs op = .ok (ys, result) ∧
    t.Represents ys) ∨
  ∃ e, s.apply moves op = .error (.thrown e) ∧ seqApply xs op = .error (.thrown e)

variable {moves : Bool}

theorem agrees_add (value : E)
    (hfits : s.Roomy moves s.curSize 1) : Agrees moves s xs (.add value) := by
  obtain ⟨t, ht, hexpanded⟩ := h.expandEnd Nat.one_pos hfits
  obtain ⟨u, hu, hrep⟩ := Expanded.write h [value] (Nat.le_refl _) hexpanded
  rw [← h.size, take_length, drop_length, append_nil] at hrep
  refine .inl ⟨u, _, .flag true, ?_, rfl, hrep⟩
  show ((s.expandEnd 1 >>= fun t => t.write t.curSize [value]) >>= _) = _
  rw [ht, ok_bind, hexpanded.size, hu]
  rfl

theorem agrees_addAll (collection : List E)
    (hfits : collection ≠ [] → s.Roomy moves s.curSize collection.length) :
    Agrees moves s xs (.addAll collection) := by
  cases collection with
  | nil => exact .inl ⟨s, xs, .flag false, rfl, by rw [seqApply, append_nil]; rfl, h⟩
  | cons value values =>
    obtain ⟨t, ht, hexpanded⟩ := h.expandEnd (Nat.succ_pos values.length) (hfits (cons_ne_nil _ _))
    obtain ⟨u, hu, hrep⟩ := Expanded.write h (value :: values) (Nat.le_refl _) hexpanded
    rw [← h.size, take_length, drop_length, append_nil] at hrep
    refine .inl ⟨u, _, .flag true, ?_, rfl, hrep⟩
    show ((s.expandEnd (values.length + 1) >>= fun t =>
      t.write t.curSize (value :: values) >>= _) >>= _) = _
    rw [ht, ok_bind, hexpanded.size, hu]
    rfl

variable (index : Int)

theorem agrees_addAt (element : E)
    (hfits : 0 ≤ index → index ≤ s.curSize → s.Roomy moves index.toNat 1) :
    Agrees moves s xs (.addAt index element) := by
  have hsize := h.size
  by_cases hin : 0 ≤ index ∧ index ≤ xs.length
  · obtain ⟨t, ht, hexpanded⟩ := h.expand Nat.one_pos (by omega)
      (hfits hin.1 (by rw [← hsize]; exact hin.2))
    obtain ⟨u, hu, hrep⟩ := Expanded.write h [element] (by omega) hexpanded
    refine .inl ⟨u, _, .done, ?_, if_pos hin, hrep⟩
    show (s.addAt moves index element >>= _) = _
    rw [addAt, if_neg (by omega), ht, ok_bind, hu]
    rfl
  · refine .inr ⟨.indexOutOfBounds, ?_, if_neg hin⟩
    show (s.addAt moves index element >>= _) = _
    rw [addAt, if_pos (by omega)]
    rfl

theorem agrees_addAllAt (collection : List E)
    (hfits : 0 ≤ index → index ≤ s.curSize → collection ≠ [] →
      s.Roomy moves index.toNat collection.length) :
    Agrees moves s xs (.addAllAt index collection) := by
  have hsize := h.size
  by_cases hin : 0 ≤ index ∧ index ≤ xs.length
  · cases collection with
    | nil =>
      refine .inl ⟨s, xs, .flag false, ?_, ?_, h⟩
      · show (s.addAllAt moves index [] >>= _) = _
        rw [addAllAt, if_neg (by omega)]
        rfl
      · rw [seqApply, if_pos hin, append_nil, take_append_drop]
        rfl
    | cons value values =>
      obtain ⟨t, ht, hexpanded⟩ := h.expand (Nat.succ_pos values.length) (by omega)
        (hfits hin.1 (by rw [← hsize]; exact hin.2) (cons_ne_nil _ _))
      obtain ⟨u, hu, hrep⟩ := Expanded.write h (value :: values) (by omega) hexpanded
      refine .inl ⟨u, _, .flag true, ?_, if_pos hin, hrep⟩
      show (s.addAllAt moves index (value :: values) >>= _) = _
      rw [addAllAt, if_neg (by omega)]
      show ((s.expand moves index.toNat (values.length + 1) >>= _) >>= _) = _
      rw [ht, ok_bind, hu]
      rfl
  · refine .inr ⟨.indexOutOfBounds, ?_, if_neg hin⟩
    show (s.addAllAt moves index collection >>= _) = _
    rw [addAllAt, if_pos (by omega)]
    rfl

theorem agrees_set (element : E) : Agrees moves s xs (.set index element) := by
  rw [Agrees, apply, set, h.get, seqApply]
  rcases seqGet_cases xs index with ⟨hget, -⟩ | ⟨e, hget, -⟩
  · rw [hget]
    exact .inr ⟨.indexOutOfBounds, rfl, rfl⟩
  · rw [hget]
    exact .inl ⟨_, _, .element e, rfl, rfl, h.set index.toNat element⟩

theorem agrees_removeAt : Agrees moves s xs (.removeAt index) := by
  rw [Agrees, apply, seqApply]
  rcases seqGet_cases xs index with ⟨hget, -⟩ | ⟨e, hget, -, hpos, hlt⟩
  · rw [removeAt, h.get, hget]
    exact .inr ⟨.indexOutOfBounds, rfl, rfl⟩
  · obtain ⟨t, ht, hrep⟩ := h.removeAt moves hget hpos hlt
    rw [ht, hget]
    exact .inl ⟨t, _, .element e, rfl, rfl, hrep⟩

theorem agrees_remove (value : E) : Agrees moves s xs (.remove value) := by
  have hindex := h.indexOf value
  by_cases hmem : value ∈ xs
  · have hlt := idxOf_lt_length_of_mem hmem
    have hsome : seqIndexOf xs value = (xs.idxOf value) := if_pos hmem
    have hget : seqGet xs (xs.idxOf value) = .ok value := by
      rw [seqGet, if_neg (by omega), Int.toNat_natCast, getElem?_eq_getElem hlt, getElem_idxOf]
    obtain ⟨t, ht, hrep⟩ := h.removeAt moves hget (by omega) (by omega)
    rw [Int.toNat_natCast, eraseIdx_idxOf_eq_erase] at hrep
    refine .inl ⟨t, _, .flag true, ?_, ?_, hrep⟩
    · show (s.remove moves value >>= _) = _
      rw [remove, hindex, hsome, ht]
      rfl
    · rw [seqApply, decide_eq_true hmem]
  · refine .inl ⟨s, xs, .flag false, ?_, ?_, h⟩
    · show (s.remove moves value >>= _) = _
      rw [remove, hindex, if_neg (not_not.mpr (seqIndexOf_eq_neg_one.mpr hmem))]
      rfl
    · rw [seqApply, decide_eq_false hmem, erase_of_not_mem hmem]

theorem agrees_of_fits (op : Op E) (hfits : Fits moves (some s) op) : Agrees moves s xs op := by
  cases op with
  | add value => exact agrees_add h value hfits
  | addAt index element => exact agrees_addAt h index element hfits
  | addAll collection => exact agrees_addAll h collection hfits
  | addAllAt index collection => exact agrees_addAllAt h index collection hfits
  | set index element => exact agrees_set h index element
  | remove value => exact agrees_remove h value
  | removeAt index => exact agrees_removeAt h index
  | ensureCapacity n =>
    obtain ⟨t, ht, hrep⟩ := h.ensureCapacity hfits.1 hfits.2
    exact .inl ⟨t, xs, .done, by rw [apply, ht]; rfl, rfl, hrep⟩
  | trimToSize =>
    obtain ⟨t, ht, hrep⟩ := h.trimToSize
    exact .inl ⟨t, xs, .done, by rw [apply, ht]; rfl, rfl, hrep⟩
  | clear =>
    obtain ⟨t, ht, hrep⟩ := h.clear
    exact .inl ⟨t, [], .done, by rw [apply, ht]; rfl, rfl, hrep⟩

/-- The states of the two machines that belong together. -/
def Follows (s : Option (ArrayList E)) (xs : Option (List E)) : Prop :=
  ∃ t ys, s = some t ∧ xs = some ys ∧ t.Represents ys

omit h

theorem follows_step {s : Option (ArrayList E)} {xs : Option (List E)} (h : Follows s xs)
    (op : Op E) (hfits : Fits moves s op) :
    Follows ((machine moves).step s op).1 (seqMachine.step xs op).1 ∧
      ((machine moves).step s op).2 = (seqMachine.step xs op).2 := by
  obtain ⟨t, ys, rfl, rfl, hrep⟩ := h
  rcases agrees_of_fits hrep op hfits with ⟨u, zs, result, hu, hzs, hnext⟩ | ⟨e, hu, hzs⟩
  · simp only [machine, seqMachine, hu, hzs, after]
    exact ⟨⟨u, zs, rfl, rfl, hnext⟩, trivial⟩
  · simp only [machine, seqMachine, hu, hzs, after]
    exact ⟨⟨t, ys, rfl, rfl, hrep⟩, trivial⟩

/-- The lists that the constructors make, with their elements. -/
inductive Built : ArrayList E → List E → Prop
  | empty {s : _} : new = .ok s → Built s []
  | sized {s : _} (initialCapacity : Int) : ofCapacity initialCapacity = .ok s → Built s []
  | collection {s : _} (xs : List E) : ofCollection xs = .ok s → Built s xs
  | copy {s : _} (other : ArrayList E) {xs : List E} : other.iterate = .ok xs → copy other = .ok s →
      Built s xs

omit [DecidableEq E] in
theorem represents_ofCollection (h : ofCollection xs = .ok s) : s.Represents xs := by
  unfold ofCollection at h
  by_cases hsmall : xs.length + xs.length / 10 < 2 ^ 31
  · rw [newArray, if_pos hsmall] at h
    cases h
    have hlength : (replicate (xs.length + xs.length / 10) (default : E)).length =
        xs.length + xs.length / 10 := length_replicate
    refine ⟨rfl, ?_, ?_, ?_⟩
    · show xs.length ≤ (store _ 0 xs).length
      rw [length_store]
      omega
    · show (store _ 0 xs).length < _
      rw [length_store, hlength]
      exact hsmall
    · intro k hk
      replace hk : k < xs.length := hk
      show (store _ 0 xs)[k]? = _
      rw [getElem?_store _ _ _ _ (by omega), if_pos (by omega), Nat.sub_zero]
  · rw [newArray, if_neg hsmall] at h
    cases h

omit [DecidableEq E] [Inhabited E] in
theorem represents_empty {n : Nat} (hsize : s.curSize = 0)
    (hcapacity : s.capacity = n) (hsmall : n < 2 ^ 31) : s.Represents [] where
  size := hsize.symm
  room := by omega
  small := by omega
  cells := by
    intro k hk
    omega

omit [DecidableEq E] in
theorem Built.represents (h : Built s xs) : s.Represents xs := by
  cases h with
  | empty hnew =>
    cases hnew
    exact represents_empty (n := 10) rfl rfl (by decide)
  | sized n hnew =>
    unfold ofCapacity at hnew
    split at hnew
    · cases hnew
    · by_cases hsmall : n.toNat < 2 ^ 31
      · rw [newArray, if_pos hsmall] at hnew
        cases hnew
        exact represents_empty rfl length_replicate hsmall
      · rw [newArray, if_neg hsmall] at hnew
        cases hnew
  | collection xs hnew => exact represents_ofCollection hnew
  | copy other hiterate hnew =>
    rw [ArrayList.copy, hiterate] at hnew
    exact represents_ofCollection hnew

end ArrayList

/-- For every element type, every list that a constructor makes and every run of calls that
the array can carry out, the array answers call by call as the sequence does, and after it
every question to the array has the answer of the sequence. -/
theorem arrayList_refines_seq {E : Type} [Inhabited E] [DecidableEq E] (moves : Bool)
    {s : ArrayList E} {xs : List E} (hbuilt : Built s xs) (ops : List (Op E))
    (hfits : (machine moves).Meets (Fits moves) (some s) ops) :
    (machine moves).trace (some s) ops = seqMachine.trace (some xs) ops ∧
      ∃ t ys, (machine moves).run (some s) ops = some t ∧
        seqMachine.run (some xs) ops = some ys ∧ t.Observes ys := by
  obtain ⟨htrace, t, ys, ht, hys, hrep⟩ := Machine.trace_eq_of_simulation
    (R := Follows) (fun s xs op h hfits => follows_step h op hfits)
    ⟨s, xs, rfl, rfl, hbuilt.represents⟩ hfits
  exact ⟨htrace, t, ys, ht, hys, hrep.observes⟩

/-- A list of strings made from a collection of three: it grows at the end, is trimmed, and
takes a new element in front when it has no room. -/
theorem arrayList_refines_three :
    let machine := machine false
    let ops : List (Op String) :=
      [.add "d", .removeAt 0, .trimToSize, .addAt 0 "e", .set 1 "f", .remove "c",
        .addAllAt 1 ["g", "h", "i"], .addAt 9 "j"]
    let s : ArrayList String := ⟨["a", "b", "c"], 3, 3, 0⟩
    machine.trace (some s) ops = seqMachine.trace (some ["a", "b", "c"]) ops ∧
      ∃ t ys, machine.run (some s) ops = some t ∧
        seqMachine.run (some ["a", "b", "c"]) ops = some ys ∧ t.Observes ys :=
  arrayList_refines_seq false (.collection ["a", "b", "c"] (by decide)) _ (by decide)

/-- Two ways to lose elements of a list of strings. With room to spare, an insertion in
front copies the first element over the second. And a list made from a collection of two
starts to copy behind its last cell when its capacity is raised. -/
theorem arrayList_loses_elements :
    (∃ s, new = .ok s ∧ ((machine false).run (some s)
        [.add "a", .add "b", .addAt 0 "c"]).map ArrayList.toArray = some ["c", "a", "a"] ∧
      seqMachine.run (some []) [.add "a", .add "b", .addAt 0 "c"] =
        some ["c", "a", "b"]) ∧
    ∃ s, ofCollection ["a", "b"] = .ok s ∧
      (machine false).run (some s) [.ensureCapacity 20] = none := by
  refine ⟨⟨_, rfl, ?_, ?_⟩, _, rfl, ?_⟩
  · decide
  · decide
  · decide

end ActivemqCpp.Decaf
