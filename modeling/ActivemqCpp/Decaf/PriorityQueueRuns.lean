import ActivemqCpp.Decaf.PriorityQueue

/-!
# A `PriorityQueue` as a multiset with minimum

`contents` is what the cells in use hold, and what a traversal shows. `Ordered` is the heap
order; `offer` and the removal of the first element keep it. The removal of another element
puts the last one in its place and only moves it down, so it keeps the order if the last
element is behind the parent of that place (`Fits`).
-/

namespace ActivemqCpp.Decaf

open Base BinaryHeap Function PriorityQueue

namespace PriorityQueue

variable {E : Type}

def contents (s : PriorityQueue E) : Multiset E := BinaryHeap.contents s.elements s.size

/-- What the documentation of `Comparator` asks for: the sign changes with the order of the
arguments, and the order is transitive. -/
structure TotalOrder (compare : E → E → Int) : Prop where
  flip : ∀ a b, compare a b < 0 ↔ 0 < compare b a
  trans : ∀ a b c, compare a b ≤ 0 → compare b c ≤ 0 → compare a c ≤ 0

/-- A heap in the cells in use. -/
structure Ordered (compare : E → E → Int) (s : PriorityQueue E) : Prop where
  fits : s.size ≤ s.capacity
  small : s.capacity < 2 ^ 31
  heap : HeapOn (fun a b => compare a b ≤ 0) s.elements s.size

variable {compare : E → E → Int}

theorem TotalOrder.refl (h : TotalOrder compare) (a : E) : compare a a ≤ 0 := by
  have hflip := h.flip a a
  omega

theorem TotalOrder.le_of_not_lt (h : TotalOrder compare) {a b : E} (hlt : ¬ compare a b < 0) :
    compare b a ≤ 0 := by
  have hflip := h.flip a b
  omega

theorem ordered_new [Inhabited E] {n : Nat} (hn : n < 2 ^ 31) :
    Ordered compare (new n : PriorityQueue E) :=
  ⟨Nat.zero_le _, hn, fun i _ hi => absurd hi (Nat.not_lt_zero i)⟩

/-! ## The loops -/

section Loops

variable (horder : TotalOrder compare)

include horder

variable {size : Nat}

theorem upHeapFrom_spec (n : Nat) :
    ∀ {elements : Nat → E} (current : Nat), current < n → current < size →
      Rising (fun a b => compare a b ≤ 0) elements size current →
      ∃ elements', upHeapFrom compare elements current n = .ok elements' ∧
        HeapOn (fun a b => compare a b ≤ 0) elements' size ∧
        BinaryHeap.contents elements' size = BinaryHeap.contents elements size := by
  induction n with
  | zero =>
    intro elements current hn
    exact absurd hn (Nat.not_lt_zero current)
  | succ n ih =>
    intro elements current hn hsize hrising
    rw [upHeapFrom]
    by_cases hmoves : current ≠ 0 ∧ compare (elements current) (elements (parent current)) < 0
    · obtain ⟨hpos, hlt⟩ := hmoves
      have hparent := parent_lt (Nat.pos_of_ne_zero hpos)
      obtain ⟨elements', hloop, hheap, hcontents⟩ := ih _ (by omega) (by omega)
        (hrising.step horder.trans (Nat.pos_of_ne_zero hpos) hsize (le_of_lt hlt))
      rw [if_pos ⟨hpos, hlt⟩]
      exact ⟨elements', hloop, hheap, hcontents.trans (contents_exchange _ hsize (by omega))⟩
    · rw [if_neg hmoves]
      refine ⟨elements, rfl, hrising.done fun hpos => ?_, rfl⟩
      exact horder.le_of_not_lt fun hlt => hmoves ⟨Nat.ne_of_gt hpos, hlt⟩

/-- The child that is compared with `current`: the least of the children in use. -/
theorem least_child (elements : Nat → E) {current child : Nat} (hin : 2 * current + 1 < size)
    (hchild : child = if 2 * current + 1 + 1 < size ∧
      compare (elements (2 * current + 1 + 1)) (elements (2 * current + 1)) < 0
        then 2 * current + 1 + 1 else 2 * current + 1) :
    current < child ∧ child < size ∧ parent child = current ∧
      ∀ i, 0 < i → i < size → parent i = current → compare (elements child) (elements i) ≤ 0 := by
  by_cases hright : 2 * current + 1 + 1 < size ∧
      compare (elements (2 * current + 1 + 1)) (elements (2 * current + 1)) < 0
  · rw [if_pos hright] at hchild
    obtain ⟨hlt, hless⟩ := hright
    refine ⟨by omega, by omega, (parent_eq_iff (by omega)).mpr (.inr hchild), ?_⟩
    intro i hi _ hparent
    rcases (parent_eq_iff hi).mp hparent with rfl | rfl
    · rw [hchild]
      exact le_of_lt hless
    · rw [hchild]
      exact horder.refl _
  · rw [if_neg hright] at hchild
    refine ⟨by omega, by omega, (parent_eq_iff (by omega)).mpr (.inl hchild), ?_⟩
    intro i hi hin' hparent
    rcases (parent_eq_iff hi).mp hparent with rfl | rfl
    · rw [hchild]
      exact horder.refl _
    · rw [hchild]
      exact horder.le_of_not_lt fun hless => hright ⟨hin', hless⟩

theorem downHeapFrom_spec (hsize : size + 1 < 2 ^ 30) (n : Nat) :
    ∀ {elements : Nat → E} {current : Nat}, current ≤ size + 1 → 0 < n → size < current + n →
      Sinking (fun a b => compare a b ≤ 0) elements size current →
      ∃ elements', downHeapFrom compare size elements current n = .ok elements' ∧
        HeapOn (fun a b => compare a b ≤ 0) elements' size ∧
        BinaryHeap.contents elements' size = BinaryHeap.contents elements size := by
  induction n with
  | zero =>
    intro elements current _ hpos
    exact absurd hpos (Nat.lt_irrefl 0)
  | succ n ih =>
    intro elements current hle _ hn hsinking
    have hwrap : wrap 32 (2 * current + 1) = ((2 * current + 1 : Nat) : Int) := by
      rw [wrap_of_bounds]
      omega
    rw [downHeapFrom, hwrap]
    by_cases hin : 2 * current + 1 < size
    · obtain ⟨hlt, hchild, hparent, hleast⟩ :=
        least_child horder elements hin rfl
      rw [if_pos (by omega), Int.toNat_natCast]
      simp only
      generalize (if 2 * current + 1 + 1 < size ∧
        compare (elements (2 * current + 1 + 1)) (elements (2 * current + 1)) < 0
          then 2 * current + 1 + 1 else 2 * current + 1) = child at hlt hchild hparent hleast ⊢
      by_cases hstop : compare (elements current) (elements child) < 0
      · rw [if_pos hstop]
        refine ⟨elements, rfl, hsinking.done fun i hi hin hip => ?_, rfl⟩
        exact horder.trans _ _ _ (le_of_lt hstop) (hleast i hi hin hip)
      · obtain ⟨elements', hloop, hheap, hcontents⟩ := ih (by omega) (by omega) (by omega)
          (hsinking.step (by omega) hchild hparent (horder.le_of_not_lt hstop) hleast)
        rw [if_neg hstop]
        exact ⟨elements', hloop, hheap, hcontents.trans (contents_exchange _ (by omega) hchild)⟩
    · rw [if_neg (by omega)]
      refine ⟨elements, rfl, hsinking.done fun i hi hlt hip => ?_, rfl⟩
      have hchildren := (parent_eq_iff hi).mp hip
      omega

end Loops

/-! ## The operations -/

section Operations

variable {s : PriorityQueue E}

/-- The last element is not in front of the parent of the place that it is moved to. -/
def Fits (compare : E → E → Int) (s : PriorityQueue E) (index : Nat) : Prop :=
  index = 0 ∨ compare (s.elements (parent index)) (s.elements (s.size - 1)) ≤ 0

/-- There is a cell for one more element, or the array that is asked for is not too large. -/
def HasRoom (s : PriorityQueue E) : Prop := s.size < s.capacity ∨ 2 * (s.size + 1) < 2 ^ 31

theorem card_contents : Multiset.card s.contents = s.size := by
  simp [contents, BinaryHeap.contents]

theorem contents_eq_zero : s.contents = 0 ↔ s.size = 0 := by
  rw [← Multiset.card_eq_zero, card_contents]

variable (h : Ordered compare s)
include h

theorem Ordered.increaseCapacity [Inhabited E] (hroom : s.HasRoom) :
    ∃ t, s.increaseCapacity (wrap 32 (s.size + 1)) = .ok t ∧ Ordered compare t ∧
      t.size = s.size ∧ s.size < t.capacity ∧ t.contents = s.contents := by
  have hfits := h.fits
  have hsmall := h.small
  unfold PriorityQueue.increaseCapacity
  by_cases hcell : s.size < s.capacity
  · have hwrap : wrap 32 (s.size + 1) = s.size + 1 := wrap_of_bounds
    rw [if_neg (by omega)]
    exact ⟨s, rfl, h, rfl, hcell, rfl⟩
  · have hlarge : 2 * (s.size + 1) < 2 ^ 31 := hroom.resolve_left hcell
    have hwrap : wrap 32 (s.size + 1) = s.size + 1 := wrap_of_bounds
    have hdouble : wrap 32 ((s.size + 1) * defaultCapacityRatio) =
        ((2 * (s.size + 1) : Nat) : Int) := by
      rw [defaultCapacityRatio, wrap_of_bounds]
      omega
    rw [hwrap, if_pos (by omega)]
    simp only [hdouble]
    have hsame : ∀ i, i < s.size → s.elements i =
        (if i < s.capacity then s.elements i else default) := by
      intro i hi
      rw [if_pos (by omega)]
    refine ⟨_, rfl, ⟨?_, hlarge, h.heap.congr hsame⟩, rfl, ?_, ?_⟩
    · show s.size ≤ 2 * (s.size + 1)
      omega
    · show s.size < 2 * (s.size + 1)
      omega
    · exact (contents_congr hsame).symm

variable (horder : TotalOrder compare)

include horder

theorem Ordered.offer [Inhabited E] (hroom : s.HasRoom) (value : E) :
    ∃ t, s.offer compare value = .ok t ∧ Ordered compare t ∧ t.contents = value ::ₘ s.contents := by
  obtain ⟨t, hgrow, ht, hsize, hcell, hcontents⟩ := h.increaseCapacity hroom
  obtain ⟨elements, hup, hheap, hsame⟩ := upHeapFrom_spec horder (t.size + 1)
    t.size (Nat.lt_succ_self _) (Nat.lt_succ_self _) (ht.heap.append value)
  rw [PriorityQueue.offer, hgrow]
  show ∃ u, (if t.capacity ≤ t.size then _ else _) = Except.ok u ∧ _
  rw [if_neg (by omega), upHeap, Nat.add_sub_cancel, hup]
  refine ⟨_, rfl, ⟨?_, ht.small, hheap⟩, ?_⟩
  · show t.size + 1 ≤ t.capacity
    omega
  · rw [contents, hsame, contents_succ, update_self, ← hcontents]
    refine congrArg _ (contents_congr fun i hi => ?_)
    exact update_of_ne (Nat.ne_of_lt hi) _ _

/-- The element at an index leaves. The index behind the last one is taken for the last one,
if the array has the cell. -/
theorem Ordered.removeAt [Inhabited E] (hpos : 0 < s.size) (hsmall : s.size < 2 ^ 30)
    {index : Nat} (hindex : index ≤ s.size) (hcell : index < s.capacity)
    (hfits : index < s.size → Fits compare s index) :
    ∃ t, s.removeAt compare index = .ok t ∧ Ordered compare t ∧
      s.contents = s.elements (min index (s.size - 1)) ::ₘ t.contents := by
  obtain ⟨n, hn⟩ := Nat.exists_eq_succ_of_ne_zero (Nat.ne_of_gt hpos)
  have hheap := h.heap
  have hroom := h.fits
  rw [hn] at hheap
  have hsink : Sinking (fun a b => compare a b ≤ 0)
      (update s.elements index (s.elements n)) n index := by
    by_cases hlt : index < n
    · refine hheap.replace horder.trans hlt fun hpos => ?_
      have hfit := (hfits (by omega)).resolve_left (Nat.ne_of_gt hpos)
      rwa [hn] at hfit
    · -- nothing below `n` is changed, and nothing below `n` has its parent there
      have hrest : HeapOn (fun a b => compare a b ≤ 0)
          (update s.elements index (s.elements n)) n :=
        (hheap.mono (Nat.le_succ n)).congr fun i hi =>
          (update_of_ne (by omega) _ _).symm
      refine ⟨fun i hi hin _ => hrest i hi hin, fun _ i hi hin hparent => ?_⟩
      have hplt := parent_lt hi
      omega
  obtain ⟨elements, hdown, hheap', hsame⟩ := downHeapFrom_spec horder (by omega) (n + 1)
    (by omega) (by omega) (by omega) hsink
  rw [PriorityQueue.removeAt, if_neg (by omega), hn, Nat.succ_sub_one]
  show ∃ t, (downHeapFrom compare n _ index (n + 1) >>= fun elements => _) = Except.ok t ∧ _
  rw [hdown]
  have hbelow : ∀ i, i < n → elements i = update elements n default i :=
    fun i hi => (update_of_ne (Nat.ne_of_lt hi) _ _).symm
  refine ⟨_, rfl, ⟨?_, h.small, hheap'.congr hbelow⟩, ?_⟩
  · show n ≤ s.capacity
    omega
  · show BinaryHeap.contents s.elements s.size =
      _ ::ₘ BinaryHeap.contents (update elements n default) n
    rw [hn, ← contents_congr hbelow, hsame]
    by_cases hlt : index < n
    · rw [Nat.min_eq_left (le_of_lt hlt)]
      exact contents_replace s.elements hlt
    · rw [Nat.min_eq_right (by omega)]
      show BinaryHeap.contents s.elements (n + 1) = _
      rw [contents_succ]
      refine congrArg _ (contents_congr fun i hi => ?_)
      exact (update_of_ne (by omega) _ _).symm

/-- The first element is least. -/
theorem Ordered.least {x : E} (hx : x ∈ s.contents) : compare (s.elements 0) x ≤ 0 := by
  obtain ⟨i, hi, rfl⟩ := mem_contents.mp hx
  exact h.heap.root_le horder.trans horder.refl hi

theorem Ordered.removeAt_zero [Inhabited E] (hpos : s.size ≠ 0) (hsmall : s.size < 2 ^ 30) :
    ∃ t, s.removeAt compare 0 = .ok t ∧ Ordered compare t ∧
      s.contents = s.elements 0 ::ₘ t.contents := by
  have hfits := h.fits
  obtain ⟨t, hremove, ht, hcontents⟩ := h.removeAt horder (Nat.pos_of_ne_zero hpos) hsmall
    (Nat.zero_le _) (by omega) fun _ => .inl rfl
  exact ⟨t, hremove, ht, hcontents⟩

end Operations

variable (s : PriorityQueue E)
include s

/-- The loop of `remove(value)` stops at the first element that compares equal. -/
theorem targetFrom_spec (compare : E → E → Int) (value : E) (n : Nat) :
    ∀ i : Nat, i ≤ s.targetFrom compare value i n ∧ s.targetFrom compare value i n ≤ i + n ∧
      (s.targetFrom compare value i n < i + n →
        compare value (s.elements (s.targetFrom compare value i n)) = 0) ∧
      ∀ k, i ≤ k → k < s.targetFrom compare value i n → compare value (s.elements k) ≠ 0 := by
  induction n with
  | zero =>
    intro i
    exact ⟨le_refl i, le_refl i, fun h => absurd h (Nat.lt_irrefl i), fun k hik hki => by
      rw [targetFrom] at hki
      omega⟩
  | succ n ih =>
    intro i
    obtain ⟨hlow, hhigh, hfound, hnone⟩ := ih (i + 1)
    rw [targetFrom]
    by_cases heq : compare value (s.elements i) = 0
    · rw [if_pos heq]
      exact ⟨le_refl i, Nat.le_add_right _ _, fun _ => heq, fun k hik hki => absurd hki (by omega)⟩
    · rw [if_neg heq]
      refine ⟨by omega, by omega, fun hlt => hfound (by omega), ?_⟩
      intro k hik hk
      by_cases hki : k = i
      · rw [hki]
        exact heq
      · exact hnone k (by omega) hk

theorem traverse_spec (k : Nat) :
    ∀ (iter : PriorityQueueIterator) (rounds : Nat), iter.position + k = s.size → k < rounds →
      s.traverse iter rounds = .ok ((List.range' iter.position k).map s.elements) := by
  induction k with
  | zero =>
    intro iter rounds hk hrounds
    obtain ⟨rounds, rfl⟩ := Nat.exists_eq_succ_of_ne_zero (Nat.ne_of_gt hrounds)
    have hend : s.hasNext iter = false := decide_eq_false (by omega)
    rw [traverse, hend]
    rfl
  | succ k ih =>
    intro iter rounds hk hrounds
    obtain ⟨rounds, rfl⟩ := Nat.exists_eq_succ_of_ne_zero (Nat.ne_of_gt (Nat.zero_lt_of_lt hrounds))
    have hmore : s.hasNext iter = true := decide_eq_true (by omega)
    rw [traverse, if_pos hmore, next, if_pos hmore]
    show (s.traverse ⟨iter.position + 1, true⟩ rounds >>= fun rest => _) = _
    rw [ih ⟨iter.position + 1, true⟩ rounds (by show iter.position + 1 + k = _; omega) (by omega)]
    rfl

theorem traverse_contents :
    ∃ xs : List E, s.traverse iterator (s.size + 1) = .ok xs ∧ (xs : Multiset E) = s.contents := by
  refine ⟨_, s.traverse_spec s.size iterator _ (Nat.zero_add _) (Nat.lt_succ_self _), ?_⟩
  show ((List.range' 0 s.size).map s.elements : Multiset E) = _
  rw [← List.range_eq_range']
  rfl

end PriorityQueue

/-! ## Runs -/

inductive PriorityQueue.Op (E : Type)
  | offer (value : E)
  | poll
  | peek
  | removeFirst
  | remove (value : E)
  | clear
  | size
  | iterator
  | hasNext
  | next
  | iterRemove

inductive PriorityQueue.Result (E : Type)
  | done
  | flag (value : Bool)
  | number (value : Int)
  | element (value : E)
  | maybe (value : Option E)
deriving DecidableEq

/-- A queue, an iterator and the element that the iterator returned last. -/
structure PriorityQueue.Session (E : Type) where
  queue : PriorityQueue E
  iter : PriorityQueueIterator
  returned : Option E

namespace PriorityQueue

variable {E : Type} [Inhabited E] (compare : E → E → Int)

def Session.apply (s : Session E) : Op E → Except Fault (Session E × Result E)
  | .offer value => do
    let t ← s.queue.offer compare value
    return ({ s with queue := t }, .flag true)
  | .poll => do
    let (t, result) ← s.queue.poll compare
    return ({ s with queue := t }, .maybe result)
  | .peek => .ok (s, .maybe s.queue.peek)
  | .removeFirst => do
    let (t, result) ← s.queue.removeFirst compare
    return ({ s with queue := t }, .element result)
  | .remove value => do
    let (t, result) ← s.queue.remove compare value
    return ({ s with queue := t }, .flag result)
  | .clear => .ok ({ s with queue := clear }, .done)
  | .size => .ok (s, .number s.queue.size)
  | .iterator => .ok ({ s with iter := iterator, returned := none }, .done)
  | .hasNext => .ok (s, .flag (s.queue.hasNext s.iter))
  | .next => do
    let (iter, e) ← s.queue.next s.iter
    return ({ s with iter := iter, returned := some e }, .element e)
  | .iterRemove => do
    let (t, iter) ← s.queue.iterRemove compare s.iter
    return ({ s with queue := t, iter := iter }, .done)

/-- A call that throws leaves the state. -/
def machine : Machine (Session E) (Op E) (Except Fault (Result E)) where
  step s op :=
    match s.apply compare op with
    | .ok (t, result) => (t, .ok result)
    | .error fault => (s, .error fault)

/-- A new queue and an iterator over it. -/
def start (initialCapacity : Nat) : Session E := ⟨new initialCapacity, iterator, none⟩

/-- The element that the last `next` returned is still where it was found. It is the last one
of the queue and the array has a cell behind it, or the element behind it, which is the one
that goes, is the same and the last element fits in its place. That is enough, though not
always needed. -/
def RemovesReturned (s : Session E) : Prop :=
  s.queue.size < 2 ^ 30 ∧ s.iter.position ≤ s.queue.size ∧
    s.returned = some (s.queue.elements (s.iter.position - 1)) ∧
    (s.iter.position = s.queue.size → s.queue.size < s.queue.capacity) ∧
    (s.iter.position < s.queue.size →
      s.queue.elements s.iter.position = s.queue.elements (s.iter.position - 1) ∧
        Fits compare s.queue s.iter.position)

/-- The calls that the queue carries out. -/
def Sound (s : Session E) : Op E → Prop
  | .offer _ => s.queue.HasRoom
  | .poll | .removeFirst => s.queue.size < 2 ^ 30
  | .remove value => s.queue.target compare value < s.queue.size →
    s.queue.size < 2 ^ 30 ∧ Fits compare s.queue (s.queue.target compare value)
  | .iterRemove => s.iter.allowRemove = true → RemovesReturned compare s
  | .peek | .clear | .size | .iterator | .hasNext | .next => True

instance (s : PriorityQueue E) (index : Nat) : Decidable (Fits compare s index) :=
  inferInstanceAs (Decidable (_ ∨ _))

instance (s : PriorityQueue E) : Decidable s.HasRoom := inferInstanceAs (Decidable (_ ∨ _))

instance [DecidableEq E] (s : Session E) : Decidable (RemovesReturned compare s) :=
  inferInstanceAs (Decidable (_ ∧ _ ∧ _ ∧ (_ → _) ∧ (_ → _ ∧ _)))

instance [DecidableEq E] (s : Session E) (op : Op E) : Decidable (Sound compare s op) :=
  match op with
  | .offer _ => inferInstanceAs (Decidable s.queue.HasRoom)
  | .poll | .removeFirst => inferInstanceAs (Decidable (_ < _))
  | .remove _ => inferInstanceAs (Decidable (_ → _ ∧ _))
  | .iterRemove => inferInstanceAs (Decidable (_ → RemovesReturned compare s))
  | .peek | .clear | .size | .iterator | .hasNext | .next => .isTrue trivial

/-- `e` is in the multiset and nothing in it is less. -/
def Least (m : Multiset E) (e : E) : Prop := e ∈ m ∧ ∀ x ∈ m, compare e x ≤ 0

/-- What a call does to the multiset `before`, and what it answers. -/
def Allowed (s : Session E) (before after : Multiset E) (answer : Except Fault (Result E)) :
    Op E → Prop
  | .offer value => answer = .ok (.flag true) ∧ after = value ::ₘ before
  | .poll => (before = 0 ∧ after = 0 ∧ answer = .ok (.maybe none)) ∨
    ∃ e, Least compare before e ∧ before = e ::ₘ after ∧ answer = .ok (.maybe (some e))
  | .peek => after = before ∧ ((before = 0 ∧ answer = .ok (.maybe none)) ∨
    ∃ e, Least compare before e ∧ answer = .ok (.maybe (some e)))
  | .removeFirst => (before = 0 ∧ after = 0 ∧ answer = .error (.thrown .noSuchElement)) ∨
    ∃ e, Least compare before e ∧ before = e ::ₘ after ∧ answer = .ok (.element e)
  | .remove value => ((∀ x ∈ before, compare value x ≠ 0) ∧ after = before ∧
      answer = .ok (.flag false)) ∨
    ∃ x, compare value x = 0 ∧ before = x ::ₘ after ∧ answer = .ok (.flag true)
  | .clear => after = 0 ∧ answer = .ok .done
  | .size => after = before ∧ answer = .ok (.number (Multiset.card before))
  | .iterator => after = before ∧ answer = .ok .done
  | .hasNext => after = before ∧ ∃ b, answer = .ok (.flag b)
  | .next => after = before ∧
    ((∃ e ∈ before, answer = .ok (.element e)) ∨ answer = .error (.thrown .noSuchElement))
  | .iterRemove =>
    (s.iter.allowRemove = false ∧ after = before ∧ answer = .error (.thrown .illegalState)) ∨
    ∃ e, s.returned = some e ∧ before = e ::ₘ after ∧ answer = .ok .done

/-- The next call is one of a multiset with minimum. -/
def Behaves (s : Session E) (op : Op E) : Prop :=
  Allowed compare s s.queue.contents ((machine compare).step s op).1.queue.contents
    ((machine compare).step s op).2 op

/-- A traversal shows the contents, each as often as it is there. -/
def Shows (s : Session E) : Prop :=
  ∃ xs : List E, s.queue.traverse iterator (s.queue.size + 1) = .ok xs ∧
    (xs : Multiset E) = s.queue.contents ∧ xs.length = s.queue.size

structure Inv (s : Session E) : Prop where
  ordered : Ordered compare s.queue
  returned : s.iter.allowRemove = true → 0 < s.iter.position

variable {compare} {s : Session E} {op : Op E}

theorem step_ok {t : Session E} {result : Result E}
    (h : s.apply compare op = .ok (t, result)) : (machine compare).step s op = (t, .ok result) := by
  show (match s.apply compare op with | .ok (t, result) => _ | .error fault => _) = _
  rw [h]

theorem step_error {fault : Fault}
    (h : s.apply compare op = .error fault) : (machine compare).step s op = (s, .error fault) := by
  show (match s.apply compare op with | .ok (t, result) => _ | .error fault => _) = _
  rw [h]

/-- To show what a call does, from what `apply` gives. -/
theorem does_of_ok (t : Session E) (result : Result E) (h : s.apply compare op = .ok (t, result))
    (ht : Inv compare t)
    (hallowed : Allowed compare s s.queue.contents t.queue.contents (.ok result) op) :
    Inv compare ((machine compare).step s op).1 ∧ Behaves compare s op := by
  rw [Behaves, step_ok h]
  exact ⟨ht, hallowed⟩

theorem does_of_error (fault : Fault) (h : s.apply compare op = .error fault) (hs : Inv compare s)
    (hallowed : Allowed compare s s.queue.contents s.queue.contents (.error fault) op) :
    Inv compare ((machine compare).step s op).1 ∧ Behaves compare s op := by
  rw [Behaves, step_error h]
  exact ⟨hs, hallowed⟩

section Step

variable (horder : TotalOrder compare) {s : Session E} (h : Inv compare s)

include horder h

omit [Inhabited E] in
theorem Inv.least (hpos : s.queue.size ≠ 0) : Least compare s.queue.contents (s.queue.elements 0) :=
  ⟨mem_contents.mpr ⟨0, Nat.pos_of_ne_zero hpos, rfl⟩,
    fun _ hx => h.ordered.least horder hx⟩

theorem Inv.poll (hsmall : s.queue.size < 2 ^ 30) :
    Inv compare ((machine compare).step s .poll).1 ∧ Behaves compare s .poll := by
  by_cases hzero : s.queue.size = 0
  · have hempty := contents_eq_zero.mpr hzero
    refine does_of_ok s (.maybe none) ?_ h (.inl ⟨hempty, hempty, rfl⟩)
    rw [Session.apply, PriorityQueue.poll, if_pos hzero]
    rfl
  · obtain ⟨t, hremove, ht, hcontents⟩ := h.ordered.removeAt_zero horder hzero hsmall
    refine does_of_ok { s with queue := t } (.maybe (some (s.queue.elements 0)))
      ?_ ⟨ht, h.returned⟩ (.inr ⟨_, h.least horder hzero, hcontents, rfl⟩)
    rw [Session.apply, PriorityQueue.poll, if_neg hzero, hremove]
    rfl

theorem Inv.removeFirst (hsmall : s.queue.size < 2 ^ 30) :
    Inv compare ((machine compare).step s .removeFirst).1 ∧ Behaves compare s .removeFirst := by
  by_cases hzero : s.queue.size = 0
  · have hempty := contents_eq_zero.mpr hzero
    refine does_of_error (.thrown .noSuchElement) ?_ h (.inl ⟨hempty, hempty, rfl⟩)
    rw [Session.apply, PriorityQueue.removeFirst, if_pos hzero]
    rfl
  · obtain ⟨t, hremove, ht, hcontents⟩ := h.ordered.removeAt_zero horder hzero hsmall
    refine does_of_ok { s with queue := t } (.element (s.queue.elements 0))
      ?_ ⟨ht, h.returned⟩ (.inr ⟨_, h.least horder hzero, hcontents, rfl⟩)
    rw [Session.apply, PriorityQueue.removeFirst, if_neg hzero, hremove]
    rfl

theorem Inv.remove (value : E) (hsound : Sound compare s (.remove value)) :
    Inv compare ((machine compare).step s (.remove value)).1 ∧ Behaves compare s (.remove value) := by
  obtain ⟨-, hhigh, hfound, hnone⟩ := targetFrom_spec s.queue compare value s.queue.size 0
  rw [Nat.zero_add] at hhigh hfound
  by_cases hlt : s.queue.target compare value < s.queue.size
  · obtain ⟨hsmall, hfits⟩ := hsound hlt
    have hcapacity := h.ordered.fits
    obtain ⟨t, hremove, ht, hcontents⟩ := h.ordered.removeAt horder (by omega) hsmall
      (le_of_lt hlt) (by omega) fun _ => hfits
    rw [Nat.min_eq_left (by omega)] at hcontents
    refine does_of_ok { s with queue := t } (.flag true)
      ?_ ⟨ht, h.returned⟩ (.inr ⟨_, hfound hlt, hcontents, rfl⟩)
    rw [Session.apply, PriorityQueue.remove]
    rw [if_neg (by omega), hremove]
    rfl
  · have hend : s.queue.size = s.queue.target compare value :=
      Nat.le_antisymm (Nat.le_of_not_lt hlt) hhigh
    refine does_of_ok s (.flag false) ?_ h (.inl ⟨?_, rfl, rfl⟩)
    · rw [Session.apply, PriorityQueue.remove]
      rw [if_pos (.inr hend)]
      rfl
    · intro x hx
      obtain ⟨i, hi, rfl⟩ := mem_contents.mp hx
      exact hnone i (Nat.zero_le _) (Nat.lt_of_lt_of_le hi (Nat.le_of_not_lt hlt))

theorem Inv.iterRemove (hsound : Sound compare s .iterRemove) :
    Inv compare ((machine compare).step s .iterRemove).1 ∧ Behaves compare s .iterRemove := by
  by_cases hallow : s.iter.allowRemove = false
  · refine does_of_error (.thrown .illegalState) ?_ h (.inl ⟨hallow, rfl, rfl⟩)
    rw [Session.apply, PriorityQueue.iterRemove, if_pos hallow]
    rfl
  · have hallowed : s.iter.allowRemove = true := by simpa using hallow
    obtain ⟨hsmall, hle, hreturned, hlast, hnext⟩ := hsound hallowed
    have hpos := h.returned hallowed
    have hcapacity := h.ordered.fits
    obtain ⟨t, hremove, ht, hcontents⟩ := h.ordered.removeAt horder (by omega) hsmall hle
      (by by_cases heq : s.iter.position = s.queue.size <;> omega) fun hlt => (hnext hlt).2
    have hgone : s.queue.elements (min s.iter.position (s.queue.size - 1)) =
        s.queue.elements (s.iter.position - 1) := by
      by_cases hlt : s.iter.position < s.queue.size
      · rw [Nat.min_eq_left (by omega), (hnext hlt).1]
      · rw [Nat.min_eq_right (by omega), show s.queue.size = s.iter.position by omega]
    rw [hgone] at hcontents
    refine does_of_ok { s with queue := t, iter := ⟨s.iter.position - 1, false⟩ }
      .done ?_ ⟨ht, fun habs => absurd habs Bool.false_ne_true⟩
      (.inr ⟨_, hreturned, hcontents, rfl⟩)
    rw [Session.apply, PriorityQueue.iterRemove, if_neg hallow, hremove]
    rfl

theorem Inv.step (op : Op E) (hsound : Sound compare s op) :
    Inv compare ((machine compare).step s op).1 ∧ Behaves compare s op := by
  cases op with
  | offer value =>
    obtain ⟨t, hoffer, ht, hcontents⟩ := h.ordered.offer horder hsound value
    refine does_of_ok { s with queue := t } (.flag true) ?_ ⟨ht, h.returned⟩ ⟨rfl, hcontents⟩
    rw [Session.apply, hoffer]
    rfl
  | poll => exact h.poll horder hsound
  | peek =>
    by_cases hzero : s.queue.size = 0
    · refine does_of_ok s (.maybe none) ?_ h ⟨rfl, .inl ⟨contents_eq_zero.mpr hzero, rfl⟩⟩
      rw [Session.apply, peek, if_pos hzero]
    · refine does_of_ok s (.maybe (some (s.queue.elements 0))) ?_ h
        ⟨rfl, .inr ⟨_, h.least horder hzero, rfl⟩⟩
      rw [Session.apply, peek, if_neg hzero]
  | removeFirst => exact h.removeFirst horder hsound
  | remove value => exact h.remove horder value hsound
  | clear => exact does_of_ok _ _ rfl ⟨ordered_new (by decide), h.returned⟩ ⟨rfl, rfl⟩
  | size => exact does_of_ok _ _ rfl h ⟨rfl, by rw [card_contents]⟩
  | iterator =>
    exact does_of_ok _ _ rfl ⟨h.ordered, fun habs => absurd habs Bool.false_ne_true⟩ ⟨rfl, rfl⟩
  | hasNext => exact does_of_ok _ _ rfl h ⟨rfl, _, rfl⟩
  | next =>
    by_cases hmore : s.queue.hasNext s.iter = true
    · refine does_of_ok { s with
          iter := ⟨s.iter.position + 1, true⟩
          returned := some (s.queue.elements s.iter.position) }
        (.element (s.queue.elements s.iter.position)) ?_
        ⟨h.ordered, fun _ => Nat.succ_pos _⟩
        ⟨rfl, .inl ⟨_, mem_contents.mpr ⟨_, of_decide_eq_true hmore, rfl⟩, rfl⟩⟩
      rw [Session.apply, next, if_pos hmore]
      rfl
    · refine does_of_error (.thrown .noSuchElement) ?_ h ⟨rfl, .inr rfl⟩
      rw [Session.apply, next, if_neg hmore]
      rfl
  | iterRemove => exact h.iterRemove horder hsound

end Step

end PriorityQueue

/-- For every comparator that is a total order, every initial capacity and every run whose
calls the queue carries out, each call does what the call of a multiset with minimum does,
and in every state reached a traversal shows the contents of the multiset. -/
theorem priorityQueue_behaves {E : Type} [Inhabited E] {compare : E → E → Int}
    (horder : TotalOrder compare) {initialCapacity : Nat}
    (hcapacity : initialCapacity < 2 ^ 31) (ops : List (Op E))
    (hsound : (machine compare).Meets (Sound compare)
      (start initialCapacity) ops) :
    (machine compare).Meets (Behaves compare)
        (start initialCapacity) ops ∧
      (machine compare).Always Shows
        (start initialCapacity) ops := by
  have hinit : Inv compare (start initialCapacity) :=
    ⟨ordered_new hcapacity, fun habs => absurd habs Bool.false_ne_true⟩
  have hstep := fun s op (h : Inv compare s) => h.step horder op
  refine ⟨Machine.meets_of_invariant hstep hinit hsound,
    (Machine.invariant_of_meets (fun s op h hop => (hstep s op h hop).1) hinit hsound).mono ?_⟩
  intro s _
  obtain ⟨xs, htraverse, hcontents⟩ := s.queue.traverse_contents
  refine ⟨xs, htraverse, hcontents, ?_⟩
  rw [← card_contents, ← hcontents, Multiset.coe_card]

/-- Integers by `Less`: the last element of a traversal is removed through the iterator, and
an element whose place the last one fits in by its value. -/
theorem priorityQueue_behaves_ints :
    let compare : Int → Int → Int := fun a b => if a > b then 1 else if a < b then -1 else 0
    let ops : List (Op Int) :=
      [.offer 5, .offer 3, .offer 8, .offer 9, .iterator, .next, .next, .next, .next, .iterRemove,
        .offer 4, .remove 5, .poll, .peek]
    (machine compare).Meets (Behaves compare)
        (start 11) ops ∧
      (machine compare).Always Shows (start 11) ops :=
  priorityQueue_behaves ⟨by intro a b; grind, by intro a b c; grind⟩ (by decide) _ (by decide)

/-- Two ways to go wrong with integers in their natural order. `remove(11)` puts 3 below 12,
so that 10 is polled while 3 is still there. And the iterator's `remove` after `next`
returned 1 removes 2. -/
theorem priorityQueue_breaks :
    let compare : Int → Int → Int := fun a b => if a > b then 1 else if a < b then -1 else 0
    (machine compare).trace (start 11)
        [.offer 1, .offer 10, .offer 2, .offer 11, .offer 12, .offer 13, .offer 3, .remove 11,
          .poll, .poll, .poll, .poll] =
      (List.replicate 8 (.ok (.flag true))) ++ [.ok (.maybe (some 1)), .ok (.maybe (some 2)),
        .ok (.maybe (some 10)), .ok (.maybe (some 3))] ∧
    (machine compare).trace (start 11)
        [.offer 1, .offer 2, .offer 3, .next, .iterRemove, .poll, .poll, .poll] =
      [.ok (.flag true), .ok (.flag true), .ok (.flag true), .ok (.element 1), .ok .done,
        .ok (.maybe (some 1)), .ok (.maybe (some 3)), .ok (.maybe none)] := by
  refine ⟨?_, ?_⟩
  · decide +kernel
  · decide

end ActivemqCpp.Decaf
