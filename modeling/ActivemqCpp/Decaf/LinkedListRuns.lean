import ActivemqCpp.Decaf.LinkedListCalls

/-!
# Runs of a `LinkedList` with its iterators

The list, one `ListIterator` and one descending iterator, against a sequence with two
cursors. A cursor of the sequence counts the modifications made behind it; the list has a
counter of 32 bits for that, so the two agree as long as nobody uses an iterator after a
positive multiple of 2^32 modifications.
-/

namespace ActivemqCpp.Decaf

open Base List LinkedList

/-- The calls of a `ListIterator`. -/
inductive LinkedList.IterOp (E : Type)
  | next
  | previous
  | nextIndex
  | previousIndex
  | add (e : E)
  | set (e : E)
  | remove

/-- The calls of the descending iterator. -/
inductive LinkedList.DescOp
  | next
  | remove

/-- A call. `listIterator` and `descendingIterator` put a new iterator in place of the old one. -/
inductive LinkedList.Op (E : Type)
  | list (op : ListOp E)
  | listIterator (index : Int)
  | iter (op : IterOp E)
  | descendingIterator
  | desc (op : DescOp)

/-- A list and its iterators. -/
structure LinkedList.Session (E : Type) where
  list : LinkedList E
  iter : Option LinkedListIterator
  desc : Option ReverseIterator

/-- A place between the elements of a sequence: `pos` of them lie in front of it. `last` is
the index of the element that the last move went over. -/
structure LinkedList.Cursor where
  pos : Nat
  last : Option Nat
  behind : Nat

/-- A place from which `ahead` elements can still be reached downwards. -/
structure LinkedList.Descent where
  ahead : Nat
  canRemove : Bool
  behind : Nat

/-- A sequence and its cursors. -/
structure LinkedList.Seq (E : Type) where
  items : List E
  iter : Option Cursor
  desc : Option Descent

namespace LinkedList

variable {E : Type}

/-! ## The calls of the iterators -/

section

variable (s : LinkedList E)

def iterApply (iter : LinkedListIterator) :
    IterOp E → Except Fault (LinkedList E × LinkedListIterator × Result E)
  | .next => do
    let (iter, e) ← s.next iter
    return (s, iter, .element e)
  | .previous => do
    let (iter, e) ← s.previous iter
    return (s, iter, .element e)
  | .nextIndex => .ok (s, iter, .number (nextIndex iter))
  | .previousIndex => .ok (s, iter, .number (previousIndex iter))
  | .add e => do
    let (s, iter) ← s.add iter e
    return (s, iter, .done)
  | .set e => do
    let s ← s.set iter e
    return (s, iter, .done)
  | .remove => do
    let (s, iter) ← s.remove iter
    return (s, iter, .done)

def descApply (iter : ReverseIterator) :
    DescOp → Except Fault (LinkedList E × ReverseIterator × Result E)
  | .next => do
    let (iter, e) ← s.reverseNext iter
    return (s, iter, .element e)
  | .remove => do
    let (s, iter) ← s.reverseRemove iter
    return (s, iter, .done)

end

/-- What a cursor that was not told of a modification does. -/
def unlessBehind {α : Type} (behind : Nat) (call : Except Fault α) : Except Fault α :=
  if behind = 0 then call else .error (.thrown .concurrentModification)

/-- The same call on a cursor of a sequence, with the number of modifications. -/
def Cursor.apply (c : Cursor) (xs : List E) :
    IterOp E → Except Fault (List E × Nat × Cursor × Result E)
  | .next => unlessBehind c.behind <|
    match (xs.drop c.pos).head? with
    | none => .error (.thrown .noSuchElement)
    | some e => .ok (xs, 0, ⟨c.pos + 1, some c.pos, 0⟩, .element e)
  | .previous => unlessBehind c.behind <|
    match (xs.take c.pos).getLast? with
    | none => .error (.thrown .illegalState)
    | some e => .ok (xs, 0, ⟨c.pos - 1, some (c.pos - 1), 0⟩, .element e)
  | .nextIndex => .ok (xs, 0, c, .number c.pos)
  | .previousIndex => .ok (xs, 0, c, .number ((c.pos : Int) - 1))
  | .add e => unlessBehind c.behind <|
    .ok (xs.take c.pos ++ e :: xs.drop c.pos, 1, ⟨c.pos + 1, none, 0⟩, .done)
  | .set e => unlessBehind c.behind <|
    match c.last with
    | none => .error (.thrown .illegalState)
    | some i => .ok (xs.set i e, 0, c, .done)
  | .remove => unlessBehind c.behind <|
    match c.last with
    | none => .error (.thrown .illegalState)
    | some i => .ok (xs.eraseIdx i, 1, ⟨i, none, 0⟩, .done)

def Descent.apply (c : Descent) (xs : List E) :
    DescOp → Except Fault (List E × Nat × Descent × Result E)
  | .next => unlessBehind c.behind <|
    match (xs.take c.ahead).getLast? with
    | none => .error (.thrown .noSuchElement)
    | some e => .ok (xs, 0, ⟨c.ahead - 1, true, 0⟩, .element e)
  | .remove => unlessBehind c.behind <|
    if c.canRemove then .ok (xs.eraseIdx c.ahead, 1, ⟨c.ahead, false, 0⟩, .done)
    else .error (.thrown .illegalState)

/-! ## The two machines -/

section

/-- The sequence changes, and both cursors fall behind by `k` modifications. -/
def Seq.passed (q : Seq E) (xs : List E) (k : Nat) : Seq E where
  items := xs
  iter := q.iter.map fun c => { c with behind := c.behind + k }
  desc := q.desc.map fun c => { c with behind := c.behind + k }

variable [Inhabited E] [DecidableEq E]

/-- A call on an iterator that nobody made yet is no call. -/
def Session.apply (s : Session E) : Op E → Except Fault (Session E × Result E)
  | .list op => do
    let (t, result) ← s.list.apply op
    return ({ s with list := t }, result)
  | .listIterator index => do
    let iter ← s.list.listIterator index false
    return ({ s with iter := some iter }, .done)
  | .iter op =>
    match s.iter with
    | none => .ok (s, .done)
    | some iter => do
      let (t, iter, result) ← s.list.iterApply iter op
      return ({ s with list := t, iter := some iter }, result)
  | .descendingIterator =>
    .ok ({ s with desc := some (s.list.descendingIterator false) }, .done)
  | .desc op =>
    match s.desc with
    | none => .ok (s, .done)
    | some iter => do
      let (t, iter, result) ← s.list.descApply iter op
      return ({ s with list := t, desc := some iter }, result)

omit [Inhabited E] in
def Seq.apply (q : Seq E) : Op E → Except Fault (Seq E × Result E)
  | .list op => do
    let (xs, k, result) ← seqApply q.items op
    return (q.passed xs k, result)
  | .listIterator index =>
    if 0 ≤ index ∧ index ≤ q.items.length then
      .ok ({ q with iter := some ⟨index.toNat, none, 0⟩ }, .done)
    else .error (.thrown .indexOutOfBounds)
  | .iter op =>
    match q.iter with
    | none => .ok (q, .done)
    | some c => do
      let (xs, k, c, result) ← c.apply q.items op
      return ({ q.passed xs k with iter := some c }, result)
  | .descendingIterator =>
    .ok ({ q with desc := some ⟨q.items.length, false, 0⟩ }, .done)
  | .desc op =>
    match q.desc with
    | none => .ok (q, .done)
    | some c => do
      let (xs, k, c, result) ← c.apply q.items op
      return ({ q.passed xs k with desc := some c }, result)

/-- A call that throws leaves the state. -/
def after {σ : Type} (s : σ) : Except Fault (σ × Result E) → σ × Except Fault (Result E)
  | .ok (t, result) => (t, .ok result)
  | .error fault => (s, .error fault)

def machine : Machine (Session E) (Op E) (Except Fault (Result E)) where
  step s op := after s (s.apply op)

omit [Inhabited E] in
def seqMachine : Machine (Seq E) (Op E) (Except Fault (Result E)) where
  step q op := after q (q.apply op)

/-- The modifications that the iterator of a call has not noticed. -/
def Seq.behind (q : Seq E) : Op E → Nat
  | .iter _ => (q.iter.map Cursor.behind).getD 0
  | .desc _ => (q.desc.map Descent.behind).getD 0
  | .list _ | .listIterator _ | .descendingIterator => 0

/-- The list is copied to itself. -/
def Op.copiesSelf : Op E → Bool
  | .list op => op.copiesSelf
  | _ => false

/-- The calls that 32 bits are enough for: the list has at most `Integer::MAX_VALUE` elements
after them, and the modifications behind an iterator that is used are not a positive multiple
of 2^32. The list, which is cleared before it is copied, is not copied to itself. -/
def Sound (q : Seq E) (op : Op E) : Prop :=
  (seqMachine.step q op).1.items.length < 2 ^ 31 ∧
    (q.behind op % 2 ^ 32 = 0 → q.behind op = 0) ∧ op.copiesSelf = false

instance (q : Seq E) (op : Op E) : Decidable (Sound q op) :=
  inferInstanceAs (Decidable (_ ∧ (_ → _) ∧ _))

end

/-! ## Cursors of the list -/

section

variable {s s' : LinkedList E} {ns ns' : List Nat} {xs xs' : List E} {k : Nat}

/-- The node of the element that the last move went over. -/
def LastMove (ns : List Nat) (xs : List E) (lastReturned : Ref) (c : Cursor) : Prop :=
  match c.last with
  | none => lastReturned = .null
  | some i => i < xs.length ∧ lastReturned = refAt ns (i + 1) ∧ (c.pos = i + 1 ∨ c.pos = i)

/-- How far the counter of the list is from the one that an iterator expects. -/
structure Counts (s : LinkedList E) (expected : Int) (behind : Nat) : Prop where
  normal : wrap 32 expected = expected
  apart : s.modCount = wrap 32 (expected + behind)

structure Tracks (s : LinkedList E) (ns : List Nat) (xs : List E) (iter : LinkedListIterator)
    (c : Cursor) : Prop where
  writes : iter.isConst = false
  counts : Counts s iter.expectedModCount c.behind
  index : iter.index = (c.pos : Int) - 1
  current : c.behind = 0 → At s ns xs iter c.pos ∧ LastMove ns xs iter.lastReturned c

structure Descends (s : LinkedList E) (ns : List Nat) (xs : List E) (iter : ReverseIterator)
    (c : Descent) : Prop where
  writes : iter.isConst = false
  counts : Counts s iter.expectedModCount c.behind
  current : c.behind = 0 → Below s ns xs iter c.ahead ∧ iter.canRemove = c.canRemove ∧
    (c.canRemove = true → c.ahead < xs.length)

variable {expected : Int} {behind : Nat}

theorem Counts.later (h : Counts s expected behind)
    (hlater : Later s s' k) : Counts s' expected (behind + k) := by
  refine ⟨h.normal, ?_⟩
  rw [hlater, h.apart, wrap_add_wrap, Nat.cast_add, Int.add_assoc]

/-- A counter that is not a multiple of 2^32 away is seen to be away. -/
theorem Counts.stale (h : Counts s expected behind)
    (hheard : behind % 2 ^ 32 = 0 → behind = 0) (hbehind : behind ≠ 0) :
    s.stale expected false = true := by
  have hne : expected ≠ s.modCount := by
    intro heq
    have hwrap := h.apart
    rw [← heq, ← h.normal, wrap_add_wrap] at hwrap
    have hmod : (wrap 32 expected) % ((2 ^ 32 : Nat) : Int) =
        (wrap 32 (expected + behind)) % ((2 ^ 32 : Nat) : Int) := by rw [hwrap]
    rw [wrap, wrap, Int.bmod_emod, Int.bmod_emod] at hmod
    exact hbehind (hheard (by omega))
  simpa [LinkedList.stale] using hne

theorem Counts.of_agrees (hcount : wrap 32 s.modCount = s.modCount)
    (h : expected = s.modCount) : Counts s expected 0 := by
  refine ⟨by rw [h, hcount], ?_⟩
  rw [h, Nat.cast_zero, Int.add_zero, hcount]

/-- Without a modification the counter stays. -/
theorem Counts.still (h : Counts s expected behind) (hlater : Later s s' 0) :
    s'.modCount = s.modCount := by
  rw [h.apart, (h.later hlater).apart, Nat.add_zero]

variable {c : Cursor} {iter : LinkedListIterator}

theorem Tracks.passed (h : Tracks s ns xs iter c) (hpasses : Passes s ns xs s' ns' xs' k) :
    Tracks s' ns' xs' iter { c with behind := c.behind + k } := by
  refine ⟨h.writes, h.counts.later hpasses.later, h.index, ?_⟩
  intro hbehind
  obtain ⟨hzero, rfl⟩ := Nat.add_eq_zero_iff.mp hbehind
  obtain ⟨hat, hlast⟩ := h.current hzero
  obtain ⟨rfl, hlength⟩ := hpasses.still rfl
  have hcount := h.counts.still hpasses.later
  refine ⟨⟨?_, hat.current, by rw [hlength]; exact hat.inside, hat.index⟩, ?_⟩
  · exact stale_eq_false.mpr fun _ => by rw [hcount, hat.expected h.writes]
  · unfold LastMove at hlast ⊢
    rw [hlength]
    exact hlast

theorem Descends.passed {iter : ReverseIterator} {c : Descent} (h : Descends s ns xs iter c)
    (hpasses : Passes s ns xs s' ns' xs' k) :
    Descends s' ns' xs' iter { c with behind := c.behind + k } := by
  refine ⟨h.writes, h.counts.later hpasses.later, ?_⟩
  intro hbehind
  obtain ⟨hzero, rfl⟩ := Nat.add_eq_zero_iff.mp hbehind
  obtain ⟨hat, hcan, hremove⟩ := h.current hzero
  obtain ⟨rfl, hlength⟩ := hpasses.still rfl
  have hcount := h.counts.still hpasses.later
  refine ⟨⟨?_, hat.current, by rw [hlength]; exact hat.inside⟩, hcan, by rwa [hlength]⟩
  exact stale_eq_false.mpr fun _ => by rw [hcount, hat.expected h.writes]

/-- A call of an iterator gives what the call of its cursor gives, and the iterator keeps to
the cursor. -/
def Follows {ι κ : Type} (tracks : LinkedList E → List Nat → List E → ι → κ → Prop)
    (s : LinkedList E) (ns : List Nat) (xs : List E) :
    Except Fault (LinkedList E × ι × Result E) → Except Fault (List E × Nat × κ × Result E) → Prop
  | .ok (s', iter', a), .ok (xs', k, c', b) =>
    a = b ∧ ∃ ns', Passes s ns xs s' ns' xs' k ∧ tracks s' ns' xs' iter' c'
  | .error f, .error g => f = g
  | _, _ => False

variable (h : Tracks s ns xs iter c)

/-- An iterator that agrees with the list after a call of it. -/
theorem At.tracks (hat : At s ns xs iter c.pos) (h : s.Keeps ns xs) (hconst : iter.isConst = false)
    (hbehind : c.behind = 0)
    (hlast : LastMove ns xs iter.lastReturned c) : Tracks s ns xs iter c := by
  refine ⟨hconst, ?_, hat.index, fun _ => ⟨hat, hlast⟩⟩
  rw [hbehind]
  exact .of_agrees h.count (hat.expected hconst)

include h

theorem Tracks.stale (hheard : c.behind % 2 ^ 32 = 0 → c.behind = 0) (hbehind : c.behind ≠ 0) :
    s.stale iter.expectedModCount iter.isConst = true := by
  rw [h.writes]
  exact h.counts.stale hheard hbehind

variable (hkeeps : s.Keeps ns xs)
include hkeeps

theorem Tracks.nextIndex :
    Follows Tracks s ns xs (s.iterApply iter .nextIndex) (c.apply xs .nextIndex) := by
  refine ⟨?_, ns, hkeeps.passes_refl, h⟩
  rw [LinkedList.nextIndex, h.index, Int.sub_add_cancel]

theorem Tracks.previousIndex :
    Follows Tracks s ns xs (s.iterApply iter .previousIndex) (c.apply xs .previousIndex) := by
  refine ⟨?_, ns, hkeeps.passes_refl, h⟩
  rw [LinkedList.previousIndex, h.index]

/-- All calls of an iterator that look at the counter fail on a list that was modified. -/
theorem Tracks.apply_behind
    (hheard : c.behind % 2 ^ 32 = 0 → c.behind = 0) (hbehind : c.behind ≠ 0) (op : IterOp E) :
    Follows Tracks s ns xs (s.iterApply iter op) (c.apply xs op) := by
  have hstale := h.stale hheard hbehind
  have hwrites : ¬ iter.isConst = true := by simp [h.writes]
  cases op with
  | nextIndex => exact h.nextIndex hkeeps
  | previousIndex => exact h.previousIndex hkeeps
  | next | previous | add | set | remove =>
    simp only [iterApply, Cursor.apply, unlessBehind, if_neg hbehind, next, previous, add, set,
      remove, if_neg hwrites, if_pos hstale]
    rfl

theorem Tracks.apply_current (hbehind : c.behind = 0) (op : IterOp E)
    (hroom : ∀ xs' k c' r, c.apply xs op = .ok (xs', k, c', r) → xs'.length < 2 ^ 31) :
    Follows Tracks s ns xs (s.iterApply iter op) (c.apply xs op) := by
  obtain ⟨hat, hlast⟩ := h.current hbehind
  have hinside := hat.inside
  cases op with
  | next =>
    rw [iterApply, Cursor.apply, unlessBehind, if_pos hbehind, head?_drop]
    rcases hx : xs[c.pos]? with _ | x
    · have hend : c.pos = xs.length :=
        Nat.le_antisymm hinside (getElem?_eq_none_iff.mp hx)
      rw [hat.next_end hkeeps hend]
      rfl
    · obtain ⟨iter', hnext, hat', hlast', -, hconst⟩ := hat.next hkeeps hx
      rw [hnext]
      refine ⟨rfl, ns, hkeeps.passes_refl, At.tracks hat' hkeeps (hconst.trans h.writes) rfl ?_⟩
      exact ⟨(List.getElem?_eq_some_iff.mp hx).1, hlast', .inl rfl⟩
  | previous =>
    rw [iterApply, Cursor.apply, unlessBehind, if_pos hbehind]
    rcases hpos : c.pos with _ | i
    · rw [hpos] at hat
      rw [hat.previous_start]
      rfl
    · rw [hpos] at hat hinside
      have hx : xs[i]? = some xs[i] := getElem?_eq_getElem hinside
      obtain ⟨iter', hprev, hat', hlast', -, hconst⟩ := hat.previous hkeeps hx
      rw [hprev, ← take_concat_get' xs i hinside, getLast?_concat]
      refine ⟨rfl, ns, hkeeps.passes_refl, At.tracks hat' hkeeps (hconst.trans h.writes) rfl ?_⟩
      exact ⟨hinside, hlast', .inr rfl⟩
  | nextIndex => exact h.nextIndex hkeeps
  | previousIndex => exact h.previousIndex hkeeps
  | add e =>
    have hlen := hroom _ _ _ _ (if_pos hbehind)
    simp only [length_append, length_cons, length_take, length_drop] at hlen
    obtain ⟨s', ns', iter', hadd, hkeeps', hlater, hat', hlast', hconst⟩ :=
      hat.add hkeeps h.writes e (by omega)
    rw [iterApply, Cursor.apply, unlessBehind, if_pos hbehind, hadd]
    exact ⟨rfl, ns', hkeeps'.passes hlater Nat.one_pos, At.tracks hat' hkeeps' hconst rfl hlast'⟩
  | set e =>
    rw [iterApply, Cursor.apply, unlessBehind, if_pos hbehind]
    unfold LastMove at hlast
    rcases hlastIdx : c.last with _ | i
    · rw [hlastIdx] at hlast
      rw [set, if_neg (by simp [h.writes]), hat.agrees]
      simp only [if_pos hlast]
      rfl
    · rw [hlastIdx] at hlast
      obtain ⟨hi, hnode, hpos⟩ := hlast
      obtain ⟨s', hset, hkeeps', hlater⟩ := hat.set hkeeps h.writes hi hnode e
      have hpasses : Passes s ns xs s' ns (xs.set i e) 0 :=
        ⟨hkeeps', hlater, fun _ => ⟨rfl, length_set⟩⟩
      rw [hset]
      refine ⟨rfl, ns, hpasses, ?_⟩
      exact h.passed hpasses
  | remove =>
    rw [iterApply, Cursor.apply, unlessBehind, if_pos hbehind]
    unfold LastMove at hlast
    rcases hlastIdx : c.last with _ | i
    · rw [hlastIdx] at hlast
      rw [remove, if_neg (by simp [h.writes]), hat.agrees]
      simp only [if_pos hlast]
      rfl
    · rw [hlastIdx] at hlast
      obtain ⟨hi, hnode, hpos⟩ := hlast
      obtain ⟨s', iter', hrem, hkeeps', hlater, hat', hlast', hconst⟩ :=
        hat.remove hkeeps h.writes hi hnode hpos
      rw [hrem]
      exact ⟨rfl, _, hkeeps'.passes hlater Nat.one_pos, At.tracks hat' hkeeps' hconst rfl hlast'⟩

theorem Tracks.apply (hheard : c.behind % 2 ^ 32 = 0 → c.behind = 0) (op : IterOp E)
    (hroom : ∀ xs' k c' r, c.apply xs op = .ok (xs', k, c', r) → xs'.length < 2 ^ 31) :
    Follows Tracks s ns xs (s.iterApply iter op) (c.apply xs op) := by
  by_cases hbehind : c.behind = 0
  · exact h.apply_current hkeeps hbehind op hroom
  · exact h.apply_behind hkeeps hheard hbehind op

omit hkeeps

omit h

theorem Below.descends {iter : ReverseIterator} {c : Descent} (hat : Below s ns xs iter c.ahead)
    (h : s.Keeps ns xs) (hconst : iter.isConst = false) (hbehind : c.behind = 0)
    (hcan : iter.canRemove = c.canRemove) (hremove : c.canRemove = true → c.ahead < xs.length) :
    Descends s ns xs iter c := by
  refine ⟨hconst, ?_, fun _ => ⟨hat, hcan, hremove⟩⟩
  rw [hbehind]
  exact .of_agrees h.count (hat.expected hconst)

theorem Descends.apply {iter : ReverseIterator} {c : Descent} (h : Descends s ns xs iter c)
    (hkeeps : s.Keeps ns xs) (hheard : c.behind % 2 ^ 32 = 0 → c.behind = 0) (op : DescOp) :
    Follows Descends s ns xs (s.descApply iter op) (c.apply xs op) := by
  by_cases hbehind : c.behind = 0
  · obtain ⟨hat, hcan, hremove⟩ := h.current hbehind
    have hinside := hat.inside
    cases op with
    | next =>
      rw [descApply, Descent.apply, unlessBehind, if_pos hbehind]
      rcases hahead : c.ahead with _ | i
      · rw [hahead] at hat
        rw [hat.next_end hkeeps]
        rfl
      · rw [hahead] at hat hinside
        obtain ⟨iter', hnext, hat', hcan', -, hconst⟩ :=
          hat.next hkeeps (getElem?_eq_getElem hinside)
        rw [hnext, ← take_concat_get' xs i hinside, getLast?_concat]
        exact ⟨rfl, ns, hkeeps.passes_refl, Below.descends hat' hkeeps (hconst.trans h.writes) rfl
          hcan' fun _ => hinside⟩
    | remove =>
      rw [descApply, Descent.apply, unlessBehind, if_pos hbehind]
      by_cases hc : c.canRemove = true
      · obtain ⟨s', iter', hrem, hkeeps', hlater, hat', hcan', hconst⟩ :=
          hat.remove hkeeps h.writes (hcan.trans hc) (hremove hc)
        rw [if_pos hc, hrem]
        exact ⟨rfl, _, hkeeps'.passes hlater Nat.one_pos, Below.descends hat' hkeeps' hconst rfl
          hcan' fun habs => absurd habs Bool.false_ne_true⟩
      · rw [if_neg hc, reverseRemove, if_neg (by simp [h.writes]), hat.agrees]
        simp only [if_pos (hcan.trans (Bool.eq_false_iff.mpr hc))]
        rfl
  · have hstale : s.stale iter.expectedModCount iter.isConst = true := by
      rw [h.writes]
      exact h.counts.stale hheard hbehind
    cases op with
    | next =>
      rw [descApply, Descent.apply, unlessBehind, if_neg hbehind, reverseNext, if_pos hstale]
      rfl
    | remove =>
      rw [descApply, Descent.apply, unlessBehind, if_neg hbehind, reverseRemove,
        if_pos hstale, if_neg (by simp [h.writes])]
      rfl

end

/-! ## Runs -/

/-- Both are absent, or both are there and go together. -/
def Paired {ι κ : Type} (tracks : ι → κ → Prop) : Option ι → Option κ → Prop
  | none, none => True
  | some iter, some c => tracks iter c
  | _, _ => False

theorem Paired.map {ι κ : Type} {tracks tracks' : ι → κ → Prop} {iter : Option ι} {c : Option κ}
    {f : κ → κ} (h : Paired tracks iter c) (himp : ∀ iter c, tracks iter c → tracks' iter (f c)) :
    Paired tracks' iter (c.map f) := by
  rcases iter with _ | iter <;> rcases c with _ | c
  · trivial
  · exact h
  · exact h
  · exact himp _ _ h

theorem Paired.mono {ι κ : Type} {tracks tracks' : ι → κ → Prop} {iter : Option ι} {c : Option κ}
    (h : Paired tracks iter c) (himp : ∀ iter c, tracks iter c → tracks' iter c) :
    Paired tracks' iter c := by
  have hmap := Paired.map (f := id) h himp
  rwa [Option.map_id] at hmap

/-- The list holds the sequence, and its iterators stand where the cursors stand. -/
def Agree (s : Session E) (q : Seq E) : Prop :=
  ∃ ns, s.list.Keeps ns q.items ∧ Paired (Tracks s.list ns q.items) s.iter q.iter ∧
    Paired (Descends s.list ns q.items) s.desc q.desc

variable [Inhabited E] [DecidableEq E]

/-- What one call gives on the two sides. -/
def StepAgree : Except Fault (Session E × Result E) → Except Fault (Seq E × Result E) → Prop
  | .ok (s', a), .ok (q', b) => a = b ∧ Agree s' q'
  | .error f, .error g => f = g
  | _, _ => False

omit [Inhabited E] [DecidableEq E]

variable {q : Seq E} {s : Session E}

theorem StepAgree.after {r : Except Fault (Session E × Result E)}
    {r' : Except Fault (Seq E × Result E)} (h : StepAgree r r') (hold : Agree s q) :
    Agree (after s r).1 (after q r').1 ∧
      (after q r').2 = (after s r).2 := by
  rcases r with f | ⟨s', a⟩ <;> rcases r' with g | ⟨q', b⟩
  · exact ⟨hold, congrArg _ (Eq.symm h)⟩
  · exact h.elim
  · exact h.elim
  · exact ⟨h.2, congrArg _ (Eq.symm h.1)⟩

/-- A successful call makes its result the next state. -/
theorem after_ok {σ : Type} {s : σ} {call : Except Fault (σ × Result E)} {t : σ} {a : Result E}
    (h : call = .ok (t, a)) : (after s call).1 = t := by
  rw [h]
  rfl

theorem Agree.passed {ns : List Nat} {t : LinkedList E} {ns' : List Nat} {xs' : List E} {k : Nat}
    (hiter : Paired (Tracks s.list ns q.items) s.iter q.iter)
    (hdesc : Paired (Descends s.list ns q.items) s.desc q.desc)
    (hpasses : Passes s.list ns q.items t ns' xs' k) :
    Agree { s with list := t } (q.passed xs' k) :=
  ⟨ns', hpasses.keeps, hiter.map fun _ _ h => h.passed hpasses,
    hdesc.map fun _ _ h => h.passed hpasses⟩

theorem Agree.listIterator (h : Agree s q) (index : Int) :
    StepAgree (do
        let iter ← s.list.listIterator index false
        return ({ s with iter := some iter }, .done))
      (if 0 ≤ index ∧ index ≤ q.items.length then
        .ok ({ q with iter := some ⟨index.toNat, none, 0⟩ }, .done)
      else .error (.thrown .indexOutOfBounds)) := by
  obtain ⟨ns, hkeeps, -, hdesc⟩ := h
  by_cases hin : 0 ≤ index ∧ index ≤ q.items.length
  · obtain ⟨n, rfl⟩ := Int.eq_ofNat_of_zero_le hin.1
    obtain ⟨hiter, hat⟩ := hkeeps.listIterator n (by omega) false
    rw [hiter, if_pos hin]
    exact ⟨rfl, ns, hkeeps, At.tracks hat hkeeps rfl rfl rfl, hdesc⟩
  · rw [hkeeps.listIterator_out (by omega) false, if_neg hin]
    rfl

variable [Inhabited E] [DecidableEq E]

/-- One call keeps the two together, when 32 bits are enough for it. -/
theorem Agree.step (h : Agree s q) (op : Op E) (hsound : Sound q op) :
    StepAgree (s.apply op) (q.apply op) := by
  obtain ⟨hsmall, hheard, hother⟩ := hsound
  have hroom : ∀ q' r, q.apply op = .ok (q', r) → q'.items.length < 2 ^ 31 := by
    intro q' r hop
    have hstep : (seqMachine.step q op).1 = q' := after_ok hop
    rwa [hstep] at hsmall
  cases op with
  | list op =>
    obtain ⟨ns, hkeeps, hiter, hdesc⟩ := h
    have hmatch := hkeeps.apply op hother fun xs' k r hop => by
      refine hroom (q.passed xs' k) r ?_
      rw [Seq.apply, hop]
      rfl
    rw [Session.apply, Seq.apply]
    rcases hs : s.list.apply op with f | ⟨t, a⟩ <;>
      rcases hq : seqApply q.items op with g | ⟨xs', k, b⟩ <;> rw [hs, hq] at hmatch
    · exact hmatch
    · exact hmatch.elim
    · exact hmatch.elim
    · obtain ⟨hab, ns', hpasses⟩ := hmatch
      exact ⟨hab, Agree.passed hiter hdesc hpasses⟩
  | listIterator index => exact h.listIterator index
  | iter op =>
    have hagree := h
    obtain ⟨ns, hkeeps, hiter, hdesc⟩ := h
    rw [Session.apply, Seq.apply]
    rcases hsi : s.iter with _ | iter <;> rcases hqi : q.iter with _ | c <;> rw [hsi, hqi] at hiter
    · exact ⟨rfl, hagree⟩
    · exact hiter.elim
    · exact hiter.elim
    · have hbehind : q.behind (.iter op) = c.behind := by simp [Seq.behind, hqi]
      rw [hbehind] at hheard
      have hfollows := Tracks.apply hiter hkeeps hheard op fun xs' k c' r hop => by
        refine hroom { q.passed xs' k with iter := some c' } r ?_
        rw [Seq.apply, hqi]
        simp only [hop]
        rfl
      show StepAgree (s.list.iterApply iter op >>= fun r => _) (c.apply q.items op >>= fun r => _)
      rcases hs : s.list.iterApply iter op with f | ⟨t, iter', a⟩ <;>
        rcases hq : c.apply q.items op with g | ⟨xs', k, c', b⟩ <;> rw [hs, hq] at hfollows
      · exact hfollows
      · exact hfollows.elim
      · exact hfollows.elim
      · obtain ⟨hab, ns', hpasses, htracks⟩ := hfollows
        exact ⟨hab, ns', hpasses.keeps, htracks, hdesc.map fun _ _ h => h.passed hpasses⟩
  | descendingIterator =>
    obtain ⟨ns, hkeeps, hiter, -⟩ := h
    exact ⟨rfl, ns, hkeeps, hiter, Below.descends (hkeeps.descendingIterator false) hkeeps rfl rfl
      rfl fun habs => absurd habs Bool.false_ne_true⟩
  | desc op =>
    have hagree := h
    obtain ⟨ns, hkeeps, hiter, hdesc⟩ := h
    rw [Session.apply, Seq.apply]
    rcases hsi : s.desc with _ | iter <;> rcases hqi : q.desc with _ | c <;> rw [hsi, hqi] at hdesc
    · exact ⟨rfl, hagree⟩
    · exact hdesc.elim
    · exact hdesc.elim
    · have hbehind : q.behind (.desc op) = c.behind := by simp [Seq.behind, hqi]
      rw [hbehind] at hheard
      have hfollows := Descends.apply hdesc hkeeps hheard op
      show StepAgree (s.list.descApply iter op >>= fun r => _) (c.apply q.items op >>= fun r => _)
      rcases hs : s.list.descApply iter op with f | ⟨t, iter', a⟩ <;>
        rcases hq : c.apply q.items op with g | ⟨xs', k, c', b⟩ <;> rw [hs, hq] at hfollows
      · exact hfollows
      · exact hfollows.elim
      · exact hfollows.elim
      · obtain ⟨hab, ns', hpasses, htracks⟩ := hfollows
        exact ⟨hab, ns', hpasses.keeps, hiter.map fun _ _ h => h.passed hpasses, htracks⟩

theorem Agree.machine_step (h : Agree s q) (op : Op E) (hsound : Sound q op) :
    Agree (machine.step s op).1 (seqMachine.step q op).1 ∧
      (seqMachine.step q op).2 = (machine.step s op).2 :=
  (h.step op hsound).after h

/-- The list shows the sequence in both directions, from the ends and from the iterators that
nothing was modified behind. -/
structure Observes (s : Session E) (q : Seq E) : Prop where
  size : s.list.listSize = q.items.length
  toArray : s.list.toArray = .ok q.items
  forward : ∀ isConst, (do s.list.forward (← s.list.listIterator 0 isConst) s.list.rounds) =
    .ok q.items
  backward : ∀ isConst,
    (do s.list.backward (← s.list.listIterator s.list.listSize isConst) s.list.rounds) =
      .ok q.items.reverse
  descend : ∀ isConst, s.list.descend (s.list.descendingIterator isConst) s.list.rounds =
    .ok q.items.reverse
  iter : Paired (fun iter c => c.behind = 0 →
    s.list.hasNext iter = .ok (decide (c.pos < q.items.length)) ∧
    hasPrevious iter = decide (0 < c.pos) ∧
    s.list.forward iter s.list.rounds = .ok (q.items.drop c.pos) ∧
    s.list.backward iter s.list.rounds = .ok (q.items.take c.pos).reverse) s.iter q.iter
  desc : Paired (fun iter c => c.behind = 0 →
    s.list.reverseHasNext iter = .ok (decide (0 < c.ahead)) ∧
    s.list.descend iter s.list.rounds = .ok (q.items.take c.ahead).reverse) s.desc q.desc

omit [Inhabited E] [DecidableEq E] in
theorem Agree.observes (h : Agree s q) : Observes s q := by
  obtain ⟨ns, hkeeps, hiter, hdesc⟩ := h
  have hrounds := hkeeps.length_lt_rounds
  have hforward : ∀ iter pos, At s.list ns q.items iter pos →
      s.list.forward iter s.list.rounds = .ok (q.items.drop pos) := by
    intro iter pos hat
    exact hkeeps.forward _ iter pos hat (Nat.lt_of_le_of_lt (Nat.sub_le _ _) hrounds)
  have hbackward : ∀ iter pos, At s.list ns q.items iter pos →
      s.list.backward iter s.list.rounds = .ok (q.items.take pos).reverse := by
    intro iter pos hat
    exact hkeeps.backward pos iter _ hat (Nat.lt_of_le_of_lt hat.inside hrounds)
  refine ⟨hkeeps.size, hkeeps.toArray, ?_, ?_, ?_, ?_, ?_⟩
  · intro isConst
    obtain ⟨iter, hnew, hat, -⟩ := hkeeps.iteratorAtFront isConst
    rw [hnew]
    exact hforward _ 0 hat
  · intro isConst
    obtain ⟨hnew, hat⟩ := hkeeps.listIterator q.items.length (le_refl _) isConst
    rw [hkeeps.size, hnew]
    have hall := hbackward _ _ hat
    rwa [take_length] at hall
  · intro isConst
    have hall := hkeeps.descend q.items.length _ _ (hkeeps.descendingIterator isConst) hrounds
    rwa [take_length] at hall
  · refine hiter.mono fun iter c h hbehind => ?_
    obtain ⟨hat, -⟩ := h.current hbehind
    exact ⟨hat.hasNext hkeeps, hat.hasPrevious, hforward _ _ hat, hbackward _ _ hat⟩
  · refine hdesc.mono fun iter c h hbehind => ?_
    obtain ⟨hat, -⟩ := h.current hbehind
    exact ⟨hat.hasNext hkeeps, hkeeps.descend c.ahead iter _ hat
      (Nat.lt_of_le_of_lt hat.inside hrounds)⟩

end LinkedList

/-- For every element type and every run of list, deque and iterator calls that 32 bits are
enough for and that do not copy the list to itself, a new list answers call by call as the
sequence with its cursors does. After it the size is exact, forward and backward traversals
give the sequence and its reverse, and the iterators stand where the cursors stand. -/
theorem linkedList_refines_seq {E : Type} [Inhabited E] [DecidableEq E]
    (ops : List (Op E))
    (hsound : seqMachine.Meets Sound ⟨[], none, none⟩ ops) :
    machine.trace ⟨.new, none, none⟩ ops =
        seqMachine.trace ⟨[], none, none⟩ ops ∧
      Observes (machine.run ⟨.new, none, none⟩ ops)
        (seqMachine.run ⟨[], none, none⟩ ops) := by
  have hinit : Agree (E := E) ⟨.new, none, none⟩ ⟨[], none, none⟩ :=
    ⟨[], keeps_new, trivial, trivial⟩
  obtain ⟨htrace, hagree⟩ := Machine.trace_eq_of_simulation
    (R := fun q s => Agree s q)
    (fun q s op h hop => h.machine_step op hop) hinit hsound
  exact ⟨htrace.symm, hagree.observes⟩

/-- A list of three numbers is edited in front of its end and in its middle, then from its
end; an iterator that was left behind says so. -/
theorem linkedList_refines_edits :
    let ops : List (Op Nat) :=
      [.list (.addAll [1, 2, 3]), .listIterator 3, .iter .previous, .iter (.set 7),
        .iter (.add 8), .iter .previous, .iter .remove, .iter .previous, .iter .remove,
        .descendingIterator, .desc .next, .desc .remove, .iter .next, .list (.addFirst 5),
        .desc .next, .list .toArray]
    machine.trace ⟨.new, none, none⟩ ops =
        seqMachine.trace ⟨[], none, none⟩ ops ∧
      Observes (machine.run ⟨.new, none, none⟩ ops)
        (seqMachine.run ⟨[], none, none⟩ ops) :=
  linkedList_refines_seq _ (by decide)

namespace LinkedList

/-- Adding goes on when the size does not fit any more. -/
theorem Holds.addToEnd {E : Type} {s : LinkedList E} {ns : List Nat} {xs : List E}
    (h : s.Holds ns xs) (hsize : s.listSize = wrap 32 xs.length) (value : E) :
    ∃ s' ns', s.addToEnd value = .ok s' ∧ s'.Holds ns' (xs ++ [value]) ∧
      s'.listSize = wrap 32 ((xs ++ [value]).length : Nat) := by
  obtain ⟨s', hins, hholds, hsame, -⟩ := h.insertAt (le_refl _) value
  rw [take_length, drop_length] at hholds
  refine ⟨s'.modified 1, _, ?_,
    ⟨hholds.threads, hholds.nodup, hholds.live, hholds.fresh, hholds.values⟩, ?_⟩
  · unfold LinkedList.addToEnd
    rw [h.tail_eq] at hins
    rw [h.prevOf_tail, ok_bind, hins]
    rfl
  · show wrap 32 (s'.listSize + 1) = _
    rw [hsame, hsize, wrap_add_wrap, length_append, length_singleton, Nat.cast_add, Nat.cast_one]

variable {E : Type} [Inhabited E] [DecidableEq E]

/-- The size after any number of calls of `add`. -/
theorem listSize_adds (value : E) (n : Nat) :
    ∀ {s : Session E} {ns : List Nat} {xs : List E}, s.list.Holds ns xs →
      s.list.listSize = wrap 32 xs.length →
      (machine.run s (replicate n (.list (.add value)))).list.listSize =
        wrap 32 ((xs.length + n : Nat) : Int) := by
  induction n with
  | zero =>
    intro s ns xs _ hsize
    exact hsize
  | succ n ih =>
    intro s ns xs hholds hsize
    obtain ⟨t, ns', hadd, hholds', hsize'⟩ := hholds.addToEnd hsize value
    have hstep : (machine.step s (.list (.add value))).1 = { s with list := t } := by
      refine after_ok (a := .flag true) ?_
      rw [Session.apply, apply, hadd]
      rfl
    rw [replicate_succ, Machine.run_cons, hstep, ih hholds' hsize', length_append,
      length_singleton, show xs.length + 1 + n = xs.length + (n + 1) by omega]

omit [Inhabited E] in
theorem length_seq_adds (value : E) (n : Nat) (q : Seq E) :
    (seqMachine.run q (replicate n (.list (.add value)))).items.length =
      q.items.length + n := by
  induction n generalizing q with
  | zero => rfl
  | succ n ih =>
    rw [replicate_succ, Machine.run_cons, ih]
    show (q.items ++ [value]).length + n = _
    rw [length_append, length_singleton]
    omega

end LinkedList

/-- After 2^31 calls of `add` the size is negative. A list that is copied to itself is empty. -/
theorem linkedList_size_overflows :
    let adds : List (Op Nat) := replicate (2 ^ 31) (.list (.add 0))
    (machine.step (machine.run ⟨.new, none, none⟩ adds) (.list .size)).2 =
        .ok (.number (-2 ^ 31)) ∧
      (seqMachine.step (seqMachine.run ⟨[], none, none⟩ adds)
        (.list .size)).2 = .ok (.number (2 ^ 31)) ∧
      machine.trace ⟨.new, none, none⟩ [.list (.add 7), .list .copySelf, .list .size] =
        [.ok (.flag true), .ok .done, .ok (.number 0)] := by
  intro adds
  refine ⟨?_, ?_, by decide⟩
  · have hsize := listSize_adds (0 : Nat) (2 ^ 31) (s := ⟨.new, none, none⟩) keeps_new.toHolds rfl
    show Except.ok (Result.number _) = _
    rw [hsize]
    rfl
  · have hlength := length_seq_adds 0 (2 ^ 31) ⟨[], none, none⟩
    show Except.ok (Result.number _) = _
    rw [hlength]
    rfl

end ActivemqCpp.Decaf
