import ActivemqCpp.Decaf.LinkedListCursors

/-!
# The calls of a `LinkedList` on a sequence

`seqApply` says what each call of the list and deque interfaces does to a mathematical
sequence: the new sequence, the number of modifications that an iterator can notice, and
the answer. `Keeps.apply` says that the linked nodes do the same.
-/

namespace ActivemqCpp.Decaf

open Base List ArrayList

/-- The calls of the list and of the deque. `add` is also `offer` and `offerLast`, `addFirst`
is also `push` and `offerFirst`, `removeFirst` is also `pop` and `remove()`, `remove` is also
`removeFirstOccurrence`, and `peek`, `poll` and `element` are those of the first element. -/
inductive LinkedList.ListOp (E : Type)
  | get (index : Int)
  | set (index : Int) (element : E)
  | add (value : E)
  | addAt (index : Int) (value : E)
  | addAll (collection : List E)
  | addAllAt (index : Int) (collection : List E)
  | addAllSelf (index : Int)
  | copy (collection : List E)
  | copySelf
  | remove (value : E)
  | removeAt (index : Int)
  | removeAll (collection : List E)
  | retainAll (collection : List E)
  | clear
  | contains (value : E)
  | indexOf (value : E)
  | lastIndexOf (value : E)
  | toArray
  | size
  | isEmpty
  | addFirst (value : E)
  | addLast (value : E)
  | getFirst
  | getLast
  | peekFirst
  | peekLast
  | pollFirst
  | pollLast
  | removeFirst
  | removeLast
  | removeLastOccurrence (value : E)

def LinkedList.ListOp.copiesSelf {E : Type} : ListOp E → Bool
  | .copySelf => true
  | _ => false

/-- What a call returns. -/
inductive LinkedList.Result (E : Type)
  | done
  | flag (value : Bool)
  | number (value : Int)
  | element (value : E)
  | maybe (value : Option E)
  | elements (values : List E)
deriving DecidableEq

namespace LinkedList

variable {E : Type} [Inhabited E] [DecidableEq E]

section Calls

variable {α : Type} (s : LinkedList E)

/-- A call that changes nothing. -/
def asks (answer : α → Result E) (call : Except Fault α) : Except Fault (LinkedList E × Result E) :=
  call.map fun a => (s, answer a)

/-- A call that changes the list. -/
def edits (answer : α → Result E) (call : Except Fault (LinkedList E × α)) :
    Except Fault (LinkedList E × Result E) :=
  call.map fun r => (r.1, answer r.2)

/-- A call that only changes the list. -/
def turns (answer : Result E) (call : Except Fault (LinkedList E)) :
    Except Fault (LinkedList E × Result E) :=
  call.map fun t => (t, answer)

def apply : ListOp E → Except Fault (LinkedList E × Result E)
  | .get index => s.asks .element (s.getAt index)
  | .set index element => edits .element (s.setAt index element)
  | .add value => turns (.flag true) (s.addToEnd value)
  | .addAt index value => turns .done (s.addAt index value)
  | .addAll collection => edits .flag (s.addAllAtLocation s.listSize collection)
  | .addAllAt index collection => edits .flag (s.addAllAtLocation index collection)
  | .addAllSelf index => edits .flag (s.addAllSelf index)
  | .copy collection => turns .done (s.copy collection)
  | .copySelf => turns .done s.copySelf
  | .remove value => edits .flag (s.removeFirstOccurrence value)
  | .removeAt index => edits .element (s.removeAt index)
  | .removeAll collection => edits .flag (s.removeAll collection)
  | .retainAll collection => edits .flag (s.retainAll collection)
  | .clear => turns .done s.clear
  | .contains value => s.asks .flag (s.contains value)
  | .indexOf value => s.asks .number (s.indexOf value)
  | .lastIndexOf value => s.asks .number (s.lastIndexOf value)
  | .toArray => s.asks .elements s.toArray
  | .size => s.asks .number (.ok s.listSize)
  | .isEmpty => s.asks .flag (.ok (s.listSize == 0))
  | .addFirst value => turns .done (s.addToFront value)
  | .addLast value => turns .done (s.addToEnd value)
  | .getFirst => s.asks .element s.getFirst
  | .getLast => s.asks .element s.getLast
  | .peekFirst => s.asks .maybe s.peekFirst
  | .peekLast => s.asks .maybe s.peekLast
  | .pollFirst => edits .maybe s.pollFirst
  | .pollLast => edits .maybe s.pollLast
  | .removeFirst => edits .element s.removeAtFront
  | .removeLast => edits .element s.removeAtEnd
  | .removeLastOccurrence value => edits .flag (s.removeLastOccurrence value)

end Calls

/-! ## On a sequence -/

section Sequence

variable (xs : List E)

def seqLastIndexOf (value : E) : Int :=
  if value ∈ xs then (xs.length : Int) - 1 - xs.reverse.idxOf value else -1

def seqAddAll (index : Int) (values : List E) : Except Fault (List E × Nat × Result E) :=
  if 0 ≤ index ∧ index ≤ xs.length then
    .ok (xs.take index.toNat ++ values ++ xs.drop index.toNat, if values = [] then 0 else 1,
      .flag (!values.isEmpty))
  else .error (.thrown .indexOutOfBounds)

/-- The elements that `drops` says go. -/
def seqRemoveWhere (drops : E → Bool) : List E × Nat × Result E :=
  (xs.filter fun e => !drops e, xs.countP drops, .flag (xs.any drops))

/-- An element that has to be there. -/
def required (e : Option E) : Except Fault E :=
  match e with
  | some e => .ok e
  | none => .error (.thrown .noSuchElement)

/-- The sequence after a call, how often it was modified, and the answer. -/
def seqApply : ListOp E → Except Fault (List E × Nat × Result E)
  | .get index => (seqGet xs index).map fun e => (xs, 0, .element e)
  | .set index element =>
    (seqGet xs index).map fun e => (xs.set index.toNat element, 0, .element e)
  | .add value => .ok (xs ++ [value], 1, .flag true)
  | .addAt index value =>
    if 0 ≤ index ∧ index ≤ xs.length then
      .ok (xs.take index.toNat ++ value :: xs.drop index.toNat, 1, .done)
    else .error (.thrown .indexOutOfBounds)
  | .addAll collection => seqAddAll xs xs.length collection
  | .addAllAt index collection => seqAddAll xs index collection
  | .addAllSelf index => seqAddAll xs index xs
  | .copy collection => .ok (collection, if collection = [] then 1 else 2, .done)
  | .copySelf => .ok (xs, 1, .done)
  | .remove value => .ok (xs.erase value, if value ∈ xs then 1 else 0, .flag (value ∈ xs))
  | .removeAt index =>
    (seqGet xs index).map fun e => (xs.eraseIdx index.toNat, 1, .element e)
  | .removeAll collection => .ok (seqRemoveWhere xs fun e => collection.contains e)
  | .retainAll collection => .ok (seqRemoveWhere xs fun e => !collection.contains e)
  | .clear => .ok ([], 1, .done)
  | .contains value => .ok (xs, 0, .flag (value ∈ xs))
  | .indexOf value => .ok (xs, 0, .number (seqIndexOf xs value))
  | .lastIndexOf value => .ok (xs, 0, .number (seqLastIndexOf xs value))
  | .toArray => .ok (xs, 0, .elements xs)
  | .size => .ok (xs, 0, .number xs.length)
  | .isEmpty => .ok (xs, 0, .flag xs.isEmpty)
  | .addFirst value => .ok (value :: xs, 1, .done)
  | .addLast value => .ok (xs ++ [value], 1, .done)
  | .getFirst => (required xs.head?).map fun e => (xs, 0, .element e)
  | .getLast => (required xs.getLast?).map fun e => (xs, 0, .element e)
  | .peekFirst => .ok (xs, 0, .maybe xs.head?)
  | .peekLast => .ok (xs, 0, .maybe xs.getLast?)
  | .pollFirst => .ok (xs.tail, if xs = [] then 0 else 1, .maybe xs.head?)
  | .pollLast => .ok (xs.dropLast, if xs = [] then 0 else 1, .maybe xs.getLast?)
  | .removeFirst => (required xs.head?).map fun e => (xs.tail, 1, .element e)
  | .removeLast => (required xs.getLast?).map fun e => (xs.dropLast, 1, .element e)
  | .removeLastOccurrence value =>
    .ok ((xs.reverse.erase value).reverse, if value ∈ xs then 1 else 0, .flag (value ∈ xs))

end Sequence

/-! ## What a call leaves -/

/-- From a list of `xs` to one of `xs'` in `k` modifications. Without a modification every
node is where it was. -/
structure Passes (s : LinkedList E) (ns : List Nat) (xs : List E) (s' : LinkedList E)
    (ns' : List Nat) (xs' : List E) (k : Nat) : Prop where
  keeps : s'.Keeps ns' xs'
  later : Later s s' k
  still : k = 0 → ns' = ns ∧ xs'.length = xs.length

/-- A call of the list gives what the call of the sequence gives. -/
def Matches (s : LinkedList E) (ns : List Nat) (xs : List E) :
    Except Fault (LinkedList E × Result E) → Except Fault (List E × Nat × Result E) → Prop
  | .ok (s', a), .ok (xs', k, b) => a = b ∧ ∃ ns', Passes s ns xs s' ns' xs' k
  | .error f, .error g => f = g
  | _, _ => False

variable {s : LinkedList E} {ns : List Nat} {xs : List E}

section

omit [Inhabited E] [DecidableEq E]

theorem Keeps.passes_refl (h : s.Keeps ns xs) : Passes s ns xs s ns xs 0 :=
  ⟨h, h.later_refl, fun _ => ⟨rfl, rfl⟩⟩

theorem Keeps.passes {s' : LinkedList E} {ns' : List Nat} {xs' : List E} {k : Nat}
    (h' : s'.Keeps ns' xs') (hlater : Later s s' k) (hk : 0 < k) :
    Passes s ns xs s' ns' xs' k :=
  ⟨h', hlater, fun hzero => absurd hzero (Nat.ne_of_gt hk)⟩

theorem Keeps.asks {α : Type} (h : s.Keeps ns xs) {call : Except Fault α} {a : α}
    (answer : α → Result E) (hcall : call = .ok a) :
    Matches s ns xs (s.asks answer call) (.ok (xs, 0, answer a)) := by
  rw [hcall]
  exact ⟨rfl, ns, h.passes_refl⟩

/-! ## Questions -/

variable (h : s.Keeps ns xs)

include h

theorem Keeps.location {index : Int} (hindex : 0 ≤ index ∧ index < xs.length) :
    s.location index = .ok (refAt ns (index.toNat + 1)) := by
  have hwalk := h.walkTo (index.toNat + 1) (by omega) (c := index < s.listSize.tdiv 2)
  rw [LinkedList.location, if_neg (by rw [h.size]; omega)]
  rw [show ((index.toNat + 1 : Nat) : Int) = index + 1 by omega,
    show s.listSize - (index + 1) + 1 = s.listSize - index by omega] at hwalk
  exact hwalk

theorem Keeps.location_out {index : Int} (hindex : ¬ (0 ≤ index ∧ index < xs.length)) :
    s.location index = .error (.thrown .indexOutOfBounds) := by
  rw [LinkedList.location, if_pos (by rw [h.size]; omega)]

theorem Keeps.getAt (index : Int) : s.getAt index = seqGet xs index := by
  unfold LinkedList.getAt
  rcases seqGet_cases xs index with ⟨hget, hout⟩ | ⟨e, hget, he, hin⟩
  · rw [hget, h.location_out hout]
    rfl
  · rw [hget, h.location hin]
    exact h.valueOf he

/-- The size test in front of a question about one end. -/
theorem Keeps.listSize_eq_zero : s.listSize = 0 ↔ xs = [] := by
  rw [h.size]
  simp

theorem Keeps.first {x : E} {rest : List E} (hxs : xs = x :: rest) :
    s.valueOf (refAt ns 1) = .ok x :=
  h.valueOf (by rw [hxs]; rfl)

theorem Keeps.last {x : E} {rest : List E} (hxs : xs = rest ++ [x]) :
    s.valueOf (refAt ns xs.length) = .ok x := by
  have hlength : xs.length = rest.length + 1 := by simp [hxs]
  rw [hlength]
  exact h.valueOf (by simp [hxs])

theorem Keeps.peekFirst : s.peekFirst = .ok xs.head? := by
  unfold LinkedList.peekFirst
  rcases hxs : xs with _ | ⟨x, rest⟩
  · rw [if_pos (h.listSize_eq_zero.mpr hxs)]
    rfl
  · rw [if_neg (by simp [h.listSize_eq_zero, hxs]), h.nextOf_head, ok_bind,
      h.first hxs]
    rfl

theorem Keeps.peekLast : s.peekLast = .ok xs.getLast? := by
  unfold LinkedList.peekLast
  rcases eq_nil_or_concat xs with hxs | ⟨rest, x, hxs⟩
  · rw [if_pos (h.listSize_eq_zero.mpr hxs), hxs]
    rfl
  · rw [concat_eq_append] at hxs
    rw [if_neg (by simp [h.listSize_eq_zero, hxs]), h.prevOf_tail, ok_bind, h.last hxs, hxs,
      getLast?_concat]
    rfl

theorem Keeps.getFirst : s.getFirst = required xs.head? := by
  unfold LinkedList.getFirst
  rcases hxs : xs with _ | ⟨x, rest⟩
  · rw [if_pos (h.listSize_eq_zero.mpr hxs)]
    rfl
  · rw [if_neg (by simp [h.listSize_eq_zero, hxs]), h.nextOf_head]
    exact h.first hxs

theorem Keeps.getLast : s.getLast = required xs.getLast? := by
  unfold LinkedList.getLast
  rcases eq_nil_or_concat xs with hxs | ⟨rest, x, hxs⟩
  · rw [if_pos (h.listSize_eq_zero.mpr hxs), hxs]
    rfl
  · rw [concat_eq_append] at hxs
    rw [if_neg (by simp [h.listSize_eq_zero, hxs]), h.prevOf_tail]
    show s.valueOf (refAt ns xs.length) = _
    rw [h.last hxs, hxs, getLast?_concat]
    rfl

/-- The loop of `toArray`, by the number of elements that are left. -/
theorem Keeps.valuesFrom (k : Nat) :
    ∀ pos rounds : Nat, pos + k = xs.length → k < rounds →
      s.valuesFrom (refAt ns (pos + 1)) rounds = .ok (xs.drop pos) := by
  induction k with
  | zero =>
    intro pos rounds hk hrounds
    obtain ⟨rounds, rfl⟩ := Nat.exists_eq_add_of_lt hrounds
    rw [LinkedList.valuesFrom, drop_eq_nil_of_le (by omega)]
    have htail := h.tail_eq
    rw [← hk] at htail
    rw [if_pos htail]
  | succ k ih =>
    intro pos rounds hk hrounds
    obtain ⟨rounds, rfl⟩ := Nat.exists_eq_add_of_lt hrounds
    have hpos : pos < xs.length := by omega
    rw [LinkedList.valuesFrom, if_neg (h.ne_tail hpos), h.valueOf (getElem?_eq_getElem hpos),
      ok_bind, h.nextOf (by omega), ok_bind, ih (pos + 1) _ (by omega) (by omega),
      drop_eq_getElem_cons hpos]
    rfl

theorem Keeps.toArray : s.toArray = .ok xs := by
  rw [LinkedList.toArray, h.nextOf_head]
  exact h.valuesFrom xs.length 0 s.rounds (by omega) h.length_lt_rounds

end

variable (h : s.Keeps ns xs)

include h

section

omit [Inhabited E]

variable (value : E)

/-- The loop of `indexOf`, by the number of elements that are left. -/
theorem Keeps.indexFrom (k : Nat) :
    ∀ (pos rounds : Nat) (i : Int), pos + k = xs.length → k < rounds →
      s.indexFrom value (refAt ns (pos + 1)) i rounds =
        .ok (if value ∈ xs.drop pos then i + (xs.drop pos).idxOf value else -1) := by
  induction k with
  | zero =>
    intro pos rounds i hk hrounds
    obtain ⟨rounds, rfl⟩ := Nat.exists_eq_add_of_lt hrounds
    have htail := h.tail_eq
    rw [← hk] at htail
    rw [LinkedList.indexFrom, if_pos htail, drop_eq_nil_of_le (by omega), if_neg not_mem_nil]
  | succ k ih =>
    intro pos rounds i hk hrounds
    obtain ⟨rounds, rfl⟩ := Nat.exists_eq_add_of_lt hrounds
    have hpos : pos < xs.length := by omega
    rw [LinkedList.indexFrom, if_neg (h.ne_tail hpos), h.valueOf (getElem?_eq_getElem hpos),
      drop_eq_getElem_cons hpos]
    show (if xs[pos] = value then _ else _) = _
    by_cases heq : xs[pos] = value
    · rw [if_pos heq, if_pos (by rw [heq]; exact mem_cons_self), heq, idxOf_cons_self,
        Nat.cast_zero, Int.add_zero]
      rfl
    · rw [if_neg heq, idxOf_cons_ne _ heq, h.nextOf (by omega)]
      show s.indexFrom value (refAt ns (pos + 1 + 1)) (i + 1) _ = _
      rw [ih (pos + 1) _ (i + 1) (by omega) (by omega)]
      by_cases hmem : value ∈ xs.drop (pos + 1)
      · rw [if_pos hmem, if_pos (mem_cons_of_mem _ hmem)]
        refine congrArg _ ?_
        push_cast
        ring
      · rw [if_neg hmem, if_neg (by rw [mem_cons, not_or]; exact ⟨Ne.symm heq, hmem⟩)]

theorem Keeps.indexOf : s.indexOf value = .ok (seqIndexOf xs value) := by
  unfold LinkedList.indexOf seqIndexOf
  by_cases hxs : xs = []
  · rw [if_pos (h.listSize_eq_zero.mpr hxs), hxs, if_neg not_mem_nil]
  · rw [if_neg (mt h.listSize_eq_zero.mp hxs), h.nextOf_head]
    show s.indexFrom value (refAt ns 1) 0 s.rounds = _
    rw [h.indexFrom value xs.length 0 s.rounds 0 (by omega) h.length_lt_rounds, drop_zero,
      Int.zero_add]

theorem Keeps.contains : s.contains value = .ok (decide (value ∈ xs)) := by
  rw [LinkedList.contains, h.indexOf value]
  show Except.ok (seqIndexOf xs value != -1) = _
  by_cases hmem : value ∈ xs
  · have hne : seqIndexOf xs value ≠ -1 := by
      rw [Ne, seqIndexOf_eq_neg_one, not_not]
      exact hmem
    simp [hne, hmem]
  · rw [seqIndexOf_eq_neg_one.mpr hmem]
    simp [hmem]

/-- The loop of `lastIndexOf`, by the number of elements in front of it. -/
theorem Keeps.indexBelow (ahead : Nat) :
    ∀ (rounds : Nat) (i : Int), ahead ≤ xs.length → ahead < rounds →
      s.indexBelow value (refAt ns ahead) i rounds =
        .ok (if value ∈ xs.take ahead then i - (xs.take ahead).reverse.idxOf value else -1) := by
  induction ahead with
  | zero =>
    intro rounds i _ hrounds
    obtain ⟨rounds, rfl⟩ := Nat.exists_eq_add_of_lt hrounds
    rw [LinkedList.indexBelow, if_pos (refAt_eq_head.mpr rfl), take_zero, if_neg not_mem_nil]
  | succ ahead ih =>
    intro rounds i hahead hrounds
    obtain ⟨rounds, rfl⟩ := Nat.exists_eq_add_of_lt hrounds
    have hpos : ahead < xs.length := by omega
    have htake : xs.take (ahead + 1) = xs.take ahead ++ [xs[ahead]] :=
      (take_concat_get' xs ahead hpos).symm
    rw [LinkedList.indexBelow, if_neg (by rw [refAt_eq_head]; omega),
      h.valueOf (getElem?_eq_getElem hpos), htake, reverse_append, reverse_singleton,
      singleton_append]
    show (if xs[ahead] = value then _ else _) = _
    by_cases heq : xs[ahead] = value
    · rw [if_pos heq, if_pos (by rw [heq]; simp), heq, idxOf_cons_self, Nat.cast_zero, Int.sub_zero]
      rfl
    · rw [if_neg heq, idxOf_cons_ne _ heq, h.prevOf (by omega)]
      show s.indexBelow value (refAt ns ahead) (i - 1) _ = _
      rw [ih _ (i - 1) (by omega) (by omega)]
      have hiff : value ∈ xs.take ahead ++ [xs[ahead]] ↔ value ∈ xs.take ahead := by
        rw [mem_append, mem_singleton, or_iff_left (Ne.symm heq)]
      by_cases hmem : value ∈ xs.take ahead
      · rw [if_pos hmem, if_pos (hiff.mpr hmem)]
        refine congrArg _ ?_
        push_cast
        ring
      · rw [if_neg hmem, if_neg (fun hin => hmem (hiff.mp hin))]

theorem Keeps.lastIndexOf : s.lastIndexOf value = .ok (seqLastIndexOf xs value) := by
  unfold LinkedList.lastIndexOf seqLastIndexOf
  by_cases hxs : xs = []
  · rw [if_pos (h.listSize_eq_zero.mpr hxs), hxs, if_neg not_mem_nil]
  · rw [if_neg (mt h.listSize_eq_zero.mp hxs), h.prevOf_tail]
    show s.indexBelow value (refAt ns xs.length) (s.listSize - 1) s.rounds = _
    rw [h.indexBelow value xs.length s.rounds _ (le_refl _) h.length_lt_rounds, take_length, h.size]

/-! ## Changes -/

variable (index : Int)

theorem Keeps.setAt (element : E) :
    Matches s ns xs (edits .element (s.setAt index element)) (seqApply xs (.set index element)) := by
  rw [LinkedList.setAt, seqApply]
  rcases seqGet_cases xs index with ⟨hget, hout⟩ | ⟨e, hget, he, hin⟩
  · rw [hget, h.location_out hout]
    rfl
  · rw [hget, h.location hin, ok_bind, h.valueOf he]
    have hlt : index.toNat < xs.length := by omega
    refine ⟨rfl, ns, ⟨h.toHolds.replace hlt element, ?_, ?_, h.count⟩, h.later_refl,
      fun _ => ⟨rfl, length_set⟩⟩
    · rw [length_set]
      exact h.size
    · rw [length_set]
      exact h.small

theorem Keeps.addAt (value : E)
    (hroom : 0 ≤ index ∧ index ≤ xs.length → xs.length + 1 < 2 ^ 31) :
    Matches s ns xs (turns .done (s.addAt index value)) (seqApply xs (.addAt index value)) := by
  rw [LinkedList.addAt, seqApply]
  by_cases hin : 0 ≤ index ∧ index ≤ xs.length
  · obtain ⟨n, rfl⟩ := Int.eq_ofNat_of_zero_le hin.1
    obtain ⟨s', ns', hadd, hkeeps, hlater⟩ := h.addAtLocation value n (by omega) (hroom hin)
    rw [if_neg (by rw [h.size]; omega), if_pos hin, hadd]
    exact ⟨rfl, ns', hkeeps.passes hlater Nat.one_pos⟩
  · rw [if_pos (by rw [h.size]; omega), if_neg hin]
    rfl

omit [DecidableEq E] in
theorem Keeps.addAllAt (values : List E)
    (hroom : 0 ≤ index ∧ index ≤ xs.length → xs.length + values.length < 2 ^ 31) :
    Matches s ns xs (edits .flag (s.addAllAtLocation index values)) (seqAddAll xs index values) := by
  unfold seqAddAll
  by_cases hin : 0 ≤ index ∧ index ≤ xs.length
  · specialize hroom hin
    obtain ⟨n, rfl⟩ := Int.eq_ofNat_of_zero_le hin.1
    rw [if_pos hin]
    by_cases hvalues : values = []
    · rw [hvalues, h.addAllAtLocation_nil n (by omega), append_nil, take_append_drop]
      exact ⟨rfl, ns, h.passes_refl⟩
    · obtain ⟨s', ns', hadd, hkeeps, hlater⟩ :=
        h.addAllAtLocation n (by omega) hvalues hroom
      rw [hadd, if_neg hvalues]
      exact ⟨by simp [hvalues], ns', hkeeps.passes hlater Nat.one_pos⟩
  · rw [h.addAllAtLocation_out (by omega), if_neg hin]
    rfl

theorem Keeps.copy (values : List E) (hroom : values.length < 2 ^ 31) :
    Matches s ns xs (turns .done (s.copy values)) (seqApply xs (.copy values)) := by
  rw [LinkedList.copy, seqApply]
  obtain ⟨s', hclear, hkeeps, hlater⟩ := h.clear
  rw [hclear]
  show Matches s ns xs (turns .done (s'.addAllAtLocation 0 values >>= fun r => _)) _
  by_cases hvalues : values = []
  · rw [hvalues]
    have hadd := hkeeps.addAllAtLocation_nil 0 (Nat.le_refl _)
    rw [Nat.cast_zero] at hadd
    rw [hadd]
    exact ⟨rfl, [], hkeeps.passes hlater Nat.one_pos⟩
  · obtain ⟨s'', ns', hadd, hkeeps', hlater'⟩ :=
      hkeeps.addAllAtLocation 0 (Nat.le_refl _) hvalues (by simpa using hroom)
    rw [Nat.cast_zero] at hadd
    rw [hadd, if_neg hvalues]
    rw [take_nil, drop_nil, append_nil] at hkeeps'
    exact ⟨rfl, ns', hkeeps'.passes (hlater.trans hlater') (by decide)⟩

theorem Keeps.removeFirstOccurrence (value : E) :
    Matches s ns xs (edits .flag (s.removeFirstOccurrence value)) (seqApply xs (.remove value)) := by
  rw [LinkedList.removeFirstOccurrence, seqApply]
  obtain ⟨iter, hiter, hat, hconst⟩ := h.iteratorAtFront false
  rw [hiter, ok_bind]
  rcases h.removeNext value s.rounds _ 0 hat hconst h.length_lt_rounds with
    ⟨hmem, hrem⟩ | ⟨hmem, s', ns', hrem, hkeeps, hlater⟩
  · rw [drop_zero] at hmem
    rw [hrem, if_neg hmem, erase_of_not_mem hmem]
    exact ⟨by simp [hmem], ns, h.passes_refl⟩
  · rw [drop_zero] at hmem hkeeps
    rw [hrem, if_pos hmem]
    exact ⟨by simp [hmem], ns', hkeeps.passes hlater Nat.one_pos⟩

theorem Keeps.removeLastOccurrence (value : E) :
    Matches s ns xs (edits .flag (s.removeLastOccurrence value))
      (seqApply xs (.removeLastOccurrence value)) := by
  rw [LinkedList.removeLastOccurrence, seqApply]
  rcases h.removeNextBelow value xs.length _ s.rounds (h.descendingIterator false) rfl
    h.length_lt_rounds with ⟨hmem, hrem⟩ | ⟨hmem, s', ns', hrem, hkeeps, hlater⟩
  · rw [take_length] at hmem
    rw [hrem, if_neg hmem, erase_of_not_mem (by simpa using hmem), reverse_reverse]
    exact ⟨by simp [hmem], ns, h.passes_refl⟩
  · rw [take_length] at hmem hkeeps
    rw [drop_length, append_nil] at hkeeps
    rw [hrem, if_pos hmem]
    exact ⟨by simp [hmem], ns', hkeeps.passes hlater Nat.one_pos⟩

theorem Keeps.removeAt :
    Matches s ns xs (edits .element (s.removeAt index)) (seqApply xs (.removeAt index)) := by
  rw [LinkedList.removeAt, seqApply]
  rcases seqGet_cases xs index with ⟨hget, hout⟩ | ⟨e, hget, he, hin⟩
  · rw [hget]
    by_cases hend : index = xs.length
    · obtain ⟨hiter, hat⟩ := h.listIterator xs.length (le_refl _) false
      rw [hend, hiter]
      simp only [bind, Except.bind, hat.next_end h rfl]
      rfl
    · rw [h.listIterator_out (by omega)]
      rfl
  · obtain ⟨n, rfl⟩ := Int.eq_ofNat_of_zero_le hin.1
    obtain ⟨hiter, hat⟩ := h.listIterator n (by omega) false
    obtain ⟨iter', hnext, hat', hlast, -, hconst⟩ := hat.next h he
    obtain ⟨s', iter'', hrem, hkeeps, hlater, -⟩ :=
      hat'.remove h hconst (by omega) hlast (.inl rfl)
    rw [hget, hiter]
    simp only [bind, Except.bind, hnext, hrem]
    exact ⟨rfl, _, hkeeps.passes hlater Nat.one_pos⟩

omit [DecidableEq E] in
theorem Keeps.removeWhere (drops : E → Bool) :
    Matches s ns xs (edits .flag (s.listIterator 0 false >>= fun iter =>
      s.removeWhere drops iter false s.rounds)) (.ok (seqRemoveWhere xs drops)) := by
  obtain ⟨iter, hiter, hat, hconst⟩ := h.iteratorAtFront false
  obtain ⟨s', ns', hrem, hkeeps, hlater, hsame⟩ := removeWhere_spec drops s.rounds _ 0 false h hat
    hconst h.length_lt_rounds
  rw [hiter, ok_bind, hrem]
  -- without a removal the nodes are those that were there
  by_cases hzero : xs.countP drops = 0
  · have hall : xs.filter (fun e => !drops e) = xs := by
      rw [filter_eq_self]
      intro e he
      have hnot := countP_eq_zero.mp hzero e he
      simpa using hnot
    refine ⟨by rw [Bool.false_or, drop_zero], ns, ?_⟩
    rw [hsame hzero, hall, hzero]
    exact h.passes_refl
  · exact ⟨by rw [Bool.false_or, drop_zero], ns', hkeeps.passes hlater (Nat.pos_of_ne_zero hzero)⟩

theorem Keeps.removeFirst :
    Matches s ns xs (edits .element s.removeAtFront) (seqApply xs .removeFirst) := by
  rcases hxs : xs with _ | ⟨x, rest⟩
  · rw [h.removeAtFront_nil hxs]
    rfl
  · obtain ⟨s', ns', hrem, hkeeps, hlater⟩ := h.removeAtFront_cons hxs
    rw [hrem]
    exact ⟨rfl, ns', hkeeps.passes hlater Nat.one_pos⟩

theorem Keeps.removeLast :
    Matches s ns xs (edits .element s.removeAtEnd) (seqApply xs .removeLast) := by
  rw [seqApply]
  rcases eq_nil_or_concat xs with hxs | ⟨rest, x, hxs⟩
  · rw [h.removeAtEnd_nil hxs, hxs]
    rfl
  · rw [concat_eq_append] at hxs
    obtain ⟨s', ns', hrem, hkeeps, hlater⟩ := h.removeAtEnd_concat hxs
    rw [hrem, hxs, getLast?_concat, dropLast_concat]
    exact ⟨rfl, ns', hkeeps.passes hlater Nat.one_pos⟩

theorem Keeps.pollFirst : Matches s ns xs (edits .maybe s.pollFirst) (seqApply xs .pollFirst) := by
  rw [LinkedList.pollFirst, seqApply]
  rcases hxs : xs with _ | ⟨x, rest⟩
  · rw [if_pos (h.listSize_eq_zero.mpr hxs), if_pos rfl]
    rw [← hxs, show xs.tail = xs by rw [hxs]; rfl]
    exact ⟨by rw [hxs]; rfl, ns, h.passes_refl⟩
  · obtain ⟨s', ns', hrem, hkeeps, hlater⟩ := h.removeAtFront_cons hxs
    rw [if_neg (by simp [h.listSize_eq_zero, hxs]), h.nextOf_head,
      ok_bind, h.first hxs, hrem]
    exact ⟨rfl, ns', hkeeps.passes hlater Nat.one_pos⟩

theorem Keeps.pollLast : Matches s ns xs (edits .maybe s.pollLast) (seqApply xs .pollLast) := by
  rw [LinkedList.pollLast, seqApply]
  rcases eq_nil_or_concat xs with hxs | ⟨rest, x, hxs⟩
  · rw [if_pos (h.listSize_eq_zero.mpr hxs)]
    exact ⟨by rw [hxs]; rfl, ns, by simpa [hxs] using h.passes_refl⟩
  · rw [concat_eq_append] at hxs
    have hne : xs ≠ [] := by rw [hxs]; simp
    obtain ⟨s', ns', hrem, hkeeps, hlater⟩ := h.removeAtEnd_concat hxs
    rw [if_neg (mt h.listSize_eq_zero.mp hne), h.prevOf_tail, if_neg hne, ok_bind,
      h.last hxs, hrem, hxs, getLast?_concat, dropLast_concat]
    exact ⟨rfl, ns', hkeeps.passes hlater Nat.one_pos⟩

end

omit [DecidableEq E] in
/-- A list added to itself is copied to an array first. -/
theorem Keeps.addAllSelf (index : Int)
    (hroom : 0 ≤ index ∧ index ≤ xs.length → xs.length + xs.length < 2 ^ 31) :
    Matches s ns xs (edits .flag (s.addAllSelf index)) (seqAddAll xs index xs) := by
  have hadd := h.addAllAt index xs hroom
  unfold LinkedList.addAllSelf
  by_cases hin : 0 ≤ index ∧ index ≤ xs.length
  · rw [if_neg (by rw [h.size]; omega)]
    by_cases hxs : xs = []
    · rw [if_pos (h.listSize_eq_zero.mpr hxs)]
      rw [seqAddAll, if_pos hin]
      exact ⟨by rw [hxs]; rfl, ns, by simpa [hxs] using h.passes_refl⟩
    · obtain ⟨iter, hiter, hat, -⟩ := h.iteratorAtFront true
      have hforward := h.forward s.rounds _ 0 hat h.length_lt_rounds
      have hcopy : ∃ copy, ofCollection xs = .ok copy := by
        rw [ofCollection, newArray, if_pos (by omega)]
        exact ⟨_, rfl⟩
      obtain ⟨copy, hcopy⟩ := hcopy
      rw [if_neg (mt h.listSize_eq_zero.mp hxs), hiter, ok_bind, hforward, ok_bind, drop_zero,
        hcopy, ok_bind, (represents_ofCollection hcopy).iterate]
      exact hadd
  · rw [if_pos (by rw [h.size]; omega)]
    rw [seqAddAll, if_neg hin]
    rfl

/-- Every call on a list gives what the call on its sequence gives, when the sequence does
not become longer than an `int` can tell. -/
theorem Keeps.apply (op : ListOp E) (hother : op.copiesSelf = false)
    (hroom : ∀ xs' k r, seqApply xs op = .ok (xs', k, r) → xs'.length < 2 ^ 31) :
    Matches s ns xs (s.apply op) (seqApply xs op) := by
  have hroomAll : ∀ index values, seqApply xs op = seqAddAll xs index values →
      0 ≤ index ∧ index ≤ xs.length → xs.length + values.length < 2 ^ 31 := by
    intro index values hop hin
    have hlen := hroom _ _ _ (hop.trans (if_pos hin))
    simp only [length_append, length_take, length_drop] at hlen
    omega
  cases op with
  | get index =>
    rw [LinkedList.apply, seqApply, h.getAt index]
    rcases seqGet_cases xs index with ⟨hget, -⟩ | ⟨e, hget, -⟩
    · rw [hget]
      rfl
    · rw [hget]
      exact h.asks _ rfl
  | set index element => exact h.setAt index element
  | add value | addLast value =>
    obtain ⟨s', ns', hadd, hkeeps, hlater⟩ := h.addToEnd value (by simpa using hroom _ _ _ rfl)
    rw [LinkedList.apply, hadd]
    exact ⟨rfl, ns', hkeeps.passes hlater Nat.one_pos⟩
  | addAt index value =>
    refine h.addAt index value fun hin => ?_
    have hlen := hroom _ _ _ (if_pos hin)
    simp only [length_append, length_cons, length_take, length_drop] at hlen
    omega
  | addAll collection =>
    rw [LinkedList.apply, h.size]
    exact h.addAllAt _ _ (hroomAll _ _ rfl)
  | addAllAt index collection => exact h.addAllAt _ _ (hroomAll _ _ rfl)
  | addAllSelf index => exact h.addAllSelf index (hroomAll _ _ rfl)
  | copy collection => exact h.copy collection (hroom _ _ _ rfl)
  | copySelf => cases hother
  | remove value => exact h.removeFirstOccurrence value
  | removeAt index => exact h.removeAt index
  | removeAll collection | retainAll collection => exact h.removeWhere _
  | clear =>
    obtain ⟨s', hclear, hkeeps, hlater⟩ := h.clear
    rw [LinkedList.apply, hclear]
    exact ⟨rfl, [], hkeeps.passes hlater Nat.one_pos⟩
  | contains value => exact h.asks _ (h.contains value)
  | indexOf value => exact h.asks _ (h.indexOf value)
  | lastIndexOf value => exact h.asks _ (h.lastIndexOf value)
  | toArray => exact h.asks _ h.toArray
  | size => exact h.asks _ (congrArg _ h.size)
  | isEmpty =>
    refine h.asks _ (congrArg _ ?_)
    rw [Bool.eq_iff_iff, beq_iff_eq, h.listSize_eq_zero, List.isEmpty_iff]
  | addFirst value =>
    obtain ⟨s', ns', hadd, hkeeps, hlater⟩ := h.addToFront value (by simpa using hroom _ _ _ rfl)
    rw [LinkedList.apply, hadd]
    exact ⟨rfl, ns', hkeeps.passes hlater Nat.one_pos⟩
  | getFirst =>
    rw [LinkedList.apply, seqApply, h.getFirst]
    cases xs.head? with
    | none => rfl
    | some e => exact h.asks _ rfl
  | getLast =>
    rw [LinkedList.apply, seqApply, h.getLast]
    cases xs.getLast? with
    | none => rfl
    | some e => exact h.asks _ rfl
  | peekFirst => exact h.asks _ h.peekFirst
  | peekLast => exact h.asks _ h.peekLast
  | pollFirst => exact h.pollFirst
  | pollLast => exact h.pollLast
  | removeFirst => exact h.removeFirst
  | removeLast => exact h.removeLast
  | removeLastOccurrence value => exact h.removeLastOccurrence value

end LinkedList

end ActivemqCpp.Decaf
