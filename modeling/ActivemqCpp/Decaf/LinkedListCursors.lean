import ActivemqCpp.Decaf.LinkedListLaws

/-!
# The iterators of a `LinkedList` as cursors

`At s ns xs iter pos`: the iterator agrees with the list and stands in front of element
`pos`. `Below s ns xs iter ahead` is the same for a descending iterator that has `ahead`
elements in front of it. Each method of an iterator is described by what it does to the
sequence and to the cursor; the loops over iterators follow by induction on the elements
that are left.
-/

namespace ActivemqCpp.Decaf

open Base List LinkedList

namespace LinkedList

variable {E : Type} {s : LinkedList E} {xs : List E}

/-! ## Places after a change -/

variable (ns : List Nat) {i : Nat}

theorem refAt_eraseIdx_le {j : Nat} (hj : j ≤ i) : refAt (ns.eraseIdx i) j = refAt ns j := by
  cases j with
  | zero => rfl
  | succ j => simp [refAt, getElem?_eraseIdx_of_lt (show j < i by omega)]

theorem refAt_eraseIdx_gt {j : Nat} (hj : i < j) : refAt (ns.eraseIdx i) j = refAt ns (j + 1) := by
  obtain ⟨j, rfl⟩ := Nat.exists_eq_add_of_lt hj
  simp [refAt, getElem?_eraseIdx_of_ge (Nat.le_add_right i j)]

theorem refAt_insert {n : Nat} (hi : i ≤ ns.length) :
    refAt (ns.take i ++ n :: ns.drop i) (i + 1) = .node n := by
  refine refAt_succ ?_
  have hlen : (ns.take i).length = i := length_take_of_le hi
  rw [getElem?_append_right (by omega), hlen]
  simp

theorem refAt_bne_head (i : Nat) : (refAt ns i != .head) = decide (0 < i) := by
  rw [Bool.eq_iff_iff, bne_iff_ne, Ne, refAt_eq_head, decide_eq_true_iff, Nat.pos_iff_ne_zero]

variable {ns : List Nat}

/-! ## The list iterator -/

structure At (s : LinkedList E) (ns : List Nat) (xs : List E) (iter : LinkedListIterator)
    (pos : Nat) : Prop where
  agrees : s.stale iter.expectedModCount iter.isConst = false
  current : iter.current = refAt ns pos
  inside : pos ≤ xs.length
  index : iter.index = (pos : Int) - 1

section Iterator

variable {iter : LinkedListIterator} {pos : Nat}

theorem stale_eq_false {expected : Int} {isConst : Bool} :
    s.stale expected isConst = false ↔ (isConst = false → expected = s.modCount) := by
  cases isConst <;> simp [stale]

variable (hat : At s ns xs iter pos)

theorem At.previous_start (hat : At s ns xs iter 0) :
    s.previous iter = .error (.thrown .illegalState) := by
  rw [previous, hat.agrees, hat.current]
  rfl

include hat

theorem At.expected (hconst : iter.isConst = false) : iter.expectedModCount = s.modCount :=
  stale_eq_false.mp hat.agrees hconst

variable (h : s.Keeps ns xs)

theorem At.hasPrevious : hasPrevious iter = decide (0 < pos) := by
  rw [LinkedList.hasPrevious, hat.current, refAt_bne_head]

include h

omit hat in
theorem Keeps.listIterator (index : Nat) (hindex : index ≤ xs.length) (isConst : Bool) :
    s.listIterator index isConst =
        .ok ⟨refAt ns index, .null, (index : Int) - 1, s.modCount, isConst⟩ ∧
      At s ns xs ⟨refAt ns index, .null, (index : Int) - 1, s.modCount, isConst⟩ index := by
  refine ⟨?_, stale_eq_false.mpr fun _ => rfl, rfl, hindex, rfl⟩
  rw [LinkedList.listIterator, if_neg (by rw [h.size]; omega), h.walkTo index hindex]
  rfl

omit hat in
theorem Keeps.iteratorAtFront (isConst : Bool) : ∃ iter, s.listIterator 0 isConst = .ok iter ∧
    At s ns xs iter 0 ∧ iter.isConst = isConst :=
  ⟨_, (h.listIterator 0 (Nat.zero_le _) isConst).1, (h.listIterator 0 (Nat.zero_le _) isConst).2, rfl⟩

omit hat in
theorem Keeps.listIterator_out {index : Int}
    (hindex : index < 0 ∨ (xs.length : Int) < index) (isConst : Bool) :
    s.listIterator index isConst = .error (.thrown .indexOutOfBounds) := by
  rw [LinkedList.listIterator, if_pos (by rw [h.size]; exact hindex)]

theorem At.hasNext : s.hasNext iter = .ok (decide (pos < xs.length)) := by
  rw [LinkedList.hasNext, hat.current, h.nextOf hat.inside]
  show Except.ok (refAt ns (pos + 1) != .tail) = _
  by_cases hpos : pos < xs.length
  · simp [h.ne_tail hpos, hpos]
  · rw [Nat.le_antisymm hat.inside (Nat.le_of_not_lt hpos), h.tail_eq]
    simp

theorem At.next_end (hpos : pos = xs.length) : s.next iter = .error (.thrown .noSuchElement) := by
  rw [next, hat.agrees, hat.current, h.nextOf hat.inside, hpos, h.tail_eq]
  rfl

theorem At.next {x : E} (hx : xs[pos]? = some x) :
    ∃ iter', s.next iter = .ok (iter', x) ∧ At s ns xs iter' (pos + 1) ∧
      iter'.lastReturned = refAt ns (pos + 1) ∧
      iter'.expectedModCount = iter.expectedModCount ∧ iter'.isConst = iter.isConst := by
  have hpos : pos < xs.length := (List.getElem?_eq_some_iff.mp hx).1
  refine ⟨{ iter with
    current := refAt ns (pos + 1), lastReturned := refAt ns (pos + 1), index := iter.index + 1 },
    ?_, ⟨hat.agrees, rfl, hpos, ?_⟩, rfl, rfl, rfl⟩
  · rw [LinkedList.next, hat.agrees, hat.current, h.nextOf hat.inside]
    show (if refAt ns (pos + 1) = .tail then _ else _) = _
    rw [if_neg (h.ne_tail hpos), h.valueOf hx]
    rfl
  · show iter.index + 1 = _
    rw [hat.index]
    push_cast
    ring

/-- A round of a loop over an iterator: it is at the end, or it goes over an element. -/
theorem At.round : (pos = xs.length ∧ s.hasNext iter = .ok false) ∨
    ∃ hpos : pos < xs.length, s.hasNext iter = .ok true ∧
      ∃ iter', s.next iter = .ok (iter', xs[pos]) ∧ At s ns xs iter' (pos + 1) ∧
        iter'.lastReturned = refAt ns (pos + 1) ∧ iter'.isConst = iter.isConst := by
  have hmore := hat.hasNext h
  rcases Nat.eq_or_lt_of_le hat.inside with hend | hpos
  · rw [hend, decide_eq_false (Nat.lt_irrefl _)] at hmore
    exact .inl ⟨hend, hmore⟩
  · rw [decide_eq_true hpos] at hmore
    obtain ⟨iter', hnext, hat', hlast, -, hconst⟩ := hat.next h (getElem?_eq_getElem hpos)
    exact .inr ⟨hpos, hmore, iter', hnext, hat', hlast, hconst⟩

omit hat in
theorem At.previous (hat : At s ns xs iter (pos + 1)) {x : E} (hx : xs[pos]? = some x) :
    ∃ iter', s.previous iter = .ok (iter', x) ∧ At s ns xs iter' pos ∧
      iter'.lastReturned = refAt ns (pos + 1) ∧
      iter'.expectedModCount = iter.expectedModCount ∧ iter'.isConst = iter.isConst := by
  have hinside := hat.inside
  refine ⟨{ iter with
    current := refAt ns pos, lastReturned := iter.current, index := iter.index - 1 },
    ?_, ⟨hat.agrees, rfl, by omega, ?_⟩, hat.current, rfl, rfl⟩
  · rw [LinkedList.previous, hat.agrees, hat.current]
    show (if refAt ns (pos + 1) = .head then _ else _) = _
    rw [if_neg (by simp [refAt_eq_head]), h.prevOf (by omega), h.valueOf hx]
    rfl
  · show iter.index - 1 = _
    rw [hat.index]
    push_cast
    ring

variable (hconst : iter.isConst = false)
include hconst

/-- `remove` takes out element `i`, the last one returned, which is next to the cursor. -/
theorem At.remove (hi : i < xs.length) (hlast : iter.lastReturned = refAt ns (i + 1))
    (hpos : pos = i + 1 ∨ pos = i) :
    ∃ s' iter', s.remove iter = .ok (s', iter') ∧ s'.Keeps (ns.eraseIdx i) (xs.eraseIdx i) ∧
      Later s s' 1 ∧ At s' (ns.eraseIdx i) (xs.eraseIdx i) iter' i ∧
      iter'.lastReturned = .null ∧ iter'.isConst = false := by
  obtain ⟨s', hrem, hkeeps, hlater⟩ := h.removed hi
  have hnull : iter.lastReturned ≠ .null := by
    rw [hlast]
    exact refAt_ne_null _ _
  refine ⟨_, { iter with
    current := refAt ns i
    lastReturned := .null
    index := if iter.current = iter.lastReturned then iter.index - 1 else iter.index
    expectedModCount := wrap 32 (iter.expectedModCount + 1) },
    ?_, hkeeps, hlater, ⟨?_, ?_, ?_, ?_⟩, rfl, hconst⟩
  · rw [LinkedList.remove, hat.agrees, if_neg (by simp [hconst]), if_neg hnull, hlast,
      h.nextOf hi, ok_bind, h.prevOf hi.le, ok_bind, hrem]
    rfl
  · refine stale_eq_false.mpr fun _ => ?_
    rw [hlater, hat.expected hconst]
    rfl
  · exact (refAt_eraseIdx_le ns (le_refl i)).symm
  · rw [length_eraseIdx_of_lt hi]
    omega
  · show (if iter.current = iter.lastReturned then iter.index - 1 else iter.index) = _
    rw [hat.current, hlast, hat.index]
    rcases hpos with rfl | rfl
    · rw [if_pos rfl]
      push_cast
      ring
    · rw [if_neg]
      rw [refAt_inj h.nodup (by rw [h.length]; omega) (by rw [h.length]; omega)]
      omega

theorem At.add (e : E) (hroom : xs.length + 1 < 2 ^ 31) :
    ∃ s' ns' iter', s.add iter e = .ok (s', iter') ∧
      s'.Keeps ns' (xs.take pos ++ e :: xs.drop pos) ∧ Later s s' 1 ∧
      At s' ns' (xs.take pos ++ e :: xs.drop pos) iter' (pos + 1) ∧
      iter'.lastReturned = .null ∧ iter'.isConst = false := by
  have hinside := hat.inside
  obtain ⟨s', hins, hkeeps, hlater⟩ := h.inserted e hinside hroom
  refine ⟨_, _, { iter with
    current := .node s.fresh
    lastReturned := .null
    index := iter.index + 1
    expectedModCount := wrap 32 (iter.expectedModCount + 1) },
    ?_, hkeeps, hlater, ⟨?_, ?_, ?_, ?_⟩, rfl, hconst⟩
  · rw [LinkedList.add, hat.agrees, if_neg (by simp [hconst]), hat.current,
      h.nextOf hinside, ok_bind, hins]
    rfl
  · refine stale_eq_false.mpr fun _ => ?_
    rw [hlater, hat.expected hconst]
    rfl
  · exact (refAt_insert ns (by rw [h.length]; exact hinside)).symm
  · rw [length_append, length_cons, length_take_of_le hinside]
    omega
  · show iter.index + 1 = _
    rw [hat.index]
    push_cast
    ring

theorem At.set (hi : i < xs.length) (hlast : iter.lastReturned = refAt ns (i + 1)) (e : E) :
    ∃ s', s.set iter e = .ok s' ∧ s'.Keeps ns (xs.set i e) ∧ Later s s' 0 := by
  have hnull : iter.lastReturned ≠ .null := by
    rw [hlast]
    exact refAt_ne_null _ _
  have hlive : s.live iter.lastReturned = true := by
    rw [hlast]
    exact h.liveAt (by omega)
  refine ⟨_, ?_, ⟨h.toHolds.replace hi e, ?_, ?_, h.count⟩, h.later_refl⟩
  · rw [LinkedList.set, hat.agrees, if_neg (by simp [hconst]), if_neg Bool.false_ne_true,
      if_neg hnull, if_pos hlive, hlast]
  · rw [length_set]
    exact h.size
  · rw [length_set]
    exact h.small

end Iterator

/-! ## The descending iterator -/

structure Below (s : LinkedList E) (ns : List Nat) (xs : List E) (iter : ReverseIterator)
    (ahead : Nat) : Prop where
  agrees : s.stale iter.expectedModCount iter.isConst = false
  current : iter.current = refAt ns (ahead + 1)
  inside : ahead ≤ xs.length

section Descending

variable {iter : ReverseIterator} {ahead : Nat}

theorem Keeps.descendingIterator (h : s.Keeps ns xs) (isConst : Bool) :
    Below s ns xs (s.descendingIterator isConst) xs.length :=
  ⟨stale_eq_false.mpr fun _ => rfl, h.tail_eq.symm, le_refl _⟩

theorem Below.next_end (hat : Below s ns xs iter 0) (h : s.Keeps ns xs) :
    s.reverseNext iter = .error (.thrown .noSuchElement) := by
  rw [reverseNext, hat.agrees, hat.current, h.prevOf hat.inside]
  rfl

theorem Below.next (hat : Below s ns xs iter (ahead + 1)) (h : s.Keeps ns xs) {x : E}
    (hx : xs[ahead]? = some x) :
    ∃ iter', s.reverseNext iter = .ok (iter', x) ∧ Below s ns xs iter' ahead ∧
      iter'.canRemove = true ∧ iter'.expectedModCount = iter.expectedModCount ∧
      iter'.isConst = iter.isConst := by
  have hinside := hat.inside
  refine ⟨{ iter with current := refAt ns (ahead + 1), canRemove := true }, ?_,
    ⟨hat.agrees, rfl, by omega⟩, rfl, rfl, rfl⟩
  rw [reverseNext, hat.agrees, hat.current, h.prevOf hinside]
  show (if refAt ns (ahead + 1) = .head then _ else _) = _
  rw [if_neg (by simp [refAt_eq_head]), h.valueOf hx]
  rfl

variable (hat : Below s ns xs iter ahead)
include hat

theorem Below.expected (hconst : iter.isConst = false) : iter.expectedModCount = s.modCount :=
  stale_eq_false.mp hat.agrees hconst

theorem Below.hasNext (h : s.Keeps ns xs) : s.reverseHasNext iter = .ok (decide (0 < ahead)) := by
  rw [reverseHasNext, hat.current, h.prevOf hat.inside, ok_bind, refAt_bne_head]
  rfl

theorem Below.remove (h : s.Keeps ns xs)
    (hconst : iter.isConst = false) (hcan : iter.canRemove = true) (hahead : ahead < xs.length) :
    ∃ s' iter', s.reverseRemove iter = .ok (s', iter') ∧
      s'.Keeps (ns.eraseIdx ahead) (xs.eraseIdx ahead) ∧ Later s s' 1 ∧
      Below s' (ns.eraseIdx ahead) (xs.eraseIdx ahead) iter' ahead ∧
      iter'.canRemove = false ∧ iter'.isConst = false := by
  obtain ⟨s', hrem, hkeeps, hlater⟩ := h.removed hahead
  refine ⟨_, { iter with
    current := refAt ns (ahead + 2)
    expectedModCount := wrap 32 (iter.expectedModCount + 1)
    canRemove := false }, ?_, hkeeps, hlater, ⟨?_, ?_, ?_⟩, rfl, hconst⟩
  · unfold reverseRemove
    rw [hat.agrees, if_neg (by simp [hconst]), if_neg Bool.false_ne_true, if_neg (by simp [hcan]),
      hat.current, h.prevOf hahead.le, ok_bind, h.nextOf hahead, ok_bind, hrem]
    rfl
  · refine stale_eq_false.mpr fun _ => ?_
    rw [hlater, hat.expected hconst]
    rfl
  · exact (refAt_eraseIdx_gt ns (Nat.lt_succ_self ahead)).symm
  · rw [length_eraseIdx_of_lt hahead]
    omega

end Descending

/-! ## Loops -/

section Loops

/-- The elements behind the cursor that are to be dropped go, and each counts as one
modification. -/
theorem removeWhere_spec (drops : E → Bool) (rounds : Nat) :
    ∀ {s : LinkedList E} {ns : List Nat} {xs : List E} (iter : LinkedListIterator)
      (pos : Nat) (result : Bool), s.Keeps ns xs → At s ns xs iter pos →
      iter.isConst = false → xs.length - pos < rounds →
      ∃ s' ns', s.removeWhere drops iter result rounds =
          .ok (s', result || (xs.drop pos).any drops) ∧
        s'.Keeps ns' (xs.take pos ++ (xs.drop pos).filter fun e => !drops e) ∧
        Later s s' ((xs.drop pos).countP drops) ∧ ((xs.drop pos).countP drops = 0 → s' = s) := by
  induction rounds with
  | zero => exact fun _ _ _ _ _ _ hrounds => absurd hrounds (Nat.not_lt_zero _)
  | succ rounds ih =>
    intro s ns xs iter pos result h hat hconst hrounds
    rcases hat.round h with ⟨hend, hmore⟩ | ⟨hpos, hmore, iter', hnext, hat', hlast, hconst'⟩
    · refine ⟨s, ns, ?_, ?_, ?_, fun _ => rfl⟩
      · rw [removeWhere, hmore, hend]
        simp [bind, Except.bind, pure, Except.pure]
      · simpa [hend] using h
      · simpa [hend] using h.later_refl
    rw [hconst] at hconst'
    have hround : s.removeWhere drops iter result (rounds + 1) =
        if drops xs[pos] then s.remove iter' >>= fun r => r.1.removeWhere drops r.2 true rounds
        else s.removeWhere drops iter' result rounds := by
      rw [removeWhere, hmore, hnext]
      rfl
    rw [hround, drop_eq_getElem_cons hpos]
    by_cases hdrops : drops xs[pos] = true
    · obtain ⟨s', iter'', hremove, hkeeps, hlater, hat'', -, hconst''⟩ :=
        hat'.remove h hconst' hpos hlast (.inl rfl)
      have hlength : (xs.eraseIdx pos).length = xs.length - 1 := length_eraseIdx_of_lt hpos
      obtain ⟨s'', ns'', hwhere, hkeeps'', hlater'', -⟩ := ih iter'' pos true
        hkeeps hat'' hconst'' (by omega)
      have hdrop : (xs.eraseIdx pos).drop pos = xs.drop (pos + 1) := by
        rw [eraseIdx_eq_take_drop_succ, drop_append_of_le_length
          (by rw [length_take_of_le hpos.le])]
        simp
      have htake : (xs.eraseIdx pos).take pos = xs.take pos := by
        rw [eraseIdx_eq_take_drop_succ, take_append_of_le_length
          (by rw [length_take_of_le hpos.le]), take_take, Nat.min_self]
      rw [hdrop] at hwhere hkeeps'' hlater''
      rw [htake] at hkeeps''
      refine ⟨s'', ns'', ?_, ?_, ?_, ?_⟩
      · rw [if_pos hdrops, hremove]
        show s'.removeWhere drops iter'' true rounds = _
        rw [hwhere, any_cons, hdrops, Bool.true_or, Bool.or_true]
      · rw [filter_cons_of_neg (by simp [hdrops])]
        exact hkeeps''
      · have hboth := hlater.trans hlater''
        rw [countP_cons_of_pos hdrops, Nat.add_comm]
        exact hboth
      · rw [countP_cons_of_pos hdrops]
        intro hzero
        omega
    · obtain ⟨s', ns', hwhere, hkeeps', hlater', hsame⟩ := ih iter' (pos + 1) result
        h hat' hconst' (by omega)
      have hfalse : drops xs[pos] = false := by simpa using hdrops
      refine ⟨s', ns', ?_, ?_, ?_, ?_⟩
      · rw [if_neg hdrops, hwhere, any_cons, hfalse, Bool.false_or]
      · rw [← take_concat_get' xs pos hpos, append_assoc] at hkeeps'
        rw [filter_cons_of_pos (by simp [hfalse])]
        exact hkeeps'
      · rw [countP_cons_of_neg hdrops]
        exact hlater'
      · rw [countP_cons_of_neg hdrops]
        exact hsame

variable (h : s.Keeps ns xs)
include h

theorem Keeps.forward (rounds : Nat) :
    ∀ (iter : LinkedListIterator) (pos : Nat), At s ns xs iter pos →
      xs.length - pos < rounds → s.forward iter rounds = .ok (xs.drop pos) := by
  induction rounds with
  | zero => exact fun _ _ _ hrounds => absurd hrounds (Nat.not_lt_zero _)
  | succ rounds ih =>
    intro iter pos hat hrounds
    rcases hat.round h with ⟨hend, hmore⟩ | ⟨hpos, hmore, iter', hnext, hat', -⟩
    · rw [LinkedList.forward, hmore, drop_eq_nil_of_le hend.ge]
      rfl
    · rw [LinkedList.forward, hmore, hnext]
      show (s.forward iter' rounds >>= _) = _
      rw [ih iter' (pos + 1) hat' (by omega), drop_eq_getElem_cons hpos]
      rfl

theorem Keeps.backward (pos : Nat) :
    ∀ (iter : LinkedListIterator) (rounds : Nat), At s ns xs iter pos → pos < rounds →
      s.backward iter rounds = .ok (xs.take pos).reverse := by
  induction pos with
  | zero =>
    intro iter rounds hat hrounds
    obtain ⟨rounds, rfl⟩ := Nat.exists_eq_add_of_lt hrounds
    rw [LinkedList.backward, hat.hasPrevious]
    rfl
  | succ pos ih =>
    intro iter rounds hat hrounds
    obtain ⟨rounds, rfl⟩ := Nat.exists_eq_add_of_lt hrounds
    have hpos : pos < xs.length := hat.inside
    obtain ⟨iter', hprevious, hat', -⟩ := hat.previous h (getElem?_eq_getElem hpos)
    rw [LinkedList.backward, hat.hasPrevious, hprevious]
    show (s.backward iter' _ >>= _) = _
    rw [ih iter' _ hat' (by omega), ← take_concat_get' xs pos hpos, reverse_append]
    rfl

theorem Keeps.descend (ahead : Nat) :
    ∀ (iter : ReverseIterator) (rounds : Nat), Below s ns xs iter ahead → ahead < rounds →
      s.descend iter rounds = .ok (xs.take ahead).reverse := by
  induction ahead with
  | zero =>
    intro iter rounds hat hrounds
    obtain ⟨rounds, rfl⟩ := Nat.exists_eq_add_of_lt hrounds
    rw [LinkedList.descend, hat.hasNext h]
    rfl
  | succ ahead ih =>
    intro iter rounds hat hrounds
    obtain ⟨rounds, rfl⟩ := Nat.exists_eq_add_of_lt hrounds
    have hahead : ahead < xs.length := hat.inside
    obtain ⟨iter', hnext, hat', -⟩ := hat.next h (getElem?_eq_getElem hahead)
    rw [LinkedList.descend, hat.hasNext h, hnext]
    show (s.descend iter' _ >>= _) = _
    rw [ih iter' _ hat' (by omega), ← take_concat_get' xs ahead hahead, reverse_append]
    rfl

variable [DecidableEq E]

/-- The first element equal to the value behind the cursor goes, if there is one. -/
theorem Keeps.removeNext (value : E) (rounds : Nat) :
    ∀ (iter : LinkedListIterator) (pos : Nat), At s ns xs iter pos → iter.isConst = false →
      xs.length - pos < rounds →
      (value ∉ xs.drop pos ∧ s.removeNext value iter rounds = .ok (s, false)) ∨
      (value ∈ xs.drop pos ∧ ∃ s' ns', s.removeNext value iter rounds = .ok (s', true) ∧
        s'.Keeps ns' (xs.take pos ++ (xs.drop pos).erase value) ∧ Later s s' 1) := by
  induction rounds with
  | zero => exact fun _ _ _ _ hrounds => absurd hrounds (Nat.not_lt_zero _)
  | succ rounds ih =>
    intro iter pos hat hconst hrounds
    rcases hat.round h with ⟨hend, hmore⟩ | ⟨hpos, hmore, iter', hnext, hat', hlast, hconst'⟩
    · refine .inl ⟨by simp [hend], ?_⟩
      rw [LinkedList.removeNext, hmore]
      rfl
    rw [hconst] at hconst'
    have hround : s.removeNext value iter (rounds + 1) =
        if xs[pos] = value then s.remove iter' >>= fun r => .ok (r.1, true)
        else s.removeNext value iter' rounds := by
      rw [LinkedList.removeNext, hmore, hnext]
      rfl
    rw [hround, drop_eq_getElem_cons hpos]
    by_cases hvalue : xs[pos] = value
    · obtain ⟨s', iter'', hremove, hkeeps, hlater, -⟩ :=
        hat'.remove h hconst' hpos hlast (.inl rfl)
      refine .inr ⟨by simp [hvalue], s', ns.eraseIdx pos, ?_, ?_, hlater⟩
      · rw [if_pos hvalue, hremove]
        rfl
      · rw [hvalue, erase_cons_head, ← eraseIdx_eq_take_drop_succ]
        exact hkeeps
    · rw [if_neg hvalue]
      rcases ih iter' (pos + 1) hat' hconst' (by omega) with
        ⟨hnot, hsame⟩ | ⟨hmem, s', ns', hrem, hkeeps, hlater⟩
      · exact .inl ⟨fun hin => (mem_cons.mp hin).elim (fun he => hvalue he.symm) hnot, hsame⟩
      · refine .inr ⟨mem_cons_of_mem _ hmem, s', ns', hrem, ?_, hlater⟩
        rw [erase_cons_tail (by simpa using hvalue)]
        rw [← take_concat_get' xs pos hpos, append_assoc] at hkeeps
        exact hkeeps

/-- The last element equal to the value that is still ahead of the descending cursor goes. -/
theorem Keeps.removeNextBelow (value : E) (ahead : Nat) :
    ∀ (iter : ReverseIterator) (rounds : Nat), Below s ns xs iter ahead → iter.isConst = false →
      ahead < rounds →
      (value ∉ xs.take ahead ∧ s.removeNextBelow value iter rounds = .ok (s, false)) ∨
      (value ∈ xs.take ahead ∧ ∃ s' ns', s.removeNextBelow value iter rounds = .ok (s', true) ∧
        s'.Keeps ns' (((xs.take ahead).reverse.erase value).reverse ++ xs.drop ahead) ∧
        Later s s' 1) := by
  induction ahead with
  | zero =>
    intro iter rounds hat hconst hrounds
    obtain ⟨rounds, rfl⟩ := Nat.exists_eq_add_of_lt hrounds
    refine .inl ⟨by simp, ?_⟩
    rw [LinkedList.removeNextBelow, hat.hasNext h]
    rfl
  | succ ahead ih =>
    intro iter rounds hat hconst hrounds
    obtain ⟨rounds, rfl⟩ := Nat.exists_eq_add_of_lt hrounds
    have hahead : ahead < xs.length := hat.inside
    obtain ⟨iter', hnext, hat', hcan, -, hconst'⟩ := hat.next h (getElem?_eq_getElem hahead)
    rw [hconst] at hconst'
    have hround : s.removeNextBelow value iter (ahead + 1 + rounds + 1) =
        if xs[ahead] = value then s.reverseRemove iter' >>= fun r => .ok (r.1, true)
        else s.removeNextBelow value iter' (ahead + 1 + rounds) := by
      rw [LinkedList.removeNextBelow, hat.hasNext h, hnext]
      rfl
    rw [hround, ← take_concat_get' xs ahead hahead, reverse_append]
    by_cases hvalue : xs[ahead] = value
    · obtain ⟨s', iter'', hremove, hkeeps, hlater, -⟩ := hat'.remove h hconst' hcan hahead
      refine .inr ⟨by simp [hvalue], s', ns.eraseIdx ahead, ?_, ?_, hlater⟩
      · rw [if_pos hvalue, hremove]
        rfl
      · rw [eraseIdx_eq_take_drop_succ xs] at hkeeps
        simpa [hvalue] using hkeeps
    · rw [if_neg hvalue]
      rcases ih iter' (ahead + 1 + rounds) hat' hconst' (by omega) with
        ⟨hnot, hsame⟩ | ⟨hmem, s', ns', hrem, hkeeps, hlater⟩
      · refine .inl ⟨fun hin => ?_, hsame⟩
        rcases mem_append.mp hin with hin | hin
        · exact hnot hin
        · exact hvalue (mem_singleton.mp hin).symm
      · refine .inr ⟨mem_append_left _ hmem, s', ns', hrem, ?_, hlater⟩
        rw [reverse_singleton, singleton_append,
          erase_cons_tail (by simpa using hvalue), reverse_cons, append_assoc,
          singleton_append, ← drop_eq_getElem_cons hahead]
        exact hkeeps

end Loops

end LinkedList

end ActivemqCpp.Decaf
