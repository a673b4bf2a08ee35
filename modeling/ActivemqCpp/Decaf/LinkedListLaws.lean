import ActivemqCpp.Decaf.LinkedList
import ActivemqCpp.Decaf.ArrayListRuns

/-!
# The nodes of a `LinkedList` as a sequence

`Holds s ns xs`: the links string together the sentinels and the nodes with the addresses
`ns`, those are the nodes that exist, and their values are the sequence `xs`. Place `0` is
the head sentinel, place `i + 1` the node of element `i`, and behind the last one comes the
tail sentinel (`refAt`).

* a step along the links goes to the neighbouring place, a walk so many places on or back;
* `insertBetween` and `removeBetween` at neighbouring places insert and remove one element
  of the sequence (`Holds.insertBetween`, `Holds.removeBetween`);
* `Keeps` adds the size; the operations of the list are each described by what they do to
  the sequence and by how many modifications they count.
-/

namespace ActivemqCpp.Decaf

open Base List Function LinkedList

namespace LinkedList

variable {E : Type}

/-! ## Places -/

/-- The sentinels and the nodes between them. -/
def refs (ns : List Nat) : List Ref := .head :: (ns.map .node ++ [.tail])

def refAt (ns : List Nat) : Nat → Ref
  | 0 => .head
  | i + 1 => (ns[i]?).elim .tail .node

variable {i n : Nat} {s : LinkedList E} {ns : List Nat} {xs : List E}

theorem refAt_succ (h : ns[i]? = some n) : refAt ns (i + 1) = .node n := by
  simp [refAt, h]

theorem refAt_end (ns : List Nat) : refAt ns (ns.length + 1) = .tail := by simp [refAt]

theorem getElem?_refs (h : i ≤ ns.length + 1) : (refs ns)[i]? = some (refAt ns i) := by
  cases i with
  | zero => rfl
  | succ i =>
    rw [refs, getElem?_cons_succ]
    by_cases hi : i < ns.length
    · rw [getElem?_append_left (by simpa using hi)]
      simp [refAt, hi]
    · have hlast : i = ns.length := by omega
      subst hlast
      simp [refAt]

theorem refAt_mem (h : i ≤ ns.length + 1) : refAt ns i ∈ refs ns :=
  mem_of_getElem? (getElem?_refs h)

theorem refAt_eq_tail (h : i ≤ ns.length + 1) : refAt ns i = .tail ↔ i = ns.length + 1 := by
  cases i with
  | zero => simp [refAt]
  | succ i =>
    by_cases hi : i < ns.length
    · simp [refAt, hi]
      omega
    · have hlast : i = ns.length := by omega
      simp [refAt, hlast]

theorem refAt_eq_head : refAt ns i = .head ↔ i = 0 := by
  cases i with
  | zero => simp [refAt]
  | succ i => by_cases hi : i < ns.length <;> simp [refAt, hi]

theorem refAt_ne_null (ns : List Nat) (i : Nat) : refAt ns i ≠ .null := by
  cases i with
  | zero => simp [refAt]
  | succ i => by_cases hi : i < ns.length <;> simp [refAt, hi]

theorem node_mem_refs : .node n ∈ refs ns ↔ n ∈ ns := by simp [refs]

theorem nodup_refs (h : ns.Nodup) : (refs ns).Nodup := by
  have hmap : (ns.map Ref.node).Nodup := h.map fun _ _ hab => by simpa using hab
  simp [refs, nodup_append, hmap]

theorem refAt_inj (hnodup : ns.Nodup) {j : Nat} (hi : i ≤ ns.length + 1)
    (hj : j ≤ ns.length + 1) : refAt ns i = refAt ns j ↔ i = j := by
  refine ⟨?_, fun h => by rw [h]⟩
  intro h
  have hlen : i < (refs ns).length := by simp [refs]; omega
  refine (getElem?_inj hlen (nodup_refs hnodup)).mp ?_
  rw [getElem?_refs hi, getElem?_refs hj, h]

/-! ## The representation -/

structure Holds (s : LinkedList E) (ns : List Nat) (xs : List E) : Prop where
  threads : s.links.Threads (refs ns)
  nodup : ns.Nodup
  live : ∀ r, s.live r = true ↔ r ∈ refs ns
  fresh : ∀ n ∈ ns, n < s.fresh
  values : ns.map (fun n => s.value (.node n)) = xs

section Places

variable (h : s.Holds ns xs)

include h

theorem Holds.length : ns.length = xs.length := by
  rw [← h.values, length_map]

theorem Holds.node (hi : i < xs.length) : ∃ n, ns[i]? = some n :=
  ⟨_, getElem?_eq_getElem (by rw [h.length]; exact hi)⟩

theorem Holds.liveAt (hi : i ≤ xs.length + 1) : s.live (refAt ns i) = true :=
  (h.live _).mpr (refAt_mem (by rw [h.length]; exact hi))

variable (hi : i ≤ xs.length)
include hi

theorem Holds.joined : s.links.Joined (refAt ns i) (refAt ns (i + 1)) :=
  h.threads.joined (getElem?_refs (by rw [h.length]; omega)) (getElem?_refs (by rw [h.length]; omega))

theorem Holds.nextOf : s.nextOf (refAt ns i) = .ok (refAt ns (i + 1)) := by
  rw [LinkedList.nextOf, read, if_pos (h.liveAt (by omega)), (h.joined hi).1]

theorem Holds.prevOf : s.prevOf (refAt ns (i + 1)) = .ok (refAt ns i) := by
  rw [LinkedList.prevOf, read, if_pos (h.liveAt (by omega)), (h.joined hi).2]

omit hi

theorem Holds.nextOf_head : s.nextOf .head = .ok (refAt ns 1) := h.nextOf (i := 0) (by omega)

theorem Holds.prevOf_tail : s.prevOf .tail = .ok (refAt ns xs.length) := by
  have hlast := h.prevOf (le_refl xs.length)
  rwa [← h.length, refAt_end, h.length] at hlast

theorem Holds.tail_eq : refAt ns (xs.length + 1) = .tail := by
  rw [← h.length]
  exact refAt_end ns

theorem Holds.ne_tail (hi : i < xs.length) : refAt ns (i + 1) ≠ .tail := by
  rw [Ne, refAt_eq_tail (by rw [h.length]; omega), h.length]
  omega

theorem Holds.valueOf {x : E} (hx : xs[i]? = some x) : s.valueOf (refAt ns (i + 1)) = .ok x := by
  have hi : i < xs.length := (List.getElem?_eq_some_iff.mp hx).1
  obtain ⟨n, hn⟩ := h.node hi
  rw [LinkedList.valueOf, read, if_pos (h.liveAt (by omega)), refAt_succ hn]
  rw [← h.values, getElem?_map, hn] at hx
  exact congrArg _ (Option.some.inj hx)

variable {k : Nat}

theorem Holds.walkNext (hk : i + k ≤ xs.length + 1) :
    s.walkNext k (refAt ns i) = .ok (refAt ns (i + k)) := by
  induction k generalizing i with
  | zero => rfl
  | succ k ih =>
    rw [walkNext, h.nextOf (by omega)]
    show s.walkNext k (refAt ns (i + 1)) = _
    rw [ih (by omega), show i + 1 + k = i + (k + 1) by omega]

theorem Holds.walkPrev (hk : i + k ≤ xs.length + 1) :
    s.walkPrev k (refAt ns (i + k)) = .ok (refAt ns i) := by
  induction k with
  | zero => rfl
  | succ k ih =>
    rw [LinkedList.walkPrev, ← Nat.add_assoc, h.prevOf (by omega)]
    exact ih (by omega)

/-- A walk back from the end. -/
theorem Holds.walkPrev_tail (hk : i + k = xs.length + 1) :
    s.walkPrev k .tail = .ok (refAt ns i) := by
  rw [← h.tail_eq, ← hk]
  exact h.walkPrev (le_of_eq hk)

/-- The loops over the nodes have rounds enough. -/
theorem Holds.length_lt_rounds : xs.length < s.rounds := by
  have hsub : ns ⊆ range s.fresh := fun n hn => mem_range.mpr (h.fresh n hn)
  have hle := (subperm_of_subset h.nodup hsub).length_le
  rw [length_range, h.length] at hle
  exact Nat.lt_succ_of_le hle

end Places

/-! ## Inserting, removing and replacing one element -/

theorem mem_refs_middle {as bs : List Nat} {r : Ref} :
    r ∈ refs (as ++ n :: bs) ↔ r = .node n ∨ r ∈ refs (as ++ bs) := by
  simp only [refs, map_append, map_cons, mem_cons, mem_append]
  tauto

/-- The places around a gap, by the nodes on both sides of it. -/
theorem refs_gap (as bs : List Nat) : ∃ front back, ∀ cs : List Nat,
    refs (as ++ cs ++ bs) = front ++ refAt (as ++ bs) as.length ::
      (cs.map .node ++ refAt (as ++ bs) (as.length + 1) :: back) := by
  rcases eq_nil_or_concat as with rfl | ⟨init, last, rfl⟩
  · cases bs with
    | nil => exact ⟨[], [], fun cs => by simp [refs, refAt]⟩
    | cons b bs => exact ⟨[], bs.map .node ++ [.tail], fun cs => by simp [refs, refAt]⟩
  · cases bs with
    | nil =>
      refine ⟨.head :: init.map .node, [], fun cs => ?_⟩
      simp [refs, refAt]
    | cons b bs =>
      refine ⟨.head :: init.map .node, bs.map .node ++ [.tail], fun cs => ?_⟩
      simp [refs, refAt]

variable {ys : List E}

theorem Holds.values_append {as bs : List Nat} (h : s.Holds (as ++ bs) (xs ++ ys))
    (hlen : as.length = xs.length) : as.map (fun n => s.value (.node n)) = xs ∧
      bs.map (fun n => s.value (.node n)) = ys :=
  append_inj (map_append.symm.trans h.values) (by simp [hlen])

/-- A new node between neighbouring places. -/
theorem Holds.insertBetween {as bs : List Nat} (h : s.Holds (as ++ bs) (xs ++ ys))
    (hlen : as.length = xs.length) (value : E) :
    ∃ s', s.insertBetween (refAt (as ++ bs) as.length) (refAt (as ++ bs) (as.length + 1)) value =
        .ok (s', .node s.fresh) ∧
      s'.Holds (as ++ s.fresh :: bs) (xs ++ value :: ys) ∧
      s'.listSize = s.listSize ∧ s'.modCount = s.modCount := by
  have hle : as.length ≤ (xs ++ ys).length := by simp [hlen]
  refine ⟨_, if_pos ⟨h.liveAt (by omega), h.liveAt (by omega)⟩, ?_, rfl, rfl⟩
  have hnew : s.fresh ∉ as ++ bs := fun hmem => Nat.lt_irrefl _ (h.fresh _ hmem)
  obtain ⟨front, back, hgap⟩ := refs_gap as bs
  have hold := hgap []
  have hins := hgap [s.fresh]
  simp only [nil_append, cons_append, append_assoc] at hold hins
  have hthreads := h.threads
  have hnodup := nodup_refs h.nodup
  have hvalue (ns : List Nat) (hns : ∀ n ∈ ns, n ∈ as ++ bs) :
      ns.map (fun n => update s.value (.node s.fresh) value (.node n)) =
        ns.map fun n => s.value (.node n) := by
    refine map_congr_left fun n hn => ?_
    refine update_of_ne ?_ _ _
    intro heq
    exact hnew (by rw [← Ref.node.inj heq]; exact hns n hn)
  refine ⟨?_, ?_, ?_, ?_, ?_⟩
  · rw [← node_mem_refs, hold] at hnew
    rw [hold] at hthreads hnodup
    rw [hins]
    exact hthreads.link hnodup hnew
  · rw [nodup_middle, nodup_cons]
    exact ⟨hnew, h.nodup⟩
  · intro r
    show update s.live _ true r = true ↔ _
    rw [mem_refs_middle]
    by_cases hr : r = .node s.fresh
    · simp [hr]
    · rw [update_of_ne hr, h.live r]
      simp [hr]
  · intro n hn
    show n < s.fresh + 1
    rw [mem_append, mem_cons] at hn
    have hfresh := h.fresh n
    rw [mem_append] at hfresh
    rcases hn with hn | rfl | hn
    · exact Nat.lt_succ_of_lt (hfresh (.inl hn))
    · exact Nat.lt_succ_self _
    · exact Nat.lt_succ_of_lt (hfresh (.inr hn))
  · obtain ⟨hxs, hys⟩ := h.values_append hlen
    show (as ++ s.fresh :: bs).map (fun n => update s.value (.node s.fresh) value (.node n)) = _
    rw [map_append, map_cons, hvalue as (fun n hn => mem_append_left _ hn),
      hvalue bs (fun n hn => mem_append_right _ hn), update_self, hxs, hys]

/-- The node between neighbouring places goes. -/
theorem Holds.removeBetween {as bs : List Nat} {x : E}
    (h : s.Holds (as ++ n :: bs) (xs ++ x :: ys)) (hlen : as.length = xs.length) :
    ∃ s', s.removeBetween (refAt (as ++ n :: bs) as.length) (.node n)
        (refAt (as ++ n :: bs) (as.length + 2)) = .ok s' ∧
      s'.Holds (as ++ bs) (xs ++ ys) ∧ s'.listSize = s.listSize ∧ s'.modCount = s.modCount := by
  have hle : as.length + 1 ≤ (xs ++ x :: ys).length := by simp [hlen]
  have hn : refAt (as ++ n :: bs) (as.length + 1) = .node n := by simp [refAt]
  have hlive := h.liveAt (i := as.length + 1) (by omega)
  rw [hn] at hlive
  refine ⟨_, if_pos ⟨h.liveAt (by omega), hlive, h.liveAt (by omega), by simp, by simp⟩, ?_, rfl, rfl⟩
  have hnotin : n ∉ as ++ bs := (nodup_cons.mp (nodup_middle.mp h.nodup)).1
  have hplaces : refAt (as ++ bs) as.length = refAt (as ++ n :: bs) as.length ∧
      refAt (as ++ bs) (as.length + 1) = refAt (as ++ n :: bs) (as.length + 2) := by
    refine ⟨?_, ?_⟩
    · rcases eq_nil_or_concat as with rfl | ⟨init, last, rfl⟩
      · rfl
      · simp [refAt]
    · simp [refAt, getElem?_append_right]
  obtain ⟨front, back, hgap⟩ := refs_gap as bs
  have hold := hgap [n]
  have hrem := hgap []
  simp only [nil_append, cons_append, append_assoc] at hold hrem
  have hthreads := h.threads
  have hnodup := nodup_refs h.nodup
  refine ⟨?_, (nodup_cons.mp (nodup_middle.mp h.nodup)).2, ?_, ?_, ?_⟩
  · rw [hold] at hthreads hnodup
    rw [hrem, ← hplaces.1, ← hplaces.2]
    exact hthreads.unlink hnodup
  · intro r
    show update s.live _ false r = true ↔ _
    by_cases hr : r = .node n
    · subst hr
      simp [node_mem_refs, hnotin]
    · rw [update_of_ne hr, h.live r, mem_refs_middle]
      simp [hr]
  · intro m hm
    refine h.fresh m ?_
    rw [mem_append] at hm ⊢
    exact hm.imp_right (mem_cons_of_mem _)
  · obtain ⟨hxs, hys⟩ := h.values_append hlen
    show (as ++ bs).map (fun m => s.value (.node m)) = _
    rw [map_append, hxs, (cons.inj hys).2]

theorem Holds.replace (h : s.Holds ns xs) (hi : i < xs.length) (value : E) :
    Holds { s with value := update s.value (refAt ns (i + 1)) value } ns (xs.set i value) := by
  obtain ⟨n, hn⟩ := h.node hi
  refine ⟨h.threads, h.nodup, h.live, h.fresh, ext_getElem? fun k => ?_⟩
  rw [refAt_succ hn, getElem?_map, getElem?_set]
  by_cases hk : i = k
  · subst hk
    simp [hn, hi]
  · rw [if_neg hk, ← h.values, getElem?_map]
    rcases hm : ns[k]? with _ | m
    · rfl
    · have hmn : m ≠ n := by
        rintro rfl
        have hlt := (List.getElem?_eq_some_iff.mp hn).1
        exact hk ((getElem?_inj hlt h.nodup).mp (hn.trans hm.symm))
      simp [hmn]

theorem Holds.split (h : s.Holds ns xs) (hi : i ≤ xs.length) :
    s.Holds (ns.take i ++ ns.drop i) (xs.take i ++ xs.drop i) ∧ (ns.take i).length = i ∧
      (ns.take i).length = (xs.take i).length := by
  have hns : (ns.take i).length = i := length_take_of_le (by rw [h.length]; exact hi)
  rw [take_append_drop, take_append_drop]
  exact ⟨h, hns, hns.trans (length_take_of_le hi).symm⟩

/-- The two at a place given by its number. -/
theorem Holds.insertAt (h : s.Holds ns xs) (hi : i ≤ xs.length) (value : E) :
    ∃ s', s.insertBetween (refAt ns i) (refAt ns (i + 1)) value = .ok (s', .node s.fresh) ∧
      s'.Holds (ns.take i ++ s.fresh :: ns.drop i) (xs.take i ++ value :: xs.drop i) ∧
      s'.listSize = s.listSize ∧ s'.modCount = s.modCount := by
  obtain ⟨hsplit, hns, hlen⟩ := h.split hi
  have hins := hsplit.insertBetween hlen value
  rwa [take_append_drop, hns] at hins

theorem Holds.removeAt (h : s.Holds ns xs) (hi : i < xs.length) :
    ∃ s', s.removeBetween (refAt ns i) (refAt ns (i + 1)) (refAt ns (i + 2)) = .ok s' ∧
      s'.Holds (ns.eraseIdx i) (xs.eraseIdx i) ∧
      s'.listSize = s.listSize ∧ s'.modCount = s.modCount := by
  have hin : i < ns.length := by rw [h.length]; exact hi
  have hnode : refAt ns (i + 1) = .node ns[i] := refAt_succ (getElem?_eq_getElem hin)
  obtain ⟨hsplit, hns, hlen⟩ := h.split hi.le
  rw [drop_eq_getElem_cons hin, drop_eq_getElem_cons hi] at hsplit
  have hrem := hsplit.removeBetween hlen
  rw [← drop_eq_getElem_cons hin, take_append_drop, hns] at hrem
  rw [hnode, eraseIdx_eq_take_drop_succ, eraseIdx_eq_take_drop_succ]
  exact hrem

/-! ## The size and the modifications -/

theorem wrap_wrap (a : Int) : wrap 32 (wrap 32 a) = wrap 32 a := Int.bmod_bmod

theorem wrap_add_wrap (a b : Int) : wrap 32 (wrap 32 a + b) = wrap 32 (a + b) := by
  rw [wrap, wrap, wrap, Int.bmod_add_bmod]

/-- A list of a size that an `int` holds. -/
structure Keeps (s : LinkedList E) (ns : List Nat) (xs : List E) : Prop extends Holds s ns xs where
  size : s.listSize = xs.length
  small : xs.length < 2 ^ 31
  count : wrap 32 s.modCount = s.modCount

/-- `k` modifications lie between the two. -/
def Later (s s' : LinkedList E) (k : Nat) : Prop := s'.modCount = wrap 32 (s.modCount + k)

theorem Later.trans {s' s'' : LinkedList E} {k m : Nat} (h : Later s s' k) (h' : Later s' s'' m) :
    Later s s'' (k + m) := by
  rw [Later, h', h, wrap_add_wrap, Int.add_assoc, Nat.cast_add]

theorem Keeps.later_refl (h : s.Keeps ns xs) : Later s s 0 := by
  rw [Later, Nat.cast_zero, Int.add_zero, h.count]

theorem Holds.modified {s' : LinkedList E} (h : s'.Holds ns xs) (amount : Int)
    (hsize : s'.listSize = s.listSize) (hcount : s'.modCount = s.modCount)
    (hamount : s.listSize + amount = xs.length) (hsmall : xs.length < 2 ^ 31) :
    (s'.modified amount).Keeps ns xs ∧ Later s (s'.modified amount) 1 := by
  refine ⟨⟨⟨h.threads, h.nodup, h.live, h.fresh, h.values⟩, ?_, hsmall, wrap_wrap _⟩, ?_⟩
  · show wrap 32 (s'.listSize + amount) = _
    rw [hsize, hamount, wrap_of_bounds]
  · show wrap 32 (s'.modCount + 1) = _
    rw [hcount]
    rfl

/-- A new list. -/
theorem keeps_new [Inhabited E] : (new : LinkedList E).Keeps [] [] := by
  refine ⟨⟨?_, nodup_nil, ?_, ?_, rfl⟩, rfl, Nat.two_pow_pos 31, rfl⟩
  · exact Links.threads_cons_cons.mpr ⟨⟨rfl, rfl⟩, .singleton _⟩
  · intro r
    simp [new, refs]
  · nofun

section Operations

variable (h : s.Keeps ns xs)

include h

variable (value : E)

/-- The end of every insertion: an element comes, the size and the counter follow. -/
theorem Keeps.inserted (hi : i ≤ xs.length) (hroom : xs.length + 1 < 2 ^ 31) :
    ∃ s', s.insertBetween (refAt ns i) (refAt ns (i + 1)) value = .ok (s', .node s.fresh) ∧
      (s'.modified 1).Keeps (ns.take i ++ s.fresh :: ns.drop i)
        (xs.take i ++ value :: xs.drop i) ∧ Later s (s'.modified 1) 1 := by
  obtain ⟨s', hins, hholds, hsize, hcount⟩ := h.toHolds.insertAt hi value
  have hlength : (xs.take i ++ value :: xs.drop i).length = xs.length + 1 := by
    rw [length_append, length_cons, length_take_of_le hi, length_drop]
    omega
  obtain ⟨hkeeps, hlater⟩ := hholds.modified 1 hsize hcount
    (by rw [h.size, hlength]; simp) (by omega)
  exact ⟨s', hins, hkeeps, hlater⟩

theorem Keeps.addToFront (hroom : xs.length + 1 < 2 ^ 31) :
    ∃ s' ns', s.addToFront value = .ok s' ∧ s'.Keeps ns' (value :: xs) ∧ Later s s' 1 := by
  obtain ⟨s', hins, hkeeps, hlater⟩ := h.inserted value (Nat.zero_le _) hroom
  refine ⟨_, _, ?_, hkeeps, hlater⟩
  rw [LinkedList.addToFront, h.nextOf_head]
  show (s.insertBetween (refAt ns 0) (refAt ns 1) value >>= _) = _
  rw [hins]
  rfl

theorem Keeps.addToEnd (hroom : xs.length + 1 < 2 ^ 31) :
    ∃ s' ns', s.addToEnd value = .ok s' ∧ s'.Keeps ns' (xs ++ [value]) ∧ Later s s' 1 := by
  obtain ⟨s', hins, hkeeps, hlater⟩ := h.inserted value (le_refl _) hroom
  rw [take_length, drop_length] at hkeeps
  refine ⟨_, _, ?_, hkeeps, hlater⟩
  rw [LinkedList.addToEnd, h.prevOf_tail, ok_bind, ← h.tail_eq, hins]
  rfl

/-- The end of every removal: an element goes, the size and the counter follow. -/
theorem Keeps.removed (hi : i < xs.length) :
    ∃ s', s.removeBetween (refAt ns i) (refAt ns (i + 1)) (refAt ns (i + 2)) = .ok s' ∧
      (s'.modified (-1)).Keeps (ns.eraseIdx i) (xs.eraseIdx i) ∧ Later s (s'.modified (-1)) 1 := by
  obtain ⟨s', hrem, hholds, hsize, hcount⟩ := h.toHolds.removeAt hi
  have hlength : (xs.eraseIdx i).length = xs.length - 1 := length_eraseIdx_of_lt hi
  have hsmall := h.small
  obtain ⟨hkeeps, hlater⟩ := hholds.modified (-1) hsize hcount (by rw [h.size]; omega) (by omega)
  exact ⟨s', hrem, hkeeps, hlater⟩

theorem Keeps.nextOf_head_nil (hxs : xs = []) : s.nextOf .head = .ok .tail := by
  have htail := h.tail_eq
  rw [hxs] at htail
  exact h.nextOf_head.trans (congrArg _ htail)

theorem Keeps.removeAtFront_nil (hxs : xs = []) :
    s.removeAtFront = .error (.thrown .noSuchElement) := by
  rw [removeAtFront, h.nextOf_head_nil hxs]
  rfl

theorem Keeps.removeAtFront_cons {x : E} {rest : List E} (hxs : xs = x :: rest) :
    ∃ s' ns', s.removeAtFront = .ok (s', x) ∧ s'.Keeps ns' rest ∧ Later s s' 1 := by
  have hpos : 0 < xs.length := by simp [hxs]
  obtain ⟨s', hrem, hkeeps, hlater⟩ := h.removed hpos
  rw [hxs] at hkeeps
  refine ⟨_, _, ?_, hkeeps, hlater⟩
  rw [removeAtFront, h.nextOf_head]
  show (if refAt ns 1 = .tail then _ else _) = _
  rw [if_neg (h.ne_tail hpos), h.valueOf (x := x) (by simp [hxs]), h.nextOf hpos]
  show (s.removeBetween (refAt ns 0) (refAt ns 1) (refAt ns 2) >>= _) = _
  rw [hrem]
  rfl

theorem Keeps.removeAtEnd_nil (hxs : xs = []) :
    s.removeAtEnd = .error (.thrown .noSuchElement) := by
  rw [removeAtEnd, h.nextOf_head_nil hxs]
  rfl

theorem Keeps.removeAtEnd_concat {x : E} {rest : List E} (hxs : xs = rest ++ [x]) :
    ∃ s' ns', s.removeAtEnd = .ok (s', x) ∧ s'.Keeps ns' rest ∧ Later s s' 1 := by
  have hlength : xs.length = rest.length + 1 := by simp [hxs]
  obtain ⟨s', hrem, hkeeps, hlater⟩ := h.removed (i := rest.length) (by omega)
  have herase : xs.eraseIdx rest.length = rest := by
    rw [hxs, eraseIdx_append_of_length_le (le_refl _)]
    simp
  rw [herase] at hkeeps
  refine ⟨_, _, ?_, hkeeps, hlater⟩
  rw [removeAtEnd, h.nextOf_head]
  show (if refAt ns 1 = .tail then _ else _) = _
  rw [if_neg (h.ne_tail (by omega)), h.prevOf_tail, hlength, ok_bind,
    h.valueOf (x := x) (by simp [hxs]), ok_bind, h.prevOf (by omega), ok_bind, ← h.tail_eq,
    hlength, hrem]
  rfl

variable (index : Nat) (hindex : index ≤ xs.length)
include hindex

/-- Both ways to a place: along the links from the head, or back from the tail. -/
theorem Keeps.walkTo {c : Prop} [Decidable c] : (if c then s.walkNext (index : Int).toNat .head
      else s.walkPrev (s.listSize - index + 1).toNat .tail) = .ok (refAt ns index) := by
  split
  · have hwalk := h.toHolds.walkNext (i := 0) (k := index) (by omega)
    rwa [Nat.zero_add] at hwalk
  · refine h.walkPrev_tail ?_
    rw [h.size]
    omega

theorem Keeps.addAtLocation (hroom : xs.length + 1 < 2 ^ 31) :
    ∃ s' ns', s.addAtLocation index value = .ok s' ∧
      s'.Keeps ns' (xs.take index ++ value :: xs.drop index) ∧ Later s s' 1 := by
  obtain ⟨s', hins, hkeeps, hlater⟩ := h.inserted value hindex hroom
  refine ⟨_, _, ?_, hkeeps, hlater⟩
  have hlocation : (if index ≤ s.listSize.tdiv 2 then do
      let first ← s.nextOf .head
      s.walkNext (index : Int).toNat first
    else s.walkPrev (s.listSize - index).toNat .tail) = .ok (refAt ns (index + 1)) := by
    split
    · rw [h.nextOf_head]
      have hwalk := h.toHolds.walkNext (i := 1) (k := index) (by omega)
      rwa [Nat.add_comm] at hwalk
    · refine h.walkPrev_tail ?_
      rw [h.size]
      omega
  rw [LinkedList.addAtLocation, hlocation, ok_bind, h.prevOf hindex, ok_bind, hins]
  rfl

omit hindex h in
/-- The loop of `addAllAtLocation`, from the place in front of the gap. -/
theorem Holds.insertAll {as bs : List Nat} (values : List E)
    (h : s.Holds (as ++ bs) (xs ++ ys)) (hlen : as.length = xs.length) :
    ∃ s' ns', s.insertAll (refAt (as ++ bs) as.length) values = .ok s' ∧
      s'.Holds ns' (xs ++ values ++ ys) ∧ s'.listSize = s.listSize ∧ s'.modCount = s.modCount := by
  induction values generalizing s as xs with
  | nil => exact ⟨s, as ++ bs, rfl, by simpa using h, rfl, rfl⟩
  | cons value values ih =>
    obtain ⟨s', hins, hholds, hsize, hcount⟩ := h.insertBetween hlen value
    have hmoved : s'.Holds ((as ++ [s.fresh]) ++ bs) ((xs ++ [value]) ++ ys) := by simpa using hholds
    obtain ⟨s'', ns'', hall, hdone, hsize', hcount'⟩ := ih hmoved (by simp [hlen])
    refine ⟨s'', ns'', ?_, by simpa using hdone, hsize'.trans hsize, hcount'.trans hcount⟩
    have hplace : refAt ((as ++ [s.fresh]) ++ bs) (as ++ [s.fresh]).length = .node s.fresh := by
      simp [refAt]
    rw [hplace] at hall
    rw [insertAll, h.nextOf (by simp [hlen]), ok_bind, hins]
    exact hall

theorem Keeps.addAllAtLocation {values : List E}
    (hvalues : values ≠ []) (hroom : xs.length + values.length < 2 ^ 31) :
    ∃ s' ns', s.addAllAtLocation index values = .ok (s', true) ∧
      s'.Keeps ns' (xs.take index ++ values ++ xs.drop index) ∧ Later s s' 1 := by
  obtain ⟨hsplit, hns, hlen⟩ := h.split hindex
  obtain ⟨s', ns', hall, hholds, hsize, hcount⟩ := hsplit.insertAll values hlen
  rw [take_append_drop, hns] at hall
  have hlength : (xs.take index ++ values ++ xs.drop index).length = xs.length + values.length := by
    rw [length_append, length_append, length_drop]
    omega
  obtain ⟨hkeeps, hlater⟩ := hholds.modified values.length hsize hcount
    (by rw [h.size, hlength]; push_cast; rfl) (by omega)
  refine ⟨_, _, ?_, hkeeps, hlater⟩
  rw [LinkedList.addAllAtLocation, if_neg (by rw [h.size]; omega), if_neg hvalues,
    h.walkTo index hindex, ok_bind, hall]
  rfl

theorem Keeps.addAllAtLocation_nil : s.addAllAtLocation index [] = .ok (s, false) := by
  rw [LinkedList.addAllAtLocation, if_neg (by rw [h.size]; omega), if_pos rfl]

omit hindex

theorem Keeps.addAllAtLocation_out {index : Int} (hindex : index < 0 ∨ (xs.length : Int) < index)
    (values : List E) : s.addAllAtLocation index values = .error (.thrown .indexOutOfBounds) := by
  rw [LinkedList.addAllAtLocation, if_pos (by rw [h.size]; exact hindex)]

omit h in
/-- The loop of `purgeList` deletes the nodes from place `i + 1` on, and nothing else. -/
theorem purgeList_spec (k : Nat) :
    ∀ (i rounds : Nat) (live : Ref → Bool), i + k = ns.length → k < rounds →
      (∀ j, i < j → j ≤ ns.length + 1 → live (refAt ns j) = true) →
      s.links.Threads (refs ns) → ns.Nodup →
      ∃ live', { s with live := live }.purgeList (refAt ns (i + 1)) rounds =
          .ok { s with live := live' } ∧
        ∀ r, live' r = true ↔ live r = true ∧ ∀ j, i < j → j ≤ ns.length → r ≠ refAt ns j := by
  induction k with
  | zero =>
    intro i rounds live hi hrounds hlive hthreads hnodup
    obtain ⟨rounds, rfl⟩ := Nat.exists_eq_add_of_lt hrounds
    have htail : refAt ns (i + 1) = .tail := (refAt_eq_tail (by omega)).mpr (by omega)
    refine ⟨live, ?_, ?_⟩
    · rw [htail]
      rfl
    · intro r
      refine ⟨fun hr => ⟨hr, fun j hij hj => by omega⟩, fun hr => hr.1⟩
  | succ k ih =>
    intro i rounds live hi hrounds hlive hthreads hnodup
    obtain ⟨rounds, rfl⟩ := Nat.exists_eq_add_of_lt hrounds
    have hnot : refAt ns (i + 1) ≠ .tail := by
      rw [Ne, refAt_eq_tail (by omega)]
      omega
    have hnext : nextOf { s with live := live } (refAt ns (i + 1)) =
        .ok (refAt ns (i + 1 + 1)) := by
      rw [nextOf, read, if_pos (hlive _ (by omega) (by omega))]
      exact congrArg _ (hthreads.joined (getElem?_refs (by omega)) (getElem?_refs (by omega))).1
    obtain ⟨live', hpurge, hdead⟩ := ih (i + 1) (k + 1 + rounds)
      (update live (refAt ns (i + 1)) false) (by omega) (by omega)
      (fun j hij hj => by
        have hne : refAt ns j ≠ refAt ns (i + 1) := by
          rw [Ne, refAt_inj hnodup hj (by omega)]
          omega
        rw [update_of_ne hne]
        exact hlive j (by omega) hj) hthreads hnodup
    refine ⟨live', ?_, ?_⟩
    · rw [purgeList, if_neg hnot, hnext]
      exact hpurge
    · intro r
      rw [hdead r]
      by_cases hr : r = refAt ns (i + 1)
      · subst hr
        simp only [update_self, Bool.false_eq_true, false_and, false_iff]
        intro hall
        exact hall.2 (i + 1) (by omega) (by omega) rfl
      · rw [update_of_ne hr]
        refine and_congr_right fun _ => ⟨fun hall j hij hj => ?_, fun hall j hij hj => ?_⟩
        · rcases Nat.lt_or_ge (i + 1) j with hlt | hge
          · exact hall j hlt hj
          · rw [show j = i + 1 by omega]
            exact hr
        · exact hall j (by omega) hj

theorem Keeps.clear : ∃ s', s.clear = .ok s' ∧ s'.Keeps [] [] ∧ Later s s' 1 := by
  obtain ⟨live', hpurge, hlive⟩ := purgeList_spec ns.length 0 s.rounds s.live (by omega)
    (by rw [h.length]; exact h.length_lt_rounds)
    (fun j _ hj => h.liveAt (by rw [← h.length]; exact hj)) h.threads h.nodup
  refine ⟨{ s with live := live', links := s.links.unlink .head .tail, listSize := 0,
                   modCount := wrap 32 (s.modCount + 1) }, ?_,
    ⟨⟨?_, nodup_nil, ?_, ?_, rfl⟩, rfl, Nat.two_pow_pos 31, wrap_wrap _⟩, rfl⟩
  · rw [LinkedList.clear, h.nextOf_head, ok_bind, hpurge]
    rfl
  · exact Links.threads_cons_cons.mpr ⟨by simp [Links.Joined, Links.unlink], .singleton _⟩
  · intro r
    rw [hlive r, h.live r]
    have hends : r ∈ refs [] ↔ r = .head ∨ r = .tail := by simp [refs]
    rw [hends]
    constructor
    · rintro ⟨hmem, hnone⟩
      obtain ⟨j, hj⟩ := mem_iff_getElem?.mp hmem
      have hle : j ≤ ns.length + 1 := by
        have hlt := (List.getElem?_eq_some_iff.mp hj).1
        simpa [refs] using hlt
      rw [getElem?_refs (by omega)] at hj
      cases hj
      rcases Nat.eq_zero_or_pos j with rfl | hpos
      · exact .inl rfl
      · refine .inr ((refAt_eq_tail (by omega)).mpr ?_)
        by_contra hne
        exact hnone j hpos (by omega) rfl
    · rintro (rfl | rfl)
      · refine ⟨by simp [refs], fun j hj _ => ?_⟩
        rw [ne_comm, Ne, refAt_eq_head]
        omega
      · refine ⟨by simp [refs], fun j _ hj => ?_⟩
        rw [ne_comm, Ne, refAt_eq_tail (by omega)]
        omega
  · intro n hn
    cases hn

end Operations

end LinkedList

end ActivemqCpp.Decaf
