import ActivemqCpp.Base.BinaryHeap
import ActivemqCpp.Decaf.ArrayList
import ActivemqCpp.Decaf.Numbers

/-!
# `decaf::util::PriorityQueue`

A binary heap in an array. `elements` is the array, of `capacity` cells; an access to a cell
that it does not have is `broken`. Sizes and indices are `int`s, and `new E[n]` throws for a
negative `n`.
-/

namespace ActivemqCpp.Decaf

open Base BinaryHeap

structure PriorityQueue (E : Type) where
  size : Nat
  capacity : Nat
  elements : Nat → E

/-- `PriorityQueueIterator`. -/
structure PriorityQueueIterator where
  position : Nat
  allowRemove : Bool
deriving DecidableEq

namespace PriorityQueue

variable {E : Type} [Inhabited E]

def defaultCapacity : Nat := 11

def defaultCapacityRatio : Int := 2

/-- `PriorityQueue(initialCapacity, comparator)`. -/
def new (initialCapacity : Nat) : PriorityQueue E := ⟨0, initialCapacity, fun _ => default⟩

def clear : PriorityQueue E := new defaultCapacity

def increaseCapacity (s : PriorityQueue E) (size : Int) : Except Fault (PriorityQueue E) :=
  if s.capacity < size then
    let capacity := wrap 32 (size * defaultCapacityRatio)
    if capacity < 0 then .error (.thrown .badAlloc)
    else .ok { s with
      capacity := capacity.toNat
      elements := fun i => if i < s.capacity then s.elements i else default }
  else .ok s

section Heap

variable (compare : E → E → Int)

/-- The loop of `upHeap`, which ends within `current + 1` rounds. -/
def upHeapFrom (elements : Nat → E) (current : Nat) : Nat → Except Fault (Nat → E)
  | 0 => .error .broken
  | n + 1 =>
    if current ≠ 0 ∧ compare (elements current) (elements (parent current)) < 0 then
      upHeapFrom (exchange elements current (parent current)) (parent current) n
    else .ok elements

/-- The loop of `downHeap` over the first `size` cells. -/
def downHeapFrom (size : Nat) (elements : Nat → E) (current : Nat) : Nat → Except Fault (Nat → E)
  | 0 => .error .broken
  | n + 1 =>
    let child := wrap 32 (2 * current + 1)
    if child < size then
      if child < 0 then .error .broken
      else
        let child := child.toNat
        let child :=
          if child + 1 < size ∧ compare (elements (child + 1)) (elements child) < 0 then child + 1
          else child
        if compare (elements current) (elements child) < 0 then .ok elements
        else downHeapFrom size (exchange elements current child) child n
    else .ok elements

def upHeap (elements : Nat → E) (size : Nat) : Except Fault (Nat → E) :=
  upHeapFrom compare elements (size - 1) size

def downHeap (size : Nat) (elements : Nat → E) (pos : Nat) : Except Fault (Nat → E) :=
  downHeapFrom compare size elements pos (size + 1)

def removeAt (s : PriorityQueue E) (index : Nat) : Except Fault (PriorityQueue E) :=
  if s.size = 0 ∨ s.capacity ≤ index then .error .broken
  else do
    let size := s.size - 1
    let elements := Function.update s.elements index (s.elements size)
    let elements ← downHeap compare size elements index
    return { s with size := size, elements := Function.update elements size default }

def offer (s : PriorityQueue E) (value : E) : Except Fault (PriorityQueue E) := do
  let s ← s.increaseCapacity (wrap 32 (s.size + 1))
  if s.capacity ≤ s.size then .error .broken
  else
    let elements ← upHeap compare (Function.update s.elements s.size value) (s.size + 1)
    return { s with size := s.size + 1, elements := elements }

/-- `poll(result)`, with `none` for `false`. -/
def poll (s : PriorityQueue E) : Except Fault (PriorityQueue E × Option E) :=
  if s.size = 0 then .ok (s, none)
  else do
    let t ← s.removeAt compare 0
    return (t, some (s.elements 0))

def peek (s : PriorityQueue E) : Option E := if s.size = 0 then none else some (s.elements 0)

/-- `remove()`. -/
def removeFirst (s : PriorityQueue E) : Except Fault (PriorityQueue E × E) :=
  if s.size = 0 then .error (.thrown .noSuchElement)
  else do
    let t ← s.removeAt compare 0
    return (t, s.elements 0)

/-- The loop of `remove(value)`, with `n` cells to look at. -/
def targetFrom (s : PriorityQueue E) (value : E) (targetIndex : Nat) : Nat → Nat
  | 0 => targetIndex
  | n + 1 =>
    if compare value (s.elements targetIndex) = 0 then targetIndex
    else s.targetFrom value (targetIndex + 1) n

def target (s : PriorityQueue E) (value : E) : Nat := s.targetFrom compare value 0 s.size

def remove (s : PriorityQueue E) (value : E) : Except Fault (PriorityQueue E × Bool) :=
  let targetIndex := s.target compare value
  if s.size = 0 ∨ s.size = targetIndex then .ok (s, false)
  else do
    let t ← s.removeAt compare targetIndex
    return (t, true)

end Heap

/-! ## The iterator -/

def iterator : PriorityQueueIterator := ⟨0, false⟩

def hasNext (s : PriorityQueue E) (iter : PriorityQueueIterator) : Bool := iter.position < s.size

def next (s : PriorityQueue E) (iter : PriorityQueueIterator) :
    Except Fault (PriorityQueueIterator × E) :=
  if s.hasNext iter then .ok (⟨iter.position + 1, true⟩, s.elements iter.position)
  else .error (.thrown .noSuchElement)

/-- `remove`, which gives `position` to `removeAt` before it counts it down. -/
def iterRemove (compare : E → E → Int) (s : PriorityQueue E) (iter : PriorityQueueIterator) :
    Except Fault (PriorityQueue E × PriorityQueueIterator) :=
  if iter.allowRemove = false then .error (.thrown .illegalState)
  else do
    let t ← s.removeAt compare iter.position
    return (t, ⟨iter.position - 1, false⟩)

/-- All that an iterator gives. -/
def traverse (s : PriorityQueue E) (iter : PriorityQueueIterator) : Nat → Except Fault (List E)
  | 0 => .error .broken
  | n + 1 =>
    if s.hasNext iter then do
      let (iter, e) ← s.next iter
      let rest ← s.traverse iter n
      return e :: rest
    else .ok []

end PriorityQueue

end ActivemqCpp.Decaf
