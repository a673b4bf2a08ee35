import ActivemqCpp.Base.DoublyLinked
import ActivemqCpp.Decaf.ArrayList
import ActivemqCpp.Decaf.Numbers

/-!
# `decaf::util::LinkedList`

A doubly linked list between two sentinel nodes that are part of the list object. Nodes
have addresses (`Ref`); `live` tells which of them exist, so that reading through a null
pointer or through a pointer to a deleted node is `broken`, as is a loop over links that
does not get to its end.

`listSize` and `modCount` are `int`s. An iterator knows the `modCount` it last agreed with;
the iterators of a constant list do not compare it and do not change the list (`isConst`).

Every operation tests what it has to before it changes anything, so one that throws leaves
the list as it was.
-/

namespace ActivemqCpp.Decaf

open Base

/-- A `ListNode*`. -/
inductive Ref
  | null
  | head
  | tail
  | node (n : Nat)
deriving DecidableEq

structure LinkedList (E : Type) where
  links : Links Ref
  value : Ref → E
  live : Ref → Bool
  /-- The address that the next new node gets. -/
  fresh : Nat
  listSize : Int
  modCount : Int

/-- `LinkedListIterator`, or `ConstLinkedListIterator`. -/
structure LinkedListIterator where
  current : Ref
  lastReturned : Ref
  index : Int
  expectedModCount : Int
  isConst : Bool
deriving DecidableEq

/-- `ReverseIterator`, or `ConstReverseIterator`. -/
structure ReverseIterator where
  current : Ref
  expectedModCount : Int
  canRemove : Bool
  isConst : Bool
deriving DecidableEq

namespace LinkedList

variable {E : Type}

/-- `LinkedList()`. -/
def new [Inhabited E] : LinkedList E where
  links :=
    { next := fun r => if r = .head then .tail else .null
      prev := fun r => if r = .tail then .head else .null }
  value := fun _ => default
  live := fun r => r = .head ∨ r = .tail
  fresh := 0
  listSize := 0
  modCount := 0

/-! ## Nodes -/

/-- Something read from a node. -/
def read {α : Type} (s : LinkedList E) (r : Ref) (field : α) : Except Fault α :=
  if s.live r then .ok field else .error .broken

def nextOf (s : LinkedList E) (r : Ref) : Except Fault Ref := s.read r (s.links.next r)

def prevOf (s : LinkedList E) (r : Ref) : Except Fault Ref := s.read r (s.links.prev r)

def valueOf (s : LinkedList E) (r : Ref) : Except Fault E := s.read r (s.value r)

/-- `new ListNode(p, n, value)`, then the links of `p` and `n` to it. -/
def insertBetween (s : LinkedList E) (p n : Ref) (value : E) : Except Fault (LinkedList E × Ref) :=
  let r := Ref.node s.fresh
  if s.live p ∧ s.live n then
    .ok ({ s with
      links := s.links.link p r n
      value := Function.update s.value r value
      live := Function.update s.live r true
      fresh := s.fresh + 1 }, r)
  else .error .broken

/-- The links of `p` and `n` past `r`, then `delete r`. -/
def removeBetween (s : LinkedList E) (p r n : Ref) : Except Fault (LinkedList E) :=
  if s.live p ∧ s.live r ∧ s.live n ∧ r ≠ .head ∧ r ≠ .tail then
    .ok { s with links := s.links.unlink p n, live := Function.update s.live r false }
  else .error .broken

/-- `listSize += amount` and `modCount++`. -/
def modified (s : LinkedList E) (amount : Int) : LinkedList E :=
  { s with listSize := wrap 32 (s.listSize + amount), modCount := wrap 32 (s.modCount + 1) }

def walkNext (s : LinkedList E) : Nat → Ref → Except Fault Ref
  | 0, r => .ok r
  | n + 1, r => do
    let r ← s.nextOf r
    s.walkNext n r

def walkPrev (s : LinkedList E) : Nat → Ref → Except Fault Ref
  | 0, r => .ok r
  | n + 1, r => do
    let r ← s.prevOf r
    s.walkPrev n r

/-- Rounds after which a loop over the nodes has seen all of them. -/
def rounds (s : LinkedList E) : Nat := s.fresh + 1

/-! ## The core -/

def addToFront (s : LinkedList E) (value : E) : Except Fault (LinkedList E) := do
  let first ← s.nextOf .head
  let (s, _) ← s.insertBetween .head first value
  return s.modified 1

def addToEnd (s : LinkedList E) (value : E) : Except Fault (LinkedList E) := do
  let last ← s.prevOf .tail
  let (s, _) ← s.insertBetween last .tail value
  return s.modified 1

def removeAtFront (s : LinkedList E) : Except Fault (LinkedList E × E) := do
  let oldNode ← s.nextOf .head
  if oldNode = .tail then .error (.thrown .noSuchElement)
  else
    let result ← s.valueOf oldNode
    let next ← s.nextOf oldNode
    let s ← s.removeBetween .head oldNode next
    return (s.modified (-1), result)

def removeAtEnd (s : LinkedList E) : Except Fault (LinkedList E × E) := do
  let first ← s.nextOf .head
  if first = .tail then .error (.thrown .noSuchElement)
  else
    let oldNode ← s.prevOf .tail
    let result ← s.valueOf oldNode
    let prev ← s.prevOf oldNode
    let s ← s.removeBetween prev oldNode .tail
    return (s.modified (-1), result)

def addAtLocation (s : LinkedList E) (index : Int) (value : E) : Except Fault (LinkedList E) := do
  let location ←
    (if index ≤ s.listSize.tdiv 2 then do
      let first ← s.nextOf .head
      s.walkNext index.toNat first
    else s.walkPrev (s.listSize - index).toNat .tail)
  let prev ← s.prevOf location
  let (s, _) ← s.insertBetween prev location value
  return s.modified 1

/-- The loop of `addAllAtLocation`. -/
def insertAll (s : LinkedList E) (previous : Ref) : List E → Except Fault (LinkedList E)
  | [] => .ok s
  | value :: values => do
    let next ← s.nextOf previous
    let (s, newNode) ← s.insertBetween previous next value
    s.insertAll newNode values

/-- `addAllAtLocation` with the elements that the iterator of the collection gives. -/
def addAllAtLocation (s : LinkedList E) (index : Int) (values : List E) :
    Except Fault (LinkedList E × Bool) :=
  if index < 0 ∨ s.listSize < index then .error (.thrown .indexOutOfBounds)
  else if values = [] then .ok (s, false)
  else do
    let previous ←
      (if index < s.listSize.tdiv 2 then s.walkNext index.toNat .head
      else s.walkPrev (s.listSize - index + 1).toNat .tail)
    let s ← s.insertAll previous values
    return (s.modified values.length, true)

/-- `purgeList`. -/
def purgeList (s : LinkedList E) (current : Ref) : Nat → Except Fault (LinkedList E)
  | 0 => .error .broken
  | n + 1 =>
    if current = .tail then .ok s
    else do
      let next ← s.nextOf current
      { s with live := Function.update s.live current false }.purgeList next n

def clear (s : LinkedList E) : Except Fault (LinkedList E) := do
  let first ← s.nextOf .head
  let s ← s.purgeList first s.rounds
  return { s with
    links := s.links.unlink .head .tail
    listSize := 0
    modCount := wrap 32 (s.modCount + 1) }

/-! ## Iterators -/

/-- `listIterator(index)`. -/
def listIterator (s : LinkedList E) (index : Int) (isConst : Bool) :
    Except Fault LinkedListIterator :=
  if index < 0 ∨ s.listSize < index then .error (.thrown .indexOutOfBounds)
  else do
    let current ←
      (if index < s.listSize.tdiv 2 then s.walkNext index.toNat .head
      else s.walkPrev (s.listSize - index + 1).toNat .tail)
    return ⟨current, .null, index - 1, s.modCount, isConst⟩

/-- The test for a list that was modified behind the iterator. -/
def stale (s : LinkedList E) (expectedModCount : Int) (isConst : Bool) : Bool :=
  !isConst && expectedModCount != s.modCount

section ListIterator

variable (s : LinkedList E) (iter : LinkedListIterator)

def hasNext : Except Fault Bool := do
  let next ← s.nextOf iter.current
  return next != .tail

def next : Except Fault (LinkedListIterator × E) :=
  if s.stale iter.expectedModCount iter.isConst then .error (.thrown .concurrentModification)
  else do
    let next ← s.nextOf iter.current
    if next = .tail then .error (.thrown .noSuchElement)
    else
      let value ← s.valueOf next
      return ({ iter with current := next, lastReturned := next, index := iter.index + 1 }, value)

def hasPrevious : Bool := iter.current != .head

def previous : Except Fault (LinkedListIterator × E) :=
  if s.stale iter.expectedModCount iter.isConst then .error (.thrown .concurrentModification)
  else if iter.current = .head then .error (.thrown .illegalState)
  else do
    let prev ← s.prevOf iter.current
    let value ← s.valueOf iter.current
    return ({ iter with current := prev, lastReturned := iter.current, index := iter.index - 1 },
      value)

def remove : Except Fault (LinkedList E × LinkedListIterator) :=
  if iter.isConst then .error (.thrown .unsupportedOperation)
  else if s.stale iter.expectedModCount iter.isConst then
    .error (.thrown .concurrentModification)
  else if iter.lastReturned = .null then .error (.thrown .illegalState)
  else do
    let next ← s.nextOf iter.lastReturned
    let previous ← s.prevOf iter.lastReturned
    let s ← s.removeBetween previous iter.lastReturned next
    return (s.modified (-1),
      { iter with
        current := previous
        lastReturned := .null
        index := if iter.current = iter.lastReturned then iter.index - 1 else iter.index
        expectedModCount := wrap 32 (iter.expectedModCount + 1) })

def add (e : E) : Except Fault (LinkedList E × LinkedListIterator) :=
  if iter.isConst then .error (.thrown .unsupportedOperation)
  else if s.stale iter.expectedModCount iter.isConst then
    .error (.thrown .concurrentModification)
  else do
    let next ← s.nextOf iter.current
    let (s, newNode) ← s.insertBetween iter.current next e
    return (s.modified 1,
      { iter with
        current := newNode
        lastReturned := .null
        index := iter.index + 1
        expectedModCount := wrap 32 (iter.expectedModCount + 1) })

def set (e : E) : Except Fault (LinkedList E) :=
  if iter.isConst then .error (.thrown .unsupportedOperation)
  else if s.stale iter.expectedModCount iter.isConst then
    .error (.thrown .concurrentModification)
  else if iter.lastReturned = .null then .error (.thrown .illegalState)
  else if s.live iter.lastReturned then
    .ok { s with value := Function.update s.value iter.lastReturned e }
  else .error .broken

/-- `nextIndex`; `previousIndex` is one less. -/
def nextIndex : Int := iter.index + 1

def previousIndex : Int := iter.index

end ListIterator

/-- `descendingIterator()`. -/
def descendingIterator (s : LinkedList E) (isConst : Bool) : ReverseIterator :=
  ⟨.tail, s.modCount, false, isConst⟩

section Descending

variable (s : LinkedList E) (iter : ReverseIterator)

def reverseHasNext : Except Fault Bool := do
  let prev ← s.prevOf iter.current
  return prev != .head

def reverseNext : Except Fault (ReverseIterator × E) :=
  if s.stale iter.expectedModCount iter.isConst then .error (.thrown .concurrentModification)
  else do
    let prev ← s.prevOf iter.current
    if prev = .head then .error (.thrown .noSuchElement)
    else
      let value ← s.valueOf prev
      return ({ iter with current := prev, canRemove := true }, value)

def reverseRemove : Except Fault (LinkedList E × ReverseIterator) :=
  if iter.isConst then .error (.thrown .unsupportedOperation)
  else if s.stale iter.expectedModCount iter.isConst then
    .error (.thrown .concurrentModification)
  else if iter.canRemove = false then .error (.thrown .illegalState)
  else do
    let next ← s.prevOf iter.current
    let prev ← s.nextOf iter.current
    let s ← s.removeBetween next iter.current prev
    return (s.modified (-1),
      { iter with
        current := prev
        expectedModCount := wrap 32 (iter.expectedModCount + 1)
        canRemove := false })

end Descending

/-! ## Loops over iterators -/

/-- All that an iterator has in front of it. -/
def forward (s : LinkedList E) (iter : LinkedListIterator) : Nat → Except Fault (List E)
  | 0 => .error .broken
  | n + 1 => do
    let more ← s.hasNext iter
    if more then
      let (iter, e) ← s.next iter
      let rest ← s.forward iter n
      return e :: rest
    else return []

/-- All that an iterator has behind it. -/
def backward (s : LinkedList E) (iter : LinkedListIterator) : Nat → Except Fault (List E)
  | 0 => .error .broken
  | n + 1 =>
    if hasPrevious iter then do
      let (iter, e) ← s.previous iter
      let rest ← s.backward iter n
      return e :: rest
    else .ok []

/-- All that a descending iterator has in front of it. -/
def descend (s : LinkedList E) (iter : ReverseIterator) : Nat → Except Fault (List E)
  | 0 => .error .broken
  | n + 1 => do
    let more ← s.reverseHasNext iter
    if more then
      let (iter, e) ← s.reverseNext iter
      let rest ← s.descend iter n
      return e :: rest
    else return []

variable [DecidableEq E]

/-- The loop of `removeFirstOccurrence`. -/
def removeNext (s : LinkedList E) (value : E) (iter : LinkedListIterator) :
    Nat → Except Fault (LinkedList E × Bool)
  | 0 => .error .broken
  | n + 1 => do
    let more ← s.hasNext iter
    if more then
      let (iter, e) ← s.next iter
      if e = value then
        let (s, _) ← s.remove iter
        return (s, true)
      else s.removeNext value iter n
    else return (s, false)

/-- The loop of `removeLastOccurrence`. -/
def removeNextBelow (s : LinkedList E) (value : E) (iter : ReverseIterator) :
    Nat → Except Fault (LinkedList E × Bool)
  | 0 => .error .broken
  | n + 1 => do
    let more ← s.reverseHasNext iter
    if more then
      let (iter, e) ← s.reverseNext iter
      if e = value then
        let (s, _) ← s.reverseRemove iter
        return (s, true)
      else s.removeNextBelow value iter n
    else return (s, false)

/-- The loop of `AbstractCollection::removeAll` and `retainAll`: what `drops` goes. -/
def removeWhere (s : LinkedList E) (drops : E → Bool) (iter : LinkedListIterator)
    (result : Bool) : Nat → Except Fault (LinkedList E × Bool)
  | 0 => .error .broken
  | n + 1 => do
    let more ← s.hasNext iter
    if more then
      let (iter, e) ← s.next iter
      if drops e then
        let (s, iter) ← s.remove iter
        s.removeWhere drops iter true n
      else s.removeWhere drops iter result n
    else return (s, result)

/-- The loop of `indexOf`. -/
def indexFrom (s : LinkedList E) (value : E) (location : Ref) (i : Int) : Nat → Except Fault Int
  | 0 => .error .broken
  | n + 1 =>
    if location = .tail then .ok (-1)
    else do
      let e ← s.valueOf location
      if e = value then return i
      else
        let next ← s.nextOf location
        s.indexFrom value next (i + 1) n

/-- The loop of `lastIndexOf`. -/
def indexBelow (s : LinkedList E) (value : E) (location : Ref) (i : Int) : Nat → Except Fault Int
  | 0 => .error .broken
  | n + 1 =>
    if location = .head then .ok (-1)
    else do
      let e ← s.valueOf location
      if e = value then return i
      else
        let prev ← s.prevOf location
        s.indexBelow value prev (i - 1) n

/-- The loop of `toArray`. -/
def valuesFrom (s : LinkedList E) (current : Ref) : Nat → Except Fault (List E)
  | 0 => .error .broken
  | n + 1 =>
    if current = .tail then .ok []
    else do
      let value ← s.valueOf current
      let next ← s.nextOf current
      let rest ← s.valuesFrom next n
      return value :: rest

/-! ## List operations -/

/-- The node of an index, from the nearer end. -/
def location (s : LinkedList E) (index : Int) : Except Fault Ref :=
  if index < 0 ∨ s.listSize ≤ index then .error (.thrown .indexOutOfBounds)
  else if index < s.listSize.tdiv 2 then s.walkNext (index + 1).toNat .head
  else s.walkPrev (s.listSize - index).toNat .tail

def getAt (s : LinkedList E) (index : Int) : Except Fault E := do
  let location ← s.location index
  s.valueOf location

def setAt (s : LinkedList E) (index : Int) (element : E) : Except Fault (LinkedList E × E) := do
  let location ← s.location index
  let oldValue ← s.valueOf location
  return ({ s with value := Function.update s.value location element }, oldValue)

def addAt (s : LinkedList E) (index : Int) (value : E) : Except Fault (LinkedList E) :=
  if index < 0 ∨ s.listSize < index then .error (.thrown .indexOutOfBounds)
  else s.addAtLocation index value

/-- `addAll(index, *this)`: the elements are copied to an `ArrayList` first. -/
def addAllSelf [Inhabited E] (s : LinkedList E) (index : Int) : Except Fault (LinkedList E × Bool) :=
  if index < 0 ∨ s.listSize < index then .error (.thrown .indexOutOfBounds)
  else if s.listSize = 0 then .ok (s, false)
  else do
    let iter ← s.listIterator 0 true
    let values ← s.forward iter s.rounds
    let copy ← ArrayList.ofCollection values
    let values ← copy.iterate
    s.addAllAtLocation index values

/-- `copy`, of another collection. -/
def copy (s : LinkedList E) (values : List E) : Except Fault (LinkedList E) := do
  let s ← s.clear
  let (s, _) ← s.addAllAtLocation 0 values
  return s

/-- `copy(*this)`, or the assignment of the list to itself. -/
def copySelf [Inhabited E] (s : LinkedList E) : Except Fault (LinkedList E) := do
  let s ← s.clear
  let (s, _) ← s.addAllSelf 0
  return s

def indexOf (s : LinkedList E) (value : E) : Except Fault Int :=
  if s.listSize = 0 then .ok (-1)
  else do
    let first ← s.nextOf .head
    s.indexFrom value first 0 s.rounds

def lastIndexOf (s : LinkedList E) (value : E) : Except Fault Int :=
  if s.listSize = 0 then .ok (-1)
  else do
    let last ← s.prevOf .tail
    s.indexBelow value last (s.listSize - 1) s.rounds

def contains (s : LinkedList E) (value : E) : Except Fault Bool := do
  let index ← s.indexOf value
  return index != -1

def toArray (s : LinkedList E) : Except Fault (List E) := do
  let first ← s.nextOf .head
  s.valuesFrom first s.rounds

/-- `AbstractSequentialList::removeAt`. -/
def removeAt (s : LinkedList E) (index : Int) : Except Fault (LinkedList E × E) := do
  let iter ← s.listIterator index false
  match s.next iter with
  | .error (.thrown .noSuchElement) => .error (.thrown .indexOutOfBounds)
  | .error fault => .error fault
  | .ok (iter, result) =>
    let (s, _) ← s.remove iter
    return (s, result)

def removeFirstOccurrence (s : LinkedList E) (value : E) : Except Fault (LinkedList E × Bool) := do
  let iter ← s.listIterator 0 false
  s.removeNext value iter s.rounds

def removeLastOccurrence (s : LinkedList E) (value : E) : Except Fault (LinkedList E × Bool) :=
  s.removeNextBelow value (s.descendingIterator false) s.rounds

def removeAll (s : LinkedList E) (collection : List E) : Except Fault (LinkedList E × Bool) := do
  let iter ← s.listIterator 0 false
  s.removeWhere (fun e => collection.contains e) iter false s.rounds

def retainAll (s : LinkedList E) (collection : List E) : Except Fault (LinkedList E × Bool) := do
  let iter ← s.listIterator 0 false
  s.removeWhere (fun e => !collection.contains e) iter false s.rounds

/-! ## Deque operations -/

/-- `peek` and `peekFirst`, with `none` for `false`. -/
def peekFirst (s : LinkedList E) : Except Fault (Option E) :=
  if s.listSize = 0 then .ok none
  else do
    let first ← s.nextOf .head
    let value ← s.valueOf first
    return some value

def peekLast (s : LinkedList E) : Except Fault (Option E) :=
  if s.listSize = 0 then .ok none
  else do
    let last ← s.prevOf .tail
    let value ← s.valueOf last
    return some value

/-- `element` and `getFirst`. -/
def getFirst (s : LinkedList E) : Except Fault E :=
  if s.listSize = 0 then .error (.thrown .noSuchElement)
  else do
    let first ← s.nextOf .head
    s.valueOf first

def getLast (s : LinkedList E) : Except Fault E :=
  if s.listSize = 0 then .error (.thrown .noSuchElement)
  else do
    let last ← s.prevOf .tail
    s.valueOf last

/-- `poll` and `pollFirst`. -/
def pollFirst (s : LinkedList E) : Except Fault (LinkedList E × Option E) :=
  if s.listSize = 0 then .ok (s, none)
  else do
    let first ← s.nextOf .head
    let result ← s.valueOf first
    let (s, _) ← s.removeAtFront
    return (s, some result)

def pollLast (s : LinkedList E) : Except Fault (LinkedList E × Option E) :=
  if s.listSize = 0 then .ok (s, none)
  else do
    let last ← s.prevOf .tail
    let result ← s.valueOf last
    let (s, _) ← s.removeAtEnd
    return (s, some result)

end LinkedList

end ActivemqCpp.Decaf
