import ActivemqCpp.Base.ArrayCopy
import ActivemqCpp.Base.Machine
import ActivemqCpp.Decaf.Lang

/-!
# `decaf::util::ArrayList`

A list in one array with spare cells. `elements` are the cells, so its length is the
capacity of the source; `head` is set by the constructors that copy a collection.

`System::arraycopy` is overloaded: the overloads for `char`, `unsigned char`, `short`,
`int`, `long long`, `float` and `double` move overlapping ranges correctly, the template
for all other types copies in ascending order. `moves` tells which of the two the element
type has.

A call can fail in two ways. It throws and leaves the list as it was, or it breaks the
list: it reads cells outside the array, or asks for an array of 2^31 cells or more after
the capacity has been changed.
-/

namespace ActivemqCpp.Decaf

open Base

inductive Fault
  | thrown (e : Exn)
  | broken
deriving DecidableEq

structure ArrayList (E : Type) where
  elements : List E
  head : Nat
  curSize : Nat
  modCount : Nat
deriving DecidableEq

/-- `AbstractList::SimpleListIterator`, as a reader. -/
structure ListIterator where
  numLeft : Int
  expectedModCount : Nat

namespace ArrayList

variable {E : Type}

def capacity (s : ArrayList E) : Nat := s.elements.length

/-- `get`. -/
def get (s : ArrayList E) (index : Int) : Except Fault E :=
  if index < 0 ∨ s.curSize ≤ index then .error (.thrown .indexOutOfBounds)
  else
    match s.elements[index.toNat]? with
    | some e => .ok e
    | none => .error .broken

def isEmpty (s : ArrayList E) : Bool := s.curSize = 0

def size (s : ArrayList E) : Nat := s.curSize

def toArray (s : ArrayList E) : List E := s.elements.take s.curSize

/-! ## Iteration -/

def iterator (s : ArrayList E) : ListIterator := ⟨s.curSize, s.modCount⟩

def next (s : ArrayList E) (iter : ListIterator) : Except Fault (E × ListIterator) :=
  if iter.expectedModCount ≠ s.modCount then .error (.thrown .concurrentModification)
  else
    match s.get (s.curSize - iter.numLeft) with
    | .ok e => .ok (e, { iter with numLeft := iter.numLeft - 1 })
    | .error (.thrown _) => .error (.thrown .noSuchElement)
    | .error .broken => .error .broken

/-- The loop over an iterator that has at most `n` elements left. -/
def drain (s : ArrayList E) (iter : ListIterator) : Nat → Except Fault (List E)
  | 0 => .ok []
  | n + 1 =>
    if 0 < iter.numLeft then do
      let (e, iter) ← s.next iter
      let rest ← s.drain iter n
      return e :: rest
    else .ok []

/-- All elements that a new iterator yields. -/
def iterate (s : ArrayList E) : Except Fault (List E) := s.drain s.iterator s.curSize

/-! ## The array -/

/-- An array of default values; an `int` cannot count 2^31 cells. -/
def newArray [Inhabited E] (n : Nat) : Except Fault (List E) :=
  if n < 2 ^ 31 then .ok (List.replicate n default) else .error .broken

/-- `arraycopy` from one array to another. -/
def arraycopy (src : List E) (srcPos : Nat) (dest : List E) (destPos length : Nat) :
    Except Fault (List E) :=
  if srcPos + length ≤ src.length ∧ destPos + length ≤ dest.length then
    .ok (store dest destPos ((src.drop srcPos).take length))
  else .error .broken

/-- `arraycopy` within one array: `memmove`, or the loop of the template. -/
def arraycopyWithin (moves : Bool) (a : List E) (srcPos destPos length : Nat) :
    Except Fault (List E) :=
  if srcPos + length ≤ a.length ∧ destPos + length ≤ a.length then
    .ok (if moves then store a destPos ((a.drop srcPos).take length)
      else copyLoop a srcPos destPos length)
  else .error .broken

/-! ## Constructors -/

variable [Inhabited E]

def ensureCapacity (s : ArrayList E) (minimumCapacity : Int) : Except Fault (ArrayList E) :=
  if minimumCapacity < 0 ∨ minimumCapacity ≤ s.capacity then .ok s
  else do
    let newCapacity := if minimumCapacity = 0 then 10 else minimumCapacity.toNat
    let newElements ← newArray newCapacity
    let newElements ←
      (if 0 < s.curSize then arraycopy s.elements s.head newElements 0 s.curSize
      else .ok newElements)
    return { s with elements := newElements, modCount := s.modCount + 1 }

/-- `ArrayList()`. -/
def new : Except Fault (ArrayList E) := ensureCapacity ⟨[], 0, 0, 0⟩ 10

/-- `ArrayList(initialCapacity)`. -/
def ofCapacity (initialCapacity : Int) : Except Fault (ArrayList E) :=
  if initialCapacity < 0 then .error (.thrown .illegalArgument)
  else do
    let elements ← newArray initialCapacity.toNat
    return ⟨elements, 0, 0, 0⟩

/-- `ArrayList(collection)`: the cells are filled through `head`. -/
def ofCollection (collection : List E) : Except Fault (ArrayList E) := do
  let elements ← newArray (collection.length + collection.length / 10)
  return ⟨store elements 0 collection, collection.length, collection.length, 0⟩

/-- The copy constructor. -/
def copy (other : ArrayList E) : Except Fault (ArrayList E) := do
  let collection ← other.iterate
  ofCollection collection

/-! ## Changes -/

def trimToSize (s : ArrayList E) : Except Fault (ArrayList E) :=
  if s.curSize < s.capacity then do
    let newCapacity := if s.curSize = 0 then 10 else s.curSize
    let newElements ← newArray newCapacity
    let newElements ←
      (if 0 < s.curSize then arraycopy s.elements 0 newElements 0 s.curSize
      else .ok newElements)
    return { s with elements := newElements, modCount := s.modCount + 1 }
  else .ok { s with modCount := s.modCount + 1 }

def clear (s : ArrayList E) : Except Fault (ArrayList E) :=
  if 0 < s.curSize then do
    let elements ← newArray 10
    return { s with elements, curSize := 0, modCount := s.modCount + 1 }
  else s.ensureCapacity 10

/-- `set`, with the old value. -/
def set (s : ArrayList E) (index : Int) (element : E) : Except Fault (ArrayList E × E) := do
  let oldValue ← s.get index
  return ({ s with elements := s.elements.set index.toNat element }, oldValue)

/-- There are fewer than `amount` spare cells. -/
def Short (s : ArrayList E) (amount : Nat) : Prop := s.capacity < s.curSize + amount

instance (s : ArrayList E) (amount : Nat) : Decidable (s.Short amount) :=
  inferInstanceAs (Decidable (_ < _))

def expandFront (moves : Bool) (s : ArrayList E) (amount : Nat) : Except Fault (ArrayList E) :=
  if amount = 0 then .ok s
  else if s.Short amount then do
    let elements ← newArray (s.capacity + amount + 11)
    let elements ←
      (if 0 < s.curSize then arraycopy s.elements 0 elements amount s.curSize else .ok elements)
    return { s with elements }
  else do
    let elements ←
      (if 0 < s.curSize then arraycopyWithin moves s.elements 0 amount s.curSize
      else .ok s.elements)
    return { s with elements }

def expandEnd (s : ArrayList E) (amount : Nat) : Except Fault (ArrayList E) :=
  if amount = 0 then .ok s
  else if s.Short amount then do
    let elements ← newArray (s.capacity + amount + 11)
    let elements ← arraycopy s.elements 0 elements 0 s.curSize
    return { s with elements }
  else .ok s

def expandMiddle (moves : Bool) (s : ArrayList E) (index amount : Nat) :
    Except Fault (ArrayList E) :=
  if amount = 0 then .ok s
  else if s.Short amount then do
    let elements ← newArray (s.capacity + amount + 11)
    let elements ←
      (if 0 < s.curSize then arraycopy s.elements 0 elements 0 index else .ok elements)
    let elements ←
      (if index < s.curSize then
        arraycopy s.elements index elements (index + amount) (s.curSize - index)
      else .ok elements)
    return { s with elements }
  else do
    let elements ←
      (if 0 < s.curSize then arraycopyWithin moves s.elements 0 0 index else .ok s.elements)
    let elements ←
      (if index < s.curSize then
        arraycopyWithin moves elements index (index + amount) (s.curSize - index)
      else .ok elements)
    return { s with elements }

/-- The choice that `add` and `addAll` at an index make. -/
def expand (moves : Bool) (s : ArrayList E) (index amount : Nat) : Except Fault (ArrayList E) :=
  if index = 0 then s.expandFront moves amount
  else if index = s.curSize then s.expandEnd amount
  else s.expandMiddle moves index amount

/-- New elements are written into the cells that were made free for them. -/
def write (s : ArrayList E) (index : Nat) (values : List E) : Except Fault (ArrayList E) :=
  if index + values.length ≤ s.capacity then
    .ok { s with
      elements := store s.elements index values
      curSize := s.curSize + values.length
      modCount := s.modCount + 1 }
  else .error .broken

def add (s : ArrayList E) (value : E) : Except Fault (ArrayList E) := do
  let t ← s.expandEnd 1
  t.write t.curSize [value]

def addAt (moves : Bool) (s : ArrayList E) (index : Int) (element : E) :
    Except Fault (ArrayList E) :=
  if index < 0 ∨ s.curSize < index then .error (.thrown .indexOutOfBounds)
  else do
    let t ← s.expand moves index.toNat 1
    t.write index.toNat [element]

/-- `addAll`; the collection was copied by `toArray`. -/
def addAll (s : ArrayList E) (collection : List E) : Except Fault (ArrayList E × Bool) :=
  if collection.isEmpty then .ok (s, false)
  else do
    let t ← s.expandEnd collection.length
    let t ← t.write t.curSize collection
    return (t, true)

def addAllAt (moves : Bool) (s : ArrayList E) (index : Int) (collection : List E) :
    Except Fault (ArrayList E × Bool) :=
  if index < 0 ∨ s.curSize < index then .error (.thrown .indexOutOfBounds)
  else if collection.isEmpty then .ok (s, false)
  else do
    let t ← s.expand moves index.toNat collection.length
    let t ← t.write index.toNat collection
    return (t, true)

def removeAt (moves : Bool) (s : ArrayList E) (index : Int) : Except Fault (ArrayList E × E) := do
  let old ← s.get index
  let elements ← arraycopyWithin moves s.elements 0 0 index.toNat
  let elements ←
    arraycopyWithin moves elements (index.toNat + 1) index.toNat (s.curSize - index.toNat - 1)
  return ({ s with
    elements := elements.set (s.curSize - 1) default
    curSize := s.curSize - 1
    modCount := s.modCount + 1 }, old)

/-! ## Searches -/

variable [DecidableEq E]

/-- The loop of `indexOf` from `i` on. -/
def indexOfFrom (s : ArrayList E) (value : E) (i : Nat) : Nat → Int
  | 0 => -1
  | n + 1 => if s.elements[i]? = some value then i else s.indexOfFrom value (i + 1) n

def indexOf (s : ArrayList E) (value : E) : Int := s.indexOfFrom value 0 s.curSize

def contains (s : ArrayList E) (value : E) : Bool := s.indexOf value ≠ -1

def remove (moves : Bool) (s : ArrayList E) (value : E) : Except Fault (ArrayList E × Bool) :=
  if s.indexOf value ≠ -1 then do
    let (t, _) ← s.removeAt moves (s.indexOf value)
    return (t, true)
  else .ok (s, false)

end ArrayList

end ActivemqCpp.Decaf
