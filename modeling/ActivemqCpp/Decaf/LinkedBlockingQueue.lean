import ActivemqCpp.Base.Machine
import ActivemqCpp.Base.ReentrantLock

/-!
# The blocking queue (`decaf::util::concurrent::LinkedBlockingQueue`)

A chain of nodes behind a dummy head, an atomic counter, and two locks: `putLock` for the
end of the chain, `takeLock` for its front. Any number of threads call operations; the
steps of the calls interleave freely. One step of a call is one access to the counter, one
lock operation, or what is done to the chain between two of them; which of the open
choices comes about (an interrupt, how long a wait lasted, an exception from copying an
element or from the sink of `drainTo`) is the argument of the step.

`Turn` is what one step does: to the chain and the counter, which elements it links and
which it stores in the caller's result or sink, and its `Move`, the lock operation with
the place where the call goes on. `perform` carries out the move and is the only part that
touches the locks.

The operations that use `TotalLock` (`remove`, `clear`, `toArray` and the iterators) take
both locks in the constructor of a local object and release them in its destructor.
`signalNotFull`, which `unlink` calls while both locks are held, takes `putLock` once more
and gives it back. The condition variables are not modelled: a thread that waits may go on
whenever it can have the lock again, so every schedule of the code is among the runs here.

Waiting and the time a wait leaves are as in `Condition`: `await` gives back all holds of
the lock and takes as many again before it returns or throws.
-/

namespace ActivemqCpp.Decaf.LinkedBlockingQueue

open Base (Machine ReentrantLock)

/-! ## The chain -/

/-- The nodes behind `head` (`none` when `head` is null), and how many of them lie up to
`tail`: all, except after `clear`, which leaves the first old node behind a `tail` that is
`head` again. -/
structure Chain (E : Type) where
  head : Option (List E)
  tail : Nat
deriving DecidableEq

namespace Chain

variable {E : Type}

/-- `enqueue`: the new node is hung behind `tail`. -/
def enqueue (k : Chain E) (value : E) : Chain E :=
  { head := k.head.map fun nodes => nodes.take k.tail ++ [value], tail := k.tail + 1 }

/-- `dequeue` up to the copy of the value: `head` moves first. Without a next node the new
`head` is null and its use throws. -/
def dequeue (k : Chain E) : Chain E × Option E :=
  match k.head with
  | none => (k, none)
  | some [] => ({ k with head := none }, none)
  | some (value :: rest) => ({ head := some rest, tail := k.tail - 1 }, some value)

end Chain

/-! ## Calls and their steps -/

/-- The two ends of the queue, each with its lock. -/
inductive Side
  | putting
  | taking
deriving DecidableEq

def Side.other : Side → Side
  | .putting => .taking
  | .taking => .putting

/-- The operations. A timed operation has its time in nanoseconds; `drainTo` whether its
sink is the queue itself. `read` stands for `toArray`, `iterator` and an iterator's `next`,
`unlink` for an iterator's `remove` of the node at a position of the chain (past its end
if the node is gone). -/
inductive Op (E : Type)
  | put (value : E)
  | offerTimed (value : E) (nanos : Int)
  | offer (value : E)
  | take
  | pollTimed (nanos : Int)
  | poll
  | peek
  | drainTo (maxElements : Int) (toSelf : Bool)
  | remove (value : E)
  | clear
  | read
  | unlink (i : Nat)
deriving DecidableEq

namespace Op

variable {E : Type}

/-- The side whose lock the operation takes by hand. -/
def side : Op E → Side
  | put _ | offerTimed _ _ | offer _ => .putting
  | _ => .taking

/-- The lock is taken with `lockInterruptibly`. -/
def interruptible : Op E → Bool
  | put _ | offerTimed _ _ | offer _ | take | pollTimed _ => true
  | _ => false

def nanos : Op E → Int
  | offerTimed _ nanos | pollTimed nanos => nanos
  | _ => 0

end Op

/-- How a call ends: it returns (`void` and elements count as `true`), it returns a number
of elements, or it throws, a `decaf::lang::Exception` or something else. -/
inductive Result
  | returned (ok : Bool)
  | counted (n : Int)
  | threw (decaf : Bool)
deriving DecidableEq

/-- Where a call is. -/
inductive Phase
  /-- At the test before any lock is taken. -/
  | looking
  | locking
  /-- At the test under the lock, with the time left. -/
  | guarding (nanos : Int)
  /-- In `await`, with the holds to take again. -/
  | waiting (saved : Nat)
  /-- At `enqueue` or `dequeue`. -/
  | acting
  /-- At the change of the counter. -/
  | counting
  /-- In the loop of `drainTo`, with the number of elements to move. -/
  | draining (result : Int)
  /-- At `unlock`, then to wake the other side or to end. -/
  | unlocking (wake : Bool) (result : Result)
  | signalling (result : Result)
  | signalled (result : Result)
  /-- In the constructor of `TotalLock`. -/
  | enteringPut
  | enteringTake
  | inside
  /-- In the destructor of `TotalLock`. -/
  | leavingPut (result : Result)
  | leavingTake (result : Result)
deriving DecidableEq

/-- A call under way: the holds its thread had before it, the elements it has linked and
those it has stored in its result or added to its sink. -/
structure Call (E : Type) where
  op : Op E
  phase : Phase
  before : Side → Nat
  given : List E
  stored : List E

/-- A call that has ended, with the holds of its thread at that moment. -/
structure Ended (E : Type) where
  thread : Nat
  op : Op E
  result : Result
  given : List E
  stored : List E
  before : Side → Nat
  after : Side → Nat

/-- What comes about where the code does not decide. -/
inductive Choice
  | go
  | interrupt
  /-- The wait is over, `awaitNanos` returns this. -/
  | woken (nanos : Int)
  /-- Copying an element throws, a `decaf::lang::Exception` or something else. -/
  | copyThrows (decaf : Bool)
  /-- The `add` of the sink throws. -/
  | sinkThrows (decaf : Bool)
deriving DecidableEq

def Choice.nanos : Choice → Int
  | woken nanos => nanos
  | _ => 0

/-- What the call does with the locks, and where it goes on. -/
inductive Move
  | goto (next : Phase)
  | acquire (side : Side) (next : Phase)
  | await
  | retake (saved : Nat) (next : Phase)
  | release (side : Side) (next : Phase)
  | releaseEnd (side : Side) (result : Result)
  | finish (result : Result)
deriving DecidableEq

structure Turn (E : Type) where
  chain : Chain E
  count : Int
  links : List E := []
  stores : List E := []
  move : Move

/-- The queue, the calls under way, and beside them what has been linked and delivered by
whom, in order, and the calls that have ended. -/
structure State (E : Type) where
  capacity : Int
  chain : Chain E
  count : Int
  locks : Side → ReentrantLock Nat
  threads : Nat → Option (Call E)
  inserted : List (Nat × E)
  delivered : List (Nat × E)
  log : List (Ended E)

namespace State

variable {E : Type}

/-- A queue in any state, with no call under way. -/
def quiet (capacity : Int) (chain : Chain E) (count : Int) (locks : Side → ReentrantLock Nat) :
    State E where
  capacity := capacity
  chain := chain
  count := count
  locks := locks
  threads := fun _ => none
  inserted := []
  delivered := []
  log := []

/-- A queue constructed with a capacity and the elements of a collection. -/
def new (capacity : Int) (elements : List E) : State E :=
  quiet capacity ⟨some elements, elements.length⟩ elements.length fun _ => .free

/-- The elements in the queue, oldest first. -/
def nodes (s : State E) : List E := s.chain.head.getD []

/-- A step that leaves chain and counter alone. -/
def turn (s : State E) (move : Move) : Turn E := { chain := s.chain, count := s.count, move }

/-! ### The steps of an operation -/

/-- An exception inside the `try`: the handler for `decaf::lang::Exception` unlocks. -/
def raise (decaf : Bool) : Move :=
  if decaf then .goto (.unlocking false (.threw true)) else .finish (.threw false)

/-- The tests of `offer`, `poll` and `peek` before the lock, and that of `drainTo`. -/
def look (s : State E) (c : Call E) : Turn E :=
  match c.op with
  | .offer _ => s.turn (if s.count = s.capacity then .finish (.returned false) else .goto .locking)
  | .poll | .peek => s.turn (if s.count = 0 then .finish (.returned false) else .goto .locking)
  | .drainTo _ toSelf => s.turn (if toSelf then .finish (.threw true) else .goto .locking)
  | _ => s.turn (.goto .locking)

def lock (s : State E) (c : Call E) (choice : Choice) : Turn E :=
  s.turn (if choice = .interrupt ∧ c.op.interruptible = true then .finish (.threw true)
    else .acquire c.op.side (.guarding c.op.nanos))

/-- The tests under the lock. The timed operations leave from inside the `try`, and so does
`peek` when it finds no node. `c` is -1 where nothing was linked or taken. -/
def guard (s : State E) (c : Call E) (nanos : Int) (choice : Choice) : Turn E :=
  match c.op with
  | .put _ => s.turn (if s.count = s.capacity then .await else .goto .acting)
  | .offerTimed _ _ =>
    s.turn (if s.count = s.capacity then
      (if nanos ≤ 0 then .finish (.returned false) else .await) else .goto .acting)
  | .offer _ =>
    s.turn (if s.count < s.capacity then .goto .acting
      else .goto (.unlocking false (.returned false)))
  | .take => s.turn (if s.count = 0 then .await else .goto .acting)
  | .pollTimed _ =>
    s.turn (if s.count = 0 then
      (if nanos ≤ 0 then .finish (.returned false) else .await) else .goto .acting)
  | .poll =>
    s.turn (if 0 < s.count then .goto .acting
      else .goto (.unlocking (decide (-1 = s.capacity)) (.returned true)))
  | .peek =>
    match s.chain.head with
    | none => s.turn (raise true)
    | some [] => s.turn (.finish (.returned false))
    | some (value :: _) =>
      match choice with
      | .copyThrows decaf => s.turn (raise decaf)
      | _ => { s.turn (.goto (.unlocking false (.returned true))) with stores := [value] }
  | .drainTo maxElements _ => s.turn (.goto (.draining (min maxElements s.count)))
  | _ => s.turn (.goto c.phase)

def wait (s : State E) (saved : Nat) (choice : Choice) : Turn E :=
  s.turn (.retake saved
    (if choice = .interrupt then .unlocking false (.threw true) else .guarding choice.nanos))

/-- `enqueue(value)`, which copies before it links. -/
def link (s : State E) (value : E) (choice : Choice) : Turn E :=
  match choice with
  | .copyThrows decaf => s.turn (raise decaf)
  | _ => { s.turn (.goto .counting) with chain := s.chain.enqueue value, links := [value] }

/-- `result = dequeue()`, which moves `head` before it copies. -/
def unhook (s : State E) (choice : Choice) : Turn E :=
  match s.chain.dequeue with
  | (chain, none) => { s.turn (raise true) with chain }
  | (chain, some value) =>
    match choice with
    | .copyThrows decaf => { s.turn (raise decaf) with chain }
    | _ => { s.turn (.goto .counting) with chain, stores := [value] }

def act (s : State E) (c : Call E) (choice : Choice) : Turn E :=
  match c.op with
  | .put value | .offerTimed value _ | .offer value => s.link value choice
  | _ => s.unhook choice

/-- `getAndIncrement` or `getAndDecrement`; `c` is the value before. -/
def tally (s : State E) (c : Call E) : Turn E :=
  match c.op.side with
  | .putting =>
    { s.turn (.goto (.unlocking (decide (s.count = 0)) (.returned true))) with
      count := s.count + 1 }
  | .taking =>
    { s.turn (.goto (.unlocking (decide (s.count = s.capacity)) (.returned true))) with
      count := s.count - 1 }

/-- The end of the loop of `drainTo`: the counter is lowered by the number of elements
added to the sink. -/
def settle (s : State E) (c : Call E) (result : Result) : Turn E :=
  if 0 < c.stored.length then
    { s.turn (.goto (.unlocking (decide (s.count = s.capacity)) result)) with
      count := s.count - c.stored.length }
  else s.turn (.goto (.unlocking false result))

/-- One round of the loop of `drainTo`. The chain is here the nodes that the loop has not
passed; `head` itself moves after the loop, so what escapes the loop leaves the nodes it
has passed, emptied, in front. A node is emptied before its value goes to the sink. -/
def drain [Inhabited E] (s : State E) (c : Call E) (result : Int) (choice : Choice) : Turn E :=
  if (c.stored.length : Int) < result then
    match s.chain.head with
    | none | some [] => s.settle c (.threw true)
    | some (value :: rest) =>
      match choice with
      | .copyThrows true => s.settle c (.threw true)
      | .copyThrows false =>
        { s.turn (.finish (.threw false)) with
          chain := ⟨some (List.replicate c.stored.length default ++ value :: rest),
            s.chain.tail + c.stored.length⟩ }
      | .sinkThrows true =>
        { s.settle c (.threw true) with chain := ⟨some (default :: rest), s.chain.tail⟩ }
      | .sinkThrows false =>
        { s.turn (.finish (.threw false)) with
          chain := ⟨some (List.replicate c.stored.length default ++ default :: rest),
            s.chain.tail + c.stored.length⟩ }
      | _ =>
        { s.turn (.goto c.phase) with
          chain := ⟨some rest, s.chain.tail - 1⟩, stores := [value] }
  else s.settle c (.counted result)

/-- What the operations with `TotalLock` do under both locks. -/
def body [DecidableEq E] (s : State E) (c : Call E) (choice : Choice) : Turn E :=
  match choice, s.chain.head with
  | .copyThrows decaf, _ => s.turn (.goto (.leavingPut (.threw decaf)))
  | _, none => s.turn (.goto (.leavingPut (.threw true)))
  | _, some nodes =>
    let drop (i : Nat) : Turn E :=
      if i < nodes.length then
        { s.turn (.goto (.leavingPut (.returned true))) with
          chain := ⟨some (nodes.eraseIdx i), s.chain.tail - 1⟩, count := s.count - 1 }
      else s.turn (.goto (.leavingPut (.returned false)))
    match c.op with
    | .remove value => drop (nodes.idxOf value)
    | .unlink i => drop i
    | .clear =>
      { s.turn (.goto (.leavingPut (.returned true))) with
        chain := ⟨some (nodes.take 1), 0⟩, count := 0 }
    | _ => s.turn (.goto (.leavingPut (.returned true)))

/-- One step of a call. -/
def advance [DecidableEq E] [Inhabited E] (s : State E) (c : Call E) (choice : Choice) : Turn E :=
  match c.phase with
  | .looking => s.look c
  | .locking => s.lock c choice
  | .guarding nanos => s.guard c nanos choice
  | .waiting saved => s.wait saved choice
  | .acting => s.act c choice
  | .counting => s.tally c
  | .draining result => s.drain c result choice
  | .unlocking wake result =>
    s.turn (if wake then .release c.op.side (.signalling result)
      else .releaseEnd c.op.side result)
  | .signalling result => s.turn (.acquire c.op.side.other (.signalled result))
  | .signalled result => s.turn (.releaseEnd c.op.side.other result)
  | .enteringPut => s.turn (.acquire .putting .enteringTake)
  | .enteringTake => s.turn (.acquire .taking .inside)
  | .inside => s.body c choice
  | .leavingPut result => s.turn (.release .putting (.leavingTake result))
  | .leavingTake result => s.turn (.releaseEnd .taking result)

/-! ### Carrying a step out -/

def holds (s : State E) (t : Nat) (side : Side) : Nat := (s.locks side).holds t

def setLock (s : State E) (side : Side) (lock : ReentrantLock Nat) : State E :=
  { s with locks := Function.update s.locks side lock }

def goto (s : State E) (t : Nat) (c : Call E) (next : Phase) : State E :=
  { s with threads := Function.update s.threads t (some { c with phase := next }) }

/-- The call returns or throws. -/
def finish (s : State E) (t : Nat) (c : Call E) (result : Result) : State E :=
  { s with
    threads := Function.update s.threads t none
    log := s.log ++ [⟨t, c.op, result, c.given, c.stored, c.before, s.holds t⟩] }

/-- The move of a call; one that blocks changes nothing. -/
def perform (s : State E) (t : Nat) (c : Call E) : Move → State E
  | .goto next => s.goto t c next
  | .acquire side next =>
    match (s.locks side).acquire t with
    | none => s
    | some lock => (s.setLock side lock).goto t c next
  | .await =>
    (s.setLock c.op.side ((s.locks c.op.side).abandon t)).goto t c
      (.waiting (s.holds t c.op.side))
  | .retake saved next =>
    match (s.locks c.op.side).retake t saved with
    | none => s
    | some lock => (s.setLock c.op.side lock).goto t c next
  | .release side next => (s.setLock side ((s.locks side).release t)).goto t c next
  | .releaseEnd side result => (s.setLock side ((s.locks side).release t)).finish t c result
  | .finish result => s.finish t c result

/-- What the step does to the data: `peek` shows an element and delivers none. -/
def record (s : State E) (t : Nat) (c : Call E) (turn : Turn E) : State E :=
  { s with
    chain := turn.chain
    count := turn.count
    inserted := s.inserted ++ turn.links.map fun value => (t, value)
    delivered := s.delivered ++
      (match c.op with
      | .peek => []
      | _ => turn.stores.map fun value => (t, value)) }

/-- What the step adds to the call's own books. -/
def keep (c : Call E) (turn : Turn E) : Call E :=
  { c with given := c.given ++ turn.links, stored := c.stored ++ turn.stores }

end State

/-- A thread calls an operation, or takes the next step of its call. -/
inductive Event (E : Type)
  | call (t : Nat) (op : Op E)
  | step (t : Nat) (choice : Choice)
deriving DecidableEq

variable {E : Type}

/-- Where an operation begins. -/
def Op.entry : Op E → Phase
  | .offer _ | .poll | .peek | .drainTo _ _ => .looking
  | .put _ | .offerTimed _ _ | .take | .pollTimed _ => .locking
  | .remove _ | .clear | .read | .unlink _ => .enteringPut

def State.enter (s : State E) (t : Nat) (op : Op E) : State E :=
  { s with threads := Function.update s.threads t (some ⟨op, op.entry, s.holds t, [], []⟩) }

variable [DecidableEq E] [Inhabited E]

def State.next (s : State E) : Event E → State E
  | .call t op =>
    match s.threads t with
    | some _ => s
    | none => s.enter t op
  | .step t choice =>
    match s.threads t with
    | none => s
    | some c =>
      let turn := s.advance c choice
      (s.record t c turn).perform t (State.keep c turn) turn.move

theorem State.next_call (s : State E) (t : Nat) (op : Op E) :
    s.next (.call t op) = s ∨ (s.threads t = none ∧ s.next (.call t op) = s.enter t op) := by
  rcases hc : s.threads t with _ | c
  · exact .inr ⟨rfl, by simp [next, hc]⟩
  · exact .inl (by simp [next, hc])

theorem State.next_idle {s : State E} {t : Nat} (hc : s.threads t = none) (choice : Choice) :
    s.next (.step t choice) = s := by
  simp [next, hc]

theorem State.next_step {s : State E} {t : Nat} {c : Call E} (hc : s.threads t = some c)
    (choice : Choice) : s.next (.step t choice) =
      (s.record t c (s.advance c choice)).perform t (keep c (s.advance c choice))
        (s.advance c choice).move := by
  simp [next, hc]

/-- The queue as a machine; the log of ended calls is part of the state. -/
def machine : Machine (State E) (Event E) Unit where
  step s a := (s.next a, ())

end ActivemqCpp.Decaf.LinkedBlockingQueue
