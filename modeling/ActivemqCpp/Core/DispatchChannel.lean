import ActivemqCpp.Base.Machine
import ActivemqCpp.Commands.Command

/-!
# The channels in which dispatched messages wait

`FifoMessageDispatchChannel` keeps one list, `SimplePriorityMessageDispatchChannel` ten,
of which the highest that is not empty is served first. Both are one definition here:
a channel has at least one list, and a message goes to the list of its priority, or to
the highest there is. A channel hands out a message only while it is running.

Every operation moves messages and drops or copies none; `messages` lists them in the
order in which they leave.
-/

namespace ActivemqCpp.Core

open Base Commands Decaf List

/-- `MessageDispatch` with the parts of its message that a consumer reads. The counter of
the dispatch is the broker's; that of the message is raised by every rollback, an `int` that no
message is rolled back often enough to exhaust. -/
structure MessageDispatch where
  /-- The object in memory, by which `Pointer`s are compared. -/
  address : Nat
  messageId : MessageId
  destination : Option Destination
  priority : UInt8
  redeliveryCounter : Int
  messageRedeliveryCounter : Int
  /-- The message carries the property `redeliveryDelay`. -/
  hasRedeliveryDelay : Bool
deriving DecidableEq, Repr

/-- `MessageDispatchChannel`, lowest priority first. -/
structure DispatchChannel where
  running : Bool
  channels : List (List MessageDispatch)
  nonempty : 0 < channels.length

namespace DispatchChannel

/-- `FifoMessageDispatchChannel()`. -/
def fifo : DispatchChannel := ⟨false, [[]], Nat.one_pos⟩

/-- `SimplePriorityMessageDispatchChannel()`. -/
def simplePriority : DispatchChannel := ⟨false, replicate 10 [], by decide⟩

/-- `getChannel(dispatch)`. -/
def getChannel (c : DispatchChannel) (dispatch : MessageDispatch) : Nat :=
  min dispatch.priority.toNat (c.channels.length - 1)

def enqueue (c : DispatchChannel) (dispatch : MessageDispatch) : DispatchChannel where
  running := c.running
  channels := c.channels.modify (c.getChannel dispatch) fun channel => channel ++ [dispatch]
  nonempty := by simpa using c.nonempty

def enqueueFirst (c : DispatchChannel) (dispatch : MessageDispatch) : DispatchChannel where
  running := c.running
  channels := c.channels.modify (c.getChannel dispatch) fun channel => dispatch :: channel
  nonempty := by simpa using c.nonempty

/-- `removeFirst()`: from the highest list that is not empty. -/
def removeFirst : List (List MessageDispatch) →
    Option (MessageDispatch × List (List MessageDispatch))
  | [] => none
  | channel :: higher =>
    match removeFirst higher, channel with
    | some (dispatch, higher), _ => some (dispatch, channel :: higher)
    | none, [] => none
    | none, dispatch :: channel => some (dispatch, channel :: higher)

variable {channels : List (List MessageDispatch)}

theorem removeFirst_eq_none (h : removeFirst channels = none) : channels.reverse.flatten = [] := by
  induction channels with
  | nil => rfl
  | cons channel higher ih =>
    unfold removeFirst at h
    split at h
    · cases h
    · rename_i hhigher
      simp only [reverse_cons, flatten_append, ih hhigher]
      rfl
    · cases h

theorem removeFirst_spec {channels' : List (List MessageDispatch)} {dispatch : MessageDispatch}
    (h : removeFirst channels = some (dispatch, channels')) :
    channels'.length = channels.length ∧
      channels.reverse.flatten = dispatch :: channels'.reverse.flatten := by
  induction channels generalizing channels' with
  | nil => cases h
  | cons channel higher ih =>
    unfold removeFirst at h
    split at h
    · rename_i hhigher
      cases h
      obtain ⟨hlength, hflatten⟩ := ih hhigher
      simp [hlength, hflatten]
    · cases h
    · rename_i hhigher
      cases h
      simp [removeFirst_eq_none hhigher]

/-- `dequeueNoWait()`. -/
def dequeueNoWait (c : DispatchChannel) : Option (MessageDispatch × DispatchChannel) :=
  if c.running then
    match h : removeFirst c.channels with
    | none => none
    | some (dispatch, channels) =>
      some (dispatch, ⟨c.running, channels, by rw [(removeFirst_spec h).1]; exact c.nonempty⟩)
  else none

def start (c : DispatchChannel) : DispatchChannel := { c with running := true }

def stop (c : DispatchChannel) : DispatchChannel := { c with running := false }

/-- The messages in the order in which they leave. -/
def messages (c : DispatchChannel) : List MessageDispatch := c.channels.reverse.flatten

/-- What `removeAll()` leaves; it returns `messages`. -/
def clear (c : DispatchChannel) : DispatchChannel where
  running := c.running
  channels := c.channels.map fun _ => []
  nonempty := by simpa using c.nonempty

/-! ## No message is dropped or copied -/

variable (c : DispatchChannel)

variable {d : MessageDispatch} {f : List MessageDispatch → List MessageDispatch}

theorem flatten_modify_perm (hf : ∀ l, (f l).Perm (d :: l)) {i : Nat}
    (hi : i < channels.length) : (channels.modify i f).flatten.Perm (d :: channels.flatten) := by
  induction channels generalizing i with
  | nil => exact absurd hi (Nat.not_lt_zero i)
  | cons channel higher ih =>
    cases i with
    | zero =>
      exact (hf channel).append_right _
    | succ i =>
      have htail := ih (Nat.lt_of_succ_lt_succ hi)
      exact (htail.append_left channel).trans perm_middle

theorem messages_perm : c.messages.Perm c.channels.flatten :=
  (reverse_perm c.channels).flatten

theorem getChannel_lt (d : MessageDispatch) : c.getChannel d < c.channels.length := by
  have := c.nonempty
  unfold getChannel
  omega

theorem messages_modify {c c' : DispatchChannel} (hf : ∀ l, (f l).Perm (d :: l))
    (h : c'.channels = c.channels.modify (c.getChannel d) f) :
    c'.messages.Perm (d :: c.messages) := by
  refine c'.messages_perm.trans ?_
  rw [h]
  exact (flatten_modify_perm hf (c.getChannel_lt d)).trans (c.messages_perm.symm.cons d)

theorem messages_enqueue (d : MessageDispatch) : (c.enqueue d).messages.Perm (d :: c.messages) :=
  messages_modify (fun l => perm_append_singleton d l) rfl

theorem messages_enqueueFirst (d : MessageDispatch) :
    (c.enqueueFirst d).messages.Perm (d :: c.messages) :=
  messages_modify (fun l => Perm.refl (d :: l)) rfl

@[simp] theorem messages_clear : c.clear.messages = [] := by
  simp [messages, clear]

variable (ds : List MessageDispatch)

theorem messages_foldr_enqueueFirst :
    (ds.foldr (fun d q => q.enqueueFirst d) c).messages.Perm (ds ++ c.messages) := by
  induction ds with
  | nil => exact Perm.refl _
  | cons d ds ih => exact (messages_enqueueFirst _ d).trans (ih.cons d)

theorem messages_foldl_enqueueFirst :
    (ds.foldl (fun q d => q.enqueueFirst d) c).messages.Perm (ds ++ c.messages) := by
  rw [foldl_eq_foldr_reverse]
  exact (messages_foldr_enqueueFirst c ds.reverse).trans (ds.reverse_perm.append_right _)

/-! ## A channel of one list -/

/-- The channel keeps its messages in one list, as `FifoMessageDispatchChannel` does. -/
def IsFifo (c : DispatchChannel) : Prop := c.channels.length = 1

instance (c : DispatchChannel) : Decidable c.IsFifo := inferInstanceAs (Decidable (_ = _))

variable {c : DispatchChannel}

theorem IsFifo.enqueueFirst (h : c.IsFifo) (d : MessageDispatch) :
    (c.enqueueFirst d).IsFifo ∧ (c.enqueueFirst d).messages = d :: c.messages := by
  obtain ⟨channel, hchannel⟩ := length_eq_one_iff.mp h
  have hfirst : c.getChannel d = 0 := by
    rw [getChannel, h]
    omega
  have hchannels : (c.enqueueFirst d).channels = [d :: channel] := by
    change c.channels.modify (c.getChannel d) (fun channel => d :: channel) = _
    rw [hfirst, hchannel]
    rfl
  refine ⟨congrArg length hchannels, ?_⟩
  rw [messages, messages, hchannels, hchannel]
  rfl

theorem IsFifo.foldr_enqueueFirst (h : c.IsFifo) :
    (ds.foldr (fun d q => q.enqueueFirst d) c).IsFifo ∧
      (ds.foldr (fun d q => q.enqueueFirst d) c).messages = ds ++ c.messages := by
  induction ds with
  | nil => exact ⟨h, rfl⟩
  | cons d ds ih =>
    obtain ⟨hfifo, hmessages⟩ := ih.1.enqueueFirst d
    refine ⟨hfifo, ?_⟩
    rw [foldr_cons, hmessages, ih.2]
    rfl

/-- Messages that are put in front one after the other come out in reverse. -/
theorem IsFifo.foldl_enqueueFirst (h : c.IsFifo) :
    (ds.foldl (fun q d => q.enqueueFirst d) c).IsFifo ∧
      (ds.foldl (fun q d => q.enqueueFirst d) c).messages = ds.reverse ++ c.messages := by
  rw [foldl_eq_foldr_reverse]
  exact h.foldr_enqueueFirst ds.reverse

theorem dequeueNoWait_eq_some {c c' : DispatchChannel} (h : c.dequeueNoWait = some (d, c')) :
    c.running = true ∧ c'.running = true ∧ c.messages = d :: c'.messages := by
  unfold dequeueNoWait at h
  split at h
  · rename_i hrunning
    split at h
    · cases h
    · rename_i hremove
      cases h
      exact ⟨hrunning, hrunning, (removeFirst_spec hremove).2⟩
  · cases h

theorem dequeueNoWait_eq_none (h : c.dequeueNoWait = none)
    (hrunning : c.running = true) : c.messages = [] := by
  unfold dequeueNoWait at h
  rw [if_pos hrunning] at h
  split at h
  · rename_i hremove
    exact removeFirst_eq_none hremove
  · cases h

end DispatchChannel

/-! ## The count of the priority channel -/

/-- `SimplePriorityMessageDispatchChannel` with the count that it keeps apart from its lists.
The count is an `int`; no memory holds as many messages as it can count. -/
structure PriorityChannel extends DispatchChannel where
  closed : Bool
  enqueued : Int

namespace PriorityChannel

/-- `size` is `enqueued`. -/
inductive Call
  | enqueue (message : MessageDispatch)
  | enqueueFirst (message : MessageDispatch)
  | dequeueNoWait
  | peek
  | removeAll
  | clear
  | start
  | stop
  | close

def new : PriorityChannel := ⟨DispatchChannel.simplePriority, false, 0⟩

def isEmpty (c : PriorityChannel) : Bool := c.enqueued = 0

/-- `removeFirst()` and what it leaves, once the channel is open, running and not empty. -/
def first (c : PriorityChannel) : Option (MessageDispatch × DispatchChannel) :=
  if c.closed || c.isEmpty || c.enqueued ≤ 0 then none else c.toDispatchChannel.dequeueNoWait

/-- What a call leaves and the messages that it returns. -/
def step (c : PriorityChannel) : Call → PriorityChannel × List MessageDispatch
  | .enqueue message => (⟨c.enqueue message, c.closed, c.enqueued + 1⟩, [])
  | .enqueueFirst message => (⟨c.enqueueFirst message, c.closed, c.enqueued + 1⟩, [])
  | .dequeueNoWait =>
    match c.first with
    | none => (c, [])
    | some (message, rest) => (⟨rest, c.closed, c.enqueued - 1⟩, [message])
  | .peek => (c, (c.first.map Prod.fst).toList)
  | .removeAll =>
    (⟨c.toDispatchChannel.clear, c.closed, c.enqueued - c.messages.length⟩, c.messages)
  -- the count stays
  | .clear => (⟨c.toDispatchChannel.clear, c.closed, c.enqueued⟩, [])
  | .start => (if c.closed then c else { c with running := true }, [])
  | .stop => ({ c with running := false }, [])
  | .close => (if c.closed then c else { c with running := false, closed := true }, [])

def machine : Machine PriorityChannel Call (List MessageDispatch) := ⟨step⟩

/-- The count, and what is read off it, are right: a message that is asked for is there. -/
def Exact (c : PriorityChannel) : Prop :=
  c.enqueued = c.messages.length ∧ (c.isEmpty = true ↔ c.messages = []) ∧
    (c.closed = false → c.running = true → c.isEmpty = false → c.first.isSome)

variable {c : PriorityChannel}

theorem exact_of_count (h : c.enqueued = c.messages.length) : c.Exact := by
  refine ⟨h, by simp [isEmpty, h], ?_⟩
  intro hclosed hrunning hempty
  have hcount : c.messages ≠ [] := by simpa [isEmpty, h] using hempty
  have hfirst : c.first = c.toDispatchChannel.dequeueNoWait := by
    simp [first, hclosed, hempty, h, hcount]
  rw [hfirst, Option.isSome_iff_ne_none]
  exact fun hnone => hcount (DispatchChannel.dequeueNoWait_eq_none hnone hrunning)

/-- Every call but `clear` counts what it adds and takes. -/
theorem count_step (h : c.enqueued = c.messages.length) (call : Call)
    (hclear : call = .clear → c.messages = []) :
    (c.step call).1.enqueued = (c.step call).1.messages.length := by
  cases call with
  | enqueue message => simp [step, h, (c.messages_enqueue message).length_eq]
  | enqueueFirst message => simp [step, h, (c.messages_enqueueFirst message).length_eq]
  | dequeueNoWait =>
    simp only [step]
    split
    · exact h
    · rename_i hfirst
      unfold first at hfirst
      split at hfirst
      · cases hfirst
      · have hmessages := (DispatchChannel.dequeueNoWait_eq_some hfirst).2.2
        simp [h, hmessages]
  | peek | stop => exact h
  | removeAll => simp [step, h]
  | clear => simp [step, h, hclear rfl]
  | start | close =>
    simp only [step]
    split <;> exact h

/-- **The count of the priority channel.** It is right throughout a run *iff* `clear` is
called on an empty channel only: elsewhere the lists are emptied and the count is not. -/
theorem count_exact_iff (calls : List Call) :
    machine.Always Exact new calls ↔
      machine.Meets (fun c call => call = .clear → c.messages = []) new calls := by
  refine Machine.always_iff_meets
    (fun c call h hclear => count_step h call hclear) (fun c h => exact_of_count h) ?_ rfl
  intro c call h hbad hexact
  obtain ⟨rfl, hmessages⟩ := Classical.not_imp.mp hbad
  have hcount := hexact.1
  simp [machine, step, h, hmessages] at hcount

/-- A message is put in and cleared: the count stays at one. -/
theorem count_after_clear :
    ¬ machine.Always Exact new [.enqueue ⟨0, ⟨none, 1⟩, none, 4, 0, 0, false⟩, .clear] := by
  intro h
  exact absurd h.2.2.1 (by decide)

end PriorityChannel

end ActivemqCpp.Core
