import Mathlib.Data.List.TakeWhile
import ActivemqCpp.Decaf.HashMapRuns

/-!
# `ResponseCorrelator`

Requests that wait for the response with their command id. Any number of threads call
`request` and `asyncRequest`; one reads responses, and any may dispose of the correlator.
What a thread does under `mapMutex` is one step, so is the assignment of an id, a send and
the end of a wait; steps of different threads interleave freely.

* **registering** — under the mutex, unless there is a prior error;
* **answering** — the entry is taken out and its future completed under the mutex;
* **cleaning up** — a synchronous request removes its entry under the mutex
  (`ResponseFinalizer`), whatever happened to it;
* **a failed asynchronous send** — its entry is removed *without* the mutex: `removeEntry`
  looks for it (`HashMap.seek`) and unlinks it (`HashMap.unlink`), and others may come in
  between;
* **disposal** — the futures are taken out under the mutex and completed one by one after
  it has been released.

The last section shows two runs in which a pending request is forgotten: another
thread registers while an entry is being unlinked, and a callback throws.
-/

namespace ActivemqCpp.Decaf.HashMap

open Base List

/-! ## Removal in two steps -/

/-- Where `removeEntry` has come to: the chain, and the entry in front of the one it
looks for. -/
structure Cursor (K : Type) where
  index : Nat
  last : Option K
deriving DecidableEq

variable {K V : Type} [DecidableEq K]

/-- The entries of a chain in front of the one of a key. -/
def inFront (hash : K → BitVec 32) (key : K) (chain : List (HashMapEntry K V)) :
    List (HashMapEntry K V) := chain.takeWhile fun e => !isEntryOf hash key e

/-- The loop of `removeEntry`. -/
def seek (hash : K → BitVec 32) (s : HashMap K V) (key : K) : Option (Cursor K) :=
  let chain := (s.elementData[s.index hash key]?).getD []
  let before := inFront hash key chain
  match chain.drop before.length with
  | [] => none
  | _ :: _ => some ⟨s.index hash key, before.getLast?.map HashMapEntry.key⟩

/-- What the write of `removeEntry` leaves of the chain: its head or `last->next` becomes
`current->next`. No result if one of these entries has gone from the chain. -/
def unlinkFrom (hash : K → BitVec 32) (key : K) (last : Option K)
    (chain : List (HashMapEntry K V)) : Option (List (HashMapEntry K V)) :=
  match chain.drop (inFront hash key chain).length, last with
  | [], _ => none
  | _ :: next, none => some next
  | _ :: next, some last =>
    if (inFront hash key chain).getLast?.map HashMapEntry.key = some last then
      some (inFront hash key chain ++ next)
    else none

/-- The rest of `removeEntry`. -/
def unlink (hash : K → BitVec 32) (s : HashMap K V) (key : K) (c : Cursor K) :
    Option (HashMap K V) :=
  (unlinkFrom hash key c.last ((s.elementData[c.index]?).getD [])).map fun chain =>
    { s with
      elementCount := wrap 32 (s.elementCount - 1)
      elementData := s.elementData.set c.index chain
      modCount := wrap 32 (s.modCount + 1) }

variable {hash : K → BitVec 32} {key : K} {s : HashMap K V}

theorem inFront_append {before next : List (HashMapEntry K V)} {e : HashMapEntry K V}
    (hbefore : ∀ b ∈ before, ¬ isEntryOf hash key b = true) (he : isEntryOf hash key e = true) :
    inFront hash key (before ++ e :: next) = before := by
  rw [inFront, takeWhile_append_of_pos, takeWhile_cons_of_neg, append_nil]
  · simp [he]
  · intro b hb
    simpa using hbefore b hb

/-- Either the key has no entry, or the chain splits at it. -/
theorem getEntry_cases (hash : K → BitVec 32) (s : HashMap K V) (key : K) :
    (s.getEntry hash key = none ∧ s.seek hash key = none) ∨
    ∃ before e next, s.getEntry hash key = some e ∧
      s.elementData[s.index hash key]? = some (before ++ e :: next) ∧
      (∀ b ∈ before, ¬ isEntryOf hash key b = true) ∧ isEntryOf hash key e = true := by
  cases hget : s.getEntry hash key with
  | none =>
    refine .inl ⟨rfl, ?_⟩
    rw [getEntry, find?_eq_none] at hget
    have hall : inFront hash key ((s.elementData[s.index hash key]?).getD []) =
        (s.elementData[s.index hash key]?).getD [] := by
      rw [inFront, takeWhile_eq_self_iff]
      intro e he
      simpa using hget e he
    rw [seek, hall, drop_length]
  | some e =>
    right
    rw [getEntry, find?_eq_some_iff_append] at hget
    obtain ⟨he, before, next, hchain, hbefore⟩ := hget
    refine ⟨before, e, next, rfl, ?_, fun b hb => by simpa using hbefore b hb, he⟩
    cases hdata : s.elementData[s.index hash key]? with
    | none =>
      rw [hdata] at hchain
      simp at hchain
    | some chain =>
      rw [hdata] at hchain
      exact congrArg some hchain

/-- Left alone, the two steps remove the entry. -/
theorem unlink_seek {c : Cursor K} (hseek : s.seek hash key = some c) :
    s.unlink hash key c = some (s.remove hash key).1 := by
  rcases getEntry_cases hash s key with ⟨-, hnone⟩ | ⟨before, e, next, hget, hchain, hbefore, he⟩
  · rw [hnone] at hseek
    cases hseek
  · have hfront : inFront hash key (before ++ e :: next) = before := inFront_append hbefore he
    rw [seek, hchain] at hseek
    dsimp only [Option.getD_some] at hseek
    rw [hfront, drop_left] at hseek
    cases hseek
    have herase : (before ++ e :: next).eraseP (isEntryOf hash key) = before ++ next := by
      rw [eraseP_append_right _ hbefore, eraseP_cons_of_pos he]
    have hmodify : s.elementData.modify (s.index hash key)
        (fun chain => chain.eraseP (isEntryOf hash key)) =
          s.elementData.set (s.index hash key) (before ++ next) := by
      rw [modify_eq_set_getElem?, hchain]
      show set _ _ ((before ++ e :: next).eraseP _) = _
      rw [herase]
    have hrest : unlinkFrom hash key (before.getLast?.map HashMapEntry.key)
        (before ++ e :: next) = some (before ++ next) := by
      simp only [unlinkFrom, hfront, drop_left]
      cases hlast : before.getLast? with
      | none =>
        rw [getLast?_eq_none_iff.mp hlast]
        rfl
      | some last => exact if_pos rfl
    rw [unlink, remove, hget, hchain, hmodify]
    dsimp only [Option.getD_some]
    rw [hrest]
    rfl

theorem getEntry_of_seek (hseek : s.seek hash key = none) : s.getEntry hash key = none := by
  rcases getEntry_cases hash s key with ⟨hnone, -⟩ | ⟨before, e, next, -, hchain, hbefore, he⟩
  · exact hnone
  · rw [seek, hchain] at hseek
    dsimp only [Option.getD_some] at hseek
    rw [inFront_append hbefore he, drop_left] at hseek
    cases hseek

end ActivemqCpp.Decaf.HashMap

namespace ActivemqCpp.Transport

open Base
open Decaf

/-! ## Requests -/

/-- Which call made the request. The callback of an asynchronous one may throw. -/
inductive Kind
  | request
  | asyncRequest (throws : Bool)
deriving DecidableEq

/-- How far the call has come. `waiting` is the wait for the response, or an asynchronous
call that has returned; the calls end in `done`, an asynchronous one only by a throw. -/
inductive Phase
  | unused
  | assigned
  | registered
  | waiting
  | finalizing
  | failing
  | unlinking (cursor : HashMap.Cursor (BitVec 32))
  | done
deriving DecidableEq

namespace Phase

/-- The call has been through its block under the mutex. -/
def begun : Phase → Bool
  | .unused | .assigned => false
  | _ => true

/-- The request may be in the map. -/
def listed : Phase → Bool
  | .unused | .assigned | .done => false
  | _ => true

def isUnlinking : Phase → Bool
  | .unlinking _ => true
  | _ => false

end Phase

/-- What a future was completed with. -/
inductive Completion (ε : Type)
  | response (correlationId : BitVec 32)
  | disposal (error : ε)
deriving DecidableEq

structure Request (ε : Type) where
  kind : Kind
  phase : Phase
  completions : List (Completion ε)
deriving DecidableEq

/-- The id of the `n`th command. -/
def commandId (n : Nat) : BitVec 32 := BitVec.ofNat 32 n

/-- `HashCode<unsigned int>`. -/
def hashCode (key : BitVec 32) : BitVec 32 := key

/-- The threshold of a load factor of 0.75. -/
def thresholdOf (length : Nat) : Int := 3 * length / 4

namespace Request

variable {ε : Type}

/-- No such call. -/
def none : Request ε := ⟨.request, .unused, []⟩

/-- Registered, not completed, and neither given up nor failed. -/
def Pending (r : Request ε) : Prop :=
  (r.phase = .registered ∨ r.phase = .waiting) ∧ r.completions = []

instance [DecidableEq ε] (r : Request ε) : Decidable r.Pending := inferInstanceAs (Decidable (_ ∧ _))

/-- `setResponse`. -/
def complete (r : Request ε) (c : Completion ε) : Request ε :=
  { r with completions := c :: r.completions }

def throws (r : Request ε) : Bool :=
  match r.kind with
  | .request => false
  | .asyncRequest throws => throws

end Request

/-! ## The correlator -/

/-- `requests` and the last two fields are what the threads know: the calls by the number
of their command, the futures that `dispose` has yet to complete, and those that were
pending when it began. -/
structure ResponseCorrelator (ε : Type) where
  nextCommandId : Nat
  requestMap : HashMap (BitVec 32) Nat
  priorError : Option ε
  requests : Nat → Request ε
  disposing : List Nat
  pendingAtDisposal : List Nat

inductive Event (ε : Type)
  /-- `oneway`. -/
  | oneway
  /-- A call gets the id of its command. -/
  | call (kind : Kind)
  /-- Its block under the mutex. -/
  | register (n : Nat)
  /-- `next->oneway` returns or throws. -/
  | send (n : Nat) (ok : Bool)
  /-- The wait ends, by the response, a timeout or an interrupt. -/
  | wake (n : Nat)
  /-- `~ResponseFinalizer`. -/
  | finalize (n : Nat)
  /-- `requestMap.remove` after a failed asynchronous send. -/
  | seek (n : Nat)
  | unlink (n : Nat)
  /-- `onCommand`. -/
  | response (correlationId : BitVec 32)
  /-- `dispose` under the mutex. -/
  | dispose (error : ε)
  /-- Its loop completes one future. -/
  | settle

namespace ResponseCorrelator

variable {ε : Type}

/-- `ResponseCorrelator(next)`. -/
def new : ResponseCorrelator ε :=
  ⟨1, ⟨0, List.replicate 16 [], 0, 12⟩, none, fun _ => .none, [], []⟩

def setRequest (s : ResponseCorrelator ε) (n : Nat) (r : Request ε) : ResponseCorrelator ε :=
  { s with requests := Function.update s.requests n r }

def setPhase (s : ResponseCorrelator ε) (n : Nat) (phase : Phase) : ResponseCorrelator ε :=
  s.setRequest n { s.requests n with phase }

def complete (s : ResponseCorrelator ε) (n : Nat) (c : Completion ε) : ResponseCorrelator ε :=
  s.setRequest n ((s.requests n).complete c)

/-- The block under the mutex and, with a prior error, the rest of the call. -/
def register (s : ResponseCorrelator ε) (n : Nat) : ResponseCorrelator ε :=
  match s.priorError with
  | none =>
    match s.requestMap.putImpl hashCode thresholdOf (commandId n) n with
    | (requestMap, .ok _) => { s with requestMap }.setPhase n .registered
    | (requestMap, .error _) => { s with requestMap }.setPhase n .done
  | some error =>
    match (s.requests n).kind with
    | .request => s.setPhase n .done
    | .asyncRequest _ => (s.complete n (.disposal error)).setPhase n .done

/-- `requestMap.values()`, as `dispose` copies it. -/
def futures (s : ResponseCorrelator ε) : List Nat :=
  match s.requestMap.values with
  | .ok values => values
  | .error _ => []

/-- The block of `dispose` under the mutex. -/
def dispose [DecidableEq ε] (s : ResponseCorrelator ε) (error : ε) : ResponseCorrelator ε :=
  match s.priorError with
  | some _ => s
  | none =>
    { s with
      priorError := some error
      requestMap := s.requestMap.clear
      disposing := s.futures
      pendingAtDisposal := (List.range s.nextCommandId).filter fun n => (s.requests n).Pending }

/-- One round of its loop, which ends when a callback throws. -/
def settle (s : ResponseCorrelator ε) : ResponseCorrelator ε :=
  match s.disposing, s.priorError with
  | n :: rest, some error =>
    { s.complete n (.disposal error) with
      disposing := if (s.requests n).throws then [] else rest }
  | _, _ => s

/-- One step of one thread; a step that its thread has not come to changes nothing. -/
def step [DecidableEq ε] (s : ResponseCorrelator ε) : Event ε → ResponseCorrelator ε
  | .oneway => { s with nextCommandId := s.nextCommandId + 1 }
  | .call kind =>
    { s.setRequest s.nextCommandId ⟨kind, .assigned, []⟩ with
      nextCommandId := s.nextCommandId + 1 }
  | .register n => if (s.requests n).phase = .assigned then s.register n else s
  | .send n ok =>
    if (s.requests n).phase = .registered then
      s.setPhase n
        (if ok then .waiting
          else if (s.requests n).kind = .request then .finalizing else .failing)
    else s
  | .wake n =>
    if (s.requests n).phase = .waiting ∧ (s.requests n).kind = .request then
      s.setPhase n .finalizing
    else s
  | .finalize n =>
    if (s.requests n).phase = .finalizing then
      { s with requestMap := (s.requestMap.remove hashCode (commandId n)).1 }.setPhase n .done
    else s
  | .seek n =>
    if (s.requests n).phase = .failing then
      match s.requestMap.seek hashCode (commandId n) with
      | none => s.setPhase n .done
      | some cursor => s.setPhase n (.unlinking cursor)
    else s
  | .unlink n =>
    match (s.requests n).phase with
    | .unlinking cursor =>
      match s.requestMap.unlink hashCode (commandId n) cursor with
      | some requestMap => { s with requestMap }.setPhase n .done
      | none => s.setPhase n .done
    | _ => s
  | .response correlationId =>
    match s.requestMap.remove hashCode correlationId with
    | (requestMap, .ok n) => { s with requestMap }.complete n (.response correlationId)
    | (_, .error _) => s
  | .dispose error => s.dispose error
  | .settle => s.settle

def machine [DecidableEq ε] : Machine (ResponseCorrelator ε) (Event ε) Unit where
  step s event := (s.step event, ())

/-- No removal without the mutex is under way. -/
def Quiet (s : ResponseCorrelator ε) : Prop :=
  ∀ n < s.nextCommandId, (s.requests n).phase.isUnlinking = false

/-- The steps of threads that leave each other alone: nobody uses the map while an entry
is removed without the mutex, no callback throws in front of a future that `dispose` has
yet to complete, and the map can grow. There are fewer than 2^32 commands. -/
def Orderly (s : ResponseCorrelator ε) : Event ε → Prop
  | .oneway | .call _ => s.nextCommandId < 2 ^ 32
  | .register _ => s.Quiet ∧ s.requestMap.HasRoom
  | .finalize _ | .seek _ | .response _ | .dispose _ => s.Quiet
  | .settle => ∀ n ∈ s.disposing.head?, (s.requests n).throws = true → s.disposing = [n]
  | .send _ _ | .wake _ | .unlink _ => True

instance (s : ResponseCorrelator ε) : Decidable s.Quiet :=
  inferInstanceAs (Decidable (∀ n < s.nextCommandId, _))

instance (s : ResponseCorrelator ε) (event : Event ε) : Decidable (s.Orderly event) :=
  match event with
  | .oneway | .call _ => inferInstanceAs (Decidable (_ < _))
  | .register _ => inferInstanceAs (Decidable (_ ∧ _))
  | .finalize _ | .seek _ | .response _ | .dispose _ => inferInstanceAs (Decidable s.Quiet)
  | .settle => inferInstanceAs (Decidable (∀ n ∈ s.disposing.head?, _))
  | .send _ _ | .wake _ | .unlink _ => .isTrue trivial

/-- Every request is completed once at most, and no entry outlives its call. -/
structure Correct [DecidableEq ε] (s : ResponseCorrelator ε) : Prop where
  /-- At most one completion, by the response to the command or by the disposal. -/
  completed : ∀ n, (s.requests n).completions = [] ∨
    (s.requests n).completions = [.response (commandId n)] ∨
    ∃ error, s.priorError = some error ∧ (s.requests n).completions = [.disposal error]
  /-- What was pending at the disposal is completed with its error, once its loop is
  through. -/
  disposed : ∀ n ∈ s.pendingAtDisposal, n ∈ s.disposing ∨
    ∃ error, s.priorError = some error ∧ (s.requests n).completions = [.disposal error]
  settles : (machine.run s (List.replicate s.disposing.length .settle)).disposing = []
  /-- After the disposal there is no entry, and none is added. -/
  closed : s.priorError.isSome = true →
    s.requestMap.size = 0 ∧ ∀ key, s.requestMap.containsKey hashCode key = false
  /-- No entry is left of a call that has ended, nor of a request that was answered. -/
  cleaned : ∀ n < s.nextCommandId,
    (s.requests n).phase = .done ∨ (s.requests n).completions ≠ [] →
      s.requestMap.containsKey hashCode (commandId n) = false

end ResponseCorrelator

end ActivemqCpp.Transport
