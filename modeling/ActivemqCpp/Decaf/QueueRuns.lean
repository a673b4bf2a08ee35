import ActivemqCpp.Decaf.QueueLocks

/-!
# Putting and taking from many threads

Runs of `put`, `offer`, `take`, `poll` and `drainTo` of any number of threads on one
queue. Beside the queue the state keeps what has been linked and what has been delivered,
in order and by whom, and the calls that have ended with what they gave and stored.

* `advance_does` — what a step of these operations can do, said once;
* `Inv` — the account of counter and chain: they differ by the elements that the holder of
  a lock has linked or taken and not yet counted (`owed`);
* `queue_delivers` — elements leave in the order of their insertion, each once, within the
  capacity, and every call did what it says.
-/

namespace ActivemqCpp.Decaf.LinkedBlockingQueue

open Base (Machine ReentrantLock)
open Call
open State
open Function
open List

variable {E : Type}

/-! ## Accounts that balance -/

/-- The operations of these runs. -/
def Op.queues : Op E → Bool
  | .put _ | .offerTimed _ _ | .offer _ | .take | .pollTimed _ | .poll | .drainTo _ _ => true
  | _ => false

def Event.queues : Event E → Bool
  | .call _ op => op.queues
  | .step _ _ => true

/-- What a call gave and stored agrees with how it ended. -/
def Fair (op : Op E) (result : Result) (given stored : List E) : Prop :=
  match op, result with
  | .put value, .returned true | .offerTimed value _, .returned true
  | .offer value, .returned true => given = [value] ∧ stored = []
  | .take, .returned true | .pollTimed _, .returned true | .poll, .returned true =>
    given = [] ∧ ∃ value, stored = [value]
  | .drainTo _ _, .counted n => given = [] ∧ stored.length = n.toNat
  | _, _ => given = [] ∧ stored = []

namespace State

/-- What the calls of a thread have linked, in order. -/
def insertedBy (s : State E) (t : Nat) : List E :=
  (s.inserted.filter fun x => x.1 == t).map Prod.snd

def deliveredTo (s : State E) (t : Nat) : List E :=
  (s.delivered.filter fun x => x.1 == t).map Prod.snd

/-- The ended calls of a thread. -/
def endedBy (s : State E) (t : Nat) : List (Ended E) := s.log.filter fun e => e.thread == t

/-- A queue that began with the elements `xs` is a bounded queue of `xs` and what was
inserted: what has been delivered is in order the first part of it, the rest is in the
queue; and the books of every thread agree with its calls. -/
structure Delivers (xs : List E) (s : State E) : Prop where
  fifo : xs ++ s.inserted.map Prod.snd = s.delivered.map Prod.snd ++ s.nodes
  bounded : (s.nodes.length : Int) ≤ s.capacity
  gave : ∀ t, s.insertedBy t =
    (s.endedBy t).flatMap Ended.given ++ (s.threads t).elim [] given
  got : ∀ t, s.deliveredTo t =
    (s.endedBy t).flatMap Ended.stored ++ (s.threads t).elim [] stored
  fair : ∀ e ∈ s.log, Fair e.op e.result e.given e.stored

end State

/-- The condition: `poll` finds an element when it looks under the lock, no copy throws
where an element is taken off, and the sink of `drainTo` takes what it is given. A decaf
exception of a copy in the loop of `drainTo` would lose nothing; it is excluded with the rest. -/
def soundStep (s : State E) (c : Call E) (choice : Choice) : Bool :=
  match c.phase, c.op, choice with
  | .guarding _, .poll, _ => decide (0 < s.count)
  | .acting, op, .copyThrows _ => decide (op.side = .putting)
  | .draining _, _, .copyThrows _ | .draining _, _, .sinkThrows _ => false
  | _, _, _ => true

def sound (s : State E) : Event E → Bool
  | .call _ _ => true
  | .step t choice =>
    match s.threads t with
    | none => true
    | some c => soundStep s c choice

/-! ## The calls under way -/

/-- What a call has given and stored so far. -/
def Call.Honest (c : Call E) : Prop :=
  match c.phase with
  | .looking | .locking | .guarding _ | .waiting _ => c.given = [] ∧ c.stored = []
  | .acting => c.given = [] ∧ c.stored = [] ∧ ∀ m b, c.op ≠ .drainTo m b
  | .counting => Fair c.op (.returned true) c.given c.stored
  | .draining result =>
    (∃ m b, c.op = .drainTo m b) ∧ c.given = [] ∧ c.stored.length ≤ result.toNat
  | .unlocking _ result | .signalling result | .signalled result =>
    Fair c.op result c.given c.stored
  | _ => False

/-- What a call that holds its lock knows of the counter. -/
def Call.Room (capacity count : Int) (c : Call E) : Prop :=
  match c.phase, c.op.side with
  | .acting, .putting | .counting, .putting => count < capacity
  | .acting, .taking | .counting, .taking => 0 < count
  | .draining result, _ => result ≤ count
  | _, _ => True

/-- The elements that a call has linked or taken and not yet counted. -/
def Call.owes (c : Call E) (side : Side) : Int :=
  if c.op.side = side then
    match c.phase with
    | .counting => 1
    | .draining _ => c.stored.length
    | _ => 0
  else 0

namespace State

def owed (s : State E) (side : Side) : Int :=
  match s.locks side with
  | .free => 0
  | .held owner _ =>
    match s.threads owner with
    | none => 0
    | some c => c.owes side

structure Inv (xs : List E) (s : State E) : Prop extends Delivers xs s where
  locks : s.LockInv
  chain : s.chain = ⟨some s.nodes, s.nodes.length⟩
  count_nonneg : 0 ≤ s.count
  count_le : s.count ≤ s.capacity
  account : s.count + s.owed .putting = s.nodes.length + s.owed .taking
  queues : ∀ t c, s.threads t = some c → c.op.queues = true
  honest : ∀ t c, s.threads t = some c → c.Honest
  room : ∀ t c, s.threads t = some c → c.Room s.capacity s.count

/-! ## What is owed -/

theorem owed_cases (s : State E) (side : Side) :
    (∃ o c, 0 < s.holds o side ∧ s.threads o = some c ∧ s.owed side = c.owes side) ∨
      (s.owed side = 0 ∧ ∀ o c, 0 < s.holds o side → s.threads o ≠ some c) := by
  rcases hlock : s.locks side with _ | ⟨owner, more⟩
  · refine .inr ⟨by simp [owed, hlock], ?_⟩
    intro o c ho
    simp [holds, hlock, ReentrantLock.holds] at ho
  · have howner : 0 < s.holds owner side := by simp [holds, hlock, ReentrantLock.holds]
    rcases hc : s.threads owner with _ | c
    · refine .inr ⟨by simp [owed, hlock, hc], ?_⟩
      intro o c ho
      rw [ReentrantLock.eq_of_holds_pos ho howner, hc]
      exact fun h => by cases h
    · exact .inl ⟨owner, c, howner, hc, by simp [owed, hlock, hc]⟩

theorem owed_of_holds {s : State E} {t : Nat} {c : Call E} {side : Side}
    (hheld : 0 < s.holds t side) (hc : s.threads t = some c) : s.owed side = c.owes side := by
  rcases s.owed_cases side with ⟨o, c', ho, hc', howed⟩ | ⟨-, hnone⟩
  · have hot : o = t := ReentrantLock.eq_of_holds_pos ho hheld
    rw [hot, hc] at hc'
    cases hc'
    exact howed
  · exact absurd hc (hnone t c hheld)

/-- A step of a thread that owes nothing before or after it leaves what is owed. -/
theorem owed_frame {s s' : State E} {t : Nat} {side : Side}
    (hthreads : ∀ u, u ≠ t → s'.threads u = s.threads u)
    (hholds : ∀ u, u ≠ t → s'.holds u = s.holds u)
    (hbefore : ∀ c, s.threads t = some c → c.owes side = 0)
    (hafter : ∀ c, s'.threads t = some c → c.owes side = 0) : s'.owed side = s.owed side := by
  -- a holder other than `t` is the same thread in the same call on both sides
  rcases s.owed_cases side with ⟨o, c, ho, hc, howed⟩ | ⟨hzero, hnone⟩
  · by_cases hot : o = t
    · subst hot
      rw [howed, hbefore c hc]
      rcases s'.owed_cases side with ⟨o', c', ho', hc', howed'⟩ | ⟨hzero', -⟩
      · by_cases hoo : o' = o
        · rw [howed', hafter c' (hoo ▸ hc')]
        · rw [hholds o' hoo] at ho'
          exact absurd (ReentrantLock.eq_of_holds_pos ho' ho) hoo
      · exact hzero'
    · rw [howed]
      exact owed_of_holds (by rw [hholds o hot]; exact ho) (by rw [hthreads o hot]; exact hc)
  · rw [hzero]
    rcases s'.owed_cases side with ⟨o', c', ho', hc', howed'⟩ | ⟨hzero', -⟩
    · by_cases hot : o' = t
      · rw [howed', hafter c' (hot ▸ hc')]
      · rw [hholds o' hot] at ho'
        rw [hthreads o' hot] at hc'
        exact absurd hc' (hnone o' c' ho')
    · exact hzero'

theorem owed_nonneg (s : State E) (side : Side) : 0 ≤ s.owed side := by
  rcases s.owed_cases side with ⟨o, c, -, -, howed⟩ | ⟨hzero, -⟩
  · rw [howed, owes]
    split
    · split <;> omega
    · exact Int.le_refl 0
  · rw [hzero]

end State

/-! ## What a step can do -/

/-- The call may go on in this phase without having done anything to the queue. -/
def Call.MayGo (s : State E) (c : Call E) (next : Phase) : Prop :=
  ({ c with phase := next } : Call E).Honest ∧
    ({ c with phase := next } : Call E).Room s.capacity s.count ∧
    ∀ side, ({ c with phase := next } : Call E).owes side = 0

/-- The element that `put` or `offer` is called with. -/
def Op.value : Op E → Option E
  | .put value | .offerTimed value _ | .offer value => some value
  | _ => none

/-- The steps of the operations, as far as they keep to the condition. -/
inductive Does (s : State E) (c : Call E) : Turn E → Prop
  | passes {move : Move} (howes : ∀ side, c.owes side = 0)
      (hleads : Leads (c.MayGo s) (fun result => Fair c.op result c.given c.stored) move) :
      Does s c (s.turn move)
  | links {value : E} (hphase : c.phase = .acting) (hside : c.op.side = .putting)
      (hvalue : c.op.value = some value) :
      Does s c { s.turn (.goto .counting) with
        chain := s.chain.enqueue value, links := [value] }
  | unhooks {value : E} {rest : List E} (hphase : c.phase = .acting)
      (hside : c.op.side = .taking) (hnodes : s.nodes = value :: rest) :
      Does s c { s.turn (.goto .counting) with
        chain := ⟨some rest, rest.length⟩, stores := [value] }
  | counts {wake : Bool} (hphase : c.phase = .counting) (hside : c.op.side = .putting) :
      Does s c { s.turn (.goto (.unlocking wake (.returned true))) with count := s.count + 1 }
  | uncounts {wake : Bool} (hphase : c.phase = .counting) (hside : c.op.side = .taking) :
      Does s c { s.turn (.goto (.unlocking wake (.returned true))) with count := s.count - 1 }
  | drains {result : Int} {value : E} {rest : List E} (hphase : c.phase = .draining result)
      (hmore : (c.stored.length : Int) < result) (hnodes : s.nodes = value :: rest) :
      Does s c { s.turn (.goto c.phase) with
        chain := ⟨some rest, rest.length⟩, stores := [value] }
  | settles {result : Int} {wake : Bool} (hphase : c.phase = .draining result)
      (hdone : ¬ (c.stored.length : Int) < result) :
      Does s c { s.turn (.goto (.unlocking wake (.counted result))) with
        count := s.count - c.stored.length }

section Steps

variable {s : State E} {c : Call E}

theorem owes_of_phase {phase : Phase} (hphase : c.phase = phase)
    (hcount : phase ≠ .counting := by simp)
    (hdrain : ∀ result, phase ≠ .draining result := by simp) (side : Side) : c.owes side = 0 := by
  unfold owes
  split
  · rw [hphase]
    split
    · exact absurd rfl hcount
    · exact absurd rfl (hdrain _)
    · rfl
  · rfl

/-- A phase before the element is touched. -/
def Phase.early : Phase → Bool
  | .looking | .locking | .guarding _ | .waiting _ => true
  | _ => false

variable (hstored : c.stored = []) (hgiven : c.given = []) {result : Result}

theorem mayGo_unlocking {wake : Bool}
    (hfair : Fair c.op result c.given c.stored) : c.MayGo s (.unlocking wake result) :=
  ⟨hfair, trivial, owes_of_phase rfl⟩

include hstored hgiven

theorem mayGo_early {next : Phase} (hnext : next.early = true) : c.MayGo s next := by
  cases next with
  | looking | locking | guarding | waiting =>
    exact ⟨⟨hgiven, hstored⟩, trivial, owes_of_phase rfl⟩
  | acting | counting | draining | unlocking | signalling | signalled | enteringPut
  | enteringTake | inside | leavingPut | leavingTake => cases hnext

theorem fair_nothing (hresult : result ≠ .returned true)
    (hcounted : ∀ n, result ≠ .counted n) : Fair c.op result c.given c.stored := by
  rw [hgiven, hstored]
  unfold Fair
  split <;> first | exact absurd rfl hresult | exact absurd rfl (hcounted _) | exact ⟨rfl, rfl⟩

theorem mayGo_acting
    (hop : ∀ m b, c.op ≠ .drainTo m b) (hput : c.op.side = .putting → s.count < s.capacity)
    (htake : c.op.side = .taking → 0 < s.count) : c.MayGo s .acting := by
  refine ⟨⟨hgiven, hstored, hop⟩, ?_, owes_of_phase rfl⟩
  unfold Room
  rcases hside : c.op.side with _ | _
  · exact hput hside
  · exact htake hside

theorem look_does (hphase : c.phase = .looking) : Does s c (s.look c) := by
  have howes := owes_of_phase hphase
  have hlock : c.MayGo s .locking := mayGo_early hstored hgiven rfl
  unfold look
  split
  case h_5 => exact .passes howes hlock
  all_goals
    refine .passes howes ?_
    split
    · exact fair_nothing hstored hgiven (by simp) (by simp)
    · exact hlock

variable {choice : Choice}

theorem lock_does (hphase : c.phase = .locking) : Does s c (s.lock c choice) := by
  refine .passes (owes_of_phase hphase) ?_
  split
  · exact fair_nothing hstored hgiven (by simp) (by simp)
  · exact mayGo_early hstored hgiven rfl

theorem guard_does {nanos : Int} (hqueues : c.op.queues = true)
    (hphase : c.phase = .guarding nanos) (hnonneg : 0 ≤ s.count)
    (hle : s.count ≤ s.capacity) (hsound : soundStep s c choice = true) :
    Does s c (s.guard c nanos choice) := by
  have howes := owes_of_phase hphase
  have hfalse : Fair c.op (.returned false) c.given c.stored :=
    fair_nothing hstored hgiven (by simp) (by simp)
  have hawait saved : c.MayGo s (.waiting saved) := mayGo_early hstored hgiven rfl
  unfold soundStep at hsound
  rw [hphase] at hsound
  unfold State.guard
  rcases hop : c.op with value | ⟨value, time⟩ | value | _ | time | _ | _ | ⟨maxElements, toSelf⟩ |
    value | _ | _ | i <;> simp only [hop] at hsound ⊢
  case put | offerTimed =>
    refine .passes howes ?_
    split
    · first | exact hawait | (split; exacts [hfalse, hawait])
    · rename_i hfull
      exact mayGo_acting hstored hgiven (by simp [hop]) (fun _ => lt_of_le_of_ne hle hfull)
        (by simp [hop, Op.side])
  case offer =>
    refine .passes howes ?_
    split
    · rename_i hroom
      exact mayGo_acting hstored hgiven (by simp [hop]) (fun _ => hroom) (by simp [hop, Op.side])
    · exact mayGo_unlocking hfalse
  case take | pollTimed =>
    refine .passes howes ?_
    split
    · first | exact hawait | (split; exacts [hfalse, hawait])
    · rename_i hempty
      exact mayGo_acting hstored hgiven (by simp [hop]) (by simp [hop, Op.side])
        (fun _ => lt_of_le_of_ne hnonneg (Ne.symm hempty))
  case poll =>
    have hsome : 0 < s.count := of_decide_eq_true hsound
    refine .passes howes ?_
    rw [if_pos hsome]
    exact mayGo_acting hstored hgiven (by simp [hop]) (by simp [hop, Op.side]) (fun _ => hsome)
  case drainTo =>
    refine .passes howes ⟨⟨⟨maxElements, toSelf, hop⟩, hgiven, ?_⟩, min_le_right _ _, ?_⟩
    · rw [hstored]
      exact Nat.zero_le _
    · intro side
      simp [owes, hstored]
  case peek | remove | clear | read | unlink => simp [hop, Op.queues] at hqueues

theorem wait_does {saved : Nat} (hphase : c.phase = .waiting saved) :
    Does s c (s.wait saved choice) := by
  refine .passes (owes_of_phase hphase) ?_
  show c.MayGo s _
  split
  · exact mayGo_unlocking (fair_nothing hstored hgiven (by simp) (by simp))
  · exact mayGo_early hstored hgiven rfl

theorem raise_does (howes : ∀ side, c.owes side = 0) (decaf : Bool) :
    Does s c (s.turn (raise decaf)) := by
  have hthrew : Fair c.op (.threw decaf) c.given c.stored :=
    fair_nothing hstored hgiven (by simp) (by simp)
  refine .passes howes ?_
  cases decaf with
  | true => exact mayGo_unlocking hthrew
  | false => exact hthrew

variable (hchain : s.chain = ⟨some s.nodes, s.nodes.length⟩)
include hchain

theorem act_does (hphase : c.phase = .acting)
    (hfront : c.op.side = .taking → s.nodes ≠ []) (hsound : soundStep s c choice = true) :
    Does s c (s.act c choice) := by
  have howes := owes_of_phase hphase
  have hlink {value : E} (hside : c.op.side = .putting) (hvalue : c.op.value = some value) :
      Does s c (s.link value choice) := by
    unfold link
    split
    · exact raise_does hstored hgiven howes _
    · exact .links hphase hside hvalue
  have hunhook (hside : c.op.side = .taking) : Does s c (s.unhook choice) := by
    obtain ⟨value, rest, hnodes⟩ := exists_cons_of_ne_nil (hfront hside)
    have hdequeue : s.chain.dequeue = (⟨some rest, rest.length⟩, some value) := by
      rw [hchain, hnodes]
      rfl
    rw [unhook, hdequeue]
    unfold soundStep at hsound
    rw [hphase] at hsound
    cases choice with
    | copyThrows decaf => simp [hside] at hsound
    | go | interrupt | woken | sinkThrows => exact .unhooks hphase hside hnodes
  unfold act
  rcases hop : c.op with value | ⟨value, time⟩ | value | _ | time | _ | _ | _ | _ | _ | _ | _
  case put | offer | offerTimed => exact hlink (by rw [hop]; rfl) (by rw [hop]; rfl)
  all_goals exact hunhook (by rw [hop]; rfl)

omit hstored

omit hgiven

omit hchain in
theorem tally_does (hphase : c.phase = .counting) : Does s c (s.tally c) := by
  unfold tally
  split
  · rename_i hside
    exact .counts hphase hside
  · rename_i hside
    exact .uncounts hphase hside

theorem drain_does [Inhabited E] {result : Int} (hphase : c.phase = .draining result)
    (hfront : (c.stored.length : Int) < result → s.nodes ≠ [])
    (hsound : soundStep s c choice = true) : Does s c (s.drain c result choice) := by
  unfold drain
  by_cases hmore : c.stored.length < result
  · rw [if_pos hmore]
    obtain ⟨value, rest, hnodes⟩ := exists_cons_of_ne_nil (hfront hmore)
    have hhead : s.chain.head = some (value :: rest) := by
      rw [hchain, hnodes]
    have htail : s.chain.tail - 1 = rest.length := by
      rw [hchain, hnodes]
      rfl
    rw [hhead, htail]
    unfold soundStep at hsound
    rw [hphase] at hsound
    cases choice with
    | copyThrows decaf => simp at hsound
    | sinkThrows decaf => simp at hsound
    | go | interrupt | woken => exact .drains hphase hmore hnodes
  · rw [if_neg hmore]
    unfold settle
    split
    · exact .settles hphase hmore
    · have hzero : c.stored.length = 0 := by omega
      have hturn : s.turn (.goto (.unlocking false (.counted result))) =
          { s.turn (.goto (.unlocking false (.counted result))) with
            count := s.count - c.stored.length } := by
        simp [turn, hzero]
      rw [hturn]
      exact .settles hphase hmore

/-- What a step of these operations can do. -/
theorem advance_does [DecidableEq E] [Inhabited E] (hqueues : c.op.queues = true)
    (hhonest : c.Honest) (hnonneg : 0 ≤ s.count)
    (hle : s.count ≤ s.capacity) (hact : c.phase = .acting → c.op.side = .taking → s.nodes ≠ [])
    (hdrain : ∀ result, c.phase = .draining result → (c.stored.length : Int) < result →
      s.nodes ≠ []) (hsound : soundStep s c choice = true) : Does s c (s.advance c choice) := by
  unfold Honest at hhonest
  unfold advance
  rcases hphase : c.phase with _ | _ | nanos | saved | _ | _ | result | ⟨wake, result⟩ | result |
    result | _ | _ | _ | result | result <;> simp only [hphase] at hhonest ⊢
  case looking => exact look_does hhonest.2 hhonest.1 hphase
  case locking => exact lock_does hhonest.2 hhonest.1 hphase
  case guarding => exact guard_does hhonest.2 hhonest.1 hqueues hphase hnonneg hle hsound
  case waiting => exact wait_does hhonest.2 hhonest.1 hphase
  case acting => exact act_does hhonest.2.1 hhonest.1 hchain hphase (hact hphase) hsound
  case counting => exact tally_does hphase
  case draining => exact drain_does hchain hphase (hdrain result hphase) hsound
  case unlocking =>
    refine .passes (owes_of_phase hphase) ?_
    split
    · exact ⟨hhonest, trivial, owes_of_phase rfl⟩
    · exact hhonest
  case signalling =>
    exact .passes (owes_of_phase hphase)
      ⟨hhonest, trivial, owes_of_phase rfl⟩
  case signalled => exact .passes (owes_of_phase hphase) hhonest

end Steps

/-! ## One step -/

namespace State

variable (s : State E)

theorem perform_data (t : Nat) (c : Call E) (m : Move) :
    (s.perform t c m).chain = s.chain ∧ (s.perform t c m).count = s.count ∧
      (s.perform t c m).capacity = s.capacity ∧ (s.perform t c m).inserted = s.inserted ∧
      (s.perform t c m).delivered = s.delivered := by
  rcases perform_cases s t c (leads_trivial m) with heq | ⟨locks, -, ⟨_, -, heq⟩ | ⟨_, -, heq⟩⟩ <;>
    rw [heq] <;> exact ⟨rfl, rfl, rfl, rfl, rfl⟩

/-- What a thread's step does to the thread: the call goes on with what it gave and stored
in its books, or it ends and takes them to the log. -/
def Continues (s s' : State E) (t : Nat) (c : Call E) (links stores : List E) : Prop :=
  (∃ c', s'.threads t = some c' ∧ s'.log = s.log ∧ c'.op = c.op ∧ c'.given = c.given ++ links ∧
      c'.stored = c.stored ++ stores ∧ c'.Honest ∧ c'.Room s'.capacity s'.count) ∨
    (∃ e, s'.threads t = none ∧ s'.log = s.log ++ [e] ∧ e.thread = t ∧
      e.given = c.given ++ links ∧ e.stored = c.stored ++ stores ∧
      Fair e.op e.result e.given e.stored)

/-- Everything but the thread that steps stays, and the elements that it links and stores
are those that the chain gains and loses. -/
structure StepOf (s s' : State E) (t : Nat) (links stores : List E) : Prop where
  locks : s'.LockInv
  capacity : s'.capacity = s.capacity
  threads : ∀ u, u ≠ t → s'.threads u = s.threads u
  inserted : s'.inserted = s.inserted ++ links.map fun value => (t, value)
  delivered : s'.delivered = s.delivered ++ stores.map fun value => (t, value)
  chain : s'.chain = ⟨some s'.nodes, s'.nodes.length⟩
  nodes : stores ++ s'.nodes = s.nodes ++ links

section Books

variable {xs : List E} {s s' : State E} {t : Nat} {c : Call E} {links stores : List E}

theorem filter_tagged (t u : Nat) (values : List E) :
    ((values.map fun value => (t, value)).filter fun x => x.1 == u).map Prod.snd =
      if u = t then values else [] := by
  by_cases hut : u = t
  · subst hut
    simp [filter_map]
  · have htu : (t == u) = false := beq_false_of_ne (Ne.symm hut)
    simp [filter_map, htu, hut]

/-- The books of every thread still agree with its calls. One lemma for both kinds:
`total` is what was linked or delivered, `entry` what an ended call has in its books. -/
theorem books_next {total total' : List (Nat × E)} {part : Call E → List E}
    {entry : Ended E → List E} {news : List E} (hc : s.threads t = some c)
    (hthreads : ∀ u, u ≠ t → s'.threads u = s.threads u)
    (htotal : total' = total ++ news.map fun value => (t, value))
    (hcall : (∃ c', s'.threads t = some c' ∧ s'.log = s.log ∧ part c' = part c ++ news) ∨
      (∃ e, s'.threads t = none ∧ s'.log = s.log ++ [e] ∧ e.thread = t ∧
        entry e = part c ++ news))
    (h : ∀ u, (total.filter fun x => x.1 == u).map Prod.snd =
      (s.endedBy u).flatMap entry ++ (s.threads u).elim [] part) (u : Nat) :
    (total'.filter fun x => x.1 == u).map Prod.snd =
      (s'.endedBy u).flatMap entry ++ (s'.threads u).elim [] part := by
  rw [htotal, filter_append, map_append, h u, filter_tagged]
  by_cases hut : u = t
  · subst hut
    rw [hc]
    rcases hcall with ⟨c', hc', hlog, hpart⟩ | ⟨e, hend, hlog, hthread, hentry⟩
    · rw [endedBy, endedBy, hlog, hc']
      simp [hpart]
    · have hended : s'.endedBy u = s.endedBy u ++ [e] := by
        simp [endedBy, hlog, hthread]
      rw [hended, hend]
      simp [hentry]
  · have hended : s'.endedBy u = s.endedBy u := by
      rcases hcall with ⟨c', -, hlog, -⟩ | ⟨e, -, hlog, hthread, -⟩
      · rw [endedBy, endedBy, hlog]
      · have hne : (e.thread == u) = false := by
          rw [hthread]
          exact beq_false_of_ne (Ne.symm hut)
        simp [endedBy, hlog, hne]
    rw [if_neg hut, append_nil, hended, hthreads u hut]

/-- The chain is within the capacity: a call that has linked and not counted yet knows
that the counter is below it. -/
theorem bounded_of (hhonest : ∀ t c, s.threads t = some c → c.Honest)
    (hroom : ∀ t c, s.threads t = some c → c.Room s.capacity s.count) (hle : s.count ≤ s.capacity)
    (haccount : s.count + s.owed .putting = s.nodes.length + s.owed .taking) :
    (s.nodes.length : Int) ≤ s.capacity := by
  have htaking := s.owed_nonneg .taking
  rcases s.owed_cases .putting with ⟨o, c, -, hc, howed⟩ | ⟨hzero, -⟩
  · have hhonest := hhonest o c hc
    have hroom := hroom o c hc
    unfold owes at howed
    split at howed
    · rename_i hside
      split at howed
      · rename_i hphase
        simp only [Room, hphase, hside] at hroom
        omega
      · rename_i result hphase
        simp only [Honest, hphase] at hhonest
        obtain ⟨⟨m, b, hop⟩, -⟩ := hhonest
        rw [hop] at hside
        cases hside
      · omega
    · omega
  · omega

/-- The invariant after a step, from what the step does and the account of its numbers. -/
theorem Inv.of_step (h : Inv xs s) (hc : s.threads t = some c) (hstep : StepOf s s' t links stores)
    (hcall : Continues s s' t c links stores) (hnonneg : 0 ≤ s'.count)
    (hle : s'.count ≤ s'.capacity)
    (haccount : s'.count + s'.owed .putting = s'.nodes.length + s'.owed .taking)
    (hroom : ∀ u c', u ≠ t → s.threads u = some c' → c'.Room s'.capacity s'.count) :
    Inv xs s' := by
  -- a call under way is that of the thread that stepped, or one from before
  have hcalls {P : Call E → Prop} (hother : ∀ u c', u ≠ t → s.threads u = some c' → P c')
      (hown : ∀ c', c'.op = c.op → c'.Honest → c'.Room s'.capacity s'.count → P c') :
      ∀ u c', s'.threads u = some c' → P c' := by
    intro u c' hc'
    by_cases hut : u = t
    · subst hut
      rcases hcall with ⟨c'', hc'', -, hop, -, -, hhonest, hroom⟩ | ⟨e, hend, -⟩
      · rw [hc''] at hc'
        cases hc'
        exact hown c' hop hhonest hroom
      · rw [hend] at hc'
        cases hc'
    · rw [hstep.threads u hut] at hc'
      exact hother u c' hut hc'
  have hhonest : ∀ u c', s'.threads u = some c' → c'.Honest :=
    hcalls (fun u c' _ hc' => h.honest u c' hc') fun _ _ hhonest _ => hhonest
  have hrooms : ∀ u c', s'.threads u = some c' → c'.Room s'.capacity s'.count :=
    hcalls hroom fun _ _ _ hroom => hroom
  have hqueues : ∀ u c', s'.threads u = some c' → c'.op.queues = true :=
    hcalls (fun u c' _ hc' => h.queues u c' hc') fun c' hop _ _ => by
      rw [hop]
      exact h.queues t c hc
  have hfifo : xs ++ s'.inserted.map Prod.snd = s'.delivered.map Prod.snd ++ s'.nodes := by
    rw [hstep.inserted, hstep.delivered, map_append, map_append, ← append_assoc,
      h.fifo, map_map, map_map]
    simp only [comp_def, map_id', append_assoc]
    rw [hstep.nodes]
  have hgave : ∀ u, s'.insertedBy u =
      (s'.endedBy u).flatMap Ended.given ++ (s'.threads u).elim [] given := by
    refine books_next hc hstep.threads hstep.inserted ?_ h.gave
    rcases hcall with ⟨c', hc', hlog, -, hgiven, -⟩ | ⟨e, hend, hlog, hthread, hgiven, -⟩
    · exact .inl ⟨c', hc', hlog, hgiven⟩
    · exact .inr ⟨e, hend, hlog, hthread, hgiven⟩
  have hgot : ∀ u, s'.deliveredTo u =
      (s'.endedBy u).flatMap Ended.stored ++ (s'.threads u).elim [] stored := by
    refine books_next hc hstep.threads hstep.delivered ?_ h.got
    rcases hcall with ⟨c', hc', hlog, -, -, hstored, -⟩ | ⟨e, hend, hlog, hthread, -, hstored, -⟩
    · exact .inl ⟨c', hc', hlog, hstored⟩
    · exact .inr ⟨e, hend, hlog, hthread, hstored⟩
  have hfair : ∀ e ∈ s'.log, Fair e.op e.result e.given e.stored := by
    intro e he
    rcases hcall with ⟨c', -, hlog, -⟩ | ⟨e', -, hlog, -, -, -, hfair⟩
    · rw [hlog] at he
      exact h.fair e he
    · rw [hlog, mem_append, mem_singleton] at he
      rcases he with he | rfl
      · exact h.fair e he
      · exact hfair
  exact ⟨⟨hfifo, bounded_of hhonest hrooms hle haccount, hgave, hgot, hfair⟩, hstep.locks,
    hstep.chain, hnonneg, hle, haccount, hqueues, hhonest, hrooms⟩

end Books

/-! ### Steps that leave the queue alone -/

theorem record_turn (t : Nat) (c : Call E) (m : Move) : s.record t c (s.turn m) = s := by
  unfold record
  split <;> simp [turn]

theorem keep_turn (c : Call E) (m : Move) : keep c (s.turn m) = c := by
  simp [keep, turn]

variable {xs : List E} {s : State E}

theorem Inv.passes {t : Nat} {c : Call E} {m : Move} (h : Inv xs s)
    (hc : s.threads t = some c) (hlocks : (s.perform t c m).LockInv)
    (howes : ∀ side, c.owes side = 0)
    (hleads : Leads (c.MayGo s) (fun result => Fair c.op result c.given c.stored) m) :
    Inv xs (s.perform t c m) := by
  obtain ⟨hchain, hcount, hcapacity, hinserted, hdelivered⟩ := perform_data s t c m
  have hnodes : (s.perform t c m).nodes = s.nodes := by rw [nodes, hchain, nodes]
  have hother u (hut : u ≠ t) := perform_of_ne s c m hut
  have hstep : StepOf s (s.perform t c m) t [] [] :=
    { locks := hlocks
      capacity := hcapacity
      threads := fun u hut => (hother u hut).1
      inserted := by simp [hinserted]
      delivered := by simp [hdelivered]
      chain := by rw [hchain, hnodes, h.chain]
      nodes := by simp [hnodes] }
  have hgoes : s.perform t c m = s ∨
      (Continues s (s.perform t c m) t c [] [] ∧
        ∀ side c', (s.perform t c m).threads t = some c' → c'.owes side = 0) := by
    rcases perform_leads s t c hleads with hsame | ⟨next, ⟨hhonest, hroom, hzero⟩, hthread, hlog⟩ |
      ⟨result, hfair, hend, hlog⟩
    · exact .inl hsame
    · refine .inr ⟨.inl ⟨_, hthread, hlog, rfl, by simp, by simp, hhonest, ?_⟩, ?_⟩
      · rw [hcapacity, hcount]
        exact hroom
      · intro side c' hc'
        rw [hthread] at hc'
        cases hc'
        exact hzero side
    · refine .inr ⟨.inr ⟨_, hend, hlog, rfl, by simp, by simp, hfair⟩, ?_⟩
      intro side c' hc'
      rw [hend] at hc'
      cases hc'
  rcases hgoes with hsame | ⟨hcall, hzero⟩
  · rw [hsame]
    exact h
  · have howed side : (s.perform t c m).owed side = s.owed side := by
      refine owed_frame (fun u hut => (hother u hut).1) (fun u hut => (hother u hut).2)
        (fun c' hc' => ?_) (hzero side)
      rw [hc] at hc'
      cases hc'
      exact howes side
    refine h.of_step hc hstep hcall ?_ ?_ ?_ ?_
    · rw [hcount]
      exact h.count_nonneg
    · rw [hcount, hcapacity]
      exact h.count_le
    · rw [hcount, hnodes, howed, howed]
      exact h.account
    · intro u c' _ hc'
      rw [hcapacity, hcount]
      exact h.room u c' hc'

/-! ### Steps that work on the queue, under the call's own lock -/

section Works

variable {xs : List E} {s : State E} {t : Nat} {c : Call E} (hc : s.threads t = some c)
  (howns : c.phase.Owns c.op)

theorem fair_put {op : Op E} {value : E} (hvalue : op.value = some value) :
    Fair op (.returned true) [value] [] := by
  cases op with
  | put | offer | offerTimed =>
    cases hvalue
    exact ⟨rfl, rfl⟩
  | take | pollTimed | poll | peek | drainTo | remove | clear | read | unlink => cases hvalue

theorem fair_take {op : Op E} (value : E) (hqueues : op.queues = true) (hside : op.side = .taking)
    (hop : ∀ m b, op ≠ .drainTo m b) : Fair op (.returned true) [] [value] := by
  cases op with
  | take | pollTimed | poll => exact ⟨rfl, value, rfl⟩
  | drainTo m b => exact absurd rfl (hop m b)
  | put | offerTimed | offer => cases hside
  | peek | remove | clear | read | unlink => cases hqueues

include hc howns

theorem holds_of_owns (hlocks : s.LockInv) : 0 < s.holds t c.op.side := by
  rw [(held_iff howns.1).mp (hlocks t c hc), howns.2, one, if_pos rfl]
  exact Nat.succ_pos _

variable {c' : Call E}

/-- What the others know of the counter stays true: it moves away from them. -/
theorem room_other {u : Nat} {count : Int} (h : Inv xs s) (hut : u ≠ t) (hc' : s.threads u = some c')
    (hdir : (c.op.side = .putting ∧ s.count ≤ count) ∨ (c.op.side = .taking ∧ count ≤ s.count)) :
    c'.Room s.capacity count := by
  have hroom := h.room u c' hc'
  -- two calls that own their locks are at different ends
  have hsides (howns' : c'.phase.Owns c'.op) : c'.op.side ≠ c.op.side := by
    intro hside
    have hheld := holds_of_owns hc' howns' h.locks
    rw [hside] at hheld
    exact hut (ReentrantLock.eq_of_holds_pos hheld (holds_of_owns hc howns h.locks))
  unfold Room at hroom ⊢
  split at hroom
  case h_6 => trivial
  case h_5 result hphase =>
    have hne := hsides (by rw [hphase]; exact owns_draining _ _)
    have hside : c'.op.side = .taking := by
      have hhonest := h.honest u c' hc'
      simp only [Honest, hphase] at hhonest
      obtain ⟨⟨m, b, hop⟩, -⟩ := hhonest
      rw [hop]
      rfl
    rcases hdir with ⟨-, hcount⟩ | ⟨htaking, -⟩
    · exact hroom.trans hcount
    · exact absurd (hside.trans htaking.symm) hne
  all_goals
    rename_i hphase hside
    have hne := hsides (by rw [hphase]; exact ⟨rfl, fun _ => rfl⟩)
    rw [hside] at hne
    rcases hdir with ⟨hown, hcount⟩ | ⟨hown, hcount⟩
    · first
      | exact absurd hown.symm hne
      | exact lt_of_lt_of_le hroom hcount
    · first
      | exact absurd hown.symm hne
      | exact lt_of_le_of_lt hcount hroom

/-- What is owed after a step under the call's own lock. -/
theorem owed_works (s' : State E) (side : Side) (hlocks : s.LockInv) (hheld : s'.locks = s.locks)
    (hthreads : s'.threads = update s.threads t (some c')) (hop : c'.op = c.op) :
    s'.owed side = s.owed side + c'.owes side - c.owes side := by
  have hc' : s'.threads t = some c' := by rw [hthreads, update_self]
  have hholds : s'.holds = s.holds := by
    funext u x
    rw [holds, holds, hheld]
  by_cases hside : c.op.side = side
  · subst hside
    have hpos := holds_of_owns hc howns hlocks
    rw [owed_of_holds hpos hc, owed_of_holds (by rw [hholds]; exact hpos) hc']
    omega
  · have hzero : c.owes side = 0 := by rw [owes, if_neg hside]
    have hzero' : c'.owes side = 0 := by rw [owes, hop, if_neg hside]
    rw [owed_frame (s := s)]
    · omega
    · intro u hut
      rw [hthreads, update_of_ne hut]
    · intro u _
      rw [hholds]
    · intro c'' hc''
      rw [hc] at hc''
      cases hc''
      exact hzero
    · intro c'' hc''
      rw [hc'] at hc''
      cases hc''
      exact hzero'

/-- The invariant after a step under the call's own lock that goes on to `next`. -/
theorem Inv.works {turn : Turn E} {next : Phase} (h : Inv xs s) (nodes' : List E)
    (hc' : c' = { keep c turn with phase := next })
    (hlocks : ((s.record t c turn).goto t (keep c turn) next).LockInv)
    (hchain : turn.chain = ⟨some nodes', nodes'.length⟩)
    (hnodes : turn.stores ++ nodes' = s.nodes ++ turn.links) (hhonest : c'.Honest)
    (hroom : c'.Room s.capacity turn.count) (hnonneg : 0 ≤ turn.count)
    (hle : turn.count ≤ s.capacity)
    (haccount : turn.count - s.count + (c'.owes .putting - c.owes .putting) =
      nodes'.length - s.nodes.length + (c'.owes .taking - c.owes .taking))
    (hdir : (c.op.side = .putting ∧ s.count ≤ turn.count) ∨
      (c.op.side = .taking ∧ turn.count ≤ s.count)) :
    Inv xs ((s.record t c turn).goto t (keep c turn) next) := by
  subst hc'
  have howed side := owed_works hc
    howns ((s.record t c turn).goto t (keep c turn) next) side h.locks rfl rfl rfl
  have hnodes' : ((s.record t c turn).goto t (keep c turn) next).nodes = nodes' := by
    show turn.chain.head.getD [] = nodes'
    rw [hchain]
    rfl
  have hdelivered : (s.record t c turn).delivered =
      s.delivered ++ turn.stores.map fun value => (t, value) := by
    have hqueues := h.queues t c hc
    unfold record
    split
    · rename_i hop
      rw [hop] at hqueues
      cases hqueues
    · rfl
  have hstep : StepOf s ((s.record t c turn).goto t (keep c turn) next) t turn.links turn.stores :=
    { locks := hlocks
      capacity := rfl
      threads := fun u hut => update_of_ne hut _ _
      inserted := rfl
      delivered := hdelivered
      chain := by rw [hnodes']; exact hchain
      nodes := by rw [hnodes']; exact hnodes }
  refine h.of_step hc hstep
    (.inl ⟨_, threads_goto_self _ _ _ _, rfl, rfl, rfl, rfl, hhonest, hroom⟩) hnonneg hle ?_ ?_
  · rw [howed, howed, hnodes']
    have hbefore := h.account
    dsimp only at haccount
    show turn.count + _ = _
    omega
  · intro u c' hut hu
    have hother := room_other hc howns h hut hu hdir
    exact hother

omit howns

/-- Where a call is about to take an element off, there is one. -/
theorem Inv.front (h : Inv xs s) : (c.phase = .acting → c.op.side = .taking → s.nodes ≠ []) ∧
      (∀ result, c.phase = .draining result → (c.stored.length : Int) < result → s.nodes ≠ []) := by
  have haccount := h.account
  have hputting := s.owed_nonneg .putting
  have hroom := h.room t c hc
  refine ⟨?_, ?_⟩
  · intro hphase hside hnil
    have hheld := holds_of_owns hc (by rw [hphase]; exact owns_acting _) h.locks
    rw [hside] at hheld
    have howed := owed_of_holds hheld hc
    rw [owes_of_phase hphase] at howed
    simp only [Room, hphase, hside] at hroom
    rw [hnil, length_nil] at haccount
    omega
  · intro result hphase hmore hnil
    have hhonest := h.honest t c hc
    simp only [Honest, hphase] at hhonest
    obtain ⟨⟨m, b, hop⟩, -⟩ := hhonest
    have hside : c.op.side = .taking := by rw [hop]; rfl
    have hheld := holds_of_owns hc (by rw [hphase]; exact owns_draining _ _) h.locks
    have howed := owed_of_holds hheld hc
    simp only [owes, hside, hphase] at howed
    simp only [Room, hphase] at hroom
    rw [hnil, length_nil] at haccount
    omega

/-- What the steps do keeps the invariant. -/
theorem Inv.does {turn : Turn E} (h : Inv xs s)
    (hlocks : ((s.record t c turn).perform t (keep c turn) turn.move).LockInv)
    (hdoes : Does s c turn) : Inv xs ((s.record t c turn).perform t (keep c turn) turn.move) := by
  have hhonest := h.honest t c hc
  have hroom := h.room t c hc
  have hnonneg := h.count_nonneg
  have hle := h.count_le
  cases hdoes with
  | passes howes hleads =>
    rw [record_turn, keep_turn] at hlocks ⊢
    exact h.passes hc hlocks howes hleads
  | @links value hphase hside hvalue =>
    simp only [Honest, hphase] at hhonest
    simp only [Room, hphase, hside] at hroom
    obtain ⟨hgiven, hstored, -⟩ := hhonest
    refine h.works hc (by rw [hphase]; exact owns_acting _) (s.nodes ++ [value]) rfl hlocks
      ?_ rfl ?_ ?_ hnonneg hle ?_ (.inl ⟨hside, le_refl _⟩)
    · rw [h.chain]
      simp [Chain.enqueue]
    · show Fair c.op (.returned true) (c.given ++ [value]) (c.stored ++ [])
      rw [hgiven, hstored]
      exact fair_put hvalue
    · simp only [Room, keep, hside]
      exact hroom
    · simp [owes, keep, hside, hphase, turn]
  | @unhooks value rest hphase hside hnodes =>
    simp only [Honest, hphase] at hhonest
    simp only [Room, hphase, hside] at hroom
    obtain ⟨hgiven, hstored, hop⟩ := hhonest
    refine h.works hc (by rw [hphase]; exact owns_acting _) rest rfl hlocks
      rfl ?_ ?_ ?_ hnonneg hle ?_ (.inr ⟨hside, le_refl _⟩)
    · simp [hnodes, turn]
    · show Fair c.op (.returned true) (c.given ++ []) (c.stored ++ [value])
      rw [hgiven, hstored]
      exact fair_take value (h.queues t c hc) hside hop
    · simp only [Room, keep, hside]
      exact hroom
    · simp [owes, keep, hside, hphase, turn, hnodes]
  | @counts wake hphase hside =>
    simp only [Honest, hphase] at hhonest
    simp only [Room, hphase, hside] at hroom
    refine h.works hc (by rw [hphase]; exact owns_counting _) s.nodes rfl hlocks
      h.chain (by simp [turn]) ?_ trivial ?_ ?_ ?_ (.inl ⟨hside, ?_⟩)
    · show Fair c.op (.returned true) (c.given ++ []) (c.stored ++ [])
      rw [append_nil, append_nil]
      exact hhonest
    · show 0 ≤ s.count + 1
      omega
    · show s.count + 1 ≤ s.capacity
      omega
    · simp [owes, hside, hphase]
    · show s.count ≤ s.count + 1
      omega
  | @uncounts wake hphase hside =>
    simp only [Honest, hphase] at hhonest
    simp only [Room, hphase, hside] at hroom
    refine h.works hc (by rw [hphase]; exact owns_counting _) s.nodes rfl hlocks
      h.chain (by simp [turn]) ?_ trivial ?_ ?_ ?_ (.inr ⟨hside, ?_⟩)
    · show Fair c.op (.returned true) (c.given ++ []) (c.stored ++ [])
      rw [append_nil, append_nil]
      exact hhonest
    · show 0 ≤ s.count - 1
      omega
    · show s.count - 1 ≤ s.capacity
      omega
    · simp [owes, hside, hphase]
    · show s.count - 1 ≤ s.count
      omega
  | @drains result value rest hphase hmore hnodes =>
    simp only [Honest, hphase] at hhonest
    simp only [Room, hphase] at hroom
    obtain ⟨⟨m, b, hop⟩, hgiven, hlength⟩ := hhonest
    have hside : c.op.side = .taking := by rw [hop]; rfl
    refine h.works hc (by rw [hphase]; exact owns_draining _ _) rest rfl hlocks
      rfl ?_ ?_ ?_ hnonneg hle ?_ (.inr ⟨hside, le_refl _⟩)
    · simp [hnodes, turn]
    · simp only [keep, hphase]
      refine ⟨⟨m, b, hop⟩, by simp [hgiven, turn], ?_⟩
      rw [length_append, length_singleton]
      omega
    · simp only [hphase]
      exact hroom
    · simp [owes, keep, hside, hphase, turn, hnodes]
  | @settles result wake hphase hdone =>
    simp only [Honest, hphase] at hhonest
    simp only [Room, hphase] at hroom
    obtain ⟨⟨m, b, hop⟩, hgiven, hlength⟩ := hhonest
    have hside : c.op.side = .taking := by rw [hop]; rfl
    refine h.works hc (by rw [hphase]; exact owns_draining _ _) s.nodes rfl hlocks
      h.chain (by simp [turn]) ?_ trivial ?_ ?_ ?_ (.inr ⟨hside, ?_⟩)
    · show Fair c.op (.counted result) (c.given ++ []) (c.stored ++ [])
      rw [append_nil, append_nil, hop]
      exact ⟨hgiven, by omega⟩
    · show 0 ≤ s.count - c.stored.length
      omega
    · show s.count - c.stored.length ≤ s.capacity
      omega
    · simp [owes, hside, hphase]
    · show s.count - c.stored.length ≤ s.count
      omega

end Works

/-- A call enters. -/
theorem Inv.enter {t : Nat} {op : Op E} (h : Inv xs s) (hout : s.threads t = none)
    (hlocks : (s.enter t op).LockInv) (hop : op.queues = true) : Inv xs (s.enter t op) := by
  have hentry : op.entry.early = true := by
    cases op with
    | put | offerTimed | offer | take | pollTimed | poll | drainTo => rfl
    | peek | remove | clear | read | unlink => cases hop
  have hmay : (⟨op, op.entry, s.holds t, [], []⟩ : Call E).MayGo s op.entry :=
    mayGo_early rfl rfl hentry
  have hself : (s.enter t op).threads t = some ⟨op, op.entry, s.holds t, [], []⟩ :=
    update_self t _ s.threads
  have hother u (hut : u ≠ t) : (s.enter t op).threads u = s.threads u :=
    update_of_ne hut _ _
  have howed side : (s.enter t op).owed side = s.owed side := by
    refine owed_frame hother (fun _ _ => rfl) (fun c' hc' => ?_) (fun c' hc' => ?_)
    · rw [hout] at hc'
      cases hc'
    · rw [hself] at hc'
      cases hc'
      exact hmay.2.2 side
  have hcalls {P : Call E → Prop} (hnew : P ⟨op, op.entry, s.holds t, [], []⟩)
      (hold : ∀ u c, s.threads u = some c → P c) :
      ∀ u c, (s.enter t op).threads u = some c → P c := by
    intro u c hc
    by_cases hut : u = t
    · subst hut
      rw [hself] at hc
      cases hc
      exact hnew
    · rw [hother u hut] at hc
      exact hold u c hc
  -- a new call has empty books, like no call
  have hbooks {part : Call E → List E} (hnew : part ⟨op, op.entry, s.holds t, [], []⟩ = []) u :
      ((s.enter t op).threads u).elim [] part = (s.threads u).elim [] part := by
    by_cases hut : u = t
    · subst hut
      rw [hself, hout]
      exact hnew
    · rw [hother u hut]
  exact
    { fifo := h.fifo
      bounded := h.bounded
      gave := fun u => (h.gave u).trans (by rw [hbooks rfl]; rfl)
      got := fun u => (h.got u).trans (by rw [hbooks rfl]; rfl)
      fair := h.fair
      locks := hlocks
      chain := h.chain
      count_nonneg := h.count_nonneg
      count_le := h.count_le
      account := by
        rw [howed, howed]
        exact h.account
      queues := hcalls hop h.queues
      honest := hcalls hmay.1 h.honest
      room := hcalls hmay.2.1 h.room }

theorem inv_new {capacity : Int} (hxs : (xs.length : Int) ≤ capacity) :
    Inv xs (new capacity xs) where
  fifo := by simp [new, quiet, nodes]
  bounded := hxs
  gave := fun t => rfl
  got := fun t => rfl
  fair := fun e he => (by cases he)
  locks := fun t c hc => (by cases hc)
  chain := rfl
  count_nonneg := Int.natCast_nonneg _
  count_le := hxs
  account := rfl
  queues := fun t c hc => (by cases hc)
  honest := fun t c hc => (by cases hc)
  room := fun t c hc => (by cases hc)

variable [DecidableEq E] [Inhabited E]

/-- One step of a run. -/
theorem Inv.next {a : Event E} (h : Inv xs s) (hops : a.queues = true)
    (hsound : sound s a = true) : Inv xs (s.next a) := by
  have hlocks := h.locks.next a
  cases a with
  | call t op =>
    rcases s.next_call t op with hnext | ⟨hout, hnext⟩ <;> rw [hnext] at hlocks ⊢
    · exact h
    · exact h.enter hout hlocks hops
  | step t choice =>
    rcases hc : s.threads t with _ | c
    · rw [next_idle hc]
      exact h
    · rw [next_step hc] at hlocks ⊢
      rw [sound, hc] at hsound
      obtain ⟨hact, hdrain⟩ := h.front hc
      exact h.does hc hlocks (advance_does h.chain (h.queues t c hc) (h.honest t c hc)
        h.count_nonneg h.count_le hact hdrain hsound)

end State

variable [DecidableEq E] [Inhabited E]

/-- **A bounded queue for many threads.** From a new queue with any elements, in every
interleaving of `put`, `offer`, `take`, `poll` and `drainTo` whose steps all meet the
condition: what has been delivered is, in order and once each, the first part of what was
there and inserted, the rest is in the queue and within its capacity; every thread's calls
account for what it inserted and was delivered, and a call that returned true or a number
gave or stored exactly that. -/
theorem queue_delivers (capacity : Int) (xs : List E) (as : List (Event E))
    (hxs : (xs.length : Int) ≤ capacity) (hops : ∀ a ∈ as, a.queues = true)
    (hsound : machine.Meets (fun s a => sound s a = true) (new capacity xs) as) :
    machine.Always (Delivers xs) (new capacity xs) as := by
  have hmeets := (Machine.meets_of_forall hops (new capacity xs)).and hsound
  refine (Machine.invariant_of_meets ?_ (inv_new hxs) hmeets).mono ?_
  · exact fun s a h hok => h.next hok.1 hok.2
  · exact fun s h => h.toDelivers

/-- Two threads on a queue of capacity 1: the `put` of the first waits for the `take` of the
second. -/
theorem queue_delivers_two :
    machine.Always (Delivers [7]) (new 1 [7] : State Nat)
      [.call 0 (.put 8), .step 0 .go, .step 0 .go, .call 1 .take, .step 1 .go, .step 1 .go,
        .step 1 .go, .step 1 .go, .step 0 .go, .step 1 .go, .step 0 .go, .step 0 .go] :=
  queue_delivers 1 [7] _ (by decide) (by decide) (by decide)

/-- `poll` looks at the counter, another thread takes the only element, and `poll` returns
true with nothing in its result. And a sink that does not take an element: the element is
gone, and the next `take` delivers a default value that nobody inserted. -/
theorem poll_returns_nothing :
    (let s := machine.run (new 2 [7] : State Nat)
      [.call 0 .poll, .step 0 .go, .call 1 .take, .step 1 .go, .step 1 .go, .step 1 .go,
        .step 1 .go, .step 1 .go, .step 0 .go, .step 0 .go, .step 0 .go]
    s.log.map (fun e => (e.op, e.result, e.stored)) =
      [(.take, .returned true, [7]), (.poll, .returned true, [])]) ∧
    (let s := machine.run (new 2 [7] : State Nat)
      [.call 0 (.drainTo 5 false), .step 0 .go, .step 0 .go, .step 0 .go,
        .step 0 (.sinkThrows true), .step 0 .go, .call 1 .take, .step 1 .go, .step 1 .go,
        .step 1 .go, .step 1 .go, .step 1 .go]
    s.log.map (fun e => (e.op, e.result, e.stored)) =
      [(.drainTo 5 false, .threw true, []), (.take, .returned true, [0])] ∧
      s.inserted = []) := by
  decide

end ActivemqCpp.Decaf.LinkedBlockingQueue
