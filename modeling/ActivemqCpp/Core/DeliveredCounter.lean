import ActivemqCpp.Core.AckRuns
import ActivemqCpp.Core.ConsumerRollback

/-!
# The counter of delivered messages

`ackLater` counts the messages that an acknowledgement stands for in `deliveredCounter` and
starts again from zero when it sends the acknowledgement.

* **Batches** — `deliverAcks` takes the pending acknowledgement and leaves the counter, so
  that the next batch counts the last one again (`flush_counts_twice`). As long as nothing is
  consumed between a flush and the end, what is acknowledged is what was consumed
  (`batch_acks_sum`).
* **Rolling back** — `rollback` subtracts the delivered messages from the counter, also those
  that the counter has forgotten; `acknowledge` stops at zero. The counter stays a count, and
  every acknowledgement is for at least one message, as long as no rollback finds more
  delivered messages than are counted (`counter_sensible`).
-/

namespace ActivemqCpp.Core

open Base Commands Consumer MessageAck Consuming

/-! ## Batches of acknowledgements -/

/-- How many messages an acknowledgement, if there is one, stands for. -/
def MessageAck.countOf (ack : Option MessageAck) : Int := ack.elim 0 messageCount

namespace Consumer

variable {cfg : AckSettings}

/-- How many messages the acknowledgements sent so far stand for. -/
def acknowledged (s : Consumer cfg) : Int := (s.sent.map messageCount).sum

theorem acknowledged_of_sent {s s' : Consumer cfg} {ack : MessageAck}
    (h : s'.sent = ack :: s.sent) : s'.acknowledged = ack.messageCount + s.acknowledged := by
  rw [acknowledged, h]
  exact List.sum_cons

variable (pending : Option MessageAck)

theorem messageCount_supersede (ack : MessageAck) :
    (supersede pending ack).messageCount = ack.messageCount := by
  unfold supersede
  split
  · rfl
  · split <;> rfl

theorem ackType_supersede (ack : MessageAck) : (supersede pending ack).ackType = ack.ackType := by
  unfold supersede
  split
  · rfl
  · split <;> rfl

end Consumer

namespace Consuming

variable {cfg : AckSettings} {σ : Consuming cfg}

/-- How many messages were consumed: all taken but the one in hand. -/
def consumed (σ : Consuming cfg) : Int := σ.taken.length - σ.inHand.toList.length

/-- The acknowledgements sent stand for no more messages than were consumed, and for all of
them when none is left to be sent. -/
structure Balanced (σ : Consuming cfg) : Prop where
  atMost : σ.consumer.acknowledged ≤ σ.consumed
  exactly : σ.consumer.pendingAck = none → σ.consumer.ackTask = none →
    σ.consumer.acknowledged = σ.consumed

/-- The books of a consumer that acknowledges in batches, `n` messages into its life. -/
structure Books (s : Consumer cfg) (n : Int) : Prop where
  balance : s.acknowledged + countOf s.ackTask + countOf s.pendingAck = n
  task : ∀ ack ∈ s.ackTask, 0 ≤ ack.messageCount
  pending : ∀ ack ∈ s.pendingAck, ack.ackType = .consumed ∧ ack.messageCount = s.deliveredCounter
  counter : 0 ≤ s.deliveredCounter
  flag : s.deliveringAcks = s.ackTask.isSome
  delivered : s.deliveredMessages = []
  uninterrupted : s.isClearDeliveredList = false

theorem Books.balanced (h : Books σ.consumer σ.consumed) : σ.Balanced := by
  have hbalance := h.balance
  have htask : 0 ≤ countOf σ.consumer.ackTask := by
    cases hack : σ.consumer.ackTask with
    | none => exact le_refl 0
    | some ack => exact h.task ack hack
  have hpending : 0 ≤ countOf σ.consumer.pendingAck := by
    cases hack : σ.consumer.pendingAck with
    | none => exact le_refl 0
    | some ack =>
      change 0 ≤ ack.messageCount
      rw [(h.pending ack hack).2]
      exact h.counter
  refine ⟨by omega, fun hnone hidle => ?_⟩
  rw [hnone, hidle] at hbalance
  dsimp only [countOf, Option.elim] at hbalance
  omega

theorem books_new (auditDepth : Nat) (maxProducers : Int) :
    Books (new cfg auditDepth maxProducers).consumer (new cfg auditDepth maxProducers).consumed :=
  ⟨rfl, forall_mem_none, forall_mem_none, le_refl 0, rfl, rfl, rfl⟩

variable {s : Consumer cfg} {n : Int}

/-- One more message is consumed; the pending acknowledgement counts all that are counted. -/
theorem Books.ackLater (h : Books s n) (hcounts : s.pendingAck ≠ none ∨ s.deliveredCounter = 0)
    (dispatch : MessageDispatch) : Books (s.ackLater dispatch .consumed) (n + 1) := by
  have hcount : countOf s.pendingAck = s.deliveredCounter := by
    cases hack : s.pendingAck with
    | none => exact (hcounts.resolve_left fun hne => hne hack).symm
    | some ack => exact (h.pending ack hack).2
  have hnothing : superseded s.pendingAck
      (.ofDispatch dispatch .consumed (s.deliveredCounter + 1)) = [] := by
    cases hack : s.pendingAck with
    | none => rfl
    | some ack => exact if_pos (.inl (h.pending ack hack).1)
  have hbalance := h.balance
  have hcounter := h.counter
  unfold Consumer.ackLater
  dsimp only
  rw [hnothing]
  split
  · refine ⟨?_, h.task, forall_mem_none, le_refl 0, h.flag, h.delivered, h.uninterrupted⟩
    rw [acknowledged_of_sent rfl, messageCount_supersede]
    dsimp only [countOf, Option.elim, ofDispatch] at hbalance hcount ⊢
    omega
  · refine ⟨?_, h.task, fun ack hack => ?_, by dsimp only; omega, h.flag, h.delivered,
      h.uninterrupted⟩
    · change s.acknowledged + countOf s.ackTask + (supersede s.pendingAck _).messageCount = n + 1
      rw [messageCount_supersede]
      dsimp only [ofDispatch]
      omega
    · cases hack
      exact ⟨ackType_supersede _ _, messageCount_supersede _ _⟩

/-- A message that has expired is acknowledged at once. -/
theorem Books.expire (h : Books s n) (dispatch : MessageDispatch) :
    Books (s.acknowledgeOne dispatch .expired) (n + 1) := by
  have hbalance := h.balance
  refine ⟨?_, h.task, h.pending, h.counter, h.flag, ?_, h.uninterrupted⟩
  · change 1 + s.acknowledged + countOf s.ackTask + countOf s.pendingAck = n + 1
    omega
  · change s.deliveredMessages.erase dispatch = []
    rw [h.delivered]
    rfl

theorem Books.runAckTask (h : Books s n) : Books s.runAckTask n := by
  unfold Consumer.runAckTask
  split
  next => exact h
  next ack htask =>
    have hbalance := h.balance
    refine ⟨?_, forall_mem_none, h.pending, h.counter, rfl, h.delivered, h.uninterrupted⟩
    rw [acknowledged_of_sent rfl]
    rw [htask] at hbalance
    dsimp only [countOf, Option.elim, sendAck] at hbalance ⊢
    omega

/-- `acknowledge()` finds nothing in the list. -/
theorem Books.acknowledge (h : Books s n) : Books s.acknowledge n := by
  have hclear : s.clearDeliveredList = (s, .ok ()) := by
    rw [clearDeliveredList, h.uninterrupted]
    rfl
  unfold Consumer.acknowledge Consumer.makeAckForAllDeliveredMessages
  rw [hclear]
  dsimp only
  rw [h.delivered]
  exact h

section Batch

variable (hmode : cfg.isAutoAcknowledgeBatch = true)

include hmode

theorem mode_of_batch : cfg.ackMode = .dupsOk ∧ cfg.isTransacted = false ∧
    cfg.isAutoAcknowledgeEach = false := by
  unfold ConsumerSettings.isAutoAcknowledgeBatch at hmode
  unfold ConsumerSettings.isTransacted ConsumerSettings.isAutoAcknowledgeEach
  cases hack : cfg.ackMode <;> simp_all

theorem Books.deliverAcks (h : Books s n) : Books s.deliverAcks n := by
  unfold Consumer.deliverAcks
  split
  next => exact h
  next hgo =>
    have hidle := idle_of_flag h.flag hgo
    rw [takeAck, if_neg (by rw [(mode_of_batch hmode).2.2]; exact Bool.false_ne_true)]
    cases hack : s.pendingAck with
    | none => exact h
    | some ack =>
      have hpending := h.pending ack hack
      have hbalance := h.balance
      have hstandard : ack.isStandardAck = true := decide_eq_true hpending.1
      rw [Option.any_some, if_pos hstandard]
      refine ⟨?_, fun ack' hack' => ?_, forall_mem_none, h.counter, rfl, h.delivered,
        h.uninterrupted⟩
      -- what was pending is on its way; the counter is left as it was
      · rw [hidle, hack] at hbalance
        change s.acknowledged + ack.messageCount + 0 = n
        dsimp only [countOf, Option.elim] at hbalance
        omega
      · obtain rfl := Option.some.inj hack'
        rw [hpending.2]
        exact h.counter

theorem Books.disposeAcks (h : Books s n) : Books s.disposeAcks n := by
  rw [Consumer.disposeAcks]
  split
  · exact h
  · exact (h.deliverAcks hmode).acknowledge

theorem Books.disposeChannel (h : Books s n) : Books s.disposeChannel n := by
  unfold Consumer.disposeChannel
  split
  · exact h
  · have hran := h.runAckTask
    refine ⟨hran.balance, hran.task, hran.pending, hran.counter, hran.flag, ?_, hran.uninterrupted⟩
    rw [(mode_of_batch hmode).2.1]
    rfl

theorem Books.after (h : Books s n) (timedOut : Bool) (dispatch : MessageDispatch)
    (expired : Bool) (hopen : s.closed = false)
    (hcounts : expired = false → s.pendingAck ≠ none ∨ s.deliveredCounter = 0) :
    Books (s.afterMessageIsConsumed timedOut dispatch expired) (n + 1) := by
  obtain ⟨-, htransacted, heach⟩ := mode_of_batch hmode
  rw [afterMessageIsConsumed, hopen, htransacted, heach, hmode]
  cases expired with
  | true => exact h.expire dispatch
  | false => exact h.ackLater (hcounts rfl) dispatch

end Batch

/-! ### Whole runs -/

/-- A message is consumed only while the consumer is open and, unless it has expired, only
when the counter counts nothing but what is pending. -/
def ConsumesCounted (σ : Consuming cfg) : ConsumingEvent → Prop
  | .after _ => ∀ m ∈ σ.inHand, σ.consumer.closed = false ∧
      (m.2 = false → σ.consumer.pendingAck ≠ none ∨ σ.consumer.deliveredCounter = 0)
  | _ => True

theorem books_step (hmode : cfg.isAutoAcknowledgeBatch = true) (σ : Consuming cfg)
    (event : ConsumingEvent) (h : Books σ.consumer σ.consumed) (hok : ConsumesCounted σ event) :
    Books ((consumingMachine cfg).step σ event).1.consumer
      ((consumingMachine cfg).step σ event).1.consumed := by
  cases event with
  | before dispatch expired =>
    change Books (σ.before dispatch expired).consumer (σ.before dispatch expired).consumed
    cases hhand : σ.inHand with
    | some m =>
      rw [before, hhand]
      exact h
    | none =>
      have hconsumed : (σ.before dispatch expired).consumed = σ.consumed := by
        rw [before, consumed, consumed, hhand]
        simp
      have hconsumer : (σ.before dispatch expired).consumer = σ.consumer := by
        rw [before, hhand]
        exact if_pos hmode
      rw [hconsumed, hconsumer]
      exact h
  | after timedOut =>
    change Books (σ.after timedOut).consumer (σ.after timedOut).consumed
    cases hhand : σ.inHand with
    | none =>
      rw [after, hhand]
      exact h
    | some m =>
      have hconsumed : (σ.after timedOut).consumed = σ.consumed + 1 := by
        rw [after, consumed, consumed, hhand]
        simp
      obtain ⟨hopen, hcounts⟩ := hok m hhand
      rw [hconsumed, after, hhand]
      exact h.after hmode timedOut m.1 m.2 hopen hcounts
  | deliverAcks => exact h.deliverAcks hmode
  | ackTask => exact h.runAckTask
  | disposeAcks => exact h.disposeAcks hmode
  | disposeChannel => exact h.disposeChannel hmode

end Consuming

/-- **Batches add up.** In every run of a consumer that acknowledges in batches in which no
message is consumed after a flush has left the counter behind, or after the end: the
acknowledgements sent stand for at most the messages consumed, and for exactly those once
none is left to be sent. -/
theorem batch_acks_sum {cfg : AckSettings} (hmode : cfg.isAutoAcknowledgeBatch = true)
    (auditDepth : Nat) (maxProducers : Int) (events : List ConsumingEvent)
    (hok : (consumingMachine cfg).Meets ConsumesCounted
      (new cfg auditDepth maxProducers) events) :
    (consumingMachine cfg).Always Balanced
      (new cfg auditDepth maxProducers) events :=
  (Machine.invariant_of_meets
    (books_step hmode) (books_new auditDepth maxProducers) hok).mono
    fun _ h => h.balanced

/-- Two messages are consumed and flushed at the end. -/
def batchRun : List ConsumingEvent :=
  [.before (message 1) false, .after false, .before (message 2) false,
    .after false, .disposeAcks, .disposeChannel]

theorem batch_acks_sum_two :
    (consumingMachine (defaults .dupsOk false 100)).Always Balanced
      (new _ 2048 64) batchRun := by
  refine batch_acks_sum (by decide) 2048 64 batchRun
    ⟨trivial, ?_, trivial, ?_, trivial, trivial, trivial⟩
  · intro m hm
    exact ⟨rfl, fun _ => .inr rfl⟩
  · intro m hm
    exact ⟨rfl, fun _ => .inl nofun⟩

/-- A flush between two messages. -/
def flushedRun : List ConsumingEvent :=
  [.before (message 1) false, .after false, .deliverAcks, .ackTask,
    .before (message 2) false, .after false, .deliverAcks, .ackTask]

/-- The first message is counted in both acknowledgements: three for two messages. -/
theorem flush_counts_twice :
    ((consumingMachine (defaults .dupsOk false 100)).run (new _ 2048 64)
        flushedRun).consumer.sent.map messageCount = [2, 1] ∧
      ¬ (consumingMachine (defaults .dupsOk false 100)).Always Balanced
        (new _ 2048 64) flushedRun := by
  refine ⟨by decide, fun h => ?_⟩
  exact absurd h.last.atMost (by decide)

/-! ## Every call -/

namespace Consumer

variable {cfg : AckSettings}

/-- `posionAck(dispatch, cause)`. -/
def poisonAck (dispatch : MessageDispatch) (s : Consumer cfg) : Consumer cfg :=
  s.sendAck { ofDispatch dispatch .poison 1 with
    firstMessageId := some dispatch.messageId }

/-- What `dispatch` answers to a message that this transaction expects again. -/
def ackExpected (dispatch : MessageDispatch) (s : Consumer cfg) : Consumer cfg :=
  if cfg.transactedIndividualAck then s.immediateIndividualTransactedAck dispatch
  else s.sendAck (ofDispatch dispatch .delivered 1)

end Consumer

/-- The calls on a consumer that acknowledge, count or forget messages. -/
inductive ConsumerCall where
  | beforeMessageIsConsumed (dispatch : MessageDispatch)
  | afterMessageIsConsumed (timedOut : Bool) (dispatch : MessageDispatch) (messageExpired : Bool)
  | acknowledge
  | acknowledgeOne (dispatch : MessageDispatch) (ackType : AckType)
  | commit
  | rollback (o : Outcome)
  | poisonAck (dispatch : MessageDispatch)
  | ackExpected (dispatch : MessageDispatch)
  | deliverAcks
  | ackTask
  | inProgressClearRequired
  | clearDeliveredList
  | disposeAcks
  | disposeChannel

def callMachine (cfg : AckSettings) : Machine (Consumer cfg) ConsumerCall Unit where
  step s
    | .beforeMessageIsConsumed dispatch => (s.beforeMessageIsConsumed dispatch, ())
    | .afterMessageIsConsumed timedOut dispatch messageExpired =>
      (s.afterMessageIsConsumed timedOut dispatch messageExpired, ())
    | .acknowledge => (s.acknowledge, ())
    | .acknowledgeOne dispatch ackType => (s.acknowledgeOne dispatch ackType, ())
    | .commit => (s.commit, ())
    | .rollback o => ((s.rollback o).1, ())
    | .poisonAck dispatch => (s.poisonAck dispatch, ())
    | .ackExpected dispatch => (s.ackExpected dispatch, ())
    | .deliverAcks => (s.deliverAcks, ())
    | .ackTask => (s.runAckTask, ())
    | .inProgressClearRequired => ({ s with isClearDeliveredList := true }, ())
    | .clearDeliveredList => (s.clearDeliveredList.1, ())
    | .disposeAcks => (s.disposeAcks, ())
    | .disposeChannel => (s.disposeChannel, ())

namespace Consumer

variable {cfg : AckSettings} {s : Consumer cfg}

/-- The counter is a count, and every acknowledgement sent is for a message at least. -/
structure Sensible (s : Consumer cfg) : Prop where
  counter : 0 ≤ s.deliveredCounter
  sent : ∀ ack ∈ s.sent, 1 ≤ ack.messageCount

/-- So are those that wait to be sent. -/
structure Counted (s : Consumer cfg) : Prop where
  sent : ∀ ack ∈ s.sent, 1 ≤ ack.messageCount
  pending : ∀ ack ∈ s.pendingAck, 1 ≤ ack.messageCount
  task : ∀ ack ∈ s.ackTask, 1 ≤ ack.messageCount

variable {ack : MessageAck} {s' : Consumer cfg}

/-- One acknowledgement is sent. -/
theorem Counted.send (h : s.Counted) (hack : 1 ≤ ack.messageCount) (hsent : s'.sent = ack :: s.sent)
    (hpending : ∀ ack ∈ s'.pendingAck, ack ∈ s.pendingAck)
    (htask : ∀ ack ∈ s'.ackTask, ack ∈ s.ackTask) : s'.Counted := by
  refine ⟨fun ack' hack' => ?_, fun ack' hack' => h.pending ack' (hpending ack' hack'),
    fun ack' hack' => h.task ack' (htask ack' hack')⟩
  rw [hsent] at hack'
  rcases List.mem_cons.mp hack' with rfl | hack'
  · exact hack
  · exact h.sent ack' hack'

theorem one_le_ofAll {type : AckType} {ds : List MessageDispatch}
    (h : ofAll type ds = some ack) : 1 ≤ ack.messageCount := by
  rw [messageCount_ofAll h]
  cases ds with
  | nil => cases h
  | cons d ds => exact Int.le_add_of_nonneg_left (Int.natCast_nonneg _)

/-- The invariant. -/
structure Good (s : Consumer cfg) : Prop extends Counted s where
  counter : 0 ≤ s.deliveredCounter

variable (h : s.Good)

theorem good_new (auditDepth : Nat) (maxProducers : Int) : (new cfg auditDepth maxProducers).Good :=
  ⟨⟨List.forall_mem_nil _, forall_mem_none, forall_mem_none⟩, le_refl 0⟩

include h

theorem Good.sensible : s.Sensible := ⟨h.counter, h.sent⟩

/-- One acknowledgement is sent, and the counter stays. -/
theorem Good.send (hack : 1 ≤ ack.messageCount) (hsent : s'.sent = ack :: s.sent)
    (hpending : ∀ ack ∈ s'.pendingAck, ack ∈ s.pendingAck)
    (htask : ∀ ack ∈ s'.ackTask, ack ∈ s.ackTask) (hcounter : 0 ≤ s'.deliveredCounter) : s'.Good :=
  ⟨h.toCounted.send hack hsent hpending htask, hcounter⟩

variable (dispatch : MessageDispatch)
include dispatch

theorem Good.ackLater (ackType : AckType) : (s.ackLater dispatch ackType).Good := by
  have hcounter := h.counter
  have hmade : 1 ≤ (supersede s.pendingAck
      (.ofDispatch dispatch ackType (s.deliveredCounter + 1))).messageCount := by
    rw [messageCount_supersede]
    dsimp only [ofDispatch]
    omega
  have hold : ∀ ack ∈ superseded s.pendingAck
      (.ofDispatch dispatch ackType (s.deliveredCounter + 1)) ++ s.sent, 1 ≤ ack.messageCount := by
    intro ack hack
    rcases List.mem_append.mp hack with hack | hack
    · unfold superseded at hack
      split at hack
      next => cases hack
      next old hpending =>
        split at hack
        · cases hack
        · obtain rfl := List.mem_singleton.mp hack
          exact h.pending _ hpending
    · exact h.sent ack hack
  unfold Consumer.ackLater
  dsimp only
  split
  · refine ⟨⟨fun ack hack => ?_, forall_mem_none, h.task⟩, le_refl 0⟩
    rcases List.mem_cons.mp hack with rfl | hack
    · exact hmade
    · exact hold ack hack
  · refine ⟨⟨hold, fun ack hack => ?_, h.task⟩, by dsimp only; omega⟩
    cases hack
    exact hmade

theorem Good.beforeMessageIsConsumed : (s.beforeMessageIsConsumed dispatch).Good := by
  have hlisted : Good { s with deliveredMessages := dispatch :: s.deliveredMessages } :=
    ⟨⟨h.sent, h.pending, h.task⟩, h.counter⟩
  unfold Consumer.beforeMessageIsConsumed
  split
  · exact h
  · split
    · split
      · exact hlisted.send (le_refl 1) rfl (fun _ h => h) (fun _ h => h) h.counter
      · exact hlisted.ackLater dispatch .delivered
    · exact hlisted

theorem Good.acknowledgeOne (ackType : AckType) : (s.acknowledgeOne dispatch ackType).Good := by
  refine h.send ?_ rfl (fun _ h => h) (fun _ h => h) h.counter
  split <;> exact le_refl 1

omit dispatch

theorem Good.ackDelivered : s.ackDelivered.Good := by
  unfold Consumer.ackDelivered
  split
  next => exact h
  next ack hmade => exact h.send (one_le_ofAll hmade) rfl (fun _ h => h) (fun _ h => h) h.counter

theorem Good.optimizedAck : s.optimizedAck.Good := by
  unfold Consumer.optimizedAck
  extract_lets s'
  have h' : s'.Good := by
    unfold s'
    split
    next => exact h
    next ack hmade => exact h.send (one_le_ofAll hmade) rfl (fun _ h => h) (fun _ h => h) h.counter
  -- the pending acknowledgement follows the one of the list
  clear_value s'
  split
  next => exact h'
  next ack hack =>
    split
    · exact h'.send (h'.pending ack hack) rfl forall_mem_none (fun _ h => h) (le_refl 0)
    · exact h'

theorem Good.afterMessageIsConsumed (timedOut : Bool) (dispatch : MessageDispatch)
    (messageExpired : Bool) : (s.afterMessageIsConsumed timedOut dispatch messageExpired).Good := by
  have hcounted : Good { s with ackCounter := s.ackCounter + 1 } :=
    ⟨⟨h.sent, h.pending, h.task⟩, h.counter⟩
  unfold Consumer.afterMessageIsConsumed
  dsimp only
  split
  · exact h
  · split
    · exact h.acknowledgeOne dispatch .expired
    · split
      · exact h
      · split
        -- each message
        · split
          · exact h
          · split
            · split
              · exact hcounted.optimizedAck
              · exact hcounted
            · exact h.ackDelivered
        · split
          · exact h.ackLater dispatch .consumed
          · split
            · exact h.ackLater dispatch .delivered
            · exact h

theorem Good.takeAck : s.takeAck.2.Good ∧ ∀ ack ∈ s.takeAck.1, 1 ≤ ack.messageCount := by
  have hwithout : Good { s with pendingAck := none } :=
    ⟨⟨h.sent, forall_mem_none, h.task⟩, h.counter⟩
  unfold Consumer.takeAck
  split
  · split
    next ack hmade =>
      refine ⟨⟨⟨h.sent, h.pending, h.task⟩, h.counter⟩, fun ack' hack' => ?_⟩
      obtain rfl := Option.some.inj hack'
      exact one_le_ofAll hmade
    next => exact ⟨hwithout, h.pending⟩
  · split
    · exact ⟨hwithout, h.pending⟩
    · exact ⟨h, forall_mem_none⟩

theorem Good.deliverAcks : s.deliverAcks.Good := by
  obtain ⟨hrest, hack⟩ := h.takeAck
  unfold Consumer.deliverAcks
  split
  · exact h
  · rcases htake : s.takeAck with ⟨_ | ack, s'⟩
    · rw [htake] at hrest
      exact hrest
    · rw [htake] at hrest hack
      exact ⟨⟨hrest.sent, hrest.pending, hack⟩, hrest.counter⟩

theorem Good.runAckTask : s.runAckTask.Good := by
  unfold Consumer.runAckTask
  split
  next => exact h
  next ack hack =>
    exact h.send (h.task ack hack) rfl (fun _ h => h) forall_mem_none h.counter

/-- What the calls leave alone that only forget delivered messages. -/
structure Frame (s s' : Consumer cfg) : Prop where
  deliveredCounter : s'.deliveredCounter = s.deliveredCounter
  sent : s'.sent = s.sent
  ackTask : s'.ackTask = s.ackTask
  pendingAck : ∀ ack ∈ s'.pendingAck, ack ∈ s.pendingAck
  delivered : s'.deliveredMessages.length ≤ s.deliveredMessages.length

omit h in
theorem Frame.refl (s : Consumer cfg) : Frame s s := ⟨rfl, rfl, rfl, fun _ h => h, le_rfl⟩

omit h in
theorem Frame.trans {s₁ s₂ s₃ : Consumer cfg} (h : Frame s₁ s₂) (h' : Frame s₂ s₃) : Frame s₁ s₃ :=
  ⟨h'.deliveredCounter.trans h.deliveredCounter, h'.sent.trans h.sent, h'.ackTask.trans h.ackTask,
    fun ack hack => h.pendingAck ack (h'.pendingAck ack hack), h'.delivered.trans h.delivered⟩

omit h in
theorem Frame.counted (hframe : Frame s s') (h : s.Counted) : s'.Counted where
  sent := by rw [hframe.sent]; exact h.sent
  pending ack hack := h.pending ack (hframe.pendingAck ack hack)
  task := by rw [hframe.ackTask]; exact h.task

theorem Frame.good (hframe : Frame s s') : s'.Good :=
  ⟨hframe.counted h.toCounted, hframe.deliveredCounter ▸ h.counter⟩

omit h in
theorem frame_clearDeliveredList (s : Consumer cfg) : Frame s s.clearDeliveredList.1 := by
  unfold clearDeliveredList
  split
  · split
    · exact ⟨rfl, rfl, rfl, fun _ h => h, le_rfl⟩
    · split
      · exact ⟨rfl, rfl, rfl, fun _ h => h, le_rfl⟩
      · dsimp only
        split
        · exact ⟨rfl, rfl, rfl, fun _ h => h, le_rfl⟩
        · exact ⟨rfl, rfl, rfl, forall_mem_none, Nat.zero_le _⟩
  · exact Frame.refl s

theorem Good.acknowledge : s.acknowledge.Good := by
  have hcleared := (frame_clearDeliveredList s).good h
  unfold Consumer.acknowledge
  rcases hclear : s.clearDeliveredList with ⟨s', e | u⟩
  · rw [hclear] at hcleared
    exact hcleared
  · rw [hclear] at hcleared
    dsimp only
    split
    next => exact hcleared
    next ack hmade =>
      split
      · exact hcleared
      · exact hcleared.send (one_le_ofAll hmade) rfl forall_mem_none (fun _ h => h)
          (le_max_left _ _)

theorem Good.disposeAcks : s.disposeAcks.Good := by
  unfold Consumer.disposeAcks
  split
  · exact h
  · split
    · exact h.deliverAcks.acknowledge
    · exact h.deliverAcks

theorem Good.disposeChannel : s.disposeChannel.Good := by
  unfold Consumer.disposeChannel
  split
  · exact h
  · exact ⟨⟨h.runAckTask.sent, h.runAckTask.pending, h.runAckTask.task⟩, h.runAckTask.counter⟩

theorem Good.ackExpected (dispatch : MessageDispatch) : (s.ackExpected dispatch).Good := by
  unfold Consumer.ackExpected
  split <;> exact h.send (le_refl 1) rfl (fun _ h => h) (fun _ h => h) h.counter

/-! ### `rollback` -/

omit h

theorem length_rollbackOptimized (k fuel i : Nat) (audit : ConnectionAudit Unit)
    (delivered : List MessageDispatch) :
    (ConsumerKernel.rollbackOptimized k fuel i audit delivered).2.1.length ≤ delivered.length := by
  fun_induction ConsumerKernel.rollbackOptimized k fuel i audit delivered with
  | case1 | case2 | case5 => exact le_rfl
  | case3 => exact (List.dropLast_sublist _).length_le
  | case4 => exact le_trans ‹_› (List.dropLast_sublist _).length_le

theorem frame_discardOptimized (s : Consumer cfg) : Frame s s.discardOptimized.1 := by
  unfold discardOptimized
  split
  · exact ⟨rfl, rfl, rfl, fun _ h => h, length_rollbackOptimized _ _ _ _ _⟩
  · exact Frame.refl s

theorem length_removeFromDelivered (key : MessageId) (audit : ConnectionAudit Unit)
    (delivered : List MessageDispatch) :
    (removeFromDeliveredMessages key audit delivered).2.1.length ≤ delivered.length := by
  fun_induction removeFromDeliveredMessages key audit delivered with
  | case1 | case2 => exact le_rfl
  | case3 => exact Nat.le_succ _
  | case4 =>
    simp_all

theorem length_removeNotRedelivered (map : PreviouslyDeliveredMap) (audit : ConnectionAudit Unit)
    (delivered : List MessageDispatch) :
    (removeNotRedelivered map audit delivered).2.1.length ≤ delivered.length := by
  fun_induction removeNotRedelivered map audit delivered with
  | case1 => exact le_rfl
  | case2 id map audit delivered ih => exact ih
  | case3 id replayed map audit delivered _ audit' delivered' e hremoved =>
    simpa [hremoved] using length_removeFromDelivered id.messageId audit delivered
  | case4 id replayed map audit delivered _ audit' delivered' hremoved ih =>
    exact ih.trans (by
      simpa [hremoved] using length_removeFromDelivered id.messageId audit delivered)

theorem frame_rollbackPreviouslyDelivered (s : Consumer cfg) :
    Frame s s.rollbackPreviouslyDeliveredAndNotRedelivered.1 := by
  unfold rollbackPreviouslyDeliveredAndNotRedelivered
  split
  next => exact Frame.refl s
  next map _ =>
    have hlength := length_removeNotRedelivered map s.connectionAudit s.deliveredMessages
    rcases hremoved : removeNotRedelivered map s.connectionAudit s.deliveredMessages with
      ⟨audit, delivered, e | u⟩
    all_goals
      rw [hremoved] at hlength
      exact ⟨rfl, rfl, rfl, fun _ h => h, hlength⟩

theorem frame_prepareRollback (s : Consumer cfg) : Frame s s.prepareRollback.1 := by
  have hclear := frame_clearDeliveredList s
  unfold prepareRollback
  rcases hfirst : s.clearDeliveredList with ⟨s₁, e | u⟩
  · rw [hfirst] at hclear
    exact hclear
  · have hdiscard := frame_discardOptimized s₁
    rw [hfirst] at hclear
    dsimp only
    rcases hsecond : s₁.discardOptimized with ⟨s₂, e | u⟩
    · rw [hsecond] at hdiscard
      exact hclear.trans hdiscard
    · rw [hsecond] at hdiscard
      exact (hclear.trans hdiscard).trans (frame_rollbackPreviouslyDelivered s₂)

variable (o : Outcome) (count : Int)

theorem le_counter_redeliver (s : Consumer cfg) :
    s.deliveredCounter - s.deliveredMessages.length ≤ (s.redeliver o).deliveredCounter := by
  unfold redeliver
  split
  · split
    · exact Int.sub_le_self _ (Int.natCast_nonneg _)
    · exact le_rfl
  · exact le_rfl

theorem frame_redeliveredAck (s : Consumer cfg) :
    (s.redeliveredAck count).deliveredCounter = s.deliveredCounter ∧
      (s.redeliveredAck count).deliveredMessages = s.deliveredMessages := by
  unfold redeliveredAck
  split
  · split <;> exact ⟨rfl, rfl⟩
  · exact ⟨rfl, rfl⟩

theorem le_counter_applyPolicy (s : Consumer cfg) :
    s.deliveredCounter - s.deliveredMessages.length ≤ (s.applyPolicy o count).deliveredCounter := by
  unfold applyPolicy
  split
  · unfold poisonDelivered
    split
    · exact Int.sub_le_self _ (Int.natCast_nonneg _)
    · exact le_rfl
  · obtain ⟨hcounter, hdelivered⟩ := frame_redeliveredAck count s
    have hredeliver := le_counter_redeliver o (s.redeliveredAck count)
    rwa [hcounter, hdelivered] at hredeliver

theorem Counted.redeliver (h : s.Counted) (o : Outcome) : (s.redeliver o).Counted := by
  unfold Consumer.redeliver
  split
  · split
    · exact h
    · exact ⟨h.sent, h.pending, h.task⟩
  · exact ⟨h.sent, h.pending, h.task⟩

theorem Counted.redeliveredAck (h : s.Counted) : (s.redeliveredAck count).Counted := by
  unfold Consumer.redeliveredAck
  split
  · split
    next => exact h
    next ack hmade => exact h.send (one_le_ofAll hmade) rfl (fun _ h => h) fun _ h => h
  · exact h

theorem Counted.applyPolicy (h : s.Counted) (o : Outcome) : (s.applyPolicy o count).Counted := by
  unfold Consumer.applyPolicy
  split
  · unfold poisonDelivered
    split
    next => exact h
    next ack hmade => exact h.send (one_le_ofAll hmade) rfl (fun _ h => h) fun _ h => h
  · exact (h.redeliveredAck count).redeliver o

/-- `redispatch` leaves the acknowledgements and the counter alone. -/
theorem frame_toListener_acks (s : Consumer cfg) : Frame s s.toListener := by
  unfold toListener
  split
  · exact ⟨rfl, rfl, rfl, fun _ h => h, le_rfl⟩
  · exact Frame.refl s

/-- The redelivering part of `rollback` lowers the counter by no more than the messages in
the list. -/
theorem rollbackDelivered_counter (s : Consumer cfg) :
    s.deliveredCounter - s.deliveredMessages.length ≤ (s.rollbackDelivered o).1.deliveredCounter ∧
      (s.Counted → (s.rollbackDelivered o).1.Counted) := by
  by_cases haccepted : (rollbackDuplicates s.connectionAudit s.deliveredMessages).2 = .ok ()
  · cases hlist : s.deliveredMessages with
    | nil =>
      rw [rollbackDelivered_of_accepted haccepted o, hlist]
      exact ⟨Int.sub_le_self _ (Int.natCast_nonneg _), fun h => h⟩
    | cons lastMsg rest =>
      rw [← hlist, rollbackDelivered_of_cons haccepted o hlist]
      let s₂ := s.rolledBack (rollbackDuplicates s.connectionAudit s.deliveredMessages).1
        (s.deliveredMessages.map ConsumerKernel.redelivered)
      have hcounter := le_counter_applyPolicy o lastMsg.messageRedeliveryCounter s₂
      have hlength : s₂.deliveredMessages.length = s.deliveredMessages.length := List.length_map _
      have hframe := frame_toListener_acks (s₂.applyPolicy o lastMsg.messageRedeliveryCounter)
      refine ⟨?_, fun h => ?_⟩
      · rw [hlength] at hcounter
        exact hcounter.trans_eq hframe.deliveredCounter.symm
      · have hraised : s₂.Counted := ⟨h.sent, h.pending, h.task⟩
        exact hframe.counted (hraised.applyPolicy lastMsg.messageRedeliveryCounter o)
  · obtain ⟨audit, delivered, e, hrefused⟩ := rollbackDelivered_of_refused haccepted o
    rw [hrefused]
    exact ⟨Int.sub_le_self _ (Int.natCast_nonneg _), fun h => ⟨h.sent, h.pending, h.task⟩⟩

theorem rollback_counter (s : Consumer cfg) :
    s.deliveredCounter - s.deliveredMessages.length ≤ (s.rollback o).1.deliveredCounter ∧
      (s.Counted → (s.rollback o).1.Counted) := by
  have hframe := frame_prepareRollback s
  revert hframe
  unfold rollback
  rcases s.prepareRollback with ⟨s₁, e | u⟩
  · intro hframe
    exact ⟨(Int.sub_le_self _ (Int.natCast_nonneg _)).trans_eq hframe.deliveredCounter.symm,
      hframe.counted⟩
  · intro hframe
    obtain ⟨hcounter, hcounted⟩ := rollbackDelivered_counter o s₁
    have hlength : s₁.deliveredMessages.length ≤ s.deliveredMessages.length := hframe.delivered
    rw [hframe.deliveredCounter] at hcounter
    exact ⟨by dsimp only; omega, fun h => hcounted (hframe.counted h)⟩

end Consumer

/-! ### Whole runs -/

/-- A rollback finds no more messages in the delivered list than are counted. -/
def RollsBackCounted {cfg : AckSettings} (s : Consumer cfg) : ConsumerCall → Prop
  | .rollback _ => (s.deliveredMessages.length : Int) ≤ s.deliveredCounter
  | _ => True

theorem good_step {cfg : AckSettings} (s : Consumer cfg) (call : ConsumerCall) (h : s.Good)
    (hok : RollsBackCounted s call) : ((callMachine cfg).step s call).1.Good := by
  cases call with
  | beforeMessageIsConsumed dispatch => exact h.beforeMessageIsConsumed dispatch
  | afterMessageIsConsumed timedOut dispatch messageExpired =>
    exact h.afterMessageIsConsumed timedOut dispatch messageExpired
  | acknowledge => exact h.acknowledge
  | acknowledgeOne dispatch ackType => exact h.acknowledgeOne dispatch ackType
  | commit | inProgressClearRequired => exact ⟨⟨h.sent, h.pending, h.task⟩, h.counter⟩
  | rollback o =>
    obtain ⟨hcounter, hcounted⟩ := rollback_counter o s
    exact ⟨hcounted h.toCounted, (sub_nonneg.mpr hok).trans hcounter⟩
  | poisonAck dispatch => exact h.send (le_refl 1) rfl (fun _ h => h) (fun _ h => h) h.counter
  | ackExpected dispatch => exact h.ackExpected dispatch
  | deliverAcks => exact h.deliverAcks
  | ackTask => exact h.runAckTask
  | clearDeliveredList => exact (frame_clearDeliveredList s).good h
  | disposeAcks => exact h.disposeAcks
  | disposeChannel => exact h.disposeChannel

/-- **A count stays a count.** For every acknowledgement mode, every prefetch and every run in
which no rollback finds more delivered messages than the counter counts: the counter is never
negative, and every acknowledgement sent is for a message at least. -/
theorem counter_sensible (cfg : AckSettings) (auditDepth : Nat) (maxProducers : Int)
    (calls : List ConsumerCall)
    (hok : (callMachine cfg).Meets RollsBackCounted (new cfg auditDepth maxProducers) calls) :
    (callMachine cfg).Always Sensible (new cfg auditDepth maxProducers) calls :=
  (Machine.invariant_of_meets good_step (good_new auditDepth maxProducers) hok).mono
    fun _ h => h.sensible

/-- With a larger prefetch the message is still counted when the transaction is rolled back. -/
theorem counter_sensible_prefetch :
    (callMachine (defaults .transacted true 100)).Always Sensible (new _ 2048 64)
      [.beforeMessageIsConsumed (message 1), .rollback promptly] :=
  counter_sensible _ 2048 64 _ ⟨trivial, by change (Nat.cast _ : Int) ≤ _; decide, trivial⟩

/-- A message is delivered in a transaction, which lets the broker know at once, and the
transaction is rolled back. -/
def prefetchOne : List ConsumerCall :=
  [.beforeMessageIsConsumed (message 1), .rollback promptly]

theorem rollback_below_zero :
    ((callMachine (defaults .transacted true 1)).run (new _ 2048 64)
        prefetchOne).deliveredCounter = -1 ∧
      ¬ (callMachine (defaults .transacted true 1)).Always Sensible
        (new _ 2048 64) prefetchOne := by
  refine ⟨by decide, fun h => ?_⟩
  exact absurd h.last.counter (by decide)

end ActivemqCpp.Core
