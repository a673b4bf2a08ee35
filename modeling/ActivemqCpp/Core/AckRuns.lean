import ActivemqCpp.Core.ConsumerAcks

/-!
# Every consumed message is acknowledged once

The runs of a consumer between its creation and its end: messages are consumed, one at a
time, and meanwhile other threads call `deliverAcks`, run its task, and close the consumer.
A consumption is two events, since the listener runs between `beforeMessageIsConsumed` and
`afterMessageIsConsumed`; so is closing, since `dispose` waits for the executor before it
clears the delivered list.

* **Groups** — in a mode that acknowledges each message, the delivered list and the messages
  covered by the CONSUMED acknowledgements are the messages taken, newest first, in their
  order (`Covers`); an acknowledgement is always made for the whole list.
* **Closing** — `deliverAcks` does nothing while an earlier acknowledgement is on its way, and
  `dispose` clears the list all the same. What is consumed then is covered by none
  (`dispose_forgets_consumed`); a run in which no list with messages is cleared keeps
  every message covered (`consumed_covered`).
-/

namespace ActivemqCpp.Core

open Base Commands List Consumer MessageAck

/-! ## The runs -/

/-- A consumer in use. A message is taken with what the check of its expiry says. -/
structure Consuming (cfg : AckSettings) where
  consumer : Consumer cfg
  /-- The message between `beforeMessageIsConsumed` and `afterMessageIsConsumed`. -/
  inHand : Option (MessageDispatch × Bool)
  /-- All messages taken, newest first, and whether they had expired. -/
  taken : List (MessageDispatch × Bool)

inductive ConsumingEvent where
  | before (dispatch : MessageDispatch) (expired : Bool)
  | after (timedOut : Bool)
  | deliverAcks
  /-- The executor runs the task of `deliverAcks`. -/
  | ackTask
  /-- `dispose()` up to the wait for the executor. -/
  | disposeAcks
  /-- `dispose()` from there on. -/
  | disposeChannel
deriving Repr

namespace Consuming

variable {cfg : AckSettings}

/-- A new consumer of a new connection. -/
def new (cfg : AckSettings) (auditDepth : Nat) (maxProducers : Int) : Consuming cfg :=
  ⟨.new cfg auditDepth maxProducers, none, []⟩

/-- The next message is taken when the last is consumed. -/
def before (dispatch : MessageDispatch) (expired : Bool) (σ : Consuming cfg) : Consuming cfg :=
  match σ.inHand with
  | some _ => σ
  | none =>
    ⟨σ.consumer.beforeMessageIsConsumed dispatch, some (dispatch, expired),
      (dispatch, expired) :: σ.taken⟩

def after (timedOut : Bool) (σ : Consuming cfg) : Consuming cfg :=
  match σ.inHand with
  | none => σ
  | some (dispatch, expired) =>
    ⟨σ.consumer.afterMessageIsConsumed timedOut dispatch expired, none, σ.taken⟩

end Consuming

def consumingMachine (cfg : AckSettings) : Machine (Consuming cfg) ConsumingEvent Unit where
  step σ
    | .before dispatch expired => (σ.before dispatch expired, ())
    | .after timedOut => (σ.after timedOut, ())
    | .deliverAcks => ({ σ with consumer := σ.consumer.deliverAcks }, ())
    | .ackTask => ({ σ with consumer := σ.consumer.runAckTask }, ())
    | .disposeAcks => ({ σ with consumer := σ.consumer.disposeAcks }, ())
    | .disposeChannel => ({ σ with consumer := σ.consumer.disposeChannel }, ())

/-! ## What an acknowledgement covers -/

namespace Consumer

variable {cfg : AckSettings}

/-- The CONSUMED acknowledgements, sent or on their way, newest first. -/
def consumedAcks (s : Consumer cfg) : List MessageAck :=
  (s.ackTask.toList ++ s.sent).filter isStandardAck

/-- While the flag is not set, nothing is on its way. -/
theorem idle_of_flag {s : Consumer cfg} (hflag : s.deliveringAcks = s.ackTask.isSome)
    (h : ¬ s.deliveringAcks = true) : s.ackTask = none := by
  rw [hflag, Option.not_isSome_iff_eq_none] at h
  exact h

/-- An acknowledgement that is sent while none is on its way. -/
theorem consumedAcks_of_sent {s s' : Consumer cfg} {ack : MessageAck} (hidle : s.ackTask = none)
    (htask : s'.ackTask = none) (hsent : s'.sent = ack :: s.sent) :
    s'.consumedAcks =
      if ack.isStandardAck then ack :: s.consumedAcks else s.consumedAcks := by
  unfold consumedAcks
  rw [hidle, htask, hsent]
  exact filter_cons

end Consumer

theorem MessageAck.forall_mem_none {P : MessageAck → Prop} :
    ∀ ack ∈ (none : Option MessageAck), P ack := nofun

variable {ds : List MessageDispatch} {ack : MessageAck}

theorem MessageAck.messageCount_ofAll {type : AckType}
    (h : ofAll type ds = some ack) : ack.messageCount = ds.length := by
  cases ds with
  | nil => cases h
  | cons d ds =>
    cases h
    rfl

theorem MessageAck.isStandardAck_ofAll
    (h : ofAll .consumed ds = some ack) : ack.isStandardAck = true := by
  cases ds with
  | nil => cases h
  | cons d ds =>
    cases h
    rfl

namespace Consuming

variable {cfg : AckSettings} {σ : Consuming cfg}

/-- The delivered list holds `old`, and each CONSUMED acknowledgement names the oldest and the
newest of its group and counts it. `old` and the groups are the messages taken, newest first,
where only expired ones are missing. -/
structure Covers (σ : Consuming cfg) (old : List (MessageDispatch × Bool))
    (groups : List (List (MessageDispatch × Bool))) : Prop where
  delivered : σ.consumer.deliveredMessages = old.map Prod.fst
  acks : σ.consumer.consumedAcks.map some =
    groups.map fun group => ofAll .consumed (group.map Prod.fst)
  order : (old ++ groups.flatten).Sublist σ.taken
  all : (old ++ groups.flatten).filter (fun m => !m.2) = σ.taken.filter fun m => !m.2

/-- Every consumed message that has not expired is in the delivered list or covered by exactly
one CONSUMED acknowledgement. -/
def Covered (σ : Consuming cfg) : Prop := ∃ old groups, σ.Covers old groups

/-- An acknowledgement is on its way exactly while the flag is set, and none is put off. -/
structure Settled (s : Consumer cfg) : Prop where
  flag : s.deliveringAcks = s.ackTask.isSome
  standard : ∀ ack ∈ s.ackTask, ack.isStandardAck = true
  none_pending : s.pendingAck = none

/-- The invariant: besides, the message in hand is the newest in the list, unless the list was
emptied meanwhile. -/
structure Inv (σ : Consuming cfg) : Prop where
  settled : Settled σ.consumer
  covered : ∃ old groups, σ.Covers old groups ∧
    ∀ m, σ.inHand = some m → old = [] ∨ ∃ rest, old = m :: rest

theorem inv_new (auditDepth : Nat) (maxProducers : Int) : (new cfg auditDepth maxProducers).Inv where
  settled := ⟨rfl, forall_mem_none, rfl⟩
  covered := ⟨[], [], ⟨rfl, rfl, Sublist.refl _, rfl⟩,
    fun m hm => absurd hm.symm (Option.some_ne_none m)⟩

variable {s : Consumer cfg} {hand : Option (MessageDispatch × Bool)}

/-- Nothing that is counted moves. -/
theorem Inv.same (h : σ.Inv) (hsettled : Settled s)
    (hdelivered : s.deliveredMessages = σ.consumer.deliveredMessages)
    (hacks : s.consumedAcks = σ.consumer.consumedAcks) (hhand : hand = σ.inHand ∨ hand = none) :
    Inv ⟨s, hand, σ.taken⟩ := by
  obtain ⟨old, groups, hcovers, hold⟩ := h.covered
  refine ⟨hsettled, old, groups, ⟨hdelivered.trans hcovers.delivered, ?_, hcovers.order,
    hcovers.all⟩, fun m hm => ?_⟩
  · rw [hacks]
    exact hcovers.acks
  · rcases hhand with rfl | rfl
    · exact hold m hm
    · cases hm

/-- The whole list becomes the group of a new acknowledgement. -/
theorem Inv.flush (h : σ.Inv) (hsettled : Settled s)
    (hack : ofAll .consumed σ.consumer.deliveredMessages = some ack)
    (hdelivered : s.deliveredMessages = [])
    (hacks : s.consumedAcks = ack :: σ.consumer.consumedAcks) : Inv ⟨s, hand, σ.taken⟩ := by
  obtain ⟨old, groups, hcovers, -⟩ := h.covered
  refine ⟨hsettled, [], old :: groups, ⟨hdelivered, ?_, hcovers.order, hcovers.all⟩,
    fun m _ => .inl rfl⟩
  rw [hacks, map_cons, map_cons, hcovers.acks, ← hack, hcovers.delivered]

/-- A list without messages that count is cleared. -/
theorem Inv.drop (h : σ.Inv) (hsettled : Settled s) (hdelivered : s.deliveredMessages = [])
    (hacks : s.consumedAcks = σ.consumer.consumedAcks) (hempty : σ.consumer.deliveredMessages = [] ∨
      ∃ d, σ.inHand = some (d, true) ∧ σ.consumer.deliveredMessages = [d]) :
    Inv { σ with consumer := s } := by
  obtain ⟨old, groups, hcovers, hold⟩ := h.covered
  have hnone : old.filter (fun m => !m.2) = [] := by
    rcases hempty with hnil | ⟨d, hhand, hlist⟩
    · rw [map_eq_nil_iff.mp (hcovers.delivered.symm.trans hnil)]
      rfl
    · rcases hold _ hhand with rfl | ⟨rest, rfl⟩
      · rfl
      · have hrest := hcovers.delivered.symm.trans hlist
        rw [map_cons, cons.injEq, map_eq_nil_iff] at hrest
        rw [hrest.2]
        rfl
  refine ⟨hsettled, [], groups, ⟨hdelivered, ?_, ?_, ?_⟩, fun m _ => .inl rfl⟩
  · rw [hacks]
    exact hcovers.acks
  · exact (sublist_append_right old groups.flatten).trans hcovers.order
  · have hall := hcovers.all
    rw [filter_append, hnone] at hall
    exact hall

/-! ## The steps -/

variable (hmode : cfg.isAutoAcknowledgeEach = true)

include hmode

theorem not_transacted : cfg.isTransacted = false := by
  unfold ConsumerSettings.isAutoAcknowledgeEach at hmode
  unfold ConsumerSettings.isTransacted
  cases hack : cfg.ackMode <;> simp_all

theorem not_batch : cfg.isAutoAcknowledgeBatch = false := by
  unfold ConsumerSettings.isAutoAcknowledgeEach at hmode
  unfold ConsumerSettings.isAutoAcknowledgeBatch
  cases hack : cfg.ackMode <;> simp_all

theorem Inv.before (h : σ.Inv) (dispatch : MessageDispatch) (expired : Bool) :
    (σ.before dispatch expired).Inv := by
  unfold Consuming.before
  split
  · exact h
  · have hbefore : σ.consumer.beforeMessageIsConsumed dispatch =
        { σ.consumer with deliveredMessages := dispatch :: σ.consumer.deliveredMessages } := by
      unfold beforeMessageIsConsumed
      simp [not_batch hmode, not_transacted hmode]
    obtain ⟨old, groups, hcovers, -⟩ := h.covered
    rw [hbefore]
    refine ⟨⟨h.settled.flag, h.settled.standard, h.settled.none_pending⟩,
      (dispatch, expired) :: old, groups, ⟨?_, hcovers.acks, hcovers.order.cons_cons _, ?_⟩,
      fun m hm => .inr ⟨old, by rw [Option.some.inj hm]⟩⟩
    · rw [map_cons, ← hcovers.delivered]
    · rw [cons_append, filter_cons, filter_cons, hcovers.all]

/-- What one call does to a consumer that acknowledges each message: the list and the
acknowledgements stay, or all of the list is acknowledged. -/
inductive Acks (s s' : Consumer cfg) : Prop
  | stays (delivered : s'.deliveredMessages = s.deliveredMessages)
      (acks : s'.consumedAcks = s.consumedAcks)
  | flushes (ack : MessageAck) (made : ofAll .consumed s.deliveredMessages = some ack)
      (delivered : s'.deliveredMessages = []) (acks : s'.consumedAcks = ack :: s.consumedAcks)

variable {s' : Consumer cfg}

omit hmode in
theorem Acks.inv (h : σ.Inv) (hsettled : Settled s') (hacks : Acks σ.consumer s')
    (hhand : hand = σ.inHand ∨ hand = none) : Inv ⟨s', hand, σ.taken⟩ := by
  cases hacks with
  | stays hdelivered hacks => exact h.same hsettled hdelivered hacks hhand
  | flushes ack hmade hdelivered hacks => exact h.flush hsettled hmade hdelivered hacks

omit hmode in
/-- All of the list is acknowledged at once, if nothing is on its way. -/
theorem acks_of_sent (hidle : s.ackTask = none)
    (hmade : ofAll .consumed s.deliveredMessages = some ack)
    (hdelivered : s'.deliveredMessages = []) (htask : s'.ackTask = none)
    (hsent : s'.sent = ack :: s.sent) : Acks s s' := by
  refine .flushes ack hmade hdelivered ?_
  rw [consumedAcks_of_sent hidle htask hsent, if_pos (isStandardAck_ofAll hmade)]

variable (hs : Settled s)
include hs

omit hmode in
theorem ackDelivered_acks (hidle : s.ackTask = none) :
    Settled s.ackDelivered ∧ Acks s s.ackDelivered := by
  unfold ackDelivered makeAckForAllDeliveredMessages
  split
  next => exact ⟨hs, .stays rfl rfl⟩
  next ack hmade =>
    exact ⟨⟨hs.flag, hs.standard, hs.none_pending⟩, acks_of_sent hidle hmade rfl hidle rfl⟩

omit hmode in
theorem optimizedAck_acks (hidle : s.ackTask = none) :
    Settled s.optimizedAck ∧ Acks s s.optimizedAck := by
  -- no acknowledgement is put off in these modes, so that the second one is never sent
  have hpending := hs.none_pending
  unfold optimizedAck makeAckForAllDeliveredMessages
  cases hmade : ofAll .consumed s.deliveredMessages with
  | none =>
    dsimp only
    rw [hpending]
    exact ⟨hs, .stays rfl rfl⟩
  | some ack =>
    rw [hpending]
    exact ⟨⟨hs.flag, hs.standard, rfl⟩, acks_of_sent hidle hmade rfl hidle rfl⟩

/-- A message that has not expired is consumed. -/
theorem after_acks (timedOut : Bool) (dispatch : MessageDispatch) :
    Settled (s.afterMessageIsConsumed timedOut dispatch false) ∧
      Acks s (s.afterMessageIsConsumed timedOut dispatch false) := by
  unfold afterMessageIsConsumed
  simp only [not_transacted hmode, Bool.false_eq_true, if_false]
  split
  · exact ⟨hs, .stays rfl rfl⟩
  · split
    next => exact ⟨hs, .stays rfl rfl⟩
    next hgo =>
      rw [Bool.or_eq_true, not_or] at hgo
      have hidle := idle_of_flag hs.flag hgo.1
      have hcounted : Settled { s with ackCounter := s.ackCounter + 1 } :=
        ⟨hs.flag, hs.standard, hs.none_pending⟩
      split
      · split
        · obtain ⟨hsettled, hacks⟩ := optimizedAck_acks hcounted hidle
          refine ⟨hsettled, ?_⟩
          cases hacks with
          | stays hdelivered hacks => exact .stays hdelivered hacks
          | flushes ack hmade hdelivered hacks => exact .flushes ack hmade hdelivered hacks
        · exact ⟨hcounted, .stays rfl rfl⟩
      · exact ackDelivered_acks hs hidle

theorem deliverAcks_acks : Settled s.deliverAcks ∧ Acks s s.deliverAcks := by
  unfold deliverAcks
  split
  · exact ⟨hs, .stays rfl rfl⟩
  · next hgo =>
    have hidle := idle_of_flag hs.flag hgo
    have hpending := hs.none_pending
    unfold takeAck makeAckForAllDeliveredMessages
    rw [if_pos hmode]
    cases hmade : ofAll .consumed s.deliveredMessages with
    | none =>
      rw [hpending]
      exact ⟨⟨hs.flag, hs.standard, rfl⟩, .stays rfl rfl⟩
    | some ack =>
      have hstandard := isStandardAck_ofAll hmade
      refine ⟨⟨rfl, ?_, hpending⟩, .flushes ack hmade rfl ?_⟩
      · intro ack' hack'
        obtain rfl := Option.some.inj hack'
        exact hstandard
      · unfold consumedAcks
        rw [hidle]
        exact filter_cons_of_pos hstandard

omit hmode in
theorem runAckTask_acks :
    Settled s.runAckTask ∧ s.runAckTask.deliveredMessages = s.deliveredMessages ∧
      s.runAckTask.consumedAcks = s.consumedAcks := by
  unfold runAckTask
  split
  next => exact ⟨hs, rfl, rfl⟩
  next ack htask =>
    refine ⟨⟨rfl, forall_mem_none, hs.none_pending⟩, rfl, ?_⟩
    unfold consumedAcks
    rw [htask]
    rfl

omit hs

variable (h : σ.Inv)
include h

omit hmode in
/-- A message that has expired leaves the list, and no CONSUMED acknowledgement is sent. -/
theorem Inv.expire {dispatch : MessageDispatch} (hhand : σ.inHand = some (dispatch, true)) :
    Inv ⟨σ.consumer.acknowledgeOne dispatch .expired, none, σ.taken⟩ := by
  obtain ⟨old, groups, hcovers, hold⟩ := h.covered
  have hacks : (σ.consumer.acknowledgeOne dispatch .expired).consumedAcks =
      σ.consumer.consumedAcks := by
    unfold consumedAcks
    rw [filter_append, filter_append]
    rfl
  have hsettled : Settled (σ.consumer.acknowledgeOne dispatch .expired) :=
    ⟨h.settled.flag, h.settled.standard, h.settled.none_pending⟩
  rcases hold _ hhand with rfl | ⟨rest, rfl⟩
  · refine h.same hsettled ?_ hacks (.inr rfl)
    change σ.consumer.deliveredMessages.erase dispatch = _
    rw [hcovers.delivered]
    rfl
  · refine ⟨hsettled, rest, groups, ⟨?_, ?_, ?_, ?_⟩,
      fun m hm => absurd hm.symm (Option.some_ne_none m)⟩
    · change σ.consumer.deliveredMessages.erase dispatch = _
      rw [hcovers.delivered, map_cons, erase_cons_head]
    · rw [hacks]
      exact hcovers.acks
    · exact (sublist_cons_self _ _).trans hcovers.order
    · exact hcovers.all

theorem Inv.after (timedOut : Bool) : (σ.after timedOut).Inv := by
  unfold Consuming.after
  split
  next => exact h
  next dispatch expired hhand =>
    cases expired with
    | false =>
      obtain ⟨hsettled, hacks⟩ := after_acks hmode h.settled timedOut dispatch
      exact hacks.inv h hsettled (.inr rfl)
    | true =>
      unfold afterMessageIsConsumed
      by_cases hclosed : σ.consumer.closed = true
      · rw [if_pos hclosed]
        exact h.same h.settled rfl rfl (.inr rfl)
      · rw [if_neg hclosed]
        exact h.expire hhand

theorem Inv.deliverAcks : Inv { σ with consumer := σ.consumer.deliverAcks } := by
  obtain ⟨hsettled, hacks⟩ := deliverAcks_acks hmode h.settled
  exact hacks.inv h hsettled (.inl rfl)

omit hmode in
theorem Inv.ackTask : Inv { σ with consumer := σ.consumer.runAckTask } := by
  obtain ⟨hsettled, hdelivered, hacks⟩ := runAckTask_acks h.settled
  exact h.same hsettled hdelivered hacks (.inl rfl)

theorem Inv.disposeAcks : Inv { σ with consumer := σ.consumer.disposeAcks } := by
  rw [Consumer.disposeAcks, not_batch hmode]
  split
  · exact h
  · exact h.deliverAcks hmode

omit h

/-- The list that `dispose` clears has no message that counts. -/
def ClearsNothing (σ : Consuming cfg) : Prop :=
  σ.consumer.closed = true ∨ σ.consumer.deliveredMessages = [] ∨
    ∃ d, σ.inHand = some (d, true) ∧ σ.consumer.deliveredMessages = [d]

theorem Inv.disposeChannel (h : σ.Inv) (hclears : σ.ClearsNothing) :
    Inv { σ with consumer := σ.consumer.disposeChannel } := by
  unfold Consumer.disposeChannel
  split
  next => exact h
  next hopen =>
    obtain ⟨hsettled, -, hacks⟩ := runAckTask_acks h.settled
    refine h.drop ⟨hsettled.flag, hsettled.standard, hsettled.none_pending⟩ ?_ hacks
      (hclears.resolve_left hopen)
    rw [not_transacted hmode]
    rfl

end Consuming

/-! ## Whole runs -/

/-- No call of `dispose` clears a list with a message that counts: what was consumed is
acknowledged by then, and besides an expired message none is in hand. -/
def ClosesAcknowledged {cfg : AckSettings} (σ : Consuming cfg) : ConsumingEvent → Prop
  | .disposeChannel => σ.ClearsNothing
  | _ => True

/-- **Covered once.** In every run of a consumer that acknowledges each message, with or
without optimized acknowledgement, in which `dispose` clears no list with messages: at every
moment each consumed message that has not expired is in the delivered list or covered by
exactly one CONSUMED acknowledgement, which names the oldest and the newest message it covers
and counts them. -/
theorem consumed_covered {cfg : AckSettings} (hmode : cfg.isAutoAcknowledgeEach = true)
    (auditDepth : Nat) (maxProducers : Int) (events : List ConsumingEvent)
    (hok : (consumingMachine cfg).Meets ClosesAcknowledged
      (Consuming.new cfg auditDepth maxProducers) events) :
    (consumingMachine cfg).Always Consuming.Covered
      (Consuming.new cfg auditDepth maxProducers) events := by
  refine (Machine.invariant_of_meets ?_
    (Consuming.inv_new auditDepth maxProducers) hok).mono fun σ h => ?_
  · intro σ event h hok
    cases event with
    | before dispatch expired => exact h.before hmode dispatch expired
    | after timedOut => exact h.after hmode timedOut
    | deliverAcks => exact h.deliverAcks hmode
    | ackTask => exact h.ackTask
    | disposeAcks => exact h.disposeAcks hmode
    | disposeChannel => exact h.disposeChannel hmode hok
  · obtain ⟨old, groups, hcovers, -⟩ := h.covered
    exact ⟨old, groups, hcovers⟩

/-- A message is consumed, another expires, and the consumer is closed. -/
def calmRun : List ConsumingEvent :=
  [.before (message 1) false, .after false, .before (message 2) true, .after false,
    .disposeAcks, .disposeChannel]

theorem consumed_covered_calm :
    (consumingMachine (optimizing 100)).Always Consuming.Covered
      (Consuming.new _ 2048 64) calmRun := by
  refine consumed_covered (by decide) 2048 64 calmRun ?_
  exact ⟨trivial, trivial, trivial, trivial, trivial, .inr (.inl (by decide)), trivial⟩

/-- A second message is consumed while the acknowledgement of the first is on its way, and
then the consumer is closed. -/
def forgettingRun : List ConsumingEvent :=
  [.before (message 1) false, .after false, .deliverAcks,
    .before (message 2) false, .after false, .disposeAcks, .disposeChannel]

/-- The second message is in no list and no acknowledgement, although it was consumed. -/
theorem dispose_forgets_consumed :
    ¬ (consumingMachine (optimizing 100)).Always Consuming.Covered
      (Consuming.new _ 2048 64) forgettingRun := by
  intro h
  obtain ⟨old, groups, hcovers⟩ := h.last
  have hacks : ((consumingMachine (optimizing 100)).run (Consuming.new _ 2048 64)
      forgettingRun).consumer.consumedAcks.map some =
        [ofAll .consumed [message 1]] := by decide
  have hdelivered : ((consumingMachine (optimizing 100)).run (Consuming.new _ 2048 64)
      forgettingRun).consumer.deliveredMessages = [] := by decide
  have htaken : (((consumingMachine (optimizing 100)).run (Consuming.new _ 2048 64)
      forgettingRun).taken.filter fun m => !m.2).length = 2 := by decide
  have hold : old = [] := map_eq_nil_iff.mp (hcovers.delivered.symm.trans hdelivered)
  -- the one acknowledgement covers one message, but two were consumed
  obtain ⟨group, hgroup, hmade⟩ : ∃ group, groups = [group] ∧
      ofAll .consumed (group.map Prod.fst) =
        ofAll .consumed [message 1] := by
    obtain ⟨group, hsingle, hmade⟩ := map_eq_singleton_iff.mp (hcovers.acks.symm.trans hacks)
    exact ⟨group, hsingle, hmade⟩
  have hcount : group.length = 1 := by
    have hlength := messageCount_ofAll (hmade.trans rfl)
    rw [length_map] at hlength
    exact (Int.ofNat_inj.mp hlength).symm
  have hall := congrArg length hcovers.all
  rw [hold, hgroup, nil_append, flatten_singleton] at hall
  have hle := length_filter_le (fun m : MessageDispatch × Bool => !m.2) group
  omega

end ActivemqCpp.Core
