import ActivemqCpp.Core.ConsumerInvariant

/-!
# Every message handed back to the session reaches the listener

Nothing that waits is lost: what `setMessageListener` hands back is still waiting, or
was heard, expired, rolled back or refused for its redelivery count (`Accounts`). While a
listener is set and the session is started, every round of the executor takes one waiting
message (`iterate_calm`), so that a listener that keeps returning has heard them all when
none is left.

* `consumer_hears_once_dispatched` — no message dispatched once and never rolled back is
  acknowledged as POISON, and those handed back are heard, in every run in which
  `setMessageListener` finds no marked message.
* `setMessageListener_poisons_queued` — a run in which it finds one.
-/

namespace ActivemqCpp.Core

open Base Commands Decaf List

namespace ConsumerKernel

/-! ## Nothing is lost -/

/-- What waited still waits, and the journal is carried on. -/
structure Keeps (s s' : ConsumerKernel) : Prop where
  pending : ∀ d ∈ pending [] s, d ∈ pending [] s'
  arrived : s'.journal.arrived = s.journal.arrived
  handedBack : s'.journal.handedBack = s.journal.handedBack
  rolledBack : s.journal.rolledBack ⊆ s'.journal.rolledBack
  heard : s.journal.heard ⊆ s'.journal.heard
  expired : s.journal.expired ⊆ s'.journal.expired

section Keeping

variable {cfg : ConsumerSettings} {s s' s'' : ConsumerKernel} {d : MessageDispatch}

theorem Keeps.refl (s : ConsumerKernel) : Keeps s s :=
  ⟨fun _ h => h, rfl, rfl, Subset.refl _, Subset.refl _, Subset.refl _⟩

theorem Keeps.trans (h : Keeps s s') (h' : Keeps s' s'') : Keeps s s'' :=
  ⟨fun d hd => h'.pending d (h.pending d hd), h'.arrived.trans h.arrived,
    h'.handedBack.trans h.handedBack, Subset.trans h.rolledBack h'.rolledBack,
    Subset.trans h.heard h'.heard, Subset.trans h.expired h'.expired⟩

/-- Only the audit, the delivered messages and what is scheduled change. -/
theorem Keeps.of_eq (hqueue : s'.messageQueue = s.messageQueue)
    (hkept : s'.unconsumedMessages = s.unconsumedMessages) (hjournal : s'.journal = s.journal) :
    Keeps s s' := by
  refine ⟨fun d hd => ?_, by rw [hjournal], by rw [hjournal], ?_, ?_, ?_⟩
  · unfold ConsumerKernel.pending at hd ⊢
    rwa [hqueue, hkept]
  all_goals rw [hjournal]; exact Subset.refl _

theorem keeps_poisonAck (s : ConsumerKernel) (d : MessageDispatch) (cause : PoisonCause) :
    Keeps s (s.poisonAck d cause) := { Keeps.refl s with }

theorem keeps_beforeMessageIsConsumed (cfg : ConsumerSettings) (d : MessageDispatch)
    (s : ConsumerKernel) : Keeps s (beforeMessageIsConsumed cfg d s) := by
  unfold beforeMessageIsConsumed
  split <;> exact Keeps.of_eq rfl rfl rfl

theorem keeps_afterMessageIsConsumed (cfg : ConsumerSettings) (o : Outcome) (d : MessageDispatch)
    (expired : Bool) (s : ConsumerKernel) :
    Keeps s (afterMessageIsConsumed cfg o d expired s) := by
  unfold afterMessageIsConsumed
  split
  · exact { Keeps.refl s with expired := subset_cons_self _ _ }
  · split
    · exact Keeps.refl s
    · split
      · split
        · split <;> exact Keeps.of_eq rfl rfl rfl
        · exact Keeps.of_eq rfl rfl rfl
      · exact Keeps.refl s

theorem keeps_redispatch (s : ConsumerKernel) : Keeps s s.redispatch := by
  refine { Keeps.refl s with pending := fun d hd => ?_ }
  have hmessages := s.messageQueue.messages_foldr_enqueueFirst s.unconsumedMessages.messages
  refine mem_append_left _ (hmessages.mem_iff.mpr ?_)
  exact perm_append_comm.mem_iff.mp hd

theorem keeps_redeliver (cfg : ConsumerSettings) (o : Outcome) (s : ConsumerKernel) :
    Keeps s (redeliver cfg o s) := by
  unfold redeliver
  split
  · exact Keeps.of_eq rfl rfl rfl
  · have hmessages := s.unconsumedMessages.stop.messages_foldl_enqueueFirst s.deliveredMessages
    have hsub : ∀ d ∈ pending [] s, d ∈ s.messageQueue.messages ++
        (s.deliveredMessages.foldl (fun q d => q.enqueueFirst d) s.unconsumedMessages.stop).messages := by
      intro d hd
      rcases mem_append.mp hd with hd | hd
      · exact mem_append_left _ hd
      · exact mem_append_right _ (hmessages.mem_iff.mpr (mem_append_right _ hd))
    split <;> exact { Keeps.refl s with pending := hsub }

theorem keeps_rollbackDelivered (cfg : ConsumerSettings) (o : Outcome) (s : ConsumerKernel) :
    Keeps s (rollbackDelivered cfg o s) := by
  have hthen : ∀ s' : ConsumerKernel, Keeps s s' →
      Keeps s (if s'.listener then s'.redispatch else s') := by
    intro s' h'
    split
    · exact h'.trans (keeps_redispatch s')
    · exact h'
  unfold rollbackDelivered
  dsimp only
  split
  · exact hthen _ { Keeps.refl s with }
  · exact hthen _ (keeps_redeliver cfg o s)

theorem keeps_rollback (cfg : ConsumerSettings) (o : Outcome) (s : ConsumerKernel) :
    Keeps s (rollback cfg o s) := by
  unfold rollback
  split
  dsimp only
  split
  · exact Keeps.of_eq rfl rfl rfl
  · exact Keeps.of_eq rfl rfl rfl
  · split
    · exact { Keeps.refl s with rolledBack := subset_append_right _ _ }
    · refine Keeps.trans ?_ (keeps_rollbackDelivered cfg o _)
      exact { Keeps.refl s with rolledBack := subset_append_right _ _ }

/-- Its fate is known: it was rolled back, heard or expired, or is over the limit. -/
def Settled (cfg : ConsumerSettings) (journal : Journal) (d : MessageDispatch) : Prop :=
  d.messageId ∈ journal.rolledBack ∨ d.messageId ∈ journal.heard ∨
    d.messageId ∈ journal.expired ∨ cfg.redeliveryExceeded d = true

theorem Settled.keep (h : Settled cfg s.journal d) (hkeeps : Keeps s s') :
    Settled cfg s'.journal d := by
  rcases h with h | h | h | h
  · exact .inl (hkeeps.rolledBack h)
  · exact .inr (.inl (hkeeps.heard h))
  · exact .inr (.inr (.inl (hkeeps.expired h)))
  · exact .inr (.inr (.inr h))

/-- The listener's branch of a dispatch settles the message. -/
theorem deliver_settles (cfg : ConsumerSettings) (o : Outcome) (d : MessageDispatch)
    (s : ConsumerKernel) :
    Keeps s (deliver cfg o d s) ∧ Settled cfg (deliver cfg o d s).journal d := by
  have hbefore := keeps_beforeMessageIsConsumed cfg d s
  have hheard : Keeps s
      { beforeMessageIsConsumed cfg d s with
        journal.heard := d.messageId :: (beforeMessageIsConsumed cfg d s).journal.heard } :=
    hbefore.trans { Keeps.refl _ with heard := subset_cons_self _ _ }
  have hend : ∀ s' : ConsumerKernel,
      Keeps { beforeMessageIsConsumed cfg d s with
        journal.heard := d.messageId :: (beforeMessageIsConsumed cfg d s).journal.heard } s' →
      Keeps s s' ∧ Settled cfg s'.journal d := fun s' h =>
    ⟨hheard.trans h, .inr (.inl (h.heard mem_cons_self))⟩
  unfold deliver
  split
  · rename_i hexceeded
    exact ⟨keeps_poisonAck s d _, .inr (.inr (.inr hexceeded))⟩
  · split
    · refine ⟨hbefore.trans (keeps_afterMessageIsConsumed cfg o d true _), .inr (.inr (.inl ?_))⟩
      exact mem_cons_self
    · split
      · exact hend _ (keeps_afterMessageIsConsumed cfg o d false _)
      · split
        · exact hend _ (keeps_rollback cfg o _)
        · exact hend _ (keeps_afterMessageIsConsumed cfg o d false _)
      · exact hend _ (Keeps.refl _)

theorem keeps_keep (s : ConsumerKernel) (audit : ConnectionAudit Unit) (d : MessageDispatch) :
    Keeps s
      { s with
        connectionAudit := audit
        unconsumedMessages := s.unconsumedMessages.enqueue d } := by
  refine { Keeps.refl s with pending := fun d' hd' => ?_ }
  rcases mem_append.mp hd' with hd' | hd'
  · exact mem_append_left _ hd'
  · refine mem_append_right _ ((s.unconsumedMessages.messages_enqueue d).mem_iff.mpr ?_)
    exact mem_cons_of_mem _ hd'

variable {ids : Set (ProducerId × Nat)}

/-- **One dispatch** loses nothing: afterwards the message waits or is settled. -/
theorem dispatch_settles (hids : FoldsApart ids)
    {hand : List MessageDispatch} (h : Unmarked cfg ids (d :: hand) s) (o : Outcome) :
    Keeps s (dispatch cfg o d s) ∧
      (d ∈ pending [] (dispatch cfg o d s) ∨ Settled cfg (dispatch cfg o d s).journal d) := by
  obtain ⟨hd, hunheld, -⟩ := h.head
  obtain ⟨audit, b, hcall, -, hb, -, audit', hundo, -⟩ :=
    isDuplicate_cases cfg h.sound (fileable_of_arrived h hids hd)
  have hkept : ∀ audit : ConnectionAudit Unit, d ∈ pending []
      { s with
        connectionAudit := audit
        unconsumedMessages := s.unconsumedMessages.enqueue d } := fun _ =>
    mem_append_right _
      ((s.unconsumedMessages.messages_enqueue d).mem_iff.mpr mem_cons_self)
  rw [ConsumerKernel.dispatch, hcall]
  cases b with
  | true =>
    refine ⟨{ Keeps.refl s with }, .inr (.inl ?_)⟩
    by_contra hrb
    exact absurd (hb rfl) (by simp [hunheld hrb])
  | false =>
    dsimp only
    split
    · split
      · obtain ⟨hkeeps, hsettled⟩ := deliver_settles cfg o d { s with connectionAudit := audit }
        refine ⟨Keeps.trans ?_ hkeeps, .inr hsettled⟩
        exact Keeps.of_eq rfl rfl rfl
      · exact ⟨keeps_keep s audit d, .inl (hkept audit)⟩
    · rw [hundo]
      exact ⟨keeps_keep s audit' d, .inl (hkept audit')⟩

/-! ## What is handed back stays accounted for -/

/-- What `setMessageListener` handed back is in hand, waits or is settled; a session that
dispatches in the caller's thread has handed nothing back. -/
structure Accounts (cfg : ConsumerSettings) (hand : List MessageDispatch) (s : ConsumerKernel) :
    Prop where
  settled : ∀ d ∈ s.journal.handedBack,
    d ∈ hand ∨ d ∈ pending [] s ∨ Settled cfg s.journal d
  async : cfg.sessionAsyncDispatch = false → s.journal.handedBack = []

variable {hand : List MessageDispatch}

theorem Accounts.keep (h : Accounts cfg hand s) (hkeeps : Keeps s s') : Accounts cfg hand s' where
  settled d hd := by
    rcases h.settled d (hkeeps.handedBack ▸ hd) with hd | hd | hd
    · exact .inl hd
    · exact .inr (.inl (hkeeps.pending d hd))
    · exact .inr (.inr (hd.keep hkeeps))
  async hasync := hkeeps.handedBack.trans (h.async hasync)

theorem Accounts.release (h : Accounts cfg (d :: hand) s)
    (hd : d ∈ pending [] s ∨ Settled cfg s.journal d) : Accounts cfg hand s :=
  { h with
    settled := fun d' hd' => by
      rcases h.settled d' hd' with hin | hrest
      · rcases mem_cons.mp hin with rfl | hin
        · exact .inr hd
        · exact .inl hin
      · exact .inr hrest }

/-- A message is taken out of a channel. -/
theorem Accounts.take (h : Accounts cfg hand s)
    (hpending : ∀ d' ∈ pending [] s, d' = d ∨ d' ∈ pending [] s') (hjournal : s'.journal = s.journal) :
    Accounts cfg (d :: hand) s' where
  settled d' hd' := by
    rw [hjournal] at hd' ⊢
    rcases h.settled d' hd' with hin | hin | hsettled
    · exact .inl (mem_cons_of_mem _ hin)
    · rcases hpending d' hin with rfl | hin
      · exact .inl mem_cons_self
      · exact .inr (.inl hin)
    · exact .inr (.inr hsettled)
  async hasync := hjournal ▸ h.async hasync

theorem Accounts.dispatch (hids : FoldsApart ids)
    {inHand : List MessageDispatch} (h : Accounts cfg (d :: hand) s)
    (hunmarked : Unmarked cfg ids (d :: inHand) s) (o : Outcome) :
    Accounts cfg hand (dispatch cfg o d s) := by
  obtain ⟨hkeeps, hd⟩ := dispatch_settles hids hunmarked o
  exact (h.keep hkeeps).release hd

end Keeping

/-! ## Events -/

/-- What holds between events. -/
structure Inv (cfg : ConsumerSettings) (ids : Set (ProducerId × Nat)) (s : ConsumerKernel) :
    Prop where
  unmarked : Unmarked cfg ids [] s
  accounts : Accounts cfg [] s

section Events

variable {cfg : ConsumerSettings} {ids : Set (ProducerId × Nat)} {s : ConsumerKernel}
  {d : MessageDispatch} {hand : List MessageDispatch}

/-- A message on its way to the executor, queued or dispatched at once. -/
theorem execute_spec (hids : FoldsApart ids) (hunmarked : Unmarked cfg ids (d :: hand) s)
    (haccounts : Accounts cfg [] s) (o : Outcome) :
    Unmarked cfg ids hand (execute cfg o d s) ∧ Accounts cfg [] (execute cfg o d s) ∧
      (execute cfg o d s).journal.arrived = s.journal.arrived := by
  refine ⟨hunmarked.execute hids o, ?_⟩
  unfold execute
  split
  · have hkeeps : Keeps s { s with messageQueue := s.messageQueue.enqueue d } := by
      refine { Keeps.refl s with pending := fun d' hd' => ?_ }
      rcases mem_append.mp hd' with hd' | hd'
      · refine mem_append_left _ ((s.messageQueue.messages_enqueue d).mem_iff.mpr ?_)
        exact mem_cons_of_mem _ hd'
      · exact mem_append_right _ hd'
    exact ⟨haccounts.keep hkeeps, rfl⟩
  · have hkeeps := (dispatch_settles hids hunmarked o).1
    exact ⟨haccounts.keep hkeeps, hkeeps.arrived⟩

variable (h : Inv cfg ids s)
include h

theorem inv_onMessageDispatch (hids : FoldsApart ids)
    (hnew : d.messageId ∉ s.journal.arrived) (hknown : KnownId ids d.messageId) (o : Outcome) :
    Inv cfg ids (onMessageDispatch cfg o d s) ∧
      (onMessageDispatch cfg o d s).journal.arrived = d.messageId :: s.journal.arrived := by
  have harrive := h.unmarked.arrive (d := { d with messageRedeliveryCounter := d.redeliveryCounter })
    hids hnew hknown
  have haccounts : Accounts cfg []
      { s with journal.arrived := d.messageId :: s.journal.arrived } := { h.accounts with }
  obtain ⟨hunmarked, haccounts, harrived⟩ := execute_spec hids harrive haccounts o
  exact ⟨⟨hunmarked, haccounts⟩, harrived⟩

/-- The message that a round takes. -/
theorem iterate_cases (o : Outcome) :
    iterate cfg o s = s ∨ ∃ d s', iterate cfg o s = dispatch cfg o d s' ∧
      Unmarked cfg ids [d] s' ∧ Accounts cfg [d] s' ∧ s'.journal = s.journal := by
  unfold iterate
  split
  · split
    · rename_i d channel htake
      split at htake
      · rename_i hl
        have hmessages := (DispatchChannel.dequeueNoWait_eq_some htake).2.2
        refine .inr ⟨d, _, rfl, h.unmarked.takeKept hl htake,
          h.accounts.take (fun d' hd' => ?_) rfl, rfl⟩
        unfold pending at hd'
        rw [hmessages] at hd'
        exact mem_cons.mp (perm_middle.mem_iff.mp hd')
      · cases htake
    · split
      · rename_i d channel htake
        have hmessages := (DispatchChannel.dequeueNoWait_eq_some htake).2.2
        refine .inr ⟨d, _, rfl, h.unmarked.takeQueued htake,
          h.accounts.take (fun d' hd' => ?_) rfl, rfl⟩
        unfold pending at hd'
        rw [hmessages] at hd'
        exact mem_cons.mp hd'
      · exact .inl rfl
  · exact .inl rfl

theorem inv_iterate (hids : FoldsApart ids) (o : Outcome) : Inv cfg ids (iterate cfg o s) ∧
      (iterate cfg o s).journal.arrived = s.journal.arrived := by
  rcases iterate_cases h o with heq | ⟨d, s', heq, hunmarked, haccounts, hjournal⟩
  · rw [heq]
    exact ⟨h, rfl⟩
  · rw [heq]
    refine ⟨⟨hunmarked.dispatch hids o, haccounts.dispatch hids hunmarked o⟩, ?_⟩
    rw [(dispatch_settles hids hunmarked o).1.arrived, hjournal]

theorem inv_runRedeliveryTask (hids : FoldsApart ids) (i : Nat) (o : MessageId → Outcome) :
    Inv cfg ids (runRedeliveryTask cfg i o s) ∧
      (runRedeliveryTask cfg i o s).journal.arrived = s.journal.arrived := by
  have hloop : ∀ (task : List MessageDispatch) s,
      Unmarked cfg ids task s → Accounts cfg [] s →
      Inv cfg ids (task.foldl (fun s d => execute cfg (o d.messageId) d s) s) ∧
        (task.foldl (fun s d => execute cfg (o d.messageId) d s) s).journal.arrived =
          s.journal.arrived := by
    intro task
    induction task with
    | nil => exact fun s hunmarked haccounts => ⟨⟨hunmarked, haccounts⟩, rfl⟩
    | cons d task ih =>
      intro s hunmarked haccounts
      obtain ⟨hunmarked', haccounts', harrived⟩ :=
        execute_spec hids hunmarked haccounts (o d.messageId)
      obtain ⟨hinv, harrived'⟩ := ih _ hunmarked' haccounts'
      exact ⟨hinv, harrived'.trans harrived⟩
  unfold runRedeliveryTask
  split
  · exact ⟨h, rfl⟩
  · rename_i task htask
    have htake := h.unmarked.takeTask htask
    rw [append_nil] at htake
    exact hloop task _ htake { h.accounts with }

omit h in
/-- What is kept is handed back: it is waiting in the queue now. -/
theorem Accounts.installListener (h : Accounts cfg [] s)
    (hasync : cfg.sessionAsyncDispatch = true ∨ s.unconsumedMessages.messages = []) :
    Accounts cfg [] s.installListener := by
  have hset : Accounts cfg []
      { s with
        listener := true
        journal.handedBack := s.unconsumedMessages.messages ++ s.journal.handedBack } :=
    { settled := fun d hd => by
        rcases mem_append.mp hd with hd | hd
        · exact .inr (.inl (mem_append_right _ hd))
        · exact h.settled d hd
      async := fun hsync => by
        rcases hasync with hasync | hnil
        · exact absurd hsync (by simp [hasync])
        · show s.unconsumedMessages.messages ++ s.journal.handedBack = []
          rw [hnil, h.async hsync]
          rfl }
  exact hset.keep (keeps_redispatch _)

theorem inv_setMessageListener {listener : Bool}
    (hkept : listener = true → cfg.prefetchSize ≠ 0 → s.KeepsUnmarked ∧
      (cfg.sessionAsyncDispatch = true ∨ s.unconsumedMessages.messages = [])) :
    Inv cfg ids (setMessageListener cfg listener s) ∧
      (setMessageListener cfg listener s).journal.arrived = s.journal.arrived := by
  have hunmarked := h.unmarked.setMessageListener fun hl hp => (hkept hl hp).1
  refine ⟨⟨hunmarked, ?_⟩, ?_⟩
  · unfold setMessageListener
    split
    · rename_i hlistener
      split
      · exact h.accounts
      · rename_i hprefetch
        have hasync := (hkept hlistener hprefetch).2
        split
        · exact { Accounts.installListener (s := s.stop) { h.accounts with } hasync with }
        · exact h.accounts.installListener hasync
    · exact { h.accounts with }
  · unfold setMessageListener
    split
    · split
      · rfl
      · split <;> rfl
    · rfl

end Events

/-! ## A listener that returns hears everything that waits -/

/-- The listener returns and the message has not expired. -/
def Calm (o : Outcome) : Prop := o.expired = false ∧ o.listener = .returns

/-- The session is started and its consumer is not held back by a redelivery delay. -/
def Started (s : ConsumerKernel) : Prop :=
  s.messageQueue.running = true ∧ s.unconsumedMessages.running = true

/-- Nothing is moved, rolled back, handed back or expired. -/
structure Quiet (s s' : ConsumerKernel) : Prop where
  messageQueue : s'.messageQueue = s.messageQueue
  unconsumedMessages : s'.unconsumedMessages = s.unconsumedMessages
  listener : s'.listener = s.listener
  rolledBack : s'.journal.rolledBack = s.journal.rolledBack
  handedBack : s'.journal.handedBack = s.journal.handedBack
  expired : s'.journal.expired = s.journal.expired

section Draining

variable {cfg : ConsumerSettings} {ids : Set (ProducerId × Nat)} {s : ConsumerKernel}
  {d : MessageDispatch} {o : Outcome}

theorem quiet_beforeMessageIsConsumed (cfg : ConsumerSettings) (d : MessageDispatch)
    (s : ConsumerKernel) : Quiet s (beforeMessageIsConsumed cfg d s) := by
  unfold beforeMessageIsConsumed
  split <;> exact ⟨rfl, rfl, rfl, rfl, rfl, rfl⟩

theorem quiet_afterMessageIsConsumed (cfg : ConsumerSettings) (o : Outcome) (d : MessageDispatch)
    (s : ConsumerKernel) : Quiet s (afterMessageIsConsumed cfg o d false s) := by
  rw [afterMessageIsConsumed, if_neg Bool.false_ne_true]
  split
  · exact ⟨rfl, rfl, rfl, rfl, rfl, rfl⟩
  · split
    · split
      · split <;> exact ⟨rfl, rfl, rfl, rfl, rfl, rfl⟩
      · exact ⟨rfl, rfl, rfl, rfl, rfl, rfl⟩
    · exact ⟨rfl, rfl, rfl, rfl, rfl, rfl⟩

theorem quiet_deliver (cfg : ConsumerSettings) (ho : Calm o) (d : MessageDispatch)
    (s : ConsumerKernel) :
    Quiet s (deliver cfg o d s) := by
  unfold deliver
  split
  · exact ⟨rfl, rfl, rfl, rfl, rfl, rfl⟩
  · have hbefore := quiet_beforeMessageIsConsumed cfg d s
    have hafter := quiet_afterMessageIsConsumed cfg o d
      { beforeMessageIsConsumed cfg d s with
        journal.heard := d.messageId :: (beforeMessageIsConsumed cfg d s).journal.heard }
    simp only [ho.1, Bool.and_false, ho.2]
    exact ⟨hafter.messageQueue.trans hbefore.messageQueue,
      hafter.unconsumedMessages.trans hbefore.unconsumedMessages,
      hafter.listener.trans hbefore.listener, hafter.rolledBack.trans hbefore.rolledBack,
      hafter.handedBack.trans hbefore.handedBack, hafter.expired.trans hbefore.expired⟩

/-- With the listener set and the consumer running, a calm dispatch keeps nothing. -/
theorem quiet_dispatch (hids : FoldsApart ids) {hand : List MessageDispatch}
    (h : Unmarked cfg ids (d :: hand) s) (hl : s.listener = true)
    (hrunning : s.unconsumedMessages.running = true) (ho : Calm o) :
    Quiet s (dispatch cfg o d s) := by
  obtain ⟨audit, b, hcall, -⟩ :=
    isDuplicate_cases cfg h.sound (fileable_of_arrived h hids h.head.1)
  rw [ConsumerKernel.dispatch, hcall]
  cases b with
  | true => exact ⟨rfl, rfl, rfl, rfl, rfl, rfl⟩
  | false =>
    dsimp only
    rw [if_pos hrunning, if_pos hl]
    exact { quiet_deliver cfg ho d { s with connectionAudit := audit } with }

theorem Quiet.started {s' : ConsumerKernel} (h : Quiet s s') (hstarted : s.Started) :
    s'.Started ∧ pending [] s' = pending [] s := by
  unfold Started pending
  rw [h.messageQueue, h.unconsumedMessages]
  exact ⟨hstarted, rfl⟩

variable (hasync : cfg.sessionAsyncDispatch = true)
include hasync

/-- One round takes one message. -/
theorem iterate_calm (hids : FoldsApart ids) (h : Inv cfg ids s) (hl : s.listener = true)
    (hstarted : s.Started)
    (ho : Calm o) : (iterate cfg o s).Started ∧ (iterate cfg o s).listener = true ∧
      (pending [] (iterate cfg o s)).length = (pending [] s).length - 1 ∧
      (iterate cfg o s).journal.rolledBack = s.journal.rolledBack ∧
      (iterate cfg o s).journal.handedBack = s.journal.handedBack ∧
      (iterate cfg o s).journal.expired = s.journal.expired := by
  rw [iterate, if_pos (by simp [hasync, hstarted.1]), if_pos hl]
  split
  · rename_i d channel htake
    obtain ⟨-, hrunning, hmessages⟩ := DispatchChannel.dequeueNoWait_eq_some htake
    have hquiet := quiet_dispatch hids (h.unmarked.takeKept hl htake) hl hrunning ho
    obtain ⟨hon, hpending⟩ := hquiet.started ⟨hstarted.1, hrunning⟩
    refine ⟨hon, hquiet.listener.trans hl, ?_, hquiet.rolledBack, hquiet.handedBack, hquiet.expired⟩
    rw [hpending]
    simp [pending, hmessages]
  · rename_i hnone
    have hkept := DispatchChannel.dequeueNoWait_eq_none hnone hstarted.2
    split
    · rename_i d channel htake
      obtain ⟨-, hrunning, hmessages⟩ := DispatchChannel.dequeueNoWait_eq_some htake
      have hquiet := quiet_dispatch hids (h.unmarked.takeQueued htake) hl hstarted.2 ho
      obtain ⟨hon, hpending⟩ := hquiet.started ⟨hrunning, hstarted.2⟩
      refine ⟨hon, hquiet.listener.trans hl, ?_, hquiet.rolledBack, hquiet.handedBack,
        hquiet.expired⟩
      rw [hpending]
      simp [pending, hmessages]
    · rename_i hnone'
      have hqueued := DispatchChannel.dequeueNoWait_eq_none hnone' hstarted.1
      refine ⟨hstarted, hl, ?_, rfl, rfl, rfl⟩
      rw [pending, hkept, hqueued]
      rfl

/-- **Draining.** Calm rounds enough for all that waits leave nothing waiting. -/
theorem drain (hids : FoldsApart ids)
    {os : List Outcome} (hcalm : ∀ o ∈ os, Calm o) (h : Inv cfg ids s) (hl : s.listener = true)
    (hstarted : s.Started) (hlength : (pending [] s).length ≤ os.length) :
    let s' := (consumerMachine cfg).run s (os.map .iterate)
    Inv cfg ids s' ∧ pending [] s' = [] ∧ s'.journal.rolledBack = s.journal.rolledBack ∧
      s'.journal.handedBack = s.journal.handedBack ∧ s'.journal.expired = s.journal.expired := by
  induction os generalizing s with
  | nil => exact ⟨h, eq_nil_of_length_eq_zero (Nat.le_zero.mp hlength), rfl, rfl, rfl⟩
  | cons o os ih =>
    obtain ⟨hstarted', hl', hless, hrolled, hhanded, hexpired⟩ :=
      iterate_calm hasync hids h hl hstarted (hcalm o mem_cons_self)
    have hlength' : (pending [] (iterate cfg o s)).length ≤ os.length := by
      simp only [length_cons] at hlength
      omega
    obtain ⟨hinv, hempty, hrolled', hhanded', hexpired'⟩ :=
      ih (fun o' ho' => hcalm o' (mem_cons_of_mem _ ho')) (inv_iterate h hids o).1 hl' hstarted'
        hlength'
    exact ⟨hinv, hempty, hrolled'.trans hrolled, hhanded'.trans hhanded, hexpired'.trans hexpired⟩

end Draining

end ConsumerKernel

/-! ## Runs -/

open ConsumerKernel

/-- Every POISON acknowledgement is for a message that was rolled back, or that the broker
delivered more often than the policy allows. -/
def NeverPoisoned (cfg : ConsumerSettings) (s : ConsumerKernel) : Prop :=
  ∀ p ∈ s.journal.poisoned,
    p.1.messageId ∈ s.journal.rolledBack ∨ cfg.redeliveryExceeded p.1 = true

/-- With the listener set and the session started, calm rounds enough for all that waits
let the listener hear whatever `setMessageListener` handed back, unless it was rolled back,
has expired, or is over the policy's limit. -/
def HearsHandedBack (cfg : ConsumerSettings) (s : ConsumerKernel) : Prop :=
  s.listener = true → s.Started →
    ∀ os : List Outcome, (∀ o ∈ os, Calm o) → (pending [] s).length ≤ os.length →
      ∀ d ∈ s.journal.handedBack, d.messageId ∉ s.journal.rolledBack →
        d.messageId ∉ s.journal.expired → cfg.redeliveryExceeded d = false →
        d.messageId ∈ ((consumerMachine cfg).run s (os.map .iterate)).journal.heard

/-- The ids of the messages that the broker dispatches. -/
def dispatchedIds (events : List ConsumerEvent) : List MessageId :=
  events.filterMap fun
    | .dispatch d _ => some d.messageId
    | _ => none

/-- The ids as the audit files them. -/
def filedIds (events : List ConsumerEvent) : Set (ProducerId × Nat) :=
  { m | (⟨some m.1, m.2⟩ : MessageId) ∈ dispatchedIds events }

/-- A listener that is set finds no marked message, and in a session that dispatches in the
caller's thread it finds none at all. -/
def HandsBackUnmarked (cfg : ConsumerSettings) (s : ConsumerKernel) : ConsumerEvent → Prop
  | .setMessageListener true => cfg.prefetchSize ≠ 0 → s.KeepsUnmarked ∧
      (cfg.sessionAsyncDispatch = true ∨ s.unconsumedMessages.messages = [])
  | _ => True

instance (cfg : ConsumerSettings) (s : ConsumerKernel) :
    (e : ConsumerEvent) → Decidable (HandsBackUnmarked cfg s e)
  | .setMessageListener true => inferInstanceAs (Decidable (_ → _ ∧ _))
  | .setMessageListener false => .isTrue trivial
  | .dispatch _ _ => .isTrue trivial
  | .iterate _ => .isTrue trivial
  | .start => .isTrue trivial
  | .stop => .isTrue trivial
  | .startTask => .isTrue trivial
  | .redeliveryTask _ _ => .isTrue trivial

section Runs

variable {cfg : ConsumerSettings} {ids : Set (ProducerId × Nat)} {s : ConsumerKernel}

theorem hearsHandedBack_of_inv (hids : FoldsApart ids) (h : Inv cfg ids s) :
    HearsHandedBack cfg s := by
  intro hl hstarted os hcalm hlength d hd hrolled hexpired hlimit
  have hasync : cfg.sessionAsyncDispatch = true := by
    by_contra hsync
    rw [h.accounts.async (by simpa using hsync)] at hd
    cases hd
  obtain ⟨hinv, hempty, hrolled', hhanded', hexpired'⟩ :=
    drain hasync hids hcalm h hl hstarted hlength
  rcases hinv.accounts.settled d (hhanded'.symm ▸ hd) with hin | hin | hsettled
  · cases hin
  · rw [hempty] at hin
    cases hin
  · rcases hsettled with hin | hin | hin | hin
    · exact absurd (hrolled' ▸ hin) hrolled
    · exact hin
    · exact absurd (hexpired' ▸ hin) hexpired
    · exact absurd hin (by simp [hlimit])

/-- What an event adds to the messages that have arrived. -/
def arrives : ConsumerEvent → List MessageId
  | .dispatch d _ => [d.messageId]
  | _ => []

/-- **One event** keeps the invariant. -/
theorem inv_step (hids : FoldsApart ids) (h : Inv cfg ids s) (e : ConsumerEvent)
    (hnew : ∀ id ∈ arrives e, id ∉ s.journal.arrived ∧ KnownId ids id)
    (hhands : HandsBackUnmarked cfg s e) :
    Inv cfg ids ((consumerMachine cfg).step s e).1 ∧
      ((consumerMachine cfg).step s e).1.journal.arrived = arrives e ++ s.journal.arrived := by
  cases e with
  | dispatch d o =>
    obtain ⟨hfresh, hknown⟩ := hnew d.messageId mem_cons_self
    exact inv_onMessageDispatch h hids hfresh hknown o
  | iterate o => exact inv_iterate h hids o
  | start => exact ⟨⟨h.unmarked.start, { h.accounts with }⟩, rfl⟩
  | stop => exact ⟨⟨h.unmarked.stop, { h.accounts with }⟩, rfl⟩
  | setMessageListener listener =>
    refine inv_setMessageListener h fun hl => ?_
    subst hl
    exact hhands
  | startTask =>
    show Inv cfg ids s.runStartTask ∧ s.runStartTask.journal.arrived = s.journal.arrived
    refine ⟨⟨h.unmarked.runStartTask, ?_⟩, ?_⟩
    · unfold runStartTask
      split
      · exact h.accounts
      · exact { h.accounts with }
    · unfold runStartTask
      split <;> rfl
  | redeliveryTask i o => exact inv_runRedeliveryTask h hids i o

theorem dispatchedIds_cons (e : ConsumerEvent) (events : List ConsumerEvent) :
    dispatchedIds (e :: events) = arrives e ++ dispatchedIds events := by
  cases e <;> rfl

/-- **Every run** keeps the invariant, by induction over its events. -/
theorem always_inv (hids : FoldsApart ids) {events : List ConsumerEvent} (h : Inv cfg ids s)
    (hknown : ∀ id ∈ dispatchedIds events, KnownId ids id)
    (hnodup : (dispatchedIds events).Nodup)
    (hnew : ∀ id ∈ dispatchedIds events, id ∉ s.journal.arrived)
    (hhands : (consumerMachine cfg).Meets (HandsBackUnmarked cfg) s events) :
    (consumerMachine cfg).Always (Inv cfg ids) s events := by
  induction events generalizing s with
  | nil => exact h
  | cons e events ih =>
    rw [dispatchedIds_cons] at hknown hnodup hnew
    obtain ⟨-, hnodup', hdisjoint⟩ := nodup_append.mp hnodup
    obtain ⟨hinv, harrived⟩ := inv_step hids h e
      (fun id hid => ⟨hnew id (mem_append_left _ hid), hknown id (mem_append_left _ hid)⟩)
      hhands.1
    refine ⟨h, ih hinv (fun id hid => hknown id (mem_append_right _ hid)) hnodup' ?_ hhands.2⟩
    intro id hid hin
    rw [harrived] at hin
    rcases mem_append.mp hin with hin | hin
    · exact hdisjoint id hin id hid rfl
    · exact hnew id (mem_append_right _ hid) hin

theorem inv_new (cfg : ConsumerSettings) (ids : Set (ProducerId × Nat)) (auditDepth : Nat)
    (maxProducers : Int) : Inv cfg ids (new cfg auditDepth maxProducers) := by
  have hmessages : (newChannel cfg).messages = [] := by
    unfold newChannel
    split <;> rfl
  have hpending : pending [] (new cfg auditDepth maxProducers) = [] := by
    simp [pending, new, hmessages]
  have hqueued : ([]) ++ (newChannel cfg).messages = [] := by
    rw [hmessages]
    rfl
  refine ⟨⟨ConnectionAudit.sound_new (Int.natCast_nonneg auditDepth) maxProducers,
    forall_mem_nil _, ?_, ?_, forall_mem_nil _, forall_mem_nil _, ?_, ?_,
    fun hlistener => absurd hlistener Bool.false_ne_true, forall_mem_nil _⟩,
    ⟨forall_mem_nil _, fun _ => rfl⟩⟩
  · intro k hk
    cases hk
  · rw [hpending]
    exact forall_mem_nil _
  · rw [hpending]
    exact Pairwise.nil
  · intro d hd
    rw [show (new cfg auditDepth maxProducers).messageQueue.messages = [] from hmessages] at hd
    cases hd

/-- **A message dispatched once reaches the listener.** In every run over distinct messages
whose ids fold apart, if each listener that is set finds no marked message waiting, then no
message is acknowledged as POISON unless it was rolled back or is over the policy's limit,
and what `setMessageListener` handed back is heard. -/
theorem consumer_hears_once_dispatched (cfg : ConsumerSettings) (auditDepth : Nat)
    (maxProducers : Int) (events : List ConsumerEvent) (hdistinct : (dispatchedIds events).Nodup)
    (hids : FoldsApart (filedIds events))
    (hhands : (consumerMachine cfg).Meets (HandsBackUnmarked cfg)
      (new cfg auditDepth maxProducers) events) :
    (consumerMachine cfg).Always (fun s => NeverPoisoned cfg s ∧ HearsHandedBack cfg s)
      (new cfg auditDepth maxProducers) events := by
  have halways := always_inv hids (inv_new cfg (filedIds events) auditDepth maxProducers)
    (fun id hid p n heq => by subst heq; exact hid) hdistinct nofun hhands
  exact halways.mono fun s h => ⟨h.unmarked.poisoned, hearsHandedBack_of_inv hids h⟩

end Runs

/-! ## Sample runs -/

/-- Automatic acknowledgement of messages of a queue, with the defaults of a connection. -/
def sampleSettings : ConsumerSettings where
  ackMode := .auto
  onQueue := true
  prefetchSize := 1000
  sessionAsyncDispatch := true
  messagePrioritySupported := false
  checkForDuplicates := true
  optimizeAcknowledge := false
  nonBlockingRedelivery := false
  consumerExpiryCheckEnabled := true
  maximumRedeliveries := 6

/-- The `n`th message of the producer, from the queue `q`. -/
def sampleDispatch (n : Nat) : MessageDispatch where
  address := n
  messageId := ⟨some sampleProducer, n⟩
  destination := some ⟨.queue, [0x71]⟩
  priority := 4
  redeliveryCounter := 0
  messageRedeliveryCounter := 0
  hasRedeliveryDelay := false

def calmOutcome : Outcome := ⟨false, .returns, false, false⟩

/-- The listener throws, and the redelivery is delayed. -/
def throwingOutcome : Outcome := ⟨false, .throwsRuntimeException, false, true⟩

/-- While a redelivery is delayed a second message is kept; the listener is changed then. -/
def delayedRun : List ConsumerEvent :=
  [.start, .setMessageListener true, .dispatch (sampleDispatch 1) throwingOutcome,
    .iterate throwingOutcome, .dispatch (sampleDispatch 2) calmOutcome, .iterate calmOutcome,
    .iterate calmOutcome, .setMessageListener false, .setMessageListener true,
    .iterate calmOutcome, .iterate calmOutcome]

theorem consumer_hears_delayedRun :
    (consumerMachine sampleSettings).Always
      (fun s => NeverPoisoned sampleSettings s ∧ HearsHandedBack sampleSettings s)
      (new sampleSettings 2048 64) delayedRun := by
  refine consumer_hears_once_dispatched sampleSettings 2048 64 delayedRun (by decide)
    (foldsApart_of_le ?_) (by decide)
  rintro ⟨p, n⟩ hm
  change (⟨some p, n⟩ : MessageId) ∈ [⟨some sampleProducer, 1⟩, ⟨some sampleProducer, 2⟩] at hm
  simp only [mem_cons, not_mem_nil, or_false, MessageId.mk.injEq] at hm
  show n ≤ MessageAudit.maxInt
  unfold MessageAudit.maxInt
  omega

/-- The session is started, a message arrives, and then the listener is set. -/
def listenerAfterMessageRun : List ConsumerEvent :=
  [.start, .dispatch (sampleDispatch 1) calmOutcome, .iterate calmOutcome,
    .setMessageListener true, .iterate calmOutcome]

/-- A message that waits when the listener is set is suppressed as a duplicate of itself. -/
theorem setMessageListener_poisons_queued :
    (dispatchedIds listenerAfterMessageRun).Nodup ∧
      ((consumerMachine sampleSettings).run (new sampleSettings 2048 64)
          listenerAfterMessageRun).journal.poisoned = [(sampleDispatch 1, .duplicate)] ∧
      ((consumerMachine sampleSettings).run (new sampleSettings 2048 64)
          listenerAfterMessageRun).journal.rolledBack = [] ∧
      ((consumerMachine sampleSettings).run (new sampleSettings 2048 64)
          listenerAfterMessageRun).journal.heard = [] ∧
      ¬ NeverPoisoned sampleSettings ((consumerMachine sampleSettings).run
          (new sampleSettings 2048 64) listenerAfterMessageRun) := by
  refine ⟨by decide, by decide, by decide +kernel, by decide +kernel, ?_⟩
  unfold NeverPoisoned
  decide

end ActivemqCpp.Core
