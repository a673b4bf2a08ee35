import ActivemqCpp.Core.ConsumerKernel

/-!
# What waits for a listener is not marked in the audit

A message that waits for the listener must not be marked in the connection's audit: the
next dispatch would suppress it. The invariant `Unmarked` says so of everything in the
executor's queue and, while a listener is set, of everything in `unconsumedMessages`,
unless it was rolled back. `rollback` clears the marks of what it hands back, and a
consumer that is stopped clears the mark of what it keeps; `setMessageListener` clears
none, so that it keeps the invariant only when there is none to clear
(`Unmarked.setMessageListener`).
-/

namespace ActivemqCpp.Core

open Base Commands Decaf List MessageAudit ConnectionAudit

/-! ## Message ids and their slots -/

/-- A message id that the audit files is among the ids. -/
def KnownId (ids : Set (ProducerId × Nat)) (id : MessageId) : Prop :=
  ∀ (p : ProducerId) (n : Nat), id = ⟨some p, n⟩ → (p, n) ∈ ids

section Slots

variable {ids : Set (ProducerId × Nat)} {id id' : MessageId}

theorem fileable_of_known (hids : FoldsApart ids) (h : KnownId ids id) : Fileable id := by
  obtain ⟨producerId, sequence⟩ := id
  intro hsome hpos
  obtain ⟨p, rfl⟩ := Option.isSome_iff_exists.mp hsome
  obtain ⟨n, rfl⟩ := Int.eq_ofNat_of_zero_le hpos
  exact (hids _ (h p n rfl)).1

/-- Ids that are filed in one slot are one. -/
theorem eq_of_slot_eq (hids : FoldsApart ids) (h : KnownId ids id) (h' : KnownId ids id')
    {k : Bytes × Nat} (hk : slot id = some k) (hk' : slot id' = some k) :
    id = id' := by
  obtain ⟨producerId, sequence⟩ := id
  obtain ⟨producerId', sequence'⟩ := id'
  unfold slot at hk hk'
  cases producerId with
  | none => cases hk
  | some p =>
    cases producerId' with
    | none => exact absurd hk' (by simp)
    | some p' =>
      simp only [Option.ite_none_right_eq_some] at hk hk'
      obtain ⟨hpos, hk⟩ := hk
      obtain ⟨hpos', hk'⟩ := hk'
      obtain ⟨n, rfl⟩ := Int.eq_ofNat_of_zero_le hpos
      obtain ⟨n', rfl⟩ := Int.eq_ofNat_of_zero_le hpos'
      have heq := Prod.mk.inj (Option.some.inj (hk.trans hk'.symm))
      obtain rfl := ProducerId.toString_inj heq.1
      rw [index_inj hids (h p n rfl) (h' p n' rfl) heq.2]

end Slots

namespace ConsumerKernel

/-! ## The invariant -/

/-- The messages that wait to be dispatched: those in hand, those queued and those kept. -/
def pending (hand : List MessageDispatch) (s : ConsumerKernel) : List MessageDispatch :=
  hand ++ s.messageQueue.messages ++ s.unconsumedMessages.messages

/-- Two messages of which neither, or only a rolled back one, is a copy of the other. -/
def Apart (rolledBack : List MessageId) (d d' : MessageDispatch) : Prop :=
  d.messageId ∉ rolledBack → d.messageId ≠ d'.messageId

theorem Apart.symm {rolledBack : List MessageId} {d d' : MessageDispatch}
    (h : Apart rolledBack d d') : Apart rolledBack d' d := by
  intro hd' heq
  exact h (heq ▸ hd') heq.symm

/-- No audit has the message marked, unless it was rolled back. -/
def Unheld (s : ConsumerKernel) (d : MessageDispatch) : Prop :=
  d.messageId ∉ s.journal.rolledBack → s.connectionAudit.holds d.messageId = false

/-- The invariant, while the messages in hand are on their way to a dispatch. -/
structure Unmarked (cfg : ConsumerSettings) (ids : Set (ProducerId × Nat))
    (hand : List MessageDispatch) (s : ConsumerKernel) : Prop where
  sound : s.connectionAudit.Sound
  known : ∀ id ∈ s.journal.arrived, KnownId ids id
  marks : ∀ k, s.connectionAudit.marked k = true →
    ∃ id ∈ s.journal.arrived, slot id = some k
  arrived : ∀ d ∈ pending hand s, d.messageId ∈ s.journal.arrived
  delivered : ∀ d ∈ s.deliveredMessages, d.messageId ∈ s.journal.arrived
  tasks : ∀ task ∈ s.redeliveryTasks, ∀ d ∈ task,
    d.messageId ∈ s.journal.arrived ∧ d.messageId ∈ s.journal.rolledBack
  apart : (pending hand s).Pairwise (Apart s.journal.rolledBack)
  queued : ∀ d ∈ hand ++ s.messageQueue.messages, s.Unheld d
  kept : s.listener = true → ∀ d ∈ s.unconsumedMessages.messages, s.Unheld d
  poisoned : ∀ p ∈ s.journal.poisoned,
    p.1.messageId ∈ s.journal.rolledBack ∨ cfg.redeliveryExceeded p.1 = true

section Invariant

variable {cfg : ConsumerSettings} {ids : Set (ProducerId × Nat)} {hand : List MessageDispatch}
  {s : ConsumerKernel} {d : MessageDispatch} {audit : ConnectionAudit Unit}

/-- An audit with fewer marks. -/
theorem Unmarked.forget (h : Unmarked cfg ids hand s) (hsound : audit.Sound)
    (hmarks : ∀ k, audit.marked k = true → s.connectionAudit.marked k = true) :
    Unmarked cfg ids hand { s with connectionAudit := audit } := by
  have hunheld : ∀ d, s.Unheld d → Unheld { s with connectionAudit := audit } d := by
    intro d hd hrb
    refine holds_eq_false.mpr fun k hslot hmarked => ?_
    exact holds_eq_false.mp (hd hrb) k hslot (hmarks k hmarked)
  exact
    { h with
      sound := hsound
      marks := fun k hk => h.marks k (hmarks k hk)
      queued := fun d hd => hunheld d (h.queued d hd)
      kept := fun hl d hd => hunheld d (h.kept hl d hd) }

/-- The first message in hand, and that no other is a copy of it. -/
theorem Unmarked.head (h : Unmarked cfg ids (d :: hand) s) :
    d.messageId ∈ s.journal.arrived ∧ s.Unheld d ∧
      ∀ d' ∈ pending hand s, Apart s.journal.rolledBack d d' :=
  ⟨h.arrived d mem_cons_self, h.queued d mem_cons_self,
    (pairwise_cons.mp (show (d :: pending hand s).Pairwise _ from h.apart)).1⟩

theorem Unmarked.tail (h : Unmarked cfg ids (d :: hand) s) : Unmarked cfg ids hand s :=
  { h with
    arrived := fun d' hd' => h.arrived d' (mem_cons_of_mem _ hd')
    apart := (pairwise_cons.mp (show (d :: pending hand s).Pairwise _ from h.apart)).2
    queued := fun d' hd' => h.queued d' (mem_cons_of_mem _ hd') }

/-- The first message in hand is tested, marked and let go. -/
theorem Unmarked.mark (hids : FoldsApart ids) (h : Unmarked cfg ids (d :: hand) s)
    (hsound : audit.Sound)
    (hmarks : ∀ k, audit.marked k = true →
      slot d.messageId = some k ∨ s.connectionAudit.marked k = true) :
    Unmarked cfg ids hand { s with connectionAudit := audit } := by
  obtain ⟨hd, -, happart⟩ := h.head
  -- the slot of another message is not the one that was marked
  have hother : ∀ d' ∈ pending hand s, s.Unheld d' →
      Unheld { s with connectionAudit := audit } d' := by
    intro d' hd' hunheld hrb
    refine holds_eq_false.mpr fun k hslot hmarked => ?_
    rcases hmarks k hmarked with hslot' | hmarked
    · exact (happart d' hd').symm hrb
        (eq_of_slot_eq hids (h.known _ (h.tail.arrived d' hd')) (h.known _ hd) hslot hslot')
    · exact holds_eq_false.mp (hunheld hrb) k hslot hmarked
  exact
    { h.tail with
      sound := hsound
      marks := fun k hk => by
        rcases hmarks k hk with hslot | hk
        · exact ⟨d.messageId, hd, hslot⟩
        · exact h.marks k hk
      queued := fun d' hd' => hother d' (mem_append_left _ hd') (h.tail.queued d' hd')
      kept := fun hl d' hd' => hother d' (mem_append_right _ hd') (h.kept hl d' hd') }

/-! ## Messages that move -/

variable (h : Unmarked cfg ids hand s)
include h

/-- The same messages in other places, where what is queued stays unmarked. -/
theorem Unmarked.move {hand' : List MessageDispatch}
    {s' : ConsumerKernel} (haudit : s'.connectionAudit = s.connectionAudit)
    (hjournal : s'.journal = s.journal) (hdelivered : s'.deliveredMessages = s.deliveredMessages)
    (htasks : s'.redeliveryTasks = s.redeliveryTasks)
    (hperm : (pending hand' s').Perm (pending hand s))
    (hqueued : ∀ d ∈ hand' ++ s'.messageQueue.messages, s.Unheld d)
    (hkept : s'.listener = true → ∀ d ∈ s'.unconsumedMessages.messages, s.Unheld d) :
    Unmarked cfg ids hand' s' where
  sound := haudit ▸ h.sound
  known := hjournal ▸ h.known
  marks := haudit ▸ hjournal ▸ h.marks
  arrived d hd := hjournal ▸ h.arrived d (hperm.mem_iff.mp hd)
  delivered := hdelivered ▸ hjournal ▸ h.delivered
  tasks := htasks ▸ hjournal ▸ h.tasks
  apart := by
    rw [hjournal]
    exact (hperm.pairwise_iff Apart.symm).mpr h.apart
  queued d hd := by
    rw [Unheld, haudit, hjournal]
    exact hqueued d hd
  kept hl d hd := by
    rw [Unheld, haudit, hjournal]
    exact hkept hl d hd
  poisoned := hjournal ▸ h.poisoned

variable {channel : DispatchChannel}

theorem Unmarked.takeQueued (htake : s.messageQueue.dequeueNoWait = some (d, channel)) :
    Unmarked cfg ids (d :: hand) { s with messageQueue := channel } := by
  have hmessages := (DispatchChannel.dequeueNoWait_eq_some htake).2.2
  refine h.move rfl rfl rfl rfl ?_ (fun d' hd' => h.queued d' ?_) h.kept
  · unfold pending
    rw [hmessages, cons_append]
    exact (perm_middle.append_right _).symm
  · rw [hmessages]
    exact perm_middle.mem_iff.mpr hd'

theorem Unmarked.takeKept (hl : s.listener = true)
    (htake : s.unconsumedMessages.dequeueNoWait = some (d, channel)) :
    Unmarked cfg ids (d :: hand) { s with unconsumedMessages := channel } := by
  have hmessages := (DispatchChannel.dequeueNoWait_eq_some htake).2.2
  have hkept := h.kept hl
  rw [hmessages] at hkept
  refine h.move rfl rfl rfl rfl ?_ (fun d' hd' => ?_) fun _ d' hd' => ?_
  · unfold pending
    rw [hmessages]
    exact perm_middle.symm
  · rcases mem_cons.mp hd' with rfl | hd'
    · exact hkept d' mem_cons_self
    · exact h.queued d' hd'
  · exact hkept d' (mem_cons_of_mem _ hd')

omit h in
theorem Unmarked.enqueue (h : Unmarked cfg ids (d :: hand) s) :
    Unmarked cfg ids hand { s with messageQueue := s.messageQueue.enqueue d } := by
  have hmessages := s.messageQueue.messages_enqueue d
  have hperm : (hand ++ (s.messageQueue.enqueue d).messages).Perm
      (d :: hand ++ s.messageQueue.messages) :=
    (hmessages.append_left hand).trans perm_middle
  exact h.move rfl rfl rfl rfl (hperm.append_right _)
    (fun d' hd' => h.queued d' (hperm.mem_iff.mp hd')) h.kept

/-- What is kept goes back to the executor, if none of it is marked. -/
theorem Unmarked.redispatch (hkept : ∀ d ∈ s.unconsumedMessages.messages, s.Unheld d) :
    Unmarked cfg ids hand s.redispatch := by
  have hmessages :=
    s.messageQueue.messages_foldr_enqueueFirst s.unconsumedMessages.messages
  refine h.move rfl rfl rfl rfl ?_ (fun d hd => ?_) fun _ d hd => ?_
  · unfold pending ConsumerKernel.redispatch
    rw [DispatchChannel.messages_clear, append_nil, append_assoc]
    exact (hmessages.trans perm_append_comm).append_left hand
  · rcases mem_append.mp hd with hd | hd
    · exact h.queued d (mem_append_left _ hd)
    · rcases mem_append.mp (hmessages.mem_iff.mp hd) with hd | hd
      · exact hkept d hd
      · exact h.queued d (mem_append_right _ hd)
  · rw [show s.redispatch.unconsumedMessages.messages = [] from DispatchChannel.messages_clear _] at hd
    cases hd

/-- A message is kept; while a listener is set it must not be marked. -/
theorem Unmarked.keep (harrived : d.messageId ∈ s.journal.arrived)
    (happart : ∀ d' ∈ pending hand s, Apart s.journal.rolledBack d d')
    (hunheld : s.listener = true → s.Unheld d) :
    Unmarked cfg ids hand
      { s with unconsumedMessages := s.unconsumedMessages.enqueue d } := by
  have hmessages := s.unconsumedMessages.messages_enqueue d
  have hperm : (hand ++ s.messageQueue.messages ++ (s.unconsumedMessages.enqueue d).messages).Perm
      (d :: pending hand s) :=
    (hmessages.append_left _).trans perm_middle
  exact
    { h with
      arrived := fun d' hd' => by
        rcases mem_cons.mp (hperm.mem_iff.mp hd') with rfl | hd'
        · exact harrived
        · exact h.arrived d' hd'
      apart := (hperm.pairwise_iff Apart.symm).mpr (pairwise_cons.mpr ⟨happart, h.apart⟩)
      kept := fun hl d' hd' => by
        rcases mem_cons.mp (hmessages.mem_iff.mp hd') with rfl | hd'
        · exact hunheld hl
        · exact h.kept hl d' hd' }

/-! ## `rollback` -/

theorem Unmarked.poison {cause : PoisonCause}
    (hd : d.messageId ∈ s.journal.rolledBack ∨ cfg.redeliveryExceeded d = true) :
    Unmarked cfg ids hand (s.poisonAck d cause) :=
  { h with
    poisoned := fun p hp => by
      rcases mem_cons.mp hp with rfl | hp
      · exact hd
      · exact h.poisoned p hp }

theorem Unmarked.setDelivered {delivered : List MessageDispatch}
    (hdelivered : ∀ d ∈ delivered, d.messageId ∈ s.journal.arrived) (ackCounter : Nat) :
    Unmarked cfg ids hand { s with deliveredMessages := delivered, ackCounter := ackCounter } :=
  { h with delivered := hdelivered }

/-- More messages count as rolled back. -/
theorem Unmarked.rollBack (rolledBack : List MessageId) : Unmarked cfg ids hand
      { s with journal.rolledBack := rolledBack ++ s.journal.rolledBack } := by
  have hmem : ∀ {id}, id ∈ s.journal.rolledBack → id ∈ rolledBack ++ s.journal.rolledBack :=
    mem_append_right _
  exact
    { h with
      tasks := fun task htask d hd => ⟨(h.tasks task htask d hd).1, hmem (h.tasks task htask d hd).2⟩
      apart := h.apart.imp fun hab hrb => hab fun hold => hrb (hmem hold)
      queued := fun d hd hrb => h.queued d hd fun hold => hrb (hmem hold)
      kept := fun hl d hd hrb => h.kept hl d hd fun hold => hrb (hmem hold)
      poisoned := fun p hp => (h.poisoned p hp).imp_left hmem }

section Loops

variable {audit : ConnectionAudit Unit} {delivered : List MessageDispatch}

omit h in
theorem rollbackOptimized_spec (ackCounter fuel i : Nat) (haudit : audit.Sound)
    (hfile : ∀ d ∈ delivered, Fileable d.messageId) :
    ∃ audit' delivered', rollbackOptimized ackCounter fuel i audit delivered =
        (audit', delivered', .ok ()) ∧ audit'.Sound ∧
      (∀ k, audit'.marked k = true → audit.marked k = true) ∧ ∀ d ∈ delivered', d ∈ delivered := by
  induction fuel generalizing i audit delivered with
  | zero => exact ⟨audit, delivered, rfl, haudit, fun _ hk => hk, fun _ hd => hd⟩
  | succ fuel ih =>
    rw [rollbackOptimized]
    split
    · exact ⟨audit, delivered, rfl, haudit, fun _ hk => hk, fun _ hd => hd⟩
    · rename_i last hlast
      split
      · obtain ⟨audit₁, hcall, haudit₁, hmarks₁⟩ :=
          rollbackDuplicate_spec (hfile last (mem_of_getLast? hlast)) haudit
          () last.destination
        have hdrop : ∀ d ∈ delivered.dropLast, d ∈ delivered := fun d hd =>
          (dropLast_sublist delivered).subset hd
        obtain ⟨audit', delivered', hloop, haudit', hmarks', hsub⟩ :=
          ih (i + 1) haudit₁ fun d hd => hfile d (hdrop d hd)
        refine ⟨audit', delivered', ?_, haudit', fun k hk => hmarks₁ k (hmarks' k hk),
          fun d hd => hdrop d (hsub d hd)⟩
        rw [rollbackDuplicate, hcall]
        exact hloop
      · exact ⟨audit, delivered, rfl, haudit, fun _ hk => hk, fun _ hd => hd⟩

omit h in
theorem rollbackEach_spec (haudit : audit.Sound)
    (hfile : ∀ d ∈ delivered, Fileable d.messageId) :
    ∃ audit', rollbackEach audit delivered = (audit', delivered.map redelivered, .ok ()) ∧
      audit'.Sound ∧ ∀ k, audit'.marked k = true → audit.marked k = true := by
  induction delivered generalizing audit with
  | nil => exact ⟨audit, rfl, haudit, fun _ hk => hk⟩
  | cons d rest ih =>
    obtain ⟨audit₁, hcall, haudit₁, hmarks₁⟩ := rollbackDuplicate_spec (hfile d mem_cons_self) haudit
      () d.destination
    obtain ⟨audit', hloop, haudit', hmarks'⟩ :=
      ih haudit₁ fun d' hd' => hfile d' (mem_cons_of_mem _ hd')
    refine ⟨audit', ?_, haudit', fun k hk => hmarks₁ k (hmarks' k hk)⟩
    rw [rollbackEach, rollbackDuplicate, hcall]
    simp only [hloop, map_cons]

end Loops

/-- Every delivered message is rolled back. -/
def DeliveredRolledBack (s : ConsumerKernel) : Prop :=
  ∀ d ∈ s.deliveredMessages, d.messageId ∈ s.journal.rolledBack

variable (hrb : s.DeliveredRolledBack)
include hrb

theorem Unmarked.poisonDelivered : Unmarked cfg ids hand s.poisonDelivered :=
  { h with
    delivered := nofun
    poisoned := fun p hp => by
      rcases mem_append.mp hp with hp | hp
      · obtain ⟨d, hd, rfl⟩ := mem_map.mp hp
        exact .inl (hrb d hd)
      · exact h.poisoned p hp }

/-- The delivered messages join those that are kept. -/
theorem Unmarked.putBack
    (hperm : channel.messages.Perm (s.deliveredMessages ++ s.unconsumedMessages.messages))
    (startTasks : Nat) : Unmarked cfg ids hand
      { s with
        unconsumedMessages := channel
        deliveredMessages := []
        startTasks := startTasks } := by
  have hpending : (hand ++ s.messageQueue.messages ++ channel.messages).Perm
      (s.deliveredMessages ++ pending hand s) := by
    refine (hperm.append_left _).trans ?_
    rw [pending, ← append_assoc, ← append_assoc s.deliveredMessages]
    exact perm_append_comm.append_right _
  exact
    { h with
      arrived := fun d hd => by
        rcases mem_append.mp (hpending.mem_iff.mp hd) with hd | hd
        · exact h.delivered d hd
        · exact h.arrived d hd
      delivered := nofun
      apart := by
        refine (hpending.pairwise_iff Apart.symm).mpr (pairwise_append.mpr ⟨?_, h.apart, ?_⟩)
        · exact pairwise_of_forall_mem_list fun d hd _ _ hnot => absurd (hrb d hd) hnot
        · exact fun d hd _ _ hnot => absurd (hrb d hd) hnot
      kept := fun hl d hd => by
        rcases mem_append.mp (hperm.mem_iff.mp hd) with hd | hd
        · exact fun hnot => absurd (hrb d hd) hnot
        · exact h.kept hl d hd }

theorem Unmarked.redeliver (o : Outcome) : Unmarked cfg ids hand (redeliver cfg o s) := by
  unfold ConsumerKernel.redeliver
  split
  · exact
      { h with
        delivered := nofun
        tasks := fun task htask d hd => by
          rcases mem_append.mp htask with htask | htask
          · exact h.tasks task htask d hd
          · rw [mem_singleton.mp htask, mem_reverse] at hd
            exact ⟨h.delivered d hd, hrb d hd⟩ }
  · have hperm := s.unconsumedMessages.stop.messages_foldl_enqueueFirst s.deliveredMessages
    split
    · exact h.putBack hrb hperm _
    · refine h.putBack hrb ?_ s.startTasks
      exact hperm

theorem Unmarked.rollbackDelivered
    (o : Outcome) : Unmarked cfg ids hand (rollbackDelivered cfg o s) := by
  have hthen : ∀ s' : ConsumerKernel, Unmarked cfg ids hand s' →
      Unmarked cfg ids hand (if s'.listener then s'.redispatch else s') := by
    intro s' h'
    split
    · rename_i hl'
      exact h'.redispatch (h'.kept hl')
    · exact h'
  unfold ConsumerKernel.rollbackDelivered
  dsimp only
  split
  · exact hthen _ (h.poisonDelivered hrb)
  · exact hthen _ (h.redeliver hrb o)

omit hrb

theorem fileable_of_arrived (hids : FoldsApart ids) {id : MessageId}
    (hid : id ∈ s.journal.arrived) : Fileable id :=
  fileable_of_known hids (h.known id hid)

theorem Unmarked.rollback (hids : FoldsApart ids)
    (o : Outcome) : Unmarked cfg ids hand (rollback cfg o s) := by
  have hfile : ∀ d ∈ s.deliveredMessages, Fileable d.messageId := fun d hd =>
    fileable_of_arrived h hids (h.delivered d hd)
  obtain ⟨audit₁, delivered₁, hcall₁, haudit₁, hmarks₁, hsub⟩ :
      ∃ audit₁ delivered₁, (if cfg.optimizeAcknowledge then
          rollbackOptimized s.ackCounter s.deliveredMessages.length 0 s.connectionAudit
            s.deliveredMessages
        else (s.connectionAudit, s.deliveredMessages, .ok ())) = (audit₁, delivered₁, .ok ()) ∧
        audit₁.Sound ∧
        (∀ k, audit₁.marked k = true → s.connectionAudit.marked k = true) ∧
        ∀ d ∈ delivered₁, d ∈ s.deliveredMessages := by
    split
    · exact rollbackOptimized_spec s.ackCounter s.deliveredMessages.length 0 h.sound hfile
    · exact ⟨s.connectionAudit, s.deliveredMessages, rfl, h.sound, fun _ hk => hk, fun _ hd => hd⟩
  have h₁ := (h.forget haudit₁ hmarks₁).setDelivered
    (fun d hd => h.delivered d (hsub d hd)) s.ackCounter
  rw [ConsumerKernel.rollback, hcall₁]
  cases delivered₁ with
  | nil => exact h₁
  | cons first rest =>
    obtain ⟨audit₂, hcall₂, haudit₂, hmarks₂⟩ :=
      rollbackEach_spec haudit₁ fun d hd => hfile d (hsub d hd)
    dsimp only
    rw [hcall₂]
    have h₂ := ((h₁.forget haudit₂ hmarks₂).rollBack ((first :: rest).map (·.messageId)))
    refine Unmarked.rollbackDelivered (h₂.setDelivered ?_ s.ackCounter) ?_ o
    · intro d hd
      obtain ⟨d', hd', rfl⟩ := mem_map.mp hd
      exact h₁.delivered d' hd'
    · intro d hd
      obtain ⟨d', hd', rfl⟩ := mem_map.mp hd
      exact mem_append_left _ (mem_map.mpr ⟨d', hd', rfl⟩)

/-! ## `dispatch` -/

theorem Unmarked.beforeMessageIsConsumed (hd : d.messageId ∈ s.journal.arrived) :
    Unmarked cfg ids hand (beforeMessageIsConsumed cfg d s) := by
  unfold ConsumerKernel.beforeMessageIsConsumed
  split
  · exact h
  · refine h.setDelivered (fun d' hd' => ?_) s.ackCounter
    rcases mem_cons.mp hd' with rfl | hd'
    · exact hd
    · exact h.delivered d' hd'

theorem Unmarked.afterMessageIsConsumed (o : Outcome)
    (expired : Bool) : Unmarked cfg ids hand (afterMessageIsConsumed cfg o d expired s) := by
  unfold ConsumerKernel.afterMessageIsConsumed
  split
  · exact { h with delivered := fun d' hd' => h.delivered d' (mem_of_mem_erase hd') }
  · split
    · exact h
    · split
      · split
        · split
          · exact h.setDelivered (fun _ hd => absurd hd not_mem_nil) 0
          · exact h.setDelivered h.delivered _
        · exact h.setDelivered (fun _ hd => absurd hd not_mem_nil) s.ackCounter
      · exact h

theorem Unmarked.deliver (hids : FoldsApart ids)
    (hd : d.messageId ∈ s.journal.arrived) (o : Outcome) :
    Unmarked cfg ids hand (deliver cfg o d s) := by
  have hbefore := h.beforeMessageIsConsumed hd
  have hheard : Unmarked cfg ids hand
      { ConsumerKernel.beforeMessageIsConsumed cfg d s with
        journal.heard := d.messageId ::
          (ConsumerKernel.beforeMessageIsConsumed cfg d s).journal.heard } := { hbefore with }
  unfold ConsumerKernel.deliver
  split
  · rename_i hexceeded
    exact h.poison (.inr hexceeded)
  · dsimp only
    split
    · exact hbefore.afterMessageIsConsumed o true
    · split
      · exact hheard.afterMessageIsConsumed o false
      · split
        · exact hheard.rollback hids o
        · exact hheard.afterMessageIsConsumed o false
      · exact hheard

omit h in
/-- The test, with duplicate checking on or off. -/
theorem isDuplicate_cases (cfg : ConsumerSettings) (hsound : s.connectionAudit.Sound)
    (hfile : Fileable d.messageId) :
    ∃ audit b, isDuplicate cfg d s = (audit, .ok b) ∧ audit.Sound ∧
      (b = true → s.connectionAudit.holds d.messageId = true) ∧
      (∀ k, audit.marked k = true →
        slot d.messageId = some k ∨ s.connectionAudit.marked k = true) ∧
      ∃ audit', rollbackDuplicate audit d = (audit', .ok ()) ∧ audit'.Sound ∧
        ∀ k, audit'.marked k = true → s.connectionAudit.marked k = true := by
  unfold isDuplicate
  split
  · obtain ⟨audit, b, hcall, haudit, hb, hmarks⟩ :=
      isDuplicate_spec hfile hsound () d.destination
    exact ⟨audit, b, hcall, haudit, hb, hmarks, rollbackDuplicate_isDuplicate hfile hsound hcall⟩
  · exact ⟨s.connectionAudit, false, rfl, hsound, by simp, fun _ hk => .inr hk,
      rollbackDuplicate_spec hfile hsound () d.destination⟩

omit h in
/-- **One dispatch.** The message in hand is heard, kept or let go, and nothing that waits
becomes marked. -/
theorem Unmarked.dispatch (hids : FoldsApart ids) (h : Unmarked cfg ids (d :: hand) s)
    (o : Outcome) : Unmarked cfg ids hand (dispatch cfg o d s) := by
  obtain ⟨hd, hunheld, happart⟩ := h.head
  obtain ⟨audit, b, hcall, haudit, hb, hmarks, audit', hundo, haudit', hmarks'⟩ :=
    isDuplicate_cases cfg h.sound (fileable_of_arrived h hids hd)
  have hmarked := h.mark hids haudit hmarks
  rw [ConsumerKernel.dispatch, hcall]
  cases b with
  | true =>
    refine Unmarked.poison hmarked (.inl ?_)
    by_contra hrb
    exact absurd (hb rfl) (by simp [hunheld hrb])
  | false =>
    dsimp only
    split
    · split
      · exact hmarked.deliver hids hd o
      · rename_i hl
        exact hmarked.keep hd happart fun hl' => absurd hl' hl
    · rw [hundo]
      have hforgot := h.forget haudit' hmarks'
      exact hforgot.tail.keep hd happart fun _ => hforgot.head.2.1

/-! ## Events -/

omit h in
theorem Unmarked.execute (hids : FoldsApart ids) (h : Unmarked cfg ids (d :: hand) s)
    (o : Outcome) : Unmarked cfg ids hand (execute cfg o d s) := by
  unfold ConsumerKernel.execute
  split
  · exact h.enqueue
  · exact h.dispatch hids o

/-- A task that runs: its messages come into the hand, all of them rolled back. -/
theorem Unmarked.takeTask {i : Nat} {task : List MessageDispatch}
    (htask : s.redeliveryTasks[i]? = some task) :
    Unmarked cfg ids (task ++ hand) { s with redeliveryTasks := s.redeliveryTasks.eraseIdx i } := by
  have hrolled := h.tasks task (mem_of_getElem? htask)
  have hpending : pending (task ++ hand) s = task ++ pending hand s := by simp [pending]
  exact
    { h with
      arrived := fun d hd => by
        rcases mem_append.mp (hpending ▸ (show d ∈ pending (task ++ hand) s from hd)) with hd | hd
        · exact (hrolled d hd).1
        · exact h.arrived d hd
      tasks := fun task' htask' => h.tasks task' (mem_of_mem_eraseIdx htask')
      apart := by
        show (pending (task ++ hand) s).Pairwise _
        rw [hpending]
        refine pairwise_append.mpr ⟨?_, h.apart, ?_⟩
        · exact pairwise_of_forall_mem_list fun d hd _ _ hnot => absurd (hrolled d hd).2 hnot
        · exact fun d hd _ _ hnot => absurd (hrolled d hd).2 hnot
      queued := fun d hd => by
        rw [append_assoc] at hd
        rcases mem_append.mp hd with hd | hd
        · exact fun hnot => absurd (hrolled d hd).2 hnot
        · exact h.queued d hd }

/-- A message that has not arrived before comes into the hand. -/
theorem Unmarked.arrive (hids : FoldsApart ids)
    (hnew : d.messageId ∉ s.journal.arrived) (hknown : KnownId ids d.messageId) :
    Unmarked cfg ids (d :: hand)
      { s with journal.arrived := d.messageId :: s.journal.arrived } := by
  have hunheld : s.Unheld d := by
    intro _
    refine holds_eq_false.mpr fun k hslot hmarked => ?_
    obtain ⟨id, hid, hslot'⟩ := h.marks k hmarked
    rw [eq_of_slot_eq hids hknown (h.known id hid) hslot hslot'] at hnew
    exact hnew hid
  exact
    { h with
      known := fun id hid => by
        rcases mem_cons.mp hid with rfl | hid
        · exact hknown
        · exact h.known id hid
      marks := fun k hk => by
        obtain ⟨id, hid, hslot⟩ := h.marks k hk
        exact ⟨id, mem_cons_of_mem _ hid, hslot⟩
      arrived := fun d' hd' => by
        rcases mem_cons.mp hd' with rfl | hd'
        · exact mem_cons_self
        · exact mem_cons_of_mem _ (h.arrived d' hd')
      delivered := fun d' hd' => mem_cons_of_mem _ (h.delivered d' hd')
      tasks := fun task htask d' hd' =>
        ⟨mem_cons_of_mem _ (h.tasks task htask d' hd').1, (h.tasks task htask d' hd').2⟩
      apart := by
        refine pairwise_cons.mpr ⟨fun d' hd' _ heq => hnew ?_, h.apart⟩
        rw [heq]
        exact h.arrived d' hd'
      queued := fun d' hd' => by
        rcases mem_cons.mp hd' with rfl | hd'
        · exact hunheld
        · exact h.queued d' hd' }

theorem Unmarked.start : Unmarked cfg ids hand s.start := { h with }

theorem Unmarked.stop : Unmarked cfg ids hand s.stop := { h with }

theorem Unmarked.runStartTask : Unmarked cfg ids hand s.runStartTask := by
  unfold ConsumerKernel.runStartTask
  split
  · exact h
  · exact { h with }

/-- No message that is kept is marked in an audit of the connection. -/
def KeepsUnmarked (s : ConsumerKernel) : Prop :=
  ∀ d ∈ s.unconsumedMessages.messages, s.connectionAudit.holds d.messageId = false

instance (s : ConsumerKernel) : Decidable s.KeepsUnmarked :=
  inferInstanceAs (Decidable (∀ d ∈ s.unconsumedMessages.messages, _))

theorem Unmarked.installListener (hkept : s.KeepsUnmarked) :
    Unmarked cfg ids hand s.installListener := by
  have hset : Unmarked cfg ids hand
      { s with
        listener := true
        journal.handedBack := s.unconsumedMessages.messages ++ s.journal.handedBack } :=
    { h with kept := fun _ d hd _ => hkept d hd }
  exact hset.redispatch fun d hd _ => hkept d hd

theorem Unmarked.setMessageListener {listener : Bool}
    (hkept : listener = true → cfg.prefetchSize ≠ 0 → s.KeepsUnmarked) :
    Unmarked cfg ids hand (setMessageListener cfg listener s) := by
  unfold ConsumerKernel.setMessageListener
  split
  · rename_i hlistener
    split
    · exact h
    · rename_i hprefetch
      have hunmarked := hkept hlistener hprefetch
      split
      · exact (h.stop.installListener hunmarked).start
      · exact h.installListener hunmarked
  · exact { h with kept := fun hl => absurd hl (by simp) }

end Invariant

end ConsumerKernel

end ActivemqCpp.Core
