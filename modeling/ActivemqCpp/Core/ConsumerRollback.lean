import ActivemqCpp.Core.ConsumerAcks
import ActivemqCpp.Core.ConsumerInvariant

/-!
# `rollback`: which messages come back, and where

* **Discarding** — with optimized acknowledgement the first loop counts up to the size of a
  list that it shortens: of `n` delivered messages it drops `min k ⌈n/2⌉`, not `min k n`
  (`rollbackOptimized_eq`), and redelivers the others (`rollback_discards_iff`).
* **Order** — the delivered list is newest first and put back one by one at the head, so that
  two reversals cancel (`IsFifo.foldl_enqueueFirst`): the messages come back in their order, ahead of
  what was queued, in the channel or, with a listener, in the executor's queue
  (`rollback_restores`).
* **Audit** — what is rolled back is not marked in the audit that files it, whatever else is
  rolled back (`filed_rollbackDuplicates`).
-/

namespace ActivemqCpp.Core

open Base Commands Decaf List ConsumerKernel

/-! ## No message is lost -/

namespace ConsumerKernel

/-- The messages that are not in the delivered list: those given up as poison, scheduled
again, queued and kept. -/
def elsewhere (s : ConsumerKernel) : List MessageDispatch :=
  s.journal.poisoned.map Prod.fst ++ s.redeliveryTasks.flatten ++ s.messageQueue.messages ++
    s.unconsumedMessages.messages

/-- All messages that the consumer has, or has given up as poison. -/
def held (s : ConsumerKernel) : List MessageDispatch := s.deliveredMessages ++ s.elsewhere

theorem held_poisonDelivered (s : ConsumerKernel) : s.poisonDelivered.held = s.held := by
  have hpair : ∀ l : List MessageDispatch,
      (l.map fun d => (d, PoisonCause.rollbackExceedsLimit)).map Prod.fst = l := by
    intro l
    rw [map_map]
    exact map_id l
  simp only [held, elsewhere, poisonDelivered, map_append, hpair, nil_append, append_assoc]

theorem held_redispatch (s : ConsumerKernel) : s.redispatch.held.Perm s.held := by
  have hqueue := DispatchChannel.messages_foldr_enqueueFirst s.messageQueue
    s.unconsumedMessages.messages
  simp only [held, elsewhere, redispatch, DispatchChannel.messages_clear, append_nil, append_assoc]
  exact (((hqueue.trans perm_append_comm).append_left _).append_left _).append_left _

/-- The delivered messages go to the front of what is kept. -/
theorem held_putBack {s s' : ConsumerKernel} (hdelivered : s'.deliveredMessages = [])
    (hjournal : s'.journal = s.journal) (htasks : s'.redeliveryTasks = s.redeliveryTasks)
    (hqueue : s'.messageQueue = s.messageQueue)
    (hkept : s'.unconsumedMessages.messages.Perm
      (s.deliveredMessages ++ s.unconsumedMessages.messages)) : s'.held.Perm s.held := by
  simp only [held, elsewhere, hdelivered, hjournal, htasks, hqueue]
  exact (hkept.append_left _).trans (perm_append_comm_assoc _ _ _)

theorem held_redeliver (cfg : ConsumerSettings) (o : Outcome) (s : ConsumerKernel) :
    (redeliver cfg o s).held.Perm s.held := by
  have hchannel := DispatchChannel.messages_foldl_enqueueFirst s.unconsumedMessages.stop
    s.deliveredMessages
  unfold redeliver
  split
  · simp only [held, elsewhere, flatten_append, flatten_singleton, nil_append, append_assoc]
    refine (((reverse_perm _).append_right _).append_left _).append_left _ |>.trans ?_
    have hmove := perm_append_comm_assoc
      (s.journal.poisoned.map Prod.fst ++ s.redeliveryTasks.flatten) s.deliveredMessages
      (s.messageQueue.messages ++ s.unconsumedMessages.messages)
    simpa only [append_assoc] using hmove
  · split <;> exact held_putBack rfl rfl rfl rfl hchannel

end ConsumerKernel

namespace Consumer

/-! ## The calls of the audit -/

variable (audit : ConnectionAudit Unit)

theorem rollbackDuplicates_append (ds es : List MessageDispatch) :
    rollbackDuplicates audit (ds ++ es) = match rollbackDuplicates audit ds with
      | (audit, .error e) => (audit, .error e)
      | (audit, .ok ()) => rollbackDuplicates audit es := by
  induction ds generalizing audit with
  | nil => rfl
  | cons d ds ih =>
    rw [cons_append, rollbackDuplicates, rollbackDuplicates]
    cases hcall : rollbackDuplicate audit d with
    | mk audit' result =>
      cases result with
      | error e => rfl
      | ok u => exact ih audit'

/-- The second loop of `rollback` makes the calls in the order of the list. -/
theorem rollbackEach_eq (ds : List MessageDispatch) :
    (rollbackEach audit ds).1 = (rollbackDuplicates audit ds).1 ∧
      (rollbackEach audit ds).2.2 = (rollbackDuplicates audit ds).2 ∧
      ((rollbackDuplicates audit ds).2 = .ok () →
        (rollbackEach audit ds).2.1 = ds.map redelivered) := by
  induction ds generalizing audit with
  | nil => exact ⟨rfl, rfl, fun _ => rfl⟩
  | cons d ds ih =>
    rw [rollbackEach, rollbackDuplicates]
    cases hcall : rollbackDuplicate audit d with
    | mk audit' result =>
      cases result with
      | error e =>
        refine ⟨rfl, rfl, fun hok => ?_⟩
        cases hok
      | ok u =>
        obtain ⟨haudit, hresult, hlist⟩ := ih audit'
        refine ⟨haudit, hresult, fun hok => ?_⟩
        exact congrArg (redelivered d :: ·) (hlist hok)

/-! ## What the first loop discards -/

/-- The `m` oldest of a list that is newest first, oldest first. -/
def oldest (m : Nat) (delivered : List MessageDispatch) : List MessageDispatch :=
  (delivered.drop (delivered.length - m)).reverse

/-- All but the `m` oldest. -/
def newest (m : Nat) (delivered : List MessageDispatch) : List MessageDispatch :=
  delivered.take (delivered.length - m)

variable {delivered : List MessageDispatch} {last : MessageDispatch}

theorem oldest_succ (h : delivered.getLast? = some last) (m : Nat) :
    oldest (m + 1) delivered = last :: oldest m delivered.dropLast := by
  obtain ⟨front, rfl⟩ := getLast?_eq_some_iff.mp h
  rw [oldest, dropLast_concat, length_append, length_singleton,
    Nat.add_sub_add_right, drop_append_of_le_length (Nat.sub_le _ _), reverse_append]
  rfl

theorem newest_succ (h : delivered.getLast? = some last) (m : Nat) :
    newest (m + 1) delivered = newest m delivered.dropLast := by
  obtain ⟨front, rfl⟩ := getLast?_eq_some_iff.mp h
  rw [newest, newest, dropLast_concat, length_append, length_singleton,
    Nat.add_sub_add_right, take_append_of_le_length (Nat.sub_le _ _)]

/-- How many messages the loop drops that counts `i` up while the list gets shorter. -/
def dropped (ackCounter i length : Nat) : Nat := min (ackCounter - i) ((length - i + 1) / 2)

theorem dropped_eq_zero {k i n : Nat} (h : ¬ (i < n ∧ i < k)) : dropped k i n = 0 := by
  unfold dropped
  omega

theorem dropped_eq_succ {k i n : Nat} (h : i < n ∧ i < k) :
    dropped k i n = dropped k (i + 1) (n - 1) + 1 := by
  unfold dropped
  omega

/-- The first loop of `rollback`: it rolls back the oldest `dropped` messages, oldest first,
and unless the audit throws leaves the others. -/
theorem rollbackOptimized_eq (k : Nat) {fuel i : Nat} (hfuel : delivered.length ≤ fuel) :
    let r := oldest (dropped k i delivered.length) delivered
    (rollbackOptimized k fuel i audit delivered).1 = (rollbackDuplicates audit r).1 ∧
      (rollbackOptimized k fuel i audit delivered).2.2 =
        (rollbackDuplicates audit r).2 ∧
      ((rollbackDuplicates audit r).2 = .ok () →
        (rollbackOptimized k fuel i audit delivered).2.1 =
          newest (dropped k i delivered.length) delivered) := by
  induction fuel generalizing i audit delivered with
  | zero =>
    obtain rfl := length_eq_zero_iff.mp (Nat.le_zero.mp hfuel)
    simp [rollbackOptimized, oldest, newest, rollbackDuplicates]
  | succ fuel ih =>
    rw [rollbackOptimized]
    cases hlast : delivered.getLast? with
    | none =>
      obtain rfl := getLast?_eq_none_iff.mp hlast
      simp [oldest, newest, rollbackDuplicates]
    | some last =>
      have hlength : delivered.dropLast.length = delivered.length - 1 := length_dropLast
      by_cases hgo : i < delivered.length ∧ i < k
      · rw [dropped_eq_succ hgo, oldest_succ hlast, newest_succ hlast, ← hlength]
        simp only [if_pos hgo, rollbackDuplicates]
        cases hcall : rollbackDuplicate audit last with
        | mk audit' result =>
          cases result with
          | error e =>
            refine ⟨rfl, rfl, fun hok => ?_⟩
            cases hok
          | ok u => exact ih audit' (by omega)
      · rw [dropped_eq_zero hgo]
        simp [if_neg hgo, oldest, newest, rollbackDuplicates]

section Rollback

variable {cfg : AckSettings}

/-- A session that is not transacted recovers nothing. -/
theorem previouslyDelivered_eq_none (h : cfg.isTransacted = false) (s : Consumer cfg) :
    s.previouslyDelivered = none := by
  by_contra hne
  have htransacted := s.recovering_transacted hne
  rw [h] at htransacted
  cases htransacted

theorem isTransacted_of_optimizes (h : cfg.optimizeAcknowledge = true) :
    cfg.isTransacted = false := by
  have hauto := (cfg.optimizes_auto h).1
  simp [ConsumerSettings.isTransacted, hauto]

/-- An interruption empties the list of a consumer that acknowledges automatically. -/
theorem clearDeliveredList_auto (h : cfg.optimizeAcknowledge = true) (s : Consumer cfg) :
    s.clearDeliveredList.2 = .ok () := by
  have hauto := (cfg.optimizes_auto h).1
  unfold clearDeliveredList
  split
  · split
    · rfl
    · rw [dif_neg (by rw [isTransacted_of_optimizes h]; exact Bool.false_ne_true),
        if_neg (by simp [hauto])]
  · rfl

open ConsumerKernel in
theorem held_redeliver (o : Outcome) (s : Consumer cfg) : (s.redeliver o).held.Perm s.held := by
  unfold redeliver
  split
  · split
    · exact Perm.refl _
    · exact held_putBack rfl rfl rfl rfl (DispatchChannel.messages_foldl_enqueueFirst
        s.unconsumedMessages.stop s.deliveredMessages)
  · exact ConsumerKernel.held_redeliver cfg.toConsumerSettings o s.toConsumerKernel

variable (count : Int)

theorem kernel_redeliveredAck (s : Consumer cfg) :
    (s.redeliveredAck count).toConsumerKernel = s.toConsumerKernel := by
  unfold redeliveredAck
  split
  · split <;> rfl
  · rfl

theorem held_poisonDelivered (s : Consumer cfg) : s.poisonDelivered.held = s.held := by
  unfold poisonDelivered
  split
  · rfl
  · exact ConsumerKernel.held_poisonDelivered s.toConsumerKernel

theorem held_applyPolicy (o : Outcome) (s : Consumer cfg) :
    (s.applyPolicy o count).held.Perm s.held := by
  unfold applyPolicy
  split
  · rw [held_poisonDelivered]
  · exact (held_redeliver o _).trans (by rw [kernel_redeliveredAck])

theorem held_toListener (s : Consumer cfg) : s.toListener.held.Perm s.held := by
  unfold toListener
  split
  · exact held_redispatch s.toConsumerKernel
  · exact Perm.refl _

variable {s : Consumer cfg}
  (h : (rollbackDuplicates s.connectionAudit s.deliveredMessages).2 = .ok ())
include h

/-- The redelivering part of `rollback`, when no call of the audit throws. -/
theorem rollbackDelivered_of_accepted (o : Outcome) : s.rollbackDelivered o =
      (match s.deliveredMessages with
        | [] => s
        | lastMsg :: _ =>
          ((s.rolledBack (rollbackDuplicates s.connectionAudit s.deliveredMessages).1
            (s.deliveredMessages.map redelivered)).applyPolicy o
              lastMsg.messageRedeliveryCounter).toListener, .ok ()) := by
  obtain ⟨haudit, hresult, hlist⟩ := rollbackEach_eq s.connectionAudit s.deliveredMessages
  have heach : rollbackEach s.connectionAudit s.deliveredMessages =
      ((rollbackDuplicates s.connectionAudit s.deliveredMessages).1,
        s.deliveredMessages.map redelivered, .ok ()) :=
    Prod.ext haudit (Prod.ext (hlist h) (hresult.trans h))
  rw [rollbackDelivered, heach]
  cases s.deliveredMessages with
  | nil => rfl
  | cons lastMsg rest => rfl

theorem rollbackDelivered_of_cons (o : Outcome) {lastMsg : MessageDispatch}
    {rest : List MessageDispatch} (hlist : s.deliveredMessages = lastMsg :: rest) :
    s.rollbackDelivered o =
      (((s.rolledBack (rollbackDuplicates s.connectionAudit s.deliveredMessages).1
        (s.deliveredMessages.map redelivered)).applyPolicy o
          lastMsg.messageRedeliveryCounter).toListener, .ok ()) := by
  rw [rollbackDelivered_of_accepted h o, hlist]

omit h in
/-- A call of the audit that throws ends `rollback`. -/
theorem rollbackDelivered_of_refused
    (h : (rollbackDuplicates s.connectionAudit s.deliveredMessages).2 ≠ .ok ()) (o : Outcome) :
    ∃ audit delivered e, s.rollbackDelivered o = (s.rolledBack audit delivered, .error e) := by
  obtain ⟨-, hresult, -⟩ := rollbackEach_eq s.connectionAudit s.deliveredMessages
  unfold rollbackDelivered
  cases hlist : s.deliveredMessages with
  | nil =>
    rw [hlist] at h
    exact absurd rfl h
  | cons lastMsg rest =>
    rw [hlist] at h hresult
    rcases heach : rollbackEach s.connectionAudit (lastMsg :: rest) with
      ⟨audit, delivered, e | u⟩
    · exact ⟨audit, delivered, e, rfl⟩
    · rw [heach] at hresult
      exact absurd hresult.symm h

omit h in
theorem accepted_of_rollbackDelivered {o : Outcome} (h : (s.rollbackDelivered o).2 = .ok ()) :
    (rollbackDuplicates s.connectionAudit s.deliveredMessages).2 = .ok () := by
  by_contra hne
  obtain ⟨audit, delivered, e, hrefused⟩ := rollbackDelivered_of_refused hne o
  rw [hrefused] at h
  cases h

/-- Every delivered message is raised and handed on. -/
theorem held_rollbackDelivered (o : Outcome) : (s.rollbackDelivered o).1.held.Perm
      (s.deliveredMessages.map redelivered ++ s.elsewhere) := by
  rw [rollbackDelivered_of_accepted h o]
  cases hlist : s.deliveredMessages with
  | nil =>
    rw [held, hlist]
    exact Perm.refl _
  | cons lastMsg rest =>
    exact (held_toListener _).trans (held_applyPolicy _ o _)

/-! ## Optimized acknowledgement -/

variable {audit : ConnectionAudit Unit}

omit h

theorem accepted_append {ds es : List MessageDispatch} :
    (rollbackDuplicates audit (ds ++ es)).2 = .ok () ↔
      (rollbackDuplicates audit ds).2 = .ok () ∧
        (rollbackDuplicates (rollbackDuplicates audit ds).1 es).2 = .ok () := by
  rw [rollbackDuplicates_append]
  cases rollbackDuplicates audit ds with
  | mk audit' result =>
    cases result with
    | error e => simp
    | ok u => simp

theorem rollbackPreviouslyDelivered_of_none (h : s.previouslyDelivered = none) :
    s.rollbackPreviouslyDeliveredAndNotRedelivered = (s, .ok ()) := by
  unfold rollbackPreviouslyDeliveredAndNotRedelivered
  split
  next => rfl
  next map hmap => simp [h] at hmap

variable {s₁ : Consumer cfg}

/-- With optimized acknowledgement, what `rollback` does before it redelivers. -/
theorem prepareRollback_optimized (hopt : cfg.optimizeAcknowledge = true) (s : Consumer cfg)
    (hs₁ : s.clearDeliveredList.1 = s₁) {r : Nat}
    (hr : dropped s₁.ackCounter 0 s₁.deliveredMessages.length = r) :
    ((rollbackDuplicates s₁.connectionAudit (oldest r s₁.deliveredMessages)).2 = .ok () →
      s.prepareRollback =
        ({ s₁ with
          connectionAudit :=
            (rollbackDuplicates s₁.connectionAudit (oldest r s₁.deliveredMessages)).1
          deliveredMessages := newest r s₁.deliveredMessages }, .ok ())) ∧
      (s.prepareRollback.2 = .ok () →
        (rollbackDuplicates s₁.connectionAudit (oldest r s₁.deliveredMessages)).2 = .ok ()) := by
  subst hr
  have hclear : s.clearDeliveredList = (s₁, .ok ()) := Prod.ext hs₁ (clearDeliveredList_auto hopt s)
  obtain ⟨haudit, hresult, hlist⟩ := rollbackOptimized_eq s₁.connectionAudit s₁.ackCounter
    (le_refl s₁.deliveredMessages.length)
  have hflags : (cfg.optimizeAcknowledge && !cfg.browser) = true := by
    rw [hopt, (cfg.optimizes_auto hopt).2]
    rfl
  have hnone := previouslyDelivered_eq_none (isTransacted_of_optimizes hopt) s₁
  rw [prepareRollback, hclear]
  dsimp only
  rw [discardOptimized, if_pos hflags]
  cases hloop : rollbackOptimized s₁.ackCounter s₁.deliveredMessages.length 0
      s₁.connectionAudit s₁.deliveredMessages with
  | mk audit rest =>
    obtain ⟨delivered, result⟩ := rest
    rw [hloop] at haudit hresult hlist
    dsimp only at haudit hresult hlist ⊢
    cases result with
    | error e =>
      rw [← hresult]
      exact ⟨nofun, nofun⟩
    | ok u =>
      refine ⟨fun hok => ?_, fun _ => hresult.symm⟩
      rw [haudit, hlist hok]
      exact rollbackPreviouslyDelivered_of_none hnone

variable {delivered : List MessageDispatch}

theorem length_newest {m : Nat} : (newest m delivered).length = delivered.length - m := by
  rw [newest, length_take]
  omega

/-- What `rollback` does, and when no call of the audit throws, with optimized
acknowledgement. -/
theorem rollback_optimized (hopt : cfg.optimizeAcknowledge = true) (o : Outcome) (s : Consumer cfg)
    (hs₁ : s.clearDeliveredList.1 = s₁) {r : Nat}
    (hr : dropped s₁.ackCounter 0 s₁.deliveredMessages.length = r) :
    ((s.rollback o).2 = .ok () ↔ (rollbackDuplicates s₁.connectionAudit
        (oldest r s₁.deliveredMessages ++ newest r s₁.deliveredMessages)).2 = .ok ()) ∧
      ((s.rollback o).2 = .ok () →
        s.prepareRollback.1.deliveredMessages = newest r s₁.deliveredMessages ∧
          (s.rollback o).1.held.Perm
            ((newest r s₁.deliveredMessages).map redelivered ++ s₁.elsewhere)) := by
  obtain ⟨hprepare, haccepted⟩ := prepareRollback_optimized hopt s hs₁ hr
  have hreturns : (s.rollback o).2 = .ok () →
      (rollbackDuplicates s₁.connectionAudit (oldest r s₁.deliveredMessages)).2 = .ok () := by
    intro hok
    refine haccepted ?_
    unfold rollback at hok
    revert hok
    cases s.prepareRollback with
    | mk s₂ result =>
      cases result with
      | error e => exact fun h => h
      | ok u => exact fun _ => rfl
  rw [accepted_append]
  by_cases hfirst : (rollbackDuplicates s₁.connectionAudit (oldest r s₁.deliveredMessages)).2 = .ok ()
  · have hrollback : s.rollback o = rollbackDelivered o { s₁ with
        connectionAudit := (rollbackDuplicates s₁.connectionAudit (oldest r s₁.deliveredMessages)).1
        deliveredMessages := newest r s₁.deliveredMessages } := by
      rw [rollback, hprepare hfirst]
    rw [hrollback, hprepare hfirst]
    refine ⟨⟨fun hok => ⟨hfirst, accepted_of_rollbackDelivered hok⟩, fun hok => ?_⟩,
      fun hok => ⟨rfl, ?_⟩⟩
    · rw [rollbackDelivered_of_accepted hok.2 o]
    · exact held_rollbackDelivered (accepted_of_rollbackDelivered hok) o
  · exact ⟨⟨fun hok => absurd (hreturns hok) hfirst, fun hok => absurd hok.1 hfirst⟩,
      fun hok => absurd (hreturns hok) hfirst⟩

/-- `rollback` returns, having discarded the `min k n` oldest of the delivered messages (`k`
is the counter, `n` their number); the others are raised and handed on, and nothing else
moves. -/
structure DiscardsAcknowledged (o : Outcome) (s : Consumer cfg) (k n : Nat) : Prop where
  returns : (s.rollback o).2 = .ok ()
  discards : s.prepareRollback.1.deliveredMessages =
    newest (min k n) s.clearDeliveredList.1.deliveredMessages
  redelivers : (s.rollback o).1.held.Perm
    ((newest (min k n) s.clearDeliveredList.1.deliveredMessages).map ConsumerKernel.redelivered ++
      s.clearDeliveredList.1.elsewhere)

/-- A consumer that reads messages and is rolled back at the last. -/
def readAndFail (n : Nat) : Consumer (optimizing 100) :=
  let read := (range n).foldl (fun s i => consume (message (i + 1)) s) (Consumer.new _ 2048 64)
  read.beforeMessageIsConsumed (message (n + 1))

def promptly : Outcome := ⟨false, .throwsRuntimeException, false, false⟩

/-- A message that no entry of the map names stays in the list. -/
theorem removeFromDeliveredMessages_of_ne {key : MessageId} (audit : ConnectionAudit Unit)
    (h : ∀ d ∈ delivered, d.messageId ≠ key) :
    removeFromDeliveredMessages key audit delivered = (audit, delivered, .ok ()) := by
  induction delivered with
  | nil => rfl
  | cons d rest ih =>
    rw [removeFromDeliveredMessages, if_neg (h d mem_cons_self),
      ih fun d' hd' => h d' (mem_cons_of_mem d hd')]

/-- A failover leaves the delivered messages to the consumer: it is recovered from, and none
of them has still to be replayed. -/
structure Recovered (s : Consumer cfg) : Prop where
  notInterrupted : s.isClearDeliveredList = false
  replayed : ∀ map, s.previouslyDelivered = some map → ∀ e ∈ map, e.2 = false →
    ∀ d ∈ s.deliveredMessages, d.messageId ≠ e.1.messageId

theorem removeNotRedelivered_of_replayed {map : PreviouslyDeliveredMap}
    (audit : ConnectionAudit Unit)
    (h : ∀ e ∈ map, e.2 = false → ∀ d ∈ delivered, d.messageId ≠ e.1.messageId) :
    removeNotRedelivered map audit delivered = (audit, delivered, .ok ()) := by
  induction map with
  | nil => rfl
  | cons e map ih =>
    obtain ⟨id, replayed⟩ := e
    have hrest := ih fun e he => h e (mem_cons_of_mem _ he)
    rw [removeNotRedelivered]
    cases replayed with
    | true => exact hrest
    | false =>
      rw [removeFromDeliveredMessages_of_ne audit (h (id, false) mem_cons_self rfl)]
      exact hrest

/-- Without optimized acknowledgement and a failover to recover from, `rollback` redelivers
what was delivered. -/
theorem prepareRollback_of_recovered (hopt : cfg.optimizeAcknowledge = false)
    (h : s.Recovered) : ∃ s', s.prepareRollback = (s', .ok ()) ∧
      s'.toConsumerKernel = s.toConsumerKernel ∧ s'.closed = s.closed := by
  have hclear : s.clearDeliveredList = (s, .ok ()) := by
    rw [clearDeliveredList, h.notInterrupted]
    rfl
  have hdiscard : s.discardOptimized = (s, .ok ()) := by
    rw [discardOptimized, hopt]
    rfl
  rw [prepareRollback, hclear]
  dsimp only
  rw [hdiscard]
  dsimp only
  unfold rollbackPreviouslyDeliveredAndNotRedelivered
  split
  next => exact ⟨s, rfl, rfl, rfl⟩
  next map hmap =>
    rw [removeNotRedelivered_of_replayed s.connectionAudit (h.replayed map hmap)]
    exact ⟨_, rfl, rfl, rfl⟩

/-- The calls of the audit leave none of the messages marked. -/
theorem filed_rollbackDuplicates (haudit : audit.Sound) {ds : List MessageDispatch}
    (hfile : ∀ d ∈ ds, MessageAudit.Fileable d.messageId) :
    ∃ audit', rollbackDuplicates audit ds = (audit', .ok ()) ∧ audit'.Sound ∧
      audit'.checkForDuplicates = audit.checkForDuplicates ∧
      (audit.checkForDuplicates = true →
        ∀ d ∈ ds, audit'.filed () d.destination d.messageId = false) ∧
      ∀ d id, audit'.filed () d id = true → audit.filed () d id = true := by
  induction ds generalizing audit with
  | nil => exact ⟨audit, rfl, haudit, rfl, nofun, fun _ _ h => h⟩
  | cons d ds ih =>
    obtain ⟨audit₁, hcall, haudit₁, hcheck₁, hself, hmarks₁⟩ :=
      ConnectionAudit.filed_rollbackDuplicate haudit () d.destination (hfile d mem_cons_self)
    obtain ⟨audit', hcalls, haudit', hcheck', hrest, hmarks'⟩ :=
      ih haudit₁ fun d' hd' => hfile d' (mem_cons_of_mem d hd')
    refine ⟨audit', ?_, haudit', hcheck'.trans hcheck₁, fun hcheck d' hd' => ?_,
      fun d' id h => hmarks₁ d' id (hmarks' d' id h)⟩
    · rw [rollbackDuplicates, rollbackDuplicate, hcall]
      exact hcalls
    · rcases mem_cons.mp hd' with rfl | hd'
      -- a later call does not mark it again
      · refine Bool.eq_false_iff.mpr fun hfiled => ?_
        exact Bool.eq_false_iff.mp (hself hcheck) (hmarks' _ _ hfiled)
      · exact hrest (hcheck₁.trans hcheck) d' hd'

/-- The delivered messages are put back in front of those kept, and that is all. -/
structure PutBack (s s' : ConsumerKernel) : Prop where
  deliveredMessages : s'.deliveredMessages = []
  messages : s'.unconsumedMessages.messages =
    s.deliveredMessages.reverse ++ s.unconsumedMessages.messages
  messageQueue : s'.messageQueue = s.messageQueue
  listener : s'.listener = s.listener
  redeliveryTasks : s'.redeliveryTasks = s.redeliveryTasks
  journal : s'.journal = s.journal
  connectionAudit : s'.connectionAudit = s.connectionAudit

variable (hblocking : cfg.nonBlockingRedelivery = false)
include hblocking

theorem putBack_redeliver (o : Outcome) (hfifo : s.unconsumedMessages.IsFifo) :
    PutBack s.toConsumerKernel (s.redeliver o).toConsumerKernel := by
  have hstop : s.unconsumedMessages.stop.IsFifo := hfifo
  obtain ⟨-, hmessages⟩ := hstop.foldl_enqueueFirst s.deliveredMessages
  unfold redeliver
  split
  · rw [if_neg (by rw [hblocking]; exact Bool.false_ne_true)]
    exact ⟨rfl, hmessages, rfl, rfl, rfl, rfl, rfl⟩
  · rw [ConsumerKernel.redeliver, if_neg (by rw [hblocking]; exact Bool.false_ne_true)]
    split <;> exact ⟨rfl, hmessages, rfl, rfl, rfl, rfl, rfl⟩

theorem putBack_applyPolicy (o : Outcome) (hfifo : s.unconsumedMessages.IsFifo)
    (hlimit : ¬ exceedsLimit cfg s.deliveredMessages) :
    PutBack s.toConsumerKernel (s.applyPolicy o count).toConsumerKernel := by
  have hkernel := kernel_redeliveredAck count s
  have hput := putBack_redeliver hblocking o (by rw [hkernel]; exact hfifo)
  rw [hkernel] at hput
  rw [applyPolicy, if_neg hlimit]
  exact hput

/-- The kernel when its delivered messages are rolled back, before they are put back. -/
def raised (s : ConsumerKernel) : ConsumerKernel :=
  { s with
    connectionAudit := (rollbackDuplicates s.connectionAudit s.deliveredMessages).1
    deliveredMessages := s.deliveredMessages.map ConsumerKernel.redelivered
    journal := { s.journal with
      rolledBack := s.deliveredMessages.map (·.messageId) ++ s.journal.rolledBack } }

theorem rollbackDelivered_putBack (o : Outcome) (hfifo : s.unconsumedMessages.IsFifo)
    (hlimit : ¬ exceedsLimit cfg (s.deliveredMessages.map redelivered))
    (haccepted : (rollbackDuplicates s.connectionAudit s.deliveredMessages).2 = .ok ())
    (hne : s.deliveredMessages ≠ []) :
    ∃ s' : Consumer cfg, s.rollbackDelivered o = (s'.toListener, .ok ()) ∧
      PutBack (raised s.toConsumerKernel) s'.toConsumerKernel := by
  cases hdelivered : s.deliveredMessages with
  | nil => exact absurd hdelivered hne
  | cons lastMsg rest =>
    have hput := putBack_applyPolicy lastMsg.messageRedeliveryCounter hblocking o
      (s := s.rolledBack (rollbackDuplicates s.connectionAudit s.deliveredMessages).1
        (s.deliveredMessages.map redelivered)) hfifo hlimit
    exact ⟨_, rollbackDelivered_of_cons haccepted o hdelivered, hput⟩

omit hblocking

/-- With a listener, what is kept goes to the front of the executor's queue. -/
theorem messages_toListener (hqueue : s.messageQueue.IsFifo) :
    (s.listener = false → s.toListener = s) ∧
      (s.listener = true →
        s.toListener.messageQueue.messages =
            s.unconsumedMessages.messages ++ s.messageQueue.messages ∧
          s.toListener.unconsumedMessages.messages = []) := by
  refine ⟨fun hl => ?_, fun hl => ?_⟩
  · rw [toListener, if_neg (by rw [hl]; exact Bool.false_ne_true)]
  · rw [toListener, if_pos hl]
    exact ⟨(hqueue.foldr_enqueueFirst _).2, DispatchChannel.messages_clear _⟩

/-- What `redispatch` does not touch. -/
theorem frame_toListener (s : Consumer cfg) :
    s.toListener.deliveredMessages = s.deliveredMessages ∧
      s.toListener.redeliveryTasks = s.redeliveryTasks ∧ s.toListener.journal = s.journal ∧
      s.toListener.connectionAudit = s.connectionAudit := by
  unfold toListener
  split <;> exact ⟨rfl, rfl, rfl, rfl⟩

/-- The messages that come back, in their order, ahead of those that were kept. -/
def restored (s : Consumer cfg) : List MessageDispatch :=
  s.deliveredMessages.reverse.map ConsumerKernel.redelivered ++ s.unconsumedMessages.messages

/-- `rollback` returns and restores the delivered messages, each raised by one, ahead of all
that was queued: in the channel of the consumer, or with a listener in the queue of the
session's executor. The delivered list is empty, no message is given up, scheduled or copied,
and the next dispatch of one of them is not suppressed as a duplicate. -/
structure Restores (o : Outcome) (s : Consumer cfg) : Prop where
  returns : (s.rollback o).2 = .ok ()
  delivered : (s.rollback o).1.deliveredMessages = []
  kept : s.listener = false →
    (s.rollback o).1.unconsumedMessages.messages = s.restored ∧
      (s.rollback o).1.messageQueue.messages = s.messageQueue.messages
  handedOn : s.listener = true → s.deliveredMessages ≠ [] →
    (s.rollback o).1.messageQueue.messages = s.restored ++ s.messageQueue.messages ∧
      (s.rollback o).1.unconsumedMessages.messages = []
  others : (s.rollback o).1.redeliveryTasks = s.redeliveryTasks ∧
    (s.rollback o).1.journal.poisoned = s.journal.poisoned
  audited : ∀ d ∈ s.deliveredMessages,
    (ConsumerKernel.isDuplicate cfg.toConsumerSettings d (s.rollback o).1.toConsumerKernel).2 =
      .ok false

/-- No delivered message has reached the policy's limit. -/
def BelowLimit (s : Consumer cfg) : Prop :=
  cfg.maximumRedeliveries ≠ ConsumerSettings.noMaximumRedeliveries →
    ∀ d ∈ s.deliveredMessages, d.messageRedeliveryCounter < cfg.maximumRedeliveries

theorem BelowLimit.not_exceedsLimit (h : s.BelowLimit) :
    ¬ exceedsLimit cfg (s.deliveredMessages.map redelivered) := by
  rintro ⟨hmax, last, hlast, hexceeds⟩
  obtain ⟨d, hd, rfl⟩ := mem_map.mp (mem_of_mem_head? hlast)
  have hbelow := h hmax d hd
  dsimp only [redelivered] at hexceeds
  omega

/-- The audit of the connection, after the delivered messages were rolled back. -/
theorem isDuplicate_rolledBack (haudit : audit.Sound) {d : MessageDispatch}
    (hfile : MessageAudit.Fileable d.messageId)
    (hfiled : audit.checkForDuplicates = true → audit.filed () d.destination d.messageId = false)
    {s : ConsumerKernel} (hs : s.connectionAudit = audit) :
    (isDuplicate cfg.toConsumerSettings d s).2 = .ok false := by
  unfold isDuplicate
  split
  · rw [hs]
    exact ConnectionAudit.isDuplicate_of_not_filed haudit hfile hfiled
  · rfl

/-- **Rolling back.** For every consumer whose delivered messages are below the limit, with
blocking redelivery, without optimized acknowledgement and with FIFO channels: unless a
failover takes them back, and if the audit can file their ids, `rollback` restores them. -/
theorem rollback_restores (hopt : cfg.optimizeAcknowledge = false)
    (hblocking : cfg.nonBlockingRedelivery = false) (o : Outcome) (s : Consumer cfg)
    (hfifo : s.unconsumedMessages.IsFifo) (hqueue : s.messageQueue.IsFifo)
    (hrecovered : s.Recovered) (hlimit : s.BelowLimit) (hsound : s.connectionAudit.Sound)
    (hfile : ∀ d ∈ s.deliveredMessages, MessageAudit.Fileable d.messageId) : Restores o s := by
  obtain ⟨s', hprepare, hkernel, -⟩ := prepareRollback_of_recovered hopt hrecovered
  obtain ⟨audit, hcalls, haudit, hcheck, hself, -⟩ := filed_rollbackDuplicates hsound hfile
  have hfiled : ∀ d ∈ s.deliveredMessages, audit.checkForDuplicates = true →
      audit.filed () d.destination d.messageId = false :=
    fun d hd hon => hself (hcheck.symm.trans hon) d hd
  have hrollback : s.rollback o = s'.rollbackDelivered o := by rw [rollback, hprepare]
  have haccepted : (rollbackDuplicates s'.connectionAudit s'.deliveredMessages).2 = .ok () := by
    rw [hkernel, hcalls]
  by_cases hne : s.deliveredMessages = []
  · have hnothing : s.rollback o = (s', .ok ()) := by
      rw [hrollback, rollbackDelivered_of_accepted haccepted o, hkernel, hne]
    refine ⟨?_, ?_, fun _ => ⟨?_, ?_⟩, fun _ h => absurd hne h, ⟨?_, ?_⟩, ?_⟩
    all_goals rw [hnothing]
    · rw [hkernel, hne]
    · rw [restored, hkernel, hne]
      rfl
    · rw [hkernel]
    · rw [hkernel]
    · rw [hkernel]
    · rw [hne]
      nofun
  · obtain ⟨t, ht, hput⟩ := rollbackDelivered_putBack hblocking o
      (by rw [hkernel]; exact hfifo) (by rw [hkernel]; exact hlimit.not_exceedsLimit) haccepted
      (by rw [hkernel]; exact hne)
    rw [hkernel] at hput
    have hmessages : t.unconsumedMessages.messages = s.restored := by
      rw [hput.messages, restored, map_reverse]
      rfl
    have htqueue : t.messageQueue = s.messageQueue := hput.messageQueue
    have htlistener : t.listener = s.listener := hput.listener
    have htaudit : t.connectionAudit = audit := hput.connectionAudit.trans (by rw [raised, hcalls])
    obtain ⟨hstays, hmoves⟩ := messages_toListener (by rw [htqueue]; exact hqueue)
    obtain ⟨hframe, htasks, hjournal, haudit'⟩ := frame_toListener t
    refine ⟨?_, ?_, fun hl => ?_, fun hl _ => ?_, ⟨?_, ?_⟩, fun d hd => ?_⟩
    all_goals rw [hrollback, ht]
    · exact hframe.trans hput.deliveredMessages
    · rw [hstays (htlistener.trans hl), hmessages, htqueue]
      exact ⟨rfl, rfl⟩
    · rw [(hmoves (htlistener.trans hl)).1, (hmoves (htlistener.trans hl)).2, hmessages, htqueue]
      exact ⟨rfl, rfl⟩
    · exact htasks.trans hput.redeliveryTasks
    · rw [hjournal, hput.journal]
      rfl
    · exact isDuplicate_rolledBack haudit (hfile d hd) (hfiled d hd) (haudit'.trans htaudit)

/-- Two messages are delivered in a transaction, and a third is kept. -/
def inTransaction (listener : Bool) : Consumer (defaults .transacted true 100) :=
  let s := (Consumer.new _ 2048 64).consume (message 1) |>.consume (message 2)
  { s with
    unconsumedMessages := s.unconsumedMessages.enqueue (message 3)
    listener := listener }

theorem recovered_inTransaction (listener : Bool) : (inTransaction listener).Recovered :=
  ⟨rfl, nofun⟩

theorem belowLimit_inTransaction (listener : Bool) : (inTransaction listener).BelowLimit := by
  intro _ d hd
  rcases mem_cons.mp hd with rfl | hd
  · decide
  · rw [mem_singleton.mp hd]
    decide

theorem rollback_restores_two : Restores promptly (inTransaction false) := by
  refine rollback_restores rfl rfl promptly (inTransaction false) (by decide) (by decide)
    (recovered_inTransaction false) (belowLimit_inTransaction false)
    (ConnectionAudit.sound_new (by decide) 64) ?_
  intro d hd
  rcases mem_cons.mp hd with rfl | hd
  · exact fun _ _ => by decide
  · rw [mem_singleton.mp hd]
    exact fun _ _ => by decide

/-- With a listener the messages are in the executor's queue, not in the channel. -/
theorem rollback_empties_channel :
    (inTransaction true).unconsumedMessages.IsFifo ∧ (inTransaction true).Recovered ∧
      (inTransaction true).BelowLimit ∧
      ((inTransaction true).rollback promptly).1.unconsumedMessages.messages = [] ∧
      ((inTransaction true).rollback promptly).1.messageQueue.messages =
        [redelivered (message 1), redelivered (message 2),
          message 3] :=
  ⟨by decide, recovered_inTransaction true, belowLimit_inTransaction true, by decide,
    by decide⟩

end Rollback

end Consumer

end ActivemqCpp.Core
