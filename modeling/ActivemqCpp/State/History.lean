import ActivemqCpp.State.Restore

/-!
# Histories of a tracked client

The calls on the tracker, run next to the broker that receives the tracked commands. In
a history that announces and removes objects as a client may (`Admitted`), the state that
the tracker has reached can always be restored, and the replay rebuilds what the broker
held (`restore_rebuilds`).

Two things have to be excluded. Removing a temporary destination is tracked like
announcing it, since both are a `DestinationInfo`; and connection ids that
`ConnectionId::compareTo` does not tell apart share an entry. A producer that is removed
while a transaction with a message of its own is open comes back by design: it is
announced for the replay of the transaction and removed behind it.
-/

namespace ActivemqCpp.State

open Base Decaf Commands Tracker

/-- A call on the tracker. -/
inductive Event where
  | track (command : Command)
  | trackBack (command : Command)
  /-- The response to a completed transaction arrives. -/
  | responded (info : TransactionInfo)
  | transportInterrupted
  | interruptProcessingComplete (id : ConnectionId)
  | restore (version : Int)
deriving DecidableEq, Repr

/-- The connection under which a command is filed. -/
def filedUnder : Command → Option ConnectionId
  | .connectionInfo info => some info.connectionId
  | .sessionInfo info => some info.sessionId.parentId
  | .producerInfo info => some info.producerId.parentId.parentId
  | .consumerInfo info => some info.consumerId.parentId.parentId
  | .destinationInfo info => some info.connectionId
  | .removeInfo info =>
    match info.objectId with
    | .connection id => some id
    | .session id => some id.parentId
    | .consumer id => some id.parentId.parentId
    | .producer id => some id.parentId.parentId
    | .other => none
  | .message m => some m.producerId.parentId.parentId
  | .transactionInfo info => some info.connectionId
  | _ => none

/-- The connection that a call looks up. -/
def Event.connectionId : Event → Option ConnectionId
  | .track command => filedUnder command
  | .responded info => some info.connectionId
  | .interruptProcessingComplete id => some id
  | _ => none

/-- The tracker next to the broker: the live objects, and all ids ever used. -/
structure Followed where
  tracker : Tracker
  live : Finset Entity
  used : Finset Entity

namespace Followed

def new : Followed := ⟨.new, ∅, ∅⟩

/-- The ids that a command uses up. -/
def uses (command : Command) : Finset Entity := (announces command).elim ∅ creates

def step (opts : Options) (s : Followed) : Event → Followed
  | .track command =>
    { tracker := (s.tracker.track opts command).1
      live := takes s.live command
      used := s.used ∪ uses command }
  | .trackBack command => { s with tracker := s.tracker.trackBack opts command }
  | .responded info => { s with tracker := (s.tracker.removeTransaction info).1 }
  | .transportInterrupted => { s with tracker := s.tracker.transportInterrupted }
  | .interruptProcessingComplete id =>
    { s with tracker := (s.tracker.connectionInterruptProcessingComplete id).1 }
  | .restore version =>
    match s.tracker.restore opts version with
    | .error _ => s
    | .ok (tracker, _) => { s with tracker }

def machine (opts : Options) : Machine Followed Event Unit := ⟨fun s a => (s.step opts a, ())⟩

/-- An object is announced under fresh ids below a live parent, and removed while it is
live; the default session is not removed by itself. -/
def Admits (s : Followed) (command : Command) : Prop :=
  match announces command with
  | some e => (∀ x ∈ creates e, x ∉ s.used) ∧ ∀ p ∈ e.parent, p ∈ s.live
  | none =>
    match withdraws command with
    | some e => e ∈ s.live ∧ ¬ e.IsDefaultSession
    | none => True

instance (s : Followed) (command : Command) : Decidable (s.Admits command) := by
  unfold Admits
  split
  · infer_instance
  · split <;> infer_instance

/-- A call in a well-formed history. -/
def Admitted (s : Followed) : Event → Prop
  | .track command => s.Admits command
  | _ => True

instance (s : Followed) (a : Event) : Decidable (s.Admitted a) := by
  cases a <;> unfold Admitted <;> infer_instance

end Followed

/-- The call removes a temporary destination. -/
def Event.DeletesTempDestination : Event → Prop
  | .track (.destinationInfo info) =>
    info.destination.isTemporary = true ∧ info.operationType = .remove
  | _ => False

instance (a : Event) : Decidable a.DeletesTempDestination := by
  unfold Event.DeletesTempDestination
  split <;> infer_instance

/-- A call that the tracker files where it should: its connection id is in `K`, and it
does not remove a temporary destination. -/
structure Event.Filed (K : ConnectionId → Prop) (a : Event) : Prop where
  connectionId : ∀ id ∈ a.connectionId, K id
  keeps : ¬ a.DeletesTempDestination

instance (K : ConnectionId → Prop) [DecidablePred K] (a : Event) : Decidable (a.Filed K) :=
  decidable_of_iff ((∀ id ∈ a.connectionId, K id) ∧ ¬ a.DeletesTempDestination)
    ⟨fun h => ⟨h.1, h.2⟩, fun h => ⟨h.1, h.2⟩⟩

namespace Followed

/-- The tracked state lists the live objects; transactions hold removed producers. -/
structure Follows (K : ConnectionId → Prop) (s : Followed) : Prop where
  wf : s.tracker.Wf K
  live : ∀ x, x ∈ s.live ↔ x ∈ s.tracker.entities
  used : s.live ⊆ s.used
  held : ∀ x ∈ s.tracker.held, x ∈ s.used ∧ x ∉ s.live

variable {K : ConnectionId → Prop} {s : Followed}

theorem follows_new : new.Follows K :=
  ⟨Tracker.wf_new, by simp [new, Tracker.new, Tracker.entities, StlMap.allItems],
    Finset.Subset.refl _, by simp [new, Tracker.new, Tracker.held]⟩

variable {tracker : Tracker} (h : s.Follows K)
include h

theorem Follows.of_stays (hstays : Stays K s.tracker tracker) : Follows K { s with tracker } := by
  refine ⟨hstays.wf, ?_, h.used, ?_⟩
  · intro x
    rw [hstays.mem_iff]
    exact h.live x
  · intro x hx
    rcases hstays.held x hx with hx | hx
    · exact h.held x hx
    · exact absurd hx not_false

variable {command : Command}

/-- A command that announces an object under fresh ids. -/
theorem Follows.of_brings {e : Entity} (hann : announces command = some e)
    (hfresh : ∀ x ∈ creates e, x ∉ s.used) (hbrings : Brings K e s.tracker tracker) :
    Follows K ⟨tracker, takes s.live command, s.used ∪ uses command⟩ := by
  have huses : uses command = creates e := by rw [uses, hann]; rfl
  refine ⟨hbrings.wf, ?_, ?_, ?_⟩
  · intro x
    rw [mem_takes_of_announces hann, h.live x]
    have hx := hbrings.alters x
    simp only [and_true] at hx
    rw [hx, or_comm]
  · intro x hx
    rw [huses, Finset.mem_union]
    exact ((mem_takes_of_announces hann).mp hx).imp_left fun hx => h.used hx
  · intro x hx
    obtain ⟨hused, hnot⟩ := h.held x ((hbrings.held x hx).resolve_right not_false)
    refine ⟨Finset.mem_union_left _ hused, ?_⟩
    rw [mem_takes_of_announces hann]
    rintro (hx | hx)
    · exact hnot hx
    · exact hfresh x hx hused

/-- A command that removes a live object. -/
theorem Follows.of_takes {e : Entity} (hnone : announces command = none)
    (hwith : withdraws command = some e) (hlive : e ∈ s.live)
    (htakes : Takes K e s.tracker tracker) :
    Follows K ⟨tracker, takes s.live command, s.used ∪ uses command⟩ := by
  refine ⟨htakes.wf, ?_, ?_, ?_⟩
  · intro x
    rw [mem_takes_of_withdraws hnone hwith, h.live x]
    have hx := htakes.alters x
    simp only [false_or] at hx
    exact hx.symm
  · intro x hx
    exact Finset.mem_union_left _ (h.used ((mem_takes_of_withdraws hnone hwith).mp hx).1)
  · intro x hx
    rw [mem_takes_of_withdraws hnone hwith]
    rcases htakes.held x hx with hx | rfl
    · obtain ⟨hused, hnot⟩ := h.held x hx
      exact ⟨Finset.mem_union_left _ hused, fun hin => hnot hin.1⟩
    · exact ⟨Finset.mem_union_left _ (h.used hlive), fun hin => hin.2 (.inl rfl)⟩

/-- A command that is neither. -/
theorem Follows.of_neither (hnone : announces command = none)
    (hwith : withdraws command = none) (hstays : Stays K s.tracker tracker) :
    Follows K ⟨tracker, takes s.live command, s.used ∪ uses command⟩ := by
  have huses : uses command = ∅ := by rw [uses, hnone]; rfl
  rw [takes_of_none hnone hwith, huses, Finset.union_empty]
  exact h.of_stays hstays

variable (hK : StlMap.OrderedOn ConnectionId.less K)
include hK

/-- Tracking a command, one kind of command after the other. -/
theorem Follows.track (opts : Options) (hadmits : s.Admits command)
    (hid : ∀ id, filedUnder command = some id → K id)
    (hkeeps : ¬ (Event.track command).DeletesTempDestination) :
    (s.step opts (.track command)).Follows K := by
  -- what an announcement and a removal are promised
  have hfresh : ∀ e, announces command = some e →
      (∀ x ∈ creates e, x ∉ s.used) ∧ ∀ p, e.parent = some p → p ∈ s.tracker.entities := by
    intro e he
    rw [Admits, he] at hadmits
    exact ⟨hadmits.1, fun p hp => (h.live p).mp (hadmits.2 p hp)⟩
  have hnew : ∀ {e : Entity}, e ∈ creates e → announces command = some e →
      e ∉ s.tracker.entities := by
    intro e hself he hin
    exact (hfresh e he).1 e hself (h.used ((h.live e).mpr hin))
  have hgone : ∀ e, announces command = none → withdraws command = some e →
      e ∈ s.live ∧ ¬ e.IsDefaultSession := by
    intro e hnone he
    rw [Admits, hnone] at hadmits
    simpa only [he] using hadmits
  show Follows K ⟨(s.tracker.visit opts command).1, _, _⟩
  cases command with
  | connectionInfo info =>
    exact h.of_brings rfl (hfresh _ rfl).1
      (h.wf.brings_connection hK (hid _ rfl) (hnew (by simp [creates]) rfl))
  | sessionInfo info =>
    obtain ⟨hused, hparent⟩ := hfresh _ rfl
    exact h.of_brings rfl hused
      (h.wf.brings_session hK (hparent _ rfl) (hnew (by simp [creates]) rfl))
  | producerInfo info =>
    obtain ⟨hused, hparent⟩ := hfresh _ rfl
    exact h.of_brings rfl hused
      (h.wf.brings_producer hK (hparent _ rfl) (hnew (by simp [creates]) rfl))
  | consumerInfo info =>
    obtain ⟨hused, hparent⟩ := hfresh _ rfl
    exact h.of_brings rfl hused
      (h.wf.brings_consumer hK (hparent _ rfl) (hnew (by simp [creates]) rfl))
  | destinationInfo info =>
    by_cases htemp : info.destination.isTemporary = true
    · have hadd : info.operationType = .add := by
        cases hop : info.operationType with
        | add => rfl
        | remove => exact absurd ⟨htemp, hop⟩ hkeeps
      have hann : announces (.destinationInfo info) =
          some (.tempDestination info.connectionId info.destination) := by
        simp [announces, htemp, hadd]
      obtain ⟨hused, hparent⟩ := hfresh _ hann
      exact h.of_brings hann hused
        (h.wf.brings_tempDestination hK htemp hadd (hparent _ rfl)
          (hnew (by simp [creates]) hann))
    · refine h.of_neither (by simp [announces, htemp]) (by simp [withdraws, htemp]) ?_
      refine h.wf.stays_withConnection hK (hid _ rfl) fun cs hwf hserves => ?_
      rw [if_neg htemp]
      exact ConnectionState.Stays.refl hwf hserves
  | removeInfo info =>
    obtain ⟨commandId, objectId, responseRequired⟩ := info
    cases objectId with
    | connection id =>
      exact h.of_takes rfl rfl (hgone _ rfl rfl).1 (h.wf.takes_connection hK (hid _ rfl))
    | session id =>
      obtain ⟨hlive, hdefault⟩ := hgone _ rfl rfl
      exact h.of_takes rfl rfl hlive (h.wf.takes_session hK ((h.live _).mp hlive) hdefault)
    | consumer id =>
      obtain ⟨hlive, -⟩ := hgone _ rfl rfl
      exact h.of_takes rfl rfl hlive (h.wf.takes_consumer hK ((h.live _).mp hlive))
    | producer id =>
      obtain ⟨hlive, -⟩ := hgone _ rfl rfl
      exact h.of_takes rfl rfl hlive (h.wf.takes_producer hK ((h.live _).mp hlive))
    | other => exact h.of_neither rfl rfl (Stays.refl h.wf)
  | message m => exact h.of_neither rfl rfl (h.wf.stays_message hK opts m (hid _ rfl))
  | transactionInfo info =>
    exact h.of_neither rfl rfl (h.wf.stays_transactionInfo hK info (hid _ rfl) opts)
  | messagePull pull =>
    refine h.of_neither rfl rfl (h.wf.of_connectionStates ?_)
    show (s.tracker.processMessagePull opts pull).1.connectionStates = _
    unfold processMessagePull
    split <;> rfl
  | consumerControl | other => exact h.of_neither rfl rfl (Stays.refl h.wf)

theorem Follows.step {opts : Options} (hopts : RestoresAll opts)
    {a : Event} (hadmitted : s.Admitted a) (hfiled : a.Filed K) : (s.step opts a).Follows K := by
  cases a with
  | track command =>
    exact h.track hK opts hadmitted hfiled.connectionId hfiled.keeps
  | trackBack command =>
    refine h.of_stays (h.wf.of_connectionStates ?_)
    unfold trackBack
    split
    · split <;> rfl
    · rfl
  | responded info =>
    exact h.of_stays (h.wf.stays_removeTransaction hK info (hfiled.connectionId _ rfl))
  | transportInterrupted =>
    refine h.of_stays (h.wf.stays_map
      (g := fun cs => { cs with connectionInterruptProcessingComplete := false })
      fun id cs hwf hserves => ?_)
    exact ConnectionState.stays_of_eq hwf hserves hwf.info rfl rfl rfl rfl
  | interruptProcessingComplete id =>
    refine h.of_stays (h.wf.stays_withConnection hK (hfiled.connectionId _ rfl)
      fun cs hwf hserves => ?_)
    exact ConnectionState.stays_of_eq hwf hserves hwf.info rfl rfl rfl rfl
  | restore version =>
    obtain ⟨t, blocks, quiet, hrestore, hstays, -, -⟩ := h.wf.restore_ok hK hopts version
    rw [Followed.step, hrestore]
    exact h.of_stays hstays

/-- A state that the tracker reaches can be restored, and the replay rebuilds what the
broker held. -/
theorem Follows.restore {opts : Options} (hopts : RestoresAll opts) (version : Int) :
    ∃ tracker sent, s.tracker.restore opts version = .ok (tracker, sent) ∧
      Rebuilds s.live sent := by
  obtain ⟨t, blocks, quiet, hrestore, -, hquiet, hblocks⟩ := h.wf.restore_ok hK hopts version
  exact ⟨t, _, hrestore,
    rebuilds_of_written h.wf h.live (fun x hx => (h.held x hx).2) hK hquiet hblocks⟩

end Followed

/-! ## Every history -/

/-- The settings that a failover transport chooses; the others are as constructed. -/
def Options.tracking (transactions messages producers : Bool) (cacheSize pullCacheSize : Int) :
    Options :=
  { Options.new with
    trackTransactions := transactions
    trackMessages := messages
    trackTransactionProducers := producers
    maxMessageCacheSize := cacheSize
    maxMessagePullCacheSize := pullCacheSize }

theorem restoresAll_tracking (transactions messages producers : Bool)
    (cacheSize pullCacheSize : Int) :
    RestoresAll
      (Options.tracking transactions messages producers cacheSize pullCacheSize) :=
  ⟨rfl, rfl, rfl, rfl⟩

/-- After every well-formed history whose calls are filed where they should be, `restore`
writes a replay that rebuilds the live objects on an empty broker. -/
theorem restore_rebuilds {K : ConnectionId → Prop}
    (hK : StlMap.OrderedOn ConnectionId.less K)
    (transactions messages producers : Bool) (cacheSize pullCacheSize : Int)
    {history : List Event}
    (hadmitted : (Followed.machine
      (.tracking transactions messages producers cacheSize pullCacheSize)).Meets
        Followed.Admitted .new history)
    (hfiled : ∀ a ∈ history, a.Filed K) (version : Int) :
    let opts := Options.tracking transactions messages producers cacheSize pullCacheSize
    let reached := (Followed.machine opts).run .new history
    ∃ tracker sent, reached.tracker.restore opts version = .ok (tracker, sent) ∧
      Rebuilds reached.live sent := by
  intro opts reached
  have hopts := restoresAll_tracking transactions messages producers cacheSize pullCacheSize
  have hstep : ∀ s a, s.Follows K → s.Admitted a ∧ a.Filed K →
      ((Followed.machine opts).step s a).1.Follows K :=
    fun s a hs ha => hs.step hK hopts ha.1 ha.2
  have halways := Machine.invariant_of_meets hstep Followed.follows_new
    (hadmitted.and (Machine.meets_of_forall hfiled _))
  exact halways.last.restore hK hopts version

/-! ## Histories that show the limits -/

namespace Sample

def connection : ConnectionId := ⟨[65]⟩

def session : SessionId := ⟨[65], 1⟩

def producer : ProducerId := ⟨[65], 1, 1⟩

def transaction : TransactionId := .local ⟨1, connection⟩

def tempQueue : Destination := ⟨.temporaryQueue, [84]⟩

/-- A producer is removed while a transaction with its message is open. -/
def removedInTransaction : List Event :=
  [.track (.connectionInfo ⟨1, connection, false⟩),
    .track (.sessionInfo ⟨2, session⟩),
    .track (.producerInfo ⟨3, producer, false⟩),
    .track (.transactionInfo ⟨1, connection, transaction, .begin⟩),
    .track (.message ⟨4, 0, producer, some transaction, 1024⟩),
    .track (.removeInfo ⟨5, .producer producer, false⟩)]

/-- A temporary queue is created and deleted. -/
def deletedTempQueue : List Event :=
  [.track (.connectionInfo ⟨1, connection, false⟩),
    .track (.destinationInfo ⟨2, connection, tempQueue, .add⟩),
    .track (.destinationInfo ⟨3, connection, tempQueue, .remove⟩)]

/-- Two connections whose ids differ in case. -/
def differInCase : List Event :=
  [.track (.connectionInfo ⟨1, connection, false⟩),
    .track (.connectionInfo ⟨2, ⟨[97]⟩, false⟩)]

def opts : Options := .tracking true true true 131072 10

def reached (history : List Event) : Followed := (Followed.machine opts).run .new history

end Sample

/-- The theorem at a history with a removed producer, two failovers and a consumer that
is announced in between. -/
theorem restore_rebuilds_sample :
    let history := Sample.removedInTransaction ++
      [.transportInterrupted, .restore 11,
        .track (.consumerInfo ⟨6, ⟨[65], 1, 1⟩, Sample.tempQueue, 100⟩), .transportInterrupted]
    ∃ tracker sent, (Sample.reached history).tracker.restore Sample.opts 11 =
      .ok (tracker, sent) ∧ Rebuilds (Sample.reached history).live sent := by
  intro history
  exact restore_rebuilds (ConnectionId.orderedOn_singleton Sample.connection) true true true
    131072 10 (by decide) (by decide +kernel) 11

/-- The replay rebuilds the live objects and announces no other. -/
def Followed.RestoresExactly (opts : Options) (version : Int) (s : Followed) : Prop :=
  ∃ tracker sent, s.tracker.restore opts version = .ok (tracker, sent) ∧
    Rebuilds s.live sent ∧ ∀ e ∈ sent.filterMap Sent.announced, e ∈ s.live

/-- What a replay of the state announces. -/
def Followed.announced (opts : Options) (version : Int) (s : Followed) : List Entity :=
  match s.tracker.restore opts version with
  | .error _ => []
  | .ok (_, sent) => sent.filterMap Sent.announced

theorem Followed.RestoresExactly.mem_iff {opts : Options} {version : Int} {s : Followed}
    (h : s.RestoresExactly opts version) (e : Entity) :
    e ∈ s.announced opts version ↔ e ∈ s.live := by
  obtain ⟨tracker, sent, hrestore, hrebuilds, hlive⟩ := h
  rw [Followed.announced, hrestore]
  refine ⟨hlive e, fun he => ?_⟩
  show e ∈ sent.filterMap Sent.announced
  rw [← List.count_pos_iff, hrebuilds.once e he]
  exact Nat.one_pos

/-- Well-formed histories after which the replay is not exact: it announces a producer
that has been removed in an open transaction, a temporary queue that has been deleted,
and only one of two connections whose ids differ in case. -/
theorem restore_not_exact :
    (∀ history ∈ [Sample.removedInTransaction, Sample.deletedTempQueue, Sample.differInCase],
      (Followed.machine Sample.opts).Meets Followed.Admitted .new history) ∧
    ¬ (Sample.reached Sample.removedInTransaction).RestoresExactly Sample.opts 11 ∧
    ¬ (Sample.reached Sample.deletedTempQueue).RestoresExactly Sample.opts 11 ∧
    ¬ (Sample.reached Sample.differInCase).RestoresExactly Sample.opts 11 := by
  refine ⟨by decide, fun h => ?_, fun h => ?_, fun h => ?_⟩
  · exact absurd (h.mem_iff (.producer Sample.producer)) (by decide)
  · exact absurd (h.mem_iff (.tempDestination Sample.connection Sample.tempQueue))
      (by decide)
  · exact absurd (h.mem_iff (.connection Sample.connection)) (by decide)

end ActivemqCpp.State
