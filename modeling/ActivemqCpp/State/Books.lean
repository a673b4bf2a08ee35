import ActivemqCpp.State.History
import ActivemqCpp.State.Ledger

/-!
# The tracker keeps the books

What each call does to the ledger, and that the tracker follows it: whatever command is
tracked, every connection keeps its books (`Booked`), provided that the producers of the
open transactions are not removed in a way that loses them. A failover changes neither
sessions nor transactions (`mirrors_restore`).
-/

namespace ActivemqCpp.State

open Ledger

open Base Decaf Commands

/-- The local transaction that an id names. -/
def localId : TransactionId → Option LocalTransactionId
  | .local id => some id
  | .xa _ => none

namespace Ledger

def track (l : Ledger) : Command → Ledger
  | .message m =>
    match m.transactionId with
    | some (.local id) => l.sends id m
    | _ => l
  | .transactionInfo info =>
    match info.transactionId, info.type with
    | .xa _, _ | .local _, .recover | .local _, .forget => l
    | .local id, .begin => l.opens id info
    | .local id, _ => l.adds id (.info info)
  | .removeInfo info =>
    match info.objectId with
    | .connection id => l.closesConnection id
    | _ => l
  | _ => l

def step (l : Ledger) : Event → Ledger
  | .track command => l.track command
  | .responded info =>
    match localId info.transactionId with
    | some id => l.closes id
    | none => l
  | _ => l

end Ledger

/-! ## The tracker keeps the books -/

namespace Tracker

/-- Every connection keeps its books. -/
def Booked (l : Ledger) (live : Finset Entity) (t : Tracker) : Prop :=
  ∀ e ∈ t.connectionStates, e.2.Books e.1 l live

variable {K : ConnectionId → Prop} {t t' : Tracker} {l l' : Ledger} {live live' : Finset Entity}

theorem Booked.of_live (h : t.Booked l live)
    (hlive : ∀ tid, ∀ p ∈ l.senders tid, .producer p ∈ live → .producer p ∈ live') :
    t.Booked l live' := fun e he => (h e he).of_live fun tid _ => hlive tid

/-- `t'` has the sessions and transactions of `t`, and its cached messages. -/
structure Mirrors (t t' : Tracker) : Prop where
  connections : ∀ e ∈ t'.connectionStates, ∃ cs, (e.1, cs) ∈ t.connectionStates ∧
    e.2.sessions = cs.sessions ∧ e.2.transactions = cs.transactions
  messageCache : t'.messageCache = t.messageCache

theorem Mirrors.refl (t : Tracker) : Mirrors t t := ⟨fun e he => ⟨e.2, he, rfl, rfl⟩, rfl⟩

theorem Mirrors.trans {t'' : Tracker} (h : Mirrors t t') (h' : Mirrors t' t'') : Mirrors t t'' := by
  refine ⟨?_, h'.messageCache.trans h.messageCache⟩
  intro e he
  obtain ⟨cs', hcs', hsessions', htx'⟩ := h'.connections e he
  obtain ⟨cs, hcs, hsessions, htx⟩ := h.connections _ hcs'
  exact ⟨cs, hcs, hsessions'.trans hsessions, htx'.trans htx⟩

theorem Booked.of_mirrors (h : t.Booked l live) (hmirrors : Mirrors t t') : t'.Booked l live := by
  intro e he
  obtain ⟨cs, hcs, hsessions, htx⟩ := hmirrors.connections e he
  apply (h _ hcs).of_sessions htx
  intro p hp
  rw [ConnectionState.HasProducer, hsessions] at hp
  exact .inl hp

variable {g : ConnectionState → ConnectionState}

/-- A change to every connection that touches neither sessions nor transactions. -/
theorem mirrors_map
    (hg : ∀ cs, (g cs).sessions = cs.sessions ∧ (g cs).transactions = cs.transactions) :
    Mirrors t { t with connectionStates := t.connectionStates.map fun e => (e.1, g e.2) } := by
  refine ⟨?_, rfl⟩
  intro e' he'
  obtain ⟨e, he, rfl⟩ := List.mem_map.mp he'
  exact ⟨e.2, he, hg e.2⟩

variable {id : ConnectionId} {α : Type}

theorem mirrors_update
    (hg : ∀ cs, (g cs).sessions = cs.sessions ∧ (g cs).transactions = cs.transactions) : Mirrors t
      { t with connectionStates := t.connectionStates.update ConnectionId.less id g } := by
  refine ⟨?_, rfl⟩
  intro e he
  rcases StlMap.mem_of_mem_update he with hold | ⟨cs, -, hcs, heq⟩
  · exact ⟨e.2, hold, rfl, rfl⟩
  · rw [heq]
    exact ⟨cs, hcs, hg cs⟩

theorem mirrors_withConnection {f : ConnectionState → ConnectionState × Except Exn α}
    (hf : ∀ cs, (f cs).1.sessions = cs.sessions ∧ (f cs).1.transactions = cs.transactions) :
    Mirrors t (t.withConnection id f).1 := by
  unfold withConnection
  split
  · exact Mirrors.refl t
  · next cs hcs =>
    refine ⟨?_, rfl⟩
    intro e he
    rcases StlMap.mem_of_mem_update he with hold | ⟨cs', hcs', hin, heq⟩
    · exact ⟨e.2, hold, rfl, rfl⟩
    · obtain rfl := Option.some.inj (hcs.symm.trans hcs')
      rw [heq]
      exact ⟨cs, hin, hf cs⟩

variable {opts : Options} {version : Int} {out : List Sent}

theorem mirrors_session {ss : SessionState}
    (h : doRestoreSession opts version t ss = .ok (t', out)) : Mirrors t t' := by
  rw [doRestoreSession] at h
  split at h
  · split at h
    · cases h
    · next t₁ sent hconsumers =>
      cases h
      rw [doRestoreConsumers] at hconsumers
      split at hconsumers
      · cases hconsumers
      · cases hconsumers
        exact mirrors_update fun _ => ⟨rfl, rfl⟩
  · cases h
    exact Mirrors.refl t

variable {cs : ConnectionState}

theorem mirrors_connection
    (h : restoreConnection opts version t cs = .ok (t', out)) : Mirrors t t' := by
  rw [restoreConnection] at h
  split at h
  · cases h
  · next t₁ sessions hsessions =>
    have ht₁ : Mirrors t t₁ := by
      split at hsessions
      · exact collect_invariant
          (fun s e s' out hs hround => hs.trans (mirrors_session hround)) (Mirrors.refl t)
          hsessions
      · cases hsessions
        exact Mirrors.refl t
    split at h
    · cases h
    · cases h
      exact ht₁

theorem mirrors_restore {sent : List Sent}
    (h : t.restore opts version = .ok (t', sent)) : Mirrors t t' := by
  rw [restore] at h
  split at h
  · cases h
  · next t₁ out hout =>
    cases h
    have ht₁ : Mirrors t t₁ := collect_invariant
      (fun s e s' out hs hround => hs.trans (mirrors_connection hround)) (Mirrors.refl t) hout
    exact ht₁.trans (mirrors_map
      (g := fun cs => { cs with info := { cs.info with failoverReconnect := true } })
      fun _ => ⟨rfl, rfl⟩)

variable (hK : StlMap.OrderedOn ConnectionId.less K) (h : t.Booked l live) (hwf : t.Wf K)
include hK h hwf

/-- A step within the state of one connection, if it is tracked. The ledger may change
with it on that connection. -/
theorem Booked.withConnection (hid : K id) {f : ConnectionState → ConnectionState × Except Exn α}
    (hf : ∀ cs, (id, cs) ∈ t.connectionStates → (f cs).1.Books id l' live')
    (hagrees : ∀ other, other ≠ id → l.AgreesOn other l')
    (hlive : ∀ tid : LocalTransactionId, tid.connectionId ≠ id → ∀ p ∈ l'.senders tid,
      .producer p ∈ live → .producer p ∈ live') : (t.withConnection id f).1.Booked l' live' := by
  have hothers : ∀ e ∈ t.connectionStates, e.1 ≠ id → e.2.Books e.1 l' live' := by
    intro e he hne
    refine ((h e he).of_agrees (hwf.connection e he) (hagrees e.1 hne)).of_live ?_
    intro tid htid
    apply hlive tid
    rwa [htid]
  cases hfind : t.connectionStates.find ConnectionId.less id with
  | none =>
    rw [Tracker.withConnection, hfind]
    intro e he
    apply hothers e he
    rintro rfl
    rw [(StlMap.find_eq_some_iff hK hwf.connections hid).mpr he] at hfind
    cases hfind
  | some cs =>
    have hcs := (StlMap.find_eq_some_iff hK hwf.connections hid).mp hfind
    rw [hwf.withConnection_eq hK hcs]
    intro e he
    rcases (StlMap.mem_update hK hwf.connections hid).mp he with ⟨_, -, rfl⟩ | ⟨hold, hne⟩
    · exact hf cs hcs
    · exact hothers e hold hne

/-- A step that the ledger does not see. -/
theorem Booked.withConnection_same (hid : K id)
    {f : ConnectionState → ConnectionState × Except Exn α}
    (hf : ∀ cs, (id, cs) ∈ t.connectionStates → (f cs).1.Books id l live) :
    (t.withConnection id f).1.Booked l live :=
  h.withConnection hK hwf hid hf (fun _ _ => ⟨fun _ _ => rfl, fun _ _ => rfl⟩)
    fun _ _ _ _ hp => hp

/-- A step that changes only sessions. -/
theorem Booked.withSessions (hid : K id) {f : ConnectionState → ConnectionState × Except Exn α}
    (hf : ∀ cs, (f cs).1.transactions = cs.transactions ∧
      ∀ p, (f cs).1.HasProducer p → cs.HasProducer p ∨ l.last p.1 = none) :
    (t.withConnection id f).1.Booked l live :=
  h.withConnection_same hK hwf hid fun cs hcs => (h _ hcs).of_sessions (hf cs).1 (hf cs).2

omit hwf hK in
theorem Booked.of_connectionStates
    (heq : t'.connectionStates = t.connectionStates) : t'.Booked l live := by
  rw [Booked, heq]
  exact h

/-! One kind of command after the other. -/

theorem Booked.connectionInfo {info : ConnectionInfo} (hid : K info.connectionId)
    (hnone : ∀ tid : LocalTransactionId, tid.connectionId = info.connectionId →
      l.transactions tid = none) : (t.processConnectionInfo info).1.Booked l live := by
  intro e he
  rcases (StlMap.mem_put hK hwf.connections hid).mp he with rfl | ⟨hold, -⟩
  · exact ConnectionState.books_new info hnone
  · exact h e hold

theorem Booked.sessionInfo {info : SessionInfo}
    (hid : K info.sessionId.parentId) : (t.processSessionInfo info).1.Booked l live := by
  refine h.withSessions hK hwf hid fun cs => ⟨rfl, ?_⟩
  rintro p ⟨s, hs, hp⟩
  rcases StlMap.mem_of_mem_put hs with hnew | hold
  · rw [hnew] at hp
    cases hp
  · exact .inl ⟨s, hold, hp⟩

omit hwf h hK in
/-- `getSessionState(id)`, with a change to sessions behind it. -/
theorem withSession_sessions {sid : SessionId} {f : SessionState → ConnectionState}
    {P : ProducerId × ProducerState → Prop} (hf : ∀ ss, (f ss).transactions = cs.transactions ∧
      ∀ p, (f ss).HasProducer p → cs.HasProducer p) :
    (withSession sid f cs).1.transactions = cs.transactions ∧
      ∀ p, (withSession sid f cs).1.HasProducer p → cs.HasProducer p ∨ P p := by
  unfold withSession
  split
  · exact ⟨rfl, fun p hp => .inl hp⟩
  · exact ⟨(hf _).1, fun p hp => .inl ((hf _).2 p hp)⟩

theorem Booked.producerInfo {info : ProducerInfo}
    (hid : K info.producerId.parentId.parentId) (hlast : l.last info.producerId = none) :
    (t.processProducerInfo info).1.Booked l live := by
  refine h.withConnection_same hK hwf hid fun cs hcs => ?_
  have hcswf := hwf.connection _ hcs
  unfold withSession
  split
  · exact h _ hcs
  · have hold := h _ hcs
    refine hold.of_sessions rfl ?_
    rintro p ⟨s, hs, hp⟩
    rcases (StlMap.mem_update (SessionId.orderedOn _) hcswf.sessions rfl).mp hs with
      ⟨ss, hss, rfl⟩ | ⟨hold, -⟩
    · rcases (StlMap.mem_put (ProducerId.orderedOn _) (hcswf.session _ hss).producers rfl).mp hp
        with rfl | ⟨hin, -⟩
      · exact .inr hlast
      · exact .inl ⟨_, hss, hin⟩
    · exact .inl ⟨s, hold, hp⟩

theorem Booked.consumerInfo {info : ConsumerInfo}
    (hid : K info.consumerId.parentId.parentId) : (t.processConsumerInfo info).1.Booked l live := by
  refine h.withSessions hK hwf hid fun cs => ?_
  refine withSession_sessions fun _ => ⟨rfl, ?_⟩
  intro p hp
  exact ConnectionState.hasProducer_of_updateSession (f := .addConsumer info) (fun _ _ hp => hp) hp

theorem Booked.destinationInfo {info : DestinationInfo}
    (hid : K info.connectionId) : (t.processDestinationInfo info).1.Booked l live := by
  refine h.withSessions hK hwf hid fun cs => ?_
  split <;> exact ⟨rfl, fun _ hp => .inl hp⟩

theorem Booked.removeConnection
    (hid : K id) : (t.processRemoveConnection id).1.Booked (l.closesConnection id) live := by
  intro e he
  obtain ⟨hold, hne⟩ := (StlMap.mem_remove hK hwf.connections hid).mp he
  refine (h e hold).of_agrees (hwf.connection e hold) ⟨?_, fun _ _ => rfl⟩
  intro tid htid
  apply closesConnection_of_ne
  rwa [htid]

theorem Booked.removeSession {sid : SessionId}
    (hid : K sid.parentId) : (t.processRemoveSession sid).1.Booked l live := by
  refine h.withSessions hK hwf hid fun cs => ⟨rfl, ?_⟩
  rintro p ⟨s, hs, hp⟩
  exact .inl ⟨s, StlMap.remove_sublist.subset hs, hp⟩

theorem Booked.removeConsumer {id : ConsumerId}
    (hid : K id.parentId.parentId) : (t.processRemoveConsumer id).1.Booked l live := by
  refine h.withSessions hK hwf hid fun cs => ?_
  refine withSession_sessions fun _ => ⟨rfl, ?_⟩
  intro p hp
  exact ConnectionState.hasProducer_of_updateSession (f := .removeConsumer id) (fun _ _ hp => hp) hp

theorem Booked.removeProducer {p : ProducerId}
    (hp : .producer p ∈ t.entities) (hlive : ∀ x ∈ live, x ≠ .producer p → x ∈ live')
    (hown : ∀ tid, ∀ q ∈ l.senders tid, q.parentId.parentId = tid.connectionId)
    (hlast : ∀ tid, p ∈ l.senders tid → l.last p = some tid) :
    (t.processRemoveProducer p).1.Booked l live' := by
  obtain ⟨cs, hcs, hx⟩ := hwf.mem_iff.mp hp
  obtain ⟨ss, hss, hx⟩ := ((hwf.connection _ hcs).mem_iff_of_sessionId rfl).mp hx
  obtain ⟨ps, hps⟩ := ((hwf.connection _ hcs).session _ hss).producer_mem_iff.mp hx
  refine h.withConnection hK hwf (hwf.connections.keys _ hcs) ?_
    (fun _ _ => ⟨fun _ _ => rfl, fun _ _ => rfl⟩) ?_
  · intro cs' hcs'
    obtain rfl := hwf.connections.value_unique hK hcs hcs'
    rw [hwf.withSession_eq hcs hss]
    refine (h _ hcs).removeProducer (hwf.connection _ hcs) hss hps hlive ?_
    rintro e he m hm rfl
    apply hlast
    rw [senders, log, (h _ hcs).commands e he]
    exact List.mem_filterMap.mpr ⟨_, hm, rfl⟩
  · intro tid hne q hq hin
    apply hlive _ hin
    intro heq
    apply hne
    rw [← hown tid q hq, Entity.producer.inj heq]
    rfl

/-! ## Commands in a transaction -/

variable {tid : LocalTransactionId}

omit hwf h hK in
/-- `getTransactionState(id)` finds nothing when the transaction is not open. -/
theorem withTransaction_of_closed (h : cs.Books id l live) (htid : tid.connectionId = id)
    (hnone : l.transactions tid = none)
    (f : LocalTransactionId → TransactionState → ConnectionState × Except Exn Tracked) :
    (withTransaction (.local tid) f cs).1 = cs := by
  have hfind : cs.transactions.find LocalTransactionId.less tid = none := by
    by_contra hsome
    obtain ⟨tx, htx⟩ := Option.ne_none_iff_exists'.mp hsome
    have hin := (StlMap.find_eq_some_iff (LocalTransactionId.orderedOn id) h.keys htid).mp htx
    rw [h.commands _ hin] at hnone
    cases hnone
  rw [withTransaction, localTransactionId]
  dsimp only
  rw [hfind]

omit hwf h hK in
/-- An open transaction is found. -/
theorem withTransaction_of_open (h : cs.Books id l live) (htid : tid.connectionId = id)
    (hopen : l.transactions tid ≠ none)
    (f : LocalTransactionId → TransactionState → ConnectionState × Except Exn Tracked) :
    ∃ tx, (tid, tx) ∈ cs.transactions ∧ withTransaction (.local tid) f cs = f tid tx := by
  obtain ⟨tx, htx⟩ := h.complete tid htid hopen
  refine ⟨tx, htx, ?_⟩
  have hfind := (StlMap.find_eq_some_iff (LocalTransactionId.orderedOn id) h.keys htid).mpr htx
  rw [withTransaction, localTransactionId]
  dsimp only
  rw [hfind]

variable {info : TransactionInfo} (htrack : opts.trackTransactions = true)
include htrack

/-- A transaction begins under a fresh id. -/
theorem Booked.begin
    (hinfo : info.transactionId = .local tid) (hplaced : info.connectionId = tid.connectionId)
    (hid : K info.connectionId) (hfresh : l.transactions tid = none)
    (hlast : ∀ p, l.last p ≠ some tid) :
    (t.processBeginTransaction opts info).1.Booked (l.opens tid info) live := by
  rw [processBeginTransaction, if_pos htrack]
  refine h.withConnection hK hwf hid ?_ ?_ fun _ _ _ _ hp => hp
  · intro cs hcs
    rw [hinfo]
    exact (h _ hcs).begin hplaced.symm info hfresh hlast
  · intro other hother
    apply agreesOn_of_transactions
    rw [← hplaced]
    exact hother.symm

variable (result : TransactionInfo → Tracked)

/-- A further command, of the kinds that `processInTransaction` tracks. -/
theorem Booked.inTransaction
    (hinfo : info.transactionId = .local tid) (hplaced : info.connectionId = tid.connectionId)
    (hid : K info.connectionId) :
    (processInTransaction result opts info t).1.Booked (l.adds tid (.info info)) live := by
  rw [processInTransaction, if_pos htrack]
  by_cases hopen : l.transactions tid = none
  · rw [adds_of_none hopen]
    refine h.withConnection_same hK hwf hid fun cs hcs => ?_
    rw [hinfo, withTransaction_of_closed (h _ hcs) hplaced.symm hopen]
    exact h _ hcs
  · refine h.withConnection hK hwf hid ?_ ?_ fun _ _ _ _ hp => hp
    · intro cs hcs
      obtain ⟨tx, htx, heq⟩ := withTransaction_of_open (h _ hcs) hplaced.symm hopen
        fun id _ => (cs.updateTransaction id (.addCommand (.info info)), .ok (result info))
      rw [hinfo, heq]
      exact (h _ hcs).addCommand hplaced.symm (.info info) (by simp)
    · intro other hother
      refine agreesOn_of_transactions ?_ _ _
      rw [← hplaced]
      exact hother.symm

omit htrack in
/-- An id of another kind is not found. -/
theorem Booked.xaTransaction (opts : Options) (hinfo : localId info.transactionId = none)
    (hid : K info.connectionId) : (processInTransaction result opts info t).1.Booked l live := by
  obtain ⟨x, hx⟩ : ∃ x, info.transactionId = .xa x := by
    cases hcase : info.transactionId with
    | «local» id => exact absurd hinfo (by simp [hcase, localId])
    | xa x => exact ⟨x, rfl⟩
  unfold processInTransaction
  split
  · refine h.withConnection_same hK hwf hid fun cs hcs => ?_
    rw [hx]
    exact h _ hcs
  · exact h

variable (hplaced : ∀ tid ∈ localId info.transactionId, info.connectionId = tid.connectionId)
include hplaced

theorem Booked.transactionInfo
    (hid : K info.connectionId) (hbegin : info.type = .begin → ∀ tid ∈ localId info.transactionId,
      l.transactions tid = none ∧ ∀ p, l.last p ≠ some tid) :
    (t.processTransactionInfo opts info).1.Booked (l.track (.transactionInfo info)) live := by
  cases hcase : info.transactionId with
  | «local» tid =>
    have htid : tid ∈ localId info.transactionId := by
      rw [hcase]
      rfl
    have hin := fun result => h.inTransaction hK hwf htrack result hcase (hplaced tid htid) hid
    unfold processTransactionInfo
    cases htype : info.type with
    | begin =>
      obtain ⟨hfresh, hlast⟩ := hbegin htype tid htid
      simp only [Ledger.track, hcase, htype]
      exact h.begin hK hwf htrack hcase (hplaced tid htid) hid hfresh hlast
    | prepare | commitOnePhase | commitTwoPhase | rollback | «end» =>
      simp only [Ledger.track, hcase, htype]
      exact hin _
    | recover | forget =>
      simp only [Ledger.track, hcase, htype]
      exact h
  | xa x =>
    have hnone : localId info.transactionId = none := by
      rw [hcase]
      rfl
    have hxa := fun result => h.xaTransaction hK hwf result opts hnone hid
    simp only [Ledger.track, hcase]
    unfold processTransactionInfo
    cases htype : info.type with
    | begin =>
      rw [processBeginTransaction, if_pos htrack]
      refine h.withConnection_same hK hwf hid fun cs hcs => ?_
      rw [hcase]
      exact h _ hcs
    | recover | forget => exact h
    | _ => exact hxa _

omit hplaced htrack hwf h hK in
/-- The message is added, and its producer points to the transaction. -/
theorem books_trackInTransaction (h : cs.Books id l live) (hwf : cs.Wf id)
    (hproducers : opts.trackTransactionProducers = true) {m : Message} {tx : TransactionState}
    (htid : tid.connectionId = id) (htx : (tid, tx) ∈ cs.transactions)
    (hlive : .producer m.producerId ∈ live) (hentity : .producer m.producerId ∈ cs.entities) :
    (trackInTransaction opts m tid tx cs).1.Books id (l.sends tid m) live := by
  obtain ⟨ss, hss, hx⟩ := (hwf.mem_iff_of_sessionId rfl).mp hentity
  have hsession := hwf.session _ hss
  obtain ⟨ps, hps⟩ := hsession.producer_mem_iff.mp hx
  have hid : m.producerId.parentId.parentId = id := hwf.sessions.keys _ hss
  have hss' : (cs.updateTransaction tid (.addCommand (.message m))).sessions.find SessionId.less
      m.producerId.parentId = some ss :=
    (StlMap.find_eq_some_iff (SessionId.orderedOn id) hwf.sessions hid).mpr hss
  have hps' := (StlMap.find_eq_some_iff (ProducerId.orderedOn _) hsession.producers rfl).mpr hps
  have hadded := h.addCommand htid (.message m) fun m' hm' => by
    rwa [← TransactionCommand.message.inj hm']
  have hmem : (tid, tx.addCommand (.message m)) ∈
      (cs.updateTransaction tid (.addCommand (.message m))).transactions :=
    (h.mem_addCommand htid (.message m)).mpr (.inl ⟨tx, htx, rfl⟩)
  rw [trackInTransaction, if_pos hproducers, hss']
  dsimp only
  rw [hps', sends, h.commands _ htx]
  exact hadded.setTransactionState { hwf with } hid hmem

omit hplaced in
/-- A message. Within a transaction its producer is live. -/
theorem Booked.message (hproducers : opts.trackTransactionProducers = true) {m : Message}
    (hplaced : ∀ tid ∈ m.transactionId.bind localId,
      m.producerId.parentId.parentId = tid.connectionId) (hid : K m.producerId.parentId.parentId)
    (hlive : m.transactionId ≠ none →
      .producer m.producerId ∈ live ∧ .producer m.producerId ∈ t.entities) :
    (t.processMessage opts m).1.Booked (l.track (.message m)) live := by
  rw [processMessage, htrack]
  cases hm : m.transactionId with
  | none =>
    simp only [Ledger.track, hm]
    refine h.of_connectionStates ?_
    split
    · unfold cacheMessage
      split
      · rfl
      · split <;> rfl
    · rfl
  | some id =>
    obtain ⟨hin, hentity⟩ := hlive (by simp [hm])
    cases id with
    | xa x =>
      simp only [Ledger.track, hm]
      refine h.withConnection_same hK hwf hid fun cs hcs => ?_
      exact h _ hcs
    | «local» tid =>
      have htid := hplaced tid (by simp [hm, localId])
      simp only [Ledger.track, hm]
      by_cases hopen : l.transactions tid = none
      · rw [sends_of_none hopen]
        refine h.withConnection_same hK hwf hid fun cs hcs => ?_
        rw [withTransaction_of_closed (h _ hcs) htid.symm hopen]
        exact h _ hcs
      · refine h.withConnection hK hwf hid ?_ ?_ fun _ _ _ _ hp => hp
        · intro cs hcs
          obtain ⟨tx, htx, heq⟩ := withTransaction_of_open (h _ hcs) htid.symm hopen
            fun id tx => trackInTransaction opts m id tx cs
          obtain ⟨cs', hcs', hx⟩ := hwf.mem_iff.mp hentity
          obtain rfl := hwf.connections.value_unique hK hcs hcs'
          rw [heq]
          exact books_trackInTransaction (h _ hcs) (hwf.connection _ hcs) hproducers htid.symm htx
            hin hx
        · intro other hother
          apply agreesOn_sends
          · rw [← htid]
            exact hother.symm
          · exact htid

omit htrack

/-- The response to a completed transaction. -/
theorem Booked.removeTransaction (hid : K info.connectionId) :
    (t.removeTransaction info).1.Booked (l.step (.responded info)) live := by
  unfold Tracker.removeTransaction
  cases hcase : info.transactionId with
  | xa x =>
    have hstep : l.step (.responded info) = l := by simp only [step, hcase, localId]
    rw [hstep]
    refine h.withConnection_same hK hwf hid fun cs hcs => ?_
    exact h _ hcs
  | «local» tid =>
    have hstep : l.step (.responded info) = l.closes tid := by
      simp [step, hcase, localId]
    have htid := hplaced tid (by simp [hcase, localId])
    rw [hstep]
    refine h.withConnection hK hwf hid ?_ ?_ fun _ _ _ _ hp => hp
    · intro cs hcs
      exact (h _ hcs).removeTransaction htid.symm
    · intro other hother
      refine agreesOn_of_transactions ?_ _ _
      rw [← htid]
      exact hother.symm

end Tracker

/-! ## The cached messages -/

namespace Tracker

/-- The cache of messages is left alone. -/
structure SameCache (t t' : Tracker) : Prop where
  messageCache : t'.messageCache = t.messageCache
  currentCacheSize : t'.currentCacheSize = t.currentCacheSize

variable (t : Tracker)

theorem sameCache_withConnection {α : Type} (id : ConnectionId)
    (f : ConnectionState → ConnectionState × Except Exn α) :
    SameCache t (t.withConnection id f).1 := by
  unfold withConnection
  split <;> exact ⟨rfl, rfl⟩

/-- Only messages outside transactions are cached. -/
def CachesPlain (t : Tracker) : Prop := ∀ m ∈ t.messageCache.values, m.transactionId = none

theorem CachesPlain.message {opts : Options} (htrack : opts.trackTransactions = true)
    {m : Message} {t : Tracker} (h : t.CachesPlain) : (t.processMessage opts m).1.CachesPlain := by
  rw [processMessage, htrack]
  cases hm : m.transactionId with
  | some id =>
    unfold CachesPlain
    rw [(sameCache_withConnection ..).messageCache]
    exact h
  | none =>
    dsimp only
    split
    · have hput : ∀ m' ∈ (t.messageCache.put m.messageId m).values, m'.transactionId = none := by
        intro m' hm'
        rcases LinkedHashMap.mem_values_put hm' with rfl | hold
        · exact hm
        · exact h m' hold
      unfold cacheMessage
      split
      · exact h
      · next eldest rest hcache =>
        rw [hcache] at hput
        split
        · exact fun m' hm' => hput m' (List.mem_cons_of_mem _ hm')
        · exact hput
    · exact h

theorem sameCache_transactionInfo (opts : Options) (info : TransactionInfo) :
    SameCache t (t.processTransactionInfo opts info).1 := by
  have hin : ∀ result, SameCache t (processInTransaction result opts info t).1 := by
    intro result
    unfold processInTransaction
    split
    · exact sameCache_withConnection ..
    · exact ⟨rfl, rfl⟩
  unfold processTransactionInfo
  split
  · unfold processBeginTransaction
    split
    · exact sameCache_withConnection ..
    · exact ⟨rfl, rfl⟩
  all_goals first | exact hin _ | exact ⟨rfl, rfl⟩

/-- Only messages touch the cache of messages. -/
theorem sameCache_visit (opts : Options) {command : Command}
    (h : ∀ m, command ≠ .message m) : SameCache t (t.visit opts command).1 := by
  cases command with
  | message m => exact absurd rfl (h m)
  | transactionInfo info => exact sameCache_transactionInfo t opts info
  | removeInfo info =>
    obtain ⟨commandId, objectId, responseRequired⟩ := info
    cases objectId with
    | connection id => exact ⟨rfl, rfl⟩
    | other => exact ⟨rfl, rfl⟩
    | _ => exact sameCache_withConnection ..
  | messagePull pull =>
    show SameCache t (t.processMessagePull opts pull).1
    unfold processMessagePull
    split <;> exact ⟨rfl, rfl⟩
  | connectionInfo info => exact ⟨rfl, rfl⟩
  | consumerControl control => exact ⟨rfl, rfl⟩
  | other => exact ⟨rfl, rfl⟩
  | _ => exact sameCache_withConnection ..

theorem CachesPlain.visit {opts : Options} (htrack : opts.trackTransactions = true)
    (command : Command) {t : Tracker} (h : t.CachesPlain) :
    (t.visit opts command).1.CachesPlain := by
  by_cases hmessage : ∃ m, command = .message m
  · obtain ⟨m, rfl⟩ := hmessage
    exact h.message htrack
  · rw [not_exists] at hmessage
    rw [CachesPlain, (sameCache_visit t opts hmessage).messageCache]
    exact h

end Tracker

end ActivemqCpp.State
