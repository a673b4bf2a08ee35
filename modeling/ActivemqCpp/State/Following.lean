import ActivemqCpp.Base.Machine
import ActivemqCpp.State.TrackedTransactions

/-!
# The tracker follows the broker

A history of calls on the tracker, next to what the broker makes of the same commands.
In a well-formed history objects are announced under fresh ids below live parents and
removed while they live; the tracked state then lists exactly the live objects
(`Follows`), and the transactions hold only producers that are gone.

The maps are searched by `ConnectionId::compareTo`, so the ids of a history have to be
in a set that it orders.
-/

namespace ActivemqCpp.State

open Base Decaf Commands StlMap ConnectionState

/-! ## Steps of one connection -/

/-- A step that brings the objects `G`, leaves the objects `H` and may have a transaction
take over the objects `W`. -/
structure ConnectionState.Moves (id : ConnectionId) (G H W : Entity → Prop)
    (cs cs' : ConnectionState) : Prop where
  wf : cs'.Wf id
  serves : cs'.Serves
  alters : Alters G H cs.entities cs'.entities
  held : ∀ x ∈ cs'.held, x ∈ cs.held ∨ W x

namespace ConnectionState

/-- A step that brings and takes nothing. -/
abbrev Stays (id : ConnectionId) (cs cs' : ConnectionState) : Prop :=
  Moves id (fun _ => False) (fun _ => True) (fun _ => False) cs cs'

variable {id : ConnectionId} {cs cs' : ConnectionState} (hwf : cs.Wf id) (hserves : cs.Serves)

theorem handOver_eq (cs : ConnectionState) (producer : ProducerState) :
    ∃ transactions, cs.handOver producer = { cs with transactions } := by
  unfold handOver
  split
  · exact ⟨cs.transactions, rfl⟩
  · exact ⟨_, rfl⟩

include hwf hserves

theorem stays_of_eq (hinfo : cs'.info.connectionId = id)
    (htemp : cs'.tempDestinations = cs.tempDestinations) (hsessions : cs'.sessions = cs.sessions)
    (htx : cs'.transactions = cs.transactions) (hnext : cs'.nextSerial = cs.nextSerial) :
    Stays id cs cs' := by
  refine ⟨⟨hinfo, ?_, ?_, ?_, ?_, ?_⟩, hserves.of_sessions htx hnext ?_, ?_, ?_⟩
  · rw [htemp]
    exact hwf.temp
  · rw [tempEntities, htemp]
    exact hwf.temp_nodup
  · rw [hsessions]
    exact hwf.sessions
  · rw [hsessions]
    exact hwf.session
  · rw [hsessions]
    exact hwf.default
  · intro p n hp
    rwa [PointsTo, hsessions] at hp
  · refine keeps_of_eq ?_
    rw [entities, entities, tempEntities, tempEntities, sessionEntities, sessionEntities, hinfo,
      hwf.info, htemp, hsessions]
  · intro x hx
    rw [held, htx] at hx
    exact .inl hx

theorem Stays.refl : Stays id cs cs :=
  stays_of_eq hwf hserves hwf.info rfl rfl rfl rfl

omit hserves in
/-- A change within one session. -/
theorem moves_updateSession {sid : SessionId} {ss : SessionState}
    {f : SessionState → SessionState} (hss : (sid, ss) ∈ cs.sessions)
    (hserves : (cs.updateSession sid f).Serves) (hf : (f ss).Wf sid) {G H W : Entity → Prop}
    (halters : Alters G H ss.entities (f ss).entities)
    (hH : ∀ x, ¬ H x → x.sessionId = some sid) : Moves id G H W cs (cs.updateSession sid f) := by
  obtain ⟨hwf', halters'⟩ := hwf.updateSession hss hf halters hH
  exact ⟨hwf', hserves, halters', fun x hx => .inl hx⟩

variable (tid : LocalTransactionId)
include tid

theorem stays_addCommand
    (c : TransactionCommand) : Stays id cs (cs.updateTransaction tid (.addCommand c)) := by
  refine ⟨{ hwf with }, hserves.addCommand tid c, keeps_of_eq rfl, ?_⟩
  intro x hx
  rw [held_addCommand] at hx
  exact .inl hx

theorem stays_begin (info : TransactionInfo) :
    Stays id cs ((cs.addTransactionState tid).updateTransaction tid (.addCommand (.info info))) :=
  ⟨{ hwf with }, hserves.begin tid info, keeps_of_eq rfl, fun _ hx => .inl (held_begin info hx)⟩

theorem stays_removeTransaction : Stays id cs (cs.removeTransactionState tid) :=
  ⟨{ hwf with }, hserves.removeTransaction tid, keeps_of_eq rfl,
    fun _ hx => .inl (held_removeTransaction hx)⟩

omit tid

/-- A removed producer may be taken over by the transaction it points to. -/
theorem moves_removeProducer {p : ProducerId}
    {ss : SessionState} (hss : (p.parentId, ss) ∈ cs.sessions) {ps : ProducerState}
    (hps : (p, ps) ∈ ss.producers) :
    Moves id (fun _ => False) (fun x => ¬ x.Within (.producer p)) (· = .producer p) cs
      (cs.removeProducer p ss) := by
  have hsession := hwf.session _ hss
  have hfind : ss.producers.find ProducerId.less p = some ps :=
    (find_eq_some_iff (ProducerId.orderedOn _) hsession.producers rfl).mpr hps
  have hinfo : ps.info.producerId = p := hsession.producer _ hps
  obtain ⟨hdrop, hdrops⟩ := hsession.dropProducer rfl
  have hH : ∀ x : Entity, ¬ ¬ x.Within (.producer p) → x.sessionId = some p.parentId := by
    intro x hx
    rw [Entity.within_producer.mp (not_not.mp hx)]
    rfl
  obtain ⟨hwf', halters⟩ := hwf.updateSession hss hdrop hdrops hH
  have hserves' : (cs.updateSession p.parentId (.dropProducer p)).Serves :=
    hserves.updateSession (pointsTo_dropProducer p)
  have hpointer : ∀ n, ps.transactionState = some n → ∀ e ∈ cs.transactions,
      e.2.serial = n → SentIn ps.info.producerId e.2 := by
    intro n hn
    exact (hserves.pointers _ n ⟨_, hss, _, hps, rfl, hn⟩).2
  have hremove : cs.removeProducer p ss =
      (cs.updateSession p.parentId (.dropProducer p)).handOver ps := by
    rw [removeProducer, hfind]
  rw [hremove]
  refine ⟨?_, hserves'.handOver hpointer, ?_, ?_⟩
  · obtain ⟨transactions, heq⟩ := handOver_eq (cs.updateSession p.parentId (.dropProducer p)) ps
    rw [heq]
    exact { hwf' with }
  · obtain ⟨transactions, heq⟩ := handOver_eq (cs.updateSession p.parentId (.dropProducer p)) ps
    rw [heq]
    exact halters
  · intro x hx
    have hcases := held_handOver ps hx
    rwa [hinfo] at hcases

/-- A message tracked in a transaction moves nothing, also when its producer is not
found. -/
theorem stays_trackInTransaction (opts : Options)
    {m : Message} (hm : m.transactionId ≠ none) (hparent : m.producerId.parentId.parentId = id)
    {tid : LocalTransactionId} {tx : TransactionState}
    (hfind : cs.transactions.find LocalTransactionId.less tid = some tx) :
    Stays id cs (Tracker.trackInTransaction opts m tid tx cs).1 := by
  have hadded := stays_addCommand hwf hserves tid (.message m)
  unfold Tracker.trackInTransaction
  dsimp only
  split
  · split
    · exact hadded
    · rename_i ss hss
      split
      · exact hadded
      · have hmem : (m.producerId.parentId, ss) ∈ cs.sessions :=
          (find_eq_some_iff (SessionId.orderedOn id) hwf.sessions hparent).mp hss
        have hsession := hwf.session _ hmem
        obtain ⟨hset, hkeeps⟩ := hsession.setTransactionState rfl tx.serial
        have hinfo : ∀ ss' v, cs.sessions.find SessionId.less m.producerId.parentId = some ss' →
            ss'.producers.find ProducerId.less m.producerId = some v →
            v.info.producerId = m.producerId := by
          intro ss' v hss' hv
          obtain rfl : ss = ss' := Option.some.inj (hss.symm.trans hss')
          exact hsession.producer (m.producerId, v) ((find_eq_some_iff
            (ProducerId.orderedOn _) hsession.producers rfl).mp hv)
        have hmoves := moves_updateSession (W := fun _ => False) hadded.wf hmem
          (hserves.setTransactionState hfind hm hinfo) hset hkeeps (by simp)
        refine ⟨hmoves.wf, hmoves.serves, hmoves.alters, ?_⟩
        intro x hx
        rw [← held_addCommand cs tid (.message m)]
        exact hmoves.held x hx
  · exact hadded

end ConnectionState

/-! ## Steps of the tracker -/

namespace Tracker

def entities (t : Tracker) : List Entity := t.connectionStates.allItems ConnectionState.entities

def held (t : Tracker) : List Entity := t.connectionStates.flatMap fun e => e.2.held

/-- The connections are filed under ids in `K`. -/
structure Wf (K : ConnectionId → Prop) (t : Tracker) : Prop where
  connections : StlMap.Wf ConnectionId.less K t.connectionStates
  connection : ∀ e ∈ t.connectionStates, e.2.Wf e.1
  serves : ∀ e ∈ t.connectionStates, e.2.Serves

structure Moves (K : ConnectionId → Prop) (G H W : Entity → Prop) (t t' : Tracker) : Prop where
  wf : t'.Wf K
  alters : Alters G H t.entities t'.entities
  held : ∀ x ∈ t'.held, x ∈ t.held ∨ W x

abbrev Stays (K : ConnectionId → Prop) (t t' : Tracker) : Prop :=
  Moves K (fun _ => False) (fun _ => True) (fun _ => False) t t'

variable {K : ConnectionId → Prop} {t t' : Tracker} {x : Entity}

theorem mem_held : x ∈ t.held ↔ ∃ e ∈ t.connectionStates, x ∈ e.2.held :=
  List.mem_flatMap

variable (h : t.Wf K)

theorem wf_new : new.Wf K := ⟨StlMap.wf_nil, by simp [new], by simp [new]⟩

include h

theorem Stays.refl : Stays K t t := ⟨h, keeps_of_eq rfl, fun _ hx => .inl hx⟩

/-- What is kept beside the connections does not matter. -/
theorem Wf.of_connectionStates (heq : t'.connectionStates = t.connectionStates) : Stays K t t' := by
  refine ⟨⟨?_, ?_, ?_⟩, keeps_of_eq ?_, ?_⟩
  · rw [heq]
    exact h.connections
  · rw [heq]
    exact h.connection
  · rw [heq]
    exact h.serves
  · rw [entities, entities, heq]
  · intro x hx
    rw [Tracker.held, heq] at hx
    exact .inl hx

theorem Wf.owned :
    Owned ConnectionState.entities (fun x => some x.connectionId) t.connectionStates :=
  fun e he _ hx => congrArg some ((h.connection e he).connectionId_eq hx)

variable (hK : OrderedOn ConnectionId.less K)

/-- An object is found in the state of its connection. -/
theorem Wf.mem_iff :
    x ∈ t.entities ↔ ∃ cs, (x.connectionId, cs) ∈ t.connectionStates ∧ x ∈ cs.entities := by
  rw [entities, StlMap.mem_allItems]
  constructor
  · intro ⟨e, he, hx⟩
    rw [(h.connection e he).connectionId_eq hx]
    exact ⟨e.2, he, hx⟩
  · intro ⟨cs, hcs, hx⟩
    exact ⟨_, hcs, hx⟩

/-- A change to the state of every connection that moves nothing. -/
theorem Wf.stays_map {g : ConnectionState → ConnectionState}
    (hg : ∀ id cs, cs.Wf id → cs.Serves → ConnectionState.Stays id cs (g cs)) :
    Stays K t
      { t with connectionStates := t.connectionStates.map fun e => (e.1, g e.2) } := by
  have hstays : ∀ e ∈ t.connectionStates, ConnectionState.Stays e.1 e.2 (g e.2) := fun e he =>
    hg e.1 e.2 (h.connection e he) (h.serves e he)
  refine ⟨⟨⟨?_, ?_⟩, ?_, ?_⟩, ?_, ?_⟩
  · exact List.forall_mem_map.mpr h.connections.keys
  · exact List.pairwise_map.mpr h.connections.sorted
  · exact List.forall_mem_map.mpr fun e he => (hstays e he).wf
  · exact List.forall_mem_map.mpr fun e he => (hstays e he).serves
  · refine keeps_of fun x => ?_
    have hx : ∀ e ∈ t.connectionStates, (x ∈ (g e.2).entities ↔ x ∈ e.2.entities) := by
      intro e he
      have halters := (hstays e he).alters x
      simpa only [false_or, and_true] using halters
    rw [entities, entities, StlMap.mem_allItems, StlMap.mem_allItems]
    constructor
    · intro ⟨e', he', hxe⟩
      obtain ⟨e, he, rfl⟩ := List.mem_map.mp he'
      exact ⟨e, he, (hx e he).mp hxe⟩
    · intro ⟨e, he, hxe⟩
      exact ⟨_, List.mem_map_of_mem he, (hx e he).mpr hxe⟩
  · intro x hx
    obtain ⟨e', he', hxe⟩ := mem_held.mp hx
    obtain ⟨e, he, rfl⟩ := List.mem_map.mp he'
    exact ((hstays e he).held x hxe).imp_left fun hx => mem_held.mpr ⟨e, he, hx⟩

include hK

theorem Wf.nodup_entities : t.entities.Nodup :=
  nodup_allItems hK h.connections h.owned fun e he => (h.connection e he).nodup_entities

variable {id : ConnectionId}

omit hK in
theorem Wf.connection_mem_iff :
    .connection id ∈ t.entities ↔ ∃ cs, (id, cs) ∈ t.connectionStates := by
  rw [h.mem_iff]
  refine exists_congr fun cs => and_iff_left_of_imp ?_
  exact fun hcs => (h.connection _ hcs).connection_mem

variable {cs : ConnectionState} (hcs : (id, cs) ∈ t.connectionStates)
include hcs

/-- A step of one connection is a step of the tracker. -/
theorem Wf.moves_update {f : ConnectionState → ConnectionState} {G H W : Entity → Prop}
    (hmoves : ConnectionState.Moves id G H W cs (f cs)) (hH : ∀ x, ¬ H x → x.connectionId = id) :
    Moves K G H W t
      { t with connectionStates := t.connectionStates.update ConnectionId.less id f } := by
  have hid : K id := h.connections.keys _ hcs
  have hmem : ∀ e ∈ t.connectionStates.update ConnectionId.less id f,
      e = (id, f cs) ∨ e ∈ t.connectionStates := by
    intro e he
    rcases (StlMap.mem_update hK h.connections hid).mp he with ⟨v, hv, rfl⟩ | ⟨he, -⟩
    · rw [h.connections.value_unique hK hv hcs]
      exact .inl rfl
    · exact .inr he
  refine ⟨⟨StlMap.wf_update hK h.connections hid _, ?_, ?_⟩, ?_, ?_⟩
  · intro e he
    rcases hmem e he with rfl | hold
    · exact hmoves.wf
    · exact h.connection e hold
  · intro e he
    rcases hmem e he with rfl | hold
    · exact hmoves.serves
    · exact h.serves e hold
  · intro x
    exact StlMap.mem_allItems_update hK h.connections h.owned hid hcs hmoves.alters
      fun x hx => congrArg some (hH x hx)
  · intro x hx
    obtain ⟨e, he, hxe⟩ := mem_held.mp hx
    rcases hmem e he with rfl | hold
    · exact (hmoves.held x hxe).imp_left fun hx => mem_held.mpr ⟨_, hcs, hx⟩
    · exact .inl (mem_held.mpr ⟨e, hold, hxe⟩)

variable {α : Type}

/-- `connectionStates.get(id)` of a tracked connection. -/
theorem Wf.withConnection_eq (f : ConnectionState → ConnectionState × Except Exn α) :
    t.withConnection id f =
      ({ t with
          connectionStates := t.connectionStates.update ConnectionId.less id fun _ => (f cs).1 },
        (f cs).2) := by
  rw [withConnection, (StlMap.find_eq_some_iff hK h.connections (h.connections.keys _ hcs)).mpr hcs]

variable {f : ConnectionState → ConnectionState × Except Exn α}

/-- A step within the state of a tracked connection. -/
theorem Wf.moves_withConnection {G H W : Entity → Prop}
    (hmoves : ConnectionState.Moves id G H W cs (f cs).1)
    (hH : ∀ x, ¬ H x → x.connectionId = id) : Moves K G H W t (t.withConnection id f).1 := by
  rw [h.withConnection_eq hK hcs]
  exact h.moves_update hK hcs hmoves hH

omit hcs

/-- A step that moves nothing whatever connection it finds. -/
theorem Wf.stays_withConnection (hid : K id)
    (hstays : ∀ cs, cs.Wf id → cs.Serves → ConnectionState.Stays id cs (f cs).1) :
    Stays K t (t.withConnection id f).1 := by
  cases hfind : t.connectionStates.find ConnectionId.less id with
  | none =>
    rw [withConnection, hfind]
    exact Stays.refl h
  | some cs =>
    have hcs := (find_eq_some_iff hK h.connections hid).mp hfind
    exact h.moves_withConnection hK hcs (hstays cs (h.connection _ hcs) (h.serves _ hcs)) (by simp)

/-! ## Commands that announce -/

/-- A command that brings `e`. -/
abbrev Brings (K : ConnectionId → Prop) (e : Entity) (t t' : Tracker) : Prop :=
  Moves K (· ∈ creates e) (fun _ => True) (fun _ => False) t t'

theorem Wf.brings_connection {info : ConnectionInfo} (hid : K info.connectionId)
    (hnew : .connection info.connectionId ∉ t.entities) :
    Brings K (.connection info.connectionId) t (t.processConnectionInfo info).1 := by
  have hkey : ∀ v, (info.connectionId, v) ∉ t.connectionStates := fun v hv =>
    hnew (h.connection_mem_iff.mpr ⟨v, hv⟩)
  have hmem : ∀ e ∈ (t.processConnectionInfo info).1.connectionStates,
      e = (info.connectionId, .new info) ∨ e ∈ t.connectionStates := by
    intro e he
    exact ((StlMap.mem_put hK h.connections hid).mp he).imp_right fun he => he.1
  refine ⟨⟨StlMap.wf_put hK h.connections hid _, ?_, ?_⟩, ?_, ?_⟩
  · intro e he
    rcases hmem e he with rfl | hold
    · exact ConnectionState.wf_new info
    · exact h.connection e hold
  · intro e he
    rcases hmem e he with rfl | hold
    · exact serves_new info
    · exact h.serves e hold
  · intro x
    have hput : x ∈ (t.processConnectionInfo info).1.entities ↔
        x ∈ (ConnectionState.new info).entities ∨ x ∈ t.entities :=
      mem_allItems_put hK h.connections hid hkey
    rw [hput, entities_new]
    simp [creates]
  · intro x hx
    obtain ⟨e, he, hxe⟩ := mem_held.mp hx
    rcases hmem e he with rfl | hold
    · cases hxe
    · exact .inl (mem_held.mpr ⟨e, hold, hxe⟩)

theorem Wf.brings_session {info : SessionInfo}
    (hparent : .connection info.sessionId.parentId ∈ t.entities)
    (hnew : .session info.sessionId ∉ t.entities) :
    Brings K (.session info.sessionId) t (t.processSessionInfo info).1 := by
  obtain ⟨cs, hcs⟩ := h.connection_mem_iff.mp hparent
  have hnew' : .session info.sessionId ∉ cs.entities := fun hin =>
    hnew (h.mem_iff.mpr ⟨cs, hcs, hin⟩)
  obtain ⟨hwf, hadds⟩ := (h.connection _ hcs).addSession rfl hnew'
  refine h.moves_withConnection hK hcs ⟨hwf, (h.serves _ hcs).addSession info, ?_, ?_⟩ (by simp)
  · exact hadds.alters rfl
  · exact fun x hx => .inl hx

variable {sid : SessionId} {ss : SessionState}

omit hK in
/-- A live session, with the connection and the session states that it is found in. -/
theorem Wf.session_mem (hsid : .session sid ∈ t.entities) :
    ∃ cs ss, (sid.parentId, cs) ∈ t.connectionStates ∧ (sid, ss) ∈ cs.sessions := by
  obtain ⟨cs, hcs, hx⟩ := h.mem_iff.mp hsid
  obtain ⟨ss, hss⟩ := (h.connection _ hcs).session_mem_iff.mp hx
  exact ⟨cs, ss, hcs, hss⟩

omit hK in
theorem Wf.mem_of_session
    (hcs : (sid.parentId, cs) ∈ t.connectionStates) (hss : (sid, ss) ∈ cs.sessions)
    (hx : x ∈ ss.entities) : x ∈ t.entities := by
  have hsession := ((h.connection _ hcs).session _ hss).sessionId_eq hx
  rw [h.mem_iff, Entity.connectionId_of_sessionId hsession]
  exact ⟨cs, hcs, ((h.connection _ hcs).mem_iff_of_sessionId hsession).mpr ⟨ss, hss, hx⟩⟩

omit hK in
/-- `getSessionState(id)` of a tracked session. -/
theorem Wf.withSession_eq
    (hcs : (sid.parentId, cs) ∈ t.connectionStates) (hss : (sid, ss) ∈ cs.sessions)
    (f : SessionState → ConnectionState) : withSession sid f cs = (f ss, .ok .marker) := by
  have hfind := (find_eq_some_iff (SessionId.orderedOn _) (h.connection _ hcs).sessions rfl).mpr hss
  rw [withSession, hfind]

theorem Wf.brings_producer {info : ProducerInfo}
    (hparent : .session info.producerId.parentId ∈ t.entities)
    (hnew : .producer info.producerId ∉ t.entities) :
    Brings K (.producer info.producerId) t (t.processProducerInfo info).1 := by
  obtain ⟨cs, ss, hcs, hss⟩ := h.session_mem hparent
  have hnew' : .producer info.producerId ∉ ss.entities := fun hin =>
    hnew (h.mem_of_session hcs hss hin)
  obtain ⟨hwf, hadds⟩ := ((h.connection _ hcs).session _ hss).addProducer rfl hnew'
  refine h.moves_withConnection hK hcs ?_ (by simp)
  rw [h.withSession_eq hcs hss]
  refine moves_updateSession (h.connection _ hcs) hss ?_ hwf ?_ (by simp)
  · exact (h.serves _ hcs).updateSession (pointsTo_addProducer info)
  · exact hadds.alters rfl

theorem Wf.brings_consumer {info : ConsumerInfo}
    (hparent : .session info.consumerId.parentId ∈ t.entities)
    (hnew : .consumer info.consumerId ∉ t.entities) :
    Brings K (.consumer info.consumerId) t (t.processConsumerInfo info).1 := by
  obtain ⟨cs, ss, hcs, hss⟩ := h.session_mem hparent
  have hnew' : .consumer info.consumerId ∉ ss.entities := fun hin =>
    hnew (h.mem_of_session hcs hss hin)
  obtain ⟨hwf, hadds⟩ := ((h.connection _ hcs).session _ hss).addConsumer rfl hnew'
  refine h.moves_withConnection hK hcs ?_ (by simp)
  rw [h.withSession_eq hcs hss]
  refine moves_updateSession (h.connection _ hcs) hss ?_ hwf ?_ (by simp)
  · exact (h.serves _ hcs).updateSession fun _ _ _ hp => hp
  · exact hadds.alters rfl

theorem Wf.brings_tempDestination {info : DestinationInfo}
    (htemp : info.destination.isTemporary = true) (hadd : info.operationType = .add)
    (hparent : .connection info.connectionId ∈ t.entities)
    (hnew : .tempDestination info.connectionId info.destination ∉ t.entities) :
    Brings K (.tempDestination info.connectionId info.destination) t
      (t.processDestinationInfo info).1 := by
  obtain ⟨cs, hcs⟩ := h.connection_mem_iff.mp hparent
  have hnew' : .tempDestination info.connectionId info.destination ∉ cs.entities := fun hin =>
    hnew (h.mem_iff.mpr ⟨cs, hcs, hin⟩)
  obtain ⟨hwf, hadds⟩ := (h.connection _ hcs).addTempDestination rfl htemp hadd hnew'
  refine h.moves_withConnection hK hcs ?_ (by simp)
  rw [if_pos htemp]
  refine ⟨hwf, (h.serves _ hcs).of_sessions rfl rfl fun _ _ hp => hp, ?_, fun x hx => .inl hx⟩
  exact hadds.alters rfl

/-! ## Commands that remove -/

/-- A command that takes `e` away, with all that lies below it. -/
abbrev Takes (K : ConnectionId → Prop) (e : Entity) (t t' : Tracker) : Prop :=
  Moves K (fun _ => False) (fun x => ¬ x.Within e) (· = e) t t'

omit h hK in
theorem connectionId_of_not_not {e : Entity} (hx : ¬ ¬ x.Within e) :
    x.connectionId = e.connectionId := (not_not.mp hx).connectionId_eq

theorem Wf.takes_connection (hid : K id) :
    Takes K (.connection id) t (t.processRemoveConnection id).1 := by
  have hmem : ∀ e ∈ (t.processRemoveConnection id).1.connectionStates,
      e ∈ t.connectionStates := fun e he => ((StlMap.mem_remove hK h.connections hid).mp he).1
  refine ⟨⟨StlMap.wf_remove hK h.connections hid, ?_, ?_⟩, ?_, ?_⟩
  · exact fun e he => h.connection e (hmem e he)
  · exact fun e he => h.serves e (hmem e he)
  · refine drops_of fun x => ?_
    have hremove : x ∈ (t.processRemoveConnection id).1.entities ↔
        x ∈ t.entities ∧ some x.connectionId ≠ some id :=
      mem_allItems_remove hK h.connections h.owned hid
    rw [hremove, Entity.within_connection, ne_eq, Option.some.injEq]
  · intro x hx
    obtain ⟨e, he, hxe⟩ := mem_held.mp hx
    exact .inl (mem_held.mpr ⟨e, hmem e he, hxe⟩)

theorem Wf.takes_session (hlive : .session sid ∈ t.entities)
    (hdefault : ¬ (Entity.session sid).IsDefaultSession) :
    Takes K (.session sid) t (t.processRemoveSession sid).1 := by
  obtain ⟨cs, ss, hcs, hss⟩ := h.session_mem hlive
  have hne : sid ≠ defaultSessionId sid.parentId := by
    intro heq
    exact hdefault (congrArg SessionId.value heq)
  obtain ⟨hwf, hdrops⟩ := (h.connection _ hcs).removeSession rfl hne
  refine h.moves_withConnection hK hcs ?_ fun x hx => connectionId_of_not_not hx
  exact ⟨hwf, (h.serves _ hcs).removeSession sid, hdrops, fun x hx => .inl hx⟩

theorem Wf.takes_producer {id : ProducerId} (hlive : .producer id ∈ t.entities) :
    Takes K (.producer id) t (t.processRemoveProducer id).1 := by
  obtain ⟨cs, hcs, hx⟩ := h.mem_iff.mp hlive
  obtain ⟨ss, hss, hx⟩ := ((h.connection _ hcs).mem_iff_of_sessionId rfl).mp hx
  obtain ⟨ps, hps⟩ := ((h.connection _ hcs).session _ hss).producer_mem_iff.mp hx
  refine h.moves_withConnection hK hcs ?_ fun x hx => connectionId_of_not_not hx
  rw [h.withSession_eq hcs hss]
  exact moves_removeProducer (h.connection _ hcs) (h.serves _ hcs) hss hps

theorem Wf.takes_consumer {id : ConsumerId} (hlive : .consumer id ∈ t.entities) :
    Takes K (.consumer id) t (t.processRemoveConsumer id).1 := by
  obtain ⟨cs, hcs, hx⟩ := h.mem_iff.mp hlive
  obtain ⟨ss, hss, -⟩ := ((h.connection _ hcs).mem_iff_of_sessionId rfl).mp hx
  obtain ⟨hwf, hdrops⟩ := ((h.connection _ hcs).session _ hss).removeConsumer rfl
  refine h.moves_withConnection hK hcs ?_ fun x hx => connectionId_of_not_not hx
  rw [h.withSession_eq hcs hss]
  have hH : ∀ x : Entity, ¬ ¬ x.Within (.consumer id) → x.sessionId = some id.parentId := by
    intro x hx
    rw [Entity.within_consumer.mp (not_not.mp hx)]
    rfl
  have hserves : (cs.updateSession id.parentId (.removeConsumer id)).Serves :=
    (h.serves _ hcs).updateSession fun _ _ _ hp => hp
  have hmoves := moves_updateSession (W := (· = .consumer id))
    (h.connection _ hcs) hss hserves hwf hdrops hH
  exact ⟨{ hmoves.wf with }, hserves.of_sessions rfl rfl fun _ _ hp => hp, hmoves.alters,
    hmoves.held⟩

/-! ## Commands that move nothing -/

theorem Wf.stays_message (opts : Options) (m : Message)
    (hid : K m.producerId.parentId.parentId) : Stays K t (t.processMessage opts m).1 := by
  unfold processMessage
  split
  · rename_i id htrack htx
    refine h.stays_withConnection hK hid fun cs hwf hserves => ?_
    have hm : m.transactionId ≠ none := by
      rw [htx]
      simp
    unfold withTransaction
    split
    · exact ConnectionState.Stays.refl hwf hserves
    · split
      · exact ConnectionState.Stays.refl hwf hserves
      · rename_i tx hfind
        exact stays_trackInTransaction hwf hserves opts hm rfl hfind
  · refine h.of_connectionStates ?_
    split
    · unfold cacheMessage
      split
      · rfl
      · split <;> rfl
    · rfl

variable (info : TransactionInfo) (hid : K info.connectionId)
include info hid

theorem Wf.stays_inTransaction (result : TransactionInfo → Tracked) (opts : Options) :
    Stays K t (processInTransaction result opts info t).1 := by
  unfold processInTransaction
  split
  · refine h.stays_withConnection hK hid fun cs hwf hserves => ?_
    unfold withTransaction
    split
    · exact ConnectionState.Stays.refl hwf hserves
    · split
      · exact ConnectionState.Stays.refl hwf hserves
      · exact stays_addCommand hwf hserves _ _
  · exact Stays.refl h

theorem Wf.stays_transactionInfo (opts : Options) :
    Stays K t (t.processTransactionInfo opts info).1 := by
  unfold processTransactionInfo
  split
  · unfold processBeginTransaction
    split
    · refine h.stays_withConnection hK hid fun cs hwf hserves => ?_
      split
      · exact ConnectionState.Stays.refl hwf hserves
      · exact ConnectionState.stays_begin hwf hserves _ info
    · exact Stays.refl h
  iterate 5 exact h.stays_inTransaction hK info hid _ opts
  iterate 2 exact Stays.refl h

theorem Wf.stays_removeTransaction : Stays K t (t.removeTransaction info).1 := by
  refine h.stays_withConnection hK hid fun cs hwf hserves => ?_
  split
  · exact ConnectionState.Stays.refl hwf hserves
  · exact ConnectionState.stays_removeTransaction hwf hserves _

end Tracker

end ActivemqCpp.State
