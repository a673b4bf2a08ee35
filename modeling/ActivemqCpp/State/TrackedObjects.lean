import ActivemqCpp.State.Broker

/-!
# The objects in the tracked state

`entities` lists the objects that the tracked state of a session, of a connection and of
the whole client stands for, in the order in which `restore` visits them. `Wf` says that
every object is filed under its own id and below its own parent. Each operation on the
states is shown to keep `Wf` and to add or drop exactly the objects it should.
-/

namespace ActivemqCpp.State

open Decaf Commands List Entity StlMap
open StlMap (Owned mem_allItems mem_put mem_remove mem_update wf_nil wf_put wf_remove)

namespace Entity

/-- The session it is or belongs to. -/
def sessionId : Entity → Option SessionId
  | .session id => some id
  | .producer id => some id.parentId
  | .consumer id => some id.parentId
  | _ => none

def producerId : Entity → Option ProducerId
  | .producer id => some id
  | _ => none

def consumerId : Entity → Option ConsumerId
  | .consumer id => some id
  | _ => none

variable {x : Entity} {id : ProducerId}

theorem within_connection {id : ConnectionId} :
    x.Within (.connection id) ↔ x.connectionId = id := by
  cases x <;> simp [Within, parent, connectionId]

theorem within_session {id : SessionId} : x.Within (.session id) ↔ x.sessionId = some id := by
  cases x <;> simp [Within, parent, sessionId]

theorem within_producer : x.Within (.producer id) ↔ x = .producer id := by
  cases x <;> simp [Within, parent]

theorem within_consumer {id : ConsumerId} : x.Within (.consumer id) ↔ x = .consumer id := by
  cases x <;> simp [Within, parent]

theorem producerId_eq_some : x.producerId = some id ↔ x = .producer id := by
  cases x <;> simp [producerId]

theorem consumerId_eq_some {id : ConsumerId} : x.consumerId = some id ↔ x = .consumer id := by
  cases x <;> simp [consumerId]

theorem connectionId_of_sessionId {id : SessionId} (h : x.sessionId = some id) :
    x.connectionId = id.parentId := by
  cases x <;> simp only [sessionId, reduceCtorEq, Option.some.injEq] at h <;> subst h <;> rfl

end Entity

/-- A change of the objects listed: those in `G` come, those outside `H` go. -/
def Alters (G H : Entity → Prop) (before after : List Entity) : Prop :=
  ∀ x, x ∈ after ↔ G x ∨ (x ∈ before ∧ H x)

/-- One object comes. -/
def Adds (e : Entity) : List Entity → List Entity → Prop := Alters (· = e) fun _ => True

/-- One object goes, with all that lies below it. -/
def Drops (e : Entity) : List Entity → List Entity → Prop :=
  Alters (fun _ => False) fun x => ¬ x.Within e

/-- The objects stay. -/
def Keeps : List Entity → List Entity → Prop := Alters (fun _ => False) fun _ => True

variable {before after : List Entity}

/-- What comes is what the announcement creates. -/
theorem Adds.alters {e : Entity} (h : Adds e before after)
    (hcreates : creates e = { e }) : Alters (· ∈ creates e) (fun _ => True) before after := by
  intro x
  show x ∈ after ↔ x ∈ creates e ∨ _
  rw [hcreates, Finset.mem_singleton]
  exact h x

theorem drops_of {e : Entity}
    (h : ∀ x, x ∈ after ↔ x ∈ before ∧ ¬ x.Within e) : Drops e before after := fun x =>
  (h x).trans (or_iff_right id).symm

theorem keeps_of (h : ∀ x, x ∈ after ↔ x ∈ before) :
    Keeps before after := fun x => (h x).trans (by simp)

theorem keeps_of_eq (h : after = before) : Keeps before after := by
  intro x
  simp [h]

/-! ## Sessions -/

namespace SessionState

def producerEntities (ss : SessionState) : List Entity :=
  ss.producers.allItems fun ps => [.producer ps.info.producerId]

def consumerEntities (ss : SessionState) : List Entity :=
  ss.consumers.allItems fun c => [.consumer c.info.consumerId]

def entities (ss : SessionState) : List Entity :=
  .session ss.info.sessionId :: (ss.producerEntities ++ ss.consumerEntities)

/-- The state of the session `id`. -/
structure Wf (id : SessionId) (ss : SessionState) : Prop where
  info : ss.info.sessionId = id
  producers : StlMap.Wf ProducerId.less (fun p => p.parentId = id) ss.producers
  consumers : StlMap.Wf ConsumerId.less (fun c => c.parentId = id) ss.consumers
  producer : ∀ e ∈ ss.producers, e.2.info.producerId = e.1
  consumer : ∀ e ∈ ss.consumers, e.2.info.consumerId = e.1

variable {id : SessionId} {ss : SessionState}

theorem wf_new (info : SessionInfo) : (new info).Wf info.sessionId :=
  ⟨rfl, wf_nil, wf_nil, by simp [new], by simp [new]⟩

theorem mem_entities {x : Entity} :
    x ∈ ss.entities ↔
      x = .session ss.info.sessionId ∨ x ∈ ss.producerEntities ∨ x ∈ ss.consumerEntities := by
  simp [entities]

namespace Wf

variable (h : ss.Wf id)
include h

theorem owned_producers :
    Owned (fun ps : ProducerState => [Entity.producer ps.info.producerId])
      producerId ss.producers := by
  intro e he x hx
  rw [mem_singleton.mp hx, producerId, h.producer e he]

theorem owned_consumers :
    Owned (fun c : ConsumerState => [Entity.consumer c.info.consumerId])
      consumerId ss.consumers := by
  intro e he x hx
  rw [mem_singleton.mp hx, consumerId, h.consumer e he]

variable {x : Entity}

theorem mem_producerEntities : x ∈ ss.producerEntities ↔ ∃ e ∈ ss.producers, x = .producer e.1 := by
  rw [producerEntities, mem_allItems]
  refine exists_congr fun e => and_congr_right fun he => ?_
  rw [mem_singleton, h.producer e he]

theorem mem_consumerEntities : x ∈ ss.consumerEntities ↔ ∃ e ∈ ss.consumers, x = .consumer e.1 := by
  rw [consumerEntities, mem_allItems]
  refine exists_congr fun e => and_congr_right fun he => ?_
  rw [mem_singleton, h.consumer e he]

/-- Its objects know the session they belong to. -/
theorem sessionId_eq (hx : x ∈ ss.entities) : x.sessionId = some id := by
  rcases mem_entities.mp hx with rfl | hx | hx
  · rw [sessionId, h.info]
  · obtain ⟨e, he, rfl⟩ := h.mem_producerEntities.mp hx
    rw [sessionId, h.producers.keys e he]
  · obtain ⟨e, he, rfl⟩ := h.mem_consumerEntities.mp hx
    rw [sessionId, h.consumers.keys e he]

theorem session_mem : session id ∈ ss.entities := by
  rw [mem_entities, h.info]
  exact .inl rfl

variable {p : ProducerId}

theorem producer_mem_iff : Entity.producer p ∈ ss.entities ↔ ∃ ps, (p, ps) ∈ ss.producers := by
  rw [mem_entities, h.mem_producerEntities, h.mem_consumerEntities]
  constructor
  · rintro (hx | ⟨e, he, hx⟩ | ⟨e, -, hx⟩)
    · cases hx
    · obtain rfl := producer.inj hx
      exact ⟨e.2, he⟩
    · cases hx
  · intro ⟨ps, hps⟩
    exact .inr (.inl ⟨(p, ps), hps, rfl⟩)

theorem consumer_mem_iff {c : ConsumerId} :
    Entity.consumer c ∈ ss.entities ↔ ∃ v, (c, v) ∈ ss.consumers := by
  rw [mem_entities, h.mem_producerEntities, h.mem_consumerEntities]
  constructor
  · rintro (hx | ⟨e, -, hx⟩ | ⟨e, he, hx⟩)
    · cases hx
    · cases hx
    · obtain rfl := consumer.inj hx
      exact ⟨e.2, he⟩
  · intro ⟨v, hv⟩
    exact .inr (.inr ⟨(c, v), hv, rfl⟩)

theorem nodup_entities : ss.entities.Nodup := by
  have hp : ss.producerEntities.Nodup :=
    nodup_allItems (ProducerId.orderedOn id) h.producers h.owned_producers
      fun _ _ => nodup_singleton _
  have hc : ss.consumerEntities.Nodup :=
    nodup_allItems (ConsumerId.orderedOn id) h.consumers h.owned_consumers
      fun _ _ => nodup_singleton _
  rw [entities, nodup_cons, nodup_append]
  refine ⟨?_, hp, hc, ?_⟩
  · rw [mem_append, h.mem_producerEntities, h.mem_consumerEntities]
    simp
  · intro x hx y hy
    obtain ⟨e, -, rfl⟩ := h.mem_producerEntities.mp hx
    obtain ⟨e', -, rfl⟩ := h.mem_consumerEntities.mp hy
    simp

/-! What the operations do to a session. -/

variable {info : ProducerInfo}

theorem wf_addProducer (hparent : info.producerId.parentId = id) : (ss.addProducer info).Wf id := by
  have hord := ProducerId.orderedOn id
  refine ⟨h.info, wf_put hord h.producers hparent _, h.consumers, ?_, h.consumer⟩
  intro e he
  rcases (mem_put hord h.producers hparent).mp he with rfl | ⟨he, -⟩
  · rfl
  · exact h.producer e he

theorem addProducer (hparent : info.producerId.parentId = id)
    (hnew : .producer info.producerId ∉ ss.entities) :
    (ss.addProducer info).Wf id ∧
      Adds (.producer info.producerId) ss.entities (ss.addProducer info).entities := by
  have hord := ProducerId.orderedOn id
  have hkey : ∀ v, (info.producerId, v) ∉ ss.producers := fun v hv =>
    hnew (h.producer_mem_iff.mpr ⟨v, hv⟩)
  refine ⟨h.wf_addProducer hparent, fun x => ?_⟩
  rw [mem_entities, mem_entities]
  simp only [SessionState.addProducer, producerEntities,
    mem_allItems_put hord h.producers hparent hkey, mem_singleton]
  tauto

theorem wf_addConsumer {info : ConsumerInfo} (hparent : info.consumerId.parentId = id) :
    (ss.addConsumer info).Wf id := by
  have hord := ConsumerId.orderedOn id
  refine ⟨h.info, h.producers, wf_put hord h.consumers hparent _, h.producer, ?_⟩
  intro e he
  rcases (mem_put hord h.consumers hparent).mp he with rfl | ⟨he, -⟩
  · rfl
  · exact h.consumer e he

theorem addConsumer {info : ConsumerInfo} (hparent : info.consumerId.parentId = id)
    (hnew : .consumer info.consumerId ∉ ss.entities) :
    (ss.addConsumer info).Wf id ∧
      Adds (.consumer info.consumerId) ss.entities (ss.addConsumer info).entities := by
  have hord := ConsumerId.orderedOn id
  have hkey : ∀ v, (info.consumerId, v) ∉ ss.consumers := fun v hv =>
    hnew (h.consumer_mem_iff.mpr ⟨v, hv⟩)
  refine ⟨h.wf_addConsumer hparent, fun x => ?_⟩
  rw [mem_entities, mem_entities]
  simp only [SessionState.addConsumer, consumerEntities,
    mem_allItems_put hord h.consumers hparent hkey, mem_singleton]
  tauto

theorem dropProducer (hparent : p.parentId = id) :
    (ss.dropProducer p).Wf id ∧
      Drops (.producer p) ss.entities (ss.dropProducer p).entities := by
  have hord := ProducerId.orderedOn id
  refine ⟨⟨h.info, wf_remove hord h.producers hparent, h.consumers, ?_, h.consumer⟩, ?_⟩
  · intro e he
    exact h.producer e ((mem_remove hord h.producers hparent).mp he).1
  · refine drops_of fun x => ?_
    have hp : x ∈ (ss.dropProducer p).producerEntities ↔
        x ∈ ss.producerEntities ∧ x ≠ .producer p := by
      rw [← Entity.producerId_eq_some.ne]
      exact mem_allItems_remove hord h.producers h.owned_producers hparent
    have hc : x ∈ ss.consumerEntities → x ≠ .producer p := by
      intro hx
      obtain ⟨e, -, rfl⟩ := h.mem_consumerEntities.mp hx
      simp
    have hs : x = .session ss.info.sessionId → x ≠ .producer p := by
      rintro rfl
      simp
    rw [mem_entities, mem_entities, within_producer]
    show x = .session ss.info.sessionId ∨ _ ∨ x ∈ ss.consumerEntities ↔ _
    tauto

theorem removeConsumer {c : ConsumerId} (hparent : c.parentId = id) :
    (ss.removeConsumer c).Wf id ∧
      Drops (.consumer c) ss.entities (ss.removeConsumer c).entities := by
  have hord := ConsumerId.orderedOn id
  refine ⟨⟨h.info, h.producers, wf_remove hord h.consumers hparent, h.producer, ?_⟩, ?_⟩
  · intro e he
    exact h.consumer e ((mem_remove hord h.consumers hparent).mp he).1
  · refine drops_of fun x => ?_
    have hc : x ∈ (ss.removeConsumer c).consumerEntities ↔
        x ∈ ss.consumerEntities ∧ x ≠ .consumer c := by
      rw [← Entity.consumerId_eq_some.ne]
      exact mem_allItems_remove hord h.consumers h.owned_consumers hparent
    have hp : x ∈ ss.producerEntities → x ≠ .consumer c := by
      intro hx
      obtain ⟨e, -, rfl⟩ := h.mem_producerEntities.mp hx
      simp
    have hs : x = .session ss.info.sessionId → x ≠ .consumer c := by
      rintro rfl
      simp
    rw [mem_entities, mem_entities, within_consumer]
    show x = .session ss.info.sessionId ∨ x ∈ ss.producerEntities ∨ _ ↔ _
    tauto

theorem setTransactionState (hparent : p.parentId = id) (serial : Nat) :
    (ss.setTransactionState p serial).Wf id ∧
      Keeps ss.entities (ss.setTransactionState p serial).entities := by
  have hord := ProducerId.orderedOn id
  refine ⟨⟨h.info, wf_update hord h.producers hparent _, h.consumers, ?_, h.consumer⟩, ?_⟩
  · intro e he
    rcases (mem_update hord h.producers hparent).mp he with ⟨v, hv, rfl⟩ | ⟨he, -⟩
    · exact h.producer (p, v) hv
    · exact h.producer e he
  · -- the infos are not touched
    have hp : (ss.setTransactionState p serial).producerEntities = ss.producerEntities := by
      simp only [producerEntities, allItems, ← map_eq_flatMap]
      exact map_update (g := fun ps : ProducerState => Entity.producer ps.info.producerId) fun _ => rfl
    refine keeps_of_eq ?_
    rw [entities, hp]
    rfl

end Wf

end SessionState

/-! ## Connections -/

namespace ConnectionState

def tempEntities (cs : ConnectionState) : List Entity :=
  cs.tempDestinations.map fun info => .tempDestination info.connectionId info.destination

def sessionEntities (cs : ConnectionState) : List Entity :=
  cs.sessions.allItems SessionState.entities

def entities (cs : ConnectionState) : List Entity :=
  .connection cs.info.connectionId :: (cs.tempEntities ++ cs.sessionEntities)

/-- The state of the connection `id`. -/
structure Wf (id : ConnectionId) (cs : ConnectionState) : Prop where
  info : cs.info.connectionId = id
  temp : ∀ info ∈ cs.tempDestinations, info.connectionId = id ∧
    info.destination.isTemporary = true ∧ info.operationType = .add
  temp_nodup : cs.tempEntities.Nodup
  sessions : StlMap.Wf SessionId.less (fun s => s.parentId = id) cs.sessions
  session : ∀ e ∈ cs.sessions, e.2.Wf e.1
  default : ∃ ss, (defaultSessionId id, ss) ∈ cs.sessions

variable {id : ConnectionId} {cs : ConnectionState}

theorem mem_entities {x : Entity} :
    x ∈ cs.entities ↔
      x = .connection cs.info.connectionId ∨ x ∈ cs.tempEntities ∨ x ∈ cs.sessionEntities := by
  simp [entities]

theorem entities_new (info : ConnectionInfo) :
    (new info).entities =
      [.connection info.connectionId, .session (defaultSessionId info.connectionId)] := rfl

theorem wf_new (info : ConnectionInfo) : (new info).Wf info.connectionId where
  info := rfl
  temp := by simp [new, addSession]
  temp_nodup := nodup_nil
  sessions := by
    have hkey : (defaultSessionId info.connectionId).parentId = info.connectionId := rfl
    exact wf_put (SessionId.orderedOn _) wf_nil hkey _
  session := by
    intro e he
    rw [mem_singleton.mp he]
    exact SessionState.wf_new ⟨0, defaultSessionId info.connectionId⟩
  default := ⟨_, mem_singleton.mpr rfl⟩

namespace Wf

variable (h : cs.Wf id)
include h

theorem owned_sessions : Owned SessionState.entities sessionId cs.sessions :=
  fun e he _ hx => (h.session e he).sessionId_eq hx

variable {x : Entity}

theorem mem_tempEntities (hx : x ∈ cs.tempEntities) : ∃ d, x = .tempDestination id d := by
  obtain ⟨info, hinfo, rfl⟩ := mem_map.mp hx
  rw [(h.temp info hinfo).1]
  exact ⟨_, rfl⟩

theorem sessionId_of_mem (hx : x ∈ cs.sessionEntities) :
    ∃ e ∈ cs.sessions, x ∈ e.2.entities ∧ x.sessionId = some e.1 := by
  obtain ⟨e, he, hxe⟩ := mem_allItems.mp hx
  exact ⟨e, he, hxe, h.owned_sessions e he x hxe⟩

/-- Its objects know the connection they belong to. -/
theorem connectionId_eq (hx : x ∈ cs.entities) : x.connectionId = id := by
  rcases mem_entities.mp hx with rfl | hx | hx
  · exact h.info
  · obtain ⟨d, rfl⟩ := h.mem_tempEntities hx
    rfl
  · obtain ⟨e, he, -, hsession⟩ := h.sessionId_of_mem hx
    rw [connectionId_of_sessionId hsession, h.sessions.keys e he]

theorem connection_mem : connection id ∈ cs.entities := by
  rw [mem_entities, h.info]
  exact .inl rfl

variable {sid : SessionId}

/-- An object of a session is found in the state of that session. -/
theorem mem_iff_of_sessionId (hx : x.sessionId = some sid) :
    x ∈ cs.entities ↔ ∃ ss, (sid, ss) ∈ cs.sessions ∧ x ∈ ss.entities := by
  rw [mem_entities]
  constructor
  · rintro (rfl | hx' | hx')
    · cases hx
    · obtain ⟨d, rfl⟩ := h.mem_tempEntities hx'
      cases hx
    · obtain ⟨e, he, hxe, hsession⟩ := h.sessionId_of_mem hx'
      rw [hx] at hsession
      cases hsession
      exact ⟨e.2, he, hxe⟩
  · intro ⟨ss, hss, hxs⟩
    exact .inr (.inr (mem_allItems.mpr ⟨_, hss, hxs⟩))

theorem session_mem_iff : Entity.session sid ∈ cs.entities ↔ ∃ ss, (sid, ss) ∈ cs.sessions := by
  rw [h.mem_iff_of_sessionId rfl]
  refine exists_congr fun ss => and_iff_left_of_imp ?_
  exact fun hss => (h.session _ hss).session_mem

theorem nodup_entities : cs.entities.Nodup := by
  have hs : cs.sessionEntities.Nodup :=
    nodup_allItems (SessionId.orderedOn id) h.sessions h.owned_sessions
      fun e he => (h.session e he).nodup_entities
  have htemp : ∀ x ∈ cs.tempEntities, x.sessionId = none ∧ x ≠ .connection id := by
    intro x hx
    obtain ⟨d, rfl⟩ := h.mem_tempEntities hx
    exact ⟨rfl, by simp⟩
  have hsession : ∀ x ∈ cs.sessionEntities, x.sessionId ≠ none := by
    intro x hx
    obtain ⟨e, -, -, hid⟩ := h.sessionId_of_mem hx
    rw [hid]
    simp
  rw [entities, nodup_cons, nodup_append]
  refine ⟨?_, h.temp_nodup, hs, ?_⟩
  · rw [h.info, mem_append]
    rintro (hx | hx)
    · exact (htemp _ hx).2 rfl
    · exact hsession _ hx rfl
  · rintro x hx _ hy rfl
    exact hsession x hy (htemp x hx).1

/-! What the operations do to a connection. -/

theorem addTempDestination {info : DestinationInfo} (hid : info.connectionId = id)
    (htemp : info.destination.isTemporary = true) (hadd : info.operationType = .add)
    (hnew : .tempDestination id info.destination ∉ cs.entities) :
    (cs.addTempDestination info).Wf id ∧
      Adds (.tempDestination id info.destination) cs.entities
        (cs.addTempDestination info).entities := by
  have happend : (cs.addTempDestination info).tempEntities =
      cs.tempEntities ++ [.tempDestination id info.destination] := by
    rw [← hid]
    exact map_append
  refine ⟨{ h with temp := ?_, temp_nodup := ?_ }, ?_⟩
  · intro info' hinfo'
    rcases mem_append.mp hinfo' with hold | hlast
    · exact h.temp info' hold
    · rw [mem_singleton.mp hlast]
      exact ⟨hid, htemp, hadd⟩
  · rw [happend]
    refine h.temp_nodup.append (nodup_singleton _) (disjoint_singleton.mpr ?_)
    intro hin
    exact hnew (mem_entities.mpr (.inr (.inl hin)))
  · intro x
    rw [mem_entities, mem_entities, happend, mem_append, mem_singleton]
    show x = .connection cs.info.connectionId ∨ _ ∨ x ∈ cs.sessionEntities ↔ _
    tauto

theorem addSession {info : SessionInfo} (hparent : info.sessionId.parentId = id)
    (hnew : .session info.sessionId ∉ cs.entities) :
    (cs.addSession info).Wf id ∧
      Adds (.session info.sessionId) cs.entities (cs.addSession info).entities := by
  have hord := SessionId.orderedOn id
  have hkey : ∀ v, (info.sessionId, v) ∉ cs.sessions := fun v hv =>
    hnew (h.session_mem_iff.mpr ⟨v, hv⟩)
  refine ⟨⟨h.info, h.temp, h.temp_nodup, wf_put hord h.sessions hparent _, ?_, ?_⟩, ?_⟩
  · intro e he
    rcases (mem_put hord h.sessions hparent).mp he with rfl | ⟨he, -⟩
    · exact SessionState.wf_new info
    · exact h.session e he
  · obtain ⟨ss, hss⟩ := h.default
    refine ⟨ss, (mem_put hord h.sessions hparent).mpr (.inr ⟨hss, ?_⟩)⟩
    intro (heq : defaultSessionId id = info.sessionId)
    rw [heq] at hss
    exact hkey ss hss
  · intro x
    have hs : x ∈ (cs.addSession info).sessionEntities ↔
        x ∈ (SessionState.new info).entities ∨ x ∈ cs.sessionEntities :=
      mem_allItems_put hord h.sessions hparent hkey
    rw [mem_entities, mem_entities, hs, show (SessionState.new info).entities =
      [.session info.sessionId] from rfl, mem_singleton]
    show x = .connection cs.info.connectionId ∨ x ∈ cs.tempEntities ∨ _ ↔ _
    tauto

theorem removeSession (hparent : sid.parentId = id) (hdefault : sid ≠ defaultSessionId id) :
    (cs.removeSession sid).Wf id ∧
      Drops (.session sid) cs.entities (cs.removeSession sid).entities := by
  have hord := SessionId.orderedOn id
  refine ⟨⟨h.info, h.temp, h.temp_nodup, wf_remove hord h.sessions hparent, ?_, ?_⟩, ?_⟩
  · intro e he
    exact h.session e ((mem_remove hord h.sessions hparent).mp he).1
  · obtain ⟨ss, hss⟩ := h.default
    exact ⟨ss, (mem_remove hord h.sessions hparent).mpr ⟨hss, hdefault.symm⟩⟩
  · refine drops_of fun x => ?_
    have hs : x ∈ (cs.removeSession sid).sessionEntities ↔
        x ∈ cs.sessionEntities ∧ x.sessionId ≠ some sid :=
      mem_allItems_remove hord h.sessions h.owned_sessions hparent
    have hc : x = .connection cs.info.connectionId → x.sessionId ≠ some sid := by
      rintro rfl
      simp [sessionId]
    have ht : x ∈ cs.tempEntities → x.sessionId ≠ some sid := by
      intro hx
      obtain ⟨d, rfl⟩ := h.mem_tempEntities hx
      simp [sessionId]
    rw [mem_entities, mem_entities, within_session]
    show x = .connection cs.info.connectionId ∨ x ∈ cs.tempEntities ∨ _ ↔ _
    tauto

/-- A change within one session. -/
theorem updateSession {ss : SessionState} {f : SessionState → SessionState}
    (hss : (sid, ss) ∈ cs.sessions) (hwf : (f ss).Wf sid) {G H : Entity → Prop}
    (halters : Alters G H ss.entities (f ss).entities) (hH : ∀ x, ¬ H x → x.sessionId = some sid) :
    (cs.updateSession sid f).Wf id ∧
      Alters G H cs.entities (cs.updateSession sid f).entities := by
  have hord := SessionId.orderedOn id
  have hparent : sid.parentId = id := h.sessions.keys _ hss
  refine ⟨⟨h.info, h.temp, h.temp_nodup, wf_update hord h.sessions hparent f, ?_, ?_⟩, ?_⟩
  · intro e he
    rcases (mem_update hord h.sessions hparent).mp he with ⟨v, hv, rfl⟩ | ⟨he, -⟩
    · obtain rfl := h.sessions.value_unique hord hss hv
      exact hwf
    · exact h.session e he
  · obtain ⟨sd, hsd⟩ := h.default
    by_cases heq : defaultSessionId id = sid
    · rw [heq] at hsd ⊢
      exact ⟨f sd, (mem_update hord h.sessions hparent).mpr (.inl ⟨sd, hsd, rfl⟩)⟩
    · exact ⟨sd, (mem_update hord h.sessions hparent).mpr (.inr ⟨hsd, heq⟩)⟩
  · intro x
    have hs : x ∈ (cs.updateSession sid f).sessionEntities ↔
        G x ∨ (x ∈ cs.sessionEntities ∧ H x) :=
      mem_allItems_update hord h.sessions h.owned_sessions hparent hss halters hH
    have hc : x = .connection cs.info.connectionId → H x := by
      rintro rfl
      by_contra hno
      exact absurd (hH _ hno) (by simp [sessionId])
    have ht : x ∈ cs.tempEntities → H x := by
      intro hx
      obtain ⟨d, rfl⟩ := h.mem_tempEntities hx
      by_contra hno
      exact absurd (hH _ hno) (by simp [sessionId])
    rw [mem_entities, mem_entities]
    show x = .connection cs.info.connectionId ∨ x ∈ cs.tempEntities ∨ _ ↔ _
    tauto

end Wf

end ConnectionState

end ActivemqCpp.State
