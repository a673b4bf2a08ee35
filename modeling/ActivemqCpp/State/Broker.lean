import ActivemqCpp.State.ConnectionStateTracker

/-!
# What a broker holds for its clients

The broker as the client's commands build it up: a set of connections, temporary
destinations, sessions, producers and consumers. An object is announced below its
parent and goes with it; every connection comes with its default session.

`Rebuilds live sent` says what a replay is for: run against an empty broker, the
commands announce every live object once, parents first, and leave exactly the live
objects behind.
-/

namespace ActivemqCpp.State

open Commands

/-- An object that the broker holds for a client. -/
inductive Entity where
  | connection (id : ConnectionId)
  | tempDestination (connectionId : ConnectionId) (destination : Destination)
  | session (id : SessionId)
  | producer (id : ProducerId)
  | consumer (id : ConsumerId)
deriving DecidableEq, Repr

namespace Entity

/-- The object below which it was announced. -/
def parent : Entity → Option Entity
  | .connection _ => none
  | .tempDestination id _ => some (.connection id)
  | .session id => some (.connection id.parentId)
  | .producer id => some (.session id.parentId)
  | .consumer id => some (.session id.parentId)

/-- The connection it belongs to. -/
def connectionId : Entity → ConnectionId
  | .connection id => id
  | .tempDestination id _ => id
  | .session id => id.parentId
  | .producer id => id.parentId.parentId
  | .consumer id => id.parentId.parentId

/-- It is `e` or lies below it. -/
def Within (x e : Entity) : Prop :=
  x = e ∨ x.parent = some e ∨ x.parent.bind parent = some e

instance (x e : Entity) : Decidable (Within x e) := by
  unfold Within
  infer_instance

/-- The default session of a connection comes and goes with it. -/
def IsDefaultSession : Entity → Prop
  | .session id => id.value = -1
  | _ => False

instance (e : Entity) : Decidable e.IsDefaultSession := by
  cases e <;> unfold IsDefaultSession <;> infer_instance

theorem connectionId_of_parent {x e : Entity} (h : x.parent = some e) :
    x.connectionId = e.connectionId := by
  cases x <;> simp only [parent, reduceCtorEq, Option.some.injEq] at h <;> subst h <;> rfl

theorem Within.connectionId_eq {x e : Entity} (h : x.Within e) :
    x.connectionId = e.connectionId := by
  rcases h with rfl | h | h
  · rfl
  · exact connectionId_of_parent h
  · obtain ⟨y, hy, hye⟩ := Option.bind_eq_some_iff.mp h
    exact (connectionId_of_parent hy).trans (connectionId_of_parent hye)

end Entity

/-- The object that a command announces. -/
def announces : Command → Option Entity
  | .connectionInfo info => some (.connection info.connectionId)
  | .sessionInfo info => some (.session info.sessionId)
  | .producerInfo info => some (.producer info.producerId)
  | .consumerInfo info => some (.consumer info.consumerId)
  | .destinationInfo info =>
    if info.destination.isTemporary ∧ info.operationType = .add then
      some (.tempDestination info.connectionId info.destination)
    else none
  | _ => none

/-- The object that a command removes. -/
def withdraws : Command → Option Entity
  | .removeInfo info =>
    match info.objectId with
    | .connection id => some (.connection id)
    | .session id => some (.session id)
    | .consumer id => some (.consumer id)
    | .producer id => some (.producer id)
    | .other => none
  | .destinationInfo info =>
    if info.destination.isTemporary ∧ info.operationType = .remove then
      some (.tempDestination info.connectionId info.destination)
    else none
  | _ => none

/-- The objects that come into being with an announcement. -/
def creates : Entity → Finset Entity
  | .connection id =>
    { .connection id, .session (ConnectionState.defaultSessionId id) }
  | e => { e }

/-- The broker takes a command. -/
def takes (live : Finset Entity) (command : Command) : Finset Entity :=
  match announces command with
  | some e => live ∪ creates e
  | none =>
    match withdraws command with
    | some e => live.filter fun x => ¬ x.Within e
    | none => live

/-- The broker hears what is sent to it. -/
def hears (live : Finset Entity) : Sent → Finset Entity
  | .oneway command => takes live command
  | .onCommand _ => live

def Sent.announced : Sent → Option Entity
  | .oneway command => announces command
  | .onCommand _ => none

def Sent.withdrawn : Sent → Option Entity
  | .oneway command => withdraws command
  | .onCommand _ => none

/-- What a producer that is no longer live may be announced for: a message of its own in
a transaction that is replayed, after which it is removed again. -/
def ServesReplay (e : Entity) (post : List Sent) : Prop :=
  ∃ id replayed after, e = .producer id ∧ post = replayed ++ after ∧
    (∃ m, m.producerId = id ∧ m.transactionId ≠ none ∧ .oneway (.message m) ∈ replayed) ∧
      ∃ c ∈ after, c.withdrawn = some e

/-- The commands `sent` rebuild the objects `live` on an empty broker. -/
structure Rebuilds (live : Finset Entity) (sent : List Sent) : Prop where
  once : ∀ e ∈ live, (sent.filterMap Sent.announced).count e = 1
  /-- Only producers of replayed transactions are announced besides. -/
  others : ∀ pre c post e, sent = pre ++ c :: post → c.announced = some e → e ∉ live →
    ServesReplay e post
  parents : ∀ pre c post e p, sent = pre ++ c :: post → c.announced = some e → e ∈ live →
    e.parent = some p → p ∈ pre.filterMap Sent.announced
  result : sent.foldl hears ∅ = live

end ActivemqCpp.State
