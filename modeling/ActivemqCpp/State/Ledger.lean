import ActivemqCpp.State.Following

/-!
# The ledger of the local transactions

What a client has done in its local transactions, kept apart from the tracker: the
commands of every open transaction, oldest first, and the transaction that each producer
last sent in. `Books` ties the tracked state of a connection to it:

* **commands** — an open transaction is filed with exactly its commands;
* **pointers** — a producer points to the transaction that it last sent in;
* **cover** — the producer of every message is live, or held by the transaction.

Each operation of the tracker is shown to keep the books. Only two can leave a message
uncovered: the removal of a producer hands it to the one transaction that it points to,
and the removal of a session hands nobody over.
-/

namespace ActivemqCpp.State

open Decaf Commands List Function StlMap
open LocalTransactionId (less orderedOn)

/-- The producer of a message. -/
def TransactionCommand.sender : TransactionCommand → Option ProducerId
  | .message m => some m.producerId
  | .info _ => none

structure Ledger where
  /-- The commands of the open transactions. -/
  transactions : LocalTransactionId → Option (List TransactionCommand)
  /-- All ids under which a transaction was begun. -/
  begun : Finset LocalTransactionId
  last : ProducerId → Option LocalTransactionId

namespace Ledger

def new : Ledger := ⟨fun _ => none, ∅, fun _ => none⟩

/-- A transaction opens with its `begin`. -/
def opens (id : LocalTransactionId) (info : TransactionInfo) (l : Ledger) : Ledger :=
  { l with
    transactions := update l.transactions id (some [.info info])
    begun := insert id l.begun }

/-- A further command of an open transaction. -/
def adds (id : LocalTransactionId) (c : TransactionCommand) (l : Ledger) : Ledger :=
  { l with
    transactions := update l.transactions id ((l.transactions id).map (· ++ [c])) }

/-- A message in an open transaction. -/
def sends (id : LocalTransactionId) (m : Message) (l : Ledger) : Ledger :=
  if (l.transactions id).isSome then
    { l.adds id (.message m) with last := update l.last m.producerId (some id) }
  else l

def closes (id : LocalTransactionId) (l : Ledger) : Ledger :=
  { l with transactions := update l.transactions id none }

/-- The transactions of a connection go with it. -/
def closesConnection (id : ConnectionId) (l : Ledger) : Ledger :=
  { l with transactions := fun tid => if tid.connectionId = id then none else l.transactions tid }

/-- The commands of a transaction; none when it is not open. -/
def log (l : Ledger) (id : LocalTransactionId) : List TransactionCommand :=
  (l.transactions id).getD []

/-- The producers that the transaction has messages of. -/
def senders (l : Ledger) (id : LocalTransactionId) : List ProducerId :=
  (l.log id).filterMap TransactionCommand.sender

/-- The ledgers agree on a connection. -/
structure AgreesOn (id : ConnectionId) (l l' : Ledger) : Prop where
  transactions : ∀ tid : LocalTransactionId, tid.connectionId = id →
    l'.transactions tid = l.transactions tid
  last : ∀ p : ProducerId, p.parentId.parentId = id → l'.last p = l.last p

variable {l : Ledger} {id : ConnectionId} {tid : LocalTransactionId}

/-- Nothing is added to a transaction that is not open. -/
theorem adds_of_none (h : l.transactions tid = none) (c : TransactionCommand) :
    l.adds tid c = l := by
  have hsame : update l.transactions tid ((l.transactions tid).map (· ++ [c])) =
      l.transactions := by
    rw [h, Option.map_none, ← h, update_eq_self]
  rw [adds, hsame]

theorem sends_of_none (h : l.transactions tid = none) (m : Message) : l.sends tid m = l := by
  rw [sends, h]
  rfl

/-! Other transactions stay. -/

variable {other : LocalTransactionId}

theorem opens_of_ne (hne : other ≠ tid) (info : TransactionInfo) :
    (l.opens tid info).transactions other = l.transactions other := update_of_ne hne _ _

theorem adds_of_ne (hne : other ≠ tid) (c : TransactionCommand) :
    (l.adds tid c).transactions other = l.transactions other := update_of_ne hne _ _

theorem closes_of_ne (hne : other ≠ tid) :
    (l.closes tid).transactions other = l.transactions other := update_of_ne hne _ _

variable (hne : tid.connectionId ≠ id)
include hne

theorem closesConnection_of_ne :
    (l.closesConnection id).transactions tid = l.transactions tid := if_neg hne

theorem agreesOn_of_transactions
    (v : Option (List TransactionCommand)) (begun : Finset LocalTransactionId) :
    l.AgreesOn id { l with transactions := update l.transactions tid v, begun } := by
  refine ⟨?_, fun _ _ => rfl⟩
  intro other hother
  apply update_of_ne
  rintro rfl
  exact hne hother

theorem agreesOn_sends {m : Message} (hm : m.producerId.parentId.parentId = tid.connectionId) :
    l.AgreesOn id (l.sends tid m) := by
  unfold sends
  split
  · refine ⟨(agreesOn_of_transactions hne _ l.begun).transactions, ?_⟩
    intro p hp
    apply update_of_ne
    rintro rfl
    exact hne (hm.symm.trans hp)
  · exact ⟨fun _ _ => rfl, fun _ _ => rfl⟩

end Ledger

/-- A transaction files the producers that it holds under their ids. -/
structure TransactionState.HoldersWf (id : ConnectionId) (tx : TransactionState) : Prop where
  producers : Wf ProducerId.less (fun p => p.parentId.parentId = id) tx.producers
  producer : ∀ p ∈ tx.producers, p.2.info.producerId = p.1

namespace ConnectionState

/-- A producer with its state, in one of the sessions. -/
def HasProducer (cs : ConnectionState) (p : ProducerId × ProducerState) : Prop :=
  ∃ s ∈ cs.sessions, p ∈ s.2.producers

/-- The books of a connection, next to the live objects of the broker. -/
structure Books (id : ConnectionId) (l : Ledger) (live : Finset Entity)
    (cs : ConnectionState) : Prop where
  keys : StlMap.Wf less (fun tid => tid.connectionId = id) cs.transactions
  commands : ∀ e ∈ cs.transactions, l.transactions e.1 = some e.2.commands
  complete : ∀ tid : LocalTransactionId, tid.connectionId = id → l.transactions tid ≠ none →
    ∃ tx, (tid, tx) ∈ cs.transactions
  pointers : ∀ p, cs.HasProducer p → ∀ e ∈ cs.transactions, l.last p.1 = some e.1 →
    p.2.transactionState = some e.2.serial
  covers : ∀ e ∈ cs.transactions, ∀ m, .message m ∈ e.2.commands →
    .producer m.producerId ∈ live ∨ .producer m.producerId ∈ e.2.held
  holders : ∀ e ∈ cs.transactions, e.2.HoldersWf id

variable {id : ConnectionId} {l : Ledger} {live live' : Finset Entity} {cs cs' : ConnectionState}
  {p : ProducerId × ProducerState}

theorem Wf.key_of_hasProducer (h : cs.Wf id)
    (hp : cs.HasProducer p) : p.1.parentId.parentId = id := by
  obtain ⟨s, hs, hin⟩ := hp
  rw [(h.session s hs).producers.keys p hin]
  exact h.sessions.keys s hs

variable (h : cs.Books id l live) {sid : SessionId}

/-- A new connection has no transaction and no producer. -/
theorem books_new (info : ConnectionInfo)
    (hnone : ∀ tid : LocalTransactionId, tid.connectionId = info.connectionId →
      l.transactions tid = none) : (new info).Books info.connectionId l live where
  keys := StlMap.wf_nil
  commands := fun _ he => absurd he not_mem_nil
  complete := fun tid htid hopen => absurd (hnone tid htid) hopen
  pointers := fun _ _ _ he => absurd he not_mem_nil
  covers := fun _ he => absurd he not_mem_nil
  holders := fun _ he => absurd he not_mem_nil

theorem hasProducer_updateSession (hp : (cs.updateSession sid f).HasProducer p) :
    cs.HasProducer p ∨ ∃ ss, (∃ k, (k, ss) ∈ cs.sessions) ∧ p ∈ (f ss).producers := by
  obtain ⟨s, hs, hin⟩ := hp
  rcases mem_of_mem_update hs with hold | ⟨ss, -, hold, heq⟩
  · exact .inl ⟨s, hold, hin⟩
  · rw [heq] at hin
    exact .inr ⟨ss, ⟨_, hold⟩, hin⟩

/-- A change within a session after which no producer of it is new. -/
theorem hasProducer_of_updateSession (hf : ∀ ss, ∀ p ∈ (f ss).producers, p ∈ ss.producers)
    (hp : (cs.updateSession sid f).HasProducer p) : cs.HasProducer p := by
  rcases hasProducer_updateSession hp with hold | ⟨ss, ⟨k, hk⟩, hin⟩
  · exact hold
  · exact ⟨(k, ss), hk, hf ss p hin⟩

include h

/-- The books of a connection do not depend on what others do. -/
theorem Books.of_agrees (hwf : cs.Wf id) {l' : Ledger}
    (hagrees : l.AgreesOn id l') : cs.Books id l' live := by
  refine { h with commands := ?_, complete := ?_, pointers := ?_ }
  · intro e he
    rw [hagrees.transactions e.1 (h.keys.keys e he)]
    exact h.commands e he
  · intro tid htid hopen
    apply h.complete tid htid
    rwa [hagrees.transactions tid htid] at hopen
  · intro p hp e he hlast
    rw [hagrees.last p.1 (hwf.key_of_hasProducer hp)] at hlast
    exact h.pointers p hp e he hlast

/-- The producers that the open transactions have messages of may not go. -/
theorem Books.of_live
    (hlive : ∀ tid : LocalTransactionId, tid.connectionId = id → ∀ p ∈ l.senders tid,
      .producer p ∈ live → .producer p ∈ live') : cs.Books id l live' := by
  refine { h with covers := ?_ }
  intro e he m hm
  apply (h.covers e he m hm).imp_left
  apply hlive e.1 (h.keys.keys e he)
  rw [Ledger.senders, Ledger.log, h.commands e he]
  exact mem_filterMap.mpr ⟨_, hm, rfl⟩

/-- The sessions change, the transactions stay, and no producer comes with a past. -/
theorem Books.of_sessions (htx : cs'.transactions = cs.transactions)
    (hproducers : ∀ p, cs'.HasProducer p → cs.HasProducer p ∨ l.last p.1 = none) :
    cs'.Books id l live := by
  refine ⟨?_, ?_, ?_, ?_, ?_, ?_⟩ <;> rw [htx]
  · exact h.keys
  · exact h.commands
  · exact h.complete
  · intro p hp e he hlast
    rcases hproducers p hp with hold | hnone
    · exact h.pointers p hold e he hlast
    · rw [hnone] at hlast
      cases hlast
  · exact h.covers
  · exact h.holders

variable {f : SessionState → SessionState}

/-! ## Commands of a transaction -/

variable {tid : LocalTransactionId} (htid : tid.connectionId = id)

/-- A producer's pointer moves to the transaction of its message. -/
theorem Books.setTransactionState (hwf : cs.Wf id) {m : Message}
    (hm : m.producerId.parentId.parentId = id) (he : e ∈ cs.transactions) :
    (cs.updateSession m.producerId.parentId
      (.setTransactionState m.producerId e.2.serial)).Books id
        { l with last := update l.last m.producerId (some e.1) } live := by
  refine { h with pointers := ?_ }
  · intro p hp e' he' hlast
    -- the producer of the message has the new pointer, every other its old one
    have hcases : (p.1 = m.producerId ∧ p.2.transactionState = some e.2.serial) ∨
        (p.1 ≠ m.producerId ∧ cs.HasProducer p) := by
      obtain ⟨s, hs, hin⟩ := hp
      rcases (StlMap.mem_update (SessionId.orderedOn id) hwf.sessions hm).mp hs with
        ⟨ss, hss, rfl⟩ | ⟨hold, hne⟩
      · rcases (StlMap.mem_update (ProducerId.orderedOn _) (hwf.session _ hss).producers
          rfl).mp hin with ⟨ps, -, rfl⟩ | ⟨hin, hne⟩
        · exact .inl ⟨rfl, rfl⟩
        · exact .inr ⟨hne, _, hss, hin⟩
      · refine .inr ⟨?_, s, hold, hin⟩
        intro heq
        apply hne
        rw [← (hwf.session s hold).producers.keys p hin, heq]
    rcases hcases with ⟨heq, hpoints⟩ | ⟨hne, hold⟩
    · have hid : e.1 = e'.1 := by
        have hself : update l.last m.producerId (some e.1) m.producerId = some e.1 :=
          update_self ..
        rw [heq] at hlast
        exact Option.some.inj (hself.symm.trans hlast)
      have hsame : e.2 = e'.2 := by
        apply h.keys.value_unique (orderedOn id) he
        rw [hid]
        exact he'
      rwa [← hsame]
    · apply h.pointers p hold e' he'
      exact (update_of_ne hne _ _).symm.trans hlast

include htid

theorem Books.begin (info : TransactionInfo)
    (hfresh : l.transactions tid = none) (hlast : ∀ p, l.last p ≠ some tid) :
    ((cs.addTransactionState tid).updateTransaction tid (.addCommand (.info info))).Books id
      (l.opens tid info) live := by
  have hord := orderedOn id
  have hmem : ∀ e, e ∈ cs.transactions.put less tid
      ⟨cs.nextSerial, [.info info], []⟩ ↔
        e = (tid, ⟨cs.nextSerial, [.info info], []⟩) ∨ (e ∈ cs.transactions ∧ e.1 ≠ tid) :=
    fun _ => StlMap.mem_put hord h.keys htid
  refine ⟨?_, ?_, ?_, ?_, ?_, ?_⟩ <;> rw [transactions_begin]
  · exact StlMap.wf_put hord h.keys htid _
  · intro e he
    rcases (hmem e).mp he with rfl | ⟨hold, hne⟩
    · exact update_self ..
    · rw [Ledger.opens_of_ne hne]
      exact h.commands e hold
  · intro other hother hopen
    by_cases heq : other = tid
    · subst heq
      exact ⟨_, (hmem _).mpr (.inl rfl)⟩
    · rw [Ledger.opens_of_ne heq] at hopen
      obtain ⟨tx, htx⟩ := h.complete other hother hopen
      exact ⟨tx, (hmem _).mpr (.inr ⟨htx, heq⟩)⟩
  · intro p hp e he hpoints
    rcases (hmem e).mp he with rfl | ⟨hold, -⟩
    · exact absurd hpoints (hlast p.1)
    · exact h.pointers p hp e hold hpoints
  · intro e he m hm
    rcases (hmem e).mp he with rfl | ⟨hold, -⟩
    · exact absurd (mem_singleton.mp hm) (by simp)
    · exact h.covers e hold m hm
  · intro e he
    rcases (hmem e).mp he with rfl | ⟨hold, -⟩
    · exact ⟨StlMap.wf_nil, fun _ hp => absurd hp not_mem_nil⟩
    · exact h.holders e hold

variable {e : LocalTransactionId × TransactionState}

/-- What adding a command leaves under each key. -/
theorem Books.mem_addCommand (c : TransactionCommand) :
    e ∈ (cs.updateTransaction tid (.addCommand c)).transactions ↔
      (∃ tx, (tid, tx) ∈ cs.transactions ∧ e = (tid, tx.addCommand c)) ∨
        (e ∈ cs.transactions ∧ e.1 ≠ tid) :=
  mem_update (orderedOn id) h.keys htid

/-- A further command. The message's producer has to be live. -/
theorem Books.addCommand
    (c : TransactionCommand) (hc : ∀ m, c = .message m → .producer m.producerId ∈ live) :
    (cs.updateTransaction tid (.addCommand c)).Books id (l.adds tid c) live := by
  have hmem := fun e => h.mem_addCommand htid c (e := e)
  refine ⟨?_, ?_, ?_, ?_, ?_, ?_⟩
  · exact StlMap.wf_update (orderedOn id) h.keys htid _
  · intro e he
    rcases (hmem e).mp he with ⟨tx, htx, rfl⟩ | ⟨hold, hne⟩
    · show update l.transactions tid _ tid = some (tx.commands ++ [c])
      rw [update_self, h.commands _ htx]
      rfl
    · rw [Ledger.adds_of_ne hne]
      exact h.commands e hold
  · intro other hother hopen
    by_cases heq : other = tid
    · subst heq
      have hopen' : l.transactions other ≠ none := by
        intro hnone
        rw [Ledger.adds_of_none hnone] at hopen
        exact hopen hnone
      obtain ⟨tx, htx⟩ := h.complete other hother hopen'
      exact ⟨_, (hmem _).mpr (.inl ⟨tx, htx, rfl⟩)⟩
    · rw [Ledger.adds_of_ne heq] at hopen
      obtain ⟨tx, htx⟩ := h.complete other hother hopen
      exact ⟨tx, (hmem _).mpr (.inr ⟨htx, heq⟩)⟩
  · intro p hp e he hlast
    rcases (hmem e).mp he with ⟨tx, htx, rfl⟩ | ⟨hold, -⟩
    · exact h.pointers p hp (tid, tx) htx hlast
    · exact h.pointers p hp e hold hlast
  · intro e he m hm
    rcases (hmem e).mp he with ⟨tx, htx, rfl⟩ | ⟨hold, -⟩
    · rcases mem_append.mp hm with hm | hm
      · exact h.covers _ htx m hm
      · exact .inl (hc m (mem_singleton.mp hm).symm)
    · exact h.covers e hold m hm
  · intro e he
    rcases (hmem e).mp he with ⟨tx, htx, rfl⟩ | ⟨hold, -⟩
    · exact ⟨(h.holders _ htx).producers, (h.holders _ htx).producer⟩
    · exact h.holders e hold

theorem Books.removeTransaction : (cs.removeTransactionState tid).Books id (l.closes tid) live := by
  have hord := orderedOn id
  have hmem : ∀ e, e ∈ (cs.removeTransactionState tid).transactions ↔
      e ∈ cs.transactions ∧ e.1 ≠ tid := fun _ => StlMap.mem_remove hord h.keys htid
  refine ⟨StlMap.wf_remove hord h.keys htid, ?_, ?_, ?_, ?_, ?_⟩
  · intro e he
    obtain ⟨hold, hne⟩ := (hmem e).mp he
    rw [Ledger.closes_of_ne hne]
    exact h.commands e hold
  · intro other hother hopen
    have hne : other ≠ tid := by
      rintro rfl
      exact hopen (update_self ..)
    rw [Ledger.closes_of_ne hne] at hopen
    obtain ⟨tx, htx⟩ := h.complete other hother hopen
    exact ⟨tx, (hmem _).mpr ⟨htx, hne⟩⟩
  · intro p hp e he hlast
    exact h.pointers p hp e ((hmem e).mp he).1 hlast
  · intro e he m hm
    exact h.covers e ((hmem e).mp he).1 m hm
  · intro e he
    exact h.holders e ((hmem e).mp he).1

/-! ## The removal of a producer -/

omit htid h

/-- What a transaction is after the removal of a producer. -/
def handed (producer : ProducerState) (tx : TransactionState) : TransactionState :=
  if producer.transactionState = some tx.serial then tx.addProducerState producer else tx

theorem transactions_handOver (cs : ConnectionState) (producer : ProducerState) :
    (cs.handOver producer).transactions =
      cs.transactions.map fun e => (e.1, handed producer e.2) := by
  unfold handOver handed
  split
  · next hnone =>
    simp only [hnone]
    exact (map_id _).symm
  · next serial hserial =>
    apply map_congr_left
    intro e _
    simp only [hserial, Option.some.injEq, eq_comm]
    split <;> rfl

theorem handed_commands (producer : ProducerState) (tx : TransactionState) :
    (handed producer tx).commands = tx.commands := by
  unfold handed
  split <;> rfl

theorem handed_serial (producer : ProducerState) (tx : TransactionState) :
    (handed producer tx).serial = tx.serial := by
  unfold handed
  split <;> rfl

variable {producer : ProducerState} {tx : TransactionState}
  (hid : producer.info.producerId.parentId.parentId = id)
include hid

theorem holdersWf_handed (h : tx.HoldersWf id) : (handed producer tx).HoldersWf id := by
  have hord := ProducerId.orderedOn_connection id
  unfold handed
  split
  · refine ⟨wf_put hord h.producers hid _, ?_⟩
    intro p hp
    rcases (mem_put hord h.producers hid).mp hp with rfl | ⟨hold, -⟩
    · rfl
    · exact h.producer p hold
  · exact h

/-- Whoever is held stays so. -/
theorem held_subset_handed (h : tx.HoldersWf id) {x : Entity}
    (hx : x ∈ tx.held) : x ∈ (handed producer tx).held := by
  obtain ⟨p, hp, rfl⟩ := mem_map.mp hx
  have hmem : ∀ q, q ∈ tx.producers.put ProducerId.less producer.info.producerId
      { producer with transactionState := none } ↔ q = (producer.info.producerId, _) ∨
        (q ∈ tx.producers ∧ q.1 ≠ producer.info.producerId) :=
    fun _ => mem_put (ProducerId.orderedOn_connection id) h.producers hid
  unfold handed
  split
  · by_cases heq : p.1 = producer.info.producerId
    · rw [h.producer p hp, heq]
      exact mem_map.mpr ⟨_, (hmem _).mpr (.inl rfl), rfl⟩
    · exact mem_map.mpr ⟨p, (hmem p).mpr (.inr ⟨hp, heq⟩), rfl⟩
  · exact hx

omit hid

/-- The transaction that the producer points to holds it from then on. -/
theorem mem_held_handed (hpoints : producer.transactionState = some tx.serial) :
    .producer producer.info.producerId ∈ (handed producer tx).held := by
  have hirrefl : ProducerId.less producer.info.producerId producer.info.producerId = false :=
    (ProducerId.orderedOn _).irrefl rfl
  have hfind : (tx.addProducerState producer).producers.find ProducerId.less
      producer.info.producerId = some { producer with transactionState := none } :=
    find_put_self hirrefl
  obtain ⟨k, hk⟩ := mem_of_find hfind
  rw [handed, if_pos hpoints]
  exact mem_map.mpr ⟨_, hk, rfl⟩

include h

/-- The removal of a producer whose messages in open transactions are all in the one
that it last sent in. -/
theorem Books.removeProducer (hwf : cs.Wf id) {p : ProducerId}
    {ss : SessionState} (hss : (p.parentId, ss) ∈ cs.sessions) {ps : ProducerState}
    (hps : (p, ps) ∈ ss.producers)
    (hlive : ∀ x ∈ live, x ≠ .producer p → x ∈ live')
    (hlast : ∀ e ∈ cs.transactions, ∀ m, .message m ∈ e.2.commands → m.producerId = p →
      l.last p = some e.1) : (cs.removeProducer p ss).Books id l live' := by
  have hsession := hwf.session _ hss
  have hinfo : ps.info.producerId = p := hsession.producer _ hps
  have hid : ps.info.producerId.parentId.parentId = id := by
    rw [hinfo]
    exact hwf.sessions.keys _ hss
  have hremove : cs.removeProducer p ss =
      (cs.updateSession p.parentId (.dropProducer p)).handOver ps := by
    rw [ConnectionState.removeProducer,
      (StlMap.find_eq_some_iff (ProducerId.orderedOn _) hsession.producers rfl).mpr hps]
  have htx : (cs.removeProducer p ss).transactions =
      cs.transactions.map fun e => (e.1, handed ps e.2) := by
    rw [hremove, transactions_handOver]
    rfl
  have hproducers : ∀ q, (cs.removeProducer p ss).HasProducer q → cs.HasProducer q := by
    intro q hq
    rw [hremove, HasProducer, (handOver_sessions _ ps).1] at hq
    exact hasProducer_of_updateSession (fun ss' q' hq' => StlMap.remove_sublist.subset hq') hq
  refine ⟨?_, ?_, ?_, ?_, ?_, ?_⟩ <;> rw [htx]
  · exact ⟨forall_mem_map.mpr h.keys.keys, pairwise_map.mpr h.keys.sorted⟩
  · rw [forall_mem_map]
    intro e he
    rw [handed_commands]
    exact h.commands e he
  · intro tid htid hopen
    obtain ⟨tx, hin⟩ := h.complete tid htid hopen
    exact ⟨_, mem_map.mpr ⟨_, hin, rfl⟩⟩
  · intro q hq
    rw [forall_mem_map]
    intro e he hpoints
    rw [handed_serial]
    exact h.pointers q (hproducers q hq) e he hpoints
  · rw [forall_mem_map]
    intro e he m hm
    rw [handed_commands] at hm
    rcases h.covers e he m hm with hin | hheld
    · by_cases heq : m.producerId = p
      · -- the producer goes, and its transaction takes it over
        have hpoints := h.pointers _ ⟨_, hss, hps⟩ e he (hlast e he m hm heq)
        rw [heq, ← hinfo]
        exact .inr (mem_held_handed hpoints)
      · exact .inl (hlive _ hin fun hp => heq (Entity.producer.inj hp))
    · exact .inr (held_subset_handed hid (h.holders e he) hheld)
  · rw [forall_mem_map]
    intro e he
    exact holdersWf_handed hid (h.holders e he)

end ConnectionState

end ActivemqCpp.State
