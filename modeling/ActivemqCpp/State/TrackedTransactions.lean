import ActivemqCpp.State.TrackedObjects

/-!
# The transactions in the tracked state

A producer that sent in an open transaction points to its state. When the producer is
removed, the transaction takes it over, and announces it again when it is replayed.
`Serves` is the invariant behind that: whoever a transaction holds, or would be handed,
has a message among its commands.
-/

namespace ActivemqCpp.State

open Decaf Commands List StlMap

/-- The transaction has a message of the producer. -/
def SentIn (id : ProducerId) (tx : TransactionState) : Prop :=
  ∃ m, m.producerId = id ∧ m.transactionId ≠ none ∧ .message m ∈ tx.commands

variable {tx : TransactionState}

theorem SentIn.addCommand {id : ProducerId} (h : SentIn id tx)
    (c : TransactionCommand) : SentIn id (tx.addCommand c) := by
  obtain ⟨m, hid, htx, hm⟩ := h
  exact ⟨m, hid, htx, mem_append_left _ hm⟩

/-- The producers that a transaction holds. -/
def TransactionState.held (tx : TransactionState) : List Entity :=
  tx.producers.map fun p => .producer p.2.info.producerId

/-- A producer of the session points to the transaction state with number `n`. -/
def SessionState.PointsTo (ss : SessionState) (id : ProducerId) (n : Nat) : Prop :=
  ∃ p ∈ ss.producers, p.2.info.producerId = id ∧ p.2.transactionState = some n

namespace ConnectionState

def PointsTo (cs : ConnectionState) (id : ProducerId) (n : Nat) : Prop :=
  ∃ s ∈ cs.sessions, s.2.PointsTo id n

def held (cs : ConnectionState) : List Entity := cs.transactions.flatMap fun e => e.2.held

structure Serves (cs : ConnectionState) : Prop where
  commands : ∀ e ∈ cs.transactions, e.2.commands ≠ []
  serials : (cs.transactions.map fun e => e.2.serial).Nodup
  serial_lt : ∀ e ∈ cs.transactions, e.2.serial < cs.nextSerial
  held : ∀ e ∈ cs.transactions, ∀ p ∈ e.2.producers, SentIn p.2.info.producerId e.2
  pointers : ∀ id n, cs.PointsTo id n → n < cs.nextSerial ∧
    ∀ e ∈ cs.transactions, e.2.serial = n → SentIn id e.2

variable {cs cs' : ConnectionState}

theorem serves_new (info : ConnectionInfo) : (new info).Serves where
  commands := by simp [new, addSession]
  serials := nodup_nil
  serial_lt := by simp [new, addSession]
  held := by simp [new, addSession]
  pointers := by
    rintro id n ⟨s, hs, p, hp, -⟩
    rw [mem_singleton.mp hs] at hp
    cases hp

/-- The sessions may change as long as no producer points anew. -/
theorem Serves.of_sessions (h : cs.Serves) (htx : cs'.transactions = cs.transactions)
    (hnext : cs'.nextSerial = cs.nextSerial)
    (hpoints : ∀ id n, cs'.PointsTo id n → cs.PointsTo id n) : cs'.Serves := by
  refine ⟨?_, ?_, ?_, ?_, ?_⟩
  · rw [htx]
    exact h.commands
  · rw [htx]
    exact h.serials
  · rw [htx, hnext]
    exact h.serial_lt
  · rw [htx]
    exact h.held
  · rw [htx, hnext]
    intro id n hid
    exact h.pointers id n (hpoints id n hid)

variable {sid : SessionId} {f : SessionState → SessionState} {ss : SessionState} {n : Nat}

theorem pointsTo_updateSession {id : ProducerId}
    (h : (cs.updateSession sid f).PointsTo id n) : cs.PointsTo id n ∨
      ∃ ss, (cs.sessions.find SessionId.less sid) = some ss ∧ (f ss).PointsTo id n := by
  obtain ⟨s, hs, hp⟩ := h
  rcases mem_of_mem_update hs with hold | ⟨ss, hfind, -, heq⟩
  · exact .inl ⟨s, hold, hp⟩
  · rw [heq] at hp
    exact .inr ⟨ss, hfind, hp⟩

theorem pointsTo_of_find {id : ProducerId}
    (hfind : cs.sessions.find SessionId.less sid = some ss) (h : ss.PointsTo id n) :
    cs.PointsTo id n := by
  obtain ⟨k, hk⟩ := mem_of_find hfind
  exact ⟨(k, ss), hk, h⟩

/-- A change within a session after which no producer of it points anew. -/
theorem Serves.updateSession (h : cs.Serves)
    (hf : ∀ ss id n, (f ss).PointsTo id n → ss.PointsTo id n) :
    (cs.updateSession sid f).Serves := by
  refine h.of_sessions rfl rfl ?_
  intro id n hid
  rcases pointsTo_updateSession hid with hold | ⟨ss, hfind, hnew⟩
  · exact hold
  · exact pointsTo_of_find hfind (hf ss id n hnew)

theorem pointsTo_addProducer (info : ProducerInfo) (ss : SessionState) (id : ProducerId) (n : Nat)
    (h : (ss.addProducer info).PointsTo id n) : ss.PointsTo id n := by
  obtain ⟨p, hp, hid, hn⟩ := h
  rcases mem_of_mem_put hp with hnew | hold
  · rw [hnew] at hn
    cases hn
  · exact ⟨p, hold, hid, hn⟩

theorem pointsTo_dropProducer (drop : ProducerId) (ss : SessionState) (id : ProducerId) (n : Nat)
    (h : (ss.dropProducer drop).PointsTo id n) : ss.PointsTo id n := by
  obtain ⟨p, hp, hid, hn⟩ := h
  exact ⟨p, remove_sublist.subset hp, hid, hn⟩

variable (h : cs.Serves)
include h

theorem Serves.addSession (info : SessionInfo) : (cs.addSession info).Serves := by
  refine h.of_sessions rfl rfl ?_
  rintro id n ⟨s, hs, p, hp, hid⟩
  rcases mem_of_mem_put hs with hnew | hold
  · rw [hnew] at hp
    cases hp
  · exact ⟨s, hold, p, hp, hid⟩

theorem Serves.removeSession (sid : SessionId) : (cs.removeSession sid).Serves := by
  refine h.of_sessions rfl rfl ?_
  rintro id n ⟨s, hs, hp⟩
  exact ⟨s, remove_sublist.subset hs, hp⟩

/-! ## Transactions -/

variable (id : LocalTransactionId) {producer : ProducerState}

omit h in
theorem transactions_begin (info : TransactionInfo) :
    ((cs.addTransactionState id).updateTransaction id (.addCommand (.info info))).transactions =
      cs.transactions.put LocalTransactionId.less id ⟨cs.nextSerial, [.info info], []⟩ :=
  update_put (LocalTransactionId.less_self id)

/-- A new transaction state, with its first command. -/
theorem Serves.begin (id : LocalTransactionId) (info : TransactionInfo) :
    ((cs.addTransactionState id).updateTransaction id (.addCommand (.info info))).Serves := by
  refine ⟨?_, ?_, ?_, ?_, ?_⟩ <;> rw [transactions_begin]
  · intro e he
    rcases mem_of_mem_put he with hnew | hold
    · rw [hnew]
      simp
    · exact h.commands e hold
  · refine nodup_map_put h.serials ?_
    intro e he
    exact (h.serial_lt e he).ne
  · intro e he
    rcases mem_of_mem_put he with hnew | hold
    · rw [hnew]
      exact Nat.lt_succ_self _
    · exact (h.serial_lt e hold).trans (Nat.lt_succ_self _)
  · intro e he
    rcases mem_of_mem_put he with hnew | hold
    · rw [hnew]
      simp
    · exact h.held e hold
  · intro p n hp
    obtain ⟨hlt, hsent⟩ := h.pointers p n hp
    refine ⟨hlt.trans (Nat.lt_succ_self _), ?_⟩
    intro e he heq
    rcases mem_of_mem_put he with hnew | hold
    · rw [hnew] at heq
      exact absurd heq hlt.ne'
    · exact hsent e hold heq

/-- A further command of a transaction. -/
theorem Serves.addCommand (id : LocalTransactionId) (c : TransactionCommand) :
    (cs.updateTransaction id (.addCommand c)).Serves := by
  -- every entry has the number and the producers of an old one, and at least its commands
  have hentry : ∀ e ∈ (cs.updateTransaction id (.addCommand c)).transactions,
      ∃ e' ∈ cs.transactions, e.2 = e'.2 ∨ e.2 = e'.2.addCommand c := by
    intro e he
    rcases mem_of_mem_update he with hold | ⟨v, -, hin, heq⟩
    · exact ⟨e, hold, .inl rfl⟩
    · exact ⟨_, hin, .inr heq⟩
  refine ⟨?_, ?_, ?_, ?_, ?_⟩
  · intro e he
    obtain ⟨e', he', heq | heq⟩ := hentry e he <;> rw [heq]
    · exact h.commands e' he'
    · simp [TransactionState.addCommand]
  · rw [show (cs.updateTransaction id (.addCommand c)).transactions.map (fun e => e.2.serial) =
      cs.transactions.map fun e => e.2.serial from map_update fun _ => rfl]
    exact h.serials
  · intro e he
    obtain ⟨e', he', heq | heq⟩ := hentry e he <;> rw [heq] <;> exact h.serial_lt e' he'
  · intro e he
    obtain ⟨e', he', heq | heq⟩ := hentry e he <;> rw [heq]
    · exact h.held e' he'
    · intro p hp
      exact (h.held e' he' p hp).addCommand c
  · intro p n hp
    obtain ⟨hlt, hsent⟩ := h.pointers p n hp
    refine ⟨hlt, ?_⟩
    intro e he hserial
    obtain ⟨e', he', heq | heq⟩ := hentry e he <;> rw [heq] at hserial ⊢
    · exact hsent e' he' hserial
    · exact (hsent e' he' hserial).addCommand c

theorem Serves.removeTransaction (id : LocalTransactionId) :
    (cs.removeTransactionState id).Serves := by
  have hsub : (cs.removeTransactionState id).transactions.Sublist cs.transactions :=
    remove_sublist
  refine ⟨?_, ?_, ?_, ?_, ?_⟩
  · exact fun e he => h.commands e (hsub.subset he)
  · exact h.serials.sublist (hsub.map _)
  · exact fun e he => h.serial_lt e (hsub.subset he)
  · exact fun e he => h.held e (hsub.subset he)
  · intro p n hp
    obtain ⟨hlt, hsent⟩ := h.pointers p n hp
    exact ⟨hlt, fun e he => hsent e (hsub.subset he)⟩

omit h in
/-- What a hand-over leaves under each key. -/
theorem mem_handOver {e : LocalTransactionId × TransactionState}
    (he : e ∈ (cs.handOver producer).transactions) :
    ∃ e' ∈ cs.transactions, e.2 = e'.2 ∨
      (producer.transactionState = some e'.2.serial ∧ e.2 = e'.2.addProducerState producer) := by
  unfold ConnectionState.handOver at he
  split at he
  · exact ⟨e, he, .inl rfl⟩
  · rename_i n hn
    obtain ⟨e', he', rfl⟩ := mem_map.mp he
    refine ⟨e', he', ?_⟩
    split
    · rename_i hserial
      rw [hserial]
      exact .inr ⟨hn, rfl⟩
    · exact .inl rfl

omit h in
theorem handOver_sessions (cs : ConnectionState) (producer : ProducerState) :
    (cs.handOver producer).sessions = cs.sessions ∧
      (cs.handOver producer).nextSerial = cs.nextSerial ∧
      (cs.handOver producer).transactions.map (fun e => e.2.serial) =
        cs.transactions.map fun e => e.2.serial := by
  unfold ConnectionState.handOver
  split
  · exact ⟨rfl, rfl, rfl⟩
  · refine ⟨rfl, rfl, ?_⟩
    rw [map_map]
    refine map_congr_left fun e _ => ?_
    simp only [Function.comp_apply]
    split <;> rfl

/-- A producer that leaves with its pointer has a message in the transaction that takes
it over. -/
theorem Serves.handOver
    (hproducer : ∀ n, producer.transactionState = some n → ∀ e ∈ cs.transactions,
      e.2.serial = n → SentIn producer.info.producerId e.2) : (cs.handOver producer).Serves := by
  obtain ⟨hsessions, hnext, hserials⟩ := handOver_sessions cs producer
  refine ⟨?_, ?_, ?_, ?_, ?_⟩
  · intro e he
    obtain ⟨e', he', heq | ⟨-, heq⟩⟩ := mem_handOver he <;> rw [heq] <;> exact h.commands e' he'
  · rw [hserials]
    exact h.serials
  · intro e he
    rw [hnext]
    obtain ⟨e', he', heq | ⟨-, heq⟩⟩ := mem_handOver he <;> rw [heq] <;> exact h.serial_lt e' he'
  · intro e he
    obtain ⟨e', he', heq | ⟨hn, heq⟩⟩ := mem_handOver he <;> rw [heq]
    · exact h.held e' he'
    · intro p hp
      rcases mem_of_mem_put hp with hnew | hold
      · rw [hnew]
        exact hproducer _ hn e' he' rfl
      · exact h.held e' he' p hold
  · intro p n hp
    rw [PointsTo, hsessions] at hp
    obtain ⟨hlt, hsent⟩ := h.pointers p n hp
    rw [hnext]
    refine ⟨hlt, ?_⟩
    intro e he
    obtain ⟨e', he', heq | ⟨-, heq⟩⟩ := mem_handOver he <;> rw [heq] <;> exact hsent e' he'

omit h in
theorem pointsTo_setTransactionState {pid id : ProducerId} {serial : Nat}
    (hinfo : ∀ v, ss.producers.find ProducerId.less pid = some v → v.info.producerId = pid)
    (h : (ss.setTransactionState pid serial).PointsTo id n) :
    ss.PointsTo id n ∨ (id = pid ∧ n = serial) := by
  obtain ⟨p, hp, hid, hn⟩ := h
  rcases mem_of_mem_update hp with hold | ⟨v, hfind, -, heq⟩
  · exact .inl ⟨p, hold, hid, hn⟩
  · rw [heq] at hid hn
    exact .inr ⟨hid.symm.trans (hinfo v hfind), (Option.some.inj hn).symm⟩

variable {id : LocalTransactionId}

/-- A message added to a transaction is found in the one with its number. -/
theorem Serves.sentIn_addCommand
    (hfind : cs.transactions.find LocalTransactionId.less id = some tx) {m : Message}
    (hm : m.transactionId ≠ none) :
    ∀ e ∈ (cs.updateTransaction id (.addCommand (.message m))).transactions,
      e.2.serial = tx.serial → SentIn m.producerId e.2 := by
  intro e he hserial
  obtain ⟨k, hk⟩ := exists_mem_update hfind
  -- the numbers are distinct, so this is the entry that was changed
  obtain rfl : e = (k, tx.addCommand (.message m)) :=
    inj_on_of_nodup_map (h.addCommand id (.message m)).serials he hk hserial
  exact ⟨m, rfl, hm, mem_append_right _ (mem_singleton.mpr rfl)⟩

/-- The producer of a message points to the transaction that has just got it. -/
theorem Serves.setTransactionState
    (hfind : cs.transactions.find LocalTransactionId.less id = some tx) {m : Message}
    (hm : m.transactionId ≠ none) (hinfo : ∀ ss v, cs.sessions.find SessionId.less sid = some ss →
      ss.producers.find ProducerId.less m.producerId = some v → v.info.producerId = m.producerId) :
    ((cs.updateTransaction id (.addCommand (.message m))).updateSession sid
      (.setTransactionState m.producerId tx.serial)).Serves := by
  have hadded := h.addCommand id (.message m)
  refine { hadded with pointers := ?_ }
  intro p n hp
  have hcases : cs.PointsTo p n ∨ (p = m.producerId ∧ n = tx.serial) := by
    rcases pointsTo_updateSession hp with hold | ⟨ss, hss, hnew⟩
    · exact .inl hold
    · exact (pointsTo_setTransactionState (fun v => hinfo ss v hss) hnew).imp_left
        (pointsTo_of_find hss)
  rcases hcases with hold | ⟨rfl, rfl⟩
  · exact hadded.pointers p n hold
  · obtain ⟨k, hk⟩ := mem_of_find hfind
    exact ⟨h.serial_lt _ hk, h.sentIn_addCommand hfind hm⟩

/-! ## Who is held -/

variable {x : Entity}

omit h

theorem mem_held : x ∈ cs.held ↔ ∃ e ∈ cs.transactions, x ∈ e.2.held :=
  mem_flatMap

theorem held_begin (info : TransactionInfo)
    (hx : x ∈ ((cs.addTransactionState id).updateTransaction id
      (.addCommand (.info info))).held) : x ∈ cs.held := by
  rw [mem_held, transactions_begin] at hx
  obtain ⟨e, he, hxe⟩ := hx
  rcases mem_of_mem_put he with hnew | hold
  · rw [hnew] at hxe
    cases hxe
  · exact mem_held.mpr ⟨e, hold, hxe⟩

theorem held_addCommand (cs : ConnectionState) (id : LocalTransactionId)
    (c : TransactionCommand) :
    (cs.updateTransaction id (.addCommand c)).held = cs.held := by
  exact congrArg flatten (map_update fun _ => rfl)

theorem held_removeTransaction (hx : x ∈ (cs.removeTransactionState id).held) : x ∈ cs.held := by
  obtain ⟨e, he, hxe⟩ := mem_held.mp hx
  exact mem_held.mpr ⟨e, remove_sublist.subset he, hxe⟩

theorem held_handOver (producer : ProducerState) (hx : x ∈ (cs.handOver producer).held) :
    x ∈ cs.held ∨ x = .producer producer.info.producerId := by
  obtain ⟨e, he, hxe⟩ := mem_held.mp hx
  obtain ⟨e', he', heq | ⟨-, heq⟩⟩ := mem_handOver he
  · rw [heq] at hxe
    exact .inl (mem_held.mpr ⟨e', he', hxe⟩)
  · rw [heq] at hxe
    obtain ⟨p, hp, rfl⟩ := mem_map.mp hxe
    rcases mem_of_mem_put hp with hnew | hold
    · rw [hnew]
      exact .inr rfl
    · exact .inl (mem_held.mpr ⟨e', he', mem_map.mpr ⟨p, hold, rfl⟩⟩)

end ConnectionState

end ActivemqCpp.State
