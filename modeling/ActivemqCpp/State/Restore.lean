import ActivemqCpp.State.Following

/-!
# What `restore` writes

On a well-formed tracked state `restore` succeeds (`Wf.restore_ok`). For every
connection it writes a front that announces the connection's objects in the order of
`entities`, and behind it the replay of the open transactions; the cached messages and
pulls come last. From these blocks follows that the replay rebuilds the objects
(`rebuilds_of_written`).
-/

namespace ActivemqCpp.State

open Base Decaf Commands List Sent

/-- The transaction that a command is part of. -/
def transactionOf : Command → Option TransactionId
  | .message m => m.transactionId
  | .transactionInfo info => some info.transactionId
  | _ => none

/-- The transaction that a command or a response is about. -/
def Sent.about : Sent → Option TransactionId
  | .oneway command => transactionOf command
  | .onCommand response => some response.transactionId

/-! ## Written blocks -/

/-- The block announces the objects `es`, in this order, and removes none. -/
def Writes (es : List Entity) (out : List Sent) : Prop :=
  out.filterMap announced = es ∧ ∀ c ∈ out, c.withdrawn = none

variable {out : List Sent} {blocks : List (List Sent)} {es : List Entity} {e : Entity} {α : Type}
  {items : List α} {f : α → Sent}

theorem Writes.append {es' : List Entity} {out' : List Sent} (h : Writes es out)
    (h' : Writes es' out') : Writes (es ++ es') (out ++ out') := by
  refine ⟨by rw [filterMap_append, h.1, h'.1], ?_⟩
  intro c hc
  rcases mem_append.mp hc with hc | hc
  · exact h.2 c hc
  · exact h'.2 c hc

theorem Writes.cons {c : Sent} (hc : c.announced = some e)
    (hnone : c.withdrawn = none) (h : Writes es out) : Writes (e :: es) (c :: out) := by
  refine ⟨by rw [filterMap_cons_some hc, h.1], ?_⟩
  exact forall_mem_cons.mpr ⟨hnone, h.2⟩

/-- One command for every item. -/
theorem writes_map {g : α → Entity}
    (hf : ∀ a ∈ items, (f a).announced = some (g a) ∧ (f a).withdrawn = none) :
    Writes (items.map g) (items.map f) := by
  induction items with
  | nil => exact ⟨rfl, by simp⟩
  | cons a items ih =>
    obtain ⟨ha, hnone⟩ := hf a mem_cons_self
    exact (ih fun b hb => hf b (mem_cons_of_mem _ hb)).cons ha hnone

/-- One block for every item. -/
theorem writes_flatten {g : α → List Entity}
    (h : Forall₂ (fun a out => Writes (g a) out) items blocks) :
    Writes (items.flatMap g) blocks.flatten := by
  induction h with
  | nil => exact ⟨rfl, by simp⟩
  | cons hhead _ ih => exact hhead.append ih

/-- A block without announcements and removals. -/
abbrev Quiet (out : List Sent) : Prop := Writes [] out

theorem quiet_map (items : List α)
    (hf : ∀ a ∈ items, (f a).announced = none ∧ (f a).withdrawn = none) : Quiet (items.map f) := by
  refine ⟨?_, ?_⟩
  · rw [filterMap_map, filterMap_eq_nil_iff]
    exact fun a ha => (hf a ha).1
  · intro c hc
    obtain ⟨a, ha, rfl⟩ := mem_map.mp hc
    exact (hf a ha).2

/-! ## Sessions -/

theorem SessionState.producerEntities_eq (ss : SessionState) :
    ss.producerEntities = ss.producers.map fun e => .producer e.2.info.producerId := by
  rw [producerEntities, StlMap.allItems, ← map_eq_flatMap]

theorem SessionState.consumerEntities_eq (ss : SessionState) :
    ss.consumerEntities = ss.consumers.map fun e => .consumer e.2.info.consumerId := by
  rw [consumerEntities, StlMap.allItems, ← map_eq_flatMap]

namespace Tracker

theorem writes_producers (ss : SessionState) :
    Writes ss.producerEntities (doRestoreProducers ss) := by
  rw [ss.producerEntities_eq]
  exact writes_map fun _ _ => ⟨rfl, rfl⟩

variable {t t' : Tracker} {K : ConnectionId → Prop}

theorem Stays.trans {t'' : Tracker} (h : Stays K t t') (h' : Stays K t' t'') : Stays K t t'' := by
  refine ⟨h'.wf, ?_, ?_⟩
  · refine keeps_of fun x => ?_
    have hx := h.alters x
    have hx' := h'.alters x
    simp only [false_or, and_true] at hx hx'
    exact hx'.trans hx
  · intro x hx
    rcases h'.held x hx with hx | hx
    · exact h.held x hx
    · exact .inr hx

theorem Stays.mem_iff (h : Stays K t t') {x : Entity} : x ∈ t'.entities ↔ x ∈ t.entities := by
  have hx := h.alters x
  simpa only [false_or, and_true] using hx

/-- During `restore` only what stands beside the objects changes. -/
structure Restoring (K : ConnectionId → Prop) (t t' : Tracker) : Prop where
  stays : Stays K t t'
  messageCache : t'.messageCache = t.messageCache
  messagePullCache : t'.messagePullCache = t.messagePullCache

variable {K : ConnectionId → Prop} (hK : StlMap.OrderedOn ConnectionId.less K)
include hK

variable {ss : SessionState}

theorem restoring_consumers (h : Restoring K t t') (version : Int)
    (hlive : .connection ss.info.sessionId.parentId ∈ t.entities) :
    ∃ t'' out, doRestoreConsumers version ss t' = .ok (t'', out) ∧ Restoring K t t'' ∧
      Writes ss.consumerEntities out := by
  obtain ⟨cs, hcs⟩ := h.stays.wf.connection_mem_iff.mp (h.stays.mem_iff.mpr hlive)
  have hwf := h.stays.wf.connection _ hcs
  have hfind := (StlMap.find_eq_some_iff hK h.stays.wf.connections
    (h.stays.wf.connections.keys _ hcs)).mpr hcs
  rw [doRestoreConsumers, hfind]
  refine ⟨_, _, rfl, ⟨?_, h.messageCache, h.messagePullCache⟩, ?_⟩
  · refine h.stays.trans (h.stays.wf.moves_update hK hcs ?_ (by simp))
    exact ConnectionState.stays_of_eq hwf (h.stays.wf.serves _ hcs) hwf.info rfl rfl rfl rfl
  · rw [ss.consumerEntities_eq]
    refine writes_map fun e _ => ?_
    split <;> exact ⟨rfl, rfl⟩

/-- The settings that nothing but a caller of the tracker's own setters turns off. -/
structure RestoresAll (opts : Options) : Prop where
  sessions : opts.restoreSessions = true
  consumers : opts.restoreConsumers = true
  producers : opts.restoreProducers = true
  transaction : opts.restoreTransaction = true

variable {opts : Options}

theorem restoring_session (hopts : RestoresAll opts) (h : Restoring K t t') (version : Int)
    (hlive : .connection ss.info.sessionId.parentId ∈ t.entities) :
    ∃ t'' out, doRestoreSession opts version t' ss = .ok (t'', out) ∧ Restoring K t t'' ∧
      Writes ss.entities out := by
  obtain ⟨t'', out, hout, ht'', hwrites⟩ := restoring_consumers hK h version hlive
  rw [doRestoreSession, if_pos hopts.consumers, if_pos hopts.producers, hout]
  refine ⟨t'', _, rfl, ht'', ?_⟩
  exact ((writes_producers ss).append hwrites).cons rfl rfl

variable {cs : ConnectionState} {id : ConnectionId}

theorem restoring_sessions (hopts : RestoresAll opts) (h : Restoring K t t') (version : Int)
    (hwf : cs.Wf id) (hlive : .connection id ∈ t.entities) :
    ∃ t'' out, doRestoreSessions opts version cs t' = .ok (t'', out) ∧ Restoring K t t'' ∧
      Writes cs.sessionEntities out := by
  have hround : ∀ s, Restoring K t s → ∀ e ∈ cs.sessions, ∃ s' out,
      doRestoreSession opts version s e.2 = .ok (s', out) ∧ Restoring K t s' ∧
        Writes e.2.entities out := by
    intro s hs e he
    have hparent : e.2.info.sessionId.parentId = id := by
      rw [(hwf.session e he).info]
      exact hwf.sessions.keys e he
    refine restoring_session hK hopts hs version ?_
    rwa [hparent]
  obtain ⟨t'', blocks, hout, ht'', hblocks⟩ :=
    collect_spec hround h
  exact ⟨t'', blocks.flatten, hout, ht'', writes_flatten hblocks⟩

omit hK

/-! ## Transactions -/

/-- The block replays open transactions, each once at most and in their order. -/
def Replays (cs : ConnectionState) (out : List Sent) : Prop :=
  ∃ blocks quiet, out = blocks.flatten ++ quiet ∧ Quiet quiet ∧
    Forall₂ (fun e block => block = [] ∨ block = replay e.2) cs.transactions blocks

/-- The commit that leaves the outcome of the transaction unknown. -/
def doubt (tx : TransactionState) : Option TransactionInfo := tx.commands.getLast?.bind inDoubt

/-- What is sent again of a transaction. -/
def replayed (tx : TransactionState) : List Sent :=
  match doubt tx with
  | some _ => []
  | none => replay tx

/-- What becomes of the open transactions of a connection. -/
def settled (cs : ConnectionState) : List Sent :=
  (cs.transactions.flatMap fun e => replayed e.2) ++
    (cs.transactions.filterMap fun e => doubt e.2).map forceRollback

theorem doRestoreTransaction_eq {tx : TransactionState} (h : tx.commands ≠ [])
    (toRollback : List TransactionInfo) :
    doRestoreTransaction toRollback tx = .ok (toRollback ++ (doubt tx).toList, replayed tx) := by
  rw [doRestoreTransaction, replayed, doubt, getLast?_eq_some_getLast h, Option.bind_some]
  dsimp only
  cases inDoubt (tx.commands.getLast h) with
  | none =>
    rw [Option.toList_none, append_nil]
  | some info => rfl

/-- The rounds of `doRestoreTransactions`, by induction over the transactions. -/
theorem collect_transactions {transactions : StlMap LocalTransactionId TransactionState}
    (h : ∀ e ∈ transactions, e.2.commands ≠ []) (toRollback : List TransactionInfo) :
    collect (fun toRollback e => doRestoreTransaction toRollback e.2) toRollback transactions =
      .ok (toRollback ++ transactions.filterMap (fun e => doubt e.2),
        transactions.flatMap fun e => replayed e.2) := by
  induction transactions generalizing toRollback with
  | nil => simp [collect]
  | cons e rest ih =>
    have hrest := ih fun e' he' => h e' (mem_cons_of_mem _ he')
    rw [collect, doRestoreTransaction_eq (h e mem_cons_self)]
    dsimp only
    rw [hrest, flatMap_cons, append_assoc]
    have hhead : (e :: rest).filterMap (fun e => doubt e.2) =
        (doubt e.2).toList ++ rest.filterMap fun e => doubt e.2 := by
      rw [filterMap_cons]
      cases doubt e.2 <;> rfl
    rw [hhead]

theorem doRestoreTransactions_eq (h : ∀ e ∈ cs.transactions, e.2.commands ≠ []) :
    doRestoreTransactions cs = .ok (settled cs) := by
  rw [doRestoreTransactions, collect_transactions h]
  rfl

theorem replays_settled (cs : ConnectionState) : Replays cs (settled cs) := by
  refine ⟨cs.transactions.map fun e => replayed e.2, _, rfl, quiet_map _ fun _ _ => ⟨rfl, rfl⟩, ?_⟩
  rw [forall₂_map_right_iff, forall₂_same]
  intro e _
  unfold replayed
  split
  · exact .inl rfl
  · exact .inr rfl

/-! ## Connections -/

/-- The part of `restore` that belongs to one connection. -/
def Restores (cs : ConnectionState) (out : List Sent) : Prop :=
  ∃ front rest, out = front ++ rest ∧ Writes cs.entities front ∧ Replays cs rest

theorem writes_tempDestinations (hwf : cs.Wf id) :
    Writes cs.tempEntities (doRestoreTempDestinations cs) := by
  refine writes_map fun info hinfo => ?_
  obtain ⟨-, htemp, hadd⟩ := hwf.temp info hinfo
  simp [announced, withdrawn, announces, withdraws, htemp, hadd]

/-- In detail: the front is about no transaction. -/
def Details (cs : ConnectionState) (out : List Sent) : Prop :=
  ∃ front, out = front ++ settled cs ∧ Writes cs.entities front ∧ ∀ c ∈ front, c.about = none

variable {out : List Sent}

theorem Details.restores (h : Details cs out) : Restores cs out := by
  obtain ⟨front, rfl, hwrites, -⟩ := h
  exact ⟨front, settled cs, rfl, hwrites, replays_settled cs⟩

theorem about_sessions {version : Int} (h : doRestoreSessions opts version cs t = .ok (t', out)) :
    ∀ c ∈ out, c.about = none := by
  refine collect_forall ?_ h
  intro t e t' out hround c hc
  have hfront : ∀ c ∈ (if opts.restoreProducers then doRestoreProducers e.2 else []),
      c.about = none := by
    split
    · exact forall_mem_map.mpr fun _ _ => rfl
    · exact fun c hc => absurd hc not_mem_nil
  have hsession : ∀ c ∈ oneway (.sessionInfo e.2.info) ::
      (if opts.restoreProducers then doRestoreProducers e.2 else []), c.about = none :=
    forall_mem_cons.mpr ⟨rfl, hfront⟩
  rw [doRestoreSession] at hround
  split at hround
  · split at hround
    · cases hround
    · next t₁ sent hconsumers =>
      cases hround
      rcases mem_append.mp hc with hc | hc
      · exact hsession c hc
      · rw [doRestoreConsumers] at hconsumers
        split at hconsumers
        · cases hconsumers
        · cases hconsumers
          obtain ⟨_, -, rfl⟩ := mem_map.mp hc
          rfl
  · cases hround
    exact hsession c hc

include hK

theorem restoring_connection (hopts : RestoresAll opts) (h : Restoring K t t') (version : Int)
    (hwf : cs.Wf id) (hserves : cs.Serves) (hlive : .connection id ∈ t.entities) :
    ∃ t'' out, restoreConnection opts version t' cs = .ok (t'', out) ∧ Restoring K t t'' ∧
      Details cs out := by
  obtain ⟨t'', sessions, hsessions, ht'', hwrites⟩ :=
    restoring_sessions hK hopts h version hwf hlive
  rw [restoreConnection, if_pos hopts.sessions, if_pos hopts.transaction, hsessions]
  rw [doRestoreTransactions_eq hserves.commands]
  refine ⟨t'', _, rfl, ht'', _, rfl, ?_, ?_⟩
  · exact ((writes_tempDestinations hwf).append hwrites).cons rfl rfl
  · intro c hc
    rcases mem_append.mp hc with hc | hc
    · rcases mem_cons.mp hc with rfl | hc
      · rfl
      · obtain ⟨info, -, rfl⟩ := mem_map.mp hc
        rfl
    · exact about_sessions hsessions c hc

/-- The cached messages and pulls, as they are sent again. -/
def cachedSent (t : Tracker) : List Sent :=
  t.messageCache.values.map (fun m => .oneway (.message m)) ++
    t.messagePullCache.values.map fun pull => .oneway (.messagePull pull)

omit hK in
theorem Wf.stays_markReconnected (h : t.Wf K) : Stays K t t.markReconnected := by
  refine h.stays_map (g := fun cs => { cs with info := { cs.info with failoverReconnect := true } })
    fun id cs hwf hserves => ?_
  exact ConnectionState.stays_of_eq hwf hserves hwf.info rfl rfl rfl rfl

/-- `restore` does not throw, moves no object, and writes a block for every connection;
the cached messages and pulls follow. -/
theorem Wf.restore_details (hopts : RestoresAll opts) (h : t.Wf K) (version : Int) :
    ∃ t' blocks, t.restore opts version = .ok (t', blocks.flatten ++ t.cachedSent) ∧
      Stays K t t' ∧
      Forall₂ (fun e out => Details e.2 out) t.connectionStates blocks := by
  have hround : ∀ s, Restoring K t s → ∀ e ∈ t.connectionStates, ∃ s' out,
      restoreConnection opts version s e.2 = .ok (s', out) ∧ Restoring K t s' ∧
        Details e.2 out := by
    intro s hs e he
    exact restoring_connection hK hopts hs version (h.connection e he) (h.serves e he)
      (h.connection_mem_iff.mpr ⟨e.2, he⟩)
  obtain ⟨t', blocks, hout, ht', hblocks⟩ :=
    collect_spec hround
      ⟨Stays.refl h, rfl, rfl⟩
  rw [restore, hout]
  refine ⟨_, blocks, ?_, ht'.stays.trans ht'.stays.wf.stays_markReconnected, hblocks⟩
  dsimp only
  rw [append_assoc, ht'.messageCache, ht'.messagePullCache, cachedSent]

theorem Wf.restore_ok (hopts : RestoresAll opts) (h : t.Wf K) (version : Int) :
    ∃ t' blocks quiet, t.restore opts version = .ok (t', blocks.flatten ++ quiet) ∧
      Stays K t t' ∧ Quiet quiet ∧
      Forall₂ (fun e out => Restores e.2 out) t.connectionStates blocks := by
  obtain ⟨t', blocks, hrestore, hstays, hblocks⟩ := h.restore_details hK hopts version
  refine ⟨t', blocks, _, hrestore, hstays, ?_, hblocks.imp fun _ _ => Details.restores⟩
  exact (quiet_map _ fun _ _ => ⟨rfl, rfl⟩).append (quiet_map _ fun _ _ => ⟨rfl, rfl⟩)

end Tracker

/-! ## What the broker makes of it -/

variable {x : Entity} {live : Finset Entity} {c : Command}

theorem mem_takes_of_announces
    (h : announces c = some e) : x ∈ takes live c ↔ x ∈ live ∨ x ∈ creates e := by
  rw [takes, h, Finset.mem_union]

theorem mem_takes_of_withdraws (hnone : announces c = none)
    (h : withdraws c = some e) : x ∈ takes live c ↔ x ∈ live ∧ ¬ x.Within e := by
  rw [takes, hnone]
  simp [h]

theorem takes_of_none (hnone : announces c = none)
    (h : withdraws c = none) : takes live c = live := by
  rw [takes, hnone]
  simp [h]

/-- A block of announcements adds what they create. -/
theorem Writes.mem_foldl (h : Writes es out) (live : Finset Entity) :
    x ∈ out.foldl hears live ↔ x ∈ live ∨ ∃ e ∈ es, x ∈ creates e := by
  induction out generalizing live es with
  | nil =>
    obtain rfl := h.1
    simp
  | cons c out ih =>
    have hnone := h.2 c mem_cons_self
    have hrest : ∀ c ∈ out, c.withdrawn = none := fun c hc => h.2 c (mem_cons_of_mem _ hc)
    rw [foldl_cons, ih ⟨rfl, hrest⟩]
    obtain rfl := h.1
    cases c with
    | onCommand response => simp [hears, announced]
    | oneway command =>
      cases hann : announces command with
      | none =>
        have hc : (oneway command).announced = none := hann
        rw [hears, takes_of_none hann hnone, filterMap_cons_none hc]
      | some e =>
        have hc : (oneway command).announced = some e := hann
        rw [hears, mem_takes_of_announces hann, filterMap_cons_some hc]
        simp only [mem_cons, exists_eq_or_imp]
        tauto

theorem Quiet.foldl (h : Quiet out) (live : Finset Entity) : out.foldl hears live = live := by
  ext x
  simp [h.mem_foldl]

/-- Removing producers takes these away and nothing else. -/
theorem mem_foldl_removeProducers {producers : StlMap ProducerId ProducerState} :
    x ∈ (producers.map fun e => oneway (.removeInfo e.2.info.createRemoveCommand)).foldl
        hears live ↔
      x ∈ live ∧ x ∉ producers.map fun e => Entity.producer e.2.info.producerId := by
  induction producers generalizing live with
  | nil => simp
  | cons e producers ih =>
    rw [map_cons, foldl_cons, ih, map_cons, mem_cons, hears,
      mem_takes_of_withdraws rfl rfl,
      Entity.within_producer]
    tauto

/-! ## Replayed transactions -/

theorem ServesReplay.append {post : List Sent} (h : ServesReplay x post)
    (rest : List Sent) : ServesReplay x (post ++ rest) := by
  obtain ⟨id, replayed, after, hid, rfl, hmessage, c, hc, hremove⟩ := h
  exact ⟨id, replayed, after ++ rest, hid, append_assoc _ _ _, hmessage, c,
    mem_append_left _ hc, hremove⟩

namespace Tracker

theorem writes_held (tx : TransactionState) :
    Writes tx.held (tx.producers.map fun e => .oneway (.producerInfo e.2.info)) :=
  writes_map fun _ _ => ⟨rfl, rfl⟩

theorem quiet_commands (tx : TransactionState) :
    Quiet (tx.commands.map fun c => .oneway c.command) := by
  refine quiet_map _ fun c _ => ?_
  cases c <;> exact ⟨rfl, rfl⟩

variable {live : Finset Entity} {tx : TransactionState}

/-- A replay announces producers that it removes again, so it leaves the broker as it
was unless it removes one that was live. -/
theorem foldl_replay
    (hlive : ∀ x ∈ tx.held, x ∉ live) : (replay tx).foldl hears live = live := by
  ext x
  rw [replay, foldl_append, foldl_append, mem_foldl_removeProducers,
    (quiet_commands tx).foldl, (writes_held tx).mem_foldl]
  have hcreates : (∃ e ∈ tx.held, x ∈ creates e) ↔ x ∈ tx.held := by
    constructor
    · intro ⟨e, he, hx⟩
      obtain ⟨p, hp, rfl⟩ := mem_map.mp he
      rwa [Finset.mem_singleton.mp hx]
    · intro hx
      obtain ⟨p, hp, rfl⟩ := mem_map.mp hx
      exact ⟨_, hx, Finset.mem_singleton_self _⟩
  rw [hcreates]
  constructor
  · rintro ⟨hx | hx, hnot⟩
    · exact hx
    · exact absurd hx hnot
  · intro hx
    exact ⟨.inl hx, fun hheld => hlive x hheld hx⟩

/-- Whoever a replay announces has a message in it and is removed in the end. -/
theorem servesReplay_replay
    (hheld : ∀ p ∈ tx.producers, SentIn p.2.info.producerId tx) {pre post : List Sent} {c : Sent}
    {x : Entity} (hsplit : replay tx = pre ++ c :: post) (hc : c.announced = some x) :
    x ∈ tx.held ∧ ServesReplay x post := by
  have hnone : ∀ out, Quiet out → c ∉ out := by
    intro out hout hin
    have hnil := filterMap_eq_nil_iff.mp hout.1 c hin
    rw [hc] at hnil
    cases hnil
  have hremoves : c ∉ tx.producers.map
      fun e => oneway (.removeInfo e.2.info.createRemoveCommand) := by
    intro hin
    obtain ⟨e, -, rfl⟩ := mem_map.mp hin
    exact absurd hc (by simp [announced, announces])
  rw [replay, append_assoc] at hsplit
  rcases split_append hsplit with ⟨rest, hfront, rfl⟩ | ⟨front, -, hback⟩
  · have hin : c ∈ tx.producers.map fun e => oneway (.producerInfo e.2.info) := by
      rw [hfront]
      simp
    obtain ⟨p, hp, rfl⟩ := mem_map.mp hin
    obtain rfl : Entity.producer p.2.info.producerId = x := Option.some.inj hc
    obtain ⟨m, hid, htx, hm⟩ := hheld p hp
    refine ⟨mem_map.mpr ⟨p, hp, rfl⟩, _, _, _, rfl, (append_assoc _ _ _).symm, ⟨m, hid, htx, ?_⟩,
      .oneway (.removeInfo p.2.info.createRemoveCommand), mem_map.mpr ⟨p, hp, rfl⟩, rfl⟩
    exact mem_append_right _ (mem_map.mpr ⟨_, hm, rfl⟩)
  · have hin : c ∈ (tx.commands.map fun c => oneway c.command) ++
        tx.producers.map fun e => oneway (.removeInfo e.2.info.createRemoveCommand) := by
      rw [hback]
      simp
    rcases mem_append.mp hin with hin | hin
    · exact absurd hin (hnone _ (quiet_commands tx))
    · exact absurd hin hremoves

variable {cs : ConnectionState} {out : List Sent}

theorem Replays.mem_blocks
    (h : Forall₂ (fun e block => block = [] ∨ block = replay e.2) cs.transactions blocks)
    {block : List Sent} (hblock : block ∈ blocks) {c : Sent} (hc : c ∈ block) :
    ∃ e ∈ cs.transactions, block = replay e.2 := by
  obtain ⟨e, he, rfl | heq⟩ := exists_of_forall₂ h hblock
  · cases hc
  · exact ⟨e, he, heq⟩

/-- Whom the replays of a connection announce. -/
theorem Replays.serves (hserves : cs.Serves) (h : Replays cs out)
    {pre post : List Sent} {c : Sent} {x : Entity} (hsplit : out = pre ++ c :: post)
    (hc : c.announced = some x) : x ∈ cs.held ∧ ServesReplay x post := by
  obtain ⟨blocks, quiet, rfl, hquiet, hblocks⟩ := h
  rcases split_append hsplit with ⟨rest, hfront, rfl⟩ | ⟨front, -, hback⟩
  · obtain ⟨before, block, after, pre', rest', rfl, hblock, rfl, rfl⟩ := split_flatten hfront
    have hin : c ∈ block := by
      rw [hblock]
      simp
    obtain ⟨e, he, rfl⟩ := Replays.mem_blocks hblocks (by simp) hin
    obtain ⟨hheld, hreplay⟩ := servesReplay_replay (hserves.held e he) hblock hc
    exact ⟨ConnectionState.mem_held.mpr ⟨e, he, hheld⟩, (hreplay.append _).append _⟩
  · have hnil := filterMap_eq_nil_iff.mp hquiet.1 c (by rw [hback]; simp)
    rw [hc] at hnil
    cases hnil

theorem foldl_blocks
    (h : ∀ block ∈ blocks, block = [] ∨ ∃ e ∈ cs.transactions, block = replay e.2)
    (hlive : ∀ x ∈ cs.held, x ∉ live) : blocks.flatten.foldl hears live = live := by
  induction blocks with
  | nil => rfl
  | cons block blocks ih =>
    rw [flatten_cons, foldl_append]
    have hrest := ih fun block hblock => h block (mem_cons_of_mem _ hblock)
    rcases h block mem_cons_self with rfl | ⟨e, he, rfl⟩
    · exact hrest
    · rw [foldl_replay, hrest]
      intro x hx
      exact hlive x (ConnectionState.mem_held.mpr ⟨e, he, hx⟩)

theorem Replays.foldl (h : Replays cs out)
    (hlive : ∀ x ∈ cs.held, x ∉ live) : out.foldl hears live = live := by
  obtain ⟨blocks, quiet, rfl, hquiet, hblocks⟩ := h
  have hcases : ∀ block ∈ blocks, block = [] ∨ ∃ e ∈ cs.transactions, block = replay e.2 := by
    intro block hblock
    obtain ⟨e, he, heq | heq⟩ := exists_of_forall₂ hblocks hblock
    · exact .inl heq
    · exact .inr ⟨e, he, heq⟩
  rw [foldl_append, foldl_blocks hcases hlive, hquiet.foldl]

end Tracker

/-! ## Parents come first -/

theorem Entity.parent_of_sessionId {sid : SessionId} (h : x.sessionId = some sid)
    (hne : x ≠ .session sid) : x.parent = some (.session sid) := by
  cases x <;> simp_all [Entity.sessionId, Entity.parent]

theorem SessionState.Wf.parents_first {sid : SessionId} {ss : SessionState} (h : ss.Wf sid)
    {pre post : List Entity} {p : Entity} (hsplit : ss.entities = pre ++ x :: post)
    (hp : x.parent = some p) : p = .connection sid.parentId ∨ p ∈ pre := by
  have hx : x.sessionId = some sid := h.sessionId_eq (by rw [hsplit]; simp)
  rw [entities, h.info] at hsplit
  cases pre with
  | nil =>
    obtain ⟨rfl, -⟩ := cons.inj hsplit
    exact .inl (Option.some.inj hp).symm
  | cons y pre =>
    obtain ⟨rfl, hrest⟩ := cons.inj hsplit
    have hnodup := h.nodup_entities
    rw [entities, h.info, nodup_cons, hrest] at hnodup
    have hne : x ≠ .session sid := by
      rintro rfl
      exact hnodup.1 (by simp)
    rw [Entity.parent_of_sessionId hx hne] at hp
    exact .inr (by simp [Option.some.inj hp])

variable {cs : ConnectionState} {id : ConnectionId}

theorem ConnectionState.Wf.parents_first (h : cs.Wf id)
    {pre post : List Entity} {p : Entity} (hsplit : cs.entities = pre ++ x :: post)
    (hp : x.parent = some p) : p ∈ pre := by
  rw [entities, h.info] at hsplit
  cases pre with
  | nil =>
    obtain ⟨rfl, -⟩ := cons.inj hsplit
    exact absurd hp (by simp [Entity.parent])
  | cons y pre =>
    obtain ⟨rfl, hrest⟩ := cons.inj hsplit
    rcases split_append hrest with ⟨rest, htemp, -⟩ | ⟨front, rfl, hsessions⟩
    · obtain ⟨d, rfl⟩ := h.mem_tempEntities (show x ∈ cs.tempEntities by rw [htemp]; simp)
      rw [← Option.some.inj hp]
      exact mem_cons_self
    · obtain ⟨before, block, after, pre', rest, hblocks, hblock, rfl, -⟩ :=
        split_flatten hsessions
      have hin : block ∈ cs.sessions.map fun e => e.2.entities := by
        rw [hblocks]
        simp
      obtain ⟨e, he, rfl⟩ := mem_map.mp hin
      rcases (h.session e he).parents_first hblock hp with rfl | hp'
      · rw [h.sessions.keys e he]
        exact mem_cons_self
      · simp [hp']

/-! ## The replay as a whole -/

section Rebuilds

variable {K : ConnectionId → Prop} {t : Tracker} (h : t.Wf K) {live : Finset Entity}
  (hlive : ∀ x, x ∈ live ↔ x ∈ t.entities) (hheld : ∀ x ∈ t.held, x ∉ live)

theorem ConnectionState.Wf.mem_creates (h : cs.Wf id)
    {x : Entity} : (∃ e ∈ cs.entities, x ∈ creates e) ↔ x ∈ cs.entities := by
  constructor
  · intro ⟨e, he, hx⟩
    cases e with
    | connection id' =>
      rcases Finset.mem_insert.mp hx with rfl | hx
      · exact he
      · obtain rfl : id' = id := h.connectionId_eq he
        rw [Finset.mem_singleton.mp hx, h.session_mem_iff]
        exact h.default
    | _ => rwa [Finset.mem_singleton.mp hx]
  · intro hx
    refine ⟨x, hx, ?_⟩
    cases x <;> simp [creates]

include h hheld in
/-- The broker after the blocks of some connections. -/
theorem mem_foldl_restores {entries : List (ConnectionId × ConnectionState)}
    (hentries : ∀ e ∈ entries, e ∈ t.connectionStates) {blocks : List (List Sent)}
    (hblocks : Forall₂ (fun e out => Tracker.Restores e.2 out) entries blocks)
    (hsub : ∀ e ∈ entries, ∀ x ∈ e.2.entities, x ∈ live) {start : Finset Entity}
    (hstart : ∀ x ∈ start, x ∈ live) {x : Entity} :
    x ∈ blocks.flatten.foldl hears start ↔ x ∈ start ∨ ∃ e ∈ entries, x ∈ e.2.entities := by
  induction hblocks generalizing start with
  | nil => simp
  | @cons e out entries blocks hout _ ih =>
    obtain ⟨front, rest, rfl, hfront, hreplays⟩ := hout
    have he : e ∈ t.connectionStates := hentries e mem_cons_self
    have hmem : ∀ y, y ∈ front.foldl hears start ↔ y ∈ start ∨ y ∈ e.2.entities := by
      intro y
      rw [hfront.mem_foldl, (h.connection e he).mem_creates]
    have hfrontlive : ∀ y ∈ front.foldl hears start, y ∈ live := by
      intro y hy
      rcases (hmem y).mp hy with hy | hy
      · exact hstart y hy
      · exact hsub e mem_cons_self y hy
    have hrest : rest.foldl hears (front.foldl hears start) = front.foldl hears start := by
      refine hreplays.foldl fun y hy hin => ?_
      exact hheld y (Tracker.mem_held.mpr ⟨e, he, hy⟩) (hfrontlive y hin)
    rw [flatten_cons, foldl_append, foldl_append, hrest,
      ih (fun e he => hentries e (mem_cons_of_mem _ he))
        (fun e he => hsub e (mem_cons_of_mem _ he)) hfrontlive, hmem]
    simp only [mem_cons, exists_eq_or_imp]
    tauto

include h hheld in
/-- The live objects among those announced, in their order. -/
theorem filter_announced {entries : List (ConnectionId × ConnectionState)}
    (hentries : ∀ e ∈ entries, e ∈ t.connectionStates) {blocks : List (List Sent)}
    (hblocks : Forall₂ (fun e out => Tracker.Restores e.2 out) entries blocks)
    (hsub : ∀ e ∈ entries, ∀ x ∈ e.2.entities, x ∈ live) :
    (blocks.flatten.filterMap announced).filter (· ∈ live) =
      entries.flatMap fun e => e.2.entities := by
  induction hblocks with
  | nil => rfl
  | @cons e out entries blocks hout _ ih =>
    obtain ⟨front, rest, rfl, hfront, hreplays⟩ := hout
    have he : e ∈ t.connectionStates := hentries e mem_cons_self
    have hkept : e.2.entities.filter (· ∈ live) = e.2.entities :=
      filter_eq_self.mpr fun x hx => by simpa using hsub e mem_cons_self x hx
    have hdropped : (rest.filterMap announced).filter (· ∈ live) = [] := by
      rw [filter_eq_nil_iff]
      intro x hx hin
      obtain ⟨c, hc, hcx⟩ := mem_filterMap.mp hx
      obtain ⟨pre, post, hsplit⟩ := append_of_mem hc
      have hserved := hreplays.serves (h.serves e he) hsplit hcx
      exact hheld x (Tracker.mem_held.mpr ⟨e, he, hserved.1⟩) (by simpa using hin)
    rw [flatten_cons, filterMap_append, filterMap_append, filter_append,
      filter_append, hfront.1, hkept, hdropped,
      ih (fun e he => hentries e (mem_cons_of_mem _ he))
        fun e he => hsub e (mem_cons_of_mem _ he),
      append_nil, flatMap_cons]

include h hlive hheld in
/-- A place of an announcement: among the objects of its connection, or in a replay. -/
theorem place_of_announced {blocks : List (List Sent)} {quiet : List Sent} (hquiet : Quiet quiet)
    (hblocks : Forall₂ (fun e out => Tracker.Restores e.2 out) t.connectionStates blocks)
    {pre post : List Sent} {c : Sent} {x : Entity}
    (hsplit : blocks.flatten ++ quiet = pre ++ c :: post) (hc : c.announced = some x) :
    (x ∈ live ∧ ∀ p, x.parent = some p → p ∈ pre.filterMap announced) ∨
      (x ∉ live ∧ ServesReplay x post) := by
  rcases split_append hsplit with ⟨rest, hfront, rfl⟩ | ⟨front, -, hback⟩
  · obtain ⟨before, block, after, pre', rest', rfl, hblock, rfl, rfl⟩ := split_flatten hfront
    obtain ⟨e, he, hrestores⟩ := exists_of_forall₂ hblocks (b := block) (by simp)
    obtain ⟨front, replays, rfl, hwrites, hreplays⟩ := hrestores
    rcases split_append hblock with ⟨rest, hfront', rfl⟩ | ⟨front', rfl, hback⟩
    · -- in front: the objects of the connection
      have hentities : e.2.entities =
          pre'.filterMap announced ++ x :: rest.filterMap announced := by
        rw [← hwrites.1, hfront', filterMap_append, filterMap_cons_some hc]
      have hx : x ∈ e.2.entities := by
        rw [hentities]
        simp
      refine .inl ⟨(hlive x).mpr (StlMap.mem_allItems.mpr ⟨e, he, hx⟩), ?_⟩
      intro p hp
      rw [filterMap_append]
      exact mem_append_right _ ((h.connection e he).parents_first hentities hp)
    · obtain ⟨hin, hserves⟩ := hreplays.serves (h.serves e he) hback hc
      refine .inr ⟨hheld x (Tracker.mem_held.mpr ⟨e, he, hin⟩), ?_⟩
      exact (hserves.append _).append _
  · have hnil := filterMap_eq_nil_iff.mp hquiet.1 c (by rw [hback]; simp)
    rw [hc] at hnil
    cases hnil

include h hlive hheld in
/-- Blocks as `restore` writes them rebuild the tracked objects. -/
theorem rebuilds_of_written (hK : StlMap.OrderedOn ConnectionId.less K)
    {blocks : List (List Sent)} {quiet : List Sent} (hquiet : Quiet quiet)
    (hblocks : Forall₂ (fun e out => Tracker.Restores e.2 out) t.connectionStates blocks) :
    Rebuilds live (blocks.flatten ++ quiet) := by
  have hsub : ∀ e ∈ t.connectionStates, ∀ x ∈ e.2.entities, x ∈ live := fun e he x hx =>
    (hlive x).mpr (StlMap.mem_allItems.mpr ⟨e, he, hx⟩)
  refine ⟨?_, ?_, ?_, ?_⟩
  · intro e he
    have hfilter := filter_announced h hheld (fun _ he => he) hblocks hsub
    have hcount : (t.entities.count e) = 1 :=
      count_eq_one_of_mem (h.nodup_entities hK) ((hlive e).mp he)
    rw [filterMap_append, hquiet.1, append_nil, ← hcount,
      show t.entities = t.connectionStates.flatMap fun e => e.2.entities from rfl, ← hfilter,
      count_filter (by simpa using he)]
  · intro pre c post e hsplit hc hnot
    rcases place_of_announced h hlive hheld hquiet hblocks hsplit hc with ⟨hin, -⟩ | ⟨-, hserves⟩
    · exact absurd hin hnot
    · exact hserves
  · intro pre c post e p hsplit hc hin hp
    rcases place_of_announced h hlive hheld hquiet hblocks hsplit hc with ⟨-, hparents⟩ | ⟨hnot, -⟩
    · exact hparents p hp
    · exact absurd hin hnot
  · ext x
    rw [foldl_append, hquiet.foldl,
      mem_foldl_restores h hheld (fun _ he => he) hblocks hsub (by simp), hlive x,
      Tracker.entities, StlMap.mem_allItems]
    simp

end Rebuilds

end ActivemqCpp.State
