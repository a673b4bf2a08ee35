import ActivemqCpp.State.LedgerRuns

/-!
# The replay of local transactions

After a failover `restore` settles every open transaction (`Handles`):

* a transaction whose last command is a one-phase commit is not sent again, and the
  listener is told once, under the id of the commit;
* of any other the commands are sent again, once each and in their order; every message
  comes behind the `ProducerInfo` of its producer, and producers that were removed in
  the meantime are removed again behind the last command.

This holds in every state of a well-formed history in which no removal loses a producer
that the replay needs (`restore_handles_transactions`). It fails when a producer has
messages in two open transactions: the removed producer is handed to the later one, and
the earlier one is replayed without it.
-/

namespace ActivemqCpp.State

open Base Decaf Commands List Tracker Sample Sent Logged

/-! ## What becomes of a transaction -/

/-- A command of the transaction is sent. -/
def Sent.belongsTo (id : LocalTransactionId) : Sent → Bool
  | .oneway command => transactionOf command = some (.local id)
  | .onCommand _ => false

/-- The listener is told about the transaction. -/
def Sent.reports (id : LocalTransactionId) : Sent → Bool
  | .oneway _ => false
  | .onCommand response => response.transactionId = .local id

/-- The transaction is sent again. -/
structure Replayed (live : Finset Entity) (id : LocalTransactionId)
    (commands : List TransactionCommand) (sent : List Sent) : Prop where
  once : sent.filter (belongsTo id) = commands.map fun c => .oneway c.command
  announced : ∀ pre m post, sent = pre ++ .oneway (.message m) :: post →
    m.transactionId = some (.local id) →
    .producer m.producerId ∈ pre.filterMap announced
  /-- Behind every command of the transaction. -/
  removed : ∀ pre c post, sent = pre ++ c :: post → c.belongsTo id = true →
    ∀ m, .message m ∈ commands → .producer m.producerId ∉ live →
    .producer m.producerId ∈ post.filterMap withdrawn

/-- The transaction is given up; the listener gets one response for its commit. -/
structure Failed (id : LocalTransactionId) (commit : TransactionInfo) (sent : List Sent) :
    Prop where
  unsent : sent.filter (belongsTo id) = []
  reported : sent.filter (reports id) =
    [.onCommand ⟨commit.commandId, "TransactionRolledBackException", .local id⟩]

/-- The last command decides. -/
def Handles (live : Finset Entity) (id : LocalTransactionId) (commands : List TransactionCommand)
    (sent : List Sent) : Prop :=
  match commands.getLast?.bind inDoubt with
  | some commit => Failed id commit sent
  | none => Replayed live id commands sent

/-- `restore` succeeds and settles every open transaction of the ledger. -/
def Logged.RestoresTransactions (opts : Options) (version : Int) (s : Logged) : Prop :=
  ∃ tracker sent, s.followed.tracker.restore opts version = .ok (tracker, sent) ∧
    ∀ id commands, s.ledger.transactions id = some commands →
      Handles s.followed.live id commands sent

/-! ## Where a transaction stands in the replay -/

namespace Tracker

section Own

variable {tx : TransactionState} {tid : LocalTransactionId}
  (hown : ∀ c ∈ tx.commands, transactionOf c.command = some (.local tid))
include hown

theorem transactionId_of_doubt {commit : TransactionInfo} (h : doubt tx = some commit) :
    commit.transactionId = .local tid := by
  obtain ⟨c, hlast, hdoubt⟩ := Option.bind_eq_some_iff.mp h
  have hc := hown c (mem_of_getLast? hlast)
  cases c with
  | message m => cases hdoubt
  | info info =>
    rw [inDoubt] at hdoubt
    split at hdoubt
    · rw [← Option.some.inj hdoubt]
      exact Option.some.inj hc
    · cases hdoubt

theorem about_replayed {c : Sent} (hc : c ∈ replayed tx) :
    c.about = none ∨ c.about = some (.local tid) := by
  unfold replayed at hc
  split at hc
  · cases hc
  · rw [replay, mem_append, mem_append] at hc
    rcases hc with (hc | hc) | hc
    · obtain ⟨p, -, rfl⟩ := mem_map.mp hc
      exact .inl rfl
    · obtain ⟨c', hc', rfl⟩ := mem_map.mp hc
      exact .inr (hown c' hc')
    · obtain ⟨p, -, rfl⟩ := mem_map.mp hc
      exact .inl rfl

end Own

/-- The transactions of a connection carry their own commands. -/
def Owns (transactions : StlMap LocalTransactionId TransactionState) : Prop :=
  ∀ e ∈ transactions, ∀ c ∈ e.2.commands, transactionOf c.command = some (.local e.1)

/-- What becomes of other transactions is not about this one. -/
theorem about_others {transactions : StlMap LocalTransactionId TransactionState}
    (hown : Owns transactions) (tid : LocalTransactionId) (hne : ∀ e ∈ transactions, e.1 ≠ tid) :
    (∀ c ∈ transactions.flatMap fun e => replayed e.2, c.about ≠ some (.local tid)) ∧
      ∀ c ∈ (transactions.filterMap fun e => doubt e.2).map forceRollback,
        c.about ≠ some (.local tid) := by
  constructor
  · intro c hc habout
    obtain ⟨e, he, hc⟩ := mem_flatMap.mp hc
    rcases about_replayed (hown e he) hc with hnone | hsome
    · rw [hnone] at habout
      cases habout
    · rw [hsome] at habout
      exact hne e he (TransactionId.local.inj (Option.some.inj habout))
  · intro c hc habout
    obtain ⟨commit, hcommit, rfl⟩ := mem_map.mp hc
    obtain ⟨e, he, hdoubt⟩ := mem_filterMap.mp hcommit
    have hid := transactionId_of_doubt (hown e he) hdoubt
    exact hne e he (TransactionId.local.inj (hid.symm.trans (Option.some.inj habout)))

/-- All that is about a transaction is its replay, and behind it its report. -/
theorem settled_around {cs : ConnectionState} (hown : Owns cs.transactions)
    (hkeys : (cs.transactions.map Prod.fst).Nodup) {tid : LocalTransactionId}
    {tx : TransactionState} (htx : (tid, tx) ∈ cs.transactions) :
    ∃ pre mid post,
      settled cs = pre ++ replayed tx ++ (mid ++ (doubt tx).toList.map forceRollback ++ post) ∧
      ∀ c ∈ pre ++ mid ++ post, c.about ≠ some (.local tid) := by
  obtain ⟨front, rest, hsplit⟩ := append_of_mem htx
  rw [hsplit] at hkeys hown
  rw [map_append, map_cons, nodup_middle, ← map_append, nodup_cons] at hkeys
  have hne : ∀ e ∈ front ++ rest, e.1 ≠ tid := by
    intro e he heq
    have hin := mem_map_of_mem (f := Prod.fst) he
    rw [heq] at hin
    exact hkeys.1 hin
  have hownFront : Owns front := fun e he => hown e (mem_append_left _ he)
  have hownRest : Owns rest := fun e he =>
    hown e (mem_append_right _ (mem_cons_of_mem _ he))
  have hfront := about_others hownFront tid fun e he => hne e (mem_append_left _ he)
  have hrest := about_others hownRest tid fun e he => hne e (mem_append_right _ he)
  refine ⟨front.flatMap fun e => replayed e.2,
    (rest.flatMap fun e => replayed e.2) ++
      (front.filterMap fun e => doubt e.2).map forceRollback,
    (rest.filterMap fun e => doubt e.2).map forceRollback, ?_, ?_⟩
  · have hdoubt : ((tid, tx) :: rest).filterMap (fun e => doubt e.2) =
        (doubt tx).toList ++ rest.filterMap fun e => doubt e.2 := by
      rw [filterMap_cons]
      cases doubt tx <;> rfl
    rw [settled, hsplit, flatMap_append, flatMap_cons, filterMap_append, hdoubt]
    simp
  · intro c hc
    simp only [mem_append] at hc
    rcases hc with (hc | hc | hc) | hc
    · exact hfront.1 c hc
    · exact hrest.1 c hc
    · exact hfront.2 c hc
    · exact hrest.2 c hc

end Tracker

variable {tid : LocalTransactionId}

theorem Sent.not_of_about {c : Sent}
    (h : c.about ≠ some (.local tid)) : c.belongsTo tid = false ∧ c.reports tid = false := by
  cases c with
  | oneway command => exact ⟨decide_eq_false h, rfl⟩
  | onCommand response => exact ⟨rfl, decide_eq_false fun heq => h (congrArg some heq)⟩

/-- The place of an open transaction in what `restore` writes: its replay stands behind
the announcements of its connection, and nothing but its report is about it besides. -/
structure Around (tid : LocalTransactionId) (tx : TransactionState) (live : Finset Entity)
    (sent pre tail : List Sent) : Prop where
  eq : sent = pre ++ replayed tx ++ tail
  before : ∀ c ∈ pre, c.about ≠ some (.local tid)
  behind : ∀ c ∈ tail, c.belongsTo tid = false
  reports : tail.filter (reports tid) = (doubt tx).toList.map forceRollback
  announced : ∀ p : ProducerId, p.parentId.parentId = tid.connectionId → .producer p ∈ live →
    .producer p ∈ pre.filterMap announced

namespace Around

variable {tid : LocalTransactionId} {tx : TransactionState} {live : Finset Entity}
  {sent pre tail : List Sent} (h : Around tid tx live sent pre tail)
include h

theorem filter_before : pre.filter (belongsTo tid) = [] := by
  rw [filter_eq_nil_iff]
  intro c hc
  simp [(not_of_about (h.before c hc)).1]

theorem filter_behind : tail.filter (belongsTo tid) = [] := by
  rw [filter_eq_nil_iff]
  intro c hc
  simp [h.behind c hc]

theorem failed {commit : TransactionInfo} (hdoubt : doubt tx = some commit)
    (hid : commit.transactionId = .local tid) : Failed tid commit sent := by
  have hnone : replayed tx = [] := by rw [replayed, hdoubt]
  have hpre : pre.filter (Sent.reports tid) = [] := by
    rw [filter_eq_nil_iff]
    intro c hc
    simp [(not_of_about (h.before c hc)).2]
  constructor
  · rw [h.eq, hnone, append_nil, filter_append, h.filter_before, h.filter_behind, append_nil]
  · rw [h.eq, hnone, append_nil, filter_append, hpre, h.reports, hdoubt, ← hid]
    rfl

/-- A command of the transaction is sent between the announcements of the producers that
it holds and their removals. -/
theorem place (hdoubt : doubt tx = none) {front rest : List Sent} {c : Sent}
    (hsplit : sent = front ++ c :: rest) (hc : c.belongsTo tid = true) :
    ∃ earlier later, (tx.commands.map fun c => .oneway c.command) = earlier ++ c :: later ∧
      front = pre ++ (tx.producers.map fun e => .oneway (.producerInfo e.2.info)) ++ earlier ∧
      rest = later ++ ((tx.producers.map fun e =>
        .oneway (.removeInfo e.2.info.createRemoveCommand)) ++ tail) := by
  have hreplay : replayed tx = replay tx := by rw [replayed, hdoubt]
  rw [h.eq, hreplay, replay] at hsplit
  simp only [append_assoc] at hsplit
  rw [← append_assoc] at hsplit
  rcases split_append hsplit with ⟨later, hfront, -⟩ | ⟨earlier, rfl, hback⟩
  · have hin : c ∈ pre ++ tx.producers.map fun e => oneway (.producerInfo e.2.info) := by
      rw [hfront]
      simp
    rcases mem_append.mp hin with hin | hin
    · rw [(not_of_about (h.before c hin)).1] at hc
      cases hc
    · obtain ⟨p, -, rfl⟩ := mem_map.mp hin
      exact absurd hc (by simp [belongsTo, transactionOf])
  · rcases split_append hback with ⟨later, hcommands, rfl⟩ | ⟨front', -, htail⟩
    · exact ⟨earlier, later, hcommands, rfl, rfl⟩
    · have hin : c ∈ (tx.producers.map fun e =>
          oneway (.removeInfo e.2.info.createRemoveCommand)) ++ tail := by
        rw [htail]
        simp
      rcases mem_append.mp hin with hin | hin
      · obtain ⟨p, -, rfl⟩ := mem_map.mp hin
        exact absurd hc (by simp [belongsTo, transactionOf])
      · rw [h.behind c hin] at hc
        cases hc

theorem replayed (hdoubt : doubt tx = none)
    (hown : ∀ c ∈ tx.commands, transactionOf c.command = some (.local tid) ∧
      ∀ p ∈ c.sender, p.parentId.parentId = tid.connectionId)
    (hcovers : ∀ m, .message m ∈ tx.commands →
      .producer m.producerId ∈ live ∨ .producer m.producerId ∈ tx.held) :
    Replayed live tid tx.commands sent := by
  refine ⟨?_, ?_, ?_⟩
  · have hreplay : Tracker.replayed tx = Tracker.replay tx := by rw [Tracker.replayed, hdoubt]
    have hcommands : (tx.commands.map fun c => oneway c.command).filter
        (belongsTo tid) = tx.commands.map fun c => .oneway c.command := by
      rw [filter_eq_self]
      intro c hc
      obtain ⟨c', hc', rfl⟩ := mem_map.mp hc
      exact decide_eq_true (hown c' hc').1
    have hothers : ∀ f : ProducerState → Command, (∀ ps, transactionOf (f ps) = none) →
        (tx.producers.map fun e => oneway (f e.2)).filter (belongsTo tid) = [] := by
      intro f hf
      rw [filter_eq_nil_iff]
      intro c hc
      obtain ⟨e, -, rfl⟩ := mem_map.mp hc
      simp [belongsTo, hf]
    rw [h.eq, hreplay, replay]
    simp only [filter_append]
    rw [h.filter_before, h.filter_behind, hcommands, hothers (fun ps => .producerInfo ps.info)
        fun _ => rfl,
      hothers (fun ps => .removeInfo ps.info.createRemoveCommand) fun _ => rfl]
    simp
  · intro front m rest hsplit hm
    obtain ⟨earlier, later, hcommands, rfl, -⟩ := h.place hdoubt hsplit (decide_eq_true hm)
    have hin : oneway (.message m) ∈ tx.commands.map fun c => oneway c.command := by
      rw [hcommands]
      simp
    obtain ⟨c, hc, heq⟩ := mem_map.mp hin
    obtain rfl : c = .message m := by
      cases c with
      | message m' =>
        rw [Command.message.inj (oneway.inj heq)]
      | info info => exact absurd (oneway.inj heq) (by simp [TransactionCommand.command])
    rw [filterMap_append, filterMap_append, append_assoc]
    rcases hcovers m hc with hlive | hheld
    · exact mem_append_left _ (h.announced _ ((hown _ hc).2 _ rfl) hlive)
    · refine mem_append_right _ (mem_append_left _ ?_)
      rw [(writes_held tx).1]
      exact hheld
  · intro front c rest hsplit hc m hm hnot
    obtain ⟨earlier, later, -, -, rfl⟩ := h.place hdoubt hsplit hc
    obtain ⟨p, hp, hpm⟩ := mem_map.mp ((hcovers m hm).resolve_left hnot)
    rw [filterMap_append, filterMap_append]
    refine mem_append_right _ (mem_append_left _ ?_)
    exact mem_filterMap.mpr ⟨_, mem_map.mpr ⟨p, hp, rfl⟩, congrArg some hpm⟩

end Around

namespace Logged

variable {K : ConnectionId → Prop} {s : Logged} (h : s.Inv K)
  {e : ConnectionId × ConnectionState} (he : e ∈ s.followed.tracker.connectionStates)
include h he

/-- The tracked transactions carry their own commands. -/
theorem Inv.owns : Owns e.2.transactions := by
  intro tx htx c hc
  exact (h.kept.own tx.1 _ ((h.booked e he).commands tx htx) c hc).1

/-- The block of another connection. -/
theorem Inv.about_details {out : List Sent}
    (hout : Details e.2 out) (hne : e.1 ≠ tid.connectionId) :
    ∀ c ∈ out, c.about ≠ some (.local tid) := by
  obtain ⟨front, rfl, -, hfront⟩ := hout
  have hothers := about_others (h.owns he) tid fun tx htx heq => by
    apply hne
    rw [← heq]
    exact ((h.booked e he).keys.keys tx htx).symm
  intro c hc
  rcases mem_append.mp hc with hc | hc
  · rw [hfront c hc]
    simp
  · rcases mem_append.mp hc with hc | hc
    · exact hothers.1 c hc
    · exact hothers.2 c hc

omit he

/-- Cached messages and pulls are about no transaction. -/
theorem Inv.about_cached : ∀ c ∈ s.followed.tracker.cachedSent, c.about = none := by
  intro c hc
  rcases mem_append.mp hc with hc | hc
  · obtain ⟨m, hm, rfl⟩ := mem_map.mp hc
    exact h.cached m hm
  · obtain ⟨pull, -, rfl⟩ := mem_map.mp hc
    rfl

variable {opts : Options} (hK : StlMap.OrderedOn ConnectionId.less K)
  (hopts : RestoresAll opts)
include hK hopts

variable {sent : List Sent}

/-- What becomes of the transactions of a connection stands behind the announcements of
the connection, and nothing outside is about them. -/
theorem Inv.restore_block {version : Int} {t : Tracker}
    (hrestore : s.followed.tracker.restore opts version = .ok (t, sent)) {id : ConnectionId}
    {cs : ConnectionState} (hcs : (id, cs) ∈ s.followed.tracker.connectionStates) :
    ∃ pre post, sent = pre ++ settled cs ++ post ∧
      (∀ c ∈ pre ++ post, ∀ tid : LocalTransactionId, tid.connectionId = id →
        c.about ≠ some (.local tid)) ∧ ∀ x ∈ cs.entities, x ∈ pre.filterMap announced := by
  have hwf := h.follows.wf
  obtain ⟨t', blocks, hrestore', -, hblocks⟩ := hwf.restore_details hK hopts version
  obtain ⟨rfl, rfl⟩ := Prod.mk.inj (Except.ok.inj (hrestore.symm.trans hrestore'))
  obtain ⟨before, after, hsplit⟩ := append_of_mem hcs
  have hkeys := hwf.connections.nodup_keys hK
  rw [hsplit, map_append, map_cons, nodup_middle, ← map_append, nodup_cons] at hkeys
  -- the blocks of the other connections
  have hothers : ∀ {part : StlMap ConnectionId ConnectionState} {outs : List (List Sent)},
      (∀ e ∈ part, e ∈ before ++ after ∧ e ∈ s.followed.tracker.connectionStates) →
      Forall₂ (fun e out => Details e.2 out) part outs →
      ∀ c ∈ outs.flatten, ∀ tid : LocalTransactionId, tid.connectionId = id →
        c.about ≠ some (.local tid) := by
    rintro part outs hpart houts c hc tid rfl
    obtain ⟨out, hout, hc⟩ := mem_flatten.mp hc
    obtain ⟨e, he, hdetails⟩ := exists_of_forall₂ houts hout
    obtain ⟨hother, hin⟩ := hpart e he
    refine h.about_details hin hdetails ?_ c hc
    intro heq
    have hkey := mem_map_of_mem (f := Prod.fst) hother
    rw [heq] at hkey
    exact hkeys.1 hkey
  rw [hsplit] at hblocks
  obtain ⟨blocks₁, block, blocks₂, rfl, hdetails, hbefore, hafter⟩ := split_forall₂ hblocks
  have habout₁ := hothers (fun e he =>
    ⟨mem_append_left _ he, by rw [hsplit]; exact mem_append_left _ he⟩) hbefore
  have habout₂ := hothers (fun e he => ⟨mem_append_right _ he, by
    rw [hsplit]
    exact mem_append_right _ (mem_cons_of_mem _ he)⟩) hafter
  obtain ⟨front, rfl, hwrites, hfront⟩ := hdetails
  refine ⟨blocks₁.flatten ++ front, blocks₂.flatten ++ s.followed.tracker.cachedSent, ?_, ?_, ?_⟩
  · simp
  · intro c hc tid htid
    rcases mem_append.mp hc with hc | hc
    · rcases mem_append.mp hc with hc | hc
      · exact habout₁ c hc tid htid
      · rw [hfront c hc]
        simp
    · rcases mem_append.mp hc with hc | hc
      · exact habout₂ c hc tid htid
      · rw [h.about_cached c hc]
        simp
  · intro x hx
    rw [filterMap_append, hwrites.1]
    exact mem_append_right _ hx

theorem Inv.restore_around {version : Int} {t : Tracker}
    (hrestore : s.followed.tracker.restore opts version = .ok (t, sent))
    {commands : List TransactionCommand} (hopen : s.ledger.transactions tid = some commands) :
    ∃ tx : TransactionState, tx.commands = commands ∧ (∀ m, .message m ∈ commands →
        .producer m.producerId ∈ s.followed.live ∨ .producer m.producerId ∈ tx.held) ∧
      ∃ pre tail, Around tid tx s.followed.live sent pre tail := by
  have hwf := h.follows.wf
  -- the connection and the entry of the transaction
  have hlive := h.kept.live tid (by simp [hopen])
  obtain ⟨cs, hcs⟩ := hwf.connection_mem_iff.mp ((h.follows.live _).mp hlive)
  have hbooks := h.booked _ hcs
  obtain ⟨tx, htx⟩ := hbooks.complete tid rfl (by simp [hopen])
  have hcommands : tx.commands = commands :=
    Option.some.inj ((hbooks.commands _ htx).symm.trans hopen)
  refine ⟨tx, hcommands, ?_, ?_⟩
  · rw [← hcommands]
    exact hbooks.covers _ htx
  · obtain ⟨pre, post, rfl, houter, hannounced⟩ := h.restore_block hK hopts hrestore hcs
    obtain ⟨pre', mid, post', hsettled, hinner⟩ := settled_around (h.owns hcs)
      (hbooks.keys.nodup_keys (LocalTransactionId.orderedOn _)) htx
    have hmid : ∀ c ∈ mid, c.about ≠ some (.local tid) := fun c hc => hinner c (by simp [hc])
    have hpost : ∀ c ∈ post' ++ post, c.about ≠ some (.local tid) := by
      intro c hc
      rcases mem_append.mp hc with hc | hc
      · exact hinner c (by simp [hc])
      · exact houter c (by simp [hc]) tid rfl
    refine ⟨pre ++ pre',
      mid ++ (doubt tx).toList.map forceRollback ++ (post' ++ post),
      ?_, ?_, ?_, ?_, ?_⟩
    · rw [hsettled]
      simp
    · intro c hc
      rcases mem_append.mp hc with hc | hc
      · exact houter c (by simp [hc]) tid rfl
      · exact hinner c (by simp [hc])
    · intro c hc
      simp only [mem_append (s := mid ++ _), mem_append (s := mid)] at hc
      rcases hc with (hc | hc) | hc
      · exact (not_of_about (hmid c hc)).1
      · obtain ⟨commit, -, rfl⟩ := mem_map.mp hc
        rfl
      · exact (not_of_about (hpost c hc)).1
    · have hnone : ∀ {out : List Sent}, (∀ c ∈ out, c.about ≠ some (.local tid)) →
          out.filter (reports tid) = [] := by
        intro out hout
        rw [filter_eq_nil_iff]
        intro c hc
        simp [(not_of_about (hout c hc)).2]
      have hall : ((doubt tx).toList.map forceRollback).filter
          (reports tid) = (doubt tx).toList.map forceRollback := by
        rw [filter_eq_self]
        intro c hc
        obtain ⟨commit, hcommit, rfl⟩ := mem_map.mp hc
        have hid := transactionId_of_doubt ((h.owns hcs) _ htx) (Option.mem_toList.mp hcommit)
        exact decide_eq_true hid
      rw [filter_append, filter_append, hnone hmid, hnone hpost, hall, nil_append, append_nil]
    · intro p hp hplive
      obtain ⟨cs', hcs', hx⟩ := hwf.mem_iff.mp ((h.follows.live _).mp hplive)
      have hsame : (tid.connectionId, cs') ∈ s.followed.tracker.connectionStates := by
        rw [← hp]
        exact hcs'
      obtain rfl := hwf.connections.value_unique hK hcs hsame
      rw [filterMap_append]
      exact mem_append_left _ (hannounced _ hx)

/-- In a state that keeps the invariant `restore` settles every open transaction. -/
theorem Inv.restoresTransactions (version : Int) : s.RestoresTransactions opts version := by
  obtain ⟨t, blocks, hrestore, -, -⟩ := h.follows.wf.restore_details hK hopts version
  refine ⟨t, _, hrestore, ?_⟩
  intro tid commands hopen
  obtain ⟨tx, rfl, hcovers, pre, tail, haround⟩ := h.restore_around hK hopts hrestore hopen
  have hown := h.kept.own tid _ hopen
  unfold Handles
  split
  · next commit hcommit =>
    exact haround.failed hcommit (transactionId_of_doubt (fun c hc => (hown c hc).1) hcommit)
  · next hnone => exact haround.replayed hnone hown hcovers

end Logged

/-! ## Every history -/

/-- With transactions and their producers tracked: in every well-formed history whose
calls are filed where they should be and in which no removal loses a producer that a
replay needs, `restore` settles every open transaction. -/
theorem restore_handles_transactions {K : ConnectionId → Prop}
    (hK : StlMap.OrderedOn ConnectionId.less K) (messages : Bool)
    (cacheSize pullCacheSize : Int) {history : List Event}
    (hadmitted : (machine (.tracking true messages true cacheSize pullCacheSize)).Meets
      Admitted .new history)
    (hfiled : ∀ a ∈ history, a.Filed K)
    (hhands : (machine (.tracking true messages true cacheSize pullCacheSize)).Meets
      HandsOver .new history) (version : Int) :
    (machine (.tracking true messages true cacheSize pullCacheSize)).Always
      (RestoresTransactions (.tracking true messages true cacheSize pullCacheSize) version)
      .new history := by
  have hopts : TracksProducers (.tracking true messages true cacheSize pullCacheSize) :=
    ⟨restoresAll_tracking true messages true cacheSize pullCacheSize, rfl, rfl⟩
  have hstep : ∀ s a, s.Inv K → (s.Admitted a ∧ a.Filed K) ∧ s.HandsOver a →
      ((machine (.tracking true messages true cacheSize pullCacheSize)).step s a).1.Inv K :=
    fun s a hs ha => hs.step hK hopts ha.1.1 ha.1.2 ha.2
  have halways := Machine.invariant_of_meets hstep inv_new
    ((hadmitted.and (Machine.meets_of_forall hfiled _)).and hhands)
  exact halways.mono fun s hs => hs.restoresTransactions hK hopts.restores version

/-! ## Histories that show the limits -/

namespace Sample

def laterTransaction : TransactionId := .local ⟨2, connection⟩

/-- A producer sends in two open transactions and is removed. -/
def sentInTwo : List Event :=
  [.track (.connectionInfo ⟨1, connection, false⟩),
    .track (.sessionInfo ⟨2, session⟩),
    .track (.producerInfo ⟨3, producer, false⟩),
    .track (.transactionInfo ⟨1, connection, transaction, .begin⟩),
    .track (.message ⟨4, 0, producer, some transaction, 1024⟩),
    .track (.transactionInfo ⟨2, connection, laterTransaction, .begin⟩),
    .track (.message ⟨5, 1, producer, some laterTransaction, 1024⟩),
    .track (.removeInfo ⟨6, .producer producer, false⟩)]

/-- A session is removed while a transaction with a message of its producer is open. -/
def closedSession : List Event :=
  [.track (.connectionInfo ⟨1, connection, false⟩),
    .track (.sessionInfo ⟨2, session⟩),
    .track (.producerInfo ⟨3, producer, false⟩),
    .track (.transactionInfo ⟨1, connection, transaction, .begin⟩),
    .track (.message ⟨4, 0, producer, some transaction, 1024⟩),
    .track (.removeInfo ⟨6, .session session, false⟩)]

/-- A transaction with a removed producer, one with a commit in doubt, and two failovers. -/
def settledHistory : List Event :=
  removedInTransaction ++
    [.track (.producerInfo ⟨6, ⟨[65], 2, 1⟩, false⟩),
      .track (.transactionInfo ⟨7, connection, laterTransaction, .begin⟩),
      .track (.message ⟨8, 1, ⟨[65], 2, 1⟩, some laterTransaction, 1024⟩),
      .track (.transactionInfo ⟨9, connection, laterTransaction, .commitOnePhase⟩),
      .transportInterrupted, .restore 11, .transportInterrupted]

def logged (history : List Event) : Logged := (machine opts).run .new history

end Sample

theorem restore_handles_sample :
    (machine opts).Always (RestoresTransactions opts 11) .new
      settledHistory :=
  restore_handles_transactions (ConnectionId.orderedOn_singleton connection) true 131072 10
    (by decide) (by decide +kernel) (by decide +kernel) 11

variable {commands : List TransactionCommand} {id : LocalTransactionId}

theorem Replayed.announced_at {live : Finset Entity} {sent : List Sent}
    (h : Replayed live id commands sent)
    {n : Nat} {m : Message} (hn : sent[n]? = some (.oneway (.message m)))
    (hm : m.transactionId = some (.local id)) :
    .producer m.producerId ∈ (sent.take n).filterMap Sent.announced := by
  obtain ⟨hlt, hget⟩ := List.getElem?_eq_some_iff.mp hn
  refine h.announced _ m (sent.drop (n + 1)) ?_ hm
  rw [← hget, getElem_cons_drop, take_append_drop]

/-- What a replay of the state sends. -/
def Logged.sent (opts : Options) (version : Int) (s : Logged) : List Sent :=
  match s.followed.tracker.restore opts version with
  | .error _ => []
  | .ok (_, sent) => sent

theorem Logged.RestoresTransactions.replayed {opts : Options} {version : Int} {s : Logged}
    (h : s.RestoresTransactions opts version) (hopen : s.ledger.transactions id = some commands)
    (hdoubt : commands.getLast?.bind inDoubt = none) :
    Replayed s.followed.live id commands (s.sent opts version) := by
  obtain ⟨tracker, sent, hrestore, hhandles⟩ := h
  have hhandles := hhandles id commands hopen
  rw [Handles, hdoubt] at hhandles
  rwa [Logged.sent, hrestore]

/-- Well-formed histories after which a message is replayed without its producer: the
producer was removed with messages in two open transactions, or with its session. -/
theorem restore_misses_producers :
    (∀ history ∈ [sentInTwo, closedSession],
      (machine opts).Meets Admitted .new history ∧
        ∀ a ∈ history, a.Filed (· = connection)) ∧
    ¬ (logged sentInTwo).RestoresTransactions opts 11 ∧
    ¬ (logged closedSession).RestoresTransactions opts 11 := by
  have hcommands : ∀ history ∈ [sentInTwo, closedSession],
      (logged history).ledger.transactions ⟨1, connection⟩ =
        some [.info ⟨1, connection, transaction, .begin⟩,
          .message ⟨4, 0, producer, some transaction, 1024⟩] := by decide
  refine ⟨by decide, fun h => ?_, fun h => ?_⟩
  · have hreplayed := h.replayed (hcommands _ (by simp)) rfl
    exact absurd (hreplayed.announced_at (n := 4)
      (m := ⟨4, 0, producer, some transaction, 1024⟩) (by decide) rfl)
      (by decide)
  · have hreplayed := h.replayed (hcommands _ (by simp)) rfl
    exact absurd (hreplayed.announced_at (n := 3)
      (m := ⟨4, 0, producer, some transaction, 1024⟩) (by decide) rfl)
      (by decide)

end ActivemqCpp.State
