import ActivemqCpp.State.Books

/-!
# Runs of the tracker next to the ledger

The calls on the tracker, run next to the ledger of what the client did in its local
transactions. Every command keeps the books of every connection; a well-formed history
in which no removal loses a producer that a replay would need (`HandsOver`) keeps them
throughout (`Inv.step`).

A tracked producer has one pointer, to the transaction that it last sent in, and only
that transaction takes it over when it is removed; a session takes its producers along.
-/

namespace ActivemqCpp.State

open Base Decaf Commands Option Tracker Entity

/-- The local transaction that a call is about. -/
def Event.transaction : Event → Option LocalTransactionId
  | .track (.message m) => m.transactionId.bind localId
  | .track (.transactionInfo info) => localId info.transactionId
  | .responded info => localId info.transactionId
  | _ => none

/-- The tracker and the broker, next to the ledger. -/
structure Logged where
  followed : Followed
  ledger : Ledger

namespace Logged

def new : Logged := ⟨.new, .new⟩

def step (opts : Options) (s : Logged) (a : Event) : Logged :=
  ⟨s.followed.step opts a, s.ledger.step a⟩

def machine (opts : Options) : Machine Logged Event Unit := ⟨fun s a => (s.step opts a, ())⟩

/-- A message in a transaction comes from a live producer; a transaction begins under a
fresh id on a live connection. -/
def Starts (s : Logged) : Event → Prop
  | .track (.message m) => m.transactionId ≠ none → .producer m.producerId ∈ s.followed.live
  | .track (.transactionInfo info) =>
    info.type = .begin → ∀ id ∈ localId info.transactionId,
      id ∉ s.ledger.begun ∧ .connection id.connectionId ∈ s.followed.live
  | _ => True

instance (s : Logged) (a : Event) : Decidable (s.Starts a) := by
  unfold Starts
  split <;> infer_instance

/-- A call in a well-formed history. A command of a transaction is sent over the
connection that the transaction's id names. -/
structure Admitted (s : Logged) (a : Event) : Prop where
  followed : s.followed.Admitted a
  placed : ∀ id ∈ a.transaction, a.connectionId = some id.connectionId
  starts : s.Starts a

instance (s : Logged) (a : Event) : Decidable (s.Admitted a) :=
  decidable_of_iff (s.followed.Admitted a ∧
      (∀ id ∈ a.transaction, a.connectionId = some id.connectionId) ∧ s.Starts a)
    ⟨fun h => ⟨h.1, h.2.1, h.2.2⟩, fun h => ⟨h.followed, h.placed, h.starts⟩⟩

/-- A producer that is removed has messages in no open transaction but the one that it
last sent in; a session that is removed has no producer with a message in an open one. -/
def HandsOver (s : Logged) : Event → Prop
  | .track (.removeInfo info) =>
    match info.objectId with
    | .producer p => ∀ id ∈ s.ledger.begun, p ∈ s.ledger.senders id → s.ledger.last p = some id
    | .session sid => ∀ id ∈ s.ledger.begun, ∀ p ∈ s.ledger.senders id, p.parentId ≠ sid
    | _ => True
  | _ => True

instance (s : Logged) (a : Event) : Decidable (s.HandsOver a) := by
  unfold HandsOver
  split
  · split <;> infer_instance
  · infer_instance

end Logged

/-! ## What a ledger keeps by itself -/

/-- Open transactions were begun on live connections, and their commands are their own. -/
structure Ledger.Kept (live used : Finset Entity) (l : Ledger) : Prop where
  live : ∀ id, l.transactions id ≠ none → .connection id.connectionId ∈ live
  begun : ∀ id, l.transactions id ≠ none → id ∈ l.begun
  last : ∀ p id, l.last p = some id → id ∈ l.begun ∧ .producer p ∈ used
  own : ∀ id commands, l.transactions id = some commands → ∀ c ∈ commands,
    transactionOf c.command = some (.local id) ∧
      ∀ p ∈ c.sender, p.parentId.parentId = id.connectionId

namespace Ledger

variable {live live' used used' : Finset Entity} {l : Ledger}

theorem kept_new : new.Kept live used :=
  ⟨fun _ h => absurd rfl h, fun _ h => absurd rfl h, fun _ _ h => absurd h (by simp [new]),
    fun _ _ h => absurd h (by simp [new])⟩

variable (h : l.Kept live used)
include h

/-- The broker's objects may change as long as the connections in use stay. -/
theorem Kept.mono (hused : used ⊆ used')
    (hlive : ∀ id, l.transactions id ≠ none → .connection id.connectionId ∈ live →
      .connection id.connectionId ∈ live') : l.Kept live' used' := by
  refine { h with live := ?_, last := ?_ }
  · intro id hopen
    exact hlive id hopen (h.live id hopen)
  · intro p id hlast
    obtain ⟨hbegun, hp⟩ := h.last p id hlast
    exact ⟨hbegun, hused hp⟩

variable {id : LocalTransactionId}

theorem Kept.opens {info : TransactionInfo}
    (hid : info.transactionId = .local id) (hlive : .connection id.connectionId ∈ live) :
    (l.opens id info).Kept live used := by
  refine ⟨?_, ?_, ?_, ?_⟩
  · intro other hopen
    by_cases heq : other = id
    · rwa [heq]
    · rw [opens_of_ne heq] at hopen
      exact h.live other hopen
  · intro other hopen
    by_cases heq : other = id
    · rw [heq]
      exact Finset.mem_insert_self _ _
    · rw [opens_of_ne heq] at hopen
      exact Finset.mem_insert_of_mem (h.begun other hopen)
  · intro p other hlast
    obtain ⟨hbegun, hp⟩ := h.last p other hlast
    exact ⟨Finset.mem_insert_of_mem hbegun, hp⟩
  · intro other commands hcommands
    by_cases heq : other = id
    · subst heq
      have hself : (l.opens other info).transactions other = some [.info info] :=
        Function.update_self ..
      obtain rfl := some.inj (hself.symm.trans hcommands)
      intro c hc
      rw [List.mem_singleton.mp hc]
      exact ⟨congrArg some hid, fun p hp => absurd hp (by simp [TransactionCommand.sender])⟩
    · rw [opens_of_ne heq] at hcommands
      exact h.own other commands hcommands

theorem Kept.adds {c : TransactionCommand} (hc : transactionOf c.command = some (.local id) ∧
      ∀ p ∈ c.sender, p.parentId.parentId = id.connectionId) : (l.adds id c).Kept live used := by
  have hopen : ∀ other, (l.adds id c).transactions other ≠ none → l.transactions other ≠ none := by
    intro other hopen hnone
    by_cases heq : other = id
    · subst heq
      rw [adds_of_none hnone] at hopen
      exact hopen hnone
    · rw [adds_of_ne heq] at hopen
      exact hopen hnone
  refine ⟨?_, ?_, h.last, ?_⟩
  · exact fun other hother => h.live other (hopen other hother)
  · exact fun other hother => h.begun other (hopen other hother)
  · intro other commands hcommands
    by_cases heq : other = id
    · subst heq
      have hself : (l.adds other c).transactions other =
          (l.transactions other).map (· ++ [c]) := Function.update_self ..
      obtain ⟨old, hold, rfl⟩ := map_eq_some_iff.mp (hself.symm.trans hcommands)
      intro c' hc'
      rcases List.mem_append.mp hc' with hin | hlast
      · exact h.own other old hold c' hin
      · rwa [List.mem_singleton.mp hlast]
    · rw [adds_of_ne heq] at hcommands
      exact h.own other commands hcommands

theorem Kept.sends {m : Message} (hm : m.transactionId = some (.local id))
    (hplaced : m.producerId.parentId.parentId = id.connectionId)
    (hused : .producer m.producerId ∈ used) : (l.sends id m).Kept live used := by
  unfold Ledger.sends
  split
  · next hopen =>
    have hadds : (l.adds id (.message m)).Kept live used := by
      refine h.adds ⟨hm, ?_⟩
      intro p hp
      rwa [← some.inj hp]
    refine { hadds with last := ?_ }
    intro p other hlast
    by_cases heq : p = m.producerId
    · subst heq
      have hself : Function.update l.last m.producerId (some id) m.producerId = some id :=
        Function.update_self ..
      obtain rfl := some.inj (hself.symm.trans hlast)
      exact ⟨h.begun id (isSome_iff_ne_none.mp hopen), hused⟩
    · exact h.last p other ((Function.update_of_ne heq _ _).symm.trans hlast)
  · exact h

/-- Closing transactions leaves fewer open. -/
theorem Kept.of_fewer {transactions : LocalTransactionId → Option (List TransactionCommand)}
    (hfewer : ∀ id commands, transactions id = some commands → l.transactions id = some commands) :
    Kept live used { l with transactions } := by
  have hopen : ∀ id, transactions id ≠ none → l.transactions id ≠ none := by
    intro id hid
    obtain ⟨commands, hcommands⟩ := ne_none_iff_exists'.mp hid
    rw [hfewer id commands hcommands]
    simp
  refine ⟨?_, ?_, h.last, ?_⟩
  · exact fun id hid => h.live id (hopen id hid)
  · exact fun id hid => h.begun id (hopen id hid)
  · exact fun id commands hcommands => h.own id commands (hfewer id commands hcommands)

theorem Kept.closes (id : LocalTransactionId) : (l.closes id).Kept live used := by
  apply h.of_fewer
  intro other commands hcommands
  by_cases heq : other = id
  · subst heq
    rw [Function.update_self] at hcommands
    cases hcommands
  · rwa [Function.update_of_ne heq] at hcommands

theorem Kept.closesConnection (id : ConnectionId) : (l.closesConnection id).Kept live used := by
  apply h.of_fewer
  intro other commands hcommands
  split at hcommands
  · cases hcommands
  · exact hcommands

end Ledger

/-! ## The invariant of a run -/

variable {command : Command}

/-- What is live and not withdrawn stays so. -/
theorem mem_takes_of_mem {live : Finset Entity} {x : Entity} (hx : x ∈ live)
    (hkeeps : ∀ e, withdraws command = some e → ¬ x.Within e) : x ∈ takes live command := by
  unfold takes
  split
  · exact Finset.mem_union_left _ hx
  · split
    · next e he => exact Finset.mem_filter.mpr ⟨hx, hkeeps e he⟩
    · exact hx

/-- The settings under which local transactions are tracked with their producers. -/
structure Tracker.TracksProducers (opts : Options) : Prop where
  restores : RestoresAll opts
  transactions : opts.trackTransactions = true
  producers : opts.trackTransactionProducers = true

namespace Logged

structure Inv (K : ConnectionId → Prop) (s : Logged) : Prop where
  follows : s.followed.Follows K
  kept : s.ledger.Kept s.followed.live s.followed.used
  booked : s.followed.tracker.Booked s.ledger s.followed.live
  cached : s.followed.tracker.CachesPlain

variable {K : ConnectionId → Prop} {s : Logged}

theorem inv_new : new.Inv K :=
  ⟨Followed.follows_new, Ledger.kept_new, fun _ he => absurd he List.not_mem_nil,
    fun _ hm => absurd hm List.not_mem_nil⟩

/-- The producers of messages belong to the connection of the transaction. -/
theorem Inv.senders (h : s.Inv K) (tid : LocalTransactionId) :
    ∀ p ∈ s.ledger.senders tid, p.parentId.parentId = tid.connectionId ∧ tid ∈ s.ledger.begun := by
  intro p hp
  obtain ⟨c, hc, hsender⟩ := List.mem_filterMap.mp hp
  rw [Ledger.log] at hc
  cases htx : s.ledger.transactions tid with
  | none =>
    rw [htx] at hc
    cases hc
  | some commands =>
    rw [htx] at hc
    exact ⟨(h.kept.own tid commands htx c hc).2 p hsender, h.kept.begun tid (by simp [htx])⟩

/-- A live connection is withdrawn by itself alone. -/
theorem not_within_of_connection {id : ConnectionId} {e : Entity} (hne : e ≠ .connection id) :
    ¬ (connection id).Within e := by
  rintro (h | h | h)
  · exact hne h.symm
  · exact absurd h (by simp [parent])
  · exact absurd h (by simp [parent])

theorem Inv.kept_track (h : s.Inv K) (hplaced : ∀ id ∈ (Event.track command).transaction,
      (Event.track command).connectionId = some id.connectionId)
    (hstarts : s.Starts (.track command)) :
    (s.ledger.track command).Kept (takes s.followed.live command)
      (s.followed.used ∪ Followed.uses command) := by
  have hused : s.followed.used ⊆ s.followed.used ∪ Followed.uses command :=
    Finset.subset_union_left
  -- commands that the ledger does not see and that remove no connection
  have hsame : (∀ id, withdraws command ≠ some (.connection id)) →
      s.ledger.Kept (takes s.followed.live command)
        (s.followed.used ∪ Followed.uses command) := by
    intro hkeeps
    refine h.kept.mono hused fun tid _ hlive => mem_takes_of_mem hlive fun e he => ?_
    apply not_within_of_connection
    rintro rfl
    exact hkeeps _ he
  cases command with
  | message m =>
    have hkept := hsame (by simp [withdraws])
    unfold Ledger.track
    dsimp only
    split
    · next tid hm =>
      have hlive := hstarts (by simp [hm])
      have hid := hplaced tid (by simp [Event.transaction, hm, localId])
      exact hkept.sends hm (some.inj hid) (hused (h.follows.used hlive))
    · exact hkept
  | transactionInfo info =>
    have hkept := hsame (by simp [withdraws])
    unfold Ledger.track
    dsimp only
    split
    · exact hkept
    · exact hkept
    · exact hkept
    · next tid hinfo htype =>
      have hlive := (hstarts htype tid (by simp [hinfo, localId])).2
      exact hkept.opens hinfo hlive
    · next tid hinfo _ _ _ =>
      refine hkept.adds ⟨congrArg some hinfo, ?_⟩
      exact fun p hp => absurd hp (by simp [TransactionCommand.sender])
  | removeInfo info =>
    obtain ⟨commandId, objectId, responseRequired⟩ := info
    cases objectId with
    | connection id =>
      refine (h.kept.closesConnection id).mono hused fun tid hopen hlive => ?_
      refine mem_takes_of_mem hlive fun e he => ?_
      apply not_within_of_connection
      intro heq
      obtain rfl : connection id = e := some.inj he
      apply hopen
      show (if tid.connectionId = id then none else _) = none
      rw [if_pos (connection.inj heq).symm]
    | _ => exact hsame (by simp [withdraws])
  | destinationInfo info =>
    apply hsame
    intro id
    simp only [withdraws]
    split <;> simp
  | _ => exact hsame (by simp [withdraws])

/-- What is withdrawn with a session is what belongs to it. -/
theorem Inv.booked_track (h : s.Inv K) (hK : StlMap.OrderedOn ConnectionId.less K)
    {opts : Options} (hopts : TracksProducers opts)
    (hadmitted : s.Admitted (.track command)) (hid : ∀ id, filedUnder command = some id → K id)
    (hhands : s.HandsOver (.track command)) :
    (s.followed.tracker.visit opts command).1.Booked (s.ledger.track command)
      (takes s.followed.live command) := by
  have hwf := h.follows.wf
  -- a command after which the producers of the open transactions are still live
  have hstay : ∀ {t : Tracker} {l : Ledger}, t.Booked l s.followed.live →
      (∀ tid, ∀ p ∈ l.senders tid, ∀ e, withdraws command = some e →
        ¬ (producer p).Within e) → t.Booked l (takes s.followed.live command) := by
    intro t l ht hkeeps
    exact ht.of_live fun tid p hp hlive => mem_takes_of_mem hlive (hkeeps tid p hp)
  have hquiet : withdraws command = none → ∀ {t : Tracker} {l : Ledger},
      t.Booked l s.followed.live → t.Booked l (takes s.followed.live command) := by
    intro hnone t l ht
    apply hstay ht
    intro tid p _ e he
    rw [hnone] at he
    cases he
  cases command with
  | connectionInfo info =>
    refine hquiet rfl (h.booked.connectionInfo hK hwf (hid _ rfl) ?_)
    intro tid htid
    by_contra hopen
    have hlive := h.kept.live tid hopen
    rw [htid] at hlive
    exact hadmitted.followed.1 _ (by simp [creates]) (h.follows.used hlive)
  | sessionInfo info => exact hquiet rfl (h.booked.sessionInfo hK hwf (hid _ rfl))
  | producerInfo info =>
    refine hquiet rfl (h.booked.producerInfo hK hwf (hid _ rfl) ?_)
    by_contra hlast
    obtain ⟨tid, htid⟩ := ne_none_iff_exists'.mp hlast
    exact hadmitted.followed.1 _ (by simp [creates]) (h.kept.last _ _ htid).2
  | consumerInfo info => exact hquiet rfl (h.booked.consumerInfo hK hwf (hid _ rfl))
  | destinationInfo info =>
    refine hstay (h.booked.destinationInfo hK hwf (hid _ rfl)) ?_
    intro tid p _ e he
    simp only [withdraws] at he
    split at he
    · rw [← some.inj he]
      simp [Entity.Within, parent]
    · cases he
  | removeInfo info =>
    obtain ⟨commandId, objectId, responseRequired⟩ := info
    cases objectId with
    | connection id =>
      refine hstay (h.booked.removeConnection hK hwf (hid _ rfl)) ?_
      intro tid p hp e he
      change p ∈ (s.ledger.closesConnection id).senders tid at hp
      rw [← some.inj he, within_connection]
      intro (hpid : p.parentId.parentId = id)
      have hne : tid.connectionId ≠ id := by
        intro heq
        have hnone : (s.ledger.closesConnection id).transactions tid = none := if_pos heq
        rw [Ledger.senders, Ledger.log, hnone] at hp
        cases hp
      rw [Ledger.senders, Ledger.log, Ledger.closesConnection_of_ne hne] at hp
      exact hne ((h.senders tid p hp).1.symm.trans hpid)
    | session sid =>
      refine hstay (h.booked.removeSession hK hwf (hid _ rfl)) ?_
      intro tid p hp e he
      rw [← some.inj he, within_session]
      intro hsid
      exact hhands tid (h.senders tid p hp).2 p hp (some.inj hsid)
    | consumer id =>
      refine hstay (h.booked.removeConsumer hK hwf (hid _ rfl)) ?_
      intro tid p _ e he
      rw [← some.inj he, within_consumer]
      simp
    | producer p =>
      have hlive : .producer p ∈ s.followed.live := hadmitted.followed.1
      refine h.booked.removeProducer hK hwf ((h.follows.live _).mp hlive) ?_
        (fun tid q hq => (h.senders tid q hq).1) ?_
      · intro x hx hne
        refine mem_takes_of_mem hx fun e he => ?_
        rw [← some.inj he, within_producer]
        exact hne
      · intro tid hp
        exact hhands tid (h.senders tid p hp).2 hp
    | other => exact hquiet rfl h.booked
  | message m =>
    refine hquiet rfl (h.booked.message hK hwf hopts.transactions hopts.producers ?_ (hid _ rfl) ?_)
    · intro tid htid
      exact some.inj (hadmitted.placed tid htid)
    · intro hm
      have hlive := hadmitted.starts hm
      exact ⟨hlive, (h.follows.live _).mp hlive⟩
  | transactionInfo info =>
    refine hquiet rfl (h.booked.transactionInfo hK hwf hopts.transactions ?_ (hid _ rfl) ?_)
    · intro tid htid
      exact some.inj (hadmitted.placed tid htid)
    · intro htype tid htid
      obtain ⟨hfresh, -⟩ := hadmitted.starts htype tid htid
      refine ⟨?_, ?_⟩
      · by_contra hopen
        exact hfresh (h.kept.begun tid hopen)
      · intro p hlast
        exact hfresh (h.kept.last p tid hlast).1
  | messagePull pull =>
    refine hquiet rfl (h.booked.of_connectionStates ?_)
    show (s.followed.tracker.processMessagePull opts pull).1.connectionStates = _
    unfold processMessagePull
    split <;> rfl
  | consumerControl control => exact hquiet rfl h.booked
  | other => exact hquiet rfl h.booked

/-! ## Every step -/

theorem Inv.step (h : s.Inv K) (hK : StlMap.OrderedOn ConnectionId.less K) {opts : Options}
    (hopts : TracksProducers opts) {a : Event} (hadmitted : s.Admitted a)
    (hfiled : a.Filed K) (hhands : s.HandsOver a) : (s.step opts a).Inv K := by
  have hfollows := h.follows.step hK hopts.restores hadmitted.followed hfiled
  -- calls that leave the objects, the sessions and the transactions as they are
  have hmirrors : ∀ {t : Tracker}, Mirrors s.followed.tracker t →
      Followed.Follows K { s.followed with tracker := t } →
      Inv K ⟨{ s.followed with tracker := t }, s.ledger⟩ := by
    intro t ht hf
    refine ⟨hf, h.kept, h.booked.of_mirrors ht, ?_⟩
    show ∀ m ∈ t.messageCache.values, _
    rw [ht.messageCache]
    exact h.cached
  cases a with
  | track command =>
    exact ⟨hfollows, h.kept_track hadmitted.placed hadmitted.starts,
      h.booked_track hK hopts hadmitted hfiled.connectionId hhands,
      h.cached.visit hopts.transactions command⟩
  | trackBack command =>
    refine hmirrors ?_ hfollows
    unfold trackBack
    split
    · split
      · exact ⟨fun e he => ⟨e.2, he, rfl, rfl⟩, rfl⟩
      · exact Mirrors.refl _
    · exact Mirrors.refl _
  | responded info =>
    have hid := hfiled.connectionId _ rfl
    refine ⟨hfollows, ?_, ?_, ?_⟩
    · show (s.ledger.step (.responded info)).Kept _ _
      unfold Ledger.step
      dsimp only
      split
      · exact h.kept.closes _
      · exact h.kept
    · refine h.booked.removeTransaction hK h.follows.wf ?_ hid
      intro tid htid
      exact some.inj (hadmitted.placed tid htid)
    · show ∀ m ∈ (s.followed.tracker.removeTransaction info).1.messageCache.values, _
      rw [removeTransaction, (sameCache_withConnection ..).messageCache]
      exact h.cached
  | transportInterrupted =>
    exact hmirrors (mirrors_map
      (g := fun cs => { cs with connectionInterruptProcessingComplete := false })
      fun _ => ⟨rfl, rfl⟩) hfollows
  | interruptProcessingComplete id =>
    refine hmirrors ?_ hfollows
    exact mirrors_withConnection fun _ => ⟨rfl, rfl⟩
  | restore version =>
    obtain ⟨t, blocks, hrestore, -, -⟩ := h.follows.wf.restore_details hK hopts.restores version
    have hstep : s.followed.step opts (.restore version) = { s.followed with tracker := t } := by
      rw [Followed.step, hrestore]
    show Inv K ⟨s.followed.step opts (.restore version), s.ledger⟩
    rw [hstep] at hfollows ⊢
    exact hmirrors (mirrors_restore hrestore) hfollows

end Logged

end ActivemqCpp.State
