import ActivemqCpp.Base.Machine
import ActivemqCpp.State.TrackedTransactions

/-!
# Tracking a transaction, local or XA

The transactions of a connection are kept in a map whose keys are `LocalTransactionId`s, while
commands carry a `TransactionId`; every access casts the id. For a local transaction the tracker
takes all commands and keeps them in order (`Opened.step`). An `XATransactionId` cannot be cast:
the `begin` already throws, as does every later command but an acknowledgement, which the tracker
does not look at.
-/

namespace ActivemqCpp.State

open Base Decaf Commands List
open LocalTransactionId (less less_self)

/-- A command of the transaction `id`, after its `begin`. -/
def Inside (connection : ConnectionId) (id : TransactionId) : Command → Prop
  | .message m => m.transactionId = some id ∧ m.producerId.parentId.parentId = connection
  | .transactionInfo info =>
    info.connectionId = connection ∧ info.transactionId = id ∧
      info.type ∈ [.end, .prepare, .commitOnePhase, .commitTwoPhase, .rollback]
  | .other .messageAck _ => True
  | _ => False

/-- What is recorded of a command. -/
def recorded : Command → List TransactionCommand
  | .message m => [.message m]
  | .transactionInfo info => [.info info]
  | _ => []

/-- The sender of a message is tracked. -/
def ConnectionState.KnowsSender (cs : ConnectionState) : Command → Prop
  | .message m =>
    (cs.sessions.find SessionId.less m.producerId.parentId).map
      (fun ss => (ss.producers.find ProducerId.less m.producerId).isSome) = some true
  | _ => True

/-- A producer that points to a transaction is tracked as before. -/
theorem ConnectionState.KnowsSender.setTransactionState {cs : ConnectionState} {command : Command}
    (h : cs.KnowsSender command) (id : ProducerId) (serial : Nat) :
    (cs.updateSession id.parentId (.setTransactionState id serial)).KnowsSender command := by
  cases command with
  | message m =>
    refine (StlMap.map_find_update (fun ss => ?_) _).trans h
    have hnone := @StlMap.find_update_eq_none _ _ ProducerId.less id ss.producers
      (fun ps => { ps with transactionState := some serial }) m.producerId
    rw [Bool.eq_iff_iff, Option.isSome_iff_ne_none, Option.isSome_iff_ne_none]
    exact not_congr hnone
  | _ => trivial

namespace Tracker

/-- The calls of `track`. -/
def tracking (opts : Options) : Machine Tracker Command (Except Exn Tracked) :=
  ⟨fun t command => t.track opts command⟩

def Accepts (opts : Options) (t : Tracker) (command : Command) : Prop :=
  ∃ tracked, (t.track opts command).2 = .ok tracked

/-- The connection is tracked, and so are the senders of the commands. -/
structure Serves (connection : ConnectionId) (commands : List Command) (t : Tracker)
    (cs : ConnectionState) : Prop where
  connection : t.connectionStates.find ConnectionId.less connection = some cs
  senders : ∀ command ∈ commands, cs.KnowsSender command

/-- The commands that are kept under a transaction id. -/
def commandsOf (connection : ConnectionId) (t : Tracker) :
    TransactionId → Option (List TransactionCommand)
  | .xa _ => none
  | .local id =>
    (t.connectionStates.find ConnectionId.less connection).bind fun cs =>
      (cs.transactions.find less id).map (·.commands)

/-- All commands are accepted and kept in order under the transaction's id. -/
structure Records (opts : Options) (info : TransactionInfo) (commands : List Command)
    (t : Tracker) : Prop where
  accepts : (tracking opts).Meets (Accepts opts) t (.transactionInfo info :: commands)
  kept : ((tracking opts).run t (.transactionInfo info :: commands)).commandsOf info.connectionId
    info.transactionId = some (.info info :: commands.flatMap recorded)

variable {opts : Options} {t : Tracker} {connection : ConnectionId} {id : LocalTransactionId}
  {kept : List TransactionCommand} {command : Command} {commands : List Command}

/-! ## Local transactions -/

/-- The transaction is open with the commands `kept`; the senders of `later` are known. -/
def Opened (connection : ConnectionId) (id : LocalTransactionId) (kept : List TransactionCommand)
    (later : List Command) (t : Tracker) : Prop :=
  ∃ cs, t.Serves connection later cs ∧
    (cs.transactions.find less id).map (·.commands) = some kept

variable {cs : ConnectionState}

/-- A visit that ends well. -/
theorem opened_of_visit {cs' : ConnectionState} {tracked : Tracked}
    {f : ConnectionState → ConnectionState × Except Exn Tracked}
    (hcs : t.connectionStates.find ConnectionId.less connection = some cs)
    (hvisit : t.visit opts command = t.withConnection connection f) (hf : f cs = (cs', .ok tracked))
    (hkept : (cs'.transactions.find less id).map (·.commands) = some kept)
    (hsenders : ∀ command ∈ commands, cs'.KnowsSender command) :
    t.Accepts opts command ∧ Opened connection id kept commands (t.track opts command).1 := by
  rw [withConnection, hcs] at hvisit
  dsimp only at hvisit
  rw [hf] at hvisit
  refine ⟨⟨tracked, by rw [track, hvisit]; rfl⟩, cs', ⟨?_, hsenders⟩, hkept⟩
  rw [track, hvisit]
  rw [StlMap.find_update_self, hcs]
  rfl

variable (hopts : opts.trackTransactions = true)
include hopts

theorem opened_begin {info : TransactionInfo}
    (htype : info.type = .begin) (hid : info.transactionId = .local id)
    (h : t.Serves info.connectionId commands cs) :
    t.Accepts opts (.transactionInfo info) ∧
      Opened info.connectionId id [.info info] commands (t.track opts (.transactionInfo info)).1 := by
  have hvisit : t.visit opts (.transactionInfo info) = processBeginTransaction opts info t := by
    rw [visit, processTransactionInfo, htype]
  rw [processBeginTransaction, if_pos hopts] at hvisit
  refine opened_of_visit h.connection hvisit (by rw [hid]; rfl) ?_ ?_
  · rw [ConnectionState.transactions_begin, StlMap.find_put_self (less_self id)]
    rfl
  · exact h.senders

omit hopts in
/-- The tracked producer of a message is found, and points to the transaction from then on. -/
theorem trackInTransaction_ok (opts : Options) (id : LocalTransactionId) (tx : TransactionState)
    {m : Message} (h : cs.KnowsSender (.message m)) :
    ∃ cs', trackInTransaction opts m id tx cs = (cs', .ok .marker) ∧
      cs'.transactions = cs.transactions.update less id
        (.addCommand (.message m)) ∧
      ∀ command, cs.KnowsSender command → cs'.KnowsSender command := by
  obtain ⟨ss, hss, hproducer⟩ := Option.map_eq_some_iff.mp h
  obtain ⟨ps, hps⟩ := Option.isSome_iff_exists.mp hproducer
  have hss' : (cs.updateTransaction id (.addCommand (.message m))).sessions.find SessionId.less
      m.producerId.parentId = some ss := hss
  rw [trackInTransaction]
  split
  · rw [hss']
    dsimp only
    rw [hps]
    exact ⟨_, rfl, rfl, fun command hknown => hknown.setTransactionState _ _⟩
  · exact ⟨_, rfl, rfl, fun command hknown => hknown⟩

theorem Opened.step (h : Opened connection id kept (command :: commands) t)
    (hinside : Inside connection (.local id) command) :
    t.Accepts opts command ∧
      Opened connection id (kept ++ recorded command) commands (t.track opts command).1 := by
  obtain ⟨cs, hserves, hkept⟩ := h
  obtain ⟨hsender, hsenders⟩ := forall_mem_cons.mp hserves.senders
  obtain ⟨tx, htx, rfl⟩ := Option.map_eq_some_iff.mp hkept
  have hadded operation :
      ((cs.transactions.update less id (.addCommand operation)).find
        less id).map (·.commands) = some (tx.commands ++ [operation]) := by
    rw [StlMap.find_update_self, htx]
    rfl
  have hfind (f : LocalTransactionId → TransactionState → ConnectionState × Except Exn Tracked) :
      withTransaction (.local id) f cs = f id tx := by
    rw [withTransaction, localTransactionId]
    dsimp only
    rw [htx]
  cases command with
  | message m =>
    obtain ⟨hid, rfl⟩ := hinside
    obtain ⟨cs', hf, htransactions, hkeeps⟩ := trackInTransaction_ok opts id tx hsender
    have hvisit : t.visit opts (.message m) = t.processMessage opts m := rfl
    rw [processMessage, hopts, hid] at hvisit
    refine opened_of_visit hserves.connection hvisit (by rw [hfind, hf]) ?_ ?_
    · rw [htransactions]
      exact hadded (.message m)
    · exact fun command hin => hkeeps command (hsenders command hin)
  | transactionInfo info =>
    obtain ⟨rfl, hid, htype⟩ := hinside
    have hbody (result : TransactionInfo → Tracked)
        (hvisit : t.visit opts (.transactionInfo info) = processInTransaction result opts info t) :
        t.Accepts opts (.transactionInfo info) ∧ Opened info.connectionId id
          (tx.commands ++ [.info info]) commands (t.track opts (.transactionInfo info)).1 := by
      rw [processInTransaction, if_pos hopts] at hvisit
      refine opened_of_visit hserves.connection hvisit (by rw [hid, hfind]) ?_ ?_
      · exact hadded (.info info)
      · exact hsenders
    rw [visit, processTransactionInfo] at hbody
    rcases htype' : info.type with _ | _ | _ | _ | _ | _ | _ | _ <;>
      simp [htype'] at htype <;> rw [htype'] at hbody <;> exact hbody _ rfl
  | other kind commandId =>
    refine ⟨⟨.untracked, rfl⟩, cs, ⟨hserves.connection, hsenders⟩, ?_⟩
    rw [hkept]
    exact congrArg some (append_nil _).symm
  | _ => exact hinside.elim

theorem Opened.run (h : Opened connection id kept commands t)
    (hinside : ∀ command ∈ commands, Inside connection (.local id) command) :
    (tracking opts).Meets (Accepts opts) t commands ∧
      Opened connection id (kept ++ commands.flatMap recorded) [] ((tracking opts).run t commands) := by
  induction commands generalizing t kept with
  | nil => exact ⟨trivial, by simpa using h⟩
  | cons command commands ih =>
    obtain ⟨hhead, hin⟩ := forall_mem_cons.mp hinside
    obtain ⟨haccepts, hopened⟩ := h.step hopts hhead
    obtain ⟨hmeets, hlast⟩ := ih hopened hin
    refine ⟨⟨haccepts, hmeets⟩, ?_⟩
    rw [flatMap_cons, ← append_assoc]
    exact hlast

/-- **Transactions are recorded iff they are local.** With transaction tracking on, for a tracked
connection and any commands of a transaction, from its `begin` on and with tracked senders: all
are accepted and kept in order under the transaction's id iff the id is a local one. Nothing can
be kept under another: the map of the connection has no key for it (`commandsOf`). -/
theorem records_iff_local {info : TransactionInfo}
    (htype : info.type = .begin) {cs : ConnectionState} (h : t.Serves info.connectionId commands cs)
    (hinside : ∀ command ∈ commands, Inside info.connectionId info.transactionId command) :
    t.Records opts info commands ↔ ∃ id, info.transactionId = .local id := by
  constructor
  · intro hrecords
    rcases hid : info.transactionId with id | xid
    · exact ⟨id, rfl⟩
    · have hkept := hrecords.kept
      rw [hid] at hkept
      cases hkept
  · rintro ⟨id, hid⟩
    obtain ⟨haccepts, hopened⟩ := opened_begin hopts htype hid h
    obtain ⟨hmeets, cs', hserves, hkept⟩ := hopened.run hopts (hid ▸ hinside)
    refine ⟨⟨haccepts, hmeets⟩, ?_⟩
    rw [hid]
    exact (congrArg (Option.bind · _) hserves.connection).trans hkept

/-- A connection with a session and a producer, transactions tracked. -/
def xaSample : Tracker :=
  (tracking { Options.new with trackTransactions := true }).run .new
    [.connectionInfo ⟨1, ⟨[65]⟩, false⟩, .sessionInfo ⟨2, ⟨[65], 1⟩⟩,
      .producerInfo ⟨3, ⟨[65], 1, 1⟩, false⟩]

/-- A message, an acknowledgement and a commit. -/
def sampleCommands (id : TransactionId) : List Command :=
  [.message ⟨5, 0, ⟨[65], 1, 1⟩, some id, 10⟩, .other .messageAck 6,
    .transactionInfo ⟨7, ⟨[65]⟩, id, .commitOnePhase⟩]

omit hopts in
theorem records_local_sample : xaSample.Records { Options.new with trackTransactions := true }
      ⟨4, ⟨[65]⟩, .local ⟨1, ⟨[65]⟩⟩, .begin⟩ (sampleCommands (.local ⟨1, ⟨[65]⟩⟩)) := by
  refine (records_iff_local rfl rfl ⟨rfl, ?_⟩ ?_).mpr ⟨_, rfl⟩
  · exact forall_mem_cons.mpr ⟨rfl, forall_mem_cons.mpr ⟨trivial,
      forall_mem_cons.mpr ⟨trivial, forall_mem_nil _⟩⟩⟩
  · exact forall_mem_cons.mpr ⟨⟨rfl, rfl⟩, forall_mem_cons.mpr ⟨trivial,
      forall_mem_cons.mpr ⟨⟨rfl, rfl, by decide⟩, forall_mem_nil _⟩⟩⟩

omit hopts in
/-- The same transaction under an XA id: nothing is kept, and the `begin`, the message and the
commit are rejected. -/
theorem xa_rejected : ¬ xaSample.Records { Options.new with trackTransactions := true }
      ⟨4, ⟨[65]⟩, .xa ⟨1, [1], [1]⟩, .begin⟩ (sampleCommands (.xa ⟨1, [1], [1]⟩)) ∧
    (.transactionInfo ⟨4, ⟨[65]⟩, .xa ⟨1, [1], [1]⟩, .begin⟩ ::
      sampleCommands (.xa ⟨1, [1], [1]⟩)).map
        (fun command => (xaSample.track { Options.new with trackTransactions := true } command).2) =
      [.error .io, .error .io, .ok .untracked, .error .io] := by
  refine ⟨fun h => ?_, by decide⟩
  obtain ⟨tracked, haccepts⟩ := h.accepts.1
  cases haccepts

end Tracker

end ActivemqCpp.State
