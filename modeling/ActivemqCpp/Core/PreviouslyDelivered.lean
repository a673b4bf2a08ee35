import ActivemqCpp.Commands.Ids

/-!
# What a transacted consumer expects to see again after a failover

When the transport is interrupted inside a transaction, the messages delivered so far are
noted in `previouslyDeliveredMessages`, each with the mark whether the broker has delivered
it again. Two questions are asked of this map:

* **is it expected elsewhere?** — `redeliveryPendingInCompetingTransaction` runs over all
  consumers of the connection, but the body of its loop returns: the first consumer answers
  for all of them, and it knows the message by the address of its id, which is another one
  when the broker sends the message again (`pending_exact_iff`);
* **has everything come back?** — `waitForRedeliveries` polls the map, but goes on while the
  deadline is *over*: it gives up after the first poll, or polls on after the deadline
  (`wait_proper_iff`).
-/

namespace ActivemqCpp.Core

open Commands

/-- `Pointer<MessageId>`. A hash map compares such keys by their address. -/
structure MessageIdPointer where
  address : Nat
  messageId : MessageId
deriving DecidableEq, Repr

/-- `PreviouslyDeliveredMap`: the ids with the mark that the message was delivered again. -/
abbrev PreviouslyDeliveredMap := List (MessageIdPointer × Bool)

namespace PreviouslyDeliveredMap

def containsKey (map : PreviouslyDeliveredMap) (id : MessageIdPointer) : Bool :=
  map.any fun entry => entry.1.address = id.address

/-- `put(id, replayed)`. -/
def put (map : PreviouslyDeliveredMap) (id : MessageIdPointer) (replayed : Bool) :
    PreviouslyDeliveredMap :=
  if map.containsKey id then
    map.map fun entry => if entry.1.address = id.address then (entry.1, replayed) else entry
  else map ++ [(id, replayed)]

end PreviouslyDeliveredMap

/-! ## Redeliveries expected by other consumers -/

/-- `redeliveryExpectedInCurrentTransaction(dispatch, markReceipt)`. -/
def redeliveryExpectedInCurrentTransaction (transacted : Bool)
    (previouslyDelivered : Option PreviouslyDeliveredMap) (id : MessageIdPointer)
    (markReceipt : Bool) : Option PreviouslyDeliveredMap × Bool :=
  if transacted then
    match previouslyDelivered with
    | none => (none, false)
    | some map =>
      if map.containsKey id then
        (some (if markReceipt then map.put id true else map), true)
      else (some map, false)
  else (previouslyDelivered, false)

/-- A session of the connection: each of its consumers with its map. -/
structure SessionView where
  transacted : Bool
  consumers : List (Option PreviouslyDeliveredMap)

/-- `isRedeliveryExpectedInCurrentTransaction(dispatch)` of a consumer of the session. -/
def SessionView.isRedeliveryExpected (session : SessionView) (id : MessageIdPointer)
    (consumer : Option PreviouslyDeliveredMap) : Bool :=
  (redeliveryExpectedInCurrentTransaction session.transacted consumer id false).2

/-- `redeliveryPendingInCompetingTransaction(dispatch)`. -/
def redeliveryPendingInCompetingTransaction (id : MessageIdPointer) : List SessionView → Bool
  | [] => false
  | session :: sessions =>
    match session.consumers with
    | [] => redeliveryPendingInCompetingTransaction id sessions
    -- the body of the inner loop is a `return`
    | consumer :: _ => session.isRedeliveryExpected id consumer

/-- The consumers of the connection, each with whether its session is transacted, in the order
of enumeration. -/
def enumerated (sessions : List SessionView) : List (Bool × Option PreviouslyDeliveredMap) :=
  sessions.flatMap fun session => session.consumers.map (session.transacted, ·)

/-- The consumer expects the message with this id again in its transaction. -/
def ExpectsAgain (id : MessageId) (consumer : Bool × Option PreviouslyDeliveredMap) : Prop :=
  consumer.1 = true ∧ ∃ map ∈ consumer.2, ∃ entry ∈ map, entry.1.messageId = id

/-- It has noted this very object. -/
def HasNoted (id : MessageIdPointer) (consumer : Bool × Option PreviouslyDeliveredMap) : Prop :=
  consumer.1 = true ∧ ∃ map ∈ consumer.2, ∃ entry ∈ map, entry.1.address = id.address

theorem isRedeliveryExpected_iff {session : SessionView} {id : MessageIdPointer}
    {consumer : Option PreviouslyDeliveredMap} :
    session.isRedeliveryExpected id consumer = true ↔
      HasNoted id (session.transacted, consumer) := by
  have hkey : ∀ map : PreviouslyDeliveredMap,
      map.containsKey id = true ↔ ∃ entry ∈ map, entry.1.address = id.address := fun map => by
    simp only [PreviouslyDeliveredMap.containsKey, List.any_eq_true, decide_eq_true_eq]
  unfold SessionView.isRedeliveryExpected redeliveryExpectedInCurrentTransaction HasNoted
  cases session.transacted with
  | false => simp
  | true =>
    cases consumer with
    | none => simp
    | some map =>
      by_cases h : map.containsKey id = true
      · simpa [h] using (hkey map).mp h
      · simpa [h] using mt (hkey map).mpr h

theorem pending_iff_first (id : MessageIdPointer) (sessions : List SessionView) :
    redeliveryPendingInCompetingTransaction id sessions = true ↔
      ∃ consumer ∈ (enumerated sessions).head?, HasNoted id consumer := by
  induction sessions with
  | nil => simp [redeliveryPendingInCompetingTransaction, enumerated]
  | cons session sessions ih =>
    unfold redeliveryPendingInCompetingTransaction
    cases hconsumers : session.consumers with
    | nil => simpa [enumerated, hconsumers] using ih
    | cons consumer rest => simp [enumerated, hconsumers, isRedeliveryExpected_iff]

/-- **Competing transactions.** For every connection and every enumeration of its sessions
and consumers, in which one object is one id: the answer is whether some consumer expects the
message again *iff* the first one enumerated has noted the very id object of the dispatch, or
none expects the message. -/
theorem pending_exact_iff (id : MessageIdPointer) (sessions : List SessionView)
    (hone : ∀ consumer ∈ enumerated sessions, ∀ map ∈ consumer.2, ∀ entry ∈ map,
      entry.1.address = id.address → entry.1.messageId = id.messageId) :
    (redeliveryPendingInCompetingTransaction id sessions = true ↔
        ∃ consumer ∈ enumerated sessions, ExpectsAgain id.messageId consumer) ↔
      (∃ consumer ∈ (enumerated sessions).head?, HasNoted id consumer) ∨
        ∀ consumer ∈ enumerated sessions, ¬ ExpectsAgain id.messageId consumer := by
  have hfirst : (∃ consumer ∈ (enumerated sessions).head?, HasNoted id consumer) →
      ∃ consumer ∈ enumerated sessions, ExpectsAgain id.messageId consumer := by
    rintro ⟨consumer, hhead, htransacted, map, hmap, entry, hentry, haddress⟩
    have hmem := List.mem_of_head? hhead
    exact ⟨consumer, hmem, htransacted, map, hmap, entry, hentry,
      hone consumer hmem map hmap entry hentry haddress⟩
  have hnone : (∀ consumer ∈ enumerated sessions, ¬ ExpectsAgain id.messageId consumer) ↔
      ¬ ∃ consumer ∈ enumerated sessions, ExpectsAgain id.messageId consumer := by
    push Not
    rfl
  rw [pending_iff_first, hnone]
  exact ⟨fun h => or_iff_not_imp_right.mpr fun hsome => h.mpr (not_not.mp hsome),
    fun h => ⟨hfirst, fun hsome => h.resolve_right (not_not.mpr hsome)⟩⟩

/-- A transacted session in which only the consumer in front expects a message, and its id
object is that of the dispatch. -/
theorem pending_exact_first :
    redeliveryPendingInCompetingTransaction ⟨1, ⟨none, 7⟩⟩
        [⟨true, [some [(⟨1, ⟨none, 7⟩⟩, false)], some []]⟩] = true ↔
      ∃ consumer ∈ enumerated [⟨true, [some [(⟨1, ⟨none, 7⟩⟩, false)], some []]⟩],
        ExpectsAgain ⟨none, 7⟩ consumer :=
  (pending_exact_iff ⟨1, ⟨none, 7⟩⟩ _ (by simp [enumerated])).mpr
    (Or.inl ⟨_, rfl, rfl, _, rfl, _, List.mem_singleton_self _, rfl⟩)

/-- Of two transacted consumers only the second expects the message: it is not found. Nor is
it found in the first when the broker sends it again, with a new object for its id. -/
theorem pending_misses_second :
    ¬ (redeliveryPendingInCompetingTransaction ⟨1, ⟨none, 7⟩⟩
          [⟨true, [some [], some [(⟨1, ⟨none, 7⟩⟩, false)]]⟩] = true ↔
        ∃ consumer ∈ enumerated [⟨true, [some [], some [(⟨1, ⟨none, 7⟩⟩, false)]]⟩],
          ExpectsAgain ⟨none, 7⟩ consumer) ∧
      ¬ (redeliveryPendingInCompetingTransaction ⟨2, ⟨none, 7⟩⟩
          [⟨true, [some [(⟨1, ⟨none, 7⟩⟩, false)]]⟩] = true ↔
        ∃ consumer ∈ enumerated [⟨true, [some [(⟨1, ⟨none, 7⟩⟩, false)]]⟩],
          ExpectsAgain ⟨none, 7⟩ consumer) := by
  simp [pending_iff_first, enumerated, HasNoted, ExpectsAgain]

/-! ## The wait for redeliveries -/

/-- The loop that counts: the messages that have not been delivered again. -/
def numberNotReplayed : Option PreviouslyDeliveredMap → Nat
  | none => 0
  | some map => map.foldl (fun n entry => if entry.2 then n else n + 1) 0

/-- Every previously delivered message has been delivered again. -/
def AllReplayed (previouslyDelivered : Option PreviouslyDeliveredMap) : Prop :=
  ∀ map ∈ previouslyDelivered, ∀ entry ∈ map, entry.2 = true

theorem foldl_notReplayed (map : PreviouslyDeliveredMap) (n : Nat) :
    map.foldl (fun n entry => if entry.2 then n else n + 1) n =
      n + map.countP (fun entry => !entry.2) := by
  induction map generalizing n with
  | nil => rfl
  | cons entry map ih =>
    rw [List.foldl_cons, ih, List.countP_cons]
    cases entry.2 <;> simp
    omega

theorem numberNotReplayed_eq_zero {previouslyDelivered : Option PreviouslyDeliveredMap} :
    numberNotReplayed previouslyDelivered = 0 ↔ AllReplayed previouslyDelivered := by
  cases previouslyDelivered with
  | none => simp [numberNotReplayed, AllReplayed]
  | some map => simp [numberNotReplayed, AllReplayed, foldl_notReplayed]

/-- One turn of the polling loop, as the environment decides it: the map that is scanned,
whether the sleep of `max(500, period / 4)` milliseconds is interrupted, and the clock after
it. -/
structure Poll where
  previouslyDelivered : Option PreviouslyDeliveredMap
  interrupted : Bool
  currentTimeMillis : Int

/-- The condition of the loop, as it stands. -/
def Poll.goesOn (expiry : Int) (poll : Poll) : Bool :=
  numberNotReplayed poll.previouslyDelivered > 0 && !poll.interrupted &&
    expiry < poll.currentTimeMillis

/-- The polling loop: the turn in which it ends, if it does within the fuel. -/
def pollLoop (expiry : Int) (polls : Nat → Poll) : (fuel turn : Nat) → Option Nat
  | 0, _ => none
  | fuel + 1, turn =>
    if (polls turn).goesOn expiry then pollLoop expiry polls fuel (turn + 1) else some turn

/-- How a wait ends. -/
inductive WaitEnd where
  /-- There is nothing to wait for. -/
  | atOnce
  | inTurn (turn : Nat)
deriving DecidableEq, Repr

/-- `waitForRedeliveries()`, called at time `entry`; the deadline is far below `2 ^ 63`. -/
def waitForRedeliveries (failoverRedeliveryWaitPeriod entry : Int)
    (previouslyDelivered : Option PreviouslyDeliveredMap) (polls : Nat → Poll) (fuel : Nat) :
    Option WaitEnd :=
  if failoverRedeliveryWaitPeriod > 0 ∧ previouslyDelivered ≠ none then
    (pollLoop (entry + failoverRedeliveryWaitPeriod) polls fuel 0).map .inTurn
  else some .atOnce

/-- The wait returns only when everything was delivered again or the deadline has passed, and
it has returned by the first turn that ends after the deadline. -/
structure WaitsProperly (period entry : Int) (previouslyDelivered : Option PreviouslyDeliveredMap)
    (polls : Nat → Poll) : Prop where
  returns : ∀ fuel turn,
    waitForRedeliveries period entry previouslyDelivered polls fuel = some (.inTurn turn) →
    AllReplayed (polls turn).previouslyDelivered ∨ entry + period ≤ (polls turn).currentTimeMillis
  atOnce : ∀ fuel, waitForRedeliveries period entry previouslyDelivered polls fuel = some .atOnce →
    AllReplayed previouslyDelivered
  stops : ∀ turn, entry + period ≤ (polls turn).currentTimeMillis →
    waitForRedeliveries period entry previouslyDelivered polls (turn + 1) ≠ none

theorem pollLoop_of_stop {expiry : Int} {polls : Nat → Poll} {turn : Nat}
    (h : (polls turn).goesOn expiry = false) (fuel : Nat) :
    pollLoop expiry polls (fuel + 1) turn = some turn := by
  rw [pollLoop, h]
  rfl

/-- The first turn is the last one unless it leaves messages outstanding, is not interrupted
and ends after the deadline. -/
theorem goesOn_eq_false {expiry : Int} {poll : Poll} :
    poll.goesOn expiry = false ↔ AllReplayed poll.previouslyDelivered ∨ poll.interrupted = true ∨
      poll.currentTimeMillis ≤ expiry := by
  rw [← numberNotReplayed_eq_zero]
  simp only [Poll.goesOn, Bool.and_eq_false_iff, decide_eq_false_iff_not, Bool.not_eq_false',
    or_assoc, not_lt, Nat.le_zero]

section Wait

variable {period entry : Int} {map : PreviouslyDeliveredMap} {polls : Nat → Poll}
  (hperiod : 0 < period)
include hperiod

theorem waitForRedeliveries_some (fuel : Nat) :
    waitForRedeliveries period entry (some map) polls fuel =
      (pollLoop (entry + period) polls fuel 0).map .inTurn := by
  rw [waitForRedeliveries, if_pos ⟨hperiod, Option.some_ne_none map⟩]

/-- A wait that ends in its first turn is proper iff that turn allows it. -/
theorem waitsProperly_of_stop (h : (polls 0).goesOn (entry + period) = false) :
    WaitsProperly period entry (some map) polls ↔
      AllReplayed (polls 0).previouslyDelivered ∨
        entry + period ≤ (polls 0).currentTimeMillis := by
  have hwait : ∀ fuel, waitForRedeliveries period entry (some map) polls (fuel + 1) =
      some (.inTurn 0) := by
    intro fuel
    rw [waitForRedeliveries_some hperiod, pollLoop_of_stop h fuel]
    rfl
  have hzero : waitForRedeliveries period entry (some map) polls 0 = none := by
    rw [waitForRedeliveries_some hperiod]
    rfl
  constructor
  · intro hproper
    exact hproper.returns 1 0 (hwait 0)
  · intro hturn
    refine ⟨fun fuel turn hend => ?_, fun fuel hend => ?_, fun turn _ => ?_⟩
    · cases fuel with
      | zero =>
        rw [hzero] at hend
        cases hend
      | succ fuel =>
        rw [hwait fuel] at hend
        cases hend
        exact hturn
    · cases fuel with
      | zero =>
        rw [hzero] at hend
        cases hend
      | succ fuel =>
        rw [hwait fuel] at hend
        cases hend
    · rw [hwait turn]
      exact Option.some_ne_none _

/-- A wait that goes on after its first turn goes on after the deadline. -/
theorem not_waitsProperly_of_goesOn (h : (polls 0).goesOn (entry + period) = true) :
    ¬ WaitsProperly period entry (some map) polls := by
  intro hproper
  have hlate : entry + period ≤ (polls 0).currentTimeMillis := by
    simp only [Poll.goesOn, Bool.and_eq_true, decide_eq_true_eq] at h
    omega
  refine hproper.stops 0 hlate ?_
  rw [waitForRedeliveries_some hperiod, pollLoop, if_pos h]
  rfl

end Wait

/-- **Waiting for redeliveries.** For every positive period, every map and everything that
happens meanwhile: the wait is proper *iff* there is no map, or its first turn finds nothing
outstanding, or the clock reads exactly the deadline after the first sleep, or that sleep is
interrupted at or after the deadline. -/
theorem wait_proper_iff (period entry : Int) (hperiod : 0 < period)
    (previouslyDelivered : Option PreviouslyDeliveredMap) (polls : Nat → Poll) :
    WaitsProperly period entry previouslyDelivered polls ↔
      previouslyDelivered = none ∨ AllReplayed (polls 0).previouslyDelivered ∨
        (polls 0).currentTimeMillis = entry + period ∨
        (polls 0).interrupted = true ∧ entry + period ≤ (polls 0).currentTimeMillis := by
  cases previouslyDelivered with
  | none =>
    have hwait : ∀ fuel, waitForRedeliveries period entry none polls fuel = some .atOnce := by
      intro fuel
      rw [waitForRedeliveries, if_neg (fun h => h.2 rfl)]
    refine iff_of_true ⟨fun fuel turn hend => ?_, fun _ _ => nofun, fun turn _ => ?_⟩ (Or.inl rfl)
    · rw [hwait fuel] at hend
      cases hend
    · rw [hwait]
      exact Option.some_ne_none _
  | some map =>
    have hmap : (some map = none) ↔ False := by simp
    rw [hmap, false_or]
    cases hgoes : (polls 0).goesOn (entry + period) with
    | false =>
      rw [waitsProperly_of_stop hperiod hgoes]
      rcases goesOn_eq_false.mp hgoes with hall | hinterrupted | hearly
      · exact iff_of_true (Or.inl hall) (Or.inl hall)
      · simp only [hinterrupted, true_and]
        refine or_congr_right ⟨Or.inr, fun h => h.elim (fun heq => heq.ge) id⟩
      · refine or_congr_right ⟨fun hlate => Or.inl (hearly.antisymm hlate), fun h => ?_⟩
        exact h.elim (fun heq => heq.ge) And.right
    | true =>
      refine iff_of_false (not_waitsProperly_of_goesOn hperiod hgoes) fun h => ?_
      have hstop : (polls 0).goesOn (entry + period) = false := by
        rw [goesOn_eq_false]
        rcases h with hall | hexact | ⟨hinterrupted, -⟩
        · exact Or.inl hall
        · exact Or.inr (Or.inr hexact.le)
        · exact Or.inr (Or.inl hinterrupted)
      rw [hgoes] at hstop
      cases hstop

/-- A wait whose only message has been delivered again by the first scan. -/
theorem wait_proper_replayed :
    WaitsProperly 10000 0 (some [(⟨1, ⟨none, 7⟩⟩, false)])
      (fun _ => ⟨some [(⟨1, ⟨none, 7⟩⟩, true)], false, 0⟩) := by
  refine (wait_proper_iff 10000 0 (by decide) _ _).mpr (Or.inr (Or.inl ?_))
  simp [AllReplayed]

/-- One message is outstanding, the period is ten seconds: after the first sleep, of two and
a half, the wait is given up; and when the clock is past the deadline by then, it never
ends. -/
theorem wait_improper :
    ¬ WaitsProperly 10000 0 (some [(⟨1, ⟨none, 7⟩⟩, false)])
        (fun _ => ⟨some [(⟨1, ⟨none, 7⟩⟩, false)], false, 2500⟩) ∧
      ¬ WaitsProperly 10000 0 (some [(⟨1, ⟨none, 7⟩⟩, false)])
        (fun _ => ⟨some [(⟨1, ⟨none, 7⟩⟩, false)], false, 20000⟩) := by
  refine ⟨fun h => ?_, fun h => ?_⟩
  · rcases h.returns 1 0 (by decide) with hall | hlate
    · exact absurd (hall _ rfl _ (List.mem_singleton_self _)) (by decide)
    · cases hlate
  · exact h.stops 0 (by decide) (by decide)

end ActivemqCpp.Core
