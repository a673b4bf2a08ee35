import ActivemqCpp.Base.Decimal
import ActivemqCpp.Decaf.StringUtils
import ActivemqCpp.Decaf.StlMap

/-!
# The ids that commands carry

`ConnectionId`, `SessionId`, `ProducerId`, `ConsumerId`, `LocalTransactionId` and
`MessageId`, with their text and their order. The text of a `ProducerId` is
the key under which the duplicate audits file it: it determines the id
(`ProducerId.toString_inj`), whatever bytes the connection id holds, because the
two numbers behind it hold no colon.

The order is that of the maps that track the ids. Below one parent it is the order of
the numbers (`SessionId.orderedOn`, `ProducerId.orderedOn`, `ConsumerId.orderedOn`).
-/

namespace ActivemqCpp.Commands

open Base Decaf StlMap StringUtils

/-- `:` -/
def colon : UInt8 := 58

structure ConnectionId where
  value : Bytes
deriving DecidableEq, Repr

structure SessionId where
  connectionId : Bytes
  value : Int
deriving DecidableEq, Repr

structure ProducerId where
  connectionId : Bytes
  value : Int
  sessionId : Int
deriving DecidableEq, Repr

structure ConsumerId where
  connectionId : Bytes
  sessionId : Int
  value : Int
deriving DecidableEq, Repr

structure LocalTransactionId where
  value : Int
  connectionId : ConnectionId
deriving DecidableEq, Repr

/-- The part of a `MessageId` the audits read. -/
structure MessageId where
  producerId : Option ProducerId
  producerSequenceId : Int
deriving DecidableEq, Repr

/-- `ProducerId::toString`. -/
def ProducerId.toString (id : ProducerId) : Bytes :=
  id.connectionId ++ colon :: (decimal id.sessionId ++ colon :: decimal id.value)

theorem colon_not_mem_decimal (z : Int) : colon ∉ decimal z := by
  intro h
  rcases mem_decimal h with heq | hdigit
  · cases heq
  · have : colon.toNat = 58 := rfl
    omega

theorem ProducerId.toString_inj {p q : ProducerId} (h : p.toString = q.toString) : p = q := by
  obtain ⟨pc, pv, ps⟩ := p
  obtain ⟨qc, qv, qs⟩ := q
  simp only [ProducerId.toString] at h
  -- read the two numbers off the right end
  have hsplit : (pc ++ colon :: decimal ps) ++ colon :: decimal pv =
      (qc ++ colon :: decimal qs) ++ colon :: decimal qv := by
    simpa using h
  obtain ⟨hfront, hvalue⟩ := append_separated_inj (colon_not_mem_decimal pv)
    (colon_not_mem_decimal qv) hsplit
  obtain ⟨hconn, hsession⟩ := append_separated_inj (colon_not_mem_decimal ps)
    (colon_not_mem_decimal qs) hfront
  rw [hconn, decimal_inj hvalue, decimal_inj hsession]

theorem ProducerId.toString_ne_nil (id : ProducerId) : id.toString ≠ [] := by
  simp [ProducerId.toString]

/-- `ConsumerId::toString`. -/
def ConsumerId.toString (id : ConsumerId) : Bytes :=
  id.connectionId ++ colon :: (decimal id.sessionId ++ colon :: decimal id.value)

/-! ## Parents -/

/-- `SessionId::getParentId`. -/
def SessionId.parentId (id : SessionId) : ConnectionId := ⟨id.connectionId⟩

/-- `ProducerId::getParentId`. -/
def ProducerId.parentId (id : ProducerId) : SessionId := ⟨id.connectionId, id.sessionId⟩

/-- `ConsumerId::getParentId`. -/
def ConsumerId.parentId (id : ConsumerId) : SessionId := ⟨id.connectionId, id.sessionId⟩

/-! ## Order -/

/-- The comparison of two numbers within a `compareTo`. -/
def compareValues (a b : Int) : Int := if a > b then 1 else if a < b then -1 else 0

/-- The next comparison decides where this one does not. -/
def andThen (c d : Int) : Int := if c ≠ 0 then c else d

def ConnectionId.compareTo (a b : ConnectionId) : Int :=
  StringUtils.compareIgnoreCase a.value b.value

def SessionId.compareTo (a b : SessionId) : Int :=
  andThen (StringUtils.compareIgnoreCase a.connectionId b.connectionId)
    (compareValues a.value b.value)

def ProducerId.compareTo (a b : ProducerId) : Int :=
  andThen (StringUtils.compareIgnoreCase a.connectionId b.connectionId)
    (andThen (compareValues a.value b.value) (compareValues a.sessionId b.sessionId))

def ConsumerId.compareTo (a b : ConsumerId) : Int :=
  andThen (StringUtils.compareIgnoreCase a.connectionId b.connectionId)
    (andThen (compareValues a.sessionId b.sessionId) (compareValues a.value b.value))

def LocalTransactionId.compareTo (a b : LocalTransactionId) : Int :=
  andThen (compareValues a.value b.value) (a.connectionId.compareTo b.connectionId)

/-! `COMPARATOR`, the `operator<` of each id. -/

def ConnectionId.less (a b : ConnectionId) : Bool := a.compareTo b < 0

def SessionId.less (a b : SessionId) : Bool := a.compareTo b < 0

def ProducerId.less (a b : ProducerId) : Bool := a.compareTo b < 0

def ConsumerId.less (a b : ConsumerId) : Bool := a.compareTo b < 0

def LocalTransactionId.less (a b : LocalTransactionId) : Bool := a.compareTo b < 0

@[simp] theorem andThen_zero_left (d : Int) : andThen 0 d = d := rfl

@[simp] theorem andThen_zero_right (c : Int) : andThen c 0 = c := by
  unfold andThen
  split <;> omega

@[simp] theorem compareValues_self (a : Int) : compareValues a a = 0 := by
  simp [compareValues]

theorem compareValues_neg {a b : Int} : compareValues a b < 0 ↔ a < b := by
  unfold compareValues
  split
  · omega
  · split <;> omega

theorem LocalTransactionId.less_self (id : LocalTransactionId) : id.less id = false := by
  simp [LocalTransactionId.less, LocalTransactionId.compareTo, ConnectionId.compareTo,
    compareIgnoreCase_self]

/-- A single id is ordered. -/
theorem ConnectionId.orderedOn_singleton (id : ConnectionId) :
    OrderedOn ConnectionId.less (· = id) := by
  refine orderedOn_of_key (fun _ => 0) ?_ ?_
  · rintro a b rfl rfl
    simp [ConnectionId.less, ConnectionId.compareTo, compareIgnoreCase_self]
  · rintro a b rfl rfl -
    rfl

theorem SessionId.orderedOn (parent : ConnectionId) :
    OrderedOn SessionId.less fun id => id.parentId = parent := by
  refine orderedOn_of_key SessionId.value ?_ ?_
  · rintro ⟨c, v⟩ ⟨c', v'⟩ rfl hb
    obtain rfl : c' = c := congrArg ConnectionId.value hb
    simp [SessionId.less, SessionId.compareTo, compareIgnoreCase_self, compareValues_neg]
  · rintro ⟨c, v⟩ ⟨c', v'⟩ rfl hb rfl
    obtain rfl : c' = c := congrArg ConnectionId.value hb
    rfl

theorem ProducerId.orderedOn (parent : SessionId) :
    OrderedOn ProducerId.less fun id => id.parentId = parent := by
  refine orderedOn_of_key ProducerId.value ?_ ?_
  · rintro ⟨c, v, s⟩ ⟨c', v', s'⟩ rfl hb
    obtain ⟨rfl, rfl⟩ : c' = c ∧ s' = s := SessionId.mk.inj hb
    simp [ProducerId.less, ProducerId.compareTo, compareIgnoreCase_self, compareValues_neg]
  · rintro ⟨c, v, s⟩ ⟨c', v', s'⟩ rfl hb rfl
    obtain ⟨rfl, rfl⟩ : c' = c ∧ s' = s := SessionId.mk.inj hb
    rfl

theorem ConsumerId.orderedOn (parent : SessionId) :
    OrderedOn ConsumerId.less fun id => id.parentId = parent := by
  refine orderedOn_of_key ConsumerId.value ?_ ?_
  · rintro ⟨c, s, v⟩ ⟨c', s', v'⟩ rfl hb
    obtain ⟨rfl, rfl⟩ : c' = c ∧ s' = s := SessionId.mk.inj hb
    simp [ConsumerId.less, ConsumerId.compareTo, compareIgnoreCase_self, compareValues_neg]
  · rintro ⟨c, s, v⟩ ⟨c', s', v'⟩ rfl hb rfl
    obtain ⟨rfl, rfl⟩ : c' = c ∧ s' = s := SessionId.mk.inj hb
    rfl

variable (connection : ConnectionId)

/-- Producers of one connection, across its sessions. -/
theorem ProducerId.orderedOn_connection :
    OrderedOn ProducerId.less fun id => id.parentId.parentId = connection := by
  refine orderedOn_of_key (fun id => toLex (id.value, id.sessionId)) ?_ ?_
  · rintro ⟨c, v, s⟩ ⟨c', v', s'⟩ rfl hb
    obtain rfl : c' = c := congrArg ConnectionId.value hb
    apply decide_eq_decide.mpr
    rw [Prod.Lex.toLex_lt_toLex]
    simp only [ProducerId.compareTo, compareIgnoreCase_self, andThen, compareValues]
    split_ifs <;> omega
  · rintro ⟨c, v, s⟩ ⟨c', v', s'⟩ rfl hb heq
    obtain rfl : c' = c := congrArg ConnectionId.value hb
    obtain ⟨rfl, rfl⟩ := Prod.mk.inj (toLex.injective heq)
    rfl

theorem LocalTransactionId.orderedOn :
    OrderedOn LocalTransactionId.less fun id => id.connectionId = connection := by
  refine orderedOn_of_key LocalTransactionId.value ?_ ?_
  · rintro ⟨v, c⟩ ⟨v', c'⟩ rfl hb
    obtain rfl : c' = c := hb
    simp [LocalTransactionId.less, LocalTransactionId.compareTo, ConnectionId.compareTo,
      compareIgnoreCase_self, compareValues_neg]
  · rintro ⟨v, c⟩ ⟨v', c'⟩ rfl hb rfl
    obtain rfl : c' = c := hb
    rfl

end ActivemqCpp.Commands
