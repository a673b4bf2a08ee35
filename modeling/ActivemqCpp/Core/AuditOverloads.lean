import ActivemqCpp.Core.MessageAudit
import ActivemqCpp.Decaf.Numbers

/-!
# The two forms of a call on `ActiveMQMessageAudit`

`isDuplicate`, `rollback` and `isInOrder` take a `MessageId` or its text. The first
form files the window of a producer under the producer's text; the second under what
`IdGenerator::getSeedFromId` leaves of the id, which is the same text *with the colon
behind it*. So each producer has two windows, and a message seen in one form is new in the
other. `getLastSeqId` reads the first of the two only.

Whatever a call does, it fetches one window and at most rewrites it (`useWindow`); where
the cache holds no window of the other form, this commutes with dropping the colon from the
keys (`perform_forget`). `audit_forms_interchange` carries that to whole runs.
-/

namespace ActivemqCpp.Core

open Base Commands Decaf

/-! ## Texts of ids -/

namespace IdGenerator

/-- `find_last_of`. -/
def findLastOf (c : UInt8) : Bytes → Option Nat
  | [] => none
  | b :: rest =>
    match findLastOf c rest with
    | some index => some (index + 1)
    | none => if b = c then some 0 else none

/-- The last colon, where something follows it. -/
def lastColon (id : Bytes) : Option Nat := (findLastOf colon id).filter (· + 1 < id.length)

/-- `getSeedFromId`. -/
def getSeedFromId (id : Bytes) : Bytes :=
  match lastColon id with
  | some index => id.take (index + 1)
  | none => id

/-- `getSequenceFromId`. -/
def getSequenceFromId (id : Bytes) : Except Exn Int :=
  match lastColon id with
  | some index => parseLong (id.drop (index + 1))
  | none => .ok (-1)

theorem findLastOf_eq_none {c : UInt8} {text : Bytes} (h : c ∉ text) :
    findLastOf c text = none := by
  induction text with
  | nil => rfl
  | cons b rest ih =>
    rw [List.mem_cons, not_or] at h
    rw [findLastOf, ih h.2]
    exact if_neg (Ne.symm h.1)

variable (front : Bytes)
include front

theorem findLastOf_append {c : UInt8} {tail : Bytes} (h : c ∉ tail) :
    findLastOf c (front ++ c :: tail) = some front.length := by
  induction front with
  | nil =>
    rw [List.nil_append, findLastOf, findLastOf_eq_none h]
    exact if_pos rfl
  | cons b front ih =>
    rw [List.cons_append, findLastOf, ih]
    rfl

theorem lastColon_append {tail : Bytes} (h : colon ∉ tail) (hne : tail ≠ []) :
    lastColon (front ++ colon :: tail) = some front.length := by
  have hpos : 0 < tail.length := List.length_pos_iff.mpr hne
  rw [lastColon, findLastOf_append _ h, Option.filter_some, if_pos]
  simp only [List.length_append, List.length_cons, decide_eq_true_eq]
  omega

theorem getSeedFromId_append (z : Int) :
    getSeedFromId (front ++ colon :: decimal z) = front ++ [colon] := by
  rw [getSeedFromId, lastColon_append _ (colon_not_mem_decimal z) (decimal_ne_nil z)]
  have hsplit : front ++ colon :: decimal z = (front ++ [colon]) ++ decimal z := by simp
  simp only [hsplit]
  exact List.take_left' (by simp)

theorem getSequenceFromId_append {z : Int} (hlo : -2 ^ 63 ≤ z)
    (hhi : z < 2 ^ 63) : getSequenceFromId (front ++ colon :: decimal z) = .ok z := by
  rw [getSequenceFromId, lastColon_append _ (colon_not_mem_decimal z) (decimal_ne_nil z)]
  have hdrop : (front ++ colon :: decimal z).drop (front.length + 1) = decimal z := by simp
  simp only [hdrop]
  exact parseNumber_decimal (by decide) hlo hhi

end IdGenerator

/-- A `MessageId` with all that its text depends on. `key` is the text once made; the
constructor from a string leaves there what stands before the sequence id. -/
structure TextId where
  textView : Bytes
  producerId : Option ProducerId
  producerSequenceId : Int
  key : Bytes
  /-- A `long long`. -/
  sequence_lo : -2 ^ 63 ≤ producerSequenceId
  sequence_hi : producerSequenceId < 2 ^ 63

namespace TextId

def messageId (id : TextId) : MessageId := ⟨id.producerId, id.producerSequenceId⟩

/-- `textView.find_first_of("ID:") == 0`: the first byte is one of the three. -/
def startsLikeId (textView : Bytes) : Bool :=
  match textView with
  | [] => false
  | c :: _ => c = 73 ∨ c = 68 ∨ c = 58

/-- `MessageId::toString`. -/
def toString (id : TextId) : Except Exn Bytes :=
  if id.key = [] then
    if id.textView ≠ [] then
      if startsLikeId id.textView then .ok id.textView else .ok ([73, 68, 58] ++ id.textView)
    else
      match id.producerId with
      | none => .error .nullPointer
      | some pid => .ok (pid.toString ++ colon :: decimal id.producerSequenceId)
  else .ok id.key

/-- `MessageId::equals`; the broker's number is 0 in every id that a constructor makes. -/
def equals (a b : TextId) : Bool :=
  a.textView = b.textView ∧ a.producerId = b.producerId ∧
    a.producerSequenceId = b.producerSequenceId

/-! ### Constructors

`setValue` cuts the sequence id off the text and leaves the rest in `key`, where `toString`
takes it for the whole text. -/

/-- A `long long`. -/
abbrev Long := { n : Int // -2 ^ 63 ≤ n ∧ n < 2 ^ 63 }

def readLong (text : Bytes) : Except Exn Long :=
  match h : parseLong text with
  | .error e => .error e
  | .ok n => .ok ⟨n, parseNumber_fits (by decide) h⟩

/-- The number behind the last colon is parsed off. -/
def parseOff (key : Bytes) : Except Exn (Long × Bytes) :=
  match IdGenerator.findLastOf colon key with
  | some p => (readLong (key.drop (p + 1))).map (·, key.take p)
  | none => .ok (⟨0, by decide⟩, key)

/-- `ProducerId(std::string)`, with `setProducerSessionKey`. -/
def producerIdOf (producerKey : Bytes) : Except Exn ProducerId := do
  let (value, producerKey) ← parseOff producerKey
  let (sessionId, connectionId) ← parseOff producerKey
  .ok ⟨connectionId, value, sessionId⟩

/-- `MessageId(const Pointer<ProducerId>&, long long)`. -/
def ofProducerId (producerId : ProducerId) (sequence : Long) : TextId :=
  ⟨[], some producerId, sequence, [], sequence.2.1, sequence.2.2⟩

/-- `MessageId(const std::string&)`, with `setValue`. -/
def ofText (messageKey : Bytes) : Except Exn TextId := do
  let (sequence, messageKey) ← parseOff messageKey
  let producerId ← producerIdOf messageKey
  .ok { ofProducerId producerId sequence with key := messageKey }

/-- `MessageId(const std::string&, long long)`. -/
def ofProducerText (producerId : Bytes) (sequence : Long) : Except Exn TextId :=
  (producerIdOf producerId).map (ofProducerId · sequence)

/-- What the id of a message is made from. -/
inductive Origin where
  | text
  | producerText
  | producerId
deriving DecidableEq

/-- The text of a message's id. -/
def textOf (p : ProducerId) (n : Long) : Bytes := p.toString ++ colon :: decimal n

def build (p : ProducerId) (n : Long) : Origin → Except Exn TextId
  | .text => ofText (textOf p n)
  | .producerText => ofProducerText p.toString n
  | .producerId => .ok (ofProducerId p n)

theorem readLong_decimal (n : Long) : readLong (decimal n) = .ok n := by
  have h : parseLong (decimal n) = .ok n.1 := parseNumber_decimal (by decide) n.2.1 n.2.2
  unfold readLong
  split <;> simp_all

theorem parseOff_append (front : Bytes) (n : Long) :
    parseOff (front ++ colon :: decimal n) = .ok (n, front) := by
  rw [parseOff, IdGenerator.findLastOf_append _ (colon_not_mem_decimal n)]
  simp [readLong_decimal, Except.map]

variable (connectionId : Bytes)

theorem producerIdOf_toString (value session : Long) :
    producerIdOf (ProducerId.toString ⟨connectionId, value, session⟩) =
      .ok ⟨connectionId, value, session⟩ := by
  have h : ProducerId.toString ⟨connectionId, value, session⟩ =
      (connectionId ++ colon :: decimal session) ++ colon :: decimal value := by
    simp [ProducerId.toString]
  simp only [h, producerIdOf, parseOff_append, bind, Except.bind]

/-- Each way gives the id of the message, but one from text has the producer's text as its own. -/
theorem build_eq (value session n : Long) (origin : Origin) :
    let p : ProducerId := ⟨connectionId, value, session⟩
    build p n origin = .ok { ofProducerId p n with
      key := if origin = .text then p.toString else [] } := by
  cases origin <;>
    simp [build, ofText, ofProducerText, textOf, parseOff_append, producerIdOf_toString, bind,
      Except.bind, Except.map, ofProducerId]

/-- The id of a message of `p` is what `p` and the number say, to its text, and no other message
of `p` that is made in this way has that text. -/
def Faithful (p : ProducerId) (n : Long) (origin : Origin) : Prop :=
  ∃ id, build p n origin = .ok id ∧ id.toString = .ok (textOf p n) ∧
    id.equals (ofProducerId p n) ∧ id.toString = (ofProducerId p n).toString ∧
    ∀ m other, build p m origin = .ok other → other.toString = id.toString → m = n

/-- An id is that of its text only when it is not made from text. -/
theorem faithful_iff (connectionId : Bytes) (value session n : Long) (origin : Origin) :
    Faithful ⟨connectionId, value, session⟩ n origin ↔ origin ≠ .text := by
  generalize hp : (⟨connectionId, value, session⟩ : ProducerId) = p
  have hbuild := fun m => hp ▸ build_eq connectionId value session m origin
  have hne := p.toString_ne_nil
  constructor
  · rintro ⟨id, hid, htext, -⟩ rfl
    obtain rfl := Except.ok.inj ((hbuild n).symm.trans hid)
    have hshort : p.toString = textOf p n := by simpa [toString, hne] using htext
    exact absurd (congrArg List.length hshort) (by simp [textOf])
  · intro horigin
    have htext : ∀ m, toString (ofProducerId p m) = .ok (textOf p m) := fun m => rfl
    simp only [if_neg horigin] at hbuild
    refine ⟨_, hbuild n, htext n, by simp [equals], rfl, fun m other hother h => ?_⟩
    obtain rfl := Except.ok.inj ((hbuild m).symm.trans hother)
    have htexts := Except.ok.inj (((htext m).symm.trans h).trans (htext n))
    exact Subtype.ext (decimal_inj (append_separated_inj (colon_not_mem_decimal _)
      (colon_not_mem_decimal _) htexts).2)

/-- Two messages of one producer, with one text between them. -/
theorem ofText_same_text :
    let p : ProducerId := ⟨[97], 1, 1⟩
    (ofText (textOf p ⟨1, by decide⟩)).bind toString = .ok p.toString ∧
      (ofText (textOf p ⟨2, by decide⟩)).bind toString = .ok p.toString := by
  decide

end TextId

/-! ## The calls -/

namespace MessageAudit

/-- What a call does with the window it has fetched: it leaves the window alone or writes
through the pointer. -/
def useWindow {ρ : Type} (seed : Bytes) (use : BitSet → Option BitSet × ρ) (missing : Exn → ρ) :
    MessageAudit × Except Exn BitSet → MessageAudit × ρ
  | (a, .error e) => (a, missing e)
  | (a, .ok bits) =>
    match use bits with
    | (none, answer) => (a, answer)
    | (some bits, answer) => ({ a with map := a.map.update seed bits }, answer)

/-- The window filed under `seed`, none made when there is none. -/
def findBits (a : MessageAudit) (seed : Bytes) : MessageAudit × Except Exn BitSet :=
  match a.map.get seed with
  | (map, .ok bits) => ({ a with map }, .ok bits)
  | (_, .error e) => (a, .error e)

/-- `isDuplicate` on its window. -/
def mark (index : Int) (bits : BitSet) : Option BitSet × Except Exn Bool :=
  if index ≥ 0 then
    match bits.get (scaledIndex index) with
    | .error e => (none, .error e)
    | .ok true => (none, .ok true)
    | .ok false =>
      match bits.setTo (scaledIndex index) true with
      | .error e => (none, .error e)
      | .ok bits => (some bits, .ok false)
  else (none, .ok false)

/-- `rollback` on its window. -/
def unmark (index : Int) (bits : BitSet) : Option BitSet × Except Exn Unit :=
  if index ≥ 0 then
    match bits.setTo (scaledIndex index) false with
    | .error e => (none, .error e)
    | .ok bits => (some bits, .ok ())
  else (none, .ok ())

/-- `isInOrder` on its window; `answer` is what the overload starts from. `length` wraps
around where it is `2^31`, and the subtraction wraps it back. -/
def inOrder (answer : Bool) (index : Int) (bits : BitSet) : Option BitSet × Except Exn Bool :=
  if index ≥ 0 then (some bits.length.1, .ok (bits.length.2 - 1 = scaledIndex index))
  else (none, .ok answer)

/-- `getLastSeqId` on its window. -/
def lastSeqId (bits : BitSet) : Option BitSet × Int := (some bits.length.1, bits.length.2 - 1)

/-- A string overload reads the sequence id when it has the window. -/
def readSequence {ρ : Type} (id : Bytes) (use : Int → BitSet → Option BitSet × Except Exn ρ)
    (bits : BitSet) : Option BitSet × Except Exn ρ :=
  match IdGenerator.getSequenceFromId id with
  | .error e => (none, .error e)
  | .ok index => use index bits

/-- `isDuplicate(const std::string&)`. -/
def isDuplicateText (a : MessageAudit) (id : Bytes) : MessageAudit × Except Exn Bool :=
  let seed := IdGenerator.getSeedFromId id
  if seed = [] then (a, .ok false)
  else useWindow seed (readSequence id mark) .error (a.bitsFor seed)

/-- `rollback(const std::string&)`. -/
def rollbackText (a : MessageAudit) (msgId : Bytes) : MessageAudit × Except Exn Unit :=
  let seed := IdGenerator.getSeedFromId msgId
  if seed = [] then (a, .ok ())
  else useWindow seed (readSequence msgId unmark) (fun _ => .ok ()) (a.findBits seed)

/-- `isInOrder(const std::string&)`. -/
def isInOrderText (a : MessageAudit) (msgId : Bytes) : MessageAudit × Except Exn Bool :=
  if msgId = [] then (a, .ok true)
  else
    let seed := IdGenerator.getSeedFromId msgId
    if seed = [] then (a, .ok true)
    else useWindow seed (readSequence msgId (inOrder true)) .error (a.bitsFor seed)

/-- `isInOrder(Pointer<MessageId>)`. -/
def isInOrder (a : MessageAudit) (msgId : Option MessageId) : MessageAudit × Except Exn Bool :=
  match msgId with
  | none => (a, .ok false)
  | some id =>
    match id.producerId with
    | none => (a, .ok false)
    | some pid =>
      if pid.toString = [] then (a, .ok false)
      else useWindow pid.toString (inOrder false id.producerSequenceId) .error
        (a.bitsFor pid.toString)

/-- `getLastSeqId`. -/
def getLastSeqId (a : MessageAudit) (id : Option ProducerId) : MessageAudit × Int :=
  match id with
  | none => (a, -1)
  | some pid =>
    if pid.toString = [] then (a, -1)
    else useWindow pid.toString lastSeqId (fun _ => -1) (a.findBits pid.toString)

variable (a : MessageAudit)

theorem isDuplicateAt_eq_useWindow (seed : Bytes) (index : Int) :
    a.isDuplicateAt seed index = useWindow seed (mark index) .error (a.bitsFor seed) := by
  rw [isDuplicateAt]
  rcases a.bitsFor seed with ⟨a, e | bits⟩
  · rfl
  simp only [useWindow, mark]
  by_cases hindex : index ≥ 0
  · rw [if_pos hindex, if_pos hindex]
    rcases bits.get (scaledIndex index) with e | (_ | _)
    · rfl
    · rcases bits.setTo (scaledIndex index) true with e | bits <;> rfl
    · rfl
  · rw [if_neg hindex, if_neg hindex]

theorem rollbackAt_eq_useWindow (seed : Bytes) (index : Int) :
    a.rollbackAt seed index =
      useWindow seed (unmark index) (fun _ => .ok ()) (a.findBits seed) := by
  rw [rollbackAt, findBits]
  rcases a.map.get seed with ⟨map, e | bits⟩
  · rfl
  simp only [useWindow, unmark]
  by_cases hindex : index ≥ 0
  · rw [if_pos hindex, if_pos hindex]
    rcases bits.setTo (scaledIndex index) false with e | bits <;> rfl
  · rw [if_neg hindex, if_neg hindex]

/-! ## Filing under other keys -/

section Rename

variable {f : Bytes → Bytes} {seed : Bytes} {a : MessageAudit}

/-- The audit with its windows filed under the images of their keys. -/
def rename (f : Bytes → Bytes) (a : MessageAudit) : MessageAudit :=
  { a with map := a.map.rename f }

/-- What fetching a window may do to the audit, seen through a renaming. -/
structure Fetches (f : Bytes → Bytes) (seed : Bytes)
    (fetch : MessageAudit → Bytes → MessageAudit × Except Exn BitSet) (a : MessageAudit) :
    Prop where
  renamed : fetch (a.rename f) (f seed) = ((fetch a seed).1.rename f, (fetch a seed).2)
  keys : ∀ k ∈ (fetch a seed).1.map.keys, k = seed ∨ k ∈ a.map.keys

variable (h : a.map.Separates f seed)
include h

theorem findBits_fetches : Fetches f seed findBits a := by
  have hget := LRUCache.get_rename h
  have hkeys : ∀ k ∈ (a.map.get seed).1.keys, k ∈ a.map.keys := fun k =>
    LRUCache.mem_keys_of_mem_keys_get
  rcases hfound : a.map.get seed with ⟨map, e | bits⟩
  · rw [hfound] at hget
    refine ⟨?_, fun k hk => .inr ?_⟩
    · simp only [findBits, hfound]
      simp [rename, hget]
    · simpa only [findBits, hfound] using hk
  · rw [hfound] at hget hkeys
    refine ⟨?_, fun k hk => .inr (hkeys k ?_)⟩
    · simp only [findBits, hfound]
      simp [rename, hget]
    · simpa only [findBits, hfound] using hk

theorem bitsFor_fetches : Fetches f seed bitsFor a := by
  have hget := LRUCache.get_rename h
  have hkeys : ∀ k ∈ (a.map.get seed).1.keys, k ∈ a.map.keys := fun k =>
    LRUCache.mem_keys_of_mem_keys_get
  rcases hfound : a.map.get seed with ⟨map, e | bits⟩
  · rw [hfound] at hget
    rcases hnew : BitSet.ofCount a.auditDepth with e' | bits
    · refine ⟨?_, fun k hk => .inr ?_⟩
      · simp only [bitsFor, hfound]
        simp [rename, hget, hnew]
      · simpa only [bitsFor, hfound, hnew] using hk
    · refine ⟨?_, fun k hk => ?_⟩
      · simp only [bitsFor, hfound]
        simp [rename, hget, hnew, LRUCache.put_rename h]
      · simp only [bitsFor, hfound, hnew] at hk
        exact LRUCache.eq_or_mem_keys_of_mem_keys_put hk
  · rw [hfound] at hget hkeys
    refine ⟨?_, fun k hk => .inr (hkeys k ?_)⟩
    · simp only [bitsFor, hfound]
      simp [rename, hget]
    · simpa only [bitsFor, hfound] using hk

variable {ρ : Type} {fetch : MessageAudit → Bytes → MessageAudit × Except Exn BitSet}
  (use : BitSet → Option BitSet × ρ)

theorem useWindow_rename (hfetch : Fetches f seed fetch a) (missing : Exn → ρ) :
    useWindow (f seed) use missing (fetch (a.rename f) (f seed)) =
      ((useWindow seed use missing (fetch a seed)).1.rename f,
        (useWindow seed use missing (fetch a seed)).2) := by
  obtain ⟨hrenamed, hkeys⟩ := hfetch
  rw [hrenamed]
  rcases hfound : fetch a seed with ⟨b, e | bits⟩
  · rfl
  simp only [useWindow]
  rcases use bits with ⟨_ | bits, answer⟩
  · rfl
  · have hseparates : b.map.Separates f seed := by
      intro k hk hf
      rw [hfound] at hkeys
      rcases hkeys k hk with rfl | hold
      · rfl
      · exact h k hold hf
    simp [rename, LRUCache.update_rename hseparates]

omit h

theorem keys_useWindow (hfetch : Fetches f seed fetch a) (missing : Exn → ρ) {k : Bytes}
    (hk : k ∈ (useWindow seed use missing (fetch a seed)).1.map.keys) :
    k = seed ∨ k ∈ a.map.keys := by
  refine hfetch.keys k ?_
  rcases hfound : fetch a seed with ⟨b, e | bits⟩
  · rwa [hfound] at hk
  · rw [hfound] at hk
    simp only [useWindow] at hk
    rcases huse : use bits with ⟨_ | bits, answer⟩
    · simpa only [huse] using hk
    · simpa only [huse, LRUCache.keys_update] using hk

end Rename

/-! ## Runs -/

/-- The calls that come in two forms. -/
inductive Op where
  | isDuplicate
  | rollback
  | isInOrder
deriving DecidableEq, Repr

inductive Form where
  | text
  | object
deriving DecidableEq, Repr

inductive Call where
  | call (op : Op) (form : Form) (id : TextId)
  | getLastSeqId (id : Option ProducerId)

inductive Answer where
  | flag (result : Except Exn Bool)
  | done (result : Except Exn Unit)
  | seqId (value : Int)
deriving DecidableEq

/-- A call with a text. -/
def onText (a : MessageAudit) (op : Op) (text : Bytes) : MessageAudit × Answer :=
  match op with
  | .isDuplicate => Prod.map (fun a => a) .flag (a.isDuplicateText text)
  | .rollback => Prod.map (fun a => a) .done (a.rollbackText text)
  | .isInOrder => Prod.map (fun a => a) .flag (a.isInOrderText text)

/-- A call with a `MessageId`. -/
def onObject (a : MessageAudit) (op : Op) (id : MessageId) : MessageAudit × Answer :=
  match op with
  | .isDuplicate => Prod.map (fun a => a) .flag (a.isDuplicate (some id))
  | .rollback => Prod.map (fun a => a) .done (a.rollback (some id))
  | .isInOrder => Prod.map (fun a => a) .flag (a.isInOrder (some id))

/-- An id without a producer has no text; the caller gets the exception of `toString`. -/
def noText (op : Op) (e : Exn) : Answer :=
  match op with
  | .isDuplicate => .flag (.error e)
  | .rollback => .done (.error e)
  | .isInOrder => .flag (.error e)

/-- The calls as they are made. -/
def machine : Machine MessageAudit Call Answer where
  step a
    | .call op .text id =>
      match id.toString with
      | .error e => (a, noText op e)
      | .ok text => a.onText op text
    | .call op .object id => a.onObject op id.messageId
    | .getLastSeqId id => Prod.map (fun a => a) .seqId (a.getLastSeqId id)

/-- The same calls, each made with the `MessageId` itself. -/
def objectMachine : Machine MessageAudit Call Answer where
  step a
    | .call op _ id => a.onObject op id.messageId
    | .getLastSeqId id => Prod.map (fun a => a) .seqId (a.getLastSeqId id)

/-- The key of a producer's window in the calls with a text. -/
def textSeed (pid : ProducerId) : Bytes := pid.toString ++ [colon]

/-- The audit holds no window of this producer under the key of the other form, and
a text is that of the producer and the sequence id. For a sequence id below
zero the two forms of `isInOrder` start from different answers. -/
def OneForm (a : MessageAudit) : Call → Prop
  | .call op .text id => id.producerId.isSome ∧ ∀ pid ∈ id.producerId,
      id.toString = .ok (pid.toString ++ colon :: decimal id.producerSequenceId) ∧
        pid.toString ∉ a.map.keys ∧ (op = .isInOrder → 0 ≤ id.producerSequenceId)
  | .call _ .object id => ∀ pid ∈ id.producerId, textSeed pid ∉ a.map.keys
  | .getLastSeqId id => ∀ pid ∈ id, textSeed pid ∉ a.map.keys

instance (a : MessageAudit) (c : Call) : Decidable (a.OneForm c) :=
  match c with
  | .call _ .text _ => inferInstanceAs (Decidable (_ ∧ _))
  | .call _ .object id => inferInstanceAs (Decidable (∀ pid ∈ id.producerId, _))
  | .getLastSeqId id => inferInstanceAs (Decidable (∀ pid ∈ id, _))

/-! ### One call -/

/-- A call on the window filed under `seed`. -/
def perform (a : MessageAudit) (op : Op) (seed : Bytes) (index : Int) : MessageAudit × Answer :=
  match op with
  | .isDuplicate => useWindow seed (Prod.map (fun b => b) .flag ∘ mark index) (.flag ∘ .error)
      (a.bitsFor seed)
  | .rollback => useWindow seed (Prod.map (fun b => b) .done ∘ unmark index)
      (fun _ => .done (.ok ())) (a.findBits seed)
  | .isInOrder => useWindow seed (Prod.map (fun b => b) .flag ∘ inOrder false index)
      (.flag ∘ .error) (a.bitsFor seed)

theorem map_useWindow {ρ τ : Type} (g : ρ → τ) (seed : Bytes) (use : BitSet → Option BitSet × ρ)
    (missing : Exn → ρ) (fetched : MessageAudit × Except Exn BitSet) :
    Prod.map (fun a => a) g (useWindow seed use missing fetched) =
      useWindow seed (Prod.map (fun b => b) g ∘ use) (g ∘ missing) fetched := by
  rcases fetched with ⟨a, e | bits⟩
  · rfl
  simp only [useWindow, Function.comp_apply]
  rcases use bits with ⟨_ | bits, answer⟩ <;> rfl

variable (pid : ProducerId) (index : Int) (op : Op)

theorem onObject_some : a.onObject op ⟨some pid, index⟩ = a.perform op pid.toString index := by
  cases op with
  | isDuplicate =>
    rw [onObject, isDuplicate_some, isDuplicateAt_eq_useWindow, map_useWindow]
    rfl
  | rollback =>
    rw [onObject, rollback_some, rollbackAt_eq_useWindow, map_useWindow]
    rfl
  | isInOrder =>
    simp only [onObject, isInOrder]
    rw [if_neg pid.toString_ne_nil, map_useWindow]
    rfl

theorem onObject_none : (a.onObject op ⟨none, index⟩).1 = a := by
  cases op <;> rfl

theorem inOrder_of_nonneg {index : Int} (h : 0 ≤ index) (answer : Bool) :
    inOrder answer index = inOrder false index := by
  funext bits
  simp [inOrder, h]

/-- Read with its own text, a message id leads to the window under the longer key. -/
theorem onText_text {index : Int} (hlo : -2 ^ 63 ≤ index)
    (hhi : index < 2 ^ 63) (hop : op = .isInOrder → 0 ≤ index) :
    a.onText op (pid.toString ++ colon :: decimal index) = a.perform op (textSeed pid) index := by
  have hseed := IdGenerator.getSeedFromId_append pid.toString index
  have hne : pid.toString ++ [colon] ≠ [] := by simp
  have hread : ∀ {ρ : Type} (use : Int → BitSet → Option BitSet × Except Exn ρ),
      readSequence (pid.toString ++ colon :: decimal index) use = use index := by
    intro ρ use
    funext bits
    rw [readSequence, IdGenerator.getSequenceFromId_append pid.toString hlo hhi]
  cases op with
  | isDuplicate =>
    simp only [onText, isDuplicateText, hseed]
    rw [if_neg hne, hread, map_useWindow]
    rfl
  | rollback =>
    simp only [onText, rollbackText, hseed]
    rw [if_neg hne, hread, map_useWindow]
    rfl
  | isInOrder =>
    simp only [onText, isInOrderText, hseed]
    rw [if_neg (by simp), if_neg hne, hread, inOrder_of_nonneg (hop rfl), map_useWindow]
    rfl

/-! ### Forgetting the colon -/

/-- The key without the colon at its end. -/
def forget (key : Bytes) : Bytes := if key.getLast? = some colon then key.dropLast else key

theorem forget_textSeed : forget (textSeed pid) = pid.toString := by
  simp [forget, textSeed]

/-- The text of a producer ends in a number. -/
theorem forget_toString : forget pid.toString = pid.toString := by
  have hlast : pid.toString.getLast? = (decimal pid.value).getLast? := by
    obtain ⟨b, hb⟩ : ∃ b, (decimal pid.value).getLast? = some b :=
      Option.isSome_iff_exists.mp (by simpa using decimal_ne_nil pid.value)
    simp [ProducerId.toString, List.getLast?_cons, hb]
  refine if_neg fun hcolon => colon_not_mem_decimal pid.value ?_
  exact List.mem_of_getLast? (hlast ▸ hcolon)

/-- Every window belongs to a producer. -/
def Filed (a : MessageAudit) : Prop :=
  ∀ k ∈ a.map.keys, ∃ pid : ProducerId, k = pid.toString ∨ k = textSeed pid

variable {pid : ProducerId}

/-- Where the window of the other form is missing, the colon makes no difference. -/
theorem separates_of_oneForm {a : MessageAudit} (ha : a.Filed) {key other : Bytes}
    (hkey : key = pid.toString ∧ other = textSeed pid ∨ key = textSeed pid ∧ other = pid.toString)
    (hother : other ∉ a.map.keys) : a.map.Separates forget key := by
  have himage : forget key = pid.toString := by
    rcases hkey with ⟨rfl, -⟩ | ⟨rfl, -⟩
    · exact forget_toString pid
    · exact forget_textSeed pid
  intro k hk hf
  obtain ⟨q, hq⟩ := ha k hk
  have hsame : q = pid := by
    apply ProducerId.toString_inj
    rw [← himage, ← hf]
    rcases hq with rfl | rfl
    · exact (forget_toString q).symm
    · exact (forget_textSeed q).symm
  rcases hkey with ⟨rfl, rfl⟩ | ⟨rfl, rfl⟩ <;> rcases hq with rfl | rfl <;> simp_all

variable {seed : Bytes}

theorem perform_forget {a : MessageAudit} (h : a.map.Separates forget seed) :
    (a.rename forget).perform op (forget seed) index =
      ((a.perform op seed index).1.rename forget, (a.perform op seed index).2) := by
  cases op with
  | isDuplicate | isInOrder => exact useWindow_rename h _ (bitsFor_fetches h) _
  | rollback => exact useWindow_rename h _ (findBits_fetches h) _

theorem keys_perform {a : MessageAudit} (h : a.map.Separates forget seed)
    {k : Bytes} (hk : k ∈ (a.perform op seed index).1.map.keys) : k = seed ∨ k ∈ a.map.keys := by
  cases op with
  | isDuplicate | isInOrder => exact keys_useWindow _ (bitsFor_fetches h) _ hk
  | rollback => exact keys_useWindow _ (findBits_fetches h) _ hk

/-- The audit as it is, and as it is with the calls made with the `MessageId`: the second is
the first without the colons. -/
def Forgets (a b : MessageAudit) : Prop := a.Filed ∧ b = a.rename forget

theorem Filed.step {a b : MessageAudit} (ha : a.Filed)
    (hseed : seed = pid.toString ∨ seed = textSeed pid)
    (hkeys : ∀ k ∈ b.map.keys, k = seed ∨ k ∈ a.map.keys) : b.Filed := by
  intro k hk
  rcases hkeys k hk with rfl | hold
  · exact ⟨pid, hseed⟩
  · exact ha k hold

theorem Forgets.step (b : MessageAudit) (c : Call) (h : Forgets a b) (hc : a.OneForm c) :
    Forgets (machine.step a c).1 (objectMachine.step b c).1 ∧
      (machine.step a c).2 = (objectMachine.step b c).2 := by
  obtain ⟨hfiled, rfl⟩ := h
  match c, hc with
  | .call op .text id, hc =>
    obtain ⟨hsome, hall⟩ := hc
    obtain ⟨pid, hpid⟩ := Option.isSome_iff_exists.mp hsome
    obtain ⟨htext, hother, hop⟩ := hall pid hpid
    have hsep : a.map.Separates forget (textSeed pid) :=
      separates_of_oneForm hfiled (.inr ⟨rfl, rfl⟩) hother
    have hown : machine.step a (.call op .text id) =
        a.perform op (textSeed pid) id.producerSequenceId := by
      simp only [machine, htext]
      exact onText_text a pid op id.sequence_lo id.sequence_hi hop
    have hobject : objectMachine.step (a.rename forget) (.call op .text id) =
        (a.rename forget).perform op (forget (textSeed pid)) id.producerSequenceId := by
      rw [forget_textSeed, ← onObject_some, ← hpid]
      rfl
    rw [hown, hobject, perform_forget _ _ hsep]
    exact ⟨⟨hfiled.step (.inr rfl) fun k => keys_perform _ op hsep, rfl⟩, rfl⟩
  | .call op .object id, hc =>
    show Forgets (a.onObject op id.messageId).1 ((a.rename forget).onObject op id.messageId).1 ∧
      (a.onObject op id.messageId).2 = ((a.rename forget).onObject op id.messageId).2
    rcases hpid : id.producerId with _ | pid
    · simp only [TextId.messageId, hpid, onObject_none]
      exact ⟨⟨hfiled, rfl⟩, by cases op <;> rfl⟩
    have hsep : a.map.Separates forget pid.toString :=
      separates_of_oneForm hfiled (.inl ⟨rfl, rfl⟩) (hc pid hpid)
    have hobject := perform_forget id.producerSequenceId op hsep
    rw [forget_toString] at hobject
    simp only [TextId.messageId, hpid, onObject_some, hobject]
    exact ⟨⟨hfiled.step (.inl rfl) fun k => keys_perform _ op hsep, rfl⟩, trivial⟩
  | .getLastSeqId none, _ => exact ⟨⟨hfiled, rfl⟩, rfl⟩
  | .getLastSeqId (some pid), hc =>
    have hsep : a.map.Separates forget pid.toString :=
      separates_of_oneForm hfiled (.inl ⟨rfl, rfl⟩) (hc pid rfl)
    have hrename := useWindow_rename hsep lastSeqId (findBits_fetches hsep) fun _ => -1
    rw [forget_toString] at hrename
    simp only [machine, objectMachine, getLastSeqId, if_neg pid.toString_ne_nil, hrename]
    have hkeys : ∀ k ∈ (useWindow pid.toString lastSeqId (fun _ => -1)
        (a.findBits pid.toString)).1.map.keys, k = pid.toString ∨ k ∈ a.map.keys :=
      fun k => keys_useWindow _ (findBits_fetches hsep) _
    exact ⟨⟨hfiled.step (.inl rfl) hkeys, rfl⟩, rfl⟩

/-! ### Whole runs -/

/-- In every run whose calls find no window of the other form, each call answers as it does
with the `MessageId` itself, and the run leaves the same windows, up to the colon. -/
theorem audit_forms_interchange (auditDepth maximum : Int) (calls : List Call)
    (hone : machine.Meets OneForm (new auditDepth maximum) calls) :
    machine.trace (new auditDepth maximum) calls =
        objectMachine.trace (new auditDepth maximum) calls ∧
      objectMachine.run (new auditDepth maximum) calls =
        (machine.run (new auditDepth maximum) calls).rename forget := by
  have hnew : Forgets (new auditDepth maximum) (new auditDepth maximum) := ⟨nofun, rfl⟩
  obtain ⟨htrace, hrun⟩ := Machine.trace_eq_of_simulation Forgets.step hnew hone
  exact ⟨htrace, hrun.2⟩

/-- Message 5 of a producer. -/
def sampleId : TextId where
  textView := []
  producerId := some ⟨[97], 1, 1⟩
  producerSequenceId := 5
  key := []
  sequence_lo := by decide
  sequence_hi := by decide

/-- The id the broker's text `a:1:1:5` is turned into. -/
def sampleParsedId : TextId := { sampleId with key := [97, 58, 49, 58, 49] }

/-- One producer addressed by text and another by id. -/
def sampleCalls : List Call :=
  [.call .isDuplicate .text sampleId, .call .isInOrder .text sampleId,
    .call .rollback .text sampleId, .call .isDuplicate .text sampleId,
    .call .isDuplicate .object { sampleId with producerId := some ⟨[98], 1, 1⟩ },
    .getLastSeqId (some ⟨[98], 1, 1⟩)]

theorem audit_forms_interchange_sample :
    machine.trace (new 64 8) sampleCalls =
      [.flag (.ok false), .flag (.ok true), .done (.ok ()), .flag (.ok false), .flag (.ok false),
        .seqId 5] ∧
    machine.trace (new 64 8) sampleCalls = objectMachine.trace (new 64 8) sampleCalls :=
  ⟨by decide, (audit_forms_interchange 64 8 sampleCalls (by decide +kernel)).1⟩

/-- A message seen by its id is new by its text; it cannot be rolled back by its text; and an
id made from a text has the producer's text for its own. -/
theorem audit_forms_differ :
    machine.trace (new 64 8)
        [.call .isDuplicate .object sampleId, .call .isDuplicate .text sampleId] =
      [.flag (.ok false), .flag (.ok false)] ∧
    objectMachine.trace (new 64 8)
        [.call .isDuplicate .object sampleId, .call .isDuplicate .text sampleId] =
      [.flag (.ok false), .flag (.ok true)] ∧
    machine.trace (new 64 8)
        [.call .isDuplicate .object sampleId, .call .rollback .text sampleId,
          .call .isDuplicate .object sampleId, .call .isInOrder .text sampleId] =
      [.flag (.ok false), .done (.ok ()), .flag (.ok true), .flag (.ok false)] ∧
    machine.trace (new 64 8)
        [.call .isDuplicate .text sampleId, .getLastSeqId (some ⟨[97], 1, 1⟩)] =
      [.flag (.ok false), .seqId (-1)] ∧
    sampleParsedId.toString = .ok [97, 58, 49, 58, 49] := by
  decide

end MessageAudit

end ActivemqCpp.Core
