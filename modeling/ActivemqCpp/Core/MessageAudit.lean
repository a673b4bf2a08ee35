import ActivemqCpp.Base.Machine
import ActivemqCpp.Commands.Ids
import ActivemqCpp.Decaf.BitSet
import ActivemqCpp.Decaf.LRUCache

/-!
# `ActiveMQMessageAudit`: has this message been seen before?

One bit set per producer, filed under the producer's text in an LRU cache. A
64-bit sequence id is folded into a 32-bit index: `(int) n` up to `2^31 - 1`,
`(int) (n - (2^31 - 1))` above.

* `isDuplicateAt_spec`, `rollbackAt_spec` — on an audit that need not drop a
  producer, the calls test, set and clear one bit, as long as the folded index
  is not negative.
* `audit_exact_iff_foldsApart` — the audit answers like the set of messages
  presented and not rolled back *iff* the ids in use fold to indices that are
  not negative and, for one producer, distinct. `4294967295` folds to `-2^31`,
  where the bit set throws; `2^31` folds to `1`, the index of another id.
-/

namespace ActivemqCpp.Core

open Base Commands Decaf List LRUCache BitSet

/-- `MessageAuditImpl`. The cache keeps its default bound: the constructor does
not pass `maximumNumberOfProducersToTrack` on. -/
structure MessageAudit where
  auditDepth : Int
  maximumNumberOfProducersToTrack : Int
  map : LRUCache Bytes BitSet

namespace MessageAudit

/-- `ActiveMQMessageAudit(auditDepth, maximumNumberOfProducersToTrack)`. -/
def new (auditDepth maximumNumberOfProducersToTrack : Int) : MessageAudit :=
  ⟨auditDepth, maximumNumberOfProducersToTrack, LRUCache.new⟩

/-- `Integer::MAX_VALUE`. -/
def maxInt : Int := 2 ^ 31 - 1

/-- The `(int)` cast of a `long long`. -/
def castInt (n : Int) : Int := n.bmod (2 ^ 32)

/-- The index under which a sequence id is filed. -/
def scaledIndex (index : Int) : Int :=
  if index > maxInt then castInt (index - maxInt) else castInt index

/-- The bit set filed under `seed`, made and stored when there is none. -/
def bitsFor (a : MessageAudit) (seed : Bytes) : MessageAudit × Except Exn BitSet :=
  match a.map.get seed with
  | (map, .ok bits) => ({ a with map }, .ok bits)
  | (_, .error _) =>
    match ofCount a.auditDepth with
    | .error e => (a, .error e)
    | .ok bits => ({ a with map := a.map.put seed bits }, .ok bits)

/-- The body of `isDuplicate`, behind the tests for a missing id. -/
def isDuplicateAt (a : MessageAudit) (seed : Bytes) (index : Int) :
    MessageAudit × Except Exn Bool :=
  match a.bitsFor seed with
  | (a, .error e) => (a, .error e)
  | (a, .ok bits) =>
    if index ≥ 0 then
      match bits.get (scaledIndex index) with
      | .error e => (a, .error e)
      | .ok true => (a, .ok true)
      | .ok false =>
        match bits.setTo (scaledIndex index) true with
        | .error e => (a, .error e)
        | .ok bits => ({ a with map := a.map.update seed bits }, .ok false)
    else (a, .ok false)

/-- The body of `rollback`, behind the tests for a missing id. -/
def rollbackAt (a : MessageAudit) (seed : Bytes) (index : Int) : MessageAudit × Except Exn Unit :=
  match a.map.get seed with
  | (_, .error _) => (a, .ok ())
  | (map, .ok bits) =>
    let a := { a with map }
    if index ≥ 0 then
      match bits.setTo (scaledIndex index) false with
      | .error e => (a, .error e)
      | .ok bits => ({ a with map := a.map.update seed bits }, .ok ())
    else (a, .ok ())

/-- `isDuplicate(Pointer<MessageId>)`. -/
def isDuplicate (a : MessageAudit) (msgId : Option MessageId) : MessageAudit × Except Exn Bool :=
  match msgId with
  | none => (a, .ok false)
  | some id =>
    match id.producerId with
    | none => (a, .ok false)
    | some pid =>
      if pid.toString = [] then (a, .ok false)
      else a.isDuplicateAt pid.toString id.producerSequenceId

/-- `rollback(Pointer<MessageId>)`. -/
def rollback (a : MessageAudit) (msgId : Option MessageId) : MessageAudit × Except Exn Unit :=
  match msgId with
  | none => (a, .ok ())
  | some id =>
    match id.producerId with
    | none => (a, .ok ())
    | some pid =>
      if pid.toString = [] then (a, .ok ())
      else a.rollbackAt pid.toString id.producerSequenceId

/-! ## One bit at a time -/

/-- The bit filed under `seed` at index `i`. -/
def marked (a : MessageAudit) (seed : Bytes) (i : Nat) : Bool :=
  (a.map.lookup seed).any fun bits => bits.testBit i

/-- The audit files only the given seeds, which fit into its cache. -/
structure Tracks (a : MessageAudit) (seeds : List Bytes) : Prop where
  depth : 0 ≤ a.auditDepth
  room : seeds.length ≤ a.map.maxCacheSize
  nodup : a.map.keys.Nodup
  keys : ∀ k ∈ a.map.keys, k ∈ seeds
  wf : ∀ k bits, a.map.lookup k = some bits → bits.Wf

theorem tracks_new {auditDepth : Int} (h : 0 ≤ auditDepth) (maximum : Int) {seeds : List Bytes}
    (hroom : seeds.length ≤ 10000) : (new auditDepth maximum).Tracks seeds :=
  ⟨h, hroom, nodup_nil, nofun, nofun⟩

theorem marked_new (auditDepth maximum : Int) (seed : Bytes) (i : Nat) :
    (new auditDepth maximum).marked seed i = false := rfl

variable {a : MessageAudit} {seeds : List Bytes} (ha : a.Tracks seeds)
include ha

/-- Reading a bit set moves its entry and changes nothing else. -/
theorem tracks_get (seed : Bytes) : { a with map := (a.map.get seed).1 }.Tracks seeds where
  depth := ha.depth
  room := by simpa using ha.room
  nodup := nodup_keys_get ha.nodup seed
  keys k hk := by
    rw [mem_keys_iff] at hk
    simp only [lookup_get] at hk
    exact ha.keys k ((mem_keys_iff _ _).mpr hk)
  wf k bits h := ha.wf k bits (by simpa using h)

variable {seed : Bytes} {bits : BitSet}

/-- Filing a bit set for a new producer drops no other. -/
theorem tracks_put (hseed : seed ∈ seeds)
    (hbits : bits.Wf) : { a with map := a.map.put seed bits }.Tracks seeds := by
  have hfits := fits_of_keys_subset ha.nodup ha.keys hseed ha.room
  refine ⟨ha.depth, ha.room, nodup_keys_put ha.nodup seed bits, fun k hk => ?_, fun k b hb => ?_⟩
  · obtain ⟨b, hb⟩ := (mem_keys_iff _ _).mp hk
    rw [lookup_put hfits] at hb
    split at hb
    · next h => rw [h]; exact hseed
    · exact ha.keys k ((mem_keys_iff _ _).mpr ⟨b, hb⟩)
  · rw [lookup_put hfits] at hb
    split at hb
    · cases hb
      exact hbits
    · exact ha.wf k b hb

/-- `bitsFor` files an empty set for a new producer; no bit changes. -/
theorem bitsFor_spec (hseed : seed ∈ seeds) :
    ∃ a' bits, a.bitsFor seed = (a', .ok bits) ∧ a'.Tracks seeds ∧
      a'.map.lookup seed = some bits ∧ ∀ s i, a'.marked s i = a.marked s i := by
  cases hl : a.map.lookup seed with
  | some bits =>
    refine ⟨{ a with map := (a.map.get seed).1 }, bits, ?_, tracks_get ha seed, by simpa using hl,
      fun s i => by simp [marked]⟩
    rw [bitsFor, get_of_lookup hl]
  | none =>
    have hdepth : ¬ a.auditDepth < 0 := not_lt.mpr ha.depth
    obtain ⟨bits, hbits⟩ : ∃ bits, ofCount a.auditDepth = .ok bits := by
      simp [ofCount, hdepth]
    have hfits := fits_of_keys_subset ha.nodup ha.keys hseed ha.room
    refine ⟨{ a with map := a.map.put seed bits }, bits, ?_,
      tracks_put ha hseed (wf_ofCount hbits), ?_, fun s i => ?_⟩
    · rw [bitsFor, get_of_lookup_none hl]
      simp [hbits]
    · simp [lookup_put hfits]
    · simp only [marked, lookup_put hfits]
      split
      · next h => simp [h, hl, testBit_ofCount _ hbits]
      · rfl

/-- Writing a bit set through its pointer. -/
theorem tracks_update (seed : Bytes) (hbits : bits.Wf) :
    { a with map := a.map.update seed bits }.Tracks seeds := by
  refine ⟨ha.depth, ha.room, by simpa using ha.nodup, by simpa using ha.keys, fun k b hb => ?_⟩
  rw [lookup_update] at hb
  split at hb
  · obtain ⟨_, -, rfl⟩ := Option.map_eq_some_iff.mp hb
    exact hbits
  · exact ha.wf k b hb

omit ha

theorem marked_update {old : BitSet} (hl : a.map.lookup seed = some old) (bits : BitSet) (s : Bytes)
    (i : Nat) :
    { a with map := a.map.update seed bits }.marked s i =
      if s = seed then bits.testBit i else a.marked s i := by
  simp only [marked, lookup_update, hl]
  split <;> rfl

/-- What the calls do to the audit they found: nothing, or one bit set is rewritten. -/
def Rewrites (a : MessageAudit) (seed : Bytes) (a' : MessageAudit) : Prop :=
  a' = a ∨ ∃ bits : BitSet, bits.Wf ∧ a' = { a with map := a.map.update seed bits }

theorem Rewrites.tracks {a' : MessageAudit} (h : a.Rewrites seed a')
    (ha : a.Tracks seeds) : a'.Tracks seeds := by
  rcases h with rfl | ⟨bits, hbits, rfl⟩
  · exact ha
  · exact tracks_update ha seed hbits

variable {index : Int} (hfold : 0 ≤ scaledIndex index) (hindex : 0 ≤ index)
include hfold hindex

/-- The test and the mark, on the bit set that `bitsFor` yields. -/
theorem isDuplicateAt_of_bitsFor {a₁ : MessageAudit} (hbits : a.bitsFor seed = (a₁, .ok bits))
    (hl : a₁.map.lookup seed = some bits) (hwf : bits.Wf) : ∃ a', a.isDuplicateAt seed index =
        (a', .ok (a₁.marked seed (scaledIndex index).toNat)) ∧ a₁.Rewrites seed a' ∧
      ∀ s i, a'.marked s i =
        (decide (s = seed ∧ i = (scaledIndex index).toNat) || a₁.marked s i) := by
  have hget : bits.get (scaledIndex index) = .ok (a₁.marked seed (scaledIndex index).toNat) := by
    rw [BitSet.get, if_neg (not_lt.mpr hfold), marked, hl]
    rfl
  simp only [isDuplicateAt, hbits, hindex, hget]
  cases hbit : a₁.marked seed (scaledIndex index).toNat with
  | true =>
    refine ⟨a₁, rfl, .inl rfl, fun s i => ?_⟩
    by_cases h : s = seed ∧ i = (scaledIndex index).toNat
    · simp [h.1, h.2, hbit]
    · simp [h]
  | false =>
    have hset : bits.setTo (scaledIndex index) true =
        .ok (bits.setBit (scaledIndex index).toNat) := by
      simp [BitSet.setTo, BitSet.set, not_lt.mpr hfold]
    simp only [hset]
    refine ⟨_, rfl, .inr ⟨_, BitSet.wf_setBit _ hwf, rfl⟩, fun s i => ?_⟩
    rw [marked_update hl, testBit_setBit hwf]
    by_cases hs : s = seed
    · simp [hs, marked, hl]
    · simp [hs]

/-- `isDuplicate` answers the bit and sets it. -/
theorem isDuplicateAt_spec (ha : a.Tracks seeds) (hseed : seed ∈ seeds) :
    ∃ a', a.isDuplicateAt seed index =
        (a', .ok (a.marked seed (scaledIndex index).toNat)) ∧ a'.Tracks seeds ∧
      ∀ s i, a'.marked s i =
        (decide (s = seed ∧ i = (scaledIndex index).toNat) || a.marked s i) := by
  obtain ⟨a₁, bits, hbits, ha₁, hl, hmarked⟩ := bitsFor_spec ha hseed
  obtain ⟨a', hcall, hrewrites, hmarked'⟩ :=
    isDuplicateAt_of_bitsFor hfold hindex hbits hl (ha₁.wf seed bits hl)
  refine ⟨a', ?_, hrewrites.tracks ha₁, fun s i => ?_⟩
  · rw [hcall, hmarked]
  · rw [hmarked', hmarked]

/-- The cleared bit, whatever else the audit holds. -/
theorem rollbackAt_of_wf (hwf : ∀ bits, a.map.lookup seed = some bits → bits.Wf) :
    ∃ a', a.rollbackAt seed index = (a', .ok ()) ∧
      (a' = a ∨ { a with map := (a.map.get seed).1 }.Rewrites seed a') ∧
      ∀ s i, a'.marked s i =
        (decide (¬ (s = seed ∧ i = (scaledIndex index).toNat)) && a.marked s i) := by
  cases hl : a.map.lookup seed with
  | none =>
    refine ⟨a, ?_, .inl rfl, fun s i => ?_⟩
    · rw [rollbackAt, get_of_lookup_none hl]
    · by_cases hs : s = seed
      · simp [marked, hs, hl]
      · simp [hs]
  | some bits =>
    have hwf : bits.Wf := hwf bits hl
    have hl₁ : (a.map.get seed).1.lookup seed = some bits := by simpa using hl
    have hclear : bits.setTo (scaledIndex index) false =
        .ok (bits.clearBit (scaledIndex index).toNat) := by
      simp [BitSet.setTo, BitSet.clear, not_lt.mpr hfold]
    refine ⟨_, ?_, .inr (.inr ⟨_, BitSet.wf_clearBit (scaledIndex index).toNat hwf, rfl⟩),
      fun s i => ?_⟩
    · rw [rollbackAt, get_of_lookup hl]
      simp [hindex, hclear]
    · rw [marked_update hl₁, BitSet.testBit_clearBit hwf]
      by_cases hs : s = seed
      · simp [hs, marked, hl]
      · simp [hs, marked]

/-- `rollback` clears the bit. -/
theorem rollbackAt_spec (ha : a.Tracks seeds) (seed : Bytes) :
    ∃ a', a.rollbackAt seed index = (a', .ok ()) ∧ a'.Tracks seeds ∧ ∀ s i, a'.marked s i =
        (decide (¬ (s = seed ∧ i = (scaledIndex index).toNat)) && a.marked s i) := by
  obtain ⟨a', hcall, hrewrites, hmarked⟩ := rollbackAt_of_wf hfold hindex (ha.wf seed)
  refine ⟨a', hcall, ?_, hmarked⟩
  rcases hrewrites with rfl | hrewrites
  · exact ha
  · exact hrewrites.tracks (tracks_get ha seed)

end MessageAudit

/-! ## The audit against the set of messages presented -/

/-- A call on the audit; a message is its producer and its sequence id. -/
inductive AuditCall where
  | isDuplicate (producer : ProducerId) (sequence : Nat)
  | rollback (producer : ProducerId) (sequence : Nat)

namespace AuditCall

def producer : AuditCall → ProducerId
  | isDuplicate p _ | rollback p _ => p

def sequence : AuditCall → Nat
  | isDuplicate _ n | rollback _ n => n

end AuditCall

/-- The source's audit: an answer for `isDuplicate`, none for `rollback`. -/
def auditMachine : Machine MessageAudit AuditCall (Except Exn (Option Bool)) where
  step a
    | .isDuplicate p n =>
      let r := a.isDuplicate (some ⟨some p, n⟩)
      (r.1, r.2.map some)
    | .rollback p n =>
      let r := a.rollback (some ⟨some p, n⟩)
      (r.1, r.2.map fun _ => none)

/-- What the audit is for: the messages presented and not rolled back since. -/
def presentedMachine : Machine (List (ProducerId × Nat)) AuditCall (Except Exn (Option Bool)) where
  step seen
    | .isDuplicate p n => ((p, n) :: seen, .ok (some (decide ((p, n) ∈ seen))))
    | .rollback p n => (seen.filter (· ≠ (p, n)), .ok none)

/-- The producers an audit can file at once, by the default bound of its cache. -/
def trackedProducers : Nat := 10000

/-- No message is older than its producer's newest by more than the window. -/
def InWindow (depth : Nat) (calls : List AuditCall) : Prop :=
  calls.Pairwise fun earlier later =>
    earlier.producer = later.producer → earlier.sequence ≤ later.sequence + depth

/-- The audit throws nothing and answers every call as the set does. -/
def Exact (depth : Nat) (maximum : Int) (calls : List AuditCall) : Prop :=
  auditMachine.trace (MessageAudit.new depth maximum) calls = presentedMachine.trace [] calls

/-- The ids fold to indices that are not negative and, for one producer,
distinct. -/
def FoldsApart (ids : Set (ProducerId × Nat)) : Prop :=
  ∀ m ∈ ids, 0 ≤ MessageAudit.scaledIndex m.2 ∧ ∀ m' ∈ ids, m'.1 = m.1 →
    MessageAudit.scaledIndex m'.2 = MessageAudit.scaledIndex m.2 → m' = m

open MessageAudit

variable {n : Nat} {ids : Set (ProducerId × Nat)}

theorem scaledIndex_of_le (h : (n : Int) ≤ maxInt) : scaledIndex n = n := by
  unfold scaledIndex castInt
  rw [if_neg (not_lt.mpr h)]
  unfold maxInt at h
  rw [Int.bmod_eq_of_le] <;> omega

/-- Ids that fit into an `int` are their own indices. -/
theorem foldsApart_of_le (h : ∀ m ∈ ids, (m.2 : Int) ≤ maxInt) : FoldsApart ids := by
  intro m hm
  rw [scaledIndex_of_le (h m hm)]
  refine ⟨Int.natCast_nonneg _, fun m' hm' hproducer heq => ?_⟩
  rw [scaledIndex_of_le (h m' hm')] at heq
  exact Prod.ext hproducer (Int.ofNat.inj heq)

theorem isDuplicate_some (a : MessageAudit) (p : ProducerId) (n : Int) :
    a.isDuplicate (some ⟨some p, n⟩) = a.isDuplicateAt p.toString n := by
  simp [MessageAudit.isDuplicate, p.toString_ne_nil]

theorem rollback_some (a : MessageAudit) (p : ProducerId) (n : Int) :
    a.rollback (some ⟨some p, n⟩) = a.rollbackAt p.toString n := by
  simp [MessageAudit.rollback, p.toString_ne_nil]

/-- The bits of the audit are the folded indices of the messages seen. -/
structure Represents (ids : Set (ProducerId × Nat)) (producers : List ProducerId)
    (a : MessageAudit) (seen : List (ProducerId × Nat)) : Prop where
  tracks : a.Tracks (producers.map ProducerId.toString)
  within : ∀ m ∈ seen, m ∈ ids
  bits : ∀ p i, a.marked p.toString i = true ↔
    ∃ n, (p, n) ∈ seen ∧ (scaledIndex n).toNat = i

section Simulation

variable {ids : Set (ProducerId × Nat)} {producers : List ProducerId}
  {a : MessageAudit} {seen : List (ProducerId × Nat)} (hids : FoldsApart ids)
include hids

/-- On ids that fold apart an index names one message of its producer. -/
theorem index_inj {p : ProducerId} {m : Nat} (hm : (p, m) ∈ ids)
    (hn : (p, n) ∈ ids) (h : (scaledIndex m).toNat = (scaledIndex n).toNat) : m = n := by
  have hm0 := (hids _ hm).1
  have hn0 := (hids _ hn).1
  have heq : scaledIndex m = scaledIndex n := by
    simp only at hm0 hn0
    omega
  exact (Prod.mk.inj ((hids _ hn).2 _ hm rfl heq)).2

variable (h : Represents ids producers a seen)
include h

theorem marked_iff_seen {p : ProducerId} (hn : (p, n) ∈ ids) :
    a.marked p.toString (scaledIndex n).toNat = decide ((p, n) ∈ seen) := by
  rw [Bool.eq_iff_iff, h.bits, decide_eq_true_iff]
  constructor
  · rintro ⟨m, hm, hmn⟩
    rwa [← index_inj hids (h.within _ hm) hn hmn]
  · intro hmem
    exact ⟨n, hmem, rfl⟩

theorem represents_step
    {c : AuditCall} (hc : (c.producer, c.sequence) ∈ ids ∧ c.producer ∈ producers) :
    Represents ids producers (auditMachine.step a c).1 (presentedMachine.step seen c).1 ∧
      (auditMachine.step a c).2 = (presentedMachine.step seen c).2 := by
  cases c with
  | isDuplicate p n =>
    obtain ⟨hid, hp⟩ := hc
    change (p, n) ∈ ids at hid
    change p ∈ producers at hp
    obtain ⟨a', hstep, htracks, hmarked⟩ := isDuplicateAt_spec (hids _ hid).1
      (Int.natCast_nonneg n) h.tracks (mem_map_of_mem hp)
    have hcode : auditMachine.step a (.isDuplicate p n) =
        (a', .ok (some (decide ((p, n) ∈ seen)))) := by
      rw [← marked_iff_seen hids h hid]
      simp [auditMachine, isDuplicate_some, hstep, Except.map]
    rw [hcode]
    refine ⟨⟨htracks, ?_, fun q i => ?_⟩, rfl⟩
    · intro m hm
      rcases mem_cons.mp hm with rfl | hold
      · exact hid
      · exact h.within m hold
    · rw [hmarked, Bool.or_eq_true, decide_eq_true_iff, h.bits]
      constructor
      · rintro (⟨hq, rfl⟩ | ⟨m, hm, hi⟩)
        · rw [ProducerId.toString_inj hq]
          exact ⟨n, mem_cons_self, rfl⟩
        · exact ⟨m, mem_cons_of_mem _ hm, hi⟩
      · rintro ⟨m, hm, hi⟩
        rcases mem_cons.mp hm with heq | hold
        · cases heq
          exact Or.inl ⟨rfl, hi.symm⟩
        · exact Or.inr ⟨m, hold, hi⟩
  | rollback p n =>
    obtain ⟨hid, hp⟩ := hc
    change (p, n) ∈ ids at hid
    obtain ⟨a', hstep, htracks, hmarked⟩ := rollbackAt_spec (hids _ hid).1 (Int.natCast_nonneg n)
      h.tracks p.toString
    have hcode : auditMachine.step a (.rollback p n) = (a', .ok none) := by
      simp [auditMachine, rollback_some, hstep, Except.map]
    rw [hcode]
    refine ⟨⟨htracks, fun m hm => h.within m (mem_of_mem_filter hm), fun q i => ?_⟩, rfl⟩
    rw [hmarked, Bool.and_eq_true, decide_eq_true_iff, h.bits]
    -- the only message filed under the cleared index is the one rolled back
    constructor
    · rintro ⟨hne, m, hm, rfl⟩
      refine ⟨m, mem_filter.mpr ⟨hm, ?_⟩, rfl⟩
      rw [decide_eq_true_iff]
      rintro heq
      cases heq
      exact hne ⟨rfl, rfl⟩
    · rintro ⟨m, hm, rfl⟩
      obtain ⟨hmem, hne⟩ := mem_filter.mp hm
      refine ⟨?_, m, hmem, rfl⟩
      rintro ⟨hq, hi⟩
      obtain rfl := ProducerId.toString_inj hq
      rw [index_inj hids (h.within _ hmem) hid hi] at hne
      simp at hne

end Simulation

variable (maximum : Int) (depth : Nat)

/-- Ids that fold apart: every run of calls over them is answered exactly. -/
theorem exact_of_foldsApart (hids : FoldsApart ids) {calls : List AuditCall}
    (hcalls : ∀ c ∈ calls, (c.producer, c.sequence) ∈ ids)
    (hroom : (calls.map AuditCall.producer).dedup.length ≤ trackedProducers) :
    Exact depth maximum calls := by
  set producers := (calls.map AuditCall.producer).dedup with hproducers
  have h0 : Represents ids producers (new depth maximum) [] := by
    refine ⟨tracks_new (Int.natCast_nonneg depth) maximum ?_, nofun, fun p i => ?_⟩
    · simpa [trackedProducers] using hroom
    · simp [marked_new]
  have hok : ∀ c ∈ calls, (c.producer, c.sequence) ∈ ids ∧ c.producer ∈ producers :=
    fun c hc => ⟨hcalls c hc, mem_dedup.mpr (mem_map_of_mem hc)⟩
  exact (Machine.trace_eq_of_simulation (R := Represents ids producers)
    (fun a seen c h hc => represents_step hids h hc)
    h0 (Machine.meets_of_forall hok _)).1

/-- Presenting one message whose index is negative throws. -/
theorem not_exact_of_negative (p : ProducerId)
    (hn : scaledIndex n < 0) : ¬ Exact depth maximum [.isDuplicate p n] := by
  intro h
  have htracks : (new depth maximum).Tracks [p.toString] :=
    tracks_new (Int.natCast_nonneg depth) maximum (by simp)
  obtain ⟨a', bits, hbits, -⟩ := bitsFor_spec htracks mem_cons_self
  have hthrows : (auditMachine.step (new depth maximum) (.isDuplicate p n)).2 =
      .error .indexOutOfBounds := by
    simp [auditMachine, isDuplicate_some, isDuplicateAt, hbits, BitSet.get, hn, Except.map]
  have hhead := (cons.inj h).1
  rw [hthrows] at hhead
  cases hhead

/-- Presenting two messages of one producer under one index: the second, new, is
called a duplicate. -/
theorem not_exact_of_alias (p : ProducerId) {m : Nat}
    (hne : m ≠ n) (hm : 0 ≤ scaledIndex m) (heq : scaledIndex m = scaledIndex n) :
    ¬ Exact depth maximum [.isDuplicate p m, .isDuplicate p n] := by
  intro h
  have htracks : (new depth maximum).Tracks [p.toString] :=
    tracks_new (Int.natCast_nonneg depth) maximum (by simp)
  obtain ⟨a₁, hfirst, ha₁, hmarked⟩ := isDuplicateAt_spec hm (Int.natCast_nonneg m)
    htracks mem_cons_self
  obtain ⟨a₂, hsecond, -, -⟩ := isDuplicateAt_spec (heq ▸ hm) (Int.natCast_nonneg n)
    ha₁ mem_cons_self
  have hstep : (auditMachine.step (new depth maximum) (.isDuplicate p m)).1 = a₁ := by
    simp [auditMachine, isDuplicate_some, hfirst]
  have hanswer : (auditMachine.step a₁ (.isDuplicate p n)).2 = .ok (some true) := by
    simp [auditMachine, isDuplicate_some, hsecond, hmarked, heq, Except.map]
  have htail := (cons.inj (cons.inj h).2).1
  rw [hstep, hanswer] at htail
  simp [presentedMachine, Ne.symm hne] at htail

/-- **The duplicate audit.** Every windowed sequence of calls over the ids, with
no more producers than the audit tracks, is answered exactly as by the set of
messages presented and not rolled back, and nothing throws — *iff* the ids fold
to indices that are not negative and, for one producer, distinct. -/
theorem audit_exact_iff_foldsApart (depth : Nat) (maximum : Int)
    (ids : Set (ProducerId × Nat)) :
    (∀ calls : List AuditCall, (∀ c ∈ calls, (c.producer, c.sequence) ∈ ids) →
        (calls.map AuditCall.producer).dedup.length ≤ trackedProducers →
        InWindow depth calls → Exact depth maximum calls) ↔ FoldsApart ids := by
  constructor
  · intro hexact
    have hnonneg : ∀ m ∈ ids, 0 ≤ scaledIndex m.2 := by
      rintro ⟨p, n⟩ hm
      by_contra hneg
      refine not_exact_of_negative maximum depth p (not_le.mp hneg) (hexact _ ?_ ?_ ?_)
      · intro c hc
        rw [mem_singleton.mp hc]
        exact hm
      · simp [trackedProducers]
      · exact pairwise_singleton _ _
    -- two ids under one index, presented in increasing order
    have hincreasing : ∀ p m n, (p, m) ∈ ids → (p, n) ∈ ids → m < n →
        scaledIndex m ≠ scaledIndex n := by
      intro p m n hm hn hlt heq
      refine not_exact_of_alias maximum depth p (Nat.ne_of_lt hlt) (hnonneg _ hm) heq
        (hexact _ ?_ ?_ ?_)
      · intro c hc
        rcases mem_cons.mp hc with rfl | hc
        · exact hm
        · rw [mem_singleton.mp hc]
          exact hn
      · simp [AuditCall.producer, trackedProducers]
      · refine pairwise_pair.mpr fun _ => ?_
        show m ≤ n + depth
        omega
    rintro ⟨p, n⟩ hn
    refine ⟨hnonneg _ hn, ?_⟩
    rintro ⟨q, m⟩ hm rfl heq
    rcases Nat.lt_trichotomy m n with hlt | rfl | hgt
    · exact absurd heq (hincreasing q m n hm hn hlt)
    · rfl
    · exact absurd heq.symm (hincreasing q n m hn hm hgt)
  · intro hids calls hcalls hroom _
    exact exact_of_foldsApart maximum depth hids hcalls hroom

/-- The first producer of session 1 on the connection `c`. -/
def sampleProducer : ProducerId := ⟨[0x63], 1, 1⟩

/-- Inside a window of 2048: sequence id `4294967295` throws, and `2147483648`
presented after `1` is called a duplicate. -/
theorem audit_not_exact_beyond_int :
    (InWindow 2048 [.isDuplicate sampleProducer 4294967295] ∧
      ¬ Exact 2048 64 [.isDuplicate sampleProducer 4294967295]) ∧
    (InWindow 2048 [.isDuplicate sampleProducer 1, .isDuplicate sampleProducer 2147483648] ∧
      ¬ Exact 2048 64 [.isDuplicate sampleProducer 1, .isDuplicate sampleProducer 2147483648]) := by
  refine ⟨⟨?_, not_exact_of_negative 64 2048 sampleProducer (by decide)⟩,
    ⟨?_, not_exact_of_alias 64 2048 sampleProducer (by decide) (by decide) (by decide)⟩⟩
  · simp [InWindow]
  · simp [InWindow, AuditCall.sequence]

end ActivemqCpp.Core
