import ActivemqCpp.Commands.Command
import ActivemqCpp.Core.MessageAudit
import ActivemqCpp.Decaf.LinkedHashMap

/-!
# `ConnectionAudit`: one message audit per queue and per dispatcher

The connection files the messages of a queue under the queue, those of any other
destination under the consumer that they were dispatched to.

A message is filed in a *slot*: the text of its producer and its folded index.
Nothing here asks that an audit never drops a producer or that destinations are well
ordered, since both can only make the connection forget:

* `isDuplicate_spec` — a message is suppressed only if an audit has its slot marked,
  and no other slot becomes marked.
* `rollbackDuplicate_spec` — no slot becomes marked.
* `rollbackDuplicate_isDuplicate` — undone at once, a test marks nothing.
-/

namespace ActivemqCpp.Core

open MessageAudit

open Base Commands Decaf List LinkedHashMap LRUCache

/-- `ConnectionAudit` over the identities `δ` of its dispatchers. -/
structure ConnectionAudit (δ : Type) where
  checkForDuplicates : Bool
  auditDepth : Int
  auditMaximumProducerNumber : Int
  destinations : StlMap Destination MessageAudit
  dispatchers : LinkedHashMap δ MessageAudit

namespace ConnectionAudit

variable {δ : Type} [DecidableEq δ]

/-- `ConnectionAudit(auditDepth, maxProducers)`. -/
def new (auditDepth maxProducers : Int) : ConnectionAudit δ :=
  ⟨true, auditDepth, maxProducers, [], []⟩

/-- The audit that a message of the destination is filed in. -/
def auditOf (c : ConnectionAudit δ) (dispatcher : δ) (destination : Destination) :
    Option MessageAudit :=
  if destination.isQueue then StlMap.find Destination.less destination c.destinations
  else get dispatcher c.dispatchers

/-- The audit of the destination is stored, or changed through its pointer. -/
def store (c : ConnectionAudit δ) (dispatcher : δ) (destination : Destination)
    (audit : MessageAudit) : ConnectionAudit δ :=
  if destination.isQueue then
    { c with destinations := StlMap.put Destination.less destination audit c.destinations }
  else { c with dispatchers := put dispatcher audit c.dispatchers }

/-- `isDuplicate(dispatcher, message)`. -/
def isDuplicate (c : ConnectionAudit δ) (dispatcher : δ) (destination : Option Destination)
    (messageId : Option MessageId) : ConnectionAudit δ × Except Exn Bool :=
  match c.checkForDuplicates, destination with
  | true, some destination =>
    let audit := (c.auditOf dispatcher destination).getD
      (MessageAudit.new c.auditDepth c.auditMaximumProducerNumber)
    let (audit, result) := audit.isDuplicate messageId
    (c.store dispatcher destination audit, result)
  | _, _ => (c, .ok false)

/-- `rollbackDuplicate(dispatcher, message)`. -/
def rollbackDuplicate (c : ConnectionAudit δ) (dispatcher : δ) (destination : Option Destination)
    (messageId : Option MessageId) : ConnectionAudit δ × Except Exn Unit :=
  match c.checkForDuplicates, destination with
  | true, some destination =>
    match c.auditOf dispatcher destination with
    | none => (c, .ok ())
    | some audit =>
      let (audit, result) := audit.rollback messageId
      (c.store dispatcher destination audit, result)
  | _, _ => (c, .ok ())

end ConnectionAudit

/-! ## A message audit that may drop producers -/

namespace MessageAudit

/-- Where a message id is filed, if it is filed at all. -/
def slot (id : MessageId) : Option (Bytes × Nat) :=
  match id.producerId with
  | none => none
  | some p =>
    if 0 ≤ id.producerSequenceId then
      some (p.toString, (scaledIndex id.producerSequenceId).toNat)
    else none

/-- The id is not filed under a negative index. -/
def Fileable (id : MessageId) : Prop :=
  id.producerId.isSome → 0 ≤ id.producerSequenceId → 0 ≤ scaledIndex id.producerSequenceId

structure Sound (a : MessageAudit) : Prop where
  depth : 0 ≤ a.auditDepth
  size : 0 < a.map.maxCacheSize
  nodup : a.map.keys.Nodup
  wf : ∀ k bits, a.map.lookup k = some bits → bits.Wf

theorem sound_new {auditDepth : Int} (h : 0 ≤ auditDepth) (maximum : Int) :
    (new auditDepth maximum).Sound :=
  ⟨h, Nat.zero_lt_succ _, nodup_nil, nofun⟩

variable {a a' : MessageAudit} (ha : a.Sound)
include ha

variable (seed : Bytes)

theorem sound_get : { a with map := (a.map.get seed).1 }.Sound where
  depth := ha.depth
  size := by simpa using ha.size
  nodup := nodup_keys_get ha.nodup seed
  wf k bits h := ha.wf k bits (by simpa using h)

theorem sound_put {bits : BitSet} (hbits : bits.Wf) :
    { a with map := a.map.put seed bits }.Sound where
  depth := ha.depth
  size := ha.size
  nodup := nodup_keys_put ha.nodup seed bits
  wf k b hb := by
    rcases lookup_of_lookup_put ha.nodup hb with ⟨-, rfl⟩ | hold
    · exact hbits
    · exact ha.wf k b hold

theorem Rewrites.sound {seed : Bytes} (h : a.Rewrites seed a') : a'.Sound := by
  rcases h with rfl | ⟨bits, hbits, rfl⟩
  · exact ha
  · refine ⟨ha.depth, ha.size, by simpa using ha.nodup, fun k b hb => ?_⟩
    rw [lookup_update] at hb
    split at hb
    · obtain ⟨_, -, rfl⟩ := Option.map_eq_some_iff.mp hb
      exact hbits
    · exact ha.wf k b hb

/-- A new producer may push out the eldest, whose bits are then forgotten. -/
theorem bitsFor_sound :
    ∃ a' bits, a.bitsFor seed = (a', .ok bits) ∧ a'.Sound ∧ a'.map.lookup seed = some bits ∧
      ∀ s i, a'.marked s i = true → a.marked s i = true := by
  cases hl : a.map.lookup seed with
  | some bits =>
    refine ⟨{ a with map := (a.map.get seed).1 }, bits, ?_, sound_get ha seed, by simpa using hl,
      fun s i => by simp [marked]⟩
    rw [bitsFor, get_of_lookup hl]
  | none =>
    obtain ⟨bits, hbits⟩ : ∃ bits, BitSet.ofCount a.auditDepth = .ok bits := by
      simp [BitSet.ofCount, not_lt.mpr ha.depth]
    refine ⟨{ a with map := a.map.put seed bits }, bits, ?_,
      sound_put ha seed (BitSet.wf_ofCount hbits),
      lookup_put_self ha.nodup ha.size seed bits, fun s i h => ?_⟩
    · rw [bitsFor, get_of_lookup_none hl]
      simp [hbits]
    · obtain ⟨b, hb, hbit⟩ := (Option.any_eq_true _ _).mp h
      rcases lookup_of_lookup_put ha.nodup hb with ⟨-, rfl⟩ | hold
      · simp [BitSet.testBit_ofCount _ hbits] at hbit
      · simpa [marked, hold] using hbit

theorem isDuplicateAt_of_negative {index : Int} (hindex : index < 0) :
    ∃ a', a.isDuplicateAt seed index = (a', .ok false) ∧ a'.Sound ∧
      ∀ s i, a'.marked s i = true → a.marked s i = true := by
  obtain ⟨a₁, bits, hbits, ha₁, -, hmarked⟩ := bitsFor_sound ha seed
  refine ⟨a₁, ?_, ha₁, hmarked⟩
  simp [isDuplicateAt, hbits, not_le.mpr hindex]

/-- A duplicate was marked before; only the slot of the message becomes marked. -/
theorem isDuplicate_sound {id : MessageId} (hid : Fileable id) :
    ∃ a' b, a.isDuplicate (some id) = (a', .ok b) ∧ a'.Sound ∧
      (b = true → ∃ k, slot id = some k ∧ a.marked k.1 k.2 = true) ∧
      ∀ k : Bytes × Nat, a'.marked k.1 k.2 = true → slot id = some k ∨ a.marked k.1 k.2 = true := by
  obtain ⟨producerId, sequence⟩ := id
  cases producerId with
  | none => exact ⟨a, false, rfl, ha, nofun, fun k hk => .inr hk⟩
  | some p =>
    rw [isDuplicate_some]
    rcases lt_or_ge sequence 0 with hneg | hpos
    · obtain ⟨a', hcall, ha', hmarked⟩ := isDuplicateAt_of_negative ha p.toString hneg
      exact ⟨a', false, hcall, ha', nofun, fun k hk => .inr (hmarked k.1 k.2 hk)⟩
    · have hslot : slot ⟨some p, sequence⟩ = some (p.toString, (scaledIndex sequence).toNat) := by
        simp [slot, hpos]
      obtain ⟨a₁, bits, hbits, ha₁, hl, hmarked⟩ := bitsFor_sound ha p.toString
      obtain ⟨a', hcall, hrewrites, hmarked'⟩ :=
        isDuplicateAt_of_bitsFor (hid rfl hpos) hpos hbits hl (ha₁.wf _ bits hl)
      refine ⟨a', _, hcall, hrewrites.sound ha₁, fun hb => ⟨_, hslot, hmarked _ _ hb⟩, ?_⟩
      intro k hk
      rw [hmarked', Bool.or_eq_true, decide_eq_true_iff] at hk
      rcases hk with ⟨hseed, hindex⟩ | hk
      · exact .inl (by rw [hslot, ← hseed, ← hindex])
      · exact .inr (hmarked _ _ hk)

/-- Nothing becomes marked, and the slot of the message is not. -/
theorem rollback_sound {id : MessageId} (hid : Fileable id) :
    ∃ a', a.rollback (some id) = (a', .ok ()) ∧ a'.Sound ∧
      ∀ k : Bytes × Nat, a'.marked k.1 k.2 = true → a.marked k.1 k.2 = true ∧ slot id ≠ some k := by
  obtain ⟨producerId, sequence⟩ := id
  cases producerId with
  | none => exact ⟨a, rfl, ha, fun k hk => ⟨hk, nofun⟩⟩
  | some p =>
    rw [rollback_some]
    rcases lt_or_ge sequence 0 with hneg | hpos
    · have hslot : slot ⟨some p, sequence⟩ = none := by simp [slot, not_le.mpr hneg]
      rw [hslot]
      cases hl : a.map.lookup p.toString with
      | none =>
        refine ⟨a, ?_, ha, fun k hk => ⟨hk, nofun⟩⟩
        rw [rollbackAt, get_of_lookup_none hl]
      | some bits =>
        refine ⟨_, ?_, sound_get ha p.toString, fun k hk => ⟨by simpa [marked] using hk, nofun⟩⟩
        rw [rollbackAt, get_of_lookup hl]
        simp [not_le.mpr hneg]
    · have hslot : slot ⟨some p, sequence⟩ = some (p.toString, (scaledIndex sequence).toNat) := by
        simp [slot, hpos]
      obtain ⟨a', hcall, hrewrites, hmarked⟩ :=
        rollbackAt_of_wf (hid rfl hpos) hpos (fun bits => ha.wf p.toString bits)
      refine ⟨a', hcall, ?_, fun k hk => ?_⟩
      · rcases hrewrites with rfl | hrewrites
        · exact ha
        · exact hrewrites.sound (sound_get ha p.toString)
      · rw [hmarked, Bool.and_eq_true, decide_eq_true_iff] at hk
        refine ⟨hk.2, fun heq => hk.1 ?_⟩
        rw [hslot] at heq
        cases heq
        exact ⟨rfl, rfl⟩

end MessageAudit

/-! ## The connection's audits together -/

namespace ConnectionAudit

variable {δ : Type} [DecidableEq δ]

def audits (c : ConnectionAudit δ) : List MessageAudit :=
  c.destinations.map Prod.snd ++ c.dispatchers.values

/-- Some audit of the connection has the slot marked. -/
def marked (c : ConnectionAudit δ) (k : Bytes × Nat) : Bool :=
  c.audits.any fun a => a.marked k.1 k.2

/-- Some audit of the connection has the message marked. -/
def holds (c : ConnectionAudit δ) (id : MessageId) : Bool :=
  (slot id).any c.marked

structure Sound (c : ConnectionAudit δ) : Prop where
  depth : 0 ≤ c.auditDepth
  audits : ∀ a ∈ c.audits, a.Sound

variable {c : ConnectionAudit δ} {dispatcher : δ} {destination : Destination} {a : MessageAudit}

omit [DecidableEq δ] in
theorem marked_iff {k : Bytes × Nat} :
    c.marked k = true ↔ ∃ a ∈ c.audits, a.marked k.1 k.2 = true :=
  any_eq_true

variable {id : MessageId}

omit [DecidableEq δ] in
theorem holds_eq_false : c.holds id = false ↔ ∀ k, slot id = some k → ¬ c.marked k = true := by
  unfold holds
  cases slot id <;> simp

omit [DecidableEq δ] in
theorem sound_new {auditDepth : Int} (h : 0 ≤ auditDepth) (maxProducers : Int) :
    (new auditDepth maxProducers : ConnectionAudit δ).Sound :=
  ⟨h, nofun⟩

theorem mem_audits_of_auditOf (h : c.auditOf dispatcher destination = some a) : a ∈ c.audits := by
  unfold auditOf at h
  split at h
  · obtain ⟨k, hk⟩ := StlMap.mem_of_find h
    exact mem_append_left _ (mem_map.mpr ⟨_, hk, rfl⟩)
  · exact mem_append_right _ (mem_values_of_get h)

theorem auditOf_store (c : ConnectionAudit δ) (dispatcher : δ) (destination : Destination)
    (a : MessageAudit) :
    (c.store dispatcher destination a).auditOf dispatcher destination = some a := by
  unfold store auditOf
  split
  · exact StlMap.find_put_self destination.less_self
  · exact get_put_self a

theorem store_store (c : ConnectionAudit δ) (dispatcher : δ) (destination : Destination)
    (a a' : MessageAudit) : (c.store dispatcher destination a).store dispatcher destination a' =
      c.store dispatcher destination a' := by
  unfold store
  split
  · rw [StlMap.put_put destination.less_self]
  · rw [put_put]

theorem mem_audits_store {x : MessageAudit} (h : x ∈ (c.store dispatcher destination a).audits) :
    x = a ∨ x ∈ c.audits := by
  unfold store at h
  split at h
  · rcases mem_append.mp h with h | h
    · obtain ⟨e, he, rfl⟩ := mem_map.mp h
      rcases StlMap.mem_of_mem_put he with heq | hold
      · exact .inl heq
      · exact .inr (mem_append_left _ (mem_map.mpr ⟨e, hold, rfl⟩))
    · exact .inr (mem_append_right _ h)
  · rcases mem_append.mp h with h | h
    · exact .inr (mem_append_left _ h)
    · exact (mem_values_put h).imp_right (mem_append_right _)

theorem sound_store (hc : c.Sound) (ha : a.Sound) : (c.store dispatcher destination a).Sound where
  depth := by
    unfold store
    split <;> exact hc.depth
  audits x hx := by
    rcases mem_audits_store hx with rfl | hold
    · exact ha
    · exact hc.audits x hold

@[simp] theorem checkForDuplicates_store :
    (c.store dispatcher destination a).checkForDuplicates = c.checkForDuplicates := by
  unfold store
  split <;> rfl

/-- The audit that a test reads: one of the connection's, or a new one. -/
theorem auditOf_getD (hc : c.Sound) (dispatcher : δ) (destination : Destination)
    (ha : a = (c.auditOf dispatcher destination).getD
      (MessageAudit.new c.auditDepth c.auditMaximumProducerNumber)) :
    a.Sound ∧ ∀ k : Bytes × Nat, a.marked k.1 k.2 = true → c.marked k = true := by
  cases h : c.auditOf dispatcher destination with
  | none =>
    rw [h] at ha
    subst ha
    refine ⟨MessageAudit.sound_new hc.depth _, fun k hk => ?_⟩
    cases hk
  | some x =>
    rw [h] at ha
    subst ha
    have hmem := mem_audits_of_auditOf h
    exact ⟨hc.audits a hmem, fun k hk => marked_iff.mpr ⟨a, hmem, hk⟩⟩

variable (hid : Fileable id)
include hid

/-- A test suppresses a message only if it is held, and marks only its slot. -/
theorem isDuplicate_spec (hc : c.Sound) (dispatcher : δ) (destination : Option Destination) :
    ∃ c' b, c.isDuplicate dispatcher destination (some id) = (c', .ok b) ∧ c'.Sound ∧
      (b = true → c.holds id = true) ∧
      ∀ k, c'.marked k = true → slot id = some k ∨ c.marked k = true := by
  unfold isDuplicate
  split
  · rename_i destination _
    obtain ⟨ha, hmarks⟩ := auditOf_getD hc dispatcher destination rfl
    obtain ⟨a', b, hcall, ha', hb, hmarks'⟩ := isDuplicate_sound ha hid
    refine ⟨c.store dispatcher destination a', b, by simp only [hcall], sound_store hc ha',
      fun hdup => ?_, fun k hk => ?_⟩
    · obtain ⟨k, hslot, hk⟩ := hb hdup
      rw [holds, hslot]
      exact hmarks k hk
    · obtain ⟨x, hx, hxk⟩ := marked_iff.mp hk
      rcases mem_audits_store hx with rfl | hold
      · exact (hmarks' k hxk).imp_right (hmarks k)
      · exact .inr (marked_iff.mpr ⟨x, hold, hxk⟩)
  · exact ⟨c, false, rfl, hc, nofun, fun k hk => .inr hk⟩

theorem rollbackDuplicate_spec (hc : c.Sound) (dispatcher : δ) (destination : Option Destination) :
    ∃ c', c.rollbackDuplicate dispatcher destination (some id) = (c', .ok ()) ∧ c'.Sound ∧
      ∀ k, c'.marked k = true → c.marked k = true := by
  unfold rollbackDuplicate
  split
  · split
    · exact ⟨c, rfl, hc, fun _ hk => hk⟩
    · rename_i a ha
      have hmem := mem_audits_of_auditOf ha
      obtain ⟨a', hcall, ha', hmarks⟩ := rollback_sound (hc.audits a hmem) hid
      refine ⟨_, by rw [hcall], sound_store hc ha', fun k hk => ?_⟩
      obtain ⟨x, hx, hxk⟩ := marked_iff.mp hk
      rcases mem_audits_store hx with rfl | hold
      · exact marked_iff.mpr ⟨a, hmem, (hmarks k hxk).1⟩
      · exact marked_iff.mpr ⟨x, hold, hxk⟩
  · exact ⟨c, rfl, hc, fun _ hk => hk⟩

/-- A test that is undone at once marks nothing: it finds the audit that it wrote. -/
theorem rollbackDuplicate_isDuplicate (hc : c.Sound) {destination : Option Destination}
    {c' : ConnectionAudit δ} {b : Bool}
    (h : c.isDuplicate dispatcher destination (some id) = (c', .ok b)) :
    ∃ c'', c'.rollbackDuplicate dispatcher destination (some id) = (c'', .ok ()) ∧ c''.Sound ∧
      ∀ k, c''.marked k = true → c.marked k = true := by
  unfold isDuplicate at h
  split at h
  · rename_i destination hcheck
    obtain ⟨ha, hmarks⟩ := auditOf_getD hc dispatcher destination rfl
    obtain ⟨a₁, b₁, hcall, ha₁, -, hmarks₁⟩ := isDuplicate_sound ha hid
    simp only [hcall] at h
    cases h
    obtain ⟨a₂, hcall₂, ha₂, hmarks₂⟩ := rollback_sound ha₁ hid
    refine ⟨c.store dispatcher destination a₂, ?_, sound_store hc ha₂, fun k hk => ?_⟩
    · unfold rollbackDuplicate
      rw [checkForDuplicates_store, hcheck]
      simp [auditOf_store, hcall₂, store_store]
    · obtain ⟨x, hx, hxk⟩ := marked_iff.mp hk
      rcases mem_audits_store hx with rfl | hold
      · obtain ⟨hk₁, hother⟩ := hmarks₂ k hxk
        exact hmarks k ((hmarks₁ k hk₁).resolve_left hother)
      · exact marked_iff.mpr ⟨x, hold, hxk⟩
  · cases h
    exact rollbackDuplicate_spec hid hc dispatcher _

/-! ## The audit that files a message -/

omit hid

/-- The audit that the message is filed in has it marked. -/
def filed (c : ConnectionAudit δ) (dispatcher : δ) (destination : Option Destination)
    (id : MessageId) : Bool :=
  destination.any fun destination => (c.auditOf dispatcher destination).any fun a =>
    (slot id).any fun k => a.marked k.1 k.2

theorem filed_iff {destination : Option Destination} :
    c.filed dispatcher destination id = true ↔
      ∃ d ∈ destination, ∃ a ∈ c.auditOf dispatcher d, ∃ k ∈ slot id,
        a.marked k.1 k.2 = true := by
  simp [filed, Option.any_eq_true]

/-- An audit that is stored in the place of another is the one that is found there. -/
theorem auditOf_store_of_auditOf (h : c.auditOf dispatcher destination = some a)
    (a' : MessageAudit) (d : Destination) :
    (c.store dispatcher destination a').auditOf dispatcher d = c.auditOf dispatcher d ∨
      (c.store dispatcher destination a').auditOf dispatcher d = some a' ∧
        c.auditOf dispatcher d = some a := by
  unfold store
  by_cases hdest : destination.isQueue = true
  · by_cases hd : d.isQueue = true
    · rw [auditOf, if_pos hdest] at h
      rw [if_pos hdest, auditOf, auditOf, if_pos hd, if_pos hd]
      exact StlMap.find_put_of_find h d
    · rw [if_pos hdest, auditOf, auditOf, if_neg hd, if_neg hd]
      exact .inl rfl
  · by_cases hd : d.isQueue = true
    · rw [if_neg hdest, auditOf, auditOf, if_pos hd, if_pos hd]
      exact .inl rfl
    · rw [auditOf, if_neg hdest] at h
      rw [if_neg hdest, auditOf, auditOf, if_neg hd, if_neg hd]
      exact .inr ⟨get_put_self a', h⟩

/-- What is rolled back is not marked any more, and nothing becomes marked. -/
theorem filed_rollbackDuplicate (hc : c.Sound) (dispatcher : δ) (destination : Option Destination)
    (hid : Fileable id) :
    ∃ c', c.rollbackDuplicate dispatcher destination (some id) = (c', .ok ()) ∧ c'.Sound ∧
      c'.checkForDuplicates = c.checkForDuplicates ∧
      (c.checkForDuplicates = true → c'.filed dispatcher destination id = false) ∧
      ∀ d id', c'.filed dispatcher d id' = true → c.filed dispatcher d id' = true := by
  unfold rollbackDuplicate
  split
  next destination hcheck =>
    split
    next hnone =>
      refine ⟨c, rfl, hc, rfl, fun _ => ?_, fun _ _ h => h⟩
      simp [filed, hnone]
    next a ha =>
      obtain ⟨a', hcall, ha', hmarks⟩ :=
        rollback_sound (hc.audits a (mem_audits_of_auditOf ha)) hid
      refine ⟨_, by rw [hcall], sound_store hc ha', checkForDuplicates_store, fun _ => ?_, ?_⟩
      · refine Bool.eq_false_iff.mpr fun hfiled => ?_
        obtain ⟨d, hd, x, hx, k, hk, hmarked⟩ := filed_iff.mp hfiled
        cases hd
        obtain rfl := Option.some.inj ((auditOf_store c dispatcher destination a').symm.trans hx)
        exact (hmarks k hmarked).2 hk
      · intro d id' hfiled
        obtain ⟨d, hd, x, hx, k, hk, hmarked⟩ := filed_iff.mp hfiled
        rcases auditOf_store_of_auditOf ha a' d with hsame | ⟨hnew, hold⟩
        · exact filed_iff.mpr ⟨d, hd, x, hsame ▸ hx, k, hk, hmarked⟩
        · obtain rfl := Option.some.inj (hnew.symm.trans hx)
          exact filed_iff.mpr ⟨d, hd, a, hold, k, hk, (hmarks k hmarked).1⟩
  next hnot =>
    refine ⟨c, rfl, hc, rfl, fun hcheck => Bool.eq_false_iff.mpr fun hfiled => ?_, fun _ _ h => h⟩
    obtain ⟨d, hd, -⟩ := filed_iff.mp hfiled
    exact hnot d hcheck hd

/-- A message that is not marked where it is filed is no duplicate. -/
theorem isDuplicate_of_not_filed (hc : c.Sound) {destination : Option Destination}
    (hid : Fileable id)
    (h : c.checkForDuplicates = true → c.filed dispatcher destination id = false) :
    (c.isDuplicate dispatcher destination (some id)).2 = .ok false := by
  unfold isDuplicate
  split
  next destination hcheck =>
    obtain ⟨ha, -⟩ := auditOf_getD hc dispatcher destination rfl
    obtain ⟨a', b, hcall, -, hb, -⟩ := isDuplicate_sound ha hid
    simp only [hcall]
    cases b with
    | false => rfl
    | true =>
      obtain ⟨k, hk, hmarked⟩ := hb rfl
      have hnot := h hcheck
      cases haudit : c.auditOf dispatcher destination with
      | none =>
        rw [haudit] at hmarked
        cases hmarked
      | some a =>
        rw [haudit] at hmarked
        have hfiled : c.filed dispatcher (some destination) id = true :=
          filed_iff.mpr ⟨destination, rfl, a, haudit, k, hk, hmarked⟩
        rw [hnot] at hfiled
        cases hfiled
  next => rfl

end ConnectionAudit

end ActivemqCpp.Core
