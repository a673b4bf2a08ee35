import ActivemqCpp.Core.AuditOverloads
import ActivemqCpp.Decaf.LRUCacheRuns

/-!
# How many producers a message audit tracks

`maximumNumberOfProducersToTrack` is meant to bound the cache of windows. Nothing keeps it:

* **Construction** — the cache is made with its own default bound, `10000`, whatever the
  maximum is.
* **Lowering** — `adjustMaxProducersToTrack` copies the entries with `putAll` into a smaller
  cache and back, but `putAll` drops none, so that all of them stay (`map_adjust`).
* **From then on** — a `put` into a cache over its bound adds one entry and drops one.

What is dropped is what was used the longest ago, always (`step_dropsLeastRecent`). The
number stays within the maximum exactly as long as no producer is added to a cache that has
the maximum but not yet its own bound, and no maximum is set below the number
(`tracked_within_maximum_iff`).
-/

namespace ActivemqCpp.Core

open Base Commands Decaf List LRUCache
open Decaf.LinkedHashTable (toTail InOrder mem_toTail nodup_toTail length_link)

namespace MessageAudit

/-- `adjustMaxProducersToTrack(value)`. -/
def adjustMaxProducersToTrack (value : Int) (a : MessageAudit) : MessageAudit × Except Exn Unit :=
  let pruned : Except Exn (LRUCache Bytes BitSet) :=
    if value < a.maximumNumberOfProducersToTrack then
      (ofSize value).map fun newMap =>
        a.map.clear.putAll (newMap.putAll a.map.entries).entries
    else .ok a.map
  match pruned with
  | .error e => (a, .error e)
  | .ok map =>
    match map.setMaxCacheSize value with
    | (map, .error e) => ({ a with map := map }, .error e)
    | (map, .ok ()) => ({ a with map := map, maximumNumberOfProducersToTrack := value }, .ok ())

/-- The calls that may change which producers are tracked. -/
inductive LimitCall where
  | onText (op : Op) (text : Bytes)
  | onObject (op : Op) (id : Option MessageId)
  /-- The setter, which the source calls `getMaximumNumberOfProducersToTrack(int)`. -/
  | setMaximumNumberOfProducersToTrack (value : Int)

def onCall (a : MessageAudit) : LimitCall → MessageAudit
  | .onText .isDuplicate text => (a.isDuplicateText text).1
  | .onText .rollback text => (a.rollbackText text).1
  | .onText .isInOrder text => (a.isInOrderText text).1
  | .onObject .isDuplicate id => (a.isDuplicate id).1
  | .onObject .rollback id => (a.rollback id).1
  | .onObject .isInOrder id => (a.isInOrder id).1
  | .setMaximumNumberOfProducersToTrack value => (a.adjustMaxProducersToTrack value).1

/-! ## What a call does to the tracked producers -/

/-- The producers tracked, the one used the longest ago first. -/
def tracked (a : MessageAudit) : List Bytes := a.map.keys

/-- The key of the producer that a call is about. -/
def LimitCall.seed : LimitCall → Option Bytes
  | .onText _ text => some (IdGenerator.getSeedFromId text) |>.filter (· ≠ [])
  | .onObject _ id => (id.bind (·.producerId)).map ProducerId.toString |>.filter (· ≠ [])
  | .setMaximumNumberOfProducersToTrack _ => none

/-- A call that makes a window when there is none. -/
def LimitCall.makes : LimitCall → Bool
  | .onText op _ | .onObject op _ => op ≠ .rollback
  | .setMaximumNumberOfProducersToTrack _ => false

/-- The producers tracked after a use of one of them, or of a new one. -/
def touched (makes : Bool) (seed : Bytes) (bound : Nat) (producers : List Bytes) : List Bytes :=
  if seed ∈ producers then toTail seed producers
  else if makes then
    if producers.length + 1 > bound then (producers ++ [seed]).tail else producers ++ [seed]
  else producers

/-- The limits are those they were. -/
structure SameLimits (a a' : MessageAudit) : Prop where
  bound : a'.map.maxCacheSize = a.map.maxCacheSize
  maximum : a'.maximumNumberOfProducersToTrack = a.maximumNumberOfProducersToTrack
  depth : a'.auditDepth = a.auditDepth

theorem keys_get (c : LRUCache Bytes BitSet) (seed : Bytes) :
    (c.get seed).1.keys = if seed ∈ c.keys then toTail seed c.keys else c.keys := by
  have hmem := mem_keys_iff c seed
  unfold LRUCache.get
  cases hlookup : c.lookup seed with
  | none =>
    rw [if_neg]
    rw [hmem]
    rintro ⟨v, hv⟩
    rw [hlookup] at hv
    cases hv
  | some v =>
    rw [if_pos (hmem.mpr ⟨v, hlookup⟩), LRUCache.keys, LRUCache.keys_others_append]
    rfl

variable {seed : Bytes}

theorem keys_put {c : LRUCache Bytes BitSet} (h : seed ∉ c.keys) (bits : BitSet) :
    (c.put seed bits).keys =
      if c.keys.length + 1 > c.maxCacheSize then (c.keys ++ [seed]).tail else c.keys ++ [seed] := by
  have hlength : c.keys.length = c.entries.length := length_map _
  have hkeys : (c.entries ++ [(seed, bits)]).map Prod.fst = c.keys ++ [seed] := by
    rw [map_append]
    rfl
  rw [LRUCache.put, LRUCache.others_of_notMem h, hlength, length_append,
    length_singleton, LRUCache.keys]
  split
  · rw [map_tail, hkeys]
  · exact hkeys

variable (a : MessageAudit)

theorem findBits_touches (seed : Bytes) :
    (a.findBits seed).1.tracked = touched false seed a.map.maxCacheSize a.tracked ∧
      SameLimits a (a.findBits seed).1 := by
  have hkeys := keys_get a.map seed
  have hbound := maxCacheSize_get a.map seed
  have hfind : (a.findBits seed).1 = { a with map := (a.map.get seed).1 } := by
    unfold findBits
    cases hlookup : a.map.lookup seed with
    | none => rw [get_of_lookup_none hlookup]
    | some bits => rw [get_of_lookup hlookup]
  rw [hfind]
  exact ⟨hkeys, hbound, rfl, rfl⟩

theorem bitsFor_touches (seed : Bytes) :
    (a.bitsFor seed).1.tracked =
        touched (decide (0 ≤ a.auditDepth)) seed a.map.maxCacheSize a.tracked ∧
      SameLimits a (a.bitsFor seed).1 := by
  unfold touched
  cases hlookup : a.map.lookup seed with
  | some bits =>
    have hin : seed ∈ a.tracked := (mem_keys_iff a.map seed).mpr ⟨bits, hlookup⟩
    have hfind : (a.bitsFor seed).1 = { a with map := (a.map.get seed).1 } := by
      rw [bitsFor, get_of_lookup hlookup]
    rw [hfind, if_pos hin]
    exact ⟨(keys_get a.map seed).trans (if_pos hin), maxCacheSize_get a.map seed, rfl, rfl⟩
  | none =>
    have hnotin : seed ∉ a.tracked := by
      intro hin
      obtain ⟨bits, hbits⟩ := (mem_keys_iff a.map seed).mp hin
      rw [hlookup] at hbits
      cases hbits
    rw [if_neg hnotin, bitsFor, get_of_lookup_none hlookup]
    unfold BitSet.ofCount
    by_cases hdepth : a.auditDepth < 0
    · rw [if_pos hdepth, if_neg (by simpa using hdepth)]
      exact ⟨rfl, rfl, rfl, rfl⟩
    · rw [if_neg hdepth, if_pos (by simpa using hdepth)]
      exact ⟨keys_put hnotin _, rfl, rfl, rfl⟩

theorem useWindow_touches {ρ : Type} (seed : Bytes) (use : BitSet → Option BitSet × ρ)
    (missing : Exn → ρ) (fetched : MessageAudit × Except Exn BitSet) :
    (useWindow seed use missing fetched).1.tracked = fetched.1.tracked ∧
      SameLimits fetched.1 (useWindow seed use missing fetched).1 := by
  obtain ⟨a, e | bits⟩ := fetched
  · exact ⟨rfl, rfl, rfl, rfl⟩
  · unfold useWindow
    dsimp only
    split
    · exact ⟨rfl, rfl, rfl, rfl⟩
    · exact ⟨keys_update _ _ _, rfl, rfl, rfl⟩

/-- What a call with an id does to the producers: the one it is about is used, and made if
there is none and the call makes windows. -/
structure Touches (call : LimitCall) (a a' : MessageAudit) : Prop where
  tracked : a'.tracked = match call.seed with
    | none => a.tracked
    | some seed =>
      touched (call.makes && decide (0 ≤ a.auditDepth)) seed a.map.maxCacheSize a.tracked
  limits : SameLimits a a'

variable {call : LimitCall}

theorem touches_use {ρ : Type} (hseed : call.seed = some seed)
    {fetched : MessageAudit × Except Exn BitSet}
    (hfetched : fetched.1.tracked = touched (call.makes && decide (0 ≤ a.auditDepth)) seed
      a.map.maxCacheSize a.tracked ∧ SameLimits a fetched.1)
    (use : BitSet → Option BitSet × ρ) (missing : Exn → ρ) :
    Touches call a (useWindow seed use missing fetched).1 := by
  obtain ⟨hkeys, hlimits⟩ := hfetched
  obtain ⟨hkeys', hlimits'⟩ := useWindow_touches seed use missing fetched
  refine ⟨?_, hlimits'.bound.trans hlimits.bound, hlimits'.maximum.trans hlimits.maximum,
    hlimits'.depth.trans hlimits.depth⟩
  rw [hseed]
  exact hkeys'.trans hkeys

theorem touches_none (hseed : call.seed = none) (a : MessageAudit) : Touches call a a := by
  refine ⟨?_, rfl, rfl, rfl⟩
  rw [hseed]

theorem onText_touches (op : Op) (text : Bytes) :
    Touches (.onText op text) a (a.onCall (.onText op text)) := by
  by_cases hempty : IdGenerator.getSeedFromId text = []
  · have hnone : (LimitCall.onText op text).seed = none := by
      simp [LimitCall.seed, hempty]
    have hsame : a.onCall (.onText op text) = a := by
      cases op with
      | isDuplicate => simp [onCall, isDuplicateText, hempty]
      | rollback => simp [onCall, rollbackText, hempty]
      | isInOrder => simp [onCall, isInOrderText, hempty]
    rw [hsame]
    exact touches_none hnone a
  · have hsome : ∀ op, (LimitCall.onText op text).seed = some (IdGenerator.getSeedFromId text) := by
      intro op
      simp [LimitCall.seed, hempty]
    have htext : text ≠ [] := by
      rintro rfl
      exact hempty rfl
    cases op with
    | isDuplicate =>
      rw [onCall, isDuplicateText, if_neg hempty]
      exact touches_use a (hsome _) (a.bitsFor_touches _) _ _
    | rollback =>
      rw [onCall, rollbackText, if_neg hempty]
      exact touches_use a (hsome _) (a.findBits_touches _) _ _
    | isInOrder =>
      rw [onCall, isInOrderText, if_neg htext, if_neg hempty]
      exact touches_use a (hsome _) (a.bitsFor_touches _) _ _

theorem onObject_touches (op : Op) (id : Option MessageId) :
    Touches (.onObject op id) a (a.onCall (.onObject op id)) := by
  rcases id with _ | ⟨_ | pid, sequence⟩
  · have hsame : a.onCall (.onObject op none) = a := by cases op <;> rfl
    rw [hsame]
    exact touches_none rfl a
  · have hsame : a.onCall (.onObject op (some ⟨none, sequence⟩)) = a := by cases op <;> rfl
    rw [hsame]
    exact touches_none rfl a
  · have hne : pid.toString ≠ [] := ProducerId.toString_ne_nil pid
    have hsome : ∀ op, (LimitCall.onObject op (some ⟨some pid, sequence⟩)).seed =
        some pid.toString := by
      intro op
      simp [LimitCall.seed, hne]
    cases op with
    | isDuplicate =>
      rw [onCall, isDuplicate_some, isDuplicateAt_eq_useWindow]
      exact touches_use a (hsome _) (a.bitsFor_touches _) _ _
    | rollback =>
      rw [onCall, rollback_some, rollbackAt_eq_useWindow]
      exact touches_use a (hsome _) (a.findBits_touches _) _ _
    | isInOrder =>
      rw [onCall, isInOrder]
      dsimp only
      rw [if_neg hne]
      exact touches_use a (hsome _) (a.bitsFor_touches _) _ _

/-- The entries that go through the smaller cache are those that come back. -/
theorem entries_pruned {a : MessageAudit} (hnodup : a.tracked.Nodup)
    (newMap : LRUCache Bytes BitSet) (hnew : newMap.entries = []) :
    (a.map.clear.putAll (newMap.putAll a.map.entries).entries).entries = a.map.entries := by
  have hempty : newMap.keys = [] := by rw [LRUCache.keys, hnew, map_nil]
  have hcopied : (newMap.putAll a.map.entries).entries = a.map.entries := by
    rw [entries_putAll hnodup (by rw [hempty]; exact forall_mem_nil _), hnew, nil_append]
  rw [hcopied]
  exact entries_putAll hnodup (forall_mem_nil _)

/-- Setting the maximum drops nothing. -/
theorem map_adjust {a : MessageAudit} (hnodup : a.tracked.Nodup) (value : Int) :
    a.onCall (.setMaximumNumberOfProducersToTrack value) =
      if value ≤ 0 then a
      else { a with
        map := { a.map with maxCacheSize := value.toNat }
        maximumNumberOfProducersToTrack := value } := by
  unfold onCall adjustMaxProducersToTrack ofSize setMaxCacheSize
  by_cases hpos : value ≤ 0
  · simp only [if_pos hpos]
    split
    · rfl
    next map hmap =>
      split at hmap
      · cases hmap
      · cases hmap
        rfl
  · simp only [if_neg hpos]
    split
    next e hmap => split at hmap <;> cases hmap
    next map hmap =>
      split at hmap
      · cases hmap
        simp only [entries_pruned hnodup ⟨[], value.toNat⟩ rfl]
      · cases hmap
        rfl

/-! ## Runs -/

/-- The last use of the first is later than that of the second; the latest use leads. -/
def UsedAfter {K : Type} [DecidableEq K] (recent : List K) (first second : K) : Prop :=
  recent.idxOf first < recent.idxOf second

/-- An audit and the uses of its producers, the latest first. -/
structure Limited where
  audit : MessageAudit
  recent : List Bytes

namespace Limited

def new (auditDepth maximumNumberOfProducersToTrack : Int) : Limited :=
  ⟨.new auditDepth maximumNumberOfProducersToTrack, []⟩

def machine : Machine Limited LimitCall Unit where
  step s call := (⟨s.audit.onCall call, call.seed.toList ++ s.recent⟩, ())

/-- No more producers are tracked than configured. -/
def WithinMaximum (s : Limited) : Prop :=
  (s.audit.tracked.length : Int) ≤ s.audit.maximumNumberOfProducersToTrack

instance (s : Limited) : Decidable s.WithinMaximum := inferInstanceAs (Decidable (_ ≤ _))

/-- Every producer that a call leaves was used after each that it drops. -/
def DropsLeastRecent (s : Limited) (call : LimitCall) : Prop :=
  ∀ dropped ∈ s.audit.tracked, dropped ∉ (machine.step s call).1.audit.tracked →
    ∀ kept ∈ (machine.step s call).1.audit.tracked,
      UsedAfter (machine.step s call).1.recent kept dropped

/-- The call starts to track a producer. -/
def StartsTracking (s : Limited) (call : LimitCall) : Prop :=
  call.makes = true ∧ 0 ≤ s.audit.auditDepth ∧ ∃ seed ∈ call.seed, seed ∉ s.audit.tracked

/-- A producer is added only below the maximum, or when the cache drops one for it; and no
maximum is set below the number that is tracked. -/
def HasRoom (s : Limited) : LimitCall → Prop
  | .setMaximumNumberOfProducersToTrack value => value ≤ 0 ∨ (s.audit.tracked.length : Int) ≤ value
  | call => s.StartsTracking call →
      (s.audit.tracked.length : Int) < s.audit.maximumNumberOfProducersToTrack ∨
        s.audit.map.maxCacheSize ≤ s.audit.tracked.length

/-- The producers are listed once each, in the order of their last uses. -/
structure Ordered (s : Limited) : Prop where
  nodup : s.audit.tracked.Nodup
  order : InOrder s.recent s.audit.tracked

theorem ordered_new (auditDepth maximum : Int) : (new auditDepth maximum).Ordered :=
  ⟨nodup_nil, Pairwise.nil⟩

variable {s : Limited} {producers : List Bytes} {call : LimitCall}

/-- A use keeps the order, and what it drops was used the longest ago. -/
theorem Ordered.touched (h : s.Ordered) (makes : Bool) (seed : Bytes) (bound : Nat)
    (hproducers : MessageAudit.touched makes seed bound s.audit.tracked = producers) :
    producers.Nodup ∧ InOrder (seed :: s.recent) producers ∧
      ∀ dropped ∈ s.audit.tracked, dropped ∉ producers → ∀ kept ∈ producers,
        UsedAfter (seed :: s.recent) kept dropped := by
  have hnodup := nodup_toTail h.nodup seed
  have horder := h.order.toTail seed
  have hmem : ∀ producer ∈ s.audit.tracked, producer ∈ toTail seed s.audit.tracked :=
    fun producer hin => mem_toTail.mpr (.inr hin)
  subst hproducers
  unfold MessageAudit.touched
  by_cases hin : seed ∈ s.audit.tracked
  · rw [if_pos hin]
    exact ⟨hnodup, horder, fun dropped hd hnot => absurd (hmem dropped hd) hnot⟩
  rw [if_neg hin]
  have happend : toTail seed s.audit.tracked = s.audit.tracked ++ [seed] := by
    rw [toTail, filter_eq_self.mpr]
    intro producer hp
    simpa using ne_of_mem_of_not_mem hp hin
  rw [happend] at hnodup horder hmem
  cases makes with
  | false =>
    exact ⟨h.nodup, h.order.use_other hin, fun dropped hd hnot => absurd hd hnot⟩
  | true =>
    rw [if_pos rfl]
    split
    · refine ⟨hnodup.sublist (tail_sublist _), horder.sublist (tail_sublist _), ?_⟩
      intro dropped hd hnot kept hkept
      -- what is not in the tail is the head
      rcases hlist : s.audit.tracked ++ [seed] with _ | ⟨eldest, rest⟩
      · exact absurd hlist (by simp)
      · rw [hlist] at hnot hkept horder hmem
        have heldest : dropped = eldest := (mem_cons.mp (hmem dropped hd)).resolve_right hnot
        rw [heldest]
        exact (pairwise_cons.mp horder).1 kept hkept
    · exact ⟨hnodup, horder, fun dropped hd hnot => absurd (hmem dropped hd) hnot⟩

theorem onCall_touches (a : MessageAudit)
    (h : ∀ value, call ≠ .setMaximumNumberOfProducersToTrack value) :
    Touches call a (a.onCall call) := by
  cases call with
  | onText op text => exact a.onText_touches op text
  | onObject op id => exact a.onObject_touches op id
  | setMaximumNumberOfProducersToTrack value => exact absurd rfl (h value)

/-- **What is dropped.** Every call keeps the order, and drops what was used the longest ago. -/
theorem step_dropsLeastRecent (h : s.Ordered) (call : LimitCall) :
    (machine.step s call).1.Ordered ∧ s.DropsLeastRecent call := by
  unfold DropsLeastRecent
  by_cases hset : ∃ value, call = .setMaximumNumberOfProducersToTrack value
  · obtain ⟨value, rfl⟩ := hset
    have hkeys : (machine.step s (.setMaximumNumberOfProducersToTrack value)).1.audit.tracked =
        s.audit.tracked := by
      change (s.audit.onCall _).tracked = _
      rw [map_adjust h.nodup]
      split <;> rfl
    refine ⟨⟨?_, ?_⟩, fun dropped hd hnot => ?_⟩
    · rw [hkeys]
      exact h.nodup
    · rw [hkeys]
      exact h.order
    · rw [hkeys] at hnot
      exact absurd hd hnot
  · have htouches := onCall_touches s.audit (not_exists.mp hset)
    have htracked := htouches.tracked
    cases hseed : call.seed with
    | none =>
      rw [hseed] at htracked
      have hkeys : (machine.step s call).1.audit.tracked = s.audit.tracked := htracked
      have hrecent : (machine.step s call).1.recent = s.recent := by
        change call.seed.toList ++ s.recent = _
        rw [hseed]
        rfl
      refine ⟨⟨hkeys ▸ h.nodup, hkeys ▸ hrecent ▸ h.order⟩, fun dropped hd hnot => ?_⟩
      rw [hkeys] at hnot
      exact absurd hd hnot
    | some seed =>
      rw [hseed] at htracked
      have hrecent : (machine.step s call).1.recent = seed :: s.recent := by
        change call.seed.toList ++ s.recent = _
        rw [hseed]
        rfl
      obtain ⟨hnodup, horder, hdrops⟩ := h.touched _ seed _ htracked.symm
      exact ⟨⟨hnodup, hrecent ▸ horder⟩, hrecent ▸ hdrops⟩

/-! ### The number of producers -/

theorem length_toTail (h : producers.Nodup) {seed : Bytes}
    (hin : seed ∈ producers) : (toTail seed producers).length = producers.length := by
  have hlength := length_link h true seed
  rw [if_pos hin] at hlength
  exact hlength

/-- A call with an id adds a producer if it starts to track one and the cache has not yet its
own bound. -/
theorem length_onCall (h : s.Ordered)
    (hid : ∀ value, call ≠ .setMaximumNumberOfProducersToTrack value) :
    (s.StartsTracking call → (s.audit.onCall call).tracked.length =
        if s.audit.map.maxCacheSize ≤ s.audit.tracked.length then s.audit.tracked.length
        else s.audit.tracked.length + 1) ∧
      (¬ s.StartsTracking call →
        (s.audit.onCall call).tracked.length = s.audit.tracked.length) := by
  have htracked := (onCall_touches s.audit hid).tracked
  constructor
  · rintro ⟨hmakes, hdepth, seed, hseed, hnotin⟩
    rw [Option.mem_def.mp hseed, hmakes, decide_eq_true hdepth] at htracked
    rw [htracked]
    change (touched true seed _ _).length = _
    rw [touched, if_neg hnotin, if_pos rfl]
    by_cases hfull : s.audit.map.maxCacheSize ≤ s.audit.tracked.length
    · rw [if_pos hfull, if_pos (by omega), length_tail, length_append,
        length_singleton, Nat.add_sub_cancel]
    · rw [if_neg hfull, if_neg (by omega), length_append, length_singleton]
  · intro hnot
    cases hseed : call.seed with
    | none =>
      rw [hseed] at htracked
      rw [htracked]
    | some seed =>
      rw [hseed] at htracked
      rw [htracked]
      change (touched _ seed _ _).length = _
      unfold touched
      by_cases hin : seed ∈ s.audit.tracked
      · rw [if_pos hin, length_toTail h.nodup hin]
      · rw [if_neg hin, if_neg]
        intro hand
        rw [Bool.and_eq_true, decide_eq_true_eq] at hand
        exact hnot ⟨hand.1, hand.2, seed, hseed, hin⟩

/-- A call leaves the number within the maximum exactly if it has room. -/
theorem withinMaximum_step (h : s.Ordered) (hwithin : s.WithinMaximum) (call : LimitCall) :
    (machine.step s call).1.WithinMaximum ↔ s.HasRoom call := by
  have hids : ∀ {call : LimitCall}, (∀ value, call ≠ .setMaximumNumberOfProducersToTrack value) →
      ((machine.step s call).1.WithinMaximum ↔ (s.StartsTracking call →
        s.audit.tracked.length < s.audit.maximumNumberOfProducersToTrack ∨
          s.audit.map.maxCacheSize ≤ s.audit.tracked.length)) := by
    intro call hid
    obtain ⟨hstarts, hstays⟩ := length_onCall h hid
    have hmaximum := (onCall_touches s.audit hid).limits.maximum
    change ((s.audit.onCall call).tracked.length : Int) ≤
      (s.audit.onCall call).maximumNumberOfProducersToTrack ↔ _
    rw [hmaximum]
    by_cases hnew : s.StartsTracking call
    · rw [hstarts hnew]
      by_cases hfull : s.audit.map.maxCacheSize ≤ s.audit.tracked.length
      · rw [if_pos hfull]
        exact ⟨fun _ _ => .inr hfull, fun _ => hwithin⟩
      · rw [if_neg hfull]
        constructor
        · exact fun hle _ => .inl (by omega)
        · intro hroom
          have hlt := (hroom hnew).resolve_right hfull
          omega
    · rw [hstays hnew]
      exact ⟨fun _ hstarts => absurd hstarts hnew, fun _ => hwithin⟩
  cases call with
  | onText op text => exact hids nofun
  | onObject op id => exact hids nofun
  | setMaximumNumberOfProducersToTrack value =>
    change ((s.audit.onCall _).tracked.length : Int) ≤
      (s.audit.onCall _).maximumNumberOfProducersToTrack ↔ _
    rw [map_adjust h.nodup]
    by_cases hpos : value ≤ 0
    · rw [if_pos hpos]
      exact ⟨fun _ => .inl hpos, fun _ => hwithin⟩
    · rw [if_neg hpos]
      exact ⟨.inr, fun hroom => hroom.resolve_left hpos⟩

/-- **The limit.** For every audit and every run of calls, raising or lowering the maximum
anywhere: no more producers are tracked than configured after any call, and those dropped
are the ones used the longest ago, *iff* the maximum it is made with is not negative, a
producer is added only below the maximum or to a cache that has its own bound, and no maximum
is set below the number tracked. -/
theorem tracked_within_maximum_iff (auditDepth maximumNumberOfProducersToTrack : Int)
    (calls : List LimitCall) :
    (machine.Always WithinMaximum (new auditDepth maximumNumberOfProducersToTrack) calls ∧
        machine.Meets DropsLeastRecent (new auditDepth maximumNumberOfProducersToTrack) calls) ↔
      0 ≤ maximumNumberOfProducersToTrack ∧
        machine.Meets HasRoom (new auditDepth maximumNumberOfProducersToTrack) calls := by
  have hdrops : machine.Meets DropsLeastRecent (new auditDepth maximumNumberOfProducersToTrack)
      calls := by
    have hany : machine.Meets (fun _ _ => True) (new auditDepth maximumNumberOfProducersToTrack)
        calls := Machine.meets_of_forall (fun _ _ => trivial) _
    exact Machine.meets_of_invariant (I := Ordered)
      (fun s call h _ => step_dropsLeastRecent h call) (ordered_new _ _) hany
  have hexact : 0 ≤ maximumNumberOfProducersToTrack →
      (machine.Always WithinMaximum (new auditDepth maximumNumberOfProducersToTrack) calls ↔
        machine.Meets HasRoom (new auditDepth maximumNumberOfProducersToTrack) calls) := by
    intro hpos
    refine Machine.always_iff_meets (I := fun s : Limited => s.Ordered ∧ s.WithinMaximum)
      (fun s call h hroom => ?_) (fun s h => h.2) (fun s call h hnot => ?_) ⟨ordered_new _ _, hpos⟩
    · exact ⟨(step_dropsLeastRecent h.1 call).1, (withinMaximum_step h.1 h.2 call).mpr hroom⟩
    · exact fun hwithin => hnot ((withinMaximum_step h.1 h.2 call).mp hwithin)
  constructor
  · rintro ⟨halways, -⟩
    have hpos : 0 ≤ maximumNumberOfProducersToTrack := halways.head
    exact ⟨hpos, (hexact hpos).mp halways⟩
  · rintro ⟨hpos, hroom⟩
    exact ⟨(hexact hpos).mpr hroom, hdrops⟩

/-- Two producers are presented to an audit. -/
def twoProducers : List LimitCall :=
  [.onObject .isDuplicate (some ⟨some ⟨[0x61], 1, 1⟩, 1⟩),
    .onObject .isDuplicate (some ⟨some ⟨[0x62], 1, 1⟩, 1⟩)]

/-- Then the maximum is set to one. -/
def thenLowered : List LimitCall := twoProducers ++ [LimitCall.setMaximumNumberOfProducersToTrack 1]

/-- An audit for one producer tracks both, and one for two still tracks both when its maximum
has been set to one. -/
theorem tracks_beyond_maximum :
    ((machine.run (new 2048 1) twoProducers).audit.tracked.length = 2 ∧
        ¬ machine.Always WithinMaximum (new 2048 1) twoProducers) ∧
      (machine.run (new 2048 2) thenLowered).audit.tracked.length = 2 ∧
        ¬ machine.Always WithinMaximum (new 2048 2) thenLowered := by
  refine ⟨⟨by decide, fun h => ?_⟩, by decide +kernel, fun h => ?_⟩
  · exact absurd h.last (by decide)
  · exact absurd h.last (by decide)

end Limited

end MessageAudit

end ActivemqCpp.Core
