import ActivemqCpp.Decaf.HashMapRuns
import ActivemqCpp.Decaf.LRUCache
import ActivemqCpp.Decaf.LinkedHashTable

/-!
# Runs of an `LRUCache`

A `LinkedHashMap` whose hook `removeEldestEntry` compares the size with `maxCacheSize`.
Beside the cache a run keeps the list of the uses, the latest first:

* **order** — the chain is in the order of the last uses, the longest ago at its head
  (`InOrder`), which every call preserves (`Kept.step`);
* **bound** — the hook is asked once for a call of `put`, which adds one entry at most;
  `putAll` never asks, and must fit by itself (`Fits`);
* **victim** — so the entry that goes is the one whose last use is the longest ago
  (`lruCache_drops_eldest`);
* **list** — in access order the table answers as the list of entries does that the
  message audit is built on (`cache_refines_list`).

In access order putting and reading an entry are uses, in insertion order only storing a
key that is not there.
-/

namespace ActivemqCpp.Decaf.LinkedHashTable

open Base List LinkedHashTable

variable {K V : Type}

theorem nodup_keys_mapView (map : MapView K V) : (map.entries.map Prod.fst).Nodup := by
  have hkeys : map.toFinmap.keys.val = (map.entries.map Prod.fst) := by
    show map.toFinmap.entries.map Sigma.fst = _
    rw [map.iterates, Multiset.map_coe, map_map]
    rfl
  rw [← Multiset.coe_nodup, ← hkeys]
  exact map.toFinmap.keys.nodup

variable [DecidableEq K]

/-! ## Order of use -/

/-- Of two entries of the chain the later one was used more recently; `recent` lists the
uses, the latest first. -/
def InOrder (recent chain : List K) : Prop :=
  chain.Pairwise fun a b => recent.idxOf b < recent.idxOf a

namespace InOrder

variable {recent chain : List K} (h : InOrder recent chain)
include h

theorem sublist {chain' : List K} (hsub : chain'.Sublist chain) :
    InOrder recent chain' := Pairwise.sublist hsub h

/-- A use of a key outside the chain. -/
theorem use_other {key : K} (hnotin : key ∉ chain) : InOrder (key :: recent) chain := by
  refine Pairwise.imp_of_mem ?_ h
  intro a b ha hb hlt
  rw [idxOf_cons_ne _ (ne_of_mem_of_not_mem hb hnotin).symm,
    idxOf_cons_ne _ (ne_of_mem_of_not_mem ha hnotin).symm]
  omega

theorem toTail (key : K) : InOrder (key :: recent) (toTail key chain) := by
  have hne : ∀ a ∈ chain.filter (· ≠ key), a ≠ key := fun a ha => by
    simpa using of_mem_filter ha
  have hothers : InOrder (key :: recent) (chain.filter (· ≠ key)) :=
    (h.sublist filter_sublist).use_other fun hin => hne key hin rfl
  refine pairwise_append.mpr ⟨hothers, pairwise_singleton _ _, ?_⟩
  intro a ha b hb
  rw [mem_singleton.mp hb, idxOf_cons_self, idxOf_cons_ne _ (hne a ha).symm]
  omega

theorem link (accessOrder : Bool) (key : K) :
    InOrder (if accessOrder = true ∨ key ∉ chain then key :: recent else recent)
      (link accessOrder key chain) := by
  unfold LinkedHashTable.link
  split
  · exact h.toTail key
  · exact h

omit h

/-- Different keys one after the other. -/
theorem linkAll (accessOrder : Bool) (keys : List K) (hkeys : keys.Nodup) :
    ∀ {recent chain : List K}, InOrder recent chain →
      InOrder ((if accessOrder then keys else keys.filter (· ∉ chain)).reverse ++ recent)
        (keys.foldl (fun chain key => LinkedHashTable.link accessOrder key chain) chain) := by
  induction keys with
  | nil =>
    intro recent chain h
    simpa using h
  | cons key keys ih =>
    intro recent chain h
    obtain ⟨hnotin, hrest⟩ := nodup_cons.mp hkeys
    have hstep := ih hrest (h.link accessOrder key)
    -- storing the first key does not make another one present
    have hsame : keys.filter (· ∉ LinkedHashTable.link accessOrder key chain) =
        keys.filter (· ∉ chain) := by
      refine filter_congr fun k hk => ?_
      have hne : k ≠ key := ne_of_mem_of_not_mem hk hnotin
      simp [mem_link, hne]
    rw [hsame] at hstep
    cases accessOrder with
    | true => simpa using hstep
    | false =>
      by_cases hin : key ∈ chain
      · simpa [hin] using hstep
      · simpa [hin] using hstep

end InOrder

theorem length_link {chain : List K} (h : chain.Nodup) (accessOrder : Bool) (key : K) :
    (link accessOrder key chain).length =
      if key ∈ chain then chain.length else chain.length + 1 := by
  have htail : (toTail key chain).length = if key ∈ chain then chain.length else chain.length + 1 := by
    rw [toTail, length_append, length_singleton]
    have herase : chain.filter (· ≠ key) = chain.erase key := by
      rw [h.erase_eq_filter]
      refine filter_congr fun k _ => ?_
      rw [Bool.eq_iff_iff]
      simp
    rw [herase, length_erase]
    split
    · next hin =>
      have := length_pos_of_mem hin
      omega
    · rfl
  unfold link
  split
  · exact htail
  · next hin =>
    rw [if_pos (not_not.mp fun hnot => hin (.inr hnot))]

/-! ## Calls -/

inductive Op (K V : Type)
  | put (key : K) (value : V)
  | putAll (source : MapRef K V)
  | get (key : K)
  | remove (key : K)

/-- `LRUCache::removeEldestEntry`. -/
def removeEldestEntry (maxCacheSize : Int) (s : LinkedHashTable K V) : Bool :=
  decide (s.size > maxCacheSize)

section Calls

variable (hash : K → BitVec 32) (thresholdOf : Nat → Int) (maxCacheSize : Int)

/-- One call; nothing is answered by a call that does not return. -/
def call [Inhabited V] (s : LinkedHashTable K V) :
    Op K V → LinkedHashTable K V × Option (Except Exn (HashMap.Answer V))
  | .put key value =>
    let (s', result) := s.put hash thresholdOf (removeEldestEntry maxCacheSize) key value
    (s', some (result.map .old))
  | .putAll source =>
    let (s', result) := s.putAll hash thresholdOf source
    (s', result.map (Except.map fun _ => .done))
  | .get key =>
    let (s', result) := s.get hash key
    (s', some (result.map .value))
  | .remove key =>
    let (s', result) := s.remove hash key
    (s', some (result.map .value))

/-- The keys that a call puts or reads. -/
def uses (s : LinkedHashTable K V) : Op K V → List K
  | .put key _ | .get key => [key]
  | .putAll (.other map) => map.entries.map Prod.fst
  | .putAll .self => s.chain
  | .remove _ => []

/-- The keys that a call stores and that were not there. -/
def insertions (s : LinkedHashTable K V) : Op K V → List K
  | .get _ => []
  | op => (s.uses op).filter fun key => !s.toHashMap.containsKey hash key

/-- What counts for the order of the chain. -/
def touches (s : LinkedHashTable K V) (op : Op K V) : List K :=
  if s.accessOrder then s.uses op else s.insertions hash op

/-- A cache and its uses, the latest first. -/
structure Used (K V : Type) where
  cache : LinkedHashTable K V
  recent : List K

def machine [Inhabited V] :
    Machine (Used K V) (Op K V) (Option (Except Exn (HashMap.Answer V))) where
  step u op :=
    (⟨(u.cache.call hash thresholdOf maxCacheSize op).1,
      (u.cache.touches hash op).reverse ++ u.recent⟩,
      (u.cache.call hash thresholdOf maxCacheSize op).2)

/-- The call returns, no table of 2^30 chains is asked to grow, and a map that is put
leaves no more entries than the cache may have. -/
def Fits (s : LinkedHashTable K V) : Op K V → Prop
  | .put key _ => s.toHashMap.containsKey hash key = true ∨ s.toHashMap.HasRoom
  | .putAll (.other map) =>
    s.toHashMap.HasRoomFor thresholdOf (s.elementCount + map.entries.length) ∧
      s.elementCount + (s.insertions hash (.putAll (.other map))).length ≤ maxCacheSize
  | .putAll .self =>
    s.toHashMap.HasRoomFor thresholdOf (s.elementCount + s.elementCount) ∧
      (s.accessOrder = false ∨ s.elementCount ≤ 1)
  | .get _ | .remove _ => True

instance (s : LinkedHashTable K V) (op : Op K V) :
    Decidable (s.Fits hash thresholdOf maxCacheSize op) :=
  match op with
  | .put _ _ => inferInstanceAs (Decidable (_ ∨ _))
  | .putAll (.other _) => inferInstanceAs (Decidable (_ ∧ _))
  | .putAll .self => inferInstanceAs (Decidable (_ ∧ _))
  | .get _ | .remove _ => .isTrue trivial

/-- The cache is as large as it says, never too large, and drops the eldest entry. -/
structure DropsEldest [Inhabited V] (u : Used K V) : Prop where
  size_eq : u.cache.size = u.cache.mappings.length
  size_le : u.cache.size ≤ maxCacheSize
  /-- A `put` drops an entry iff it adds one to a full cache, and of those that were
  there it is the one whose last use is the longest ago. -/
  put : ∀ key value, u.cache.Fits hash thresholdOf maxCacheSize (.put key value) →
    let before := fun k => u.cache.toHashMap.containsKey hash k = true
    let after := fun k => (u.cache.call hash thresholdOf maxCacheSize
      (.put key value)).1.toHashMap.containsKey hash k = true
    ((before key ∨ u.cache.size < maxCacheSize) ∧ ∀ k, after k ↔ k = key ∨ before k) ∨
    (¬ before key ∧ u.cache.size = maxCacheSize ∧ ∃ eldest, before eldest ∧
      (∀ k, after k ↔ k = key ∨ before k ∧ k ≠ eldest) ∧
      ∀ k, before k → k ≠ eldest → u.recent.idxOf k < u.recent.idxOf eldest)

end Calls

/-! ## One call -/

variable {hash : K → BitVec 32} {thresholdOf : Nat → Int} {maxCacheSize : Int}

/-- What carries the runs. -/
structure Kept (hash : K → BitVec 32) (thresholdOf : Nat → Int) (maxCacheSize : Int)
    (u : Used K V) : Prop where
  linked : ∃ m, Linked hash thresholdOf u.cache m
  size_le : u.cache.elementCount ≤ maxCacheSize
  inOrder : InOrder u.recent u.cache.chain

variable {m : Finmap fun _ : K => V} {s : LinkedHashTable K V}

theorem Linked.insertions_eq (h : Linked hash thresholdOf s m) (keys : List K) :
    keys.filter (fun key => !s.toHashMap.containsKey hash key) = keys.filter (· ∉ s.chain) := by
  refine filter_congr fun key _ => ?_
  have hiff := h.containsKey_iff key
  cases hcontains : s.toHashMap.containsKey hash key with
  | true => simp [hiff.mp hcontains]
  | false =>
    have hnotin : key ∉ s.chain := fun hin => by
      rw [hiff.mpr hin] at hcontains
      cases hcontains
    simp [hnotin]

/-- The chain after a list of different keys has been put. -/
theorem length_linkAll (accessOrder : Bool) (keys : List K) (hkeys : keys.Nodup) :
    ∀ {chain : List K}, chain.Nodup →
      (keys.foldl (fun chain key => link accessOrder key chain) chain).length =
        chain.length + (keys.filter (· ∉ chain)).length := by
  induction keys with
  | nil =>
    intro chain _
    rfl
  | cons key keys ih =>
    intro chain hnodup
    obtain ⟨hnotin, hrest⟩ := nodup_cons.mp hkeys
    have hsame : keys.filter (· ∉ link accessOrder key chain) = keys.filter (· ∉ chain) := by
      refine filter_congr fun k hk => ?_
      have hne : k ≠ key := ne_of_mem_of_not_mem hk hnotin
      simp [mem_link, hne]
    rw [foldl_cons, ih hrest (nodup_link hnodup accessOrder key), hsame, length_link hnodup]
    by_cases hin : key ∈ chain
    · simp [hin]
    · simp [hin]
      omega

/-- The table that `putAllImpl` puts into. -/
theorem Linked.prepare (h : Linked hash thresholdOf s m) {n : Int} (hn : 0 ≤ n)
    (hroom : s.toHashMap.HasRoomFor thresholdOf (s.elementCount + n)) :
    ∃ grown, (if wrap 32 (s.elementCount + n) > s.threshold then
        s.toHashMap.rehash thresholdOf (wrap 32 (s.elementCount + n)) else .ok s.toHashMap) =
        .ok grown ∧
      Linked hash thresholdOf { s with toHashMap := grown } m ∧
      grown.elementCount = s.elementCount ∧
      (s.elementCount + n ≤ grown.threshold ∨ s.elementCount + n ≤ thresholdOf (2 ^ 30)) := by
  obtain ⟨hsmall, hfits⟩ := hroom
  have hnonneg := h.length_chain
  have hwrap : wrap 32 (s.elementCount + n) = s.elementCount + n :=
    wrap_of_bounds
  rw [hwrap]
  by_cases hfull : s.elementCount + n > s.threshold
  · obtain ⟨hlt, hmax⟩ := hfits.resolve_left (not_le.mpr hfull)
    obtain ⟨grown, hgrown, hrep, hsame⟩ := h.table.rehash _ (by omega) hlt
    exact ⟨grown, by rw [if_pos hfull, hgrown], h.withTable hrep, hsame, .inr hmax⟩
  · exact ⟨s.toHashMap, if_neg hfull, h, rfl, .inl (not_lt.mp hfull)⟩

variable [Inhabited V] {u : Used K V}

theorem Kept.put (h : Kept hash thresholdOf maxCacheSize u) (key : K) (value : V)
    (hfits : u.cache.Fits hash thresholdOf maxCacheSize (.put key value)) :
    Kept hash thresholdOf maxCacheSize
      ((machine hash thresholdOf maxCacheSize).step u (.put key value)).1 := by
  obtain ⟨m, hlinked⟩ := h.linked
  obtain ⟨s', m', hput, hlinked', horder, hcases⟩ :=
    hlinked.put maxCacheSize key value hfits
  have hcall : (u.cache.call hash thresholdOf maxCacheSize (.put key value)).1 = s' :=
    congrArg Prod.fst hput
  -- either way the order is that of the uses
  have hrecent : InOrder ((u.cache.touches hash (.put key value)).reverse ++ u.recent)
      (link u.cache.accessOrder key u.cache.chain) := by
    have hall := InOrder.linkAll u.cache.accessOrder [key] (nodup_singleton key) h.inOrder
    rw [← hlinked.insertions_eq] at hall
    exact hall
  have hlength := hlinked'.length_chain
  have hbefore := hlinked.length_chain
  have hsize := h.size_le
  show Kept _ _ _ ⟨(u.cache.call hash thresholdOf maxCacheSize (.put key value)).1, _⟩
  rw [hcall]
  rcases hcases with ⟨hle, hchain, -⟩ | ⟨hlt, eldest, hcons, -⟩
  · refine ⟨⟨m', hlinked'⟩, ?_, ?_⟩
    · show s'.elementCount ≤ _
      rw [← hlength, hchain]
      exact hle
    · show InOrder _ s'.chain
      rw [hchain]
      exact hrecent
  · have hone := length_link hlinked.nodup u.cache.accessOrder key
    refine ⟨⟨m', hlinked'⟩, ?_, ?_⟩
    · show s'.elementCount ≤ _
      rw [hcons, length_cons] at hone
      split at hone <;> omega
    · show InOrder _ s'.chain
      rw [hcons] at hrecent
      exact hrecent.sublist (sublist_cons_self _ _)

/-- `putAll` of another map: its keys are linked one after the other. -/
theorem Linked.putAll_other (h : Linked hash thresholdOf s m) (map : MapView K V)
    (hroom : s.toHashMap.HasRoomFor thresholdOf (s.elementCount + map.entries.length)) :
    ∃ s' m', s.putAll hash thresholdOf (.other map) = (s', some (.ok ())) ∧
      Linked hash thresholdOf s' m' ∧
      s'.chain = (map.entries.map Prod.fst).foldl
        (fun chain key => link s.accessOrder key chain) s.chain := by
  unfold putAll
  by_cases hzero : s.toHashMap.refSize (.other map) = 0
  · have hnil : map.entries = [] := by
      have hlength : (map.entries.length : Int) = 0 := hzero
      exact eq_nil_of_length_eq_zero (by omega)
    exact ⟨s, m, if_pos hzero, h, by rw [hnil]; rfl⟩
  · obtain ⟨grown, hgrown, hlinked, hcount, hfits⟩ :=
      h.prepare (n := s.toHashMap.refSize (.other map)) (Int.natCast_nonneg _) hroom
    obtain ⟨hall, hdone, -, hchain⟩ := Linked.putEach hroom.1 map.entries hlinked
      (by
        show grown.elementCount + _ ≤ _
        rw [hcount]) hfits
    refine ⟨_, _, ?_, hall, hchain⟩
    rw [if_neg hzero]
    dsimp only
    rw [hgrown]
    exact Prod.ext rfl (congrArg some hdone)

variable (hroom : s.toHashMap.HasRoomFor thresholdOf (s.elementCount + s.elementCount))
include hroom

/-- A call of `putAll` on the cache itself that returns changes neither chain nor map. -/
theorem Linked.putAll_self (h : Linked hash thresholdOf s m)
    (hstays : s.accessOrder = false ∨ s.elementCount ≤ 1) :
    ∃ s', s.putAll hash thresholdOf .self = (s', some (.ok ())) ∧
      Linked hash thresholdOf s' m ∧ s'.chain = s.chain := by
  have hlength := h.length_chain
  unfold putAll
  by_cases hzero : s.toHashMap.refSize .self = 0
  · exact ⟨s, if_pos hzero, h, rfl⟩
  · obtain ⟨grown, hgrown, hlinked, -, -⟩ :=
      h.prepare (n := s.toHashMap.refSize .self) (by show 0 ≤ s.elementCount; omega) hroom
    have hlinks : ∀ key ∈ s.chain, link s.accessOrder key s.chain = s.chain := by
      intro key hin
      unfold link
      split
      · next hmoves =>
        have horder : s.accessOrder = true := hmoves.resolve_right (not_not.mpr hin)
        have hone : s.elementCount ≤ 1 := hstays.resolve_left (by simp [horder])
        obtain ⟨k, hk⟩ := length_eq_one_iff.mp
          (show s.chain.length = 1 by have := length_pos_of_mem hin; omega)
        rw [hk] at hin ⊢
        rw [mem_singleton.mp hin]
        simp [toTail]
      · rfl
    obtain ⟨s', hself, hlinked', hchain, -⟩ := hlinked.putSelf s.chain [] rfl hlinks
    refine ⟨s', ?_, hlinked', hchain⟩
    rw [if_neg hzero]
    dsimp only
    rw [hgrown]
    exact hself

omit hroom

/-- One call. -/
theorem Kept.step (h : Kept hash thresholdOf maxCacheSize u) (op : Op K V)
    (hfits : u.cache.Fits hash thresholdOf maxCacheSize op) :
    Kept hash thresholdOf maxCacheSize
      ((machine hash thresholdOf maxCacheSize).step u op).1 := by
  obtain ⟨m, hlinked⟩ := h.linked
  have hlength := hlinked.length_chain
  have hsize := h.size_le
  cases op with
  | put key value => exact h.put key value hfits
  | putAll source =>
    cases source with
    | other map =>
      obtain ⟨hroom, hcount⟩ := hfits
      have hkeys := nodup_keys_mapView map
      obtain ⟨s', m', hput, hlinked', hchain⟩ := hlinked.putAll_other map hroom
      have hcall : (u.cache.call hash thresholdOf maxCacheSize (.putAll (.other map))).1 = s' :=
        congrArg Prod.fst hput
      have hall := InOrder.linkAll u.cache.accessOrder _ hkeys h.inOrder
      have hnew := length_linkAll u.cache.accessOrder _ hkeys hlinked.nodup
      rw [← hlinked.insertions_eq, ← hchain] at hall hnew
      have hlength' := hlinked'.length_chain
      show Kept _ _ _ ⟨(u.cache.call hash thresholdOf maxCacheSize (.putAll (.other map))).1, _⟩
      rw [hcall]
      refine ⟨⟨m', hlinked'⟩, ?_, hall⟩
      show s'.elementCount ≤ maxCacheSize
      have hcount' : u.cache.elementCount + (((map.entries.map Prod.fst).filter fun key =>
        !u.cache.toHashMap.containsKey hash key).length : Int) ≤ maxCacheSize := hcount
      omega
    | self =>
      obtain ⟨hroom, hstays⟩ := hfits
      obtain ⟨s', hput, hlinked', hchain⟩ := hlinked.putAll_self hroom hstays
      have hcall : (u.cache.call hash thresholdOf maxCacheSize (.putAll .self)).1 = s' :=
        congrArg Prod.fst hput
      have hlength' := hlinked'.length_chain
      show Kept _ _ _ ⟨(u.cache.call hash thresholdOf maxCacheSize (.putAll .self)).1, _⟩
      rw [hcall]
      refine ⟨⟨m, hlinked'⟩, ?_, ?_⟩
      · show s'.elementCount ≤ maxCacheSize
        rw [hchain] at hlength'
        omega
      · show InOrder ((u.cache.touches hash (.putAll .self)).reverse ++ u.recent) s'.chain
        rw [hchain]
        rcases hstays with horder | hone
        · -- no key of the chain is new
          have hnone : u.cache.touches hash (.putAll .self) = [] := by
            rw [touches, horder]
            refine filter_eq_nil_iff.mpr fun key hin => ?_
            rw [(hlinked.containsKey_iff key).mpr hin]
            simp
          rw [hnone]
          exact h.inOrder
        · rcases hsmall : u.cache.chain with _ | ⟨key, _ | ⟨key', rest⟩⟩
          · exact Pairwise.nil
          · exact pairwise_singleton _ _
          · rw [hsmall, length_cons, length_cons] at hlength
            omega
  | get key =>
    obtain ⟨hlinked', -, htable, hchain⟩ := hlinked.get key
    have hcall : (u.cache.call hash thresholdOf maxCacheSize (.get key)).1 =
        (u.cache.get hash key).1 := rfl
    show Kept _ _ _ ⟨(u.cache.call hash thresholdOf maxCacheSize (.get key)).1, _⟩
    refine ⟨⟨m, hlinked'⟩, ?_, ?_⟩
    · show (u.cache.get hash key).1.elementCount ≤ _
      rw [htable]
      exact hsize
    · show InOrder ((u.cache.touches hash (.get key)).reverse ++ u.recent)
        (u.cache.get hash key).1.chain
      rw [hchain]
      cases horder : u.cache.accessOrder with
      | false =>
        have hnone : u.cache.touches hash (.get key) = [] := by
          rw [touches, horder]
          rfl
        rw [hnone]
        exact h.inOrder
      | true =>
        have hread : u.cache.touches hash (.get key) = [key] := by
          rw [touches, horder]
          rfl
        rw [hread]
        by_cases hin : key ∈ u.cache.chain
        · rw [if_pos ⟨rfl, hin⟩]
          exact h.inOrder.toTail key
        · rw [if_neg fun hand => hin hand.2]
          exact h.inOrder.use_other hin
  | remove key =>
    obtain ⟨hlinked', -, hchain, -⟩ := hlinked.remove key
    have hlength' := hlinked'.length_chain
    have hcall : (u.cache.call hash thresholdOf maxCacheSize (.remove key)).1 =
        (u.cache.remove hash key).1 := rfl
    have hnone : u.cache.touches hash (.remove key) = [] := by
      rw [touches]
      cases u.cache.accessOrder <;> rfl
    show Kept _ _ _ ⟨(u.cache.call hash thresholdOf maxCacheSize (.remove key)).1,
      (u.cache.touches hash (.remove key)).reverse ++ u.recent⟩
    rw [hnone]
    refine ⟨⟨_, hlinked'⟩, ?_, ?_⟩
    · show (u.cache.remove hash key).1.elementCount ≤ _
      have hshorter := length_filter_le (fun k => decide (k ≠ key)) u.cache.chain
      rw [hchain] at hlength'
      omega
    · show InOrder u.recent (u.cache.remove hash key).1.chain
      rw [hchain]
      exact h.inOrder.sublist filter_sublist

/-- The order and the bound say which entry a `put` drops. -/
theorem Kept.dropsEldest (h : Kept hash thresholdOf maxCacheSize u)
    (hpos : 0 < maxCacheSize) : DropsEldest hash thresholdOf maxCacheSize u := by
  obtain ⟨m, hlinked⟩ := h.linked
  have hlength := hlinked.length_chain
  have hsize := h.size_le
  refine ⟨?_, hsize, ?_⟩
  · show u.cache.elementCount = ((u.cache.elementData.flatten.map _).length : Int)
    rw [length_map]
    exact hlinked.table.count
  · intro key value hfits
    obtain ⟨s', m', hput, hlinked', -, hcases⟩ :=
      hlinked.put maxCacheSize key value hfits
    have hcall : (u.cache.call hash thresholdOf maxCacheSize (.put key value)).1 = s' :=
      congrArg Prod.fst hput
    rw [hcall]
    simp only [hlinked.containsKey_iff, hlinked'.containsKey_iff]
    have hone := length_link hlinked.nodup u.cache.accessOrder key
    rcases hcases with ⟨hle, hchain, -⟩ | ⟨hlt, eldest, hcons, -⟩
    · refine .inl ⟨?_, fun k => by rw [hchain, mem_link]⟩
      by_cases hin : key ∈ u.cache.chain
      · exact .inl hin
      · rw [if_neg hin] at hone
        right
        show u.cache.elementCount < maxCacheSize
        omega
    · -- one too many: the key was not there, and the cache was full
      have hnotin : key ∉ u.cache.chain := by
        intro hin
        rw [if_pos hin] at hone
        omega
      rw [if_neg hnotin] at hone
      have hothers : u.cache.chain.filter (· ≠ key) = u.cache.chain := by
        refine filter_eq_self.mpr fun k hk => ?_
        rw [decide_eq_true_iff]
        rintro rfl
        exact hnotin hk
      rw [link, if_pos (.inr hnotin), toTail, hothers] at hcons
      obtain ⟨first, rest, hfirst⟩ : ∃ first rest, u.cache.chain = first :: rest :=
        exists_cons_of_length_pos (by omega)
      have hnodup := hlinked.nodup
      have horder := h.inOrder
      rw [hfirst] at hcons hnodup horder
      obtain ⟨rfl, hrest⟩ := cons.inj hcons
      obtain ⟨hfresh, -⟩ := nodup_cons.mp hnodup
      refine .inr ⟨hnotin, ?_, first, ?_, fun k => ?_, fun k hk hne => ?_⟩
      · show u.cache.elementCount = maxCacheSize
        omega
      · rw [hfirst]
        exact mem_cons_self
      · rw [← hrest, hfirst, append_eq, mem_append, mem_singleton, mem_cons]
        constructor
        · rintro (hk | hk)
          · exact .inr ⟨.inr hk, ne_of_mem_of_not_mem hk hfresh⟩
          · exact .inl hk
        · rintro (hk | ⟨hk, hne⟩)
          · exact .inr hk
          · exact .inl (hk.resolve_left hne)
      · rw [hfirst] at hk
        exact (pairwise_cons.mp horder).1 k ((mem_cons.mp hk).resolve_left hne)

/-! ## The cache as a list of entries -/

/-- The list has the keys of the chain, with the values of the map. -/
structure Lists (maxCacheSize : Int) (s : LinkedHashTable K V) (m : Finmap fun _ : K => V)
    (c : LRUCache K V) : Prop where
  max : (c.maxCacheSize : Int) = maxCacheSize
  keys : c.keys = s.chain
  values : ∀ e ∈ c.entries, m.lookup e.1 = some e.2

namespace Lists

variable {s : LinkedHashTable K V} {m : Finmap fun _ : K => V} {c : LRUCache K V}
  (h : Lists maxCacheSize s m c) (hlinked : Linked hash thresholdOf s m)
include h hlinked

omit [Inhabited V] in
theorem lookup_eq (key : K) : c.lookup key = m.lookup key := by
  cases hlookup : c.lookup key with
  | some value => exact (h.values _ (LRUCache.mem_of_lookup hlookup)).symm
  | none =>
    symm
    rw [Finmap.lookup_eq_none, ← hlinked.mem_iff, ← h.keys, LRUCache.mem_keys_iff]
    simp [hlookup]

omit hlinked [Inhabited V] in
/-- Storing an entry at the tail. -/
theorem values_append (key : K) (value : V) :
    ∀ e ∈ c.others key ++ [(key, value)], (m.insert key value).lookup e.1 = some e.2 := by
  intro e he
  rcases mem_append.mp he with hother | hnew
  · obtain ⟨hin, hne⟩ := mem_filter.mp hother
    rw [Finmap.lookup_insert_of_ne m (by simpa using hne)]
    exact h.values e hin
  · rw [mem_singleton.mp hnew]
    exact Finmap.lookup_insert m

variable (horder : s.accessOrder = true)
include horder

omit [Inhabited V] in
/-- Reading. -/
theorem refines_get (key : K) :
    Lists maxCacheSize (s.get hash key).1 m (c.get key).1 ∧ (s.get hash key).2 = (c.get key).2 := by
  obtain ⟨-, -, -, hchain⟩ := hlinked.get key
  have hlookup := h.lookup_eq hlinked key
  have htable := hlinked.table.lookup_eq key
  have hvalue : (s.get hash key).2 = (m.lookup key).elim (.error .noSuchElement) .ok := by
    rw [htable, get, getEntry]
    cases s.toHashMap.getEntry hash key <;> rfl
  rw [hvalue, ← hlookup]
  have hmem := LRUCache.mem_keys_iff c key
  rw [h.keys] at hmem
  unfold LRUCache.get
  cases hfound : c.lookup key with
  | none =>
    have hnotin : key ∉ s.chain := by simp [hmem, hfound]
    rw [if_neg fun hand => hnotin hand.2] at hchain
    exact ⟨⟨h.max, h.keys.trans hchain.symm, h.values⟩, rfl⟩
  | some value =>
    rw [if_pos ⟨horder, hmem.mpr ⟨value, hfound⟩⟩] at hchain
    have hsame : m.insert key value = m := by
      refine Finmap.ext_lookup fun k => ?_
      by_cases hk : k = key
      · rw [hk, Finmap.lookup_insert, ← hlookup, hfound]
      · rw [Finmap.lookup_insert_of_ne m hk]
    have hvalues := h.values_append key value
    rw [hsame] at hvalues
    refine ⟨⟨h.max, ?_, hvalues⟩, rfl⟩
    rw [LRUCache.keys, LRUCache.keys_others_append, h.keys, hchain]
    rfl

/-- Storing, with the entry that has to go. -/
theorem refines_put (key : K) (value : V)
    (hfits : s.Fits hash thresholdOf maxCacheSize (.put key value)) :
    ∃ s' m', s.put hash thresholdOf (removeEldestEntry maxCacheSize) key value =
        (s', .ok (c.lookup key)) ∧
      s'.accessOrder = true ∧ Linked hash thresholdOf s' m' ∧
      Lists maxCacheSize s' m' (c.put key value) := by
  obtain ⟨s', m', hput, hlinked', horder', hcases⟩ := hlinked.put maxCacheSize key value hfits
  have hlink : link s.accessOrder key s.chain = toTail key s.chain := if_pos (.inl horder)
  have hkeys : (c.others key ++ [(key, value)]).map Prod.fst = toTail key s.chain := by
    rw [LRUCache.keys_others_append, h.keys]
    rfl
  have hlength : (c.others key ++ [(key, value)]).length = (toTail key s.chain).length := by
    rw [← hkeys, length_map]
  have hvalues := h.values_append key value
  have hmax := h.max
  rw [hlink] at hcases
  refine ⟨s', m', by rw [h.lookup_eq hlinked]; exact hput, horder'.trans horder, hlinked', ?_⟩
  rcases hcases with ⟨hle, hchain, rfl⟩ | ⟨hlt, eldest, hcons, rfl⟩
  · have hentries : (c.put key value).entries = c.others key ++ [(key, value)] :=
      if_neg (by omega)
    refine ⟨hmax, ?_, by rw [hentries]; exact hvalues⟩
    rw [LRUCache.keys, hentries, hkeys, hchain]
  · have hentries : (c.put key value).entries = (c.others key ++ [(key, value)]).tail :=
      if_pos (by omega)
    rw [hcons] at hkeys
    refine ⟨hmax, ?_, fun e he => ?_⟩
    · rw [LRUCache.keys, hentries, map_tail, hkeys, tail_cons]
    · rw [hentries] at he
      have hin : e.1 ∈ s'.chain := by
        have hmap := mem_map_of_mem (f := Prod.fst) he
        rwa [map_tail, hkeys] at hmap
      have hkept := (hlinked'.mem_iff e.1).mp hin
      rw [Finmap.lookup_erase_ne (Finmap.mem_erase.mp hkept).1]
      exact hvalues e (mem_of_mem_tail he)

end Lists

/-- The list of entries under the calls that the message audits make. -/
def listMachine : Machine (LRUCache K V) (Op K V) (Option (Except Exn (HashMap.Answer V))) where
  step c
    | .put key value => (c.put key value, some (.ok (.old (c.lookup key))))
    | .get key => ((c.get key).1, some ((c.get key).2.map .value))
    | .putAll _ | .remove _ => (c, none)

def Op.isUse : Op K V → Bool
  | .put _ _ | .get _ => true
  | .putAll _ | .remove _ => false

/-- The table is in access order and its entries are those of the list. -/
def Refines (hash : K → BitVec 32) (thresholdOf : Nat → Int) (maxCacheSize : Int) (u : Used K V)
    (c : LRUCache K V) : Prop :=
  u.cache.accessOrder = true ∧
    ∃ m, Linked hash thresholdOf u.cache m ∧ Lists maxCacheSize u.cache m c

/-- **A cache answers as a list.** In every run of `put` and `get` in which no table of 2^30
chains has to grow, a cache in access order gives the answers of the list of its entries,
under any hash function and any load factor. -/
theorem cache_refines_list (hash : K → BitVec 32) (thresholdOf : Nat → Int) (maxCacheSize : Int)
    (u : Used K V) (c : LRUCache K V) (h : Refines hash thresholdOf maxCacheSize u c)
    (ops : List (Op K V)) (huses : ∀ op ∈ ops, op.isUse = true)
    (hfits : (machine hash thresholdOf maxCacheSize).Meets
      (fun u op => u.cache.Fits hash thresholdOf maxCacheSize op) u ops) :
    (machine hash thresholdOf maxCacheSize).trace u ops = listMachine.trace c ops := by
  refine (Machine.trace_eq_of_simulation (R := Refines hash thresholdOf maxCacheSize) ?_ h
    ((Machine.meets_of_forall huses u).and hfits)).1
  rintro u c op ⟨horder, m, hlinked, hlists⟩ ⟨hop, hfits⟩
  cases op with
  | get key =>
    obtain ⟨hlinked', horder', -, -⟩ := hlinked.get key
    obtain ⟨hlists', hanswer⟩ := hlists.refines_get hlinked horder key
    refine ⟨⟨horder'.trans horder, m, hlinked', hlists'⟩, ?_⟩
    exact congrArg (fun result => some (result.map HashMap.Answer.value)) hanswer
  | put key value =>
    obtain ⟨s', m', hput, hrefines⟩ := hlists.refines_put hlinked horder key value hfits
    simp only [machine, call, hput]
    exact ⟨⟨hrefines.1, m', hrefines.2⟩, rfl⟩
  | putAll | remove => cases hop

/-- A new cache of two entries; the elder is read before a third is put. -/
theorem cache_refines_list_two :
    (machine (fun _ => 7) (fun length => 3 * length / 4) 2).trace
      ⟨⟨⟨0, replicate 16 [], 0, 12⟩, true, []⟩, []⟩ [.put 1 10, .put 2 20, .get 1, .put 3 30] =
    listMachine.trace ⟨[], 2⟩ [.put 1 10, .put 2 20, .get 1, .put 3 30] := by
  have hempty : HashMap.Represents (fun _ => 7) (fun length => 3 * length / 4)
      (⟨0, replicate 16 [], 0, 12⟩ : HashMap Nat Nat) ∅ :=
    HashMap.represents_new (show (0 : Int) < 2 ^ 31 by decide) rfl
  refine cache_refines_list _ _ 2 _ ⟨[], 2⟩ ⟨rfl, ∅, ?_, rfl, rfl, by simp⟩ _ (by decide) (by decide)
  exact ⟨hempty, nodup_nil, by simp [Finmap.notMem_empty]⟩

end ActivemqCpp.Decaf.LinkedHashTable

namespace ActivemqCpp.Decaf

open Base

/-- **A cache keeps to its size and drops the eldest entry.** In every run of calls that
return, ask no table of 2^30 chains to grow and put no map that takes the cache over its
size, no state has more than `maxCacheSize` entries, and a `put` that adds a key to a
full cache drops the entry whose last use is the longest ago: in access order the last
time it was put or read, in insertion order the time it was stored. -/
theorem lruCache_drops_eldest {K V : Type} [DecidableEq K] [Inhabited V]
    (hash : K → BitVec 32) (thresholdOf : Nat → Int) (capacity : Int) (hint : capacity < 2 ^ 31)
    (accessOrder : Bool) (maxCacheSize : Int) (hpos : 0 < maxCacheSize)
    {s : LinkedHashTable K V} (hnew : LinkedHashTable.new thresholdOf capacity accessOrder = .ok s)
    (ops : List (LinkedHashTable.Op K V))
    (hfits : (LinkedHashTable.machine hash thresholdOf maxCacheSize).Meets
      (fun u op => u.cache.Fits hash thresholdOf maxCacheSize op) ⟨s, []⟩ ops) :
    (LinkedHashTable.machine hash thresholdOf maxCacheSize).Always
      (LinkedHashTable.DropsEldest hash thresholdOf maxCacheSize) ⟨s, []⟩ ops := by
  have hstart : LinkedHashTable.Kept hash thresholdOf maxCacheSize ⟨s, []⟩ := by
    unfold LinkedHashTable.new at hnew
    cases htable : (HashMap.new thresholdOf capacity : Except Exn (HashMap K V)) with
    | error e =>
      rw [htable] at hnew
      cases hnew
    | ok table =>
      rw [htable] at hnew
      cases hnew
      have hempty : HashMap.Represents hash thresholdOf table ∅ :=
        HashMap.represents_new hint htable
      refine ⟨⟨∅, hempty, List.nodup_nil, fun key => ?_⟩, ?_, List.Pairwise.nil⟩
      · simp [Finmap.notMem_empty]
      · show table.elementCount ≤ maxCacheSize
        rw [← hempty.card_keys]
        exact hpos.le
  exact (Machine.invariant_of_meets (fun u op h hfits => h.step op hfits) hstart hfits).mono
    fun u h => h.dropsEldest hpos

/-- Two entries, the elder of which is read before a third is put. -/
theorem lruCache_drops_second :
    (LinkedHashTable.machine (fun _ => 7) (fun length => 3 * length / 4)
        2).Always
      (LinkedHashTable.DropsEldest (fun _ => 7) (fun length => 3 * length / 4) 2)
      ⟨⟨⟨0, List.replicate 16 [], 0, 12⟩, true, []⟩, []⟩
      [.put 1 10, .put 2 20, .get 1, .put 3 30, .remove 1] :=
  lruCache_drops_eldest (fun _ => 7) (fun length => 3 * length / 4) 0 (by decide) true 2
    (by decide) rfl _ (by decide)

/-- A cache in insertion order drops the entry that was read last, and a cache of one
entry takes a map of two. -/
theorem lruCache_drops_other :
    (let machine := LinkedHashTable.machine (fun _ => 7)
        (fun length => 3 * length / 4) 2
     let u := machine.run ⟨⟨⟨0, List.replicate 16 [], 0, 12⟩, false, []⟩, []⟩
        [.put 1 10, .put 2 20, .get 1, .put 3 30]
     u.cache.toHashMap.containsKey (fun _ => 7) 1 = false ∧
      u.cache.toHashMap.containsKey (fun _ => 7) 2 = true) ∧
    (let machine := LinkedHashTable.machine (fun _ => 7)
        (fun length => 3 * length / 4) 1
     let map : MapView Nat Nat := ⟨[⟨1, 10⟩, ⟨2, 20⟩].toFinmap, [(1, 10), (2, 20)], rfl⟩
     (machine.run ⟨⟨⟨0, List.replicate 16 [], 0, 12⟩, true, []⟩, []⟩
        [.putAll (.other map)]).cache.size = 2) := by
  decide

end ActivemqCpp.Decaf
