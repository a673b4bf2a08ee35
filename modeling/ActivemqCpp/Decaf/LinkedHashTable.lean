import ActivemqCpp.Decaf.HashMap

/-!
# `decaf::util::LinkedHashMap` over its table

A `HashMap` whose entries are also linked into a chain, the eldest at its head:

* **linking** — a new entry goes behind the tail; one that is already linked moves there
  only in access order (`linkEntry`), and so does an entry that is read (`getEntry`);
* **eviction** — `put` asks `removeEldestEntry` once after it has stored the value;
  `putAll` goes to `putImpl` directly and never asks;
* **agreement** — table and chain hold the keys of one finite map (`Linked`), which every
  operation maintains while the table can grow.

The chain is the list of its keys from `head` to `tail`.
-/

namespace ActivemqCpp.Decaf

open Base List Finmap HashMap

structure LinkedHashTable (K V : Type) extends HashMap K V where
  accessOrder : Bool
  chain : List K

namespace LinkedHashTable

variable {K V : Type}

/-! ## The code -/

section Code

variable [DecidableEq K] (hash : K → BitVec 32) (thresholdOf : Nat → Int)

/-- `LinkedHashMap(int capacity, float load, bool order)`. -/
def new (capacity : Int) (accessOrder : Bool) : Except Exn (LinkedHashTable K V) :=
  (HashMap.new thresholdOf capacity).map fun table => ⟨table, accessOrder, []⟩

/-- Unlinking the entry of a key, if it is linked, and linking it behind the tail. -/
def toTail (key : K) (chain : List K) : List K := chain.filter (· ≠ key) ++ [key]

/-- A new entry goes behind the tail, a linked one only in access order. -/
def link (accessOrder : Bool) (key : K) (chain : List K) : List K :=
  if accessOrder = true ∨ key ∉ chain then toTail key chain else chain

/-- `linkEntry`. -/
def linkEntry (s : LinkedHashTable K V) (key : K) : LinkedHashTable K V :=
  { s with chain := link s.accessOrder key s.chain }

/-- `getEntry`, which reorders the chain. -/
def getEntry (s : LinkedHashTable K V) (key : K) :
    LinkedHashTable K V × Option (HashMapEntry K V) :=
  match s.toHashMap.getEntry hash key with
  | none => (s, none)
  | some e => (if s.accessOrder then { s with chain := toTail key s.chain } else s, some e)

def get (s : LinkedHashTable K V) (key : K) : LinkedHashTable K V × Except Exn V :=
  match s.getEntry hash key with
  | (s', some e) => (s', .ok e.value)
  | (s', none) => (s', .error .noSuchElement)

/-- `modCount++` and `++elementCount`. -/
def countEntry (table : HashMap K V) : HashMap K V :=
  { table with
    elementCount := wrap 32 (table.elementCount + 1)
    modCount := wrap 32 (table.modCount + 1) }

/-- The table's half of `createHashedEntry`. -/
def storeEntry [Inhabited V] (table : HashMap K V) (key : K) : HashMap K V :=
  { table with
    elementData := Buckets.push (slot table.elementData.length) table.elementData
      ⟨key, default, hash key⟩ }

/-- `putImpl`. Unlike the one of `HashMap` it lets the table grow before the entry is
created; a table that cannot grow is left with its counter raised. -/
def putImpl [Inhabited V] (s : LinkedHashTable K V) (key : K) (value : V) :
    LinkedHashTable K V × Except Exn (Option V) :=
  let s := if s.elementCount = 0 then { s with chain := [] } else s
  match s.toHashMap.getEntry hash key with
  | some e =>
    ({ s.linkEntry key with toHashMap := s.toHashMap.setValue hash key value },
      .ok (some e.value))
  | none =>
    let counted := countEntry s.toHashMap
    match (if counted.elementCount > counted.threshold then
        counted.rehash thresholdOf counted.elementData.length else .ok counted) with
    | .error e => ({ s with toHashMap := counted }, .error e)
    | .ok grown =>
      ({ s.linkEntry key with
          toHashMap := (storeEntry hash grown key).setValue hash key value }, .ok none)

/-- `remove`. -/
def remove (s : LinkedHashTable K V) (key : K) : LinkedHashTable K V × Except Exn V :=
  match s.toHashMap.remove hash key with
  | (_, .error e) => (s, .error e)
  | (table, .ok value) =>
    ({ s with toHashMap := table, chain := s.chain.filter (· ≠ key) }, .ok value)

/-- `put`, with the hook `removeEldestEntry`. -/
def put [Inhabited V] (removeEldestEntry : LinkedHashTable K V → Bool)
    (s : LinkedHashTable K V) (key : K) (value : V) :
    LinkedHashTable K V × Except Exn (Option V) :=
  match s.putImpl hash thresholdOf key value with
  | (s', .error e) => (s', .error e)
  | (s', .ok old) =>
    if removeEldestEntry s' then
      match s'.chain with
      | [] => (s', .error .nullPointer)
      | eldest :: _ => ((s'.remove hash eldest).1, (s'.remove hash eldest).2.map fun _ => old)
    else (s', .ok old)

/-- The loop of `putAllImpl` over another map. -/
def putEach [Inhabited V] (s : LinkedHashTable K V) :
    List (K × V) → LinkedHashTable K V × Except Exn Unit
  | [] => (s, .ok ())
  | (key, value) :: rest =>
    match s.putImpl hash thresholdOf key value with
    | (s', .error e) => (s', .error e)
    | (s', .ok _) => s'.putEach rest

/-- `chainForward` of the entry of a key. -/
def chainForward (s : LinkedHashTable K V) (key : K) : Option K :=
  (s.chain.dropWhile (· ≠ key)).tail.head?

/-- The loop of `putAllImpl` over the map itself: `futureEntry` is read before the entry
is put. Without fuel there is no result. -/
def putSelf [Inhabited V] : (fuel : Nat) → LinkedHashTable K V → (futureEntry : Option K) →
    LinkedHashTable K V × Option (Except Exn Unit)
  | _, s, none => (s, some (.ok ()))
  | 0, s, some _ => (s, none)
  | fuel + 1, s, some key =>
    match s.toHashMap.getEntry hash key with
    | none => (s, some (.error .nullPointer))
    | some e =>
      match s.putImpl hash thresholdOf key e.value with
      | (s', .error x) => (s', some (.error x))
      | (s', .ok _) => putSelf fuel s' (s.chainForward key)

/-- `putAll`; no result when the call does not return. A loop over the map itself that
ends needs one round for each entry. -/
def putAll [Inhabited V] (s : LinkedHashTable K V) (source : MapRef K V) :
    LinkedHashTable K V × Option (Except Exn Unit) :=
  if s.toHashMap.refSize source = 0 then (s, some (.ok ()))
  else
    let capacity := wrap 32 (s.elementCount + s.toHashMap.refSize source)
    match (if capacity > s.threshold then s.toHashMap.rehash thresholdOf capacity
        else .ok s.toHashMap) with
    | .error e => (s, some (.error e))
    | .ok grown =>
      let s' := { s with toHashMap := grown }
      match source with
      | .other map =>
        ((s'.putEach hash thresholdOf map.entries).1,
          some (s'.putEach hash thresholdOf map.entries).2)
      | .self => putSelf hash thresholdOf s'.chain.length s' s'.chain.head?

end Code

/-! ## Table and chain -/

/-- The table represents a finite map, and the chain runs once through its keys. -/
structure Linked (hash : K → BitVec 32) (thresholdOf : Nat → Int) (s : LinkedHashTable K V)
    (m : Finmap fun _ : K => V) : Prop where
  table : Represents hash thresholdOf s.toHashMap m
  nodup : s.chain.Nodup
  mem_iff : ∀ key, key ∈ s.chain ↔ key ∈ m

theorem countEntry_rehash (thresholdOf : Nat → Int) (table : HashMap K V) (capacity : Int) :
    (countEntry table).rehash thresholdOf capacity =
      (table.rehash thresholdOf capacity).map countEntry := by
  unfold rehash
  generalize (calculateCapacity
    (BitVec.ofInt 32 (if capacity = 0 then 1 else capacity * 2))).toInt = length
  dsimp only
  split
  · rfl
  · split <;> rfl

variable {hash : K → BitVec 32} {thresholdOf : Nat → Int} {s : LinkedHashTable K V}
  {m : Finmap fun _ : K => V} {table : HashMap K V}

/-- Another table for the same map. -/
theorem Linked.withTable (h : Linked hash thresholdOf s m)
    (htable : Represents hash thresholdOf table m) :
    Linked hash thresholdOf { s with toHashMap := table } m := ⟨htable, h.nodup, h.mem_iff⟩

variable [DecidableEq K] {chain : List K} {key : K}

theorem filter_ne (h : key ∉ chain) : chain.filter (· ≠ key) = chain := by
  refine filter_eq_self.mpr fun k hk => ?_
  rw [decide_eq_true_iff]
  rintro rfl
  exact h hk

theorem mem_toTail {k : K} : k ∈ toTail key chain ↔ k = key ∨ k ∈ chain := by
  by_cases h : k = key <;> simp [toTail, h]

theorem nodup_toTail (h : chain.Nodup) (key : K) : (toTail key chain).Nodup := by
  refine (h.filter _).append (nodup_singleton key) (disjoint_singleton.mpr ?_)
  simp

theorem mem_link {accessOrder : Bool} {k : K} :
    k ∈ link accessOrder key chain ↔ k = key ∨ k ∈ chain := by
  unfold link
  split
  · exact mem_toTail
  · next hin =>
    have hkey : key ∈ chain := not_not.mp fun hnot => hin (.inr hnot)
    refine ⟨.inr, ?_⟩
    rintro (rfl | h)
    · exact hkey
    · exact h

theorem nodup_link (h : chain.Nodup) (accessOrder : Bool) (key : K) :
    (link accessOrder key chain).Nodup := by
  unfold link
  split
  · exact nodup_toTail h key
  · exact h

namespace Linked

variable (h : Linked hash thresholdOf s m)
include h

theorem length_chain : (s.chain.length : Int) = s.elementCount := by
  have hkeys : m.keys = s.chain.toFinset := by
    ext key
    rw [Finmap.mem_keys, mem_toFinset, h.mem_iff]
  rw [← h.table.card_keys, hkeys, toFinset_card_of_nodup h.nodup]

theorem containsKey_iff (key : K) : s.toHashMap.containsKey hash key = true ↔ key ∈ s.chain := by
  rw [h.mem_iff, ← lookup_isSome, h.table.lookup_eq, containsKey, Option.isSome_map]

/-- An entry that has been stored and linked. -/
theorem linked {value : V} (htable : Represents hash thresholdOf table (m.insert key value)) :
    Linked hash thresholdOf { s.linkEntry key with toHashMap := table } (m.insert key value) where
  table := htable
  nodup := nodup_link h.nodup s.accessOrder key
  mem_iff k := by
    show k ∈ link s.accessOrder key s.chain ↔ _
    rw [mem_link, mem_insert, h.mem_iff]

/-- The chain of an empty map is empty already. -/
theorem reset : (if s.elementCount = 0 then { s with chain := [] } else s) = s := by
  split
  · next hzero =>
    have hnil : s.chain = [] := by
      have hlength := h.length_chain
      exact eq_nil_of_length_eq_zero (by omega)
    rw [← hnil]
  · rfl

/-- `get`. -/
theorem get (key : K) : Linked hash thresholdOf (s.get hash key).1 m ∧
      (s.get hash key).1.accessOrder = s.accessOrder ∧
      (s.get hash key).1.toHashMap = s.toHashMap ∧
      (s.get hash key).1.chain =
        if s.accessOrder = true ∧ key ∈ s.chain then toTail key s.chain else s.chain := by
  have hcontains := h.containsKey_iff key
  unfold LinkedHashTable.get getEntry
  rw [containsKey] at hcontains
  cases hget : s.toHashMap.getEntry hash key with
  | none =>
    rw [hget] at hcontains
    have hnotin : key ∉ s.chain := fun hin => by simpa using hcontains.mpr hin
    exact ⟨h, rfl, rfl, (if_neg fun hand => hnotin hand.2).symm⟩
  | some e =>
    rw [hget] at hcontains
    have hin : key ∈ s.chain := hcontains.mp rfl
    cases horder : s.accessOrder with
    | false => exact ⟨h, horder, rfl, rfl⟩
    | true =>
      rw [if_pos rfl, if_pos ⟨rfl, hin⟩]
      refine ⟨⟨h.table, nodup_toTail h.nodup key, fun k => ?_⟩, rfl, rfl, rfl⟩
      show k ∈ toTail key s.chain ↔ k ∈ m
      rw [mem_toTail, ← h.mem_iff k]
      refine ⟨?_, .inr⟩
      rintro (rfl | hk)
      · exact hin
      · exact hk

/-- `remove`. -/
theorem remove (key : K) : Linked hash thresholdOf (s.remove hash key).1 (m.erase key) ∧
      (s.remove hash key).1.accessOrder = s.accessOrder ∧
      (s.remove hash key).1.chain = s.chain.filter (· ≠ key) ∧
      (s.remove hash key).2 =
        match m.lookup key with
        | some value => .ok value
        | none => .error .noSuchElement := by
  obtain ⟨htable, hresult⟩ := h.table.remove key
  have hmem : ∀ k, k ∈ s.chain.filter (· ≠ key) ↔ k ∈ m.erase key := by
    intro k
    rw [mem_filter, mem_erase, h.mem_iff, decide_eq_true_iff, and_comm]
  rcases hremove : s.toHashMap.remove hash key with ⟨table, result⟩
  rw [hremove] at htable hresult
  rw [LinkedHashTable.remove, hremove]
  cases hlookup : m.lookup key with
  | none =>
    rw [hlookup] at hresult
    obtain rfl : result = .error .noSuchElement := hresult
    have hnotin : key ∉ m := lookup_eq_none.mp hlookup
    rw [filter_ne (mt (h.mem_iff key).mp hnotin), erase_of_notMem hnotin]
    exact ⟨h, rfl, rfl, rfl⟩
  | some value =>
    rw [hlookup] at hresult
    obtain rfl : result = .ok value := hresult
    exact ⟨⟨htable, h.nodup.filter _, hmem⟩, rfl, rfl, rfl⟩

/-- The table's half of `putImpl` for a key that is not there. -/
theorem grow [Inhabited V]
    (hnone : s.toHashMap.getEntry hash key = none) (hroom : s.toHashMap.HasRoom) (value : V) :
    ∃ grown, (if (countEntry s.toHashMap).elementCount > (countEntry s.toHashMap).threshold then
        (countEntry s.toHashMap).rehash thresholdOf (countEntry s.toHashMap).elementData.length
        else .ok (countEntry s.toHashMap)) = .ok grown ∧
      Represents hash thresholdOf
        ((storeEntry hash grown key).setValue hash key value) (m.insert key value) ∧
      grown.elementCount = s.elementCount + 1 ∧
      (s.elementCount + 1 ≤ s.threshold → grown.threshold = s.threshold) := by
  obtain ⟨hfew, hgrows⟩ := hroom
  have hlookup := h.table.lookup_eq key
  rw [hnone] at hlookup
  have hnonneg := h.length_chain
  have hcounted : (countEntry s.toHashMap).elementCount = s.elementCount + 1 := by
    show wrap 32 (s.elementCount + 1) = _
    rw [wrap_of_bounds]
  -- a table that represents the map takes the entry, counted before or after
  have hstore : ∀ {table : HashMap K V}, Represents hash thresholdOf table m →
      table.elementCount = s.elementCount →
      Represents hash thresholdOf
        ((storeEntry hash (countEntry table) key).setValue hash key value)
        (m.insert key value) := by
    intro table htable hcount
    have hmissing : table.getEntry hash key = none := by
      have hlookup' := htable.lookup_eq key
      rw [hlookup] at hlookup'
      exact Option.map_eq_none_iff.mp hlookup'.symm
    exact (htable.createHashedEntry hmissing (by omega)).setNew value
  by_cases hfull : (countEntry s.toHashMap).elementCount > (countEntry s.toHashMap).threshold
  · have hfull' : ¬ s.elementCount + 1 ≤ s.threshold := by
      rw [hcounted] at hfull
      exact not_le.mpr hfull
    obtain ⟨grown, hgrown, hrep, hsame⟩ := h.table.rehash
      (countEntry s.toHashMap).elementData.length (by omega) (by
        show (s.elementData.length : Int) < _
        omega)
    refine ⟨countEntry grown, ?_, hstore hrep hsame, ?_, fun hle => absurd hle hfull'⟩
    · rw [if_pos hfull, countEntry_rehash, hgrown]
      rfl
    · show wrap 32 (grown.elementCount + 1) = _
      rw [hsame]
      exact hcounted
  · exact ⟨_, if_neg hfull, hstore h.table rfl, hcounted, fun _ => rfl⟩

/-- `putImpl`. -/
theorem putImpl [Inhabited V] (key : K) (value : V)
    (hroom : s.toHashMap.containsKey hash key = true ∨ s.toHashMap.HasRoom) :
    Linked hash thresholdOf (s.putImpl hash thresholdOf key value).1 (m.insert key value) ∧
      (s.putImpl hash thresholdOf key value).2 = .ok (m.lookup key) ∧
      (s.putImpl hash thresholdOf key value).1.chain = link s.accessOrder key s.chain ∧
      (s.putImpl hash thresholdOf key value).1.accessOrder = s.accessOrder ∧
      (s.putImpl hash thresholdOf key value).1.elementCount ≤ s.elementCount + 1 ∧
      (s.elementCount + 1 ≤ s.threshold →
        (s.putImpl hash thresholdOf key value).1.threshold = s.threshold) := by
  have hlookup := h.table.lookup_eq key
  rw [LinkedHashTable.putImpl, h.reset]
  cases hget : s.toHashMap.getEntry hash key with
  | some e =>
    rw [hget] at hlookup
    refine ⟨h.linked (h.table.setValue hget value), by rw [hlookup]; rfl, rfl, rfl, ?_,
      fun _ => rfl⟩
    show s.elementCount ≤ s.elementCount + 1
    omega
  | none =>
    rw [hget] at hlookup
    have hroom' : s.toHashMap.HasRoom := by
      refine hroom.resolve_left fun hin => ?_
      rw [containsKey, hget] at hin
      cases hin
    obtain ⟨grown, hgrown, hstored, hcount, hkeep⟩ := h.grow hget hroom' value
    dsimp only
    rw [hgrown]
    exact ⟨h.linked hstored, by rw [hlookup]; rfl, rfl, rfl, hcount.le, hkeep⟩

/-- Putting back what is there: nothing moves but the entry. -/
theorem putImpl_present [Inhabited V] (hin : key ∈ s.chain) :
    ∃ e, s.toHashMap.getEntry hash key = some e ∧ ∃ s' old,
      s.putImpl hash thresholdOf key e.value = (s', .ok old) ∧
      Linked hash thresholdOf s' m ∧ s'.chain = link s.accessOrder key s.chain ∧
      s'.accessOrder = s.accessOrder := by
  have hlookup := h.table.lookup_eq key
  obtain ⟨value, hvalue⟩ := Option.isSome_iff_exists.mp (lookup_isSome.mpr ((h.mem_iff key).mp hin))
  obtain ⟨e, he⟩ := h.table.exists_entry hvalue
  rw [he] at hlookup
  have hsame : m.insert key e.value = m := by
    refine ext_lookup fun k => ?_
    by_cases hk : k = key
    · rw [hk, lookup_insert, hlookup]
      rfl
    · rw [lookup_insert_of_ne m hk]
  obtain ⟨hput, hok, hchain, horder, -⟩ := h.putImpl key e.value
    (.inl ((h.containsKey_iff key).mpr hin))
  rw [hsame] at hput
  exact ⟨e, he, _, m.lookup key, Prod.ext rfl hok, hput, hchain, horder⟩


/-- `put` with the hook of a cache of at most `max` entries, one of which the call may
add: when that is one too many the entry at the head goes. -/
theorem put [Inhabited V] (max : Int) (key : K) (value : V)
    (hroom : s.toHashMap.containsKey hash key = true ∨ s.toHashMap.HasRoom) :
    ∃ s' m', s.put hash thresholdOf (fun s => decide (s.size > max)) key value =
        (s', .ok (m.lookup key)) ∧
      Linked hash thresholdOf s' m' ∧ s'.accessOrder = s.accessOrder ∧
      ((((link s.accessOrder key s.chain).length : Int) ≤ max ∧
          s'.chain = link s.accessOrder key s.chain ∧ m' = m.insert key value) ∨
        (max < (link s.accessOrder key s.chain).length ∧ ∃ eldest,
          link s.accessOrder key s.chain = eldest :: s'.chain ∧
          m' = (m.insert key value).erase eldest)) := by
  obtain ⟨hput, hok, hchain, horder, -⟩ := h.putImpl key value hroom
  unfold LinkedHashTable.put
  rcases hresult : s.putImpl hash thresholdOf key value with ⟨s', result⟩
  rw [hresult] at hput hok hchain horder
  subst hok
  have hlength : s'.size = (link s.accessOrder key s.chain).length := by
    rw [← hchain]
    exact hput.length_chain.symm
  by_cases hfits : ((link s.accessOrder key s.chain).length : Int) ≤ max
  · refine ⟨s', _, ?_, hput, horder, .inl ⟨hfits, hchain, rfl⟩⟩
    dsimp only
    rw [if_neg]
    rw [decide_eq_true_iff]
    omega
  · have hnodup := hput.nodup
    have hin : key ∈ s'.chain := by
      rw [hchain]
      exact mem_link.mpr (.inl rfl)
    obtain ⟨eldest, rest, hcons⟩ := exists_cons_of_ne_nil (ne_nil_of_mem hin)
    obtain ⟨hremove, horder', hchain', hresult'⟩ := hput.remove eldest
    have hrest : s'.chain.filter (· ≠ eldest) = rest := by
      rw [hcons] at hnodup ⊢
      rw [filter_cons_of_neg (by simp), filter_ne (nodup_cons.mp hnodup).1]
    obtain ⟨old, hold⟩ := Option.isSome_iff_exists.mp (lookup_isSome.mpr
      ((hput.mem_iff eldest).mp (by rw [hcons]; exact mem_cons_self)))
    rw [hold] at hresult'
    refine ⟨(s'.remove hash eldest).1, _, ?_, hremove, horder'.trans horder,
      .inr ⟨not_le.mp hfits, eldest, ?_, rfl⟩⟩
    · dsimp only
      rw [if_pos, hcons]
      · dsimp only
        rw [hresult']
        rfl
      · rw [decide_eq_true_iff]
        omega
    · rw [hchain', hrest, ← hchain, hcons]

/-! ### Whole maps -/

omit h in
/-- The loop of `putAllImpl` over another map. -/
theorem putEach [Inhabited V] {n : Int} (hsmall : n < 2 ^ 31) (entries : List (K × V)) :
    ∀ {s : LinkedHashTable K V} {m : Finmap fun _ : K => V}, Linked hash thresholdOf s m →
      s.elementCount + entries.length ≤ n → (n ≤ s.threshold ∨ n ≤ thresholdOf (2 ^ 30)) →
      Linked hash thresholdOf (s.putEach hash thresholdOf entries).1
        (entries.foldl (fun m e => m.insert e.1 e.2) m) ∧
      (s.putEach hash thresholdOf entries).2 = .ok () ∧
      (s.putEach hash thresholdOf entries).1.accessOrder = s.accessOrder ∧
      (s.putEach hash thresholdOf entries).1.chain =
        (entries.map Prod.fst).foldl (fun chain key => link s.accessOrder key chain) s.chain := by
  induction entries with
  | nil =>
    intro s m h _ _
    exact ⟨h, rfl, rfl, rfl⟩
  | cons e rest ih =>
    intro s m h hn hfits
    rw [length_cons] at hn
    obtain ⟨hput, hok, hchain, horder, hcount, hkeep⟩ := h.putImpl e.1 e.2
      (.inr (h.table.hasRoom hsmall (by omega) hfits))
    rcases hresult : s.putImpl hash thresholdOf e.1 e.2 with ⟨s', result⟩
    rw [hresult] at hput hok hchain horder hcount hkeep
    subst hok
    have hstep : s.putEach hash thresholdOf (e :: rest) = s'.putEach hash thresholdOf rest := by
      rw [LinkedHashTable.putEach, hresult]
    have hfits' : n ≤ s'.threshold ∨ n ≤ thresholdOf (2 ^ 30) := by
      refine hfits.imp_left fun hle => ?_
      rw [hkeep (by omega)]
      exact hle
    obtain ⟨hall, hdone, horder', hchain'⟩ := ih hput (by omega) hfits'
    rw [hstep]
    refine ⟨hall, hdone, horder'.trans horder, ?_⟩
    rw [hchain', horder, hchain, map_cons, foldl_cons]

omit h in
/-- A map whose entries stay where they are can be put into itself: one round for each
entry that is left. -/
theorem putSelf [Inhabited V] :
    ∀ (rest before : List K) {s : LinkedHashTable K V}, Linked hash thresholdOf s m →
      s.chain = before ++ rest → (∀ key ∈ s.chain, link s.accessOrder key s.chain = s.chain) →
      ∃ s', LinkedHashTable.putSelf hash thresholdOf rest.length s rest.head? =
          (s', some (.ok ())) ∧
        Linked hash thresholdOf s' m ∧ s'.chain = s.chain ∧ s'.accessOrder = s.accessOrder := by
  intro rest
  induction rest with
  | nil =>
    intro before s h _ _
    exact ⟨s, rfl, h, rfl, rfl⟩
  | cons key rest ih =>
    intro before s h hsplit hstays
    have hin : key ∈ s.chain := by
      rw [hsplit]
      exact mem_append_right _ mem_cons_self
    obtain ⟨e, hget, s₁, old, hput, hlinked, hchain, horder⟩ := h.putImpl_present hin
    rw [hstays key hin] at hchain
    -- the next entry was read off the same chain
    have hnext : s.chainForward key = rest.head? := by
      have hnotin : key ∉ before := by
        intro hbefore
        have hnodup := h.nodup
        rw [hsplit] at hnodup
        exact disjoint_of_nodup_append hnodup hbefore mem_cons_self
      have hdrop : s.chain.dropWhile (· ≠ key) = key :: rest := by
        rw [hsplit, dropWhile_append_of_pos, dropWhile_cons_of_neg (by simp)]
        intro k hk
        rw [decide_eq_true_iff]
        rintro rfl
        exact hnotin hk
      rw [LinkedHashTable.chainForward, hdrop, tail_cons]
    have hsplit₁ : s₁.chain = (before ++ [key]) ++ rest := by
      rw [hchain, hsplit, append_assoc, singleton_append]
    obtain ⟨s', hrest, hlinked', hchain', horder'⟩ := ih (before ++ [key]) hlinked hsplit₁ (by
      rw [hchain, horder]
      exact hstays)
    refine ⟨s', ?_, hlinked', hchain'.trans hchain, horder'.trans horder⟩
    rw [length_cons, head?_cons, LinkedHashTable.putSelf, hget]
    dsimp only
    rw [hput, hnext]
    exact hrest

end Linked

end LinkedHashTable

end ActivemqCpp.Decaf
