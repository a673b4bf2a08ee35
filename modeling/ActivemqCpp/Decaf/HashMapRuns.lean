import ActivemqCpp.Decaf.HashMap

/-!
# Runs of a `HashMap`

The table against the finite map it stands for, over whole runs of `put`, `remove`,
`putAll`, `clear` and lookups, under any hash function and any load factor.

* Call by call the table answers as the map does, and keeps on representing it
  (`represents_step`).
* After every run, every question is answered from the map: `get`, `containsKey`, `size`,
  `isEmpty`, `equals`, and the three iterations (`Observes`).

The condition is that no call asks a table of 2^30 chains to grow; the last section
shows one that does.
-/

namespace ActivemqCpp.Decaf.HashMap

open Base List HashMap

variable {K V : Type} {thresholdOf : Nat → Int} {hash : K → BitVec 32} {s : HashMap K V}

/-- A new table stands for the empty map. -/
theorem represents_new {capacity : Int} (hint : capacity < 2 ^ 31)
    (hnew : new thresholdOf capacity = .ok s) : Represents hash thresholdOf s ∅ := by
  unfold new at hnew
  split at hnew
  · next hpos =>
    cases hnew
    obtain ⟨n, rfl⟩ := Int.eq_ofNat_of_zero_le hpos
    have hbounds := calculateCapacity_bounds (n := n) (by omega)
    rw [BitVec.ofInt_natCast]
    generalize (calculateCapacity (BitVec.ofNat 32 n)).toInt = length at hbounds
    have hflat : (replicate length.toNat ([] : List (HashMapEntry K V))).flatten = [] := by
      simp
    constructor
    · exact Buckets.placed_replicate _
    · simp
    · rw [hflat]
      rfl
    · rw [hflat]
      rfl
    · norm_num
    · rw [length_replicate]
      omega
    · rw [length_replicate]
      omega
    · rw [length_replicate]
  · cases hnew

/-! ## Questions -/

theorem card_mapView (map : MapView K V) : map.toFinmap.keys.card = map.entries.length := by
  rw [Base.card_keys, map.iterates, Multiset.coe_card, length_map]

/-- The entries that are visited. -/
theorem Represents.entrySet {m : Finmap fun _ : K => V} (h : Represents hash thresholdOf s m) :
    s.entrySet = .ok s.mappings := by
  rw [HashMap.entrySet, iterate_all h]
  rfl

variable [DecidableEq K]

/-- Every question to the table has the answer of the finite map. -/
structure Observes [DecidableEq V] (hash : K → BitVec 32) (s : HashMap K V)
    (m : Finmap fun _ : K => V) : Prop where
  get : ∀ key, s.get hash key = (m.lookup key).elim (.error .noSuchElement) .ok
  containsKey : ∀ key, s.containsKey hash key = true ↔ key ∈ m
  size : s.size = m.keys.card
  isEmpty : s.isEmpty = true ↔ m = ∅
  equals : ∀ map, ∃ same, s.equals (.other map) = .ok same ∧ (same = true ↔ m = map.toFinmap)
  equals_self : s.equals .self = .ok true
  entrySet : ∃ entries, s.entrySet = .ok entries ∧ m.entries = (entries.map toEntry : List _)
  keySet : ∃ keys : List K, s.keySet = .ok keys ∧ m.keys.val = keys
  values : ∃ values : List V, s.values = .ok values ∧ m.entries.map Sigma.snd = values

variable {hash : K → BitVec 32} {thresholdOf : Nat → Int} {s : HashMap K V}
  {m : Finmap fun _ : K => V}

/-- A map inside another one with as many keys is that map. -/
theorem finmap_eq_of_subset {n : Finmap fun _ : K => V}
    (hsub : ∀ k v, m.lookup k = some v → n.lookup k = some v) (hcard : m.keys.card = n.keys.card) :
    m = n := by
  apply Finmap.ext
  apply Multiset.eq_of_le_of_card_le
  · rw [Multiset.le_iff_subset m.nodup_entries]
    rintro ⟨k, v⟩ hin
    exact Finmap.lookup_eq_some_iff.mp (hsub k v (Finmap.lookup_eq_some_iff.mpr hin))
  · rw [← Base.card_keys, ← Base.card_keys, hcard]

theorem Represents.equals [DecidableEq V] (h : Represents hash thresholdOf s m)
    (map : MapView K V) :
    ∃ same, s.equals (.other map) = .ok same ∧ (same = true ↔ m = map.toFinmap) := by
  have hsize := h.card_keys
  have hcard := card_mapView map
  by_cases hne : s.size ≠ map.entries.length
  · refine ⟨false, if_pos hne, fun hfalse => absurd hfalse (by simp), ?_⟩
    rintro rfl
    exact absurd (by rw [size]; omega) hne
  · have hresult : s.equals (.other map) =
        .ok (s.mappings.all fun e => map.toFinmap.lookup e.1 = some e.2) := by
      refine (if_neg hne).trans ?_
      rw [h.entrySet]
      rfl
    rw [size] at hne
    refine ⟨_, hresult, ?_⟩
    rw [all_eq_true]
    constructor
    · intro hall
      apply finmap_eq_of_subset
      · intro k v hlookup
        obtain ⟨e, he, rfl, rfl⟩ := (h.lookup_iff k v).mp hlookup
        simpa using hall _ (mem_map_of_mem he)
      · omega
    · rintro rfl e he
      obtain ⟨entry, hin, rfl⟩ := mem_map.mp he
      simpa using (h.lookup_iff _ _).mpr ⟨entry, hin, rfl, rfl⟩

theorem Represents.observes [DecidableEq V] (h : Represents hash thresholdOf s m) :
    Observes hash s m where
  get key := by
    rw [h.lookup_eq, get]
    cases s.getEntry hash key <;> rfl
  containsKey key := by
    rw [← Finmap.lookup_isSome, h.lookup_eq, containsKey, Option.isSome_map]
  size := h.card_keys.symm
  isEmpty := by
    have hsize := h.card_keys
    rw [isEmpty, decide_eq_true_iff]
    constructor
    · intro hzero
      apply Finmap.ext
      show m.entries = 0
      rw [← Multiset.card_eq_zero, ← Base.card_keys]
      omega
    · rintro rfl
      rw [← hsize]
      rfl
  equals := h.equals
  equals_self := rfl
  entrySet := ⟨_, h.entrySet, h.entries_refEntries .self⟩
  keySet := by
    refine ⟨_, by rw [keySet, iterate_all h]; rfl, ?_⟩
    show m.entries.map Sigma.fst = _
    rw [h.entries, entriesOf, Multiset.map_coe, map_map]
    rfl
  values := by
    refine ⟨_, by rw [values, iterate_all h]; rfl, ?_⟩
    rw [h.entries, entriesOf, Multiset.map_coe, map_map]
    rfl

/-! ## Calls -/

inductive Op (K V : Type)
  | put (key : K) (value : V)
  | remove (key : K)
  | putAll (source : MapRef K V)
  | clear
  | get (key : K)

/-- What a call returns: the value that was replaced, the value removed or found, or
nothing. -/
inductive Answer (V : Type)
  | old (value : Option V)
  | value (value : V)
  | done
deriving DecidableEq

/-- The calls on a table. -/
def machine [Inhabited V] (hash : K → BitVec 32) (thresholdOf : Nat → Int) :
    Machine (HashMap K V) (Op K V) (Except Exn (Answer V)) where
  step s
    | .put key value =>
      let (s', result) := s.putImpl hash thresholdOf key value
      (s', result.map .old)
    | .remove key =>
      let (s', result) := s.remove hash key
      (s', result.map .value)
    | .putAll source =>
      let (s', result) := s.putAll hash thresholdOf source
      (s', result.map fun _ => .done)
    | .clear => (s.clear, .ok .done)
    | .get key => (s, (s.get hash key).map .value)

/-- The same calls on a finite map. -/
def finmapMachine : Machine (Finmap fun _ : K => V) (Op K V) (Except Exn (Answer V)) where
  step m
    | .put key value => (m.insert key value, .ok (.old (m.lookup key)))
    | .remove key =>
      (m.erase key, (m.lookup key).elim (.error .noSuchElement) fun v => .ok (.value v))
    | .putAll source => (refMap m source ∪ m, .ok .done)
    | .clear => (∅, .ok .done)
    | .get key => (m, (m.lookup key).elim (.error .noSuchElement) fun v => .ok (.value v))

/-- No table of 2^30 chains is asked to grow. -/
def Fits (hash : K → BitVec 32) (thresholdOf : Nat → Int) (s : HashMap K V) : Op K V → Prop
  | .put key _ => s.containsKey hash key = true ∨ s.HasRoom
  | .putAll source => s.refSize source = 0 ∨
    s.HasRoomFor thresholdOf (s.elementCount + s.refSize source)
  | _ => True

instance (s : HashMap K V) : Decidable s.HasRoom := inferInstanceAs (Decidable (_ ∧ _))

instance (thresholdOf : Nat → Int) (s : HashMap K V) (n : Int) :
    Decidable (s.HasRoomFor thresholdOf n) := inferInstanceAs (Decidable (_ ∧ _))

instance (hash : K → BitVec 32) (thresholdOf : Nat → Int) (s : HashMap K V) (op : Op K V) :
    Decidable (s.Fits hash thresholdOf op) :=
  match op with
  | .put _ _ => inferInstanceAs (Decidable (_ ∨ _))
  | .putAll _ => inferInstanceAs (Decidable (_ ∨ _))
  | .remove _ | .clear | .get _ => .isTrue trivial

/-- One call. -/
theorem represents_step [Inhabited V] (h : Represents hash thresholdOf s m) (op : Op K V)
    (hfits : s.Fits hash thresholdOf op) :
    Represents hash thresholdOf ((machine hash thresholdOf).step s op).1
        (finmapMachine.step m op).1 ∧
      ((machine hash thresholdOf).step s op).2 = (finmapMachine.step m op).2 := by
  cases op with
  | put key value =>
    obtain ⟨hput, hresult, -⟩ := h.putImpl key value hfits
    exact ⟨hput, congrArg (Except.map Answer.old) hresult⟩
  | remove key =>
    obtain ⟨hremove, hresult⟩ := h.remove key
    refine ⟨hremove, (congrArg (Except.map Answer.value) hresult).trans ?_⟩
    show _ = (m.lookup key).elim _ _
    cases m.lookup key <;> rfl
  | putAll source =>
    obtain ⟨hput, hresult⟩ := h.putAll source hfits
    exact ⟨hput, congrArg (Except.map fun _ => Answer.done) hresult⟩
  | clear => exact ⟨h.clear, rfl⟩
  | get key =>
    refine ⟨h, ?_⟩
    show (s.get hash key).map Answer.value = (m.lookup key).elim _ _
    rw [get, h.lookup_eq]
    cases s.getEntry hash key <;> rfl

end ActivemqCpp.Decaf.HashMap

namespace ActivemqCpp.Decaf

open Base

/-- **Hash tables are finite maps.** For every hash function, every load factor and every
initial capacity, a run of calls in which no table of 2^30 chains is asked to grow is
answered call by call as by the finite map, and after it every question to the table
has the answer of the map. -/
theorem hashMap_refines_finmap {K V : Type} [DecidableEq K] [DecidableEq V] [Inhabited V]
    (hash : K → BitVec 32) (thresholdOf : Nat → Int) (capacity : Int) (hint : capacity < 2 ^ 31)
    {s : HashMap K V} (hnew : HashMap.new thresholdOf capacity = .ok s)
    (ops : List (HashMap.Op K V))
    (hfits : (HashMap.machine hash thresholdOf).Meets (HashMap.Fits hash thresholdOf) s ops) :
    (HashMap.machine hash thresholdOf).trace s ops = HashMap.finmapMachine.trace ∅ ops ∧
      HashMap.Observes hash ((HashMap.machine hash thresholdOf).run s ops)
        (HashMap.finmapMachine.run ∅ ops) := by
  obtain ⟨htrace, hrun⟩ := Machine.trace_eq_of_simulation
    (R := HashMap.Represents hash thresholdOf)
    (fun s m op h hfits => HashMap.represents_step h op hfits)
    (HashMap.represents_new hint hnew) hfits
  exact ⟨htrace, hrun.observes⟩

/-- Thirteen keys of one hash: the table of sixteen chains grows with the last one. -/
theorem hashMap_refines_thirteen :
    let machine := HashMap.machine (fun _ => 7) fun length => 3 * length / 4
    let ops := (List.range 13).map fun n => HashMap.Op.put n (n * n)
    let s := ⟨0, List.replicate 16 [], 0, 12⟩
    machine.trace s ops = HashMap.finmapMachine.trace ∅ ops ∧
      HashMap.Observes (fun _ => 7) (machine.run s ops) (HashMap.finmapMachine.run ∅ ops) :=
  hashMap_refines_finmap (fun _ => 7) (fun length => 3 * length / 4) 12 (by decide) rfl _
    (by decide)

/-- A table of 2^30 chains cannot grow: the doubled length is negative. -/
theorem rehash_largest {K V : Type} (thresholdOf : Nat → Int) (s : HashMap K V) :
    s.rehash thresholdOf (2 ^ 30) = .error .badAlloc := by
  have hnegative : (HashMap.calculateCapacity
      (BitVec.ofInt 32 (if (2 ^ 30) = 0 then 1 else 2 ^ 30 * 2))).toInt < 0 := by decide
  rw [HashMap.rehash]
  exact if_pos hnegative

/-- A table of 2^30 chains with a load factor so small that its threshold is 0: the
first `put` asks it to grow and throws. -/
theorem put_at_largest_table :
    ∃ s : HashMap Nat Nat, HashMap.new (fun _ => 0) (2 ^ 30) = .ok s ∧
      (HashMap.machine (fun _ => 0) fun _ => 0).trace s [.put 1 1] = [.error .badAlloc] ∧
      HashMap.finmapMachine.trace (∅ : Finmap fun _ : Nat => Nat) [.put 1 1] =
        [.ok (.old none)] := by
  refine ⟨⟨0, List.replicate (2 ^ 30) [], 0, 0⟩, ?_, ?_, by decide⟩
  · have hlength : (HashMap.calculateCapacity (BitVec.ofInt 32 (2 ^ 30))).toInt.toNat = 2 ^ 30 := by
      decide
    rw [HashMap.new, if_pos (by decide), hlength]
  · -- the table is too long to be evaluated
    have hnone : (⟨0, List.replicate (2 ^ 30) [], 0, 0⟩ : HashMap Nat Nat).getEntry
        (fun _ => 0) 1 = none := by
      rw [HashMap.getEntry, List.getElem?_replicate]
      split <;> rfl
    have hlength : ((HashMap.createHashedEntry (fun _ => 0)
        (⟨0, List.replicate (2 ^ 30) [], 0, 0⟩ : HashMap Nat Nat) 1).elementData.length : Int) =
          2 ^ 30 := by
      rw [HashMap.createHashedEntry, Buckets.length_push, List.length_replicate]
      rfl
    have hput : (HashMap.putImpl (fun _ => 0) (fun _ => 0)
        (⟨0, List.replicate (2 ^ 30) [], 0, 0⟩ : HashMap Nat Nat) 1 1).2 = .error .badAlloc := by
      rw [HashMap.putImpl, hnone]
      rw [if_pos (by decide), hlength, rehash_largest]
    have htrace : ∀ s : HashMap Nat Nat,
        (HashMap.putImpl (fun _ => 0) (fun _ => 0) s 1 1).2 = .error .badAlloc →
          (HashMap.machine (fun _ => 0) fun _ => 0).trace s [.put 1 1] = [.error .badAlloc] := by
      intro s hput
      show [Except.map HashMap.Answer.old (HashMap.putImpl _ _ s 1 1).2] = _
      rw [hput]
      rfl
    exact htrace _ hput

end ActivemqCpp.Decaf
