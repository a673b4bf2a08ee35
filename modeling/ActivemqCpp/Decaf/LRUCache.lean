import ActivemqCpp.Decaf.Lang

/-!
# `decaf::util::LRUCache`

A `LinkedHashMap` in access order that drops its eldest entry when an insertion
takes it over `maxCacheSize`. The entries are listed eldest first, which is the
order of the source's chain; the hash table below it is not visible here.
`lookup_put` and `fits_of_keys_subset` say what an insertion does while no entry has to
be dropped; `lookup_of_lookup_put` says what is left when one is. `putAll` drops none,
whatever the bound is (`entries_putAll`). Where a renaming of
the keys confuses the key of a call with no other, the call commutes with it
(`get_rename`, `put_rename`, `update_rename`).
-/

namespace ActivemqCpp.Decaf

open List

structure LRUCache (κ β : Type*) where
  entries : List (κ × β)
  maxCacheSize : Nat

namespace LRUCache

variable {κ β : Type*} [DecidableEq κ]

/-- `LRUCache()`. -/
def new : LRUCache κ β := ⟨[], 10000⟩

def keys (c : LRUCache κ β) : List κ := c.entries.map Prod.fst

/-- The value under a key, without touching the order. -/
def lookup (c : LRUCache κ β) (key : κ) : Option β :=
  (c.entries.find? fun e => e.1 = key).map Prod.snd

/-- The other entries, in their order. -/
def others (c : LRUCache κ β) (key : κ) : List (κ × β) := c.entries.filter fun e => e.1 ≠ key

/-- `get(key)`: an entry that is read moves to the tail of the chain. -/
def get (c : LRUCache κ β) (key : κ) : LRUCache κ β × Except Exn β :=
  match c.lookup key with
  | some v => ({ c with entries := c.others key ++ [(key, v)] }, .ok v)
  | none => (c, .error .noSuchElement)

/-- `put(key, value)`, then `removeEldestEntry`. -/
def put (c : LRUCache κ β) (key : κ) (value : β) : LRUCache κ β :=
  let entries := c.others key ++ [(key, value)]
  { c with entries := if entries.length > c.maxCacheSize then entries.tail else entries }

/-- What a write through the pointer stored under `key` leaves. -/
def update (c : LRUCache κ β) (key : κ) (value : β) : LRUCache κ β :=
  { c with entries := c.entries.map fun e => if e.1 = key then (key, value) else e }

/-- `putImpl(key, value)`, in which `removeEldestEntry` is not asked. -/
def putImpl (c : LRUCache κ β) (key : κ) (value : β) : LRUCache κ β :=
  { c with entries := c.others key ++ [(key, value)] }

/-- `putAll(map)`: `putImpl` for the entries of the map, in its order. -/
def putAll (c : LRUCache κ β) (map : List (κ × β)) : LRUCache κ β :=
  map.foldl (fun c e => c.putImpl e.1 e.2) c

def clear (c : LRUCache κ β) : LRUCache κ β := { c with entries := [] }

/-- `LRUCache(initialCapacity, maximumCacheSize, loadFactor, true)`. -/
def ofSize (maximumCacheSize : Int) : Except Exn (LRUCache κ β) :=
  if maximumCacheSize ≤ 0 then .error .illegalArgument else .ok ⟨[], maximumCacheSize.toNat⟩

def setMaxCacheSize (size : Int) (c : LRUCache κ β) : LRUCache κ β × Except Exn Unit :=
  if size ≤ 0 then (c, .error .illegalArgument) else ({ c with maxCacheSize := size.toNat }, .ok ())

/-- Moving or storing an entry at the tail: what is found under each key. -/
theorem find_others_append (c : LRUCache κ β) (key k : κ) (v : β) :
    (((c.others key ++ [(key, v)]).find? fun e => e.1 = k).map Prod.snd) =
      if k = key then some v else c.lookup k := by
  have hothers : k ≠ key → (c.others key).find? (fun e => e.1 = k) =
      c.entries.find? fun e => e.1 = k := by
    intro hne
    rw [others, find?_filter]
    congr 1
    funext e
    by_cases he : e.1 = k
    · simp [he, hne]
    · simp [he]
  rw [find?_append]
  by_cases h : k = key
  · have hnone : (c.others key).find? (fun e => e.1 = k) = none := by
      rw [find?_eq_none, h]
      intro e he
      simpa using (mem_filter.mp he).2
    rw [hnone]
    simp [h]
  · rw [hothers h, if_neg h, lookup]
    cases hfind : c.entries.find? (fun e => e.1 = k) with
    | none => simp [Ne.symm h]
    | some e => simp

theorem keys_others_append (c : LRUCache κ β) (key : κ) (v : β) :
    (c.others key ++ [(key, v)]).map Prod.fst = c.keys.filter (· ≠ key) ++ [key] := by
  simp [others, keys, filter_map, Function.comp_def]

variable {c : LRUCache κ β}

theorem nodup_keys_append (hc : c.keys.Nodup) (key : κ) :
    (c.keys.filter (· ≠ key) ++ [key]).Nodup := by
  refine (hc.filter _).append (nodup_singleton key) (disjoint_singleton.mpr ?_)
  simp

/-! ## Reading -/

variable {v : β} {key : κ}

theorem get_of_lookup (h : c.lookup key = some v) : c.get key = ((c.get key).1, .ok v) := by
  simp [get, h]

theorem get_of_lookup_none (h : c.lookup key = none) : c.get key = (c, .error .noSuchElement) := by
  simp [get, h]

@[simp] theorem maxCacheSize_get (c : LRUCache κ β) (key : κ) :
    (c.get key).1.maxCacheSize = c.maxCacheSize := by
  unfold get
  split <;> rfl

@[simp] theorem lookup_get (c : LRUCache κ β) (key k : κ) :
    (c.get key).1.lookup k = c.lookup k := by
  unfold get
  cases hv : c.lookup key with
  | none => rfl
  | some v =>
    rw [lookup, find_others_append]
    split
    · next h => rw [h, hv]
    · rfl

theorem nodup_keys_get (hc : c.keys.Nodup) (key : κ) : (c.get key).1.keys.Nodup := by
  unfold get
  cases c.lookup key with
  | none => exact hc
  | some v =>
    rw [keys, keys_others_append]
    exact nodup_keys_append hc key

theorem mem_keys_iff (c : LRUCache κ β) (k : κ) : k ∈ c.keys ↔ ∃ v, c.lookup k = some v := by
  simp only [keys, lookup, mem_map, Option.map_eq_some_iff]
  constructor
  · rintro ⟨e, he, rfl⟩
    have hsome : (c.entries.find? fun e' => e'.1 = e.1).isSome := by
      rw [find?_isSome]
      exact ⟨e, he, by simp⟩
    obtain ⟨e', he'⟩ := Option.isSome_iff_exists.mp hsome
    exact ⟨e'.2, e', he', rfl⟩
  · rintro ⟨v, e, he, -⟩
    exact ⟨e, mem_of_find?_eq_some he, by simpa using find?_some he⟩

/-! ## Storing -/

/-- The insertion takes the cache over its bound by no entry. -/
def Fits (c : LRUCache κ β) (key : κ) : Prop := (c.others key).length < c.maxCacheSize

theorem entries_put (h : c.Fits key) (v : β) :
    (c.put key v).entries = c.others key ++ [(key, v)] := by
  simp only [put, length_append, length_singleton]
  rw [if_neg]
  have : (c.others key).length < c.maxCacheSize := h
  omega

theorem lookup_put (h : c.Fits key) (v : β) (k : κ) :
    (c.put key v).lookup k = if k = key then some v else c.lookup k := by
  rw [lookup, entries_put h, find_others_append]

/-- Whether or not the eldest entry has to go. -/
theorem entries_put_sublist (c : LRUCache κ β) (key : κ) (v : β) :
    (c.put key v).entries.Sublist (c.others key ++ [(key, v)]) := by
  unfold put
  dsimp only
  split
  · exact tail_sublist _
  · exact Sublist.refl _

variable (hc : c.keys.Nodup)
include hc

theorem nodup_keys_put (key : κ) (v : β) : (c.put key v).keys.Nodup := by
  have hall := nodup_keys_append hc key
  rw [← keys_others_append c key v] at hall
  exact hall.sublist ((c.entries_put_sublist key v).map Prod.fst)

variable {k : κ}

theorem lookup_eq_some_of_mem (h : (k, v) ∈ c.entries) : c.lookup k = some v := by
  obtain ⟨w, hw⟩ := (mem_keys_iff c k).mp (mem_map.mpr ⟨(k, v), h, rfl⟩)
  obtain ⟨e, he, rfl⟩ := Option.map_eq_some_iff.mp hw
  have hkey : e.1 = k := by simpa using find?_some he
  have heq := inj_on_of_nodup_map hc (mem_of_find?_eq_some he) h hkey
  rw [hw, heq]

omit hc in
theorem mem_of_lookup (h : c.lookup k = some v) : (k, v) ∈ c.entries := by
  obtain ⟨e, he, rfl⟩ := Option.map_eq_some_iff.mp h
  have hkey : e.1 = k := by simpa using find?_some he
  have hmem := mem_of_find?_eq_some he
  rwa [← hkey]

/-- What an insertion leaves is the new entry and old ones. -/
theorem lookup_of_lookup_put {w : β}
    (h : (c.put key v).lookup k = some w) : k = key ∧ w = v ∨ c.lookup k = some w := by
  have hmem := (c.entries_put_sublist key v).subset (mem_of_lookup h)
  rcases mem_append.mp hmem with hold | hnew
  · exact .inr (lookup_eq_some_of_mem hc (mem_of_mem_filter hold))
  · obtain ⟨rfl, rfl⟩ := Prod.mk.inj (mem_singleton.mp hnew)
    exact .inl ⟨rfl, rfl⟩

/-- The entry just stored is not the eldest. -/
theorem lookup_put_self (hsize : 0 < c.maxCacheSize) (key : κ)
    (v : β) : (c.put key v).lookup key = some v := by
  apply lookup_eq_some_of_mem (nodup_keys_put hc key v)
  unfold put
  dsimp only
  split
  · next h =>
    rw [tail_append_of_ne_nil]
    · exact mem_append_right _ mem_cons_self
    · rintro hnil
      simp only [hnil, nil_append, length_singleton] at h
      omega
  · exact mem_append_right _ mem_cons_self

/-- Keys drawn from a list no longer than the bound never drop an entry. -/
theorem fits_of_keys_subset {all : List κ} (hsub : ∀ k ∈ c.keys, k ∈ all)
    (hkey : key ∈ all) (hall : all.length ≤ c.maxCacheSize) : c.Fits key := by
  have hnodup := nodup_keys_append hc key
  have hsubset : (c.keys.filter (· ≠ key) ++ [key]) ⊆ all := by
    intro k hk
    rcases mem_append.mp hk with h | h
    · exact hsub k (mem_of_mem_filter h)
    · rw [mem_singleton.mp h]
      exact hkey
  have hle := (subperm_of_subset hnodup hsubset).length_le
  have hlen : (c.others key).length = (c.keys.filter (· ≠ key)).length := by
    simp [others, keys, filter_map, Function.comp_def]
  simp only [length_append, length_singleton] at hle
  unfold Fits
  omega

omit hc

theorem others_of_notMem (h : key ∉ c.keys) : c.others key = c.entries := by
  refine filter_eq_self.mpr fun e he => ?_
  have hne : e.1 ≠ key := fun heq => h (heq ▸ mem_map_of_mem he)
  simpa using hne

/-- New entries with distinct keys go behind the tail in their order, however many. -/
theorem entries_putAll {map : List (κ × β)} (hmap : (map.map Prod.fst).Nodup)
    (hnew : ∀ k ∈ c.keys, k ∉ map.map Prod.fst) :
    (c.putAll map).entries = c.entries ++ map := by
  induction map generalizing c with
  | nil => exact (append_nil _).symm
  | cons e map ih =>
    obtain ⟨hnotin, hrest⟩ := nodup_cons.mp hmap
    have habsent : e.1 ∉ c.keys := fun hin => hnew _ hin mem_cons_self
    have hentries : (c.putImpl e.1 e.2).entries = c.entries ++ [e] := by
      rw [putImpl, others_of_notMem habsent]
    have hkeys : (c.putImpl e.1 e.2).keys = c.keys ++ [e.1] := by
      rw [keys, hentries, map_append]
      rfl
    have hstep := ih hrest fun k hk => by
      rw [hkeys] at hk
      rcases mem_append.mp hk with hold | hself
      · exact fun hin => hnew k hold (mem_cons_of_mem _ hin)
      · rw [mem_singleton.mp hself]
        exact hnotin
    refine hstep.trans ?_
    rw [hentries, append_assoc]
    rfl

/-! ## Writing through a stored pointer -/

theorem lookup_update (c : LRUCache κ β) (key : κ) (v : β) (k : κ) :
    (c.update key v).lookup k =
      if k = key then (c.lookup key).map fun _ => v else c.lookup k := by
  simp only [lookup, update]
  induction c.entries with
  | nil => simp
  | cons e es ih =>
    by_cases he : e.1 = key
    · by_cases hk : k = key
      · simp [he, hk]
      · simpa [he, hk, Ne.symm hk] using ih
    · by_cases hk : e.1 = k
      · have hkk : ¬ k = key := fun h => he (hk.trans h)
        simp [hk, hkk]
      · simpa [he, hk] using ih

@[simp] theorem keys_update (c : LRUCache κ β) (key : κ) (v : β) :
    (c.update key v).keys = c.keys := by
  simp only [keys, update, map_map]
  congr 1
  funext e
  by_cases h : e.1 = key <;> simp [h]

/-! ## Filing under other keys -/

section Rename

variable {ι : Type*} [DecidableEq ι] {f : κ → ι} {c : LRUCache κ β} {key : κ}

/-- The cache with every entry filed under the image of its key. -/
def rename (f : κ → ι) (c : LRUCache κ β) : LRUCache ι β :=
  ⟨c.entries.map fun e => (f e.1, e.2), c.maxCacheSize⟩

/-- No other key of the cache has the image of `key`. -/
def Separates (c : LRUCache κ β) (f : κ → ι) (key : κ) : Prop :=
  ∀ k ∈ c.keys, f k = f key → k = key

variable (h : c.Separates f key)
include h

omit [DecidableEq κ] [DecidableEq ι] in
theorem Separates.image_eq_iff {e : κ × β} (he : e ∈ c.entries) : f e.1 = f key ↔ e.1 = key :=
  ⟨h e.1 (mem_map_of_mem he), congrArg f⟩

theorem lookup_rename : (c.rename f).lookup (f key) = c.lookup key := by
  have hfind : ∀ entries : List (κ × β), (∀ e ∈ entries, e ∈ c.entries) →
      ((entries.map fun e => (f e.1, e.2)).find? fun e => e.1 = f key).map Prod.snd =
        (entries.find? fun e => e.1 = key).map Prod.snd := by
    intro entries hsub
    induction entries with
    | nil => rfl
    | cons e rest ih =>
      have hiff := h.image_eq_iff (hsub e mem_cons_self)
      by_cases heq : e.1 = key
      · simp [heq]
      · have hne : f e.1 ≠ f key := fun hf => heq (hiff.mp hf)
        rw [map_cons, find?_cons_of_neg (by simpa using hne),
          find?_cons_of_neg (by simpa using heq)]
        exact ih fun e he => hsub e (mem_cons_of_mem _ he)
  exact hfind c.entries fun _ he => he

theorem others_rename : (c.rename f).others (f key) = (c.others key).map fun e => (f e.1, e.2) := by
  rw [rename, others, filter_map]
  congr 1
  apply filter_congr
  intro e he
  simp [h.image_eq_iff he]

theorem get_rename : (c.rename f).get (f key) = ((c.get key).1.rename f, (c.get key).2) := by
  rw [get, get, lookup_rename h]
  cases c.lookup key with
  | none => rfl
  | some v =>
    simp only [others_rename h]
    simp [rename]

theorem put_rename (v : β) : (c.rename f).put (f key) v = (c.put key v).rename f := by
  have hentries : (c.rename f).others (f key) ++ [(f key, v)] =
      (c.others key ++ [(key, v)]).map fun e => (f e.1, e.2) := by
    rw [others_rename h, map_append]
    rfl
  rw [put, put, hentries]
  by_cases hsize : (c.others key ++ [(key, v)]).length > c.maxCacheSize
  · simp only [rename, length_map, if_pos hsize, map_tail]
  · simp only [rename, length_map, if_neg hsize]

theorem update_rename (v : β) : (c.rename f).update (f key) v = (c.update key v).rename f := by
  simp only [update, rename, LRUCache.mk.injEq, and_true, map_map]
  apply map_congr_left
  intro e he
  have hiff := h.image_eq_iff he
  by_cases heq : e.1 = key
  · simp [heq]
  · simp [heq, mt hiff.mp heq]

end Rename

theorem mem_keys_of_mem_keys_get (h : k ∈ (c.get key).1.keys) : k ∈ c.keys := by
  rw [mem_keys_iff, lookup_get] at h
  exact (mem_keys_iff c k).mpr h

theorem eq_or_mem_keys_of_mem_keys_put (h : k ∈ (c.put key v).keys) : k = key ∨ k ∈ c.keys := by
  obtain ⟨e, he, rfl⟩ := mem_map.mp h
  rcases mem_append.mp ((c.entries_put_sublist key v).subset he) with hold | hnew
  · exact .inr (mem_map_of_mem (mem_of_mem_filter hold))
  · exact .inl (by rw [mem_singleton.mp hnew])

end LRUCache

end ActivemqCpp.Decaf
