import Mathlib.Tactic

/-!
# `StlMap`

A `std::map` under its comparator: the entries in the order in which its iterator
visits them. Every operation finds the first entry whose key is not less than the
one asked for, as `lower_bound` does, so that a key is present when neither key is
less than the other.
-/

namespace ActivemqCpp.Decaf

open List Option

abbrev StlMap (κ ν : Type) := List (κ × ν)

namespace StlMap

variable {κ ν : Type} (less : κ → κ → Bool)

/-- `valueMap[key] = value`: the key of an entry that is present stays. -/
def put (key : κ) (value : ν) : StlMap κ ν → StlMap κ ν
  | [] => [(key, value)]
  | (k, v) :: rest =>
    if less k key then (k, v) :: put key value rest
    else if less key k then (key, value) :: (k, v) :: rest
    else (k, value) :: rest

/-- `valueMap.find(key)`. -/
def find (key : κ) : StlMap κ ν → Option ν
  | [] => none
  | (k, v) :: rest => if less k key then find key rest else if less key k then none else some v

/-- `valueMap.erase(valueMap.find(key))`. -/
def remove (key : κ) : StlMap κ ν → StlMap κ ν
  | [] => []
  | (k, v) :: rest =>
    if less k key then (k, v) :: remove key rest
    else if less key k then (k, v) :: rest else rest

/-- What a change to the object behind a found value does to the map. -/
def update (key : κ) (f : ν → ν) : StlMap κ ν → StlMap κ ν
  | [] => []
  | (k, v) :: rest =>
    if less k key then (k, v) :: update key f rest
    else if less key k then (k, v) :: rest else (k, f v) :: rest

variable {map : StlMap κ ν} {key : κ}

/-- A key greater than all others goes to the end. -/
theorem put_of_forall_less (value : ν)
    (h : ∀ e ∈ map, less e.1 key = true) : put less key value map = map ++ [(key, value)] := by
  induction map with
  | nil => rfl
  | cons e rest ih =>
    have hhead : less e.1 key = true := h e mem_cons_self
    have hrest := ih fun e' he' => h e' (mem_cons_of_mem e he')
    rw [put, if_pos hhead, hrest]
    rfl

/-! ## What needs no order -/

section Unordered

variable {less : κ → κ → Bool} {key : κ} {map : StlMap κ ν} {value : ν}

theorem mem_of_mem_put {e : κ × ν} (he : e ∈ put less key value map) : e.2 = value ∨ e ∈ map := by
  induction map with
  | nil => exact .inl (by rw [mem_singleton.mp he])
  | cons e' rest ih =>
    rw [put] at he
    split at he
    · rcases mem_cons.mp he with rfl | he
      · exact .inr mem_cons_self
      · exact (ih he).imp_right (mem_cons_of_mem _)
    · split at he
      · rcases mem_cons.mp he with rfl | he
        · exact .inl rfl
        · exact .inr he
      · rcases mem_cons.mp he with rfl | he
        · exact .inl rfl
        · exact .inr (mem_cons_of_mem _ he)

theorem mem_of_find (h : find less key map = some value) : ∃ k, (k, value) ∈ map := by
  induction map with
  | nil => cases h
  | cons e rest ih =>
    rw [find] at h
    split at h
    · obtain ⟨k, hk⟩ := ih h
      exact ⟨k, mem_cons_of_mem _ hk⟩
    · split at h
      · cases h
      · obtain rfl := some.inj h
        exact ⟨e.1, mem_cons_self⟩

theorem remove_sublist : (remove less key map).Sublist map := by
  induction map with
  | nil => exact Sublist.slnil
  | cons e rest ih =>
    rw [remove]
    split
    · exact ih.cons_cons e
    · split
      · exact Sublist.refl _
      · exact sublist_cons_self e rest

/-- A change of values changes one value at most, that of the entry found. -/
theorem mem_of_mem_update {f : ν → ν} {e : κ × ν} (he : e ∈ update less key f map) :
    e ∈ map ∨ ∃ v, find less key map = some v ∧ (e.1, v) ∈ map ∧ e.2 = f v := by
  induction map with
  | nil => cases he
  | cons e' rest ih =>
    rw [update] at he
    rw [find]
    split at he
    · rename_i hlt
      rw [if_pos hlt]
      rcases mem_cons.mp he with rfl | he
      · exact .inl mem_cons_self
      · rcases ih he with hin | ⟨v, hfind, hin, heq⟩
        · exact .inl (mem_cons_of_mem _ hin)
        · exact .inr ⟨v, hfind, mem_cons_of_mem _ hin, heq⟩
    · rename_i hnot
      rw [if_neg hnot]
      split at he
      · exact .inl he
      · rename_i hnot'
        rw [if_neg hnot']
        rcases mem_cons.mp he with rfl | he
        · exact .inr ⟨e'.2, rfl, mem_cons_self, rfl⟩
        · exact .inl (mem_cons_of_mem _ he)

theorem exists_mem_update {f : ν → ν} (h : find less key map = some value) :
    ∃ k, (k, f value) ∈ update less key f map := by
  induction map with
  | nil => cases h
  | cons e rest ih =>
    rw [find] at h
    rw [update]
    split at h
    · rename_i hlt
      obtain ⟨k, hk⟩ := ih h
      rw [if_pos hlt]
      exact ⟨k, mem_cons_of_mem _ hk⟩
    · rename_i hge
      split at h
      · cases h
      · rename_i hle
        obtain rfl := some.inj h
        rw [if_neg hge, if_neg hle]
        exact ⟨e.1, mem_cons_self⟩

theorem find_put_self (hirrefl : less key key = false) :
    find less key (put less key value map) = some value := by
  have hnot : ¬ less key key = true := by simp [hirrefl]
  induction map with
  | nil => rw [put, find, if_neg hnot, if_neg hnot]
  | cons e rest ih =>
    rw [put]
    split
    · rename_i hlt
      rw [find, if_pos hlt, ih]
    · rename_i hge
      split
      · rw [find, if_neg hnot, if_neg hnot]
      · rename_i hle
        rw [find, if_neg hge, if_neg hle]

/-- A value that replaces another is seen exactly where the other was. -/
theorem find_put_of_find {old : ν} (h : find less key map = some old) (k : κ) :
    find less k (put less key value map) = find less k map ∨
      find less k (put less key value map) = some value ∧ find less k map = some old := by
  induction map with
  | nil => cases h
  | cons e rest ih =>
    rw [find] at h
    rw [put]
    split at h
    next hless =>
      rw [if_pos hless, find, find]
      by_cases hk : less e.1 k = true
      · rw [if_pos hk, if_pos hk]
        exact ih h
      · rw [if_neg hk, if_neg hk]
        exact .inl rfl
    next hless =>
      split at h
      next => cases h
      next hgreater =>
        obtain rfl := some.inj h
        rw [if_neg hless, if_neg hgreater, find, find]
        by_cases hk : less e.1 k = true
        · rw [if_pos hk, if_pos hk]
          exact .inl rfl
        · by_cases hk' : less k e.1 = true
          · simp [if_pos hk']
          · rw [if_neg hk, if_neg hk, if_neg hk', if_neg hk']
            exact .inr ⟨rfl, rfl⟩

theorem put_put {value' : ν} (hirrefl : less key key = false) :
    put less key value' (put less key value map) = put less key value' map := by
  have hnot : ¬ less key key = true := by simp [hirrefl]
  induction map with
  | nil => simp [put, hirrefl]
  | cons e rest ih =>
    rw [put, put.eq_2 less key value']
    split
    · rename_i hlt
      rw [put, if_pos hlt, ih]
    · rename_i hge
      split
      · rw [put, if_neg hnot, if_neg hnot]
      · rename_i hle
        rw [put, if_neg hge, if_neg hle]

/-- A change to the value just stored. -/
theorem update_put {f : ν → ν} (hirrefl : less key key = false) :
    update less key f (put less key value map) = put less key (f value) map := by
  have hnot : ¬ less key key = true := by simp [hirrefl]
  induction map with
  | nil => rw [put, update, if_neg hnot, if_neg hnot, put]
  | cons e rest ih =>
    rw [put, put]
    split
    · rename_i hlt
      rw [update, if_pos hlt, ih]
    · rename_i hge
      split
      · rw [update, if_neg hnot, if_neg hnot]
      · rename_i hle
        rw [update, if_neg hge, if_neg hle]

/-- A change to the value found. -/
theorem find_update_self {f : ν → ν} :
    find less key (update less key f map) = (find less key map).map f := by
  induction map with
  | nil => rfl
  | cons e rest ih =>
    rw [update, find]
    split
    · rename_i hlt
      rw [find, if_pos hlt, ih]
    · rename_i hge
      split
      · rename_i hlt
        rw [find, if_neg hge, if_pos hlt]
        rfl
      · rename_i hle
        rw [find, if_neg hge, if_neg hle]
        rfl

/-- A change to all values. -/
theorem find_map_values {μ : Type} (g : ν → μ) :
    find less key (map.map fun e => (e.1, g e.2)) = (find less key map).map g := by
  induction map with
  | nil => rfl
  | cons e rest ih =>
    rw [map_cons, find, find, ih]
    split
    · rfl
    · split <;> rfl

variable {α : Type} {g : ν → α}

/-- What a change of values leaves alone is read off the map as before. -/
theorem map_values_update {f : ν → ν} (h : ∀ v, g (f v) = g v) :
    (update less key f map).map (fun e => (e.1, g e.2)) = map.map fun e => (e.1, g e.2) := by
  induction map with
  | nil => rfl
  | cons e rest ih =>
    rw [update]
    split
    · rw [map_cons, ih, map_cons]
    · split
      · rfl
      · rw [map_cons, map_cons, h]

theorem map_update {f : ν → ν} (h : ∀ v, g (f v) = g v) :
    (update less key f map).map (fun e => g e.2) = map.map fun e => g e.2 := by
  have hpairs := congrArg (List.map Prod.snd) (@map_values_update κ ν less key map α g f h)
  rwa [List.map_map, List.map_map] at hpairs

theorem map_find_update {f : ν → ν} (h : ∀ v, g (f v) = g v) (k : κ) :
    (find less k (update less key f map)).map g = (find less k map).map g := by
  rw [← find_map_values, map_values_update h, find_map_values]

/-- A change of values moves no key. -/
theorem find_update_eq_none {f : ν → ν} {k : κ} :
    find less k (update less key f map) = none ↔ find less k map = none := by
  have hfind := @map_find_update κ ν less key map Unit (fun _ => ()) f (fun _ => rfl) k
  rw [← map_eq_none_iff, hfind, map_eq_none_iff]

/-- Values told apart by `g` stay so when a value is stored that differs from all. -/
theorem nodup_map_put (hnodup : (map.map fun e => g e.2).Nodup)
    (hnew : ∀ e ∈ map, g e.2 ≠ g value) : ((put less key value map).map fun e => g e.2).Nodup := by
  induction map with
  | nil => exact nodup_singleton _
  | cons e rest ih =>
    rw [map_cons, nodup_cons] at hnodup
    have hrest : g value ∉ rest.map fun e => g e.2 := by
      intro hin
      obtain ⟨e', he', heq⟩ := mem_map.mp hin
      exact hnew e' (mem_cons_of_mem _ he') heq
    rw [put]
    split
    · rw [map_cons, nodup_cons]
      refine ⟨?_, ih hnodup.2 fun e' he' => hnew e' (mem_cons_of_mem _ he')⟩
      intro hin
      obtain ⟨e', he', heq⟩ := mem_map.mp hin
      rcases mem_of_mem_put he' with hval | hold
      · rw [hval] at heq
        exact hnew e mem_cons_self heq.symm
      · exact hnodup.1 (mem_map.mpr ⟨e', hold, heq⟩)
    · split
      · rw [map_cons, map_cons, nodup_cons, nodup_cons]
        refine ⟨?_, hnodup⟩
        intro hin
        rcases mem_cons.mp hin with heq | hin
        · exact hnew e mem_cons_self heq.symm
        · exact hrest hin
      · rw [map_cons, nodup_cons]
        exact ⟨hrest, hnodup.2⟩

end Unordered

/-! ## Maps whose keys are ordered

A comparator need not order every pair of keys; the laws below hold among keys that it
does order. -/

/-- The comparator is a strict total order on the keys in `K`. -/
structure OrderedOn (K : κ → Prop) : Prop where
  irrefl : ∀ {a}, K a → less a a = false
  trans : ∀ {a b c}, K a → K b → K c → less a b = true → less b c = true → less a c = true
  total : ∀ {a b}, K a → K b → a ≠ b → less a b = true ∨ less b a = true

/-- The keys are of `K` and strictly increasing. -/
structure Wf (K : κ → Prop) (map : StlMap κ ν) : Prop where
  keys : ∀ e ∈ map, K e.1
  sorted : map.Pairwise fun a b => less a.1 b.1 = true

variable {less} {K : κ → Prop}

theorem OrderedOn.asymm (h : OrderedOn less K) {a b : κ} (ha : K a) (hb : K b)
    (hab : less a b = true) : less b a = false := by
  by_contra hba
  have hself := h.trans ha hb ha hab (by simpa using hba)
  rw [h.irrefl ha] at hself
  cases hself

theorem OrderedOn.ne (h : OrderedOn less K) {a b : κ} (ha : K a) (hab : less a b = true) :
    a ≠ b := by
  intro heq
  rw [heq] at hab ha
  rw [h.irrefl ha] at hab
  cases hab

/-- Keys compared by a value that tells them apart. -/
theorem orderedOn_of_key {α : Type} [LinearOrder α] (f : κ → α)
    (hless : ∀ a b, K a → K b → less a b = decide (f a < f b))
    (hinj : ∀ a b, K a → K b → f a = f b → a = b) : OrderedOn less K := by
  constructor
  · intro a ha
    rw [hless a a ha ha]
    exact decide_eq_false (lt_irrefl _)
  · intro a b c ha hb hc hab hbc
    rw [hless a b ha hb, decide_eq_true_iff] at hab
    rw [hless b c hb hc, decide_eq_true_iff] at hbc
    rw [hless a c ha hc, decide_eq_true_iff]
    exact hab.trans hbc
  · intro a b ha hb hne
    rw [hless a b ha hb, hless b a hb ha, decide_eq_true_iff, decide_eq_true_iff]
    exact lt_or_gt_of_ne fun heq => hne (hinj a b ha hb heq)

/-- How a key stands to the first key of a map. -/
theorem OrderedOn.cases (h : OrderedOn less K) {a b : κ} (ha : K a) (hb : K b) :
    less a b = true ∨ (less a b = false ∧ less b a = true) ∨ a = b := by
  by_cases heq : a = b
  · exact Or.inr (Or.inr heq)
  · rcases h.total ha hb heq with hlt | hlt
    · exact Or.inl hlt
    · exact Or.inr (Or.inl ⟨h.asymm hb ha hlt, hlt⟩)

variable {e : κ × ν}

theorem Wf.tail (h : Wf less K (e :: map)) : Wf less K map :=
  ⟨fun e' he' => h.keys e' (mem_cons_of_mem _ he'), (pairwise_cons.mp h.sorted).2⟩

theorem wf_nil : Wf less K ([] : StlMap κ ν) := ⟨by simp, Pairwise.nil⟩

/-- Every other key is greater than the first. -/
theorem Wf.head_less (h : Wf less K (e :: map)) : ∀ e' ∈ map, less e.1 e'.1 = true :=
  (pairwise_cons.mp h.sorted).1

/-- Where a key stands in a map, and what the operations do there. -/
structure Located (less : κ → κ → Bool) (key : κ) (map : StlMap κ ν) where
  below : StlMap κ ν
  here : Option ν
  above : StlMap κ ν
  eq : map = below ++ (here.map (key, ·)).toList ++ above
  below_less : ∀ e ∈ below, less e.1 key = true
  less_above : ∀ e ∈ above, less key e.1 = true
  put_eq : ∀ value, put less key value map = below ++ (key, value) :: above
  find_eq : find less key map = here
  remove_eq : remove less key map = below ++ above
  update_eq : ∀ f, update less key f map = below ++ (here.map fun v => (key, f v)).toList ++ above

/-- Among ordered keys every key has its place. The induction passes over the smaller
keys; the first that is not smaller decides. -/
theorem located (h : OrderedOn less K) (hmap : Wf less K map)
    (hkey : K key) : Nonempty (Located less key map) := by
  induction map with
  | nil => exact ⟨[], none, [], rfl, by simp, by simp, fun _ => rfl, rfl, rfl, fun _ => rfl⟩
  | cons e rest ih =>
    obtain ⟨k, v⟩ := e
    have hk : K k := hmap.keys (k, v) mem_cons_self
    rcases h.cases hk hkey with hlt | ⟨hge, hlt⟩ | heq
    · obtain ⟨below, here, above, heq, hbelow, habove, hput, hfind, hremove, hupdate⟩ :=
        ih hmap.tail
      refine ⟨(k, v) :: below, here, above, by rw [heq]; rfl, ?_, habove, ?_, ?_, ?_, ?_⟩
      · exact forall_mem_cons.mpr ⟨hlt, hbelow⟩
      · intro value
        rw [put, if_pos hlt, hput]
        rfl
      · rw [find, if_pos hlt, hfind]
      · rw [remove, if_pos hlt, hremove]
        rfl
      · intro f
        rw [update, if_pos hlt, hupdate]
        rfl
    · have hnot : ¬ less k key = true := by simp [hge]
      refine ⟨[], none, (k, v) :: rest, rfl, by simp, ?_, ?_, ?_, ?_, ?_⟩
      · refine forall_mem_cons.mpr ⟨hlt, ?_⟩
        intro e he
        exact h.trans hkey hk (hmap.keys e (mem_cons_of_mem _ he)) hlt (hmap.head_less e he)
      · intro value
        rw [put, if_neg hnot, if_pos hlt]
        rfl
      · rw [find, if_neg hnot, if_pos hlt]
      · rw [remove, if_neg hnot, if_pos hlt]
        rfl
      · intro f
        rw [update, if_neg hnot, if_pos hlt]
        rfl
    · subst heq
      have hnot : ¬ less k k = true := by simp [h.irrefl hk]
      refine ⟨[], some v, rest, rfl, by simp, hmap.head_less, ?_, ?_, ?_, ?_⟩
      · intro value
        rw [put, if_neg hnot, if_neg hnot]
        rfl
      · rw [find, if_neg hnot, if_neg hnot]
      · rw [remove, if_neg hnot, if_neg hnot]
        rfl
      · intro f
        rw [update, if_neg hnot, if_neg hnot]
        rfl

theorem Located.mem_iff (l : Located less key map) :
    e ∈ map ↔ (e ∈ l.below ∨ e ∈ l.above) ∨ l.here.map (key, ·) = some e := by
  have hin : e ∈ map ↔ e ∈ l.below ++ (l.here.map (key, ·)).toList ++ l.above := by
    rw [← l.eq]
  rw [hin, mem_append, mem_append, mem_toList]
  tauto

section Laws

variable (h : OrderedOn less K) {map : StlMap κ ν} (hmap : Wf less K map) {key : κ}
  (hkey : K key)
include h hmap hkey

variable (l : Located less key map)

/-- Only the entry of the key has the key. -/
theorem Located.ne_key : (∀ e ∈ l.below, e.1 ≠ key) ∧ ∀ e ∈ l.above, e.1 ≠ key := by
  constructor
  · intro e he
    exact h.ne (hmap.keys e (by rw [l.eq]; simp [he])) (l.below_less e he)
  · intro e he heq
    exact h.ne hkey (l.less_above e he) heq.symm

variable {e : κ × ν}

theorem Located.mem_other_iff : (e ∈ l.below ∨ e ∈ l.above) ↔ e ∈ map ∧ e.1 ≠ key := by
  obtain ⟨hbelow, habove⟩ := l.ne_key h hmap hkey
  constructor
  · rintro (he | he)
    · exact ⟨(l.mem_iff).mpr (.inl (.inl he)), hbelow e he⟩
    · exact ⟨(l.mem_iff).mpr (.inl (.inr he)), habove e he⟩
  · intro ⟨he, hne⟩
    rcases (l.mem_iff).mp he with hother | hhere
    · exact hother
    · obtain ⟨v, -, rfl⟩ := map_eq_some_iff.mp hhere
      exact absurd rfl hne

theorem find_eq_some_iff {value : ν} : find less key map = some value ↔ (key, value) ∈ map := by
  obtain ⟨l⟩ := located h hmap hkey
  have hother : ¬ ((key, value) ∈ l.below ∨ (key, value) ∈ l.above) := by
    rw [l.mem_other_iff h hmap hkey]
    exact fun hin => hin.2 rfl
  rw [l.find_eq, l.mem_iff, or_iff_right hother]
  cases l.here <;> simp

theorem mem_put {value : ν} :
    e ∈ put less key value map ↔ e = (key, value) ∨ (e ∈ map ∧ e.1 ≠ key) := by
  obtain ⟨l⟩ := located h hmap hkey
  rw [l.put_eq, mem_append, mem_cons, ← l.mem_other_iff h hmap hkey]
  tauto

theorem mem_remove : e ∈ remove less key map ↔ e ∈ map ∧ e.1 ≠ key := by
  obtain ⟨l⟩ := located h hmap hkey
  rw [l.remove_eq, mem_append, l.mem_other_iff h hmap hkey]

theorem mem_update {f : ν → ν} :
    e ∈ update less key f map ↔
      (∃ v, (key, v) ∈ map ∧ e = (key, f v)) ∨ (e ∈ map ∧ e.1 ≠ key) := by
  obtain ⟨l⟩ := located h hmap hkey
  have hhere : (∃ v, (key, v) ∈ map ∧ e = (key, f v)) ↔
      l.here.map (fun v => (key, f v)) = some e := by
    simp [← find_eq_some_iff h hmap hkey, l.find_eq, map_eq_some_iff, eq_comm (a := e)]
  rw [l.update_eq, hhere, ← l.mem_other_iff h hmap hkey, mem_append, mem_append, mem_toList]
  tauto

omit h in
/-- The entries around a key stay in order whatever stands at the key. -/
theorem Located.wf_around (here : Option ν) :
    Wf less K (l.below ++ (here.map (key, ·)).toList ++ l.above) := by
  have hothers : (l.below ++ l.above).Sublist map := by
    have hsub : (l.below ++ l.above).Sublist
        (l.below ++ (l.here.map (key, ·)).toList ++ l.above) :=
      (sublist_append_left _ _).append_right _
    rwa [← l.eq] at hsub
  obtain ⟨hbelow, habove, hcross⟩ := pairwise_append.mp (hmap.sorted.sublist hothers)
  constructor
  · intro e he
    rw [mem_append, mem_append, mem_toList, map_eq_some_iff] at he
    rcases he with (he | ⟨v, -, rfl⟩) | he
    · exact hmap.keys e (hothers.subset (mem_append_left _ he))
    · exact hkey
    · exact hmap.keys e (hothers.subset (mem_append_right _ he))
  · cases here with
    | none =>
      rw [map_none, toList_none, append_nil]
      exact hmap.sorted.sublist hothers
    | some v =>
      rw [map_some, append_assoc, pairwise_append]
      refine ⟨hbelow, pairwise_cons.mpr ⟨l.less_above, habove⟩, ?_⟩
      intro a ha b hb
      rcases mem_cons.mp hb with rfl | hb
      · exact l.below_less a ha
      · exact hcross a ha b hb

theorem wf_put (value : ν) : Wf less K (put less key value map) := by
  obtain ⟨l⟩ := located h hmap hkey
  have hwf := l.wf_around hmap hkey (some value)
  rwa [map_some, toList_some, append_assoc, singleton_append, ← l.put_eq] at hwf

omit hmap hkey in
/-- The set of a list, in order. -/
theorem wf_foldl_put {keys : List κ} (hkeys : ∀ key ∈ keys, K key) {set : StlMap κ Unit}
    (hset : Wf less K set) :
    let set' := keys.foldl (fun set key => put less key () set) set
    Wf less K set' ∧ ∀ key, (key, ()) ∈ set' ↔ (key, ()) ∈ set ∨ key ∈ keys := by
  induction keys generalizing set with
  | nil => exact ⟨hset, by simp⟩
  | cons first keys ih =>
    obtain ⟨hfirst, hrest⟩ := forall_mem_cons.mp hkeys
    obtain ⟨hwf, hmem⟩ := ih hrest (wf_put h hset hfirst ())
    refine ⟨hwf, fun key => (hmem key).trans ?_⟩
    rw [mem_put h hset hfirst]
    by_cases heq : key = first <;> simp [heq]

theorem find_put_of_ne {k : κ} (hk : K k) (hne : k ≠ key) (value : ν) :
    find less k (put less key value map) = find less k map := by
  have hput := wf_put h hmap hkey value
  ext v
  rw [find_eq_some_iff h hput hk, find_eq_some_iff h hmap hk, mem_put h hmap hkey]
  simp [hne]

theorem wf_remove : Wf less K (remove less key map) := by
  obtain ⟨l⟩ := located h hmap hkey
  have hwf := l.wf_around hmap hkey none
  rwa [Option.map_none, Option.toList_none, append_nil, ← l.remove_eq] at hwf

theorem wf_update (f : ν → ν) : Wf less K (update less key f map) := by
  obtain ⟨l⟩ := located h hmap hkey
  have hwf := l.wf_around hmap hkey (l.here.map f)
  rw [l.update_eq]
  rwa [Option.map_map] at hwf

end Laws

/-- The keys of a well-formed map are distinct. -/
theorem Wf.nodup_keys (h : OrderedOn less K) (hmap : Wf less K map) : (map.map Prod.fst).Nodup := by
  rw [nodup_iff_pairwise_ne, pairwise_map]
  refine hmap.sorted.imp_of_mem ?_
  intro a b ha _ hlt
  exact h.ne (hmap.keys a ha) hlt

/-- A key has one value. -/
theorem Wf.value_unique (h : OrderedOn less K) (hmap : Wf less K map) {v v' : ν}
    (hv : (key, v) ∈ map) (hv' : (key, v') ∈ map) : v = v' := by
  have hkey : K key := hmap.keys _ hv
  have hfind := (find_eq_some_iff h hmap hkey).mpr hv
  rw [(find_eq_some_iff h hmap hkey).mpr hv'] at hfind
  exact (some.inj hfind).symm

/-! ## Maps of containers

Every value contains items, and an item tells the key under which it is found. -/

section Items

variable {β : Type} {items : ν → List β} {owner : β → Option κ} {x : β}

/-- All items of the map, in its order. -/
def allItems (items : ν → List β) (map : StlMap κ ν) : List β := map.flatMap fun e => items e.2

/-- The items of an entry are owned by its key. -/
def Owned (items : ν → List β) (owner : β → Option κ) (map : StlMap κ ν) : Prop :=
  ∀ e ∈ map, ∀ x ∈ items e.2, owner x = some e.1

theorem mem_allItems {map : StlMap κ ν} :
    x ∈ allItems items map ↔ ∃ e ∈ map, x ∈ items e.2 := mem_flatMap

variable (h : OrderedOn less K) {map : StlMap κ ν} (hmap : Wf less K map)
  (howned : Owned items owner map) {key : κ} (hkey : K key)
include h hmap hkey

/-- A value stored under a new key adds its items. -/
theorem mem_allItems_put {value : ν} (hnew : ∀ v, (key, v) ∉ map) :
    x ∈ allItems items (put less key value map) ↔ x ∈ items value ∨ x ∈ allItems items map := by
  rw [mem_allItems, mem_allItems]
  constructor
  · intro ⟨e, he, hx⟩
    rcases (mem_put h hmap hkey).mp he with rfl | ⟨hin, -⟩
    · exact .inl hx
    · exact .inr ⟨e, hin, hx⟩
  · rintro (hx | ⟨e, he, hx⟩)
    · exact ⟨(key, value), (mem_put h hmap hkey).mpr (.inl rfl), hx⟩
    · refine ⟨e, (mem_put h hmap hkey).mpr (.inr ⟨he, ?_⟩), hx⟩
      rintro rfl
      exact hnew e.2 he

include howned

/-- A key that is removed takes its items along. -/
theorem mem_allItems_remove :
    x ∈ allItems items (remove less key map) ↔ x ∈ allItems items map ∧ owner x ≠ some key := by
  rw [mem_allItems, mem_allItems]
  constructor
  · intro ⟨e, he, hx⟩
    obtain ⟨hin, hne⟩ := (mem_remove h hmap hkey).mp he
    refine ⟨⟨e, hin, hx⟩, ?_⟩
    rw [howned e hin x hx]
    exact fun heq => hne (some.inj heq)
  · intro ⟨⟨e, he, hx⟩, hne⟩
    refine ⟨e, (mem_remove h hmap hkey).mpr ⟨he, ?_⟩, hx⟩
    rintro rfl
    exact hne (howned e he x hx)

/-- A change to one value that adds the items `G` and keeps the items `H` does the same
to the map. -/
theorem mem_allItems_update {f : ν → ν} {v : ν} (hin : (key, v) ∈ map) {G H : β → Prop}
    (hmem : ∀ x, x ∈ items (f v) ↔ G x ∨ (x ∈ items v ∧ H x))
    (hH : ∀ x, ¬ H x → owner x = some key) :
    x ∈ allItems items (update less key f map) ↔ G x ∨ (x ∈ allItems items map ∧ H x) := by
  rw [mem_allItems, mem_allItems]
  constructor
  · intro ⟨e, he, hx⟩
    rcases (mem_update h hmap hkey).mp he with ⟨v', hv', rfl⟩ | ⟨he, hne⟩
    · obtain rfl := hmap.value_unique h hin hv'
      exact ((hmem x).mp hx).imp_right fun ⟨hx, hHx⟩ => ⟨⟨(key, v), hin, hx⟩, hHx⟩
    · refine .inr ⟨⟨e, he, hx⟩, ?_⟩
      by_contra hno
      exact hne (some.inj ((howned e he x hx).symm.trans (hH x hno)))
  · have hhere : x ∈ items (f v) → ∃ e ∈ update less key f map, x ∈ items e.2 := fun hx =>
      ⟨(key, f v), (mem_update h hmap hkey).mpr (.inl ⟨v, hin, rfl⟩), hx⟩
    rintro (hG | ⟨⟨e, he, hx⟩, hHx⟩)
    · exact hhere ((hmem x).mpr (.inl hG))
    · by_cases hek : e.1 = key
      · subst hek
        obtain rfl := hmap.value_unique h hin he
        exact hhere ((hmem x).mpr (.inr ⟨hx, hHx⟩))
      · exact ⟨e, (mem_update h hmap hkey).mpr (.inr ⟨he, hek⟩), hx⟩

omit hkey in
theorem nodup_allItems (hnodup : ∀ e ∈ map, (items e.2).Nodup) : (allItems items map).Nodup := by
  rw [allItems, nodup_flatMap]
  refine ⟨hnodup, hmap.sorted.imp_of_mem ?_⟩
  intro a b ha hb hlt x hxa hxb
  refine h.ne (hmap.keys a ha) hlt (some.inj ?_)
  rw [← howned a ha x hxa, howned b hb x hxb]

end Items

end StlMap

end ActivemqCpp.Decaf
