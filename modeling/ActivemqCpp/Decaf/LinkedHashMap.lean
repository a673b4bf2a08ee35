import Mathlib.Tactic

/-!
# `decaf::util::LinkedHashMap`

The map in insertion order, eldest entry first. A key that is stored again keeps its
place; after every `put` the map asks once whether the eldest entry is to go.
-/

namespace ActivemqCpp.Decaf

open List

abbrev LinkedHashMap (κ ν : Type) := List (κ × ν)

namespace LinkedHashMap

variable {κ ν : Type} [DecidableEq κ]

/-- `putImpl`. -/
def put (key : κ) (value : ν) : LinkedHashMap κ ν → LinkedHashMap κ ν
  | [] => [(key, value)]
  | (k, v) :: rest => if key = k then (k, value) :: rest else (k, v) :: put key value rest

/-- `get`, where a missing key is told by `none`. -/
def get (key : κ) : LinkedHashMap κ ν → Option ν
  | [] => none
  | (k, v) :: rest => if key = k then some v else get key rest

/-- `remove`; a missing key changes nothing. -/
def remove (key : κ) : LinkedHashMap κ ν → LinkedHashMap κ ν
  | [] => []
  | (k, v) :: rest => if key = k then rest else (k, v) :: remove key rest

def keys (map : LinkedHashMap κ ν) : List κ := map.map Prod.fst

def values (map : LinkedHashMap κ ν) : List ν := map.map Prod.snd

variable {key : κ} {map : LinkedHashMap κ ν}

theorem get_put_self (value : ν) : get key (put key value map) = some value := by
  induction map with
  | nil => simp [put, get]
  | cons e rest ih =>
    rw [put]
    split
    · next h => rw [get, if_pos h]
    · next h => rw [get, if_neg h, ih]

theorem put_put (value value' : ν) : put key value' (put key value map) = put key value' map := by
  induction map with
  | nil => simp [put]
  | cons e rest ih =>
    rw [put, put]
    split
    · next h => rw [put, if_pos h]
    · next h => rw [put, if_neg h, ih]

variable {value : ν} {k : κ}

theorem mem_values_of_get (h : get key map = some value) : value ∈ map.values := by
  induction map with
  | nil => cases h
  | cons e rest ih =>
    rw [get] at h
    split at h
    · cases h
      exact mem_cons_self
    · exact mem_cons_of_mem _ (ih h)

theorem mem_values_put {v : ν} (h : v ∈ values (put key value map)) :
    v = value ∨ v ∈ map.values := by
  induction map with
  | nil => exact .inl (mem_singleton.mp h)
  | cons e rest ih =>
    rw [put] at h
    split at h
    · exact (mem_cons.mp h).imp_right (mem_cons_of_mem _)
    · rcases mem_cons.mp h with rfl | h
      · exact .inr mem_cons_self
      · exact (ih h).imp_right (mem_cons_of_mem _)

theorem get_put_of_ne (hne : k ≠ key) (value : ν) : get k (put key value map) = get k map := by
  induction map with
  | nil => simp [put, get, hne]
  | cons e rest ih =>
    rw [put]
    split
    · next h =>
      rw [get, if_neg (h ▸ hne)]
      exact (if_neg (h ▸ hne)).symm
    · rw [get, get, ih]

theorem get_remove_of_ne (hne : k ≠ key) : get k (remove key map) = get k map := by
  induction map with
  | nil => rfl
  | cons e rest ih =>
    rw [remove]
    split
    · next h => rw [get, if_neg (h ▸ hne)]
    · rw [get, get, ih]

theorem get_eq_none (h : key ∉ map.keys) : get key map = none := by
  induction map with
  | nil => rfl
  | cons e rest ih =>
    rw [keys, map_cons, mem_cons, not_or] at h
    rw [get, if_neg h.1, ih h.2]

theorem get_remove_self (h : map.keys.Nodup) : get key (remove key map) = none := by
  induction map with
  | nil => rfl
  | cons e rest ih =>
    rw [keys, map_cons, nodup_cons] at h
    rw [remove]
    split
    · next heq => exact get_eq_none (heq ▸ h.1)
    · next hne => rw [get, if_neg hne, ih h.2]

theorem mem_keys_put (h : k ∈ keys (put key value map)) : k = key ∨ k ∈ map.keys := by
  induction map with
  | nil => exact .inl (mem_singleton.mp h)
  | cons e rest ih =>
    rw [put] at h
    split at h
    · exact .inr h
    · rcases mem_cons.mp h with rfl | h
      · exact .inr mem_cons_self
      · exact (ih h).imp_right (mem_cons_of_mem _)

theorem nodup_keys_put (h : map.keys.Nodup) (value : ν) : (put key value map).keys.Nodup := by
  induction map with
  | nil => exact nodup_singleton key
  | cons e rest ih =>
    rw [keys, map_cons, nodup_cons] at h
    rw [put]
    split
    · exact nodup_cons.mpr h
    · next hne =>
      refine nodup_cons.mpr ⟨fun hin => ?_, ih h.2⟩
      rcases mem_keys_put hin with heq | hin
      · exact hne heq.symm
      · exact h.1 hin

theorem remove_sublist : (remove key map).Sublist map := by
  induction map with
  | nil => exact Sublist.slnil
  | cons e rest ih =>
    rw [remove]
    split
    · exact sublist_cons_self e rest
    · exact ih.cons_cons e

theorem nodup_keys_remove (h : map.keys.Nodup) : (remove key map).keys.Nodup :=
  h.sublist (remove_sublist.map Prod.fst)

theorem mem_of_get (h : get key map = some value) : (key, value) ∈ map := by
  induction map with
  | nil => cases h
  | cons e rest ih =>
    rw [get] at h
    split at h
    · next heq =>
      cases h
      rw [heq]
      exact mem_cons_self
    · exact mem_cons_of_mem _ (ih h)

theorem get_of_mem (hnodup : map.keys.Nodup) (h : (key, value) ∈ map) :
    get key map = some value := by
  induction map with
  | nil => cases h
  | cons e rest ih =>
    rw [keys, map_cons, nodup_cons] at hnodup
    rcases mem_cons.mp h with rfl | hin
    · exact if_pos rfl
    · have hne : key ≠ e.1 := by
        rintro rfl
        exact hnodup.1 (mem_map.mpr ⟨(e.1, value), hin, rfl⟩)
      rw [get, if_neg hne]
      exact ih hnodup.2 hin

theorem mem_put {e : κ × ν} (h : e ∈ put key value map) : e = (key, value) ∨ e ∈ map := by
  induction map with
  | nil => exact .inl (mem_singleton.mp h)
  | cons first rest ih =>
    rw [put] at h
    split at h
    · next heq =>
      rcases mem_cons.mp h with rfl | hin
      · exact .inl (heq ▸ rfl)
      · exact .inr (mem_cons_of_mem _ hin)
    · rcases mem_cons.mp h with rfl | hin
      · exact .inr mem_cons_self
      · exact (ih hin).imp_right (mem_cons_of_mem _)

theorem put_of_notMem (h : key ∉ map.keys) : put key value map = map ++ [(key, value)] := by
  induction map with
  | nil => rfl
  | cons e rest ih =>
    rw [keys, map_cons, mem_cons, not_or] at h
    rw [put, if_neg h.1, ih h.2, cons_append]

/-! ## Storing several entries -/

/-- The entries are stored one after the other. -/
def putAll (entries map : LinkedHashMap κ ν) : LinkedHashMap κ ν :=
  entries.foldl (fun map e => map.put e.1 e.2) map

theorem nodup_keys_putAll (entries : LinkedHashMap κ ν) (h : map.keys.Nodup) :
    (putAll entries map).keys.Nodup := by
  induction entries generalizing map with
  | nil => exact h
  | cons e entries ih => exact ih (nodup_keys_put h e.2)

variable {entries : LinkedHashMap κ ν}

/-- Entries with keys of their own decide what is found under these keys. -/
theorem get_putAll (k : κ) (h : entries.keys.Nodup) :
    get k (putAll entries map) = (get k entries).or (get k map) := by
  induction entries generalizing map with
  | nil => rfl
  | cons e entries ih =>
    rw [keys, map_cons, nodup_cons] at h
    have hstep : get k (putAll (e :: entries) map) =
        (get k entries).or (get k (put e.1 e.2 map)) := ih h.2
    rw [hstep, get]
    split
    · next heq =>
      subst heq
      rw [get_eq_none h.1, get_put_self]
      rfl
    · next hne => rw [get_put_of_ne hne]

/-- Storing into the empty map keeps the entries as they are. -/
theorem putAll_of_disjoint (h : (keys (map ++ entries)).Nodup) :
    putAll entries map = map ++ entries := by
  induction entries generalizing map with
  | nil => rw [append_nil]; rfl
  | cons e entries ih =>
    have hfresh : e.1 ∉ map.keys := by
      intro hin
      rw [keys, map_append] at h
      exact disjoint_of_nodup_append h hin mem_cons_self
    have hsplit : map ++ e :: entries = (map ++ [(e.1, e.2)]) ++ entries := by simp
    show putAll entries (map.put e.1 e.2) = _
    rw [put_of_notMem hfresh, hsplit]
    rw [hsplit] at h
    exact ih h

end LinkedHashMap

end ActivemqCpp.Decaf
