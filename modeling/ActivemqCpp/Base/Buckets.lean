import Mathlib.Data.Finmap
import Mathlib.Tactic

/-!
# Chained buckets and finite maps

A table is a list of chains; every element belongs into the chain of its index.

* What is done to one chain is, up to the order of the elements, done to the table
  (`flatten_split`); an element of the table is found in its own chain
  (`Placed.mem_chain`).
* Pushing a list of elements into a table of another length gives the same elements
  (`foldl_push`).
* The rest is what a table of key/value pairs needs to know of finite maps: an entry
  split off is an insertion taken back (`finmap_split`), and inserting all entries of
  one map into another is their union (`foldl_insert`).
-/

namespace ActivemqCpp.Base

open List Finmap

/-! ## Chains -/

section Chains

variable {α : Type}

/-- Change the first element that satisfies `p`. -/
def updateFirst (p : α → Bool) (f : α → α) : List α → List α
  | [] => []
  | a :: rest => if p a then f a :: rest else a :: updateFirst p f rest

/-- The first element found, what a change of it and its removal leave. -/
theorem split_of_find {p : α → Bool} {chain : List α} {a : α} (h : chain.find? p = some a) :
    ∃ front back, chain = front ++ a :: back ∧
      (∀ f, updateFirst p f chain = front ++ f a :: back) ∧ chain.eraseP p = front ++ back := by
  induction chain with
  | nil => cases h
  | cons b rest ih =>
    rw [find?_cons] at h
    cases hp : p b with
    | true =>
      rw [hp] at h
      cases h
      exact ⟨[], rest, rfl, fun f => if_pos hp, eraseP_cons_of_pos hp⟩
    | false =>
      rw [hp] at h
      obtain ⟨front, back, hsplit, hupdate, herase⟩ := ih h
      refine ⟨b :: front, back, by rw [hsplit]; rfl, fun f => ?_, ?_⟩
      · rw [updateFirst, if_neg (by simp [hp]), hupdate f]
        rfl
      · rw [eraseP_cons_of_neg (by simp [hp]), herase]
        rfl

end Chains

/-! ## Tables -/

abbrev Buckets (α : Type) := List (List α)

namespace Buckets

variable {α : Type} {index : α → Nat} {data : Buckets α} {chain : List α}

/-- Every element stands in the chain of its index. -/
def Placed (index : α → Nat) (data : Buckets α) : Prop :=
  ∀ i chain, data[i]? = some chain → ∀ a ∈ chain, index a = i

/-- An element goes to the head of its chain. -/
def push (index : α → Nat) (data : Buckets α) (a : α) : Buckets α :=
  data.modify (index a) (a :: ·)

/-- A chain and the rest of the table. -/
theorem flatten_split {i : Nat} (h : data[i]? = some chain) :
    ∃ rest, data.flatten.Perm (chain ++ rest) ∧
      ∀ f, (data.modify i f).flatten.Perm (f chain ++ rest) := by
  obtain ⟨hlt, hget⟩ := List.getElem?_eq_some_iff.mp h
  have hsplit : data = data.take i ++ chain :: data.drop (i + 1) := by
    rw [← hget, cons_getElem_drop_succ, take_append_drop]
  refine ⟨(data.take i).flatten ++ (data.drop (i + 1)).flatten, ?_, fun f => ?_⟩
  · nth_rewrite 1 [hsplit]
    rw [flatten_append]
    exact perm_append_comm_assoc _ _ _
  · rw [modify_eq_take_cons_drop hlt, hget, flatten_append]
    exact perm_append_comm_assoc _ _ _

theorem placed_replicate (n : Nat) : Placed index (replicate n []) := by
  intro i chain hchain a ha
  rw [getElem?_replicate] at hchain
  split at hchain
  · cases hchain
    cases ha
  · cases hchain

variable (h : Placed index data)
include h

/-- An element of the table is in its own chain. -/
theorem Placed.mem_chain {a : α} (ha : a ∈ data.flatten)
    (hchain : data[index a]? = some chain) : a ∈ chain := by
  obtain ⟨chain', hin, hmem⟩ := mem_flatten.mp ha
  obtain ⟨i, hi⟩ := mem_iff_getElem?.mp hin
  rw [h i chain' hi a hmem, hi] at hchain
  rwa [← Option.some.inj hchain]

theorem Placed.modify {i : Nat} {f : List α → List α}
    (hf : ∀ chain, data[i]? = some chain → ∀ a ∈ f chain, index a = i) :
    Placed index (data.modify i f) := by
  intro j chain hchain a ha
  rw [getElem?_modify] at hchain
  obtain ⟨old, hold, rfl⟩ := Option.map_eq_some_iff.mp hchain
  by_cases hij : i = j
  · subst hij
    rw [if_pos rfl] at ha
    exact hf old hold a ha
  · rw [if_neg hij] at ha
    exact h j old hold a ha

omit h in
theorem length_push (data : Buckets α) (a : α) : (push index data a).length = data.length :=
  length_modify ..

theorem Placed.push (a : α) : Placed index (push index data a) := by
  refine h.modify fun chain hchain b hb => ?_
  rcases mem_cons.mp hb with rfl | hb
  · rfl
  · exact h _ chain hchain b hb

omit h in
theorem flatten_push {a : α} (hlt : index a < data.length) :
    (Buckets.push index data a).flatten.Perm (a :: data.flatten) := by
  obtain ⟨rest, hall, hmodify⟩ := flatten_split (getElem?_eq_getElem hlt)
  exact (hmodify _).trans (hall.symm.cons a)

/-- Pushing a list of elements, one after the other. -/
theorem foldl_push (as : List α) (hlt : ∀ a ∈ as, index a < data.length) :
    Placed index (as.foldl (Buckets.push index) data) ∧
      (as.foldl (Buckets.push index) data).length = data.length ∧
      (as.foldl (Buckets.push index) data).flatten.Perm (as ++ data.flatten) := by
  induction as generalizing data with
  | nil => exact ⟨h, rfl, Perm.refl _⟩
  | cons a as ih =>
    obtain ⟨ha, has⟩ := forall_mem_cons.mp hlt
    obtain ⟨hplaced, hlength, hperm⟩ := ih (h.push a) (by rwa [length_push])
    refine ⟨hplaced, hlength.trans (length_push data a), ?_⟩
    calc ((a :: as).foldl (Buckets.push index) data).flatten
        |>.Perm (as ++ (Buckets.push index data a).flatten) := hperm
      _ |>.Perm (as ++ a :: data.flatten) := (flatten_push ha).append_left as
      _ |>.Perm (a :: as ++ data.flatten) := perm_middle

end Buckets

/-! ## Finite maps -/

section FiniteMaps

variable {κ ν : Type}

/-- A key/value pair as an entry of a finite map. -/
def toEntry (e : κ × ν) : Σ _ : κ, ν := ⟨e.1, e.2⟩

theorem card_keys (m : Finmap fun _ : κ => ν) : m.keys.card = m.entries.card :=
  Multiset.card_map _ _

variable [DecidableEq κ] {m : Finmap fun _ : κ => ν} {k : κ}

/-- A map with one entry split off is the rest with that entry inserted. -/
theorem finmap_split {v : ν} {others : Multiset (Σ _ : κ, ν)} (h : m.entries = ⟨k, v⟩ ::ₘ others) :
    ∃ m₀ : Finmap fun _ : κ => ν, m₀.entries = others ∧ k ∉ m₀ ∧ m = m₀.insert k v := by
  have hnodup := m.nodupKeys
  rw [h] at hnodup
  induction others using Quotient.inductionOn with
  | h l =>
    obtain ⟨hnotin, hrest⟩ := nodupKeys_cons.mp hnodup
    have hk : k ∉ (⟨⟦l⟧, hrest⟩ : Finmap fun _ : κ => ν) := hnotin
    refine ⟨⟨⟦l⟧, hrest⟩, rfl, hk, ext ?_⟩
    rw [entries_insert_of_notMem hk, h]

theorem erase_of_notMem (h : k ∉ m) : m.erase k = m := by
  refine ext_lookup fun x => ?_
  by_cases hx : x = k
  · rw [hx, lookup_erase, lookup_eq_none.mpr h]
  · rw [lookup_erase_ne hx]

theorem erase_insert_of_notMem (h : k ∉ m) (v : ν) : (m.insert k v).erase k = m := by
  refine ext_lookup fun x => ?_
  by_cases hx : x = k
  · rw [hx, lookup_erase, lookup_eq_none.mpr h]
  · rw [lookup_erase_ne hx, lookup_insert_of_ne _ hx]

/-- Inserting all entries of a map into another. -/
theorem foldl_insert {entries : List (κ × ν)} {n : Finmap fun _ : κ => ν}
    (h : n.entries = (entries.map toEntry : List _)) (m : Finmap fun _ : κ => ν) :
    entries.foldl (fun m e => m.insert e.1 e.2) m = n ∪ m := by
  induction entries generalizing n m with
  | nil =>
    have hempty : n = ∅ := ext h
    rw [hempty, empty_union]
    rfl
  | cons e entries ih =>
    have hcons : n.entries = ⟨e.1, e.2⟩ ::ₘ ((entries.map toEntry) : Multiset _) := h
    obtain ⟨n₀, hrest, hk, rfl⟩ := finmap_split hcons
    rw [foldl_cons, ih hrest]
    refine ext_lookup fun x => ?_
    -- the key just inserted is not among the rest
    by_cases hx : x = e.1
    · subst hx
      rw [lookup_union_right hk, lookup_insert,
        lookup_union_left (mem_insert.mpr (.inl rfl)), lookup_insert]
    · by_cases hin : x ∈ n₀
      · rw [lookup_union_left hin,
          lookup_union_left (mem_insert.mpr (.inr hin)),
          lookup_insert_of_ne _ hx]
      · rw [lookup_union_right hin, lookup_insert_of_ne _ hx, lookup_union_right (fun hmem => ?_)]
        exact (mem_insert.mp hmem).elim hx hin

end FiniteMaps

end ActivemqCpp.Base
