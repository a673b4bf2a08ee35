import Mathlib.Data.List.Perm.Basic
import ActivemqCpp.Decaf.StlMap
import ActivemqCpp.Decaf.StringTokenizer
import ActivemqCpp.Transport.Failover.URIPool

/-!
# Broker lists sent by the broker

A `ConnectionControl` carries the brokers of the cluster, separated by commas.
`processNewTransports` makes a list of URIs out of it, which `updateURIs` puts into the pool of
updated URIs. Neither keeps the list as it was sent.

* **Spaces** — `std::remove` moves the other characters to the front and leaves the length of
  the string as it is. Nothing erases the rest: as many characters as there were spaces stand
  behind the list once more (`produces_iff`).
* **Order** — the URIs pass through a `StlSet`, which sorts them.
* **Priority** — `URIPool::clear` keeps the priority URI, so the first URI of the first update
  stays the priority of all later ones (`follows_iff`).
-/

namespace ActivemqCpp.Transport.Failover

open Decaf List StringTokenizer

/-! ## Reading the list -/

def space : UInt8 := 32

def comma : UInt8 := 44

/-- `std::remove(string.begin(), string.end(), ' ')`. The characters behind the new end stay. -/
def removeSpaces (string : Bytes) : Bytes :=
  let kept := string.filter (· ≠ space)
  kept ++ string.drop kept.length

/-- `processNewTransports`, with updates supported, up to the list that `updateURIs` is called
with; `parse` is the constructor of `URI`. -/
def processNewTransports {U : Type} (parse : Bytes → Option U) (newTransports : Bytes) :
    Option (List U) :=
  if newTransports.isEmpty then none
  else
    let list := (toArray comma (removeSpaces newTransports)).filterMap parse
    if list.isEmpty then none else some list

/-- The list that was sent: what parses of the entries between commas, without spaces. -/
def sentList {U : Type} (parse : Bytes → Option U) (newTransports : Bytes) : Option (List U) :=
  let list := (tokens comma (newTransports.filter (· ≠ space))).filterMap parse
  if list.isEmpty then none else some list

/-- The list is produced as it was sent, whatever the entries parse to. -/
def Produces (newTransports : Bytes) : Prop :=
  ∀ (U : Type) (parse : Bytes → Option U),
    processNewTransports parse newTransports = sentList parse newTransports

theorem processNewTransports_eq {U : Type} (parse : Bytes → Option U) (string : Bytes) :
    processNewTransports parse string =
      let list := (tokens comma (removeSpaces string)).filterMap parse
      if list.isEmpty then none else some list := by
  cases string with
  | nil => rfl
  | cons c rest =>
    rw [← toArray_eq]
    rfl

/-- **When the broker list is read as it was sent.** With `k` spaces in the string, its last `k`
characters have to be commas. -/
theorem produces_iff (string : Bytes) :
    Produces string ↔ ∀ c ∈ string.drop (string.filter (· ≠ space)).length, c = comma := by
  constructor
  · intro h
    have hlists := h Bytes some
    rw [processNewTransports_eq, sentList, filterMap_some, filterMap_some] at hlists
    have htokens :
        tokens comma (removeSpaces string) = tokens comma (string.filter (· ≠ space)) := by
      dsimp only at hlists
      split at hlists <;> split at hlists
      · next hleft hright => rw [isEmpty_iff.mp hleft, isEmpty_iff.mp hright]
      · cases hlists
      · cases hlists
      · exact Option.some.inj hlists
    have hflat := congrArg flatten htokens
    rw [tokens, tokens, flatten_tokensFrom, flatten_tokensFrom, removeSpaces] at hflat
    simpa using hflat
  · intro h U parse
    rw [processNewTransports_eq, sentList, removeSpaces, tokens, tokens, tokensFrom_append _ _ h]

/-- `"a, b"`: the second entry becomes `bb`. -/
theorem produces_not : processNewTransports some [97, 44, 32, 98] = some [[97], [98, 98]] ∧
    ¬ Produces [97, 44, 32, 98] := by
  refine ⟨by rw [processNewTransports_eq]; decide, fun h => ?_⟩
  exact absurd (processNewTransports_eq some _ ▸ h Bytes some) (by decide)

/-! ## Updating the pool -/

section Update

variable {U : Type} [DecidableEq U]

/-- The URIs of a `StlSet`; `less` is `URI::operator<`. -/
def stlSet (less : U → U → Bool) (uris : List U) : List U :=
  (uris.foldl (fun set uri => StlMap.put less uri () set) []).map Prod.fst

/-- `updateURIs`, but for the reconnect. -/
def updateURIs (less : U → U → Bool) (uris : List U) (updated : URIPool U) : URIPool U :=
  if uris.isEmpty then updated.clear else updated.clear.addURIs (stlSet less uris)

/-- The first occurrences. -/
def distinct : List U → List U
  | [] => []
  | uri :: uris => uri :: (distinct uris).filter (· ≠ uri)

/-- The pool holds the list as it was sent, its first URI being the priority. -/
structure Follows (uris : List U) (pool : URIPool U) : Prop where
  contents : pool.uriPool = distinct uris
  priority : pool.priorityURI = uris.head?

theorem mem_distinct {uris : List U} {uri : U} : uri ∈ distinct uris ↔ uri ∈ uris := by
  induction uris with
  | nil => rfl
  | cons first uris ih => by_cases h : uri = first <;> simp [distinct, h, ih]

theorem nodup_distinct (uris : List U) : (distinct uris).Nodup := by
  induction uris with
  | nil => exact nodup_nil
  | cons first uris ih => exact nodup_cons.mpr ⟨by simp, ih.filter _⟩

variable {less : U → U → Bool} {uris : List U}

theorem stlSet_spec (hless : StlMap.OrderedOn less (· ∈ uris)) :
    (stlSet less uris).Pairwise (fun a b => less a b = true) ∧
      (stlSet less uris).Perm (distinct uris) := by
  obtain ⟨hwf, hmem⟩ := StlMap.wf_foldl_put hless (fun _ hin => hin) StlMap.wf_nil
  refine ⟨pairwise_map.mpr hwf.sorted, ?_⟩
  refine (perm_ext_iff_of_nodup (hwf.nodup_keys hless) (nodup_distinct uris)).mpr ?_
  intro uri
  rw [mem_distinct, mem_map]
  refine ⟨?_, fun hin => ⟨(uri, ()), (hmem uri).mpr (.inr hin), rfl⟩⟩
  rintro ⟨e, hin, rfl⟩
  exact ((hmem e.1).mp hin).resolve_left not_mem_nil

/-- The URIs of a list without duplicates are all added. -/
theorem addURIs_of_nodup (pool : URIPool U) (uris : List U) (h : (pool.uriPool ++ uris).Nodup) :
    (pool.addURIs uris).uriPool = pool.uriPool ++ uris ∧
      (pool.addURIs uris).priorityURI = pool.priorityURI.or uris.head? := by
  induction uris generalizing pool with
  | nil => simp [URIPool.addURIs]
  | cons uri uris ih =>
    have hnew : uri ∉ pool.uriPool := by
      intro hin
      exact (disjoint_of_nodup_append h) hin mem_cons_self
    have hadd : (pool.addURI uri).uriPool = pool.uriPool ++ [uri] := if_neg hnew
    obtain ⟨hpool, hpriority⟩ := ih (pool.addURI uri) (by rw [hadd]; simpa using h)
    refine ⟨?_, ?_⟩
    · refine hpool.trans ?_
      rw [hadd, append_assoc, singleton_append]
    · refine hpriority.trans ?_
      rcases hold : pool.priorityURI with _ | old <;> simp [URIPool.addURI, hold]

/-- **When an update is followed.** Of a non-empty list whose URIs the comparison orders, the
pool holds the distinct URIs in the order sent, with the first as its priority, iff they are
sent in ascending order and the pool has no other priority yet. -/
theorem follows_iff (updated : URIPool U) (hne : uris ≠ [])
    (hless : StlMap.OrderedOn less (· ∈ uris)) :
    Follows uris (updateURIs less uris updated) ↔
      (distinct uris).Pairwise (fun a b => less a b = true) ∧
        ∀ priority ∈ updated.priorityURI, uris.head? = some priority := by
  obtain ⟨hsorted, hperm⟩ := stlSet_spec hless
  obtain ⟨hpool, hpriority⟩ := addURIs_of_nodup updated.clear (stlSet less uris)
    (hperm.nodup_iff.mpr (nodup_distinct uris))
  have hupdate : updateURIs less uris updated = updated.clear.addURIs (stlSet less uris) :=
    if_neg (by simpa using hne)
  have hhead : (distinct uris).head? = uris.head? := by cases uris <;> rfl
  constructor
  · rintro ⟨hcontents, hfirst⟩
    rw [hupdate] at hcontents hfirst
    have hset : stlSet less uris = distinct uris := hpool.symm.trans hcontents
    refine ⟨hset ▸ hsorted, fun priority hkept => ?_⟩
    have hclear : updated.clear.priorityURI = some priority := hkept
    rw [hpriority, hclear] at hfirst
    exact hfirst.symm
  · rintro ⟨hascending, hkept⟩
    have hset : stlSet less uris = distinct uris := by
      refine hperm.eq_of_pairwise (fun a b ha hb hab hba => ?_) hsorted hascending
      have hin : a ∈ uris := mem_distinct.mp (hperm.mem_iff.mp ha)
      have hasymm := hless.asymm hin (mem_distinct.mp hb) hab
      rw [hasymm] at hba
      cases hba
    rw [hupdate]
    refine ⟨hpool.trans hset, hpriority.trans ?_⟩
    rw [hset, hhead]
    rcases hold : updated.priorityURI with _ | priority
    · rw [URIPool.clear, hold, Option.none_or]
    · rw [URIPool.clear, hold, hkept priority hold]
      rfl

end Update

theorem follows_iff_ascending :
    Follows [1, 2] (updateURIs (fun a b => decide (a < b)) [1, 2] .new) := by
  refine (follows_iff .new (by decide) ?_).mpr ⟨by decide, by decide⟩
  exact ⟨fun _ => by simp, fun _ _ _ => by simpa using Nat.lt_trans,
    fun _ _ hne => by simpa using Nat.lt_or_gt_of_ne hne⟩

/-- The second broker list is sorted, and the priority is still the URI of the first one. -/
theorem updated_out_of_order :
    let less := fun a b : Nat => decide (a < b)
    let updated := updateURIs less [3, 2] (updateURIs less [1] .new)
    updated.uriPool = [2, 3] ∧ updated.priorityURI = some 1 ∧ ¬ Follows [3, 2] updated := by
  refine ⟨by decide, by decide, fun h => ?_⟩
  exact absurd h.priority (by decide)

end ActivemqCpp.Transport.Failover
