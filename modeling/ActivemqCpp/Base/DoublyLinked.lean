import Mathlib.Tactic

/-!
# Doubly linked lists

Two link functions over the addresses `ρ` of the nodes, and what it means that they string
a list of addresses together (`Threads`): each address leads to the one behind it, and back.

* `link` puts a new address between two neighbours, `unlink` takes out the address between
  two; on a list without repetitions each changes the string exactly there
  (`Threads.link`, `Threads.unlink`);
* neighbouring places of the string are neighbours (`Threads.joined`).
-/

namespace ActivemqCpp.Base

open List

structure Links (ρ : Type*) where
  next : ρ → ρ
  prev : ρ → ρ

namespace Links

variable {ρ : Type*}

/-- `a` and `b` are neighbours. -/
def Joined (l : Links ρ) (a b : ρ) : Prop := l.next a = b ∧ l.prev b = a

/-- The links string these addresses together, in this order. -/
def Threads (l : Links ρ) (as : List ρ) : Prop := as.IsChain l.Joined

section Changes

variable [DecidableEq ρ]

/-- `x` goes between `p` and `n`. -/
def link (l : Links ρ) (p x n : ρ) : Links ρ :=
  ⟨Function.update (Function.update l.next x n) p x,
    Function.update (Function.update l.prev x p) n x⟩

/-- What is between `p` and `n` goes. -/
def unlink (l : Links ρ) (p n : ρ) : Links ρ :=
  ⟨Function.update l.next p n, Function.update l.prev n p⟩

end Changes

variable {l l' : Links ρ} {as bs : List ρ} {p n x : ρ}

theorem threads_split : l.Threads (as ++ p :: bs) ↔ l.Threads (as ++ [p]) ∧ l.Threads (p :: bs) :=
  isChain_split

theorem threads_cons_cons : l.Threads (p :: n :: bs) ↔ l.Joined p n ∧ l.Threads (n :: bs) :=
  isChain_cons_cons

/-- Only the links forward of all but the last and the links back of all but the first
matter. -/
theorem Threads.congr (h : l.Threads as) (hnext : ∀ a ∈ as.dropLast, l'.next a = l.next a)
    (hprev : ∀ a ∈ as.tail, l'.prev a = l.prev a) : l'.Threads as := by
  induction as with
  | nil => exact .nil
  | cons a as ih =>
    cases as with
    | nil => exact .singleton a
    | cons b bs =>
      obtain ⟨hjoined, hrest⟩ := threads_cons_cons.mp h
      refine threads_cons_cons.mpr ⟨⟨?_, ?_⟩, ih hrest ?_ ?_⟩
      · rw [hnext a (by simp), hjoined.1]
      · rw [hprev b (by simp), hjoined.2]
      · intro c hc
        exact hnext c (by simpa using .inr hc)
      · intro c hc
        exact hprev c (mem_cons_of_mem _ hc)

/-! ## Changing the string -/

/-- Neither the part up to `p` nor the part from `n` on notices a change of the links
between the two. -/
theorem Threads.outside (hfront : l.Threads (as ++ [p])) (l' : Links ρ) (hback : l.Threads (n :: bs))
    (hnodup : (as ++ p :: n :: bs).Nodup)
    (hnext : ∀ a, a ≠ p → a ∈ as ++ p :: n :: bs → l'.next a = l.next a)
    (hprev : ∀ a, a ≠ n → a ∈ as ++ p :: n :: bs → l'.prev a = l.prev a) :
    l'.Threads (as ++ [p]) ∧ l'.Threads (n :: bs) := by
  have hapart := nodup_append.mp hnodup
  have hp : p ∉ as := fun hmem => hapart.2.2 p hmem p mem_cons_self rfl
  have hpback : p ∉ n :: bs := (nodup_cons.mp hapart.2.1).1
  have hn : n ∉ as ++ [p] := by
    intro hmem
    rcases mem_append.mp hmem with hmem | hmem
    · exact hapart.2.2 n hmem n (by simp) rfl
    · rw [mem_singleton] at hmem
      exact hpback (by simp [hmem])
  have hnbs : n ∉ bs := (nodup_cons.mp (nodup_cons.mp hapart.2.1).2).1
  refine ⟨hfront.congr ?_ ?_, hback.congr ?_ ?_⟩
  · intro a ha
    rw [dropLast_concat] at ha
    exact hnext a (fun hap => hp (hap ▸ ha)) (mem_append_left _ ha)
  · intro a ha
    have ha := mem_of_mem_tail ha
    refine hprev a (fun han => hn (han ▸ ha)) ?_
    simp only [mem_append, mem_cons] at ha ⊢
    tauto
  · intro a ha
    have ha := mem_of_mem_dropLast ha
    exact hnext a (fun hap => hpback (hap ▸ ha)) (mem_append_right _ (mem_cons_of_mem _ ha))
  · intro a ha
    exact hprev a (fun han => hnbs (han ▸ ha))
      (mem_append_right _ (mem_cons_of_mem _ (mem_cons_of_mem _ ha)))

section Changes

variable [DecidableEq ρ]

theorem Threads.link (h : l.Threads (as ++ p :: n :: bs)) (hnodup : (as ++ p :: n :: bs).Nodup)
    (hx : x ∉ as ++ p :: n :: bs) : (l.link p x n).Threads (as ++ p :: x :: n :: bs) := by
  have hxp : x ≠ p := fun hxp => hx (by simp [hxp])
  have hxn : x ≠ n := fun hxn => hx (by simp [hxn])
  obtain ⟨hfront, hrest⟩ := threads_split.mp h
  obtain ⟨hfront, hback⟩ := hfront.outside (l.link p x n) (threads_cons_cons.mp hrest).2
    hnodup
    (fun a hap hmem => by
      have hax : a ≠ x := fun hax => hx (hax ▸ hmem)
      simp [Links.link, hap, hax])
    (fun a han hmem => by
      have hax : a ≠ x := fun hax => hx (hax ▸ hmem)
      simp [Links.link, han, hax])
  refine threads_split.mpr ⟨hfront, threads_cons_cons.mpr ⟨?_, threads_cons_cons.mpr ⟨?_, hback⟩⟩⟩
  · simp [Joined, Links.link, hxn]
  · simp [Joined, Links.link, hxp]

theorem Threads.unlink (h : l.Threads (as ++ p :: x :: n :: bs))
    (hnodup : (as ++ p :: x :: n :: bs).Nodup) : (l.unlink p n).Threads (as ++ p :: n :: bs) := by
  have hsub : Sublist (as ++ p :: n :: bs) (as ++ p :: x :: n :: bs) :=
    ((sublist_cons_self x (n :: bs)).cons_cons p).append_left as
  obtain ⟨hfront, hrest⟩ := threads_split.mp h
  have hback := (threads_cons_cons.mp (threads_cons_cons.mp hrest).2).2
  obtain ⟨hfront, hback⟩ := hfront.outside (l.unlink p n) hback (hnodup.sublist hsub)
    (fun a hap _ => by simp [Links.unlink, hap]) (fun a han _ => by simp [Links.unlink, han])
  refine threads_split.mpr ⟨hfront, threads_cons_cons.mpr ⟨?_, hback⟩⟩
  simp [Joined, Links.unlink]

end Changes

/-! ## Following the links -/

theorem Threads.joined (h : l.Threads as) {i : Nat} {a b : ρ} (ha : as[i]? = some a)
    (hb : as[i + 1]? = some b) : l.Joined a b := by
  induction as generalizing i with
  | nil => cases ha
  | cons c cs ih =>
    cases cs with
    | nil => simp at hb
    | cons d ds =>
      obtain ⟨hjoined, hrest⟩ := threads_cons_cons.mp h
      cases i with
      | zero =>
        simp only [getElem?_cons_zero, Option.some.injEq, getElem?_cons_succ] at ha hb
        rw [← ha, ← hb]
        exact hjoined
      | succ i =>
        exact ih hrest ha hb

end Links

end ActivemqCpp.Base
