import Mathlib.Tactic

/-!
# Loops that write

A loop over a list that may throw, carries a state and writes a list of outputs. When
every round keeps an invariant of the state and writes what `R` says of its item, the
loop writes one block per item (`collect_spec`). An element of the joined blocks stands
in one of them, behind all earlier blocks and in front of all later ones
(`split_flatten`).
-/

namespace ActivemqCpp.Base

open List

variable {σ α β ε : Type}

/-- Run `f` over the items, oldest first, and join what the rounds write. -/
def collect (f : σ → α → Except ε (σ × List β)) : σ → List α → Except ε (σ × List β)
  | s, [] => .ok (s, [])
  | s, a :: as =>
    match f s a with
    | .error e => .error e
    | .ok (s', out) =>
      match collect f s' as with
      | .error e => .error e
      | .ok (s'', rest) => .ok (s'', out ++ rest)

variable {f : σ → α → Except ε (σ × List β)} {as : List α} {R : α → β → Prop} {a : α} {I : σ → Prop}

theorem collect_spec {R : α → List β → Prop}
    (hround : ∀ s, I s → ∀ a ∈ as, ∃ s' out, f s a = .ok (s', out) ∧ I s' ∧ R a out) {s : σ}
    (hs : I s) :
    ∃ s' blocks, collect f s as = .ok (s', blocks.flatten) ∧ I s' ∧ Forall₂ R as blocks := by
  induction as generalizing s with
  | nil => exact ⟨s, [], rfl, hs, .nil⟩
  | cons a as ih =>
    obtain ⟨s', out, hout, hs', hR⟩ := hround s hs a mem_cons_self
    obtain ⟨s'', blocks, hrest, hs'', hblocks⟩ :=
      ih (fun s hs a ha => hround s hs a (mem_cons_of_mem _ ha)) hs'
    refine ⟨s'', out :: blocks, ?_, hs'', .cons hR hblocks⟩
    rw [collect, hout]
    simp [hrest]

/-- What every round keeps, the loop keeps. -/
theorem collect_invariant (hround : ∀ s a s' out, I s → f s a = .ok (s', out) → I s')
    {s s' : σ} {out : List β} (hs : I s) (h : collect f s as = .ok (s', out)) : I s' := by
  induction as generalizing s out with
  | nil =>
    cases h
    exact hs
  | cons a as ih =>
    rw [collect] at h
    split at h
    · cases h
    · next s₁ out₁ hfirst =>
      split at h
      · cases h
      · next s₂ rest hrest =>
        cases h
        exact ih (hround s a s₁ out₁ hs hfirst) hrest

/-- What is true of all that the rounds write is true of all that the loop writes. -/
theorem collect_forall {P : β → Prop}
    (hround : ∀ s a s' out, f s a = .ok (s', out) → ∀ b ∈ out, P b) {s s' : σ} {out : List β}
    (h : collect f s as = .ok (s', out)) : ∀ b ∈ out, P b := by
  induction as generalizing s out with
  | nil =>
    cases h
    exact fun b hb => absurd hb not_mem_nil
  | cons a as ih =>
    rw [collect] at h
    split at h
    · cases h
    · next s₁ out₁ hfirst =>
      split at h
      · cases h
      · next s₂ rest hrest =>
        cases h
        intro b hb
        rcases mem_append.mp hb with hb | hb
        · exact hround s a s₁ out₁ hfirst b hb
        · exact ih hrest b hb

/-- Every block belongs to an item. -/
theorem exists_of_forall₂ {bs : List β} (h : Forall₂ R as bs) {b : β}
    (hb : b ∈ bs) : ∃ a ∈ as, R a b := by
  induction h with
  | nil => cases hb
  | cons hab _ ih =>
    rcases mem_cons.mp hb with rfl | hb
    · exact ⟨_, mem_cons_self, hab⟩
    · obtain ⟨a, ha, hR⟩ := ih hb
      exact ⟨a, mem_cons_of_mem _ ha, hR⟩

/-- The block of an item, between those of the items around it. -/
theorem split_forall₂ {front rest : List α} {bs : List β} (h : Forall₂ R (front ++ a :: rest) bs) :
    ∃ before b after, bs = before ++ b :: after ∧ R a b ∧
      Forall₂ R front before ∧ Forall₂ R rest after := by
  induction front generalizing bs with
  | nil =>
    cases h with
    | cons hab hrest => exact ⟨[], _, _, rfl, hab, .nil, hrest⟩
  | cons a' front ih =>
    cases h with
    | cons hab hrest =>
      obtain ⟨before, b, after, rfl, hb, hbefore, hafter⟩ := ih hrest
      exact ⟨_ :: before, b, after, rfl, hb, .cons hab hbefore, hafter⟩

/-! ## Places in a list -/

/-- A place in a joined list lies in the first part or in the second. -/
theorem split_append {bs pre post : List α} (h : as ++ bs = pre ++ a :: post) :
    (∃ rest, as = pre ++ a :: rest ∧ post = rest ++ bs) ∨
      ∃ front, pre = as ++ front ∧ bs = front ++ a :: post := by
  rcases append_eq_append_iff.mp h with ⟨front, hpre, hbs⟩ | ⟨tail, has, htail⟩
  · exact .inr ⟨front, hpre, hbs⟩
  · cases tail with
    | nil => exact .inr ⟨[], by simpa using has.symm, by simpa using htail.symm⟩
    | cons x rest =>
      obtain ⟨rfl, hpost⟩ := cons.inj htail
      exact .inl ⟨rest, has, hpost⟩

theorem split_flatten {blocks : List (List α)} {pre post : List α}
    (h : blocks.flatten = pre ++ a :: post) :
    ∃ before block after front rest, blocks = before ++ block :: after ∧
      block = front ++ a :: rest ∧ pre = before.flatten ++ front ∧ post = rest ++ after.flatten := by
  induction blocks generalizing pre with
  | nil => exact absurd h (by simp)
  | cons block blocks ih =>
    rcases split_append h with ⟨rest, hblock, hpost⟩ | ⟨front, hpre, hblocks⟩
    · exact ⟨[], block, blocks, pre, rest, rfl, hblock, rfl, hpost⟩
    · obtain ⟨before, block', after, front', rest, rfl, hblock', rfl, hpost⟩ := ih hblocks
      refine ⟨block :: before, block', after, front', rest, rfl, hblock', ?_, hpost⟩
      rw [hpre, flatten_cons, append_assoc]

end ActivemqCpp.Base
