import Mathlib.Tactic

/-!
# Deterministic machines and their runs

A component driven by calls: every call moves the state and yields one
observation. The inductions over runs are packaged here once:

* **invariants** — what every call preserves, when the calls meet a condition
  on the state they are made in, holds in every state reached
  (`Machine.invariant_of_meets`);
* **exactness** — when a call outside the condition breaks the property, the
  property holds throughout a run *iff* every call meets the condition
  (`Machine.always_iff_meets`);
* **simulation** — two machines related step by step observe the same trace
  (`Machine.trace_eq_of_simulation`);
* **locality** — calls that other calls cannot tell from no call at all can be left
  out (`Machine.trace_filter_of_local`).
-/

namespace ActivemqCpp.Base

/-- A machine over states `σ`: every call `α` yields the next state and an
observation `ο`. -/
structure Machine (σ α ο : Type*) where
  step : σ → α → σ × ο

namespace Machine

variable {σ τ α ο : Type*}

/-- The state after a list of calls, oldest call first. -/
def run (m : Machine σ α ο) : σ → List α → σ
  | s, [] => s
  | s, a :: as => m.run (m.step s a).1 as

/-- The observations of a list of calls, oldest first. -/
def trace (m : Machine σ α ο) : σ → List α → List ο
  | _, [] => []
  | s, a :: as => (m.step s a).2 :: m.trace (m.step s a).1 as

/-- Every call meets `ok` in the state it is made in. -/
def Meets (m : Machine σ α ο) (ok : σ → α → Prop) : σ → List α → Prop
  | _, [] => True
  | s, a :: as => ok s a ∧ m.Meets ok (m.step s a).1 as

/-- `P` holds in every state of the run, the first and the last included. -/
def Always (m : Machine σ α ο) (P : σ → Prop) : σ → List α → Prop
  | s, [] => P s
  | s, a :: as => P s ∧ m.Always P (m.step s a).1 as

def decidableMeets (m : Machine σ α ο) (ok : σ → α → Prop) [∀ s a, Decidable (ok s a)] :
    (s : σ) → (as : List α) → Decidable (m.Meets ok s as)
  | _, [] => .isTrue trivial
  | s, a :: as => @instDecidableAnd _ _ _ (m.decidableMeets ok (m.step s a).1 as)

instance (m : Machine σ α ο) (ok : σ → α → Prop) [∀ s a, Decidable (ok s a)] (s : σ)
    (as : List α) : Decidable (m.Meets ok s as) := m.decidableMeets ok s as

@[simp] theorem run_nil (m : Machine σ α ο) (s : σ) : m.run s [] = s := rfl

@[simp] theorem run_cons (m : Machine σ α ο) (s : σ) (a : α) (as : List α) :
    m.run s (a :: as) = m.run (m.step s a).1 as := rfl

variable {m : Machine σ α ο} {s : σ} {as : List α} {P : σ → Prop}

theorem Always.head (h : m.Always P s as) : P s := by
  cases as with
  | nil => exact h
  | cons a as => exact h.1

theorem Always.last (h : m.Always P s as) : P (m.run s as) := by
  induction as generalizing s with
  | nil => exact h
  | cons a as ih => exact ih h.2

theorem Always.mono {Q : σ → Prop} (hPQ : ∀ s, P s → Q s)
    (h : m.Always P s as) : m.Always Q s as := by
  induction as generalizing s with
  | nil => exact hPQ s h
  | cons a as ih => exact ⟨hPQ s h.1, ih h.2⟩

/-- A condition on the calls alone. -/
theorem meets_of_forall {ok : α → Prop} (h : ∀ a ∈ as, ok a)
    (s : σ) : m.Meets (fun _ a => ok a) s as := by
  induction as generalizing s with
  | nil => trivial
  | cons a as ih =>
    exact ⟨h a List.mem_cons_self, ih (fun b hb => h b (List.mem_cons_of_mem _ hb)) _⟩

variable {ok ok' : σ → α → Prop}

theorem Meets.and (h : m.Meets ok s as)
    (h' : m.Meets ok' s as) : m.Meets (fun s a => ok s a ∧ ok' s a) s as := by
  induction as generalizing s with
  | nil => trivial
  | cons a as ih => exact ⟨⟨h.1, h'.1⟩, ih h.2 h'.2⟩

/-- Conditions that agree on every call agree on every run. -/
theorem meets_congr (h : ∀ s a, ok s a ↔ ok' s a) (s : σ) (as : List α) :
    m.Meets ok s as ↔ m.Meets ok' s as := by
  induction as generalizing s with
  | nil => exact Iff.rfl
  | cons a as ih => exact and_congr (h s a) (ih (m.step s a).1)

variable {I : σ → Prop}

/-- The invariant rule: preserved by every call that meets `ok`, so true in
every state of a run whose calls meet `ok`. -/
theorem invariant_of_meets (hstep : ∀ s a, I s → ok s a → I (m.step s a).1) (h0 : I s)
    (hok : m.Meets ok s as) : m.Always I s as := by
  induction as generalizing s with
  | nil => exact h0
  | cons a as ih => exact ⟨h0, ih (hstep s a h0 hok.1) hok.2⟩

/-- What every call that meets `ok` does in a state of the invariant, every call of the run
does. -/
theorem meets_of_invariant {does : σ → α → Prop}
    (hstep : ∀ s a, I s → ok s a → I (m.step s a).1 ∧ does s a) (h0 : I s)
    (hok : m.Meets ok s as) : m.Meets does s as := by
  induction as generalizing s with
  | nil => trivial
  | cons a as ih =>
    obtain ⟨hI, hdoes⟩ := hstep s a h0 hok.1
    exact ⟨hdoes, ih hI hok.2⟩

/-- The exactness rule. `I` carries the induction, `P` is what is to hold; a
call outside `ok` leaves a state where `P` fails. -/
theorem always_iff_meets (hstep : ∀ s a, I s → ok s a → I (m.step s a).1) (hIP : ∀ s, I s → P s)
    (hbreak : ∀ s a, I s → ¬ ok s a → ¬ P (m.step s a).1)
    (h0 : I s) : m.Always P s as ↔ m.Meets ok s as := by
  constructor
  · intro hP
    induction as generalizing s with
    | nil => trivial
    | cons a as ih =>
      have hok : ok s a := by
        by_contra hno
        exact hbreak s a h0 hno hP.2.head
      exact ⟨hok, ih (hstep s a h0 hok) hP.2⟩
  · intro hok
    exact (invariant_of_meets hstep h0 hok).mono hIP

/-- The simulation rule: related states stay related and observe the same, so
the traces of the two machines agree. -/
theorem trace_eq_of_simulation {m' : Machine τ α ο} {R : σ → τ → Prop}
    (hstep : ∀ s t a, R s t → ok s a →
      R (m.step s a).1 (m'.step t a).1 ∧ (m.step s a).2 = (m'.step t a).2) {t : τ} (h0 : R s t)
    (hok : m.Meets ok s as) :
    m.trace s as = m'.trace t as ∧ R (m.run s as) (m'.run t as) := by
  induction as generalizing s t with
  | nil => exact ⟨rfl, h0⟩
  | cons a as ih =>
    obtain ⟨hR, hobs⟩ := hstep s t a h0 hok.1
    obtain ⟨htrace, hrun⟩ := ih hR hok.2
    refine ⟨?_, hrun⟩
    show (m.step s a).2 :: _ = (m'.step t a).2 :: _
    rw [hobs, htrace]

/-- The locality rule: what the calls of a part observe is what they observe alone, when
calls of the part keep two states alike and others keep the first like the second. -/
theorem trace_filter_of_local (m : Machine σ α ο) (part : α → Bool) {R : σ → σ → Prop}
    (hin : ∀ s t a, part a = true → R s t →
      R (m.step s a).1 (m.step t a).1 ∧ (m.step s a).2 = (m.step t a).2)
    (hout : ∀ s t a, part a = false → R s t → R (m.step s a).1 t) {t : σ} (h : R s t)
    (as : List α) :
    ((as.zip (m.trace s as)).filter fun x => part x.1).map Prod.snd =
      m.trace t (as.filter part) := by
  induction as generalizing s t with
  | nil => rfl
  | cons a as ih =>
    rw [trace, List.zip_cons_cons, List.filter_cons, List.filter_cons]
    by_cases hpart : part a = true
    · obtain ⟨hR, hobs⟩ := hin s t a hpart h
      rw [if_pos hpart, if_pos hpart, List.map_cons, trace, ih hR, hobs]
    · have hR := hout s t a (by simpa using hpart) h
      rw [if_neg hpart, if_neg hpart, ih hR]

end Machine

end ActivemqCpp.Base
