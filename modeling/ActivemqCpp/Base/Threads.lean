import Mathlib.Tactic

/-!
# Threads as stacks of frames

A thread is the stack of the calls it is in, the innermost first; a program's threads are
a list of such stacks. What the frames of all threads weigh together (`total`) is
followed through a turn of one thread: it changes by what the turn changed in that
thread's stack, plus what was started.
-/

namespace ActivemqCpp.Base

variable {φ M : Type*}

/-- The weight of a stack. -/
def stackWeight [AddCommMonoid M] (weight : φ → M) (stack : List φ) : M := (stack.map weight).sum

/-- The weight of all threads. -/
def total [AddCommMonoid M] (weight : φ → M) (threads : List (List φ)) : M :=
  (threads.map (stackWeight weight)).sum

section Weights

variable [AddCommMonoid M] (weight : φ → M)

@[simp] theorem stackWeight_nil : stackWeight weight [] = 0 := rfl

@[simp] theorem stackWeight_cons (f : φ) (stack : List φ) :
    stackWeight weight (f :: stack) = weight f + stackWeight weight stack := by
  simp [stackWeight]

@[simp] theorem stackWeight_append (s t : List φ) :
    stackWeight weight (s ++ t) = stackWeight weight s + stackWeight weight t := by
  simp [stackWeight]

@[simp] theorem total_nil : total weight [] = 0 := rfl

@[simp] theorem total_cons (stack : List φ) (threads : List (List φ)) :
    total weight (stack :: threads) = stackWeight weight stack + total weight threads := by
  simp [total]

@[simp] theorem total_append (s t : List (List φ)) :
    total weight (s ++ t) = total weight s + total weight t := by
  simp [total]

/-- One thread's stack taken out. -/
theorem total_eq_add_rest {threads : List (List φ)} {i : Nat} {stack : List φ}
    (h : threads[i]? = some stack) :
    ∃ rest : M, total weight threads = stackWeight weight stack + rest ∧
      ∀ stack', total weight (threads.set i stack') = stackWeight weight stack' + rest := by
  induction threads generalizing i with
  | nil => simp at h
  | cons head threads ih =>
    cases i with
    | zero =>
      obtain rfl : head = stack := by simpa using h
      exact ⟨total weight threads, total_cons weight _ _, fun stack' => total_cons weight _ _⟩
    | succ i =>
      obtain ⟨rest, htotal, hset⟩ := ih (by simpa using h)
      refine ⟨stackWeight weight head + rest, ?_, fun stack' => ?_⟩
      · rw [total_cons, htotal, add_left_comm]
      · rw [List.set_cons_succ, total_cons, hset, add_left_comm]

end Weights

/-- Every frame of every thread. -/
def Everywhere (P : φ → Prop) (threads : List (List φ)) : Prop :=
  ∀ stack ∈ threads, ∀ f ∈ stack, P f

variable {threads : List (List φ)} {stack : List φ} {P : φ → Prop}

/-- A property of weights that is closed under sums holds of the total. -/
theorem Everywhere.total [AddCommMonoid M] {weight : φ → M} {P : M → Prop} (hzero : P 0)
    (hadd : ∀ a b, P a → P b → P (a + b))
    (h : Everywhere (fun f => P (weight f)) threads) : P (total weight threads) := by
  have hstack : ∀ stack : List φ, (∀ f ∈ stack, P (weight f)) → P (stackWeight weight stack) := by
    intro stack hall
    induction stack with
    | nil => exact hzero
    | cons f stack ih =>
      obtain ⟨hf, hrest⟩ := List.forall_mem_cons.mp hall
      exact hadd _ _ hf (ih hrest)
  induction threads with
  | nil => exact hzero
  | cons stack threads ih =>
    obtain ⟨hone, hrest⟩ := List.forall_mem_cons.mp h
    exact hadd _ _ (hstack stack hone) (ih hrest)

theorem Everywhere.of_getElem? (h : Everywhere P threads) {i : Nat}
    (hi : threads[i]? = some stack) : ∀ f ∈ stack, P f :=
  h stack (List.mem_of_getElem? hi)

/-- A turn of thread `i`, which may start others. -/
theorem Everywhere.turn {started : List (List φ)} {i : Nat}
    (h : Everywhere P threads) (hstack : ∀ f ∈ stack, P f)
    (hstarted : Everywhere P started) : Everywhere P (threads.set i stack ++ started) := by
  intro s hs
  rcases List.mem_append.mp hs with hold | hnew
  · rcases List.mem_or_eq_of_mem_set hold with hmem | rfl
    · exact h s hmem
    · exact hstack
  · exact hstarted s hnew

end ActivemqCpp.Base
