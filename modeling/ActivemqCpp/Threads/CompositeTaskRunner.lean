import Mathlib.Tactic

/-!
# The task runner (`activemq::threads::CompositeTaskRunner`)

One thread serves a list of tasks. `CompositeTaskRunner::iterate` takes a task off the
front of the list, asks it whether it is pending, lets a pending one do one iteration and
puts it at the end again.

The thread moves in steps: the top of the loop of `run`, one round of the scan in
`iterate`, the wait. While it is inside a task, `Control.performing` holds the frame of
that call; the steps of the tasks themselves are given with the tasks. A frame tells its
task (`task`).

`escape` is an exception that leaves a task: the scan puts nothing back, and the handler
of `run` lets the thread end.
-/

namespace ActivemqCpp.Threads

/-- Where the thread is. -/
inductive Control (F : Type)
  | unstarted
  /-- The top of the loop of `run`. -/
  | looping
  /-- The loop of `iterate`, with its index. -/
  | scanning (i : Nat)
  | waiting
  | performing (frame : F)
  | terminated
deriving DecidableEq

structure CompositeTaskRunner (T F : Type) where
  tasks : List T
  control : Control F
  pending : Bool
  threadTerminated : Bool
deriving DecidableEq

namespace CompositeTaskRunner

variable {T F : Type}

/-- `CompositeTaskRunner()`. -/
def new : CompositeTaskRunner T F := ⟨[], .unstarted, false, false⟩

def wakeup (r : CompositeTaskRunner T F) : CompositeTaskRunner T F := { r with pending := true }

def addTask (r : CompositeTaskRunner T F) (task : T) : CompositeTaskRunner T F :=
  { r with tasks := r.tasks ++ [task] }.wakeup

def start (r : CompositeTaskRunner T F) : CompositeTaskRunner T F :=
  match r.control with
  | .unstarted => { r with control := .looping }.wakeup
  | _ => r

/-- One step of the thread outside the tasks: of `run`, or of the scan in `iterate`. -/
def advance (r : CompositeTaskRunner T F) (isPending : T → Bool) (call : T → F) :
    CompositeTaskRunner T F :=
  match r.control with
  | .looping => { r with pending := false, control := .scanning 0 }
  | .scanning i =>
    if i < r.tasks.length then
      match r.tasks with
      | [] => r
      | task :: rest =>
        if isPending task then { r with tasks := rest, control := .performing (call task) }
        else { r with tasks := rest ++ [task], control := .scanning (i + 1) }
    else { r with control := .waiting }
  | .waiting => if r.pending then { r with control := .looping } else r
  | .unstarted | .performing _ | .terminated => r

/-- The task that the thread is in goes on to another frame. -/
def goto (r : CompositeTaskRunner T F) (frame : F) : CompositeTaskRunner T F :=
  { r with control := .performing frame }

/-- The task returns. -/
def finish (r : CompositeTaskRunner T F) (task : T) : CompositeTaskRunner T F :=
  { r with tasks := r.tasks ++ [task], control := .looping }

/-- The task throws. -/
def escape (r : CompositeTaskRunner T F) : CompositeTaskRunner T F :=
  { r with control := .terminated, threadTerminated := true }

/-- The runner has the task: in its list, or in hand. -/
def Registered (r : CompositeTaskRunner T F) (taskOf : F → T) (task : T) : Prop :=
  task ∈ r.tasks ∨ ∃ frame, r.control = .performing frame ∧ taskOf frame = task

/-- The thread runs or is yet to be started. -/
def Alive (r : CompositeTaskRunner T F) : Prop :=
  r.control ≠ .terminated ∧ r.threadTerminated = false

section Steps

variable {taskOf : F → T} {task : T} {r : CompositeTaskRunner T F}

theorem Registered.start (h : r.Registered taskOf task) : r.start.Registered taskOf task := by
  unfold CompositeTaskRunner.start
  split
  · rename_i hcontrol
    rcases h with h | ⟨frame, hframe, -⟩
    · exact .inl h
    · rw [hcontrol] at hframe
      cases hframe
  · exact h

theorem Alive.start (h : r.Alive) : r.start.Alive := by
  unfold CompositeTaskRunner.start
  split
  · exact ⟨by simp [CompositeTaskRunner.wakeup], h.2⟩
  · exact h

variable {call : T → F} {isPending : T → Bool}

theorem Registered.advance (hcall : ∀ task, taskOf (call task) = task)
    (h : r.Registered taskOf task) :
    (r.advance isPending call).Registered taskOf task := by
  unfold CompositeTaskRunner.advance
  have hlist (hcontrol : ∀ frame, r.control ≠ .performing frame) : task ∈ r.tasks :=
    h.resolve_right fun ⟨frame, hframe, _⟩ => hcontrol frame hframe
  split
  · rename_i hcontrol
    exact .inl (hlist (by simp [hcontrol]))
  · rename_i i hcontrol
    have hmem := hlist (by simp [hcontrol])
    split
    · split
      · exact h
      · rename_i first rest htasks
        rw [htasks, List.mem_cons] at hmem
        split
        · rcases hmem with rfl | hmem
          · exact .inr ⟨call task, rfl, hcall task⟩
          · exact .inl hmem
        · refine .inl ?_
          show task ∈ rest ++ [first]
          rw [List.mem_append, List.mem_singleton]
          exact hmem.symm
    · exact .inl hmem
  · rename_i hcontrol
    have hmem := hlist (by simp [hcontrol])
    split <;> exact .inl hmem
  · exact h
  · exact h
  · exact h

theorem Alive.advance (h : r.Alive) : (r.advance isPending call).Alive := by
  unfold CompositeTaskRunner.advance
  split
  · exact ⟨by simp, h.2⟩
  · split
    · split
      · exact h
      · split <;> exact ⟨by simp, h.2⟩
    · exact ⟨by simp, h.2⟩
  · split
    · exact ⟨by simp, h.2⟩
    · exact h
  · exact h
  · exact h
  · exact h

variable {frame : F}

/-- A task is entered by its call. -/
theorem call_of_advance (h : (r.advance isPending call).control = .performing frame) :
    r.control = .performing frame ∨ ∃ task, frame = call task := by
  unfold CompositeTaskRunner.advance at h
  split at h
  · cases h
  · split at h
    · split at h
      · exact .inl h
      · split at h
        · cases h
          exact .inr ⟨_, rfl⟩
        · cases h
    · cases h
  · split at h
    · cases h
    · exact .inl h
  · exact .inl h
  · exact .inl h
  · exact .inl h

theorem Registered.goto {frame' : F} (hcontrol : r.control = .performing frame)
    (hsame : taskOf frame' = taskOf frame) (h : r.Registered taskOf task) :
    (r.goto frame').Registered taskOf task := by
  rcases h with h | ⟨held, hheld, htask⟩
  · exact .inl h
  · rw [hcontrol] at hheld
    cases hheld
    exact .inr ⟨frame', rfl, hsame.trans htask⟩

theorem Alive.goto (h : r.Alive) : (r.goto frame).Alive :=
  ⟨by simp [CompositeTaskRunner.goto], h.2⟩

theorem Registered.finish (hcontrol : r.control = .performing frame)
    (h : r.Registered taskOf task) : (r.finish (taskOf frame)).Registered taskOf task := by
  refine .inl ?_
  show task ∈ r.tasks ++ [taskOf frame]
  rw [List.mem_append, List.mem_singleton]
  rcases h with h | ⟨held, hheld, htask⟩
  · exact .inl h
  · rw [hcontrol] at hheld
    cases hheld
    exact .inr htask.symm

theorem Alive.finish (h : r.Alive) : (r.finish task).Alive :=
  ⟨by simp [CompositeTaskRunner.finish], h.2⟩

end Steps

end CompositeTaskRunner

end ActivemqCpp.Threads
