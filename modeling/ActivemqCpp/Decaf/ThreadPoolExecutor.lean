import ActivemqCpp.Base.Machine
import ActivemqCpp.Base.ReentrantLock
import ActivemqCpp.Base.Threads
import ActivemqCpp.Decaf.Numbers

/-!
# `ThreadPoolExecutor`

The kernel of the executor with its threads, one atomic action at a time: a read of `ctl`, a
compare-and-set, taking or giving back `mainLock`, a call on the work queue or on the list of
workers. A frame is a place in the code just before such an action, with the local
variables that are still needed; a thread is a stack of frames. Any thread may take the next
turn.

What the queue and the tasks do is chosen from outside (`Choice`): whether `offer` is
refused, a wait is interrupted or runs out of time, a task throws. The thread factory and
`Thread::start` do not fail, the hooks do nothing, and interrupting a worker is left
to that choice.

`ctl` packs the run state above a worker count of 29 bits. The constants are multiples
of `2^29`, so that `c & CAPACITY` and `c & ~CAPACITY` are a remainder and what it leaves, below
zero as well.
-/

namespace ActivemqCpp.Decaf.ThreadPool

open Base

/-! ## `ctl` -/

def capacity : Int := 2 ^ 29 - 1

def running : Int := -2 ^ 29

def shutdown : Int := 0

def stop : Int := 2 ^ 29

def tidying : Int := 2 * 2 ^ 29

def terminated : Int := 3 * 2 ^ 29

/-- `c & ~CAPACITY`. -/
def runStateOf (c : Int) : Int := c - c % 2 ^ 29

/-- `c & CAPACITY`. -/
def workerCountOf (c : Int) : Int := c % 2 ^ 29

/-- `rs | wc`, for a run state and a count of at most 29 bits. -/
def ctlOf (rs wc : Int) : Int := rs + wc

def isRunning (c : Int) : Bool := c < shutdown

/-! ## Threads -/

abbrev Task := Nat

abbrev WorkerId := Nat

/-- Where a thread is. -/
inductive Frame where
  -- `execute`
  | execute (task : Task)
  | executeAdded (task : Task)
  | executeReread (task : Task)
  | executeOffer (task : Task) (c : Int)
  | executeRecheck (task : Task)
  | executeRemove (task : Task) (recheck : Int)
  | executeRemoved (removed : Bool) (recheck : Int)
  -- `addWorker`
  | addWorker (firstTask : Option Task) (core : Bool)
  | addWorkerCheck (firstTask : Option Task) (core : Bool) (c : Int)
  | addWorkerBound (firstTask : Option Task) (core : Bool) (rs c : Int)
  | addWorkerCas (firstTask : Option Task) (core : Bool) (rs c : Int)
  | addWorkerReread (firstTask : Option Task) (core : Bool) (rs : Int)
  | addWorkerLock (firstTask : Option Task)
  | addWorkerRecheck (firstTask : Option Task)
  | addWorkerAdd (firstTask : Option Task)
  | addWorkerStart (firstTask : Option Task) (w : WorkerId)
  | addWorkerUnlock
  | addWorkerBackout
  | addWorkerBackoutUnlock
  -- `decrementWorkerCount`
  | decrement
  | decrementCas (c : Int)
  -- `tryTerminate`
  | tryTerminate
  | tryTerminateCheck (c : Int)
  | tryTerminateLock (c : Int)
  | tryTerminateCas (c : Int)
  | tidied
  | tryTerminateUnlock (done : Bool)
  -- `runWorker`
  | runWorker (w : WorkerId) (task : Option Task)
  | runWorkerGot (w : WorkerId)
  | runTask (w : WorkerId) (task : Task)
  -- `getTask`
  | getTask (timedOut : Bool)
  | getTaskCheck (timedOut : Bool) (c : Int)
  | getTaskBound (timedOut : Bool) (rs c : Int)
  | getTaskCas (timedOut : Bool) (rs c : Int)
  | getTaskReread (timedOut : Bool) (rs : Int)
  | getTaskPoll (timed : Bool)
  -- `processWorkerExit`
  | workerExit (w : WorkerId) (completedAbruptly : Bool)
  | workerExitRemove (w : WorkerId) (completedAbruptly : Bool)
  | workerExitUnlock (completedAbruptly : Bool)
  | workerExitTerminated (completedAbruptly : Bool)
  | workerExitRead (completedAbruptly : Bool)
  | workerExitMin (c : Int)
  -- `shutdown` and `shutdownNow`
  | shutdownLock (now : Bool)
  | advanceRunState (now : Bool)
  | advanceCas (now : Bool) (c : Int)
  | shutdownDrain (now : Bool)
  | shutdownUnlock
  -- `setCorePoolSize`, `setMaximumPoolSize`, `allowCoreThreadTimeOut`
  | setCore (size : Int)
  | setCoreRead (delta size : Int)
  | setCoreQueue (delta : Int)
  | setCoreLoop (k : Nat)
  | setCoreAdded (k : Nat)
  | setCoreCheck (k : Nat)
  | setMaximum (size : Int)
  | allowTimeOut (value : Bool)
deriving DecidableEq, Repr

/-- What a call returns to the frame below it. -/
inductive Ret where
  | unit
  | flag (value : Bool)
  | task (value : Option Task)
deriving DecidableEq, Repr

/-- How the frame below goes on with what was returned. -/
def Frame.resume : Frame → Ret → List Frame
  | .executeAdded _, .flag true => []
  | .executeAdded task, _ => [.executeReread task]
  | .runWorkerGot w, .task (some task) => [.runTask w task]
  -- no task: the loop is left with `completedAbruptly = false`
  | .runWorkerGot w, _ => [.workerExit w false]
  | .workerExitTerminated _, .flag true => []
  | .workerExitTerminated completedAbruptly, _ => [.workerExitRead completedAbruptly]
  | .setCoreAdded k, .flag true => [.setCoreCheck k]
  | .setCoreAdded _, _ => []
  | f, _ => [f]

/-- The fields of `ExecutorKernel` that the worker count depends on. -/
structure Kernel where
  ctl : Int
  workers : List WorkerId
  nextWorker : WorkerId
  workQueue : List Task
  corePoolSize : Int
  maxPoolSize : Int
  keepAliveTime : Int
  coreThreadsCanTimeout : Bool
  mainLock : ReentrantLock Nat
deriving DecidableEq

/-- What is not up to the executor. -/
inductive Choice where
  | go
  /-- `offer` returns false; a task throws. -/
  | fail
  | timeOut
  | interrupt
deriving DecidableEq, Repr

/-- What the innermost frame does: it is replaced by others, or it returns. -/
inductive Next where
  | goto (frames : List Frame)
  | ret (value : Ret)
deriving DecidableEq, Repr

structure Turn where
  kernel : Kernel
  next : Next
  /-- The stacks of threads started. -/
  started : List (List Frame)

namespace Kernel

/-- `ExecutorKernel(...)`. -/
def new (corePoolSize maxPoolSize keepAliveTime : Int) : Kernel where
  ctl := ctlOf running 0
  workers := []
  nextWorker := 0
  workQueue := []
  corePoolSize := corePoolSize
  maxPoolSize := maxPoolSize
  keepAliveTime := keepAliveTime
  coreThreadsCanTimeout := false
  mainLock := .free

def goto (k : Kernel) (frames : List Frame) : Option Turn := some ⟨k, .goto frames, []⟩

def ret (k : Kernel) (value : Ret) : Option Turn := some ⟨k, .ret value, []⟩

/-- Taking `mainLock`; a thread that finds it taken waits. -/
def lock (k : Kernel) (me : Nat) (frames : List Frame) : Option Turn :=
  (k.mainLock.acquire me).map fun mainLock => ⟨{ k with mainLock }, .goto frames, []⟩

def unlock (k : Kernel) (me : Nat) : Kernel := { k with mainLock := k.mainLock.release me }

/-- `ctl.compareAndSet(c, value)`, and where to go on. -/
def compareAndSet (k : Kernel) (c value : Int) (success failure : Next) : Option Turn :=
  if k.ctl = c then some ⟨{ k with ctl := wrap 32 value }, success, []⟩
  else some ⟨k, failure, []⟩

/-- The state that `shutdown` and `shutdownNow` advance to. -/
def targetState (now : Bool) : Int := if now then stop else shutdown

/-- The turn of a thread whose innermost frame is the given one; `none`: it has to wait. -/
def act (k : Kernel) (me : Nat) (choice : Choice) : Frame → Option Turn
  | .execute task =>
    if workerCountOf k.ctl < k.corePoolSize then
      k.goto [.addWorker (some task) true, .executeAdded task]
    else k.goto [.executeOffer task k.ctl]
  | .executeAdded _ => none
  | .executeReread task => k.goto [.executeOffer task k.ctl]
  | .executeOffer task c =>
    if isRunning c ∧ choice ≠ .fail then
      { k with workQueue := k.workQueue ++ [task] }.goto [.executeRecheck task]
    -- the answer only decides about the rejection
    else k.goto [.addWorker (some task) false]
  | .executeRecheck task =>
    if isRunning k.ctl = false then k.goto [.executeRemove task k.ctl]
    else if workerCountOf k.ctl = 0 then k.goto [.addWorker none false]
    else k.ret .unit
  | .executeRemove task recheck =>
    { k with workQueue := k.workQueue.erase task }.goto
      [.tryTerminate, .executeRemoved (task ∈ k.workQueue) recheck]
  | .executeRemoved removed recheck =>
    if removed then k.ret .unit
    else if workerCountOf recheck = 0 then k.goto [.addWorker none false]
    else k.ret .unit
  | .addWorker firstTask core => k.goto [.addWorkerCheck firstTask core k.ctl]
  | .addWorkerCheck firstTask core c =>
    let rs := runStateOf c
    if rs ≥ shutdown ∧ ¬ (rs = shutdown ∧ firstTask = none ∧ k.workQueue ≠ []) then
      k.ret (.flag false)
    else k.goto [.addWorkerBound firstTask core rs c]
  | .addWorkerBound firstTask core rs c =>
    let wc := workerCountOf c
    if wc ≥ capacity ∨ wc ≥ (if core then k.corePoolSize else k.maxPoolSize) then
      k.ret (.flag false)
    else k.goto [.addWorkerCas firstTask core rs c]
  | .addWorkerCas firstTask core rs c =>
    k.compareAndSet c (c + 1) (.goto [.addWorkerLock firstTask])
      (.goto [.addWorkerReread firstTask core rs])
  | .addWorkerReread firstTask core rs =>
    if runStateOf k.ctl ≠ rs then k.goto [.addWorker firstTask core]
    else k.goto [.addWorkerBound firstTask core rs k.ctl]
  | .addWorkerLock firstTask => k.lock me [.addWorkerRecheck firstTask]
  | .addWorkerRecheck firstTask =>
    let rs := runStateOf k.ctl
    if rs ≥ shutdown ∧ ¬ (rs = shutdown ∧ firstTask = none) then
      k.goto [.decrement, .addWorkerBackout]
    else k.goto [.addWorkerAdd firstTask]
  | .addWorkerAdd firstTask =>
    { k with workers := k.workers ++ [k.nextWorker], nextWorker := k.nextWorker + 1 }.goto
      [.addWorkerStart firstTask k.nextWorker]
  | .addWorkerStart firstTask w =>
    some ⟨k, .goto [.addWorkerUnlock], [[.runWorker w firstTask]]⟩
  | .addWorkerUnlock => (k.unlock me).ret (.flag true)
  | .addWorkerBackout => k.goto [.tryTerminate, .addWorkerBackoutUnlock]
  | .addWorkerBackoutUnlock => (k.unlock me).ret (.flag false)
  | .decrement => k.goto [.decrementCas k.ctl]
  | .decrementCas c => k.compareAndSet c (c - 1) (.ret .unit) (.goto [.decrement])
  | .tryTerminate => k.goto [.tryTerminateCheck k.ctl]
  | .tryTerminateCheck c =>
    if isRunning c ∨ c ≥ tidying ∨ (runStateOf c = shutdown ∧ k.workQueue ≠ []) then
      k.ret (.flag false)
    else if workerCountOf c ≠ 0 then k.ret (.flag false)
    else k.goto [.tryTerminateLock c]
  | .tryTerminateLock c => k.lock me [.tryTerminateCas c]
  | .tryTerminateCas c =>
    k.compareAndSet c (ctlOf tidying 0) (.goto [.tidied]) (.goto [.tryTerminateUnlock false])
  | .tidied => { k with ctl := ctlOf terminated 0 }.goto [.tryTerminateUnlock true]
  | .tryTerminateUnlock done =>
    if done then (k.unlock me).ret (.flag true) else (k.unlock me).goto [.tryTerminate]
  | .runWorker w task =>
    match task with
    | some task => k.goto [.runTask w task]
    | none => k.goto [.getTask false, .runWorkerGot w]
  | .runWorkerGot _ => none
  | .runTask w _ =>
    if choice = .fail then k.goto [.workerExit w true] else k.goto [.runWorker w none]
  | .getTask timedOut => k.goto [.getTaskCheck timedOut k.ctl]
  | .getTaskCheck timedOut c =>
    let rs := runStateOf c
    if rs ≥ shutdown ∧ (rs ≥ stop ∨ k.workQueue = []) then k.ret (.task none)
    else k.goto [.getTaskBound timedOut rs c]
  | .getTaskBound timedOut rs c =>
    let wc := workerCountOf c
    let timed := k.coreThreadsCanTimeout || wc > k.corePoolSize
    if wc ≤ k.maxPoolSize ∧ ¬ (timedOut ∧ timed) then k.goto [.getTaskPoll timed]
    else k.goto [.getTaskCas timedOut rs c]
  | .getTaskCas timedOut rs c =>
    k.compareAndSet c (c - 1) (.ret (.task none)) (.goto [.getTaskReread timedOut rs])
  | .getTaskReread timedOut rs =>
    if runStateOf k.ctl ≠ rs then k.goto [.getTask timedOut]
    else k.goto [.getTaskBound timedOut rs k.ctl]
  | .getTaskPoll timed =>
    match choice, k.workQueue with
    | .interrupt, _ => k.goto [.getTask false]
    | .timeOut, _ => if timed then k.goto [.getTask true] else none
    | _, task :: workQueue => { k with workQueue }.ret (.task (some task))
    | _, [] => none
  | .workerExit w completedAbruptly => k.lock me [.workerExitRemove w completedAbruptly]
  | .workerExitRemove w completedAbruptly =>
    { k with workers := k.workers.erase w }.goto [.decrement, .workerExitUnlock completedAbruptly]
  | .workerExitUnlock completedAbruptly =>
    (k.unlock me).goto [.tryTerminate, .workerExitTerminated completedAbruptly]
  | .workerExitTerminated _ => none
  | .workerExitRead completedAbruptly =>
    if k.ctl < stop then
      if completedAbruptly then k.goto [.addWorker none false] else k.goto [.workerExitMin k.ctl]
    else k.ret .unit
  | .workerExitMin c =>
    let min := if k.coreThreadsCanTimeout then 0 else k.corePoolSize
    let min := if min = 0 ∧ k.workQueue ≠ [] then 1 else min
    if workerCountOf c ≥ min then k.ret .unit else k.goto [.addWorker none false]
  | .shutdownLock now => k.lock me [.advanceRunState now]
  | .advanceRunState now =>
    if k.ctl ≥ targetState now then k.goto [.shutdownDrain now]
    else k.goto [.advanceCas now k.ctl]
  | .advanceCas now c =>
    k.compareAndSet c (ctlOf (targetState now) (workerCountOf c)) (.goto [.shutdownDrain now])
      (.goto [.advanceRunState now])
  | .shutdownDrain now =>
    { k with workQueue := if now then [] else k.workQueue }.goto [.shutdownUnlock]
  | .shutdownUnlock => (k.unlock me).goto [.tryTerminate]
  | .setCore size =>
    { k with corePoolSize := size }.goto [.setCoreRead (size - k.corePoolSize) size]
  | .setCoreRead delta size =>
    if workerCountOf k.ctl > size then k.ret .unit
    else if delta > 0 then k.goto [.setCoreQueue delta]
    else k.ret .unit
  | .setCoreQueue delta => k.goto [.setCoreLoop (min delta k.workQueue.length).toNat]
  | .setCoreLoop n =>
    match n with
    | 0 => k.ret .unit
    | n + 1 => k.goto [.addWorker none true, .setCoreAdded n]
  | .setCoreAdded _ => none
  | .setCoreCheck n => if k.workQueue = [] then k.ret .unit else k.goto [.setCoreLoop n]
  | .setMaximum size =>
    if size ≤ 0 ∨ size < k.corePoolSize then k.ret .unit
    else { k with maxPoolSize := size }.ret .unit
  | .allowTimeOut value =>
    if value ∧ k.keepAliveTime ≤ 0 then k.ret .unit
    else { k with coreThreadsCanTimeout := value }.ret .unit

end Kernel

/-! ## The executor -/

structure State where
  kernel : Kernel
  threads : List (List Frame)
deriving DecidableEq

/-- The calls of the clients. -/
inductive Call where
  | execute (task : Task)
  | shutdown
  | shutdownNow
  | setCorePoolSize (size : Nat)
  | setMaximumPoolSize (size : Nat)
  | allowCoreThreadTimeOut (value : Bool)
deriving DecidableEq, Repr

def Call.entry : Call → Frame
  | .execute task => .execute task
  | .shutdown => .shutdownLock false
  | .shutdownNow => .shutdownLock true
  | .setCorePoolSize size => .setCore size
  | .setMaximumPoolSize size => .setMaximum size
  | .allowCoreThreadTimeOut value => .allowTimeOut value

inductive Event where
  /-- A client thread enters a call. -/
  | call (call : Call)
  /-- A thread takes its next turn. -/
  | turn (thread : Nat) (choice : Choice)
deriving DecidableEq, Repr

def State.new (corePoolSize maxPoolSize keepAliveTime : Int) : State :=
  ⟨.new corePoolSize maxPoolSize keepAliveTime, []⟩

/-- The stack of a thread whose innermost frame has made its turn. -/
def Next.apply : Next → List Frame → List Frame
  | .goto frames, below => frames ++ below
  | .ret _, [] => []
  | .ret value, f :: below => f.resume value ++ below

def State.next (s : State) : Event → State
  | .call call => { s with threads := s.threads ++ [[call.entry]] }
  | .turn thread choice =>
    match s.threads[thread]? with
    | none => s
    | some [] => s
    | some (f :: below) =>
      match s.kernel.act thread choice f with
      | none => s
      | some turn =>
        ⟨turn.kernel, s.threads.set thread (turn.next.apply below) ++ turn.started⟩

def machine : Machine State Event Unit where
  step s e := (s.next e, ())

end ActivemqCpp.Decaf.ThreadPool
