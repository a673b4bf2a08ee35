import ActivemqCpp.Decaf.ThreadPoolExecutor

/-!
# The worker count of `ThreadPoolExecutor`

The count in `ctl` is ahead of the list of workers while a worker is being added or taken off.
Each frame says what it still owes (`owed`), which worker it belongs to (`carried`) and
whether it is the one that goes from `TIDYING` to `TERMINATED`. A turn can do eight things to
the kernel and these weights (`Effect`); all but one turn do one of them (`act_effect`), and
each keeps the account (`Effect.account`).

The exception is the compare-and-set of `getTask`: a worker that leaves because it was idle
for too long, or because there are too many, has been counted out there, and
`processWorkerExit` counts it out once more. `workerCount_exact` is about the runs
without it; `workerCount_drifts` is a run with it, after which the count is below zero and the
run state one that does not exist.
-/

namespace ActivemqCpp.Decaf.ThreadPool

open Base List State

/-! ## Weights -/

/-- By how much the count is ahead of the list because of this frame. -/
def Frame.owed : Frame → Nat
  | .addWorkerLock _ | .addWorkerRecheck _ | .addWorkerAdd _ | .decrement | .decrementCas _ => 1
  | _ => 0

/-- The worker in the list that this frame belongs to. -/
def Frame.carried : Frame → Multiset WorkerId
  | .addWorkerStart _ w | .runWorker w _ | .runWorkerGot w | .runTask w _ | .workerExit w _
  | .workerExitRemove w _ => {w}
  | _ => 0

def Frame.tidies : Frame → Nat
  | .tidied => 1
  | _ => 0

abbrev Weight := Nat × Multiset WorkerId × Nat

def Frame.weight (f : Frame) : Weight := (f.owed, f.carried, f.tidies)

def Next.weight : Next → Weight
  | .goto frames => stackWeight Frame.weight frames
  | .ret _ => 0

theorem weight_resume (f : Frame) (value : Ret) :
    stackWeight Frame.weight (f.resume value) = f.weight := by
  unfold Frame.resume
  split <;> first | rfl | simp

theorem weight_apply (next : Next) (below : List Frame) :
    stackWeight Frame.weight (next.apply below) =
      next.weight + stackWeight Frame.weight below := by
  match next, below with
  | .goto frames, below => exact stackWeight_append _ _ _
  | .ret _, [] => rfl
  | .ret value, f :: below =>
    simp [Next.apply, stackWeight_append, weight_resume, Next.weight, stackWeight_cons, zero_add]

/-- What the local variables of a frame are known to satisfy. -/
def Frame.Sound : Frame → Prop
  | .addWorkerBound _ _ rs c => rs ≤ shutdown ∧ runStateOf c = rs
  | .addWorkerCas _ _ rs c => rs ≤ shutdown ∧ runStateOf c = rs ∧ workerCountOf c < capacity
  | .addWorkerReread _ _ rs => rs ≤ shutdown
  | .tryTerminateLock c | .tryTerminateCas c => c = shutdown ∨ c = stop
  | .advanceCas now c => c < Kernel.targetState now
  | _ => True

def Next.Sound : Next → Prop
  | .goto frames => ∀ f ∈ frames, f.Sound
  | .ret _ => True

theorem sound_resume (f : Frame) (hf : f.Sound) (value : Ret) : ∀ g ∈ f.resume value, g.Sound := by
  unfold Frame.resume
  split <;> simp_all [Frame.Sound]

theorem sound_apply {next : Next} (hnext : next.Sound) {below : List Frame}
    (hbelow : ∀ f ∈ below, f.Sound) : ∀ f ∈ next.apply below, f.Sound := by
  match next, below with
  | .goto frames, below =>
    intro f hf
    rcases mem_append.mp hf with hnew | hold
    · exact hnext f hnew
    · exact hbelow f hold
  | .ret _, [] => simp [Next.apply]
  | .ret value, g :: below =>
    intro f hf
    rcases mem_append.mp hf with hnew | hold
    · exact sound_resume g (hbelow g mem_cons_self) value f hnew
    · exact hbelow f (mem_cons_of_mem _ hold)

/-- Nothing has to be known of the local variables. -/
def Frame.plain : Frame → Bool
  | .addWorkerBound _ _ _ _ | .addWorkerCas _ _ _ _ | .addWorkerReread _ _ _
  | .tryTerminateLock _ | .tryTerminateCas _ | .advanceCas _ _ => false
  | _ => true

def Next.plain : Next → Bool
  | .goto frames => frames.all Frame.plain
  | .ret _ => true

theorem sound_of_plain {next : Next} (h : next.plain = true) : next.Sound := by
  cases next with
  | ret value => trivial
  | goto frames =>
    intro f hf
    have hplain := all_eq_true.mp h f hf
    cases f <;> trivial

/-! ## What a turn does -/

/-- What a turn does to `ctl` and the list of workers, and to the weight of the thread. -/
inductive Effect (k k' : Kernel) : Weight → Weight → Prop
  | quiet {W : Weight} (hctl : k'.ctl = k.ctl) (hworkers : k'.workers = k.workers) : Effect k k' W W
  /-- `addWorker` counts a worker in. -/
  | countIn (hstate : runStateOf k.ctl ≤ shutdown) (hroom : workerCountOf k.ctl < capacity)
      (hctl : k'.ctl = wrap 32 (k.ctl + 1)) (hworkers : k'.workers = k.workers) :
      Effect k k' 0 (1, 0, 0)
  | listIn (w : WorkerId) (hctl : k'.ctl = k.ctl) (hworkers : k'.workers = k.workers ++ [w]) :
      Effect k k' (1, 0, 0) (0, {w}, 0)
  | listOut (w : WorkerId) (hctl : k'.ctl = k.ctl) (hworkers : k'.workers = k.workers.erase w) :
      Effect k k' (0, {w}, 0) (1, 0, 0)
  | countOut (hctl : k'.ctl = wrap 32 (k.ctl - 1)) (hworkers : k'.workers = k.workers) :
      Effect k k' (1, 0, 0) 0
  | advance (now : Bool) (hless : k.ctl < Kernel.targetState now)
      (hctl : k'.ctl = wrap 32 (ctlOf (Kernel.targetState now) (workerCountOf k.ctl)))
      (hworkers : k'.workers = k.workers) : Effect k k' 0 0
  | tidy (hstate : k.ctl = shutdown ∨ k.ctl = stop) (hctl : k'.ctl = wrap 32 (ctlOf tidying 0))
      (hworkers : k'.workers = k.workers) : Effect k k' 0 (0, 0, 1)
  | finish (hctl : k'.ctl = ctlOf terminated 0) (hworkers : k'.workers = k.workers) :
      Effect k k' (0, 0, 1) 0

/-- The turn of a frame: what it does and that it leaves sound frames. -/
structure Turns (k : Kernel) (f : Frame) (turn : Turn) : Prop where
  effect : Effect k turn.kernel f.weight (turn.next.weight + total Frame.weight turn.started)
  next : turn.next.Sound
  started : Everywhere Frame.Sound turn.started

section Steps

variable {k k' : Kernel} {f : Frame} {turn : Turn} {frames : List Frame}

/-- A turn that leaves `ctl` and the list alone. -/
theorem turns_quiet {next : Next} (h : some ⟨k', next, []⟩ = some turn) (hctl : k'.ctl = k.ctl)
    (hworkers : k'.workers = k.workers) (hweight : next.weight = f.weight) (hsound : next.Sound) :
    Turns k f turn := by
  cases h
  refine ⟨?_, hsound, nofun⟩
  simp only [hweight, total_nil, add_zero]
  exact .quiet hctl hworkers

theorem turns_plain {next : Next} (h : some ⟨k', next, []⟩ = some turn)
    (hctl : k'.ctl = k.ctl := by rfl) (hworkers : k'.workers = k.workers := by rfl)
    (hweight : next.weight = f.weight := by rfl) (hplain : next.plain = true := by rfl) :
    Turns k f turn :=
  turns_quiet h hctl hworkers hweight (sound_of_plain hplain)

theorem turns_lock {me : Nat} (hweight : stackWeight Frame.weight frames = f.weight)
    (hsound : ∀ g ∈ frames, g.Sound) (h : k.lock me frames = some turn) : Turns k f turn := by
  obtain ⟨mainLock, -, rfl⟩ := Option.map_eq_some_iff.mp h
  refine ⟨?_, hsound, nofun⟩
  simp only [Next.weight, hweight, total_nil, add_zero]
  exact .quiet rfl rfl

/-- A compare-and-set: only one that succeeds does anything. -/
theorem turns_compareAndSet {c value : Int} {success : Next} {failed : List Frame}
    (h : k.compareAndSet c value success (.goto failed) = some turn)
    (hsuccess : k.ctl = c →
      Effect k { k with ctl := wrap 32 value } f.weight success.weight ∧ success.Sound)
    (hweight : stackWeight Frame.weight failed = f.weight) (hsound : ∀ g ∈ failed, g.Sound) :
    Turns k f turn := by
  unfold Kernel.compareAndSet at h
  split at h
  · next hctl =>
    cases h
    obtain ⟨heffect, hnext⟩ := hsuccess hctl
    exact ⟨by simpa using heffect, hnext, nofun⟩
  · exact turns_quiet h rfl rfl hweight hsound

theorem turns_ite {p : Prop} [Decidable p] {a b : Option Turn}
    (h : (if p then a else b) = some turn) (ha : p → a = some turn → Turns k f turn)
    (hb : ¬ p → b = some turn → Turns k f turn) : Turns k f turn := by
  split at h
  · next hp => exact ha hp h
  · next hp => exact hb hp h

end Steps

/-- Nobody is counted out in `getTask`. -/
def Frame.Spared (k : Kernel) : Frame → Prop
  | .getTaskCas _ _ c => k.ctl ≠ c
  | _ => True

instance (k : Kernel) (f : Frame) : Decidable (f.Spared k) := by
  cases f <;> unfold Frame.Spared <;> infer_instance

/-- What `tryTerminate` has seen when it goes for the lock. -/
theorem eligible {c : Int} (hrunning : ¬ isRunning c = true) (htidying : ¬ c ≥ tidying)
    (hcount : ¬ workerCountOf c ≠ 0) : c = shutdown ∨ c = stop := by
  have hpos : ¬ c < shutdown := fun hc => hrunning (decide_eq_true hc)
  simp only [shutdown] at hpos
  simp only [tidying] at htidying
  simp only [workerCountOf] at hcount
  simp only [shutdown, stop]
  omega

theorem act_effect {k : Kernel} {me : Nat} {choice : Choice} {f : Frame} {turn : Turn}
    (hsound : f.Sound) (hspared : f.Spared k) (h : k.act me choice f = some turn) :
    Turns k f turn := by
  cases f with
  | executeAdded | runWorkerGot | workerExitTerminated | setCoreAdded => cases h
  | executeReread | executeRemove | addWorker | addWorkerUnlock | addWorkerBackout
  | addWorkerBackoutUnlock | decrement | tryTerminate | getTask | workerExitUnlock | shutdownDrain
  | shutdownUnlock | setCore | setCoreQueue => exact turns_plain h
  | execute | executeOffer | addWorkerRecheck | tryTerminateUnlock | runTask | getTaskCheck
  | getTaskBound | getTaskReread | workerExitMin | setCoreCheck | setMaximum | allowTimeOut =>
    exact turns_ite h (fun _ h => turns_plain h) (fun _ h => turns_plain h)
  | executeRecheck | executeRemoved | setCoreRead =>
    exact turns_ite h (fun _ h => turns_plain h)
      (fun _ h => turns_ite h (fun _ h => turns_plain h) (fun _ h => turns_plain h))
  | runWorker w task => cases task <;> exact turns_plain h
  | setCoreLoop n => cases n <;> exact turns_plain h
  | addWorkerLock | workerExit | shutdownLock => exact turns_lock rfl (by simp [Frame.Sound]) h
  | addWorkerCheck firstTask core c =>
    refine turns_ite h (fun _ h => turns_plain h) (fun hopen h => ?_)
    have hle : runStateOf c ≤ shutdown := by
      by_contra hgt
      exact hopen ⟨by omega, fun hnull => hgt hnull.1.le⟩
    exact turns_quiet h rfl rfl rfl (by simpa [Next.Sound, Frame.Sound] using hle)
  | addWorkerBound firstTask core rs c =>
    refine turns_ite h (fun _ h => turns_plain h) (fun hroom h => ?_)
    have hcount : workerCountOf c < capacity := by
      by_contra hge
      exact hroom (.inl (by omega))
    exact turns_quiet h rfl rfl rfl (by simpa [Next.Sound] using ⟨hsound.1, hsound.2, hcount⟩)
  | addWorkerCas firstTask core rs c =>
    refine turns_compareAndSet h (fun hctl => ⟨?_, by simp [Next.Sound, Frame.Sound]⟩) rfl
      (by simpa [Frame.Sound] using hsound.1)
    subst hctl
    obtain ⟨hle, hstate, hroom⟩ := hsound
    exact .countIn (hstate.le.trans hle) hroom rfl rfl
  | addWorkerReread firstTask core rs =>
    exact turns_ite h (fun _ h => turns_plain h)
      (fun hsame h => turns_quiet h rfl rfl rfl
        (by simpa [Next.Sound] using ⟨hsound, not_not.mp hsame⟩))
  | addWorkerAdd firstTask =>
    cases h
    exact ⟨.listIn k.nextWorker rfl rfl, by simp [Next.Sound, Frame.Sound], nofun⟩
  | addWorkerStart firstTask w =>
    cases h
    exact ⟨.quiet rfl rfl, by simp [Next.Sound, Frame.Sound], by simp [Everywhere, Frame.Sound]⟩
  | decrementCas c =>
    refine turns_compareAndSet h (fun hctl => ⟨?_, trivial⟩) rfl (by simp [Frame.Sound])
    subst hctl
    exact .countOut rfl rfl
  | tryTerminateCheck c =>
    refine turns_ite h (fun _ h => turns_plain h) (fun hnot h => turns_ite h
      (fun _ h => turns_plain h) (fun hcount h => ?_))
    have hc := eligible (fun hr => hnot (.inl hr)) (fun ht => hnot (.inr (.inl ht))) hcount
    exact turns_quiet h rfl rfl rfl (by simpa [Next.Sound, Frame.Sound] using hc)
  | tryTerminateLock c => exact turns_lock rfl (by simpa [Frame.Sound] using hsound) h
  | tryTerminateCas c =>
    refine turns_compareAndSet h (fun hctl => ⟨?_, by simp [Next.Sound, Frame.Sound]⟩) rfl
      (by simp [Frame.Sound])
    subst hctl
    exact .tidy hsound rfl rfl
  | tidied =>
    cases h
    exact ⟨.finish rfl rfl, by simp [Next.Sound, Frame.Sound], nofun⟩
  | getTaskCas timedOut rs c =>
    exact turns_compareAndSet h (fun hctl => absurd hctl hspared) rfl (by simp [Frame.Sound])
  | getTaskPoll timed =>
    simp only [Kernel.act] at h
    split at h
    · exact turns_plain h
    · exact turns_ite h (fun _ h => turns_plain h) nofun
    · exact turns_plain h
    · cases h
  | workerExitRemove w completedAbruptly =>
    cases h
    exact ⟨.listOut w rfl rfl, by simp [Next.Sound, Frame.Sound], nofun⟩
  | workerExitRead completedAbruptly =>
    exact turns_ite h (fun _ h => turns_ite h (fun _ h => turns_plain h) (fun _ h => turns_plain h))
      (fun _ h => turns_plain h)
  | advanceRunState now =>
    exact turns_ite h (fun _ h => turns_plain h)
      (fun hless h => turns_quiet h rfl rfl rfl (by simpa [Next.Sound, Frame.Sound] using hless))
  | advanceCas now c =>
    refine turns_compareAndSet h (fun hctl => ⟨?_, by simp [Next.Sound, Frame.Sound]⟩) rfl
      (by simp [Frame.Sound])
    subst hctl
    exact .advance now hsound rfl rfl

/-! ## The account -/

/-- `ctl` against the list of workers and the weight of all threads. -/
structure Account (k : Kernel) (W : Weight) : Prop where
  low : running ≤ k.ctl
  count : workerCountOf k.ctl = k.workers.length + W.1
  workers : (k.workers : Multiset WorkerId) = W.2.1
  tidy : k.ctl < tidying ∧ W.2.2 = 0 ∨ k.ctl = tidying ∧ W.2.2 = 1 ∨
    k.ctl = terminated ∧ W.2.2 = 0

/-- The run state does not go back, and nobody is counted out of nobody. -/
def Forward (c c' : Int) : Prop :=
  runStateOf c ≤ runStateOf c' ∧ (c' < c → 0 < workerCountOf c)

theorem forward_self (c : Int) : Forward c c := ⟨le_rfl, fun h => absurd h (lt_irrefl c)⟩

/-- The account and the move by the numbers in them. -/
theorem account_of {k k' : Kernel} (n t : Nat) {owed tidies : Nat} {carried : Multiset WorkerId}
    (hworkers : k'.workers = k.workers) (hlist : ↑k.workers = carried)
    (hlow : -2 ^ 29 ≤ k'.ctl) (hcount : k'.ctl % 2 ^ 29 = k.workers.length + (n + owed))
    (htidy : k'.ctl < 2 * 2 ^ 29 ∧ t + tidies = 0 ∨ k'.ctl = 2 * 2 ^ 29 ∧ t + tidies = 1 ∨
      k'.ctl = 3 * 2 ^ 29 ∧ t + tidies = 0)
    (hstate : k.ctl - k.ctl % 2 ^ 29 ≤ k'.ctl - k'.ctl % 2 ^ 29)
    (hdown : k'.ctl < k.ctl → 0 < k.ctl % 2 ^ 29) :
    Account k' ((n, 0, t) + (owed, carried, tidies)) ∧ Forward k.ctl k'.ctl := by
  rw [← hworkers] at hlist hcount
  refine ⟨⟨hlow, ?_, ?_, htidy⟩, hstate, hdown⟩
  · simpa [workerCountOf] using hcount
  · simpa using hlist

theorem Effect.account {k k' : Kernel} {W W' rest : Weight} (h : Effect k k' W W')
    (hk : Account k (W + rest)) : Account k' (W' + rest) ∧ Forward k.ctl k'.ctl := by
  obtain ⟨owed, carried, tidies⟩ := rest
  obtain ⟨hlow, hcount, hlist, htidy⟩ := hk
  simp only [Prod.fst_add, Prod.snd_add, workerCountOf, running, tidying, terminated]
    at hlow hcount hlist htidy
  cases h with
  | quiet hctl hworkers =>
    refine ⟨⟨?_, ?_, ?_, ?_⟩, hctl ▸ forward_self _⟩
    · rw [hctl]
      exact hlow
    · rw [hctl, hworkers]
      exact hcount
    · rw [hworkers]
      exact hlist
    · rw [hctl]
      exact htidy
  | countIn hstate hroom hctl hworkers =>
    simp only [runStateOf, workerCountOf, shutdown, capacity] at hstate hroom
    rw [wrap_of_bounds] at hctl
    simp only [Prod.fst_zero, Prod.snd_zero, zero_add] at hcount hlist htidy
    refine account_of 1 0 hworkers hlist ?_ ?_ ?_ ?_ ?_ <;> omega
  | listIn w hctl hworkers =>
    refine ⟨⟨?_, ?_, ?_, ?_⟩, hctl ▸ forward_self _⟩
    · rw [hctl]
      exact hlow
    · simp only [workerCountOf, hworkers, length_append, length_singleton, Prod.mk_add_mk]
      omega
    · rw [hworkers, ← Multiset.coe_add, hlist]
      simp [add_comm]
    · rw [hctl]
      simpa [tidying, terminated] using htidy
  | listOut w hctl hworkers =>
    have hmem : w ∈ k.workers := by
      rw [← Multiset.mem_coe, hlist]
      simp
    have hpos := length_pos_of_mem hmem
    refine ⟨⟨?_, ?_, ?_, ?_⟩, hctl ▸ forward_self _⟩
    · rw [hctl]
      exact hlow
    · simp only [workerCountOf, hworkers, length_erase_of_mem hmem, Prod.mk_add_mk]
      omega
    · rw [hworkers, ← Multiset.coe_erase, hlist]
      simp
    · rw [hctl]
      simpa [tidying, terminated] using htidy
  | countOut hctl hworkers =>
    rw [wrap_of_bounds] at hctl
    refine account_of 0 0 hworkers (hlist.trans (zero_add _)) ?_ ?_ ?_ ?_ ?_ <;> omega
  | advance now hless hctl hworkers =>
    have htarget : Kernel.targetState now = 0 ∨ Kernel.targetState now = 2 ^ 29 := by
      cases now
      · exact .inl rfl
      · exact .inr rfl
    simp only [ctlOf, workerCountOf] at hctl
    rw [wrap_of_bounds] at hctl
    simp only [Prod.fst_zero, Prod.snd_zero, zero_add] at hcount hlist htidy
    refine account_of 0 0 hworkers hlist ?_ ?_ ?_ ?_ ?_ <;> omega
  | tidy hstate hctl hworkers =>
    simp only [shutdown, stop] at hstate
    have hctl' : k'.ctl = 2 * 2 ^ 29 := hctl.trans (by decide)
    simp only [Prod.fst_zero, Prod.snd_zero, zero_add] at hcount hlist htidy
    refine account_of 0 1 hworkers hlist ?_ ?_ ?_ ?_ ?_ <;> omega
  | finish hctl hworkers =>
    simp only [ctlOf, terminated] at hctl
    -- the thread that sets the state is the one that is tidying
    have htidying : k.ctl = 2 * 2 ^ 29 ∧ tidies = 0 := by
      dsimp only at htidy
      omega
    refine account_of 0 0 hworkers (hlist.trans (zero_add _)) ?_ ?_ ?_ ?_ ?_ <;> omega

/-! ## Runs -/

structure State.Inv (s : State) : Prop where
  account : Account s.kernel (total Frame.weight s.threads)
  sound : Everywhere Frame.Sound s.threads

theorem inv_new (corePoolSize maxPoolSize keepAliveTime : Int) :
    (new corePoolSize maxPoolSize keepAliveTime).Inv := by
  have hctl : ctlOf running 0 = running := add_zero running
  have hcount : workerCountOf running = 0 := by decide
  have htidy : running < tidying := by decide
  refine ⟨⟨?_, ?_, ?_, ?_⟩, nofun⟩ <;> simp [new, Kernel.new, hctl, hcount, htidy]

/-- No thread is about to count a worker out in `getTask`. -/
def State.Spared (s : State) : Event → Prop
  | .call _ => True
  | .turn thread _ => ∀ f ∈ (s.threads[thread]?).bind head?, f.Spared s.kernel

instance (s : State) (e : Event) : Decidable (s.Spared e) :=
  match e with
  | .call _ => .isTrue trivial
  | .turn thread _ =>
    inferInstanceAs (Decidable (∀ f ∈ (s.threads[thread]?).bind head?, f.Spared s.kernel))

/-- A client comes in: its frame weighs nothing. -/
theorem State.Inv.call {s : State} (hs : s.Inv) (call : Call) :
    (s.next (.call call)).Inv ∧ Forward s.kernel.ctl (s.next (.call call)).kernel.ctl := by
  have hweight : call.entry.weight = 0 := by cases call <;> rfl
  have hsound : call.entry.Sound := by cases call <;> trivial
  refine ⟨⟨?_, ?_⟩, forward_self _⟩
  · simpa [next, hweight] using hs.account
  · intro stack hstack
    rcases mem_append.mp hstack with hold | hnew
    · exact hs.sound stack hold
    · rw [mem_singleton.mp hnew]
      simpa using hsound

theorem State.Inv.turn {s : State} (hs : s.Inv) {thread : Nat} {choice : Choice}
    (hspared : s.Spared (.turn thread choice)) :
    (s.next (.turn thread choice)).Inv ∧
      Forward s.kernel.ctl (s.next (.turn thread choice)).kernel.ctl := by
  rcases hstack : s.threads[thread]? with _ | (_ | ⟨f, below⟩)
  · simpa only [next, hstack] using ⟨hs, forward_self _⟩
  · simpa only [next, hstack] using ⟨hs, forward_self _⟩
  rcases hact : s.kernel.act thread choice f with _ | turn
  · simpa only [next, hstack, hact] using ⟨hs, forward_self _⟩
  simp only [next, hstack, hact]
  have hframes := hs.sound.of_getElem? hstack
  have hf : f.Spared s.kernel := hspared f (by simp [hstack])
  obtain ⟨heffect, hnext, hstarted⟩ := act_effect (hframes f mem_cons_self) hf hact
  obtain ⟨rest, htotal, hset⟩ := total_eq_add_rest Frame.weight hstack
  have haccount := hs.account
  rw [htotal, stackWeight_cons, add_assoc] at haccount
  obtain ⟨haccount', hforward⟩ := heffect.account haccount
  refine ⟨⟨?_, ?_⟩, hforward⟩
  · have hweight : total Frame.weight (s.threads.set thread (turn.next.apply below) ++ turn.started) =
        turn.next.weight + total Frame.weight turn.started +
          (stackWeight Frame.weight below + rest) := by
      rw [total_append, hset, weight_apply]
      abel
    rw [hweight]
    exact haccount'
  · exact hs.sound.turn (sound_apply hnext fun g hg => hframes g (mem_cons_of_mem _ hg)) hstarted

theorem State.Inv.step (s : State) (e : Event) (hs : s.Inv) (hspared : s.Spared e) :
    (s.next e).Inv ∧ Forward s.kernel.ctl (s.next e).kernel.ctl := by
  match e, hspared with
  | .call call, _ => exact hs.call call
  | .turn _ _, hspared => exact hs.turn hspared

/-- Within `addWorker` or `processWorkerExit`; `decrementWorkerCount` is called from these two. -/
def Frame.inside : Frame → Bool
  | .addWorker _ _ | .addWorkerCheck _ _ _ | .addWorkerBound _ _ _ _ | .addWorkerCas _ _ _ _
  | .addWorkerReread _ _ _ | .addWorkerLock _ | .addWorkerRecheck _ | .addWorkerAdd _
  | .addWorkerStart _ _ | .addWorkerUnlock | .addWorkerBackout | .addWorkerBackoutUnlock
  | .workerExit _ _ | .workerExitRemove _ _ | .workerExitUnlock _ | .workerExitTerminated _
  | .workerExitRead _ | .workerExitMin _ | .decrement | .decrementCas _ => true
  | _ => false

/-- No thread is inside `addWorker` or between leaving `getTask` and the end of
`processWorkerExit`. -/
def State.Quiescent (s : State) : Prop := ∀ stack ∈ s.threads, ∀ f ∈ stack, f.inside = false

instance (s : State) : Decidable s.Quiescent :=
  inferInstanceAs (Decidable (∀ stack ∈ s.threads, ∀ f ∈ stack, f.inside = false))

theorem owed_of_not_inside {f : Frame} (h : f.inside = false) : f.owed = 0 := by
  cases f <;> first | rfl | cases h

/-- What the count of a pool is worth. -/
def State.Counted (s : State) : Prop :=
  (s.Quiescent → workerCountOf s.kernel.ctl = s.kernel.workers.length) ∧
    runStateOf s.kernel.ctl ∈ [running, shutdown, stop, tidying, terminated]

theorem State.Inv.counted {s : State} (hs : s.Inv) : s.Counted := by
  obtain ⟨hlow, hcount, -, htidy⟩ := hs.account
  refine ⟨fun hquiet => ?_, ?_⟩
  · have howed : (total Frame.weight s.threads).1 = 0 := by
      refine Everywhere.total (P := fun W : Weight => W.1 = 0) rfl (fun a b ha hb => ?_)
        fun stack hstack f hf => owed_of_not_inside (hquiet stack hstack f hf)
      rw [Prod.fst_add, ha, hb]
    omega
  · simp only [running, tidying, terminated] at hlow htidy
    simp only [runStateOf, running, shutdown, stop, tidying, terminated, mem_cons]
    omega

/-- In every run in which nobody is counted out in `getTask`, the count is that of the list
whenever the pool is quiescent, nobody is counted out of nobody, and the run state only
moves forward. -/
theorem workerCount_exact (corePoolSize maxPoolSize keepAliveTime : Int) (events : List Event)
    (hspared : machine.Meets Spared (new corePoolSize maxPoolSize keepAliveTime)
      events) :
    machine.Always Counted (new corePoolSize maxPoolSize keepAliveTime) events ∧
      machine.Meets (fun s e => Forward s.kernel.ctl (s.next e).kernel.ctl)
        (new corePoolSize maxPoolSize keepAliveTime) events := by
  have hnew := inv_new corePoolSize maxPoolSize keepAliveTime
  constructor
  · have halways := Machine.invariant_of_meets
      (fun s e hs he => (Inv.step s e hs he).1) hnew hspared
    exact halways.mono fun s hs => hs.counted
  · exact Machine.meets_of_invariant Inv.step hnew hspared

/-- A task is executed by the one worker of a pool, and the pool is shut down. -/
def sampleShutdown : List Event :=
  .call (.execute 7) :: (replicate 12 (.turn 0 .go) ++ replicate 10 (.turn 1 .go) ++
    .call .shutdown :: (replicate 7 (.turn 2 .go) ++ .turn 1 .interrupt ::
      replicate 14 (.turn 1 .go)))

theorem workerCount_exact_shutdown :
    (machine.run (new 0 1 1000) sampleShutdown).kernel.ctl = terminated ∧
      machine.Always Counted (new 0 1 1000) sampleShutdown :=
  ⟨by decide +kernel, (workerCount_exact 0 1 1000 sampleShutdown (by decide +kernel)).1⟩

/-- The same worker, when no further task comes before its time is up. -/
def sampleIdle : List Event :=
  .call (.execute 7) :: (replicate 12 (.turn 0 .go) ++ replicate 10 (.turn 1 .go) ++
    .turn 1 .timeOut :: replicate 13 (.turn 1 .go))

/-- No worker is left, but `ctl` says that there are as many as it can count, in a run state
before `RUNNING`. -/
theorem workerCount_drifts :
    (machine.run (new 0 1 1000) sampleIdle).Quiescent ∧
      (machine.run (new 0 1 1000) sampleIdle).kernel.workers = [] ∧
      workerCountOf (machine.run (new 0 1 1000) sampleIdle).kernel.ctl = capacity ∧
      runStateOf (machine.run (new 0 1 1000) sampleIdle).kernel.ctl < running := by
  decide +kernel

end ActivemqCpp.Decaf.ThreadPool
