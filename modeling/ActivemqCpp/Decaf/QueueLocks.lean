import ActivemqCpp.Decaf.LinkedBlockingQueue

/-!
# The locks of the blocking queue

Every phase of a call has its holds: `Phase.holding` says how many holds of each lock the
call has added to those its thread came with. `Fits` says which moves agree with that,
move by move, and `advance_fits` that the steps of the operations take no others, except
at the exits listed in `Leaves`: those inside a `try` whose handler is not reached.

* `advance_fits`, `advance_leaves` — the steps of the operations;
* `perform_held` — a move that fits keeps the account of the locks;
* `lockInv_next` — the account holds after every step, whatever the step;
* `locks_released_iff` — no call leaves a lock behind iff no call takes one of those exits;
* `operations_exclude` — one call at a time has a lock, whatever the exits.
-/

namespace ActivemqCpp.Decaf.LinkedBlockingQueue

open Base (Machine ReentrantLock)
open State Phase
open Function

variable {E : Type}

/-! ## The account -/

/-- The holds that a call in this phase has added. -/
def Phase.holding (op : Op E) : Phase → Side → Nat
  | .looking, _ | .locking, _ | .waiting _, _ | .signalling _, _ | .enteringPut, _ => 0
  | .guarding _, side | .acting, side | .counting, side | .draining _, side
  | .unlocking _ _, side => if side = op.side then 1 else 0
  | .signalled _, side => if side = op.side.other then 1 else 0
  | .enteringTake, side => if side = .putting then 1 else 0
  | .inside, _ | .leavingPut _, _ => 1
  | .leavingTake _, side => if side = .taking then 1 else 0

def Phase.isWaiting : Phase → Bool
  | .waiting _ => true
  | _ => false

/-- The holds `h` of a call's thread are those it came with and those of the phase; a call
that waits has given back all of its side's and knows how many. -/
def Call.Held (c : Call E) (h : Side → Nat) : Prop :=
  match c.phase with
  | .waiting saved =>
    saved = c.before c.op.side + 1 ∧ ∀ side, h side = if side = c.op.side then 0 else c.before side
  | phase => ∀ side, h side = c.before side + phase.holding c.op side

variable {c : Call E}

theorem Call.held_iff {h : Side → Nat} (hc : c.phase.isWaiting = false) :
    c.Held h ↔ ∀ side, h side = c.before side + c.phase.holding c.op side := by
  unfold Call.Held
  split
  · rename_i saved hphase
    rw [hphase] at hc
    cases hc
  · exact Iff.rfl

def State.LockInv (s : State E) : Prop := ∀ t c, s.threads t = some c → c.Held (s.holds t)

/-- One hold of one lock. -/
def one (side : Side) : Side → Nat := fun x => if x = side then 1 else 0

/-- The move agrees with the holds of the phases it goes between. -/
def Fits (c : Call E) : Move → Prop
  | .goto next =>
    c.phase.isWaiting = false ∧ next.isWaiting = false ∧
      ∀ x, next.holding c.op x = c.phase.holding c.op x
  | .acquire side next =>
    c.phase.isWaiting = false ∧ next.isWaiting = false ∧
      ∀ x, next.holding c.op x = c.phase.holding c.op x + one side x
  | .await => c.phase.isWaiting = false ∧ ∀ x, c.phase.holding c.op x = one c.op.side x
  | .retake saved next =>
    c.phase = .waiting saved ∧ next.isWaiting = false ∧
      ∀ x, next.holding c.op x = one c.op.side x
  | .release side next =>
    c.phase.isWaiting = false ∧ next.isWaiting = false ∧
      ∀ x, c.phase.holding c.op x = next.holding c.op x + one side x
  | .releaseEnd side _ => c.phase.isWaiting = false ∧ ∀ x, c.phase.holding c.op x = one side x
  | .finish _ => c.phase.isWaiting = false ∧ ∀ x, c.phase.holding c.op x = 0

/-! ## The steps of the operations -/

/-- The exits that leave the lock locked: a timed operation out of time, `peek` on a chain
without nodes, and exceptions other than `decaf::lang::Exception`. -/
def Leaves (s : State E) (c : Call E) (choice : Choice) : Prop :=
  match c.phase, c.op with
  | .guarding nanos, .offerTimed _ _ => s.count = s.capacity ∧ nanos ≤ 0
  | .guarding nanos, .pollTimed _ => s.count = 0 ∧ nanos ≤ 0
  | .guarding _, .peek =>
    s.chain.head = some [] ∨ (s.nodes ≠ [] ∧ choice = .copyThrows false)
  | .acting, op => (op.side = .putting ∨ s.nodes ≠ []) ∧ choice = .copyThrows false
  | .draining result, _ =>
    (c.stored.length : Int) < result ∧ s.nodes ≠ [] ∧
      (choice = .copyThrows false ∨ choice = .sinkThrows false)
  | _, _ => False

/-- The phases in which a call holds its own lock and no other. -/
def Phase.Owns (op : Op E) (p : Phase) : Prop :=
  p.isWaiting = false ∧ ∀ x, p.holding op x = one op.side x

variable (op : Op E)

theorem owns_guarding (nanos : Int) : (guarding nanos).Owns op :=
  ⟨rfl, fun _ => rfl⟩

theorem owns_acting : acting.Owns op := ⟨rfl, fun _ => rfl⟩

theorem owns_counting : counting.Owns op := ⟨rfl, fun _ => rfl⟩

theorem owns_draining (result : Int) : (draining result).Owns op :=
  ⟨rfl, fun _ => rfl⟩

theorem owns_unlocking (wake : Bool) (result : Result) :
    (unlocking wake result).Owns op := ⟨rfl, fun _ => rfl⟩

section Steps

variable {c : Call E} (h : c.phase.Owns c.op)
include h

theorem Phase.Owns.goto {next : Phase} (hnext : next.Owns c.op) : Fits c (.goto next) :=
  ⟨h.1, hnext.1, fun x => (hnext.2 x).trans (h.2 x).symm⟩

theorem Phase.Owns.await : Fits c .await := h

/-- The handler for `decaf::lang::Exception` goes to the unlock. -/
theorem Phase.Owns.raise : Fits c (raise true) :=
  h.goto (owns_unlocking _ _ _)

variable (s : State E)

omit h

theorem look_fits (hphase : c.phase = .looking) : Fits c (s.look c).move := by
  have hfinish result : Fits c (.finish result) := by
    simp [Fits, hphase, isWaiting, holding]
  have hlock : Fits c (.goto .locking) := by
    simp [Fits, hphase, isWaiting, holding]
  unfold look
  split <;> simp only [turn]
  case h_5 => exact hlock
  all_goals
    split
    · exact hfinish _
    · exact hlock

theorem lock_fits (choice : Choice) (hphase : c.phase = .locking) :
    Fits c (s.lock c choice).move := by
  unfold lock
  simp only [turn]
  split
  · simp [Fits, hphase, isWaiting, holding]
  · refine ⟨by simp [hphase, isWaiting], rfl, ?_⟩
    intro x
    simp [hphase, holding, one]

variable {choice : Choice}

theorem guard_fits {nanos : Int} (hphase : c.phase = .guarding nanos)
    (hstay : ¬ Leaves s c choice) : Fits c (s.guard c nanos choice).move := by
  have howns : c.phase.Owns c.op := by
    rw [hphase]
    exact owns_guarding _ _
  have hact : Fits c (.goto .acting) := howns.goto (owns_acting _)
  have hunlock wake result : Fits c (.goto (.unlocking wake result)) :=
    howns.goto (owns_unlocking _ _ _)
  unfold Leaves at hstay
  rw [hphase] at hstay
  unfold State.guard
  rcases hop : c.op with value | ⟨value, time⟩ | value | _ | time | _ | _ | ⟨maxElements, toSelf⟩ |
    value | _ | _ | i <;> simp only [hop] at hstay ⊢
  case put | take =>
    split
    · exact howns.await
    · exact hact
  case offerTimed | pollTimed =>
    split
    · rename_i hfull
      rw [if_neg fun htime => hstay ⟨hfull, htime⟩]
      exact howns.await
    · exact hact
  case offer | poll =>
    split
    · exact hact
    · exact hunlock _ _
  case peek =>
    rcases hhead : s.chain.head with _ | _ | ⟨value, rest⟩
    · exact howns.raise
    · exact absurd (.inl hhead) hstay
    · have hnodes : s.nodes ≠ [] := by simp [nodes, hhead]
      cases choice with
      | copyThrows decaf =>
        cases decaf with
        | true => exact howns.raise
        | false => exact absurd (.inr ⟨hnodes, rfl⟩) hstay
      | go | interrupt | woken | sinkThrows => exact hunlock _ _
  case drainTo => exact howns.goto (owns_draining _ _)
  case remove | clear | read | unlink => exact howns.goto howns

theorem wait_fits {saved : Nat} (choice : Choice) (hphase : c.phase = .waiting saved) :
    Fits c (s.wait saved choice).move := by
  unfold wait
  split
  · exact ⟨hphase, owns_unlocking c.op _ _⟩
  · exact ⟨hphase, owns_guarding c.op _⟩

/-- `put` and `offer` link their element, the others take one off. -/
theorem act_cases (c : Call E) (choice : Choice) :
    (∃ value, c.op.side = .putting ∧ s.act c choice = s.link value choice) ∨
      (c.op.side = .taking ∧ s.act c choice = s.unhook choice) := by
  unfold act
  cases c.op with
  | put value | offer value | offerTimed value nanos => exact .inl ⟨value, rfl, rfl⟩
  | take | pollTimed | poll | peek | drainTo | remove | clear | read | unlink =>
    exact .inr ⟨rfl, rfl⟩

theorem act_fits (hphase : c.phase = .acting)
    (hstay : ¬ Leaves s c choice) : Fits c (s.act c choice).move := by
  have howns : c.phase.Owns c.op := by
    rw [hphase]
    exact owns_acting _
  have hcount : Fits c (.goto .counting) := howns.goto (owns_counting _)
  unfold Leaves at hstay
  rw [hphase] at hstay
  rcases act_cases s c choice with ⟨value, hside, hact⟩ | ⟨hside, hact⟩
  · rw [hact]
    unfold link
    split
    · rename_i decaf
      cases decaf with
      | true => exact howns.raise
      | false => exact absurd ⟨.inl hside, rfl⟩ hstay
    · exact hcount
  · rw [hact]
    unfold unhook
    rcases hhead : s.chain.head with _ | _ | ⟨value, rest⟩ <;> simp only [Chain.dequeue, hhead]
    · exact howns.raise
    · exact howns.raise
    · split
      · rename_i decaf
        cases decaf with
        | true => exact howns.raise
        | false => exact absurd ⟨.inr (by simp [nodes, hhead]), rfl⟩ hstay
      · exact hcount

theorem tally_fits (hphase : c.phase = .counting) : Fits c (s.tally c).move := by
  have howns : c.phase.Owns c.op := by
    rw [hphase]
    exact owns_counting _
  unfold tally
  split <;> exact howns.goto (owns_unlocking _ _ _)

theorem settle_fits (result : Result) (howns : c.phase.Owns c.op) :
    Fits c (s.settle c result).move := by
  unfold settle
  split <;> exact howns.goto (owns_unlocking _ _ _)

theorem drain_fits [Inhabited E] {result : Int} (hphase : c.phase = .draining result)
    (hstay : ¬ Leaves s c choice) :
    Fits c (s.drain c result choice).move := by
  have howns : c.phase.Owns c.op := by
    rw [hphase]
    exact owns_draining _ _
  unfold Leaves at hstay
  rw [hphase] at hstay
  unfold drain
  by_cases hmore : c.stored.length < result
  · rw [if_pos hmore]
    rcases hhead : s.chain.head with _ | _ | ⟨value, rest⟩
    · exact settle_fits s _ howns
    · exact settle_fits s _ howns
    · have hnodes : s.nodes ≠ [] := by simp [nodes, hhead]
      cases choice with
      | copyThrows decaf =>
        cases decaf with
        | true => exact settle_fits s _ howns
        | false => exact absurd ⟨hmore, hnodes, .inl rfl⟩ hstay
      | sinkThrows decaf =>
        cases decaf with
        | true => exact settle_fits s _ howns
        | false => exact absurd ⟨hmore, hnodes, .inr rfl⟩ hstay
      | go | interrupt | woken => exact howns.goto howns
  · rw [if_neg hmore]
    exact settle_fits s _ howns

theorem body_fits [DecidableEq E] (choice : Choice) (hphase : c.phase = .inside) :
    Fits c (s.body c choice).move := by
  have hleave result : Fits c (.goto (.leavingPut result)) := by
    simp [Fits, hphase, isWaiting, holding]
  unfold body
  split
  · exact hleave _
  · exact hleave _
  · dsimp only
    split
    · split <;> exact hleave _
    · split <;> exact hleave _
    · exact hleave _
    · exact hleave _

/-- Apart from the exits listed, every step agrees with the holds of its phases. -/
theorem advance_fits [DecidableEq E] [Inhabited E]
    (hstay : ¬ Leaves s c choice) : Fits c (s.advance c choice).move := by
  unfold advance
  rcases hphase : c.phase with _ | _ | nanos | saved | _ | _ | result | ⟨wake, result⟩ | result |
    result | _ | _ | _ | result | result
  case looking => exact look_fits s hphase
  case locking => exact lock_fits s choice hphase
  case guarding => exact guard_fits s hphase hstay
  case waiting => exact wait_fits s choice hphase
  case acting => exact act_fits s hphase hstay
  case counting => exact tally_fits s hphase
  case draining => exact drain_fits s hphase hstay
  case inside => exact body_fits s choice hphase
  case unlocking =>
    cases wake <;> simp [turn, Fits, hphase, isWaiting, holding, one]
  case signalling | signalled | enteringPut | leavingTake =>
    simp [turn, Fits, hphase, isWaiting, holding, one]
  case enteringTake | leavingPut =>
    refine ⟨by rw [hphase]; rfl, rfl, ?_⟩
    intro x
    rw [hphase]
    cases x <;> rfl

/-- At the exits listed the call ends, with its own lock held and no other. -/
theorem advance_leaves [DecidableEq E] [Inhabited E] (hleave : Leaves s c choice) :
    c.phase.Owns c.op ∧ ∃ result, (s.advance c choice).move = .finish result := by
  unfold Leaves at hleave
  unfold State.advance
  have hhead (h : s.nodes ≠ []) : ∃ value rest, s.chain.head = some (value :: rest) := by
    rcases hhead : s.chain.head with _ | _ | ⟨value, rest⟩
    · simp [State.nodes, hhead] at h
    · simp [State.nodes, hhead] at h
    · exact ⟨value, rest, rfl⟩
  split at hleave
  · rename_i nanos value time hphase hop
    rw [hphase]
    exact ⟨owns_guarding _ _, .returned false, by
      simp [State.guard, hop, State.turn, hleave.1, hleave.2]⟩
  · rename_i nanos time hphase hop
    rw [hphase]
    exact ⟨owns_guarding _ _, .returned false, by
      simp [State.guard, hop, State.turn, hleave.1, hleave.2]⟩
  · rename_i nanos hphase hop
    rw [hphase]
    refine ⟨owns_guarding _ _, ?_⟩
    rcases hleave with hnil | ⟨hnodes, hchoice⟩
    · exact ⟨.returned false, by simp [State.guard, hop, State.turn, hnil]⟩
    · obtain ⟨value, rest, hcons⟩ := hhead hnodes
      exact ⟨.threw false, by
        simp [State.guard, hop, State.turn, hcons, hchoice, State.raise]⟩
  · rename_i op hphase
    rw [hphase]
    refine ⟨owns_acting _, .threw false, ?_⟩
    obtain ⟨hcopy, hchoice⟩ := hleave
    show (s.act c choice).move = _
    rcases act_cases s c choice with ⟨value, hside, hact⟩ | ⟨hside, hact⟩
    · rw [hact, hchoice]
      rfl
    · obtain ⟨value, rest, hcons⟩ := hhead (hcopy.resolve_left (by simp [hside]))
      rw [hact, hchoice]
      simp [State.unhook, Chain.dequeue, hcons, State.turn, State.raise]
  · rename_i result hphase
    rw [hphase]
    obtain ⟨hmore, hnodes, hchoice⟩ := hleave
    obtain ⟨value, rest, hcons⟩ := hhead hnodes
    refine ⟨owns_draining _ _, .threw false, ?_⟩
    rcases hchoice with hchoice | hchoice <;> simp [State.drain, hmore, hcons, hchoice, State.turn]
  · exact hleave.elim

end Steps

/-! ## Carrying a step out -/

/-- Where a move goes on, or how it ends the call. -/
def Leads (P : Phase → Prop) (Q : Result → Prop) : Move → Prop
  | .goto next | .acquire _ next | .retake _ next | .release _ next => P next
  | .await => ∀ saved, P (.waiting saved)
  | .releaseEnd _ result | .finish result => Q result

namespace State

variable (s : State E)

theorem holds_setLock (side : Side) (lock : ReentrantLock Nat) (u : Nat) (x : Side) :
    (s.setLock side lock).holds u x = if x = side then lock.holds u else s.holds u x := by
  by_cases hx : x = side
  · subst hx
    simp [holds, setLock]
  · simp [holds, setLock, hx]

variable (t : Nat)
include t

@[simp] theorem holds_goto (c : Call E) (next : Phase) (u : Nat) :
    (s.goto t c next).holds u = s.holds u := rfl

@[simp] theorem threads_goto_self (c : Call E) (next : Phase) :
    (s.goto t c next).threads t = some { c with phase := next } := by
  simp [goto]

@[simp] theorem threads_finish_self (c : Call E) (result : Result) :
    (s.finish t c result).threads t = none := by
  simp [finish]

theorem perform_acquire (c : Call E) (side : Side) (next : Phase) :
    s.perform t c (.acquire side next) = s ∨ ∃ lock, (s.locks side).acquire t = some lock ∧
        s.perform t c (.acquire side next) = (s.setLock side lock).goto t c next := by
  rcases hlock : (s.locks side).acquire t with _ | lock
  · exact .inl (by simp [perform, hlock])
  · exact .inr ⟨lock, rfl, by simp [perform, hlock]⟩

theorem perform_retake (c : Call E) (saved : Nat) (next : Phase) :
    s.perform t c (.retake saved next) = s ∨
      ∃ lock, (s.locks c.op.side).retake t saved = some lock ∧
        s.perform t c (.retake saved next) = (s.setLock c.op.side lock).goto t c next := by
  rcases hlock : (s.locks c.op.side).retake t saved with _ | lock
  · exact .inl (by simp [perform, hlock])
  · exact .inr ⟨lock, rfl, by simp [perform, hlock]⟩

variable {m : Move} {Q : Result → Prop} {P : Phase → Prop}

/-- A move blocks, or changes the locks as far as its thread holds them and goes on where it
leads or ends the call. -/
theorem perform_cases (c : Call E)
    (h : Leads P Q m) : s.perform t c m = s ∨ ∃ locks : Side → ReentrantLock Nat,
      (∀ u, u ≠ t → ∀ x, (locks x).holds u = s.holds u x) ∧
      ((∃ next, P next ∧ s.perform t c m = { s with locks }.goto t c next) ∨
        ∃ result, Q result ∧ s.perform t c m = { s with locks }.finish t c result) := by
  have hset {side : Side} {lock : ReentrantLock Nat}
      (hlock : ∀ u, u ≠ t → lock.holds u = (s.locks side).holds u) :
      ∀ u, u ≠ t → ∀ x, (update s.locks side lock x).holds u = s.holds u x := by
    intro u hut x
    refine (s.holds_setLock side lock u x).trans ?_
    split
    · rename_i hx
      rw [hlock u hut, hx, holds]
    · rfl
  cases m with
  | goto next => exact .inr ⟨s.locks, fun _ _ _ => rfl, .inl ⟨next, h, rfl⟩⟩
  | acquire side next =>
    rcases perform_acquire s t c side next with heq | ⟨lock, hlock, heq⟩
    · exact .inl heq
    · exact .inr ⟨_, hset fun u hut => ReentrantLock.holds_acquire_of_ne hut hlock,
        .inl ⟨next, h, heq⟩⟩
  | await =>
    exact .inr ⟨_, hset fun u hut => ReentrantLock.holds_abandon_of_ne hut _, .inl ⟨_, h _, rfl⟩⟩
  | retake saved next =>
    rcases perform_retake s t c saved next with heq | ⟨lock, hlock, heq⟩
    · exact .inl heq
    · exact .inr ⟨_, hset fun u hut => ReentrantLock.holds_retake_of_ne hut hlock,
        .inl ⟨next, h, heq⟩⟩
  | release side next =>
    exact .inr ⟨_, hset fun u hut => ReentrantLock.holds_release_of_ne hut _, .inl ⟨next, h, rfl⟩⟩
  | releaseEnd side result =>
    exact .inr ⟨_, hset fun u hut => ReentrantLock.holds_release_of_ne hut _, .inr ⟨result, h, rfl⟩⟩
  | finish result => exact .inr ⟨s.locks, fun _ _ _ => rfl, .inr ⟨result, h, rfl⟩⟩

/-- The call of the thread that moves, and the log. -/
theorem perform_leads (c : Call E) (h : Leads P Q m) : s.perform t c m = s ∨
      (∃ next, P next ∧ (s.perform t c m).threads t = some { c with phase := next } ∧
        (s.perform t c m).log = s.log) ∨
      (∃ result, Q result ∧ (s.perform t c m).threads t = none ∧ (s.perform t c m).log =
        s.log ++ [⟨t, c.op, result, c.given, c.stored, c.before, (s.perform t c m).holds t⟩]) := by
  rcases perform_cases s t c h with heq | ⟨locks, -, ⟨next, hnext, heq⟩ | ⟨result, hend, heq⟩⟩
  · exact .inl heq
  · rw [heq]
    exact .inr (.inl ⟨next, hnext, threads_goto_self _ _ _ _, rfl⟩)
  · rw [heq]
    exact .inr (.inr ⟨result, hend, threads_finish_self _ _ _ _, rfl⟩)

omit t

theorem leads_trivial (m : Move) : Leads (fun _ => True) (fun _ => True) m := by
  cases m <;> simp [Leads]

variable {t : Nat}

/-- A move is about the thread that makes it. -/
theorem perform_of_ne {u : Nat} (c : Call E) (m : Move) (hne : u ≠ t) :
    (s.perform t c m).threads u = s.threads u ∧ (s.perform t c m).holds u = s.holds u := by
  rcases perform_cases s t c (leads_trivial m) with heq | ⟨locks, hlocks, hends⟩
  · rw [heq]
    exact ⟨rfl, rfl⟩
  · obtain ⟨_, -, heq⟩ | ⟨_, -, heq⟩ := hends <;> rw [heq] <;>
    exact ⟨update_of_ne hne _ _, funext (hlocks u hne)⟩

variable {c : Call E}

/-- A move that fits keeps the account of the thread that makes it. -/
theorem perform_held {s : State E}
    (hblocked : ∀ c', s.threads t = some c' → c'.Held (s.holds t)) (hheld : c.Held (s.holds t))
    (hfits : Fits c m) :
    ∀ c', (s.perform t c m).threads t = some c' → c'.Held ((s.perform t c m).holds t) := by
  intro c' hc'
  cases m with
  | goto next =>
    obtain ⟨hphase, hnext, hsame⟩ := hfits
    simp only [perform, threads_goto_self, Option.some.injEq] at hc'
    subst hc'
    rw [Call.held_iff hphase] at hheld
    rw [Call.held_iff hnext]
    intro x
    rw [hsame x]
    exact hheld x
  | acquire side next =>
    obtain ⟨hphase, hnext, hmore⟩ := hfits
    rcases perform_acquire s t c side next with h | ⟨lock, hlock, h⟩ <;> rw [h] at hc' ⊢
    · exact hblocked c' hc'
    · simp only [threads_goto_self, Option.some.injEq] at hc'
      subst hc'
      rw [Call.held_iff hphase] at hheld
      rw [Call.held_iff hnext]
      intro x
      rw [hmore x, holds_goto, holds_setLock, one]
      split
      · rename_i hx
        rw [ReentrantLock.holds_acquire hlock, ← Nat.add_assoc, ← hheld x, hx]
        rfl
      · exact hheld x
  | await =>
    obtain ⟨hphase, hown⟩ := hfits
    simp only [perform, threads_goto_self, Option.some.injEq] at hc'
    subst hc'
    rw [Call.held_iff hphase] at hheld
    refine ⟨?_, ?_⟩
    · rw [hheld, hown, one, if_pos rfl]
    · intro x
      show (s.setLock _ _).holds t x = _
      rw [holds_setLock]
      split
      · exact ReentrantLock.holds_abandon _ _
      · rename_i hx
        rw [hheld x, hown x, one, if_neg hx, Nat.add_zero]
  | retake saved next =>
    obtain ⟨hphase, hnext, hown⟩ := hfits
    rcases perform_retake s t c saved next with h | ⟨lock, hlock, h⟩ <;> rw [h] at hc' ⊢
    · exact hblocked c' hc'
    · simp only [threads_goto_self, Option.some.injEq] at hc'
      subst hc'
      rw [Call.Held, hphase] at hheld
      obtain ⟨hsaved, hothers⟩ := hheld
      rw [Call.held_iff hnext]
      intro x
      rw [hown x, holds_goto, holds_setLock, one]
      split
      · rename_i hx
        rw [ReentrantLock.holds_retake hlock, hsaved, hx]
      · rename_i hx
        rw [hothers x, if_neg hx, Nat.add_zero]
  | release side next =>
    obtain ⟨hphase, hnext, hless⟩ := hfits
    simp only [perform, threads_goto_self, Option.some.injEq] at hc'
    subst hc'
    rw [Call.held_iff hphase] at hheld
    rw [Call.held_iff hnext]
    intro x
    have hx := hheld x
    rw [hless x, one] at hx
    show (s.setLock _ _).holds t x = _
    rw [holds_setLock]
    split
    · rename_i hside
      subst hside
      rw [if_pos rfl] at hx
      rw [ReentrantLock.holds_release]
      show s.holds t x - 1 = c.before x + next.holding c.op x
      omega
    · rename_i hside
      rw [if_neg hside] at hx
      exact hx
  | releaseEnd side result => simp [perform] at hc'
  | finish result => simp [perform] at hc'

/-- A call that ends by a move that fits leaves the holds its thread came with. -/
theorem perform_ends {s : State E} (hin : s.threads t ≠ none)
    (hheld : c.Held (s.holds t)) (hfits : Fits c m) (hend : (s.perform t c m).threads t = none) :
    (s.perform t c m).holds t = c.before := by
  cases m with
  | releaseEnd side result =>
    obtain ⟨hphase, hown⟩ := hfits
    rw [Call.held_iff hphase] at hheld
    funext x
    have hx := hheld x
    rw [hown x, one] at hx
    show (s.setLock _ _).holds t x = _
    rw [holds_setLock]
    split
    · rename_i hside
      subst hside
      rw [if_pos rfl] at hx
      rw [ReentrantLock.holds_release]
      show s.holds t x - 1 = _
      omega
    · rename_i hside
      rw [if_neg hside] at hx
      exact hx
  | finish result =>
    obtain ⟨hphase, hnone⟩ := hfits
    rw [Call.held_iff hphase] at hheld
    funext x
    have hx := hheld x
    rw [hnone x] at hx
    exact hx
  | goto | await | release => simp [perform] at hend
  | acquire side next =>
    rcases perform_acquire s t c side next with h | ⟨lock, -, h⟩ <;> rw [h] at hend
    · exact absurd hend hin
    · simp at hend
  | retake saved next =>
    rcases perform_retake s t c saved next with h | ⟨lock, -, h⟩ <;> rw [h] at hend
    · exact absurd hend hin
    · simp at hend

end State

/-! ## Runs -/

/-- The call left no lock behind: its thread holds none that it did not hold before. -/
def Ended.Clean (e : Ended E) : Prop := ∀ side, 0 < e.after side → 0 < e.before side

variable [DecidableEq E] [Inhabited E] {s : State E} {choice : Choice}

/-- The account holds after every step: a call that leaves its lock locked is over, and
what its thread holds is what its next call comes with. -/
theorem State.LockInv.next (h : s.LockInv) (a : Event E) : (s.next a).LockInv := by
  intro u c' hc'
  cases a with
  | call t op =>
    rcases s.next_call t op with hnext | ⟨-, hnext⟩ <;> rw [hnext] at hc' ⊢
    · exact h u c' hc'
    · by_cases hu : u = t
      · subst hu
        simp only [enter, update_self, Option.some.injEq] at hc'
        subst hc'
        have hphase : op.entry.isWaiting = false := by cases op <;> rfl
        rw [Call.held_iff hphase]
        intro x
        have hnone : op.entry.holding op x = 0 := by cases op <;> rfl
        rw [hnone]
        rfl
      · simp only [enter, update_of_ne hu] at hc'
        exact h u c' hc'
  | step t choice =>
    rcases hc : s.threads t with _ | c
    · rw [next_idle hc] at hc' ⊢
      exact h u c' hc'
    · rw [next_step hc] at hc' ⊢
      by_cases hu : u = t
      · subst hu
        by_cases hleave : Leaves s c choice
        · obtain ⟨-, result, hmove⟩ := advance_leaves s hleave
          rw [hmove] at hc'
          simp [perform] at hc'
        · have hfits : Fits c (s.advance c choice).move := advance_fits s hleave
          exact perform_held (s := s.record u c (s.advance c choice))
            (c := keep c (s.advance c choice)) (h u) (h u c hc) hfits c' hc'
      · obtain ⟨hthreads, hholds⟩ := perform_of_ne (s.record t c (s.advance c choice))
          (keep c (s.advance c choice)) (s.advance c choice).move hu
        rw [hthreads] at hc'
        rw [hholds]
        exact h u c' hc'

/-- What a step does to the log, when it takes none of the exits listed: a call that ends
gives its thread the holds it came with. -/
theorem next_log_of_stays (h : s.LockInv) {t : Nat} (hc : s.threads t = some c)
    (hstay : ¬ Leaves s c choice) :
    (s.next (.step t choice)).log = s.log ∨
      ((s.next (.step t choice)).threads t = none ∧
        (s.next (.step t choice)).holds t = c.before ∧
        ∃ e, (s.next (.step t choice)).log = s.log ++ [e] ∧ e.after = e.before) := by
  rw [next_step hc]
  rcases perform_leads (s.record t c (s.advance c choice)) t
      (keep c (s.advance c choice)) (leads_trivial _) with
    hsame | ⟨next, -, -, hlog⟩ | ⟨result, -, hend, hlog⟩
  · rw [hsame]
    exact .inl rfl
  · exact .inl hlog
  · have hfits : Fits c (s.advance c choice).move := advance_fits s hstay
    have hafter := perform_ends (s := s.record t c (s.advance c choice))
      (c := keep c (s.advance c choice)) (by simp [record, hc]) (h t c hc) hfits hend
    exact .inr ⟨hend, hafter, _, hlog, hafter⟩

/-- At an exit listed the call ends, and its thread has one hold more than it came with. -/
theorem next_of_leaves (h : s.LockInv) {t : Nat} (hc : s.threads t = some c)
    (hleave : Leaves s c choice) :
    (s.next (.step t choice)).threads t = none ∧
      (∀ x, (s.next (.step t choice)).holds t x = c.before x + one c.op.side x) ∧
      ∃ e, (s.next (.step t choice)).log = s.log ++ [e] ∧ e.before = c.before ∧
        ∀ x, e.after x = c.before x + one c.op.side x := by
  obtain ⟨howns, result, hmove⟩ := advance_leaves s hleave
  have hheld := (Call.held_iff howns.1).mp (h t c hc)
  have hholds : ∀ x, s.holds t x = c.before x + one c.op.side x := by
    intro x
    rw [hheld x, howns.2 x]
  rw [next_step hc, hmove]
  exact ⟨threads_finish_self _ _ _ _, hholds, _, rfl, rfl, hholds⟩

/-- The condition: a call takes one of the exits listed only when its thread held the lock
before the call. -/
def Releases (s : State E) : Event E → Prop
  | .call _ _ => True
  | .step t choice => ∀ c, s.threads t = some c → Leaves s c choice → 0 < c.before c.op.side

/-- No thread holds a lock while it is outside the operations. -/
def State.NobodyLeft (s : State E) : Prop :=
  ∀ t, s.threads t = none → ∀ side, s.holds t side = 0

theorem State.log_call (s : State E) (t : Nat) (op : Op E) : (s.next (.call t op)).log = s.log := by
  rcases s.next_call t op with hnext | ⟨-, hnext⟩ <;> rw [hnext]
  rfl

variable {a : Event E}

/-- A step that meets the condition keeps the log clean. -/
theorem clean_next (hinv : s.LockInv) (hclean : ∀ e ∈ s.log, e.Clean)
    (hok : Releases s a) : ∀ e ∈ (s.next a).log, e.Clean := by
  have happend {log : List (Ended E)} {e : Ended E} (hlog : log = s.log ++ [e]) (he : e.Clean) :
      ∀ e ∈ log, e.Clean := by
    intro e' he'
    rw [hlog, List.mem_append, List.mem_singleton] at he'
    rcases he' with he' | rfl
    · exact hclean e' he'
    · exact he
  cases a with
  | call t op =>
    rw [log_call]
    exact hclean
  | step t choice =>
    rcases hc : s.threads t with _ | c
    · rw [next_idle hc]
      exact hclean
    · by_cases hleave : Leaves s c choice
      · obtain ⟨-, -, e, hlog, hbefore, hafter⟩ := next_of_leaves hinv hc hleave
        have hheld : 0 < c.before c.op.side := hok c hc hleave
        refine happend hlog ?_
        intro side hside
        rw [hafter side, one] at hside
        rw [hbefore]
        split at hside
        · rename_i hown
          rw [hown]
          exact hheld
        · exact hside
      · rcases next_log_of_stays hinv hc hleave with hlog | ⟨-, -, e, hlog, hsame⟩
        · rw [hlog]
          exact hclean
        · refine happend hlog ?_
          intro side hside
          rw [← hsame]
          exact hside

/-- What carries the second result: threads outside the operations hold nothing, and those
inside came with nothing. -/
structure State.Unheld (s : State E) : Prop where
  locks : s.LockInv
  nobody : s.NobodyLeft
  before : ∀ t c, s.threads t = some c → c.before = fun _ => 0

theorem State.Unheld.next (h : s.Unheld) (hok : Releases s a) : (s.next a).Unheld := by
  have hlocks := h.locks.next a
  cases a with
  | call t op =>
    rcases s.next_call t op with hnext | ⟨hout, hnext⟩
    · rw [hnext]
      exact h
    · rw [hnext] at hlocks ⊢
      refine ⟨hlocks, ?_, ?_⟩
      · intro u hu side
        by_cases hut : u = t
        · simp [enter, hut] at hu
        · simp only [enter, update_of_ne hut] at hu
          exact h.nobody u hu side
      · intro u c hc
        by_cases hut : u = t
        · simp only [enter, hut, update_self, Option.some.injEq] at hc
          subst hc
          funext side
          exact h.nobody t hout side
        · simp only [enter, update_of_ne hut] at hc
          exact h.before u c hc
  | step t choice =>
    rcases hc : s.threads t with _ | c
    · rw [next_idle hc]
      exact h
    · have hbefore := h.before t c hc
      have hstay : ¬ Leaves s c choice := by
        intro hleave
        have hheld := hok c hc hleave
        rw [hbefore] at hheld
        exact Nat.lt_irrefl 0 hheld
      have hfits : Fits c (s.advance c choice).move := advance_fits s hstay
      refine ⟨hlocks, ?_, ?_⟩
      · intro u hu side
        rw [next_step hc] at hu ⊢
        by_cases hut : u = t
        · subst hut
          rw [perform_ends (s := s.record u c (s.advance c choice))
            (c := keep c (s.advance c choice)) (by simp [record, hc]) (h.locks u c hc) hfits hu]
          exact congrFun hbefore side
        · obtain ⟨hthreads, hholds⟩ := perform_of_ne (s.record t c (s.advance c choice))
            (keep c (s.advance c choice)) (s.advance c choice).move hut
          rw [hthreads] at hu
          rw [hholds]
          exact h.nobody u hu side
      · intro u c' hc'
        rw [next_step hc] at hc'
        by_cases hut : u = t
        · subst hut
          rcases perform_leads (s.record u c (s.advance c choice)) u
              (keep c (s.advance c choice)) (leads_trivial _) with
            hsame | ⟨next, -, hgoes, -⟩ | ⟨result, -, hend, -⟩
          · rw [hsame] at hc'
            exact h.before u c' hc'
          · rw [hgoes] at hc'
            cases hc'
            exact hbefore
          · rw [hend] at hc'
            cases hc'
        · rw [(perform_of_ne (s.record t c (s.advance c choice))
            (keep c (s.advance c choice)) (s.advance c choice).move hut).1] at hc'
          exact h.before u c' hc'

/-- A step outside the condition ends a call whose thread has its lock and came without. -/
theorem breaks_of_not_releases (hinv : s.LockInv) (hno : ¬ Releases s a) :
    ∃ t c, (s.next a).threads t = none ∧ 0 < (s.next a).holds t c ∧
      ∃ e ∈ (s.next a).log, ¬ e.Clean := by
  cases a with
  | call t op => exact absurd trivial hno
  | step t choice =>
    obtain ⟨c, hno⟩ := not_forall.mp hno
    obtain ⟨hc, hno⟩ := Classical.not_imp.mp hno
    obtain ⟨hleave, hheld⟩ := Classical.not_imp.mp hno
    obtain ⟨hend, hholds, e, hlog, hbefore, hafter⟩ := next_of_leaves hinv hc hleave
    refine ⟨t, c.op.side, hend, ?_, e, ?_, ?_⟩
    · rw [hholds, one, if_pos rfl]
      exact Nat.succ_pos _
    · rw [hlog]
      exact List.mem_append_right _ (List.mem_singleton_self e)
    · intro hclean
      refine hheld ?_
      rw [← hbefore]
      refine hclean c.op.side ?_
      rw [hafter, one, if_pos rfl]
      exact Nat.succ_pos _

/-- **The queue releases its locks, exactly so far.** From any state with no call under
way, and in any interleaving: no call that returns or throws leaves its thread with a lock
that it did not hold before iff no call of a thread without the lock takes one of the
exits of `Leaves`. With both locks free at the start the same condition is equivalent to:
whoever holds a lock is inside an operation, so that a caller who blocks on one waits for
a call under way, never for one that has ended. -/
theorem locks_released_iff (capacity : Int) (chain : Chain E) (count : Int) (as : List (Event E)) :
    (∀ locks, machine.Always (fun s => ∀ e ∈ s.log, e.Clean)
        (quiet capacity chain count locks) as ↔
      machine.Meets Releases (quiet capacity chain count locks) as) ∧
    (machine.Always NobodyLeft (quiet capacity chain count fun _ => .free) as ↔
      machine.Meets Releases (quiet capacity chain count fun _ => .free) as) := by
  refine ⟨?_, ?_⟩
  · intro locks
    refine Machine.always_iff_meets (I := fun s => s.LockInv ∧ ∀ e ∈ s.log, e.Clean) ?_ ?_ ?_ ?_
    · rintro s a ⟨hinv, hclean⟩ hok
      exact ⟨hinv.next a, clean_next hinv hclean hok⟩
    · exact fun s h => h.2
    · rintro s a ⟨hinv, -⟩ hno hclean
      obtain ⟨-, -, -, -, e, he, hnot⟩ := breaks_of_not_releases hinv hno
      exact hnot (hclean e he)
    · exact ⟨fun t c hc => (by cases hc), fun e he => (by cases he)⟩
  · refine Machine.always_iff_meets (I := Unheld) ?_ ?_ ?_ ?_
    · exact fun s a h hok => h.next hok
    · exact fun s h => h.nobody
    · intro s a h hno hnobody
      obtain ⟨t, side, hend, hholds, -⟩ := breaks_of_not_releases h.locks hno
      exact hholds.ne' (hnobody t hend side)
    · exact ⟨fun t c hc => (by cases hc), fun t _ side => rfl, fun t c hc => (by cases hc)⟩

/-- A full queue of capacity 1: a timed `offer` that runs out of time returns false and
keeps `putLock`; the `put` of another thread, and its `remove`, which takes both locks,
then wait for a thread that is in no operation. The same on an empty queue with a timed
`poll` and `takeLock`. -/
theorem timed_out_keeps_lock :
    (let s := machine.run (new 1 [7] : State Nat)
      [.call 0 (.offerTimed 8 0), .step 0 .go, .step 0 .go,
        .call 1 (.put 9), .step 1 .go, .call 2 (.remove 7), .step 2 .go]
    s.threads 0 = none ∧ s.holds 0 .putting = 1 ∧
      s.log.map (fun e => (e.result, e.before .putting, e.after .putting)) =
        [(.returned false, 0, 1)] ∧
      (s.threads 1).map Call.phase = some .locking ∧
      (s.threads 2).map Call.phase = some .enteringPut) ∧
    (let s := machine.run (new 1 [] : State Nat)
      [.call 0 (.pollTimed 0), .step 0 .go, .step 0 .go, .call 1 .take, .step 1 .go]
    s.threads 0 = none ∧ s.holds 0 .taking = 1 ∧
      s.log.map (fun e => (e.result, e.before .taking, e.after .taking)) =
        [(.returned false, 0, 1)] ∧
      (s.threads 1).map Call.phase = some .locking) := by
  refine ⟨⟨rfl, ?_, ?_, ?_, ?_⟩, ⟨rfl, ?_, ?_, ?_⟩⟩ <;> decide

/-- Calls that have both added a hold of one lock are one call. -/
def State.Exclusive (s : State E) : Prop :=
  ∀ side t u c d, s.threads t = some c → s.threads u = some d →
    0 < c.phase.holding c.op side → 0 < d.phase.holding d.op side → t = u

omit [DecidableEq E] [Inhabited E] in
theorem State.LockInv.holds_pos (h : s.LockInv) {side : Side} {t : Nat}
    (hc : s.threads t = some c) (hpos : 0 < c.phase.holding c.op side) : 0 < s.holds t side := by
  have hphase : c.phase.isWaiting = false := by
    cases hp : c.phase with
    | waiting saved => simp [hp, Phase.holding] at hpos
    | _ => rfl
  rw [(Call.held_iff hphase).mp (h t c hc) side]
  exact Nat.add_pos_right _ hpos

/-- **Exclusion.** In every interleaving of all operations, whoever holds the locks at the start
and also behind a call that has left its lock locked, at most one call at a time is between
taking a lock and giving it back. -/
theorem operations_exclude (capacity : Int) (chain : Chain E) (count : Int)
    (locks : Side → ReentrantLock Nat) (as : List (Event E)) :
    machine.Always Exclusive (quiet capacity chain count locks) as := by
  have hinv : machine.Always LockInv (quiet capacity chain count locks) as :=
    Machine.invariant_of_meets (fun s a h _ => h.next a) (fun t c hc => (by cases hc))
      (Machine.meets_of_forall (fun a _ => trivial) _)
  refine hinv.mono fun s h side t u c d hc hd ht hu => ?_
  exact ReentrantLock.eq_of_holds_pos (h.holds_pos hc ht) (h.holds_pos hd hu)

end ActivemqCpp.Decaf.LinkedBlockingQueue
