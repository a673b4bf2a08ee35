import ActivemqCpp.Core.ConnectionAudit

/-!
# The connection's audit, scope by scope

The scope of a message of a queue is the queue, that of any other message the dispatcher
it came to. What the audit is for is one set of messages, each kept with its scope
(`scopedMachine`).

* `connectionAudit_exact` — the audit answers like that set and calls of one scope leave
  the answers in every other alone, if `ActiveMQDestination::compareTo` orders the queues
  in use.
* `connectionAudit_confuses_queues` — it takes `a b` and `ab` for one queue.
-/

namespace ActivemqCpp.Core

open ConnectionAudit

open Base Commands Decaf List LinkedHashMap MessageAudit

/-- `removeDispatcher(dispatcher)`. -/
def ConnectionAudit.removeDispatcher {δ : Type} [DecidableEq δ] (c : ConnectionAudit δ)
    (dispatcher : δ) : ConnectionAudit δ :=
  { c with dispatchers := remove dispatcher c.dispatchers }

/-- A call on the connection's audit; a message is its destination, its producer and its
sequence id. -/
inductive ConnectionAuditCall (δ : Type) where
  | isDuplicate (dispatcher : δ) (destination : Destination) (producer : ProducerId)
      (sequence : Nat)
  | rollbackDuplicate (dispatcher : δ) (destination : Destination) (producer : ProducerId)
      (sequence : Nat)
  | removeDispatcher (dispatcher : δ)

/-- Where messages are told apart. -/
inductive Scope (δ : Type) where
  | queue (destination : Destination)
  | dispatcher (dispatcher : δ)
deriving DecidableEq

/-- The scope of a message. -/
def scopeOf {δ : Type} (dispatcher : δ) (destination : Destination) : Scope δ :=
  if destination.isQueue then .queue destination else .dispatcher dispatcher

/-- The scope's queue, if it has one, is of `K`. -/
def Scope.Within {δ : Type} (K : Destination → Prop) : Scope δ → Prop
  | .queue destination => K destination
  | .dispatcher _ => True

namespace ConnectionAuditCall

variable {δ : Type}

def scope : ConnectionAuditCall δ → Scope δ
  | isDuplicate dispatcher destination _ _ => scopeOf dispatcher destination
  | rollbackDuplicate dispatcher destination _ _ => scopeOf dispatcher destination
  | removeDispatcher dispatcher => .dispatcher dispatcher

/-- The message that the call is about. -/
def message : ConnectionAuditCall δ → Option (ProducerId × Nat)
  | isDuplicate _ _ producer sequence => some (producer, sequence)
  | rollbackDuplicate _ _ producer sequence => some (producer, sequence)
  | removeDispatcher _ => none

end ConnectionAuditCall

section Machines

variable {δ : Type} [DecidableEq δ]

/-- The source's audit: an answer for `isDuplicate`, none for the other calls. -/
def connectionAuditMachine :
    Machine (ConnectionAudit δ) (ConnectionAuditCall δ) (Except Exn (Option Bool)) where
  step c
    | .isDuplicate dispatcher destination p n =>
      let r := c.isDuplicate dispatcher (some destination) (some ⟨some p, n⟩)
      (r.1, r.2.map some)
    | .rollbackDuplicate dispatcher destination p n =>
      let r := c.rollbackDuplicate dispatcher (some destination) (some ⟨some p, n⟩)
      (r.1, r.2.map fun _ => none)
    | .removeDispatcher dispatcher => (c.removeDispatcher dispatcher, .ok none)

/-- What the audit is for: the messages presented in each scope and not rolled back since;
a dispatcher that is removed starts again. -/
def scopedMachine : Machine (List (Scope δ × ProducerId × Nat)) (ConnectionAuditCall δ)
    (Except Exn (Option Bool)) where
  step seen
    | .isDuplicate dispatcher destination p n =>
      let m := (scopeOf dispatcher destination, p, n)
      (m :: seen, .ok (some (decide (m ∈ seen))))
    | .rollbackDuplicate dispatcher destination p n =>
      (seen.filter (· ≠ (scopeOf dispatcher destination, p, n)), .ok none)
    | .removeDispatcher dispatcher => (seen.filter (·.1 ≠ .dispatcher dispatcher), .ok none)

/-- The messages seen in a scope. -/
def seenIn (scope : Scope δ) (seen : List (Scope δ × ProducerId × Nat)) : List (ProducerId × Nat) :=
  (seen.filter (·.1 = scope)).map Prod.snd

/-- The calls whose messages a scope's audit files. -/
def producersIn (scope : Scope δ) (calls : List (ConnectionAuditCall δ)) : List ProducerId :=
  ((calls.filter (·.scope = scope)).filterMap fun call => call.message.map Prod.fst).dedup

/-- The queues that the calls are about. -/
def queuesOf (calls : List (ConnectionAuditCall δ)) : List Destination :=
  calls.filterMap fun call =>
    match call.scope with
    | .queue destination => some destination
    | .dispatcher _ => none

theorem mem_seenIn {scope : Scope δ} {seen : List (Scope δ × ProducerId × Nat)}
    {m : ProducerId × Nat} : m ∈ seenIn scope seen ↔ (scope, m) ∈ seen := by
  simp [seenIn]

variable (seen : List (Scope δ × ProducerId × Nat))
include seen

theorem seenIn_filter (scope : Scope δ) (keep : Scope δ × ProducerId × Nat → Bool) :
    seenIn scope (seen.filter keep) = (seenIn scope seen).filter fun m => keep (scope, m) := by
  induction seen with
  | nil => rfl
  | cons e seen ih =>
    obtain ⟨scope', m⟩ := e
    by_cases hscope : scope' = scope
    · subst hscope
      by_cases hkeep : keep (scope', m) = true
      · simpa [seenIn, hkeep] using ih
      · simpa [seenIn, hkeep] using ih
    · by_cases hkeep : keep (scope', m) = true
      · simpa [seenIn, hscope] using ih
      · simpa [seenIn, hscope] using ih

theorem seenIn_cons (scope scope' : Scope δ) (m : ProducerId × Nat) :
    seenIn scope ((scope', m) :: seen) =
      if scope' = scope then m :: seenIn scope seen else seenIn scope seen := by
  by_cases hscope : scope' = scope <;> simp [seenIn, hscope]

end Machines

/-! ## One audit per scope -/

namespace ConnectionAudit

variable {δ : Type} [DecidableEq δ]

/-- The audit of a scope. -/
def auditAt (c : ConnectionAudit δ) : Scope δ → Option MessageAudit
  | .queue destination => StlMap.find Destination.less destination c.destinations
  | .dispatcher dispatcher => get dispatcher c.dispatchers

theorem auditOf_eq (c : ConnectionAudit δ) (dispatcher : δ) (destination : Destination) :
    c.auditOf dispatcher destination = c.auditAt (scopeOf dispatcher destination) := by
  unfold auditOf scopeOf
  split <;> rfl

/-- The queues that are filed are of `K`, in order, and no dispatcher is filed twice. -/
structure Wf (K : Destination → Prop) (c : ConnectionAudit δ) : Prop where
  destinations : StlMap.Wf Destination.less K c.destinations
  dispatchers : c.dispatchers.keys.Nodup

section Laws

variable {K : Destination → Prop} {c : ConnectionAudit δ} {scope : Scope δ} {dispatcher : δ}
  {destination : Destination} (hK : StlMap.OrderedOn Destination.less K)
include hK

theorem wf_store (hc : c.Wf K)
    (hscope : (scopeOf dispatcher destination).Within K) (a : MessageAudit) :
    (c.store dispatcher destination a).Wf K := by
  unfold store
  unfold scopeOf at hscope
  split
  · rename_i hqueue
    rw [if_pos hqueue] at hscope
    exact { hc with destinations := StlMap.wf_put hK hc.destinations hscope a }
  · exact { hc with dispatchers := nodup_keys_put hc.dispatchers a }

/-- The audits of the other scopes stay. -/
theorem auditAt_store (hc : c.Wf K)
    (hscope : (scopeOf dispatcher destination).Within K) (hother : scope.Within K)
    (a : MessageAudit) : (c.store dispatcher destination a).auditAt scope =
      if scopeOf dispatcher destination = scope then some a else c.auditAt scope := by
  split
  · rename_i heq
    rw [← heq, ← auditOf_eq, auditOf_store]
  · rename_i hne
    unfold store
    unfold scopeOf at hscope hne
    split
    · rename_i hqueue
      rw [if_pos hqueue] at hscope hne
      cases scope with
      | queue d =>
        refine StlMap.find_put_of_ne hK hc.destinations hscope hother (fun heq => hne ?_) a
        rw [heq]
      | dispatcher x => rfl
    · rename_i hqueue
      rw [if_neg hqueue] at hne
      cases scope with
      | queue d => rfl
      | dispatcher x =>
        refine get_put_of_ne (fun heq => hne ?_) a
        rw [heq]

omit hK

theorem auditAt_removeDispatcher (hc : c.Wf K) :
    (c.removeDispatcher dispatcher).auditAt scope =
      if .dispatcher dispatcher = scope then none else c.auditAt scope := by
  cases scope with
  | queue d => rfl
  | dispatcher x =>
    by_cases hx : dispatcher = x
    · subst hx
      rw [if_pos rfl]
      exact get_remove_self hc.dispatchers
    · rw [if_neg (by simpa using hx)]
      exact get_remove_of_ne (Ne.symm hx)

end Laws

/-- A new audit with the connection's settings. -/
def fresh (c : ConnectionAudit δ) : MessageAudit :=
  MessageAudit.new c.auditDepth c.auditMaximumProducerNumber

@[simp] theorem fresh_store (c : ConnectionAudit δ) (dispatcher : δ) (destination : Destination)
    (a : MessageAudit) : (c.store dispatcher destination a).fresh = c.fresh := by
  unfold store
  split <;> rfl

end ConnectionAudit

/-! ## The simulation -/

/-- The ids that fit into an `int`. -/
def intIds : Set (ProducerId × Nat) := { m | (m.2 : Int) ≤ maxInt }

theorem foldsApart_intIds : FoldsApart intIds := foldsApart_of_le fun _ hm => hm

section Simulation

variable {δ : Type} [DecidableEq δ] {K : Destination → Prop} {producers : Scope δ → List ProducerId}
  {c : ConnectionAudit δ} {seen : List (Scope δ × ProducerId × Nat)}

/-- Every scope's audit represents the messages seen in the scope. -/
structure ScopedRepresents (K : Destination → Prop) (producers : Scope δ → List ProducerId)
    (c : ConnectionAudit δ) (seen : List (Scope δ × ProducerId × Nat)) : Prop where
  check : c.checkForDuplicates = true
  wf : c.Wf K
  represents : ∀ scope : Scope δ, scope.Within K →
    Represents intIds (producers scope) ((c.auditAt scope).getD c.fresh) (seenIn scope seen)
  fresh : ∀ scope : Scope δ, Represents intIds (producers scope) c.fresh []

variable (hK : StlMap.OrderedOn Destination.less K) (h : ScopedRepresents K producers c seen)
include hK h

/-- The audit of one scope takes a call, and the set of its messages does the same. -/
theorem ScopedRepresents.store {dispatcher : δ} {destination : Destination}
    (hscope : (scopeOf dispatcher destination).Within K) {a : MessageAudit}
    {seen' : List (Scope δ × ProducerId × Nat)}
    (hhere : Represents intIds (producers (scopeOf dispatcher destination)) a
      (seenIn (scopeOf dispatcher destination) seen'))
    (hthere : ∀ scope, scopeOf dispatcher destination ≠ scope →
      seenIn scope seen' = seenIn scope seen) :
    ScopedRepresents K producers (c.store dispatcher destination a) seen' where
  check := by rw [checkForDuplicates_store]; exact h.check
  wf := wf_store hK h.wf hscope a
  represents scope hwithin := by
    rw [auditAt_store hK h.wf hscope hwithin, fresh_store]
    split
    · rename_i heq
      subst heq
      exact hhere
    · rename_i hne
      rw [hthere scope hne]
      exact h.represents scope hwithin
  fresh scope := by
    rw [fresh_store]
    exact h.fresh scope

variable (dispatcher : δ) (destination : Destination)

theorem scopedRepresents_isDuplicate
    (hscope : (scopeOf dispatcher destination).Within K) {p : ProducerId} {n : Nat}
    (hid : (p, n) ∈ intIds) (hp : p ∈ producers (scopeOf dispatcher destination)) :
    ScopedRepresents K producers
        (connectionAuditMachine.step c (.isDuplicate dispatcher destination p n)).1
        ((scopeOf dispatcher destination, p, n) :: seen) ∧
      (connectionAuditMachine.step c (.isDuplicate dispatcher destination p n)).2 =
        .ok (some (decide ((scopeOf dispatcher destination, p, n) ∈ seen))) := by
  obtain ⟨hnext, hanswer⟩ := represents_step foldsApart_intIds (h.represents _ hscope)
    (c := .isDuplicate p n) ⟨hid, hp⟩
  have hcode : connectionAuditMachine.step c (.isDuplicate dispatcher destination p n) =
      (c.store dispatcher destination
        (auditMachine.step ((c.auditAt (scopeOf dispatcher destination)).getD c.fresh)
          (.isDuplicate p n)).1,
      (auditMachine.step ((c.auditAt (scopeOf dispatcher destination)).getD c.fresh)
        (.isDuplicate p n)).2) := by
    simp only [connectionAuditMachine, ConnectionAudit.isDuplicate, h.check,
      ConnectionAudit.auditOf_eq]
    rfl
  rw [hcode]
  refine ⟨h.store hK hscope ?_ fun scope hne => ?_, ?_⟩
  · rw [seenIn_cons, if_pos rfl]
    exact hnext
  · rw [seenIn_cons, if_neg hne]
  · rw [hanswer]
    simp [presentedMachine, mem_seenIn]

omit hK in
/-- A scope without an audit has seen nothing. -/
theorem ScopedRepresents.seenIn_eq_nil {scope : Scope δ}
    (hscope : scope.Within K) (hnone : c.auditAt scope = none) : seenIn scope seen = [] := by
  have hrepresents := h.represents scope hscope
  rw [hnone] at hrepresents
  refine eq_nil_iff_forall_not_mem.mpr ?_
  rintro ⟨p, n⟩ hm
  have hmarked := (hrepresents.bits p _).mpr ⟨n, hm, rfl⟩
  exact Bool.false_ne_true hmarked

theorem scopedRepresents_rollbackDuplicate
    (hscope : (scopeOf dispatcher destination).Within K) {p : ProducerId} {n : Nat}
    (hid : (p, n) ∈ intIds) (hp : p ∈ producers (scopeOf dispatcher destination)) :
    ScopedRepresents K producers
        (connectionAuditMachine.step c (.rollbackDuplicate dispatcher destination p n)).1
        (seen.filter (· ≠ (scopeOf dispatcher destination, p, n))) ∧
      (connectionAuditMachine.step c (.rollbackDuplicate dispatcher destination p n)).2 =
        .ok none := by
  have hhere : seenIn (scopeOf dispatcher destination)
        (seen.filter (· ≠ (scopeOf dispatcher destination, p, n))) =
      (seenIn (scopeOf dispatcher destination) seen).filter (· ≠ (p, n)) := by
    rw [seenIn_filter]
    simp
  have hthere : ∀ scope, scopeOf dispatcher destination ≠ scope →
      seenIn scope (seen.filter (· ≠ (scopeOf dispatcher destination, p, n))) =
        seenIn scope seen := by
    intro scope hne
    rw [seenIn_filter, filter_eq_self]
    intro m _
    simp [Ne.symm hne]
  cases haudit : c.auditAt (scopeOf dispatcher destination) with
  | none =>
    -- nothing was seen in the scope, so there is nothing to roll back
    have hnil := h.seenIn_eq_nil hscope haudit
    have hcode : connectionAuditMachine.step c (.rollbackDuplicate dispatcher destination p n) =
        (c, .ok none) := by
      simp [connectionAuditMachine, rollbackDuplicate, h.check, auditOf_eq, haudit, Except.map]
    rw [hcode]
    refine ⟨{ h with represents := fun scope hwithin => ?_ }, rfl⟩
    by_cases heq : scopeOf dispatcher destination = scope
    · subst heq
      rw [hhere]
      simpa [hnil] using h.represents _ hwithin
    · rw [hthere scope heq]
      exact h.represents scope hwithin
  | some a =>
    have hrepresents := h.represents _ hscope
    rw [haudit] at hrepresents
    obtain ⟨hnext, hanswer⟩ := represents_step foldsApart_intIds hrepresents
      (c := .rollback p n) ⟨hid, hp⟩
    have hcode : connectionAuditMachine.step c (.rollbackDuplicate dispatcher destination p n) =
        (c.store dispatcher destination (auditMachine.step a (.rollback p n)).1,
        (auditMachine.step a (.rollback p n)).2) := by
      simp only [connectionAuditMachine, rollbackDuplicate, h.check, auditOf_eq, haudit]
      rfl
    rw [hcode]
    refine ⟨h.store hK hscope ?_ hthere, hanswer⟩
    rw [hhere]
    exact hnext

omit hK in
theorem scopedRepresents_removeDispatcher :
    ScopedRepresents K producers (c.removeDispatcher dispatcher)
      (seen.filter (·.1 ≠ .dispatcher dispatcher)) where
  check := h.check
  wf := { h.wf with dispatchers := nodup_keys_remove h.wf.dispatchers }
  represents scope hwithin := by
    rw [auditAt_removeDispatcher h.wf, seenIn_filter]
    split
    · rename_i heq
      subst heq
      have hnil : (seenIn (.dispatcher dispatcher) seen).filter
          (fun m => decide (((.dispatcher dispatcher : Scope δ), m).1 ≠ .dispatcher dispatcher)) = [] := by
        simp
      rw [hnil]
      exact h.fresh (.dispatcher dispatcher)
    · rename_i hne
      have hall : (seenIn scope seen).filter
          (fun m => decide ((scope, m).1 ≠ .dispatcher dispatcher)) = seenIn scope seen := by
        simp [Ne.symm hne]
      rw [hall]
      exact h.represents scope hwithin
  fresh := h.fresh

/-- **One call**, in the scope of its message. -/
theorem scopedRepresents_step {call : ConnectionAuditCall δ} (hscope : call.scope.Within K)
    (hmessage : ∀ m, call.message = some m → m ∈ intIds ∧ m.1 ∈ producers call.scope) :
    ScopedRepresents K producers (connectionAuditMachine.step c call).1
        (scopedMachine.step seen call).1 ∧
      (connectionAuditMachine.step c call).2 = (scopedMachine.step seen call).2 := by
  cases call with
  | isDuplicate dispatcher destination p n =>
    obtain ⟨hid, hp⟩ := hmessage (p, n) rfl
    exact scopedRepresents_isDuplicate hK h dispatcher destination hscope hid hp
  | rollbackDuplicate dispatcher destination p n =>
    obtain ⟨hid, hp⟩ := hmessage (p, n) rfl
    exact scopedRepresents_rollbackDuplicate hK h dispatcher destination hscope hid hp
  | removeDispatcher dispatcher => exact ⟨scopedRepresents_removeDispatcher h dispatcher, rfl⟩

end Simulation

/-! ## Runs -/

section Runs

variable {δ : Type} [DecidableEq δ]

/-- The ids fit into an `int`, and in no scope are there more producers than an audit can
file. -/
structure Audited (calls : List (ConnectionAuditCall δ)) : Prop where
  ids : ∀ call ∈ calls, ∀ m, call.message = some m → m.2 ≤ 2 ^ 31 - 1
  room : ∀ scope, (producersIn scope calls).length ≤ trackedProducers

/-- The audit throws nothing and answers every call as the set of messages does. -/
def ScopedExact (auditDepth : Nat) (maxProducers : Int) (calls : List (ConnectionAuditCall δ)) :
    Prop :=
  connectionAuditMachine.trace (.new auditDepth maxProducers) calls = scopedMachine.trace [] calls

/-- The calls of a scope are answered as if there were no others. -/
def ScopeAlone (auditDepth : Nat) (maxProducers : Int) (calls : List (ConnectionAuditCall δ))
    (scope : Scope δ) : Prop :=
  ((calls.zip (connectionAuditMachine.trace (.new auditDepth maxProducers) calls)).filter
      fun x => x.1.scope = scope).map Prod.snd =
    connectionAuditMachine.trace (.new auditDepth maxProducers)
      (calls.filter fun call => call.scope = scope)

variable {calls : List (ConnectionAuditCall δ)} {call : ConnectionAuditCall δ}

omit [DecidableEq δ] in
theorem within_queuesOf (hcall : call ∈ calls) : call.scope.Within (· ∈ queuesOf calls) := by
  cases hscope : call.scope with
  | queue d => exact mem_filterMap.mpr ⟨call, hcall, by rw [hscope]⟩
  | dispatcher x => trivial

theorem mem_producersIn (hcall : call ∈ calls) {m : ProducerId × Nat} (hm : call.message = some m) :
    m.1 ∈ producersIn call.scope calls := by
  refine mem_dedup.mpr (mem_filterMap.mpr ⟨call, ?_, by rw [hm]; rfl⟩)
  exact mem_filter.mpr ⟨hcall, by simp⟩

theorem scopedRepresents_new (auditDepth : Nat) (maxProducers : Int) (hcalls : Audited calls) :
    ScopedRepresents (· ∈ queuesOf calls) (producersIn · calls)
      (.new auditDepth maxProducers : ConnectionAudit δ) [] := by
  have hfresh : ∀ scope : Scope δ, Represents intIds (producersIn scope calls)
      (MessageAudit.new auditDepth maxProducers) [] := by
    intro scope
    refine ⟨MessageAudit.tracks_new (Int.natCast_nonneg auditDepth) maxProducers ?_, nofun,
      fun p i => ?_⟩
    · rw [length_map]
      exact hcalls.room scope
    · simp [MessageAudit.marked_new]
  refine ⟨rfl, ⟨StlMap.wf_nil, nodup_nil⟩, fun scope _ => ?_, hfresh⟩
  cases scope with
  | queue d => exact hfresh (.queue d)
  | dispatcher x => exact hfresh (.dispatcher x)

/-- **Every run** over ordered queues is answered like the set, by simulation. -/
theorem scopedExact_of_ordered (auditDepth : Nat) (maxProducers : Int) (hcalls : Audited calls)
    (hqueues : StlMap.OrderedOn Destination.less (· ∈ queuesOf calls)) :
    ScopedExact auditDepth maxProducers calls := by
  have hok : ∀ call ∈ calls, call ∈ calls := fun _ h => h
  refine (Machine.trace_eq_of_simulation
    (R := ScopedRepresents (· ∈ queuesOf calls) (producersIn · calls))
    (fun c seen call h hcall => scopedRepresents_step hqueues h (within_queuesOf hcall) ?_)
    (scopedRepresents_new auditDepth maxProducers hcalls) (Machine.meets_of_forall hok _)).1
  intro m hm
  have hle := hcalls.ids call hcall m hm
  refine ⟨?_, mem_producersIn hcall hm⟩
  show m.2 ≤ maxInt
  unfold maxInt
  omega

/-- Part of the calls asks for no more. -/
theorem Audited.filter (h : Audited calls)
    (keep : ConnectionAuditCall δ → Bool) : Audited (calls.filter keep) where
  ids call hcall := h.ids call (mem_of_mem_filter hcall)
  room scope := by
    have hsub : (producersIn scope (calls.filter keep)).Subperm (producersIn scope calls) := by
      refine (nodup_dedup _).subperm fun p hp => ?_
      unfold producersIn at hp ⊢
      rw [mem_dedup] at hp ⊢
      obtain ⟨call, hcall, hmessage⟩ := mem_filterMap.mp hp
      obtain ⟨hin, hscope⟩ := mem_filter.mp hcall
      exact mem_filterMap.mpr ⟨call, mem_filter.mpr ⟨mem_of_mem_filter hin, hscope⟩, hmessage⟩
    exact hsub.length_le.trans (h.room scope)

/-- The set of messages answers the calls of a scope without looking at the others. -/
theorem scopedMachine_local (scope : Scope δ) (calls : List (ConnectionAuditCall δ)) :
    ((calls.zip (scopedMachine.trace [] calls)).filter
        fun x => x.1.scope = scope).map Prod.snd =
      scopedMachine.trace [] (calls.filter fun call => call.scope = scope) := by
  have hmem : ∀ {seen seen' : List (Scope δ × ProducerId × Nat)},
      seenIn scope seen = seenIn scope seen' → ∀ m, (scope, m) ∈ seen ↔ (scope, m) ∈ seen' := by
    intro seen seen' hR m
    rw [← mem_seenIn, hR, mem_seenIn]
  refine Machine.trace_filter_of_local scopedMachine (fun call => call.scope = scope)
    (R := fun seen seen' => seenIn scope seen = seenIn scope seen')
    (fun seen seen' call hin hR => ?_) (fun seen seen' call hout hR => ?_) rfl calls
  · have hscope : call.scope = scope := of_decide_eq_true hin
    cases call with
    | isDuplicate dispatcher destination p n =>
      change scopeOf dispatcher destination = scope at hscope
      simp [scopedMachine, hscope, seenIn_cons, hR, hmem hR]
    | rollbackDuplicate dispatcher destination p n | removeDispatcher dispatcher =>
      exact ⟨by simp only [scopedMachine, seenIn_filter, hR], rfl⟩
  · have hscope : call.scope ≠ scope := of_decide_eq_false hout
    rw [← hR]
    cases call with
    | isDuplicate dispatcher destination p n =>
      exact (seenIn_cons seen scope _ (p, n)).trans (if_neg hscope)
    | rollbackDuplicate dispatcher destination p n =>
      change scopeOf dispatcher destination ≠ scope at hscope
      simp [scopedMachine, seenIn_filter, Ne.symm hscope]
    | removeDispatcher dispatcher =>
      change Scope.dispatcher dispatcher ≠ scope at hscope
      simp [scopedMachine, seenIn_filter, Ne.symm hscope]

/-- **The connection's audit.** Over queues that `compareTo` orders, every run of calls is
answered as by the set of messages presented in each scope and not rolled back since, and
the calls of a scope are answered as if there were no others. -/
theorem connectionAudit_exact (auditDepth : Nat) (maxProducers : Int)
    (calls : List (ConnectionAuditCall δ)) (hcalls : Audited calls)
    (hqueues : StlMap.OrderedOn Destination.less (· ∈ queuesOf calls)) :
    ScopedExact auditDepth maxProducers calls ∧
      ∀ scope, ScopeAlone auditDepth maxProducers calls scope := by
  have hexact := scopedExact_of_ordered auditDepth maxProducers hcalls hqueues
  refine ⟨hexact, fun scope => ?_⟩
  have hpart : ScopedExact auditDepth maxProducers (calls.filter fun call => call.scope = scope) := by
    refine scopedExact_of_ordered auditDepth maxProducers (hcalls.filter _) ?_
    have hsub : ∀ {d}, d ∈ queuesOf (calls.filter fun call => call.scope = scope) →
        d ∈ queuesOf calls := by
      intro d hd
      obtain ⟨call, hcall, hd⟩ := mem_filterMap.mp hd
      exact mem_filterMap.mpr ⟨call, mem_of_mem_filter hcall, hd⟩
    exact ⟨fun ha => hqueues.irrefl (hsub ha),
      fun ha hb hc => hqueues.trans (hsub ha) (hsub hb) (hsub hc),
      fun ha hb => hqueues.total (hsub ha) (hsub hb)⟩
  rw [ScopeAlone, hexact, hpart]
  exact scopedMachine_local scope calls

end Runs

/-! ## Sample runs -/

def sampleQueue : Destination := ⟨.queue, "ab".toUTF8.toList⟩

def sampleTopic : Destination := ⟨.topic, "t".toUTF8.toList⟩

/-- Two dispatchers on one queue and on one topic, and one of them is removed. -/
def sampleAuditCalls : List (ConnectionAuditCall Nat) :=
  [.isDuplicate 1 sampleQueue sampleProducer 1, .isDuplicate 2 sampleQueue sampleProducer 1,
    .isDuplicate 1 sampleTopic sampleProducer 1, .isDuplicate 2 sampleTopic sampleProducer 1,
    .removeDispatcher 1, .isDuplicate 1 sampleTopic sampleProducer 1,
    .rollbackDuplicate 2 sampleQueue sampleProducer 1,
    .isDuplicate 1 sampleQueue sampleProducer 1]

/-- Calls about one message. -/
theorem audited_of_one {calls : List (ConnectionAuditCall Nat)}
    (h : ∀ call ∈ calls, ∀ m ∈ call.message, m = (sampleProducer, 1)) : Audited calls where
  ids call hcall m hm := by
    rw [h call hcall m hm]
    decide
  room scope := by
    have hsub : (producersIn scope calls).Subperm [sampleProducer] := by
      refine (nodup_dedup _).subperm fun p hp => ?_
      obtain ⟨call, hcall, hmessage⟩ := mem_filterMap.mp (mem_dedup.mp hp)
      obtain ⟨m, hm, rfl⟩ := Option.map_eq_some_iff.mp hmessage
      rw [h call (mem_of_mem_filter hcall) m hm]
      exact mem_cons_self
    exact hsub.length_le.trans (by decide)

theorem connectionAudit_exact_sample :
    ScopedExact 2048 64 sampleAuditCalls ∧ ∀ scope, ScopeAlone 2048 64 sampleAuditCalls scope := by
  have hqueue : ∀ d ∈ queuesOf sampleAuditCalls, d = sampleQueue := by decide +kernel
  refine connectionAudit_exact 2048 64 sampleAuditCalls (audited_of_one (by decide +kernel)) ?_
  refine StlMap.orderedOn_of_key (fun _ => 0) (fun a b ha hb => ?_) fun a b ha hb _ => ?_
  · rw [hqueue a ha, hqueue b hb, Destination.less_self]
    rfl
  · rw [hqueue a ha, hqueue b hb]

/-- The same message in two queues whose names differ in a blank. -/
def blankAuditCalls : List (ConnectionAuditCall Nat) :=
  [.isDuplicate 1 ⟨.queue, "a b".toUTF8.toList⟩ sampleProducer 1,
    .isDuplicate 1 ⟨.queue, "ab".toUTF8.toList⟩ sampleProducer 1]

/-- A message that the queue `ab` never saw is suppressed there, since `a b` saw it. -/
theorem connectionAudit_confuses_queues :
    Audited blankAuditCalls ∧
      ¬ ScopedExact 2048 64 blankAuditCalls ∧
      ¬ ScopeAlone 2048 64 blankAuditCalls (.queue ⟨.queue, "ab".toUTF8.toList⟩) := by
  refine ⟨audited_of_one (by decide +kernel), ?_, ?_⟩
  · unfold ScopedExact
    decide +kernel
  · unfold ScopeAlone
    decide +kernel

end ActivemqCpp.Core
