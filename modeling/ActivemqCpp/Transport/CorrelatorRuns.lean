import ActivemqCpp.Transport.ResponseCorrelator

/-!
# Runs of a `ResponseCorrelator`

Every interleaving whose steps are orderly keeps one relation between the map and the
calls (`Inv`):

* an entry belongs to a call that has registered, has not ended and is not completed;
* a pending request has its entry, or `dispose` has it in hand;
* a future in the hands of `dispose` is not completed;
* a removal without the mutex has found what is still there.

`Inv.update` carries it over every step that concerns one call; `dispose` and its loop
have their own lemmas.
-/

namespace ActivemqCpp.Transport.ResponseCorrelator

open Base List Finmap
open Decaf

variable {ε : Type} {n : Nat}

/-- Fewer than 2^32 commands have different ids. -/
theorem commandId_inj {n' : Nat} (hn : n < 2 ^ 32) (hn' : n' < 2 ^ 32)
    (h : commandId n = commandId n') : n = n' := by
  have htoNat := congrArg BitVec.toNat h
  rw [commandId, commandId, BitVec.toNat_ofNat, BitVec.toNat_ofNat, Nat.mod_eq_of_lt hn,
    Nat.mod_eq_of_lt hn'] at htoNat
  exact htoNat

theorem begun_of_listed {phase : Phase} (h : phase.listed = true) : phase.begun = true := by
  cases phase <;> first | rfl | cases h

/-- At most one completion, and by whom. -/
def CompletedBy (priorError : Option ε) (n : Nat) (completions : List (Completion ε)) : Prop :=
  completions = [] ∨ completions = [.response (commandId n)] ∨
    ∃ error, priorError = some error ∧ completions = [.disposal error]

/-- Completed with the error of the disposal. -/
def Disposed (priorError : Option ε) (completions : List (Completion ε)) : Prop :=
  ∃ error, priorError = some error ∧ completions = [.disposal error]

structure Inv (s : ResponseCorrelator ε) (m : Finmap fun _ : BitVec 32 => Nat) : Prop where
  table : HashMap.Represents hashCode thresholdOf s.requestMap m
  few : s.nextCommandId ≤ 2 ^ 32
  unused : ∀ n, s.nextCommandId ≤ n → s.requests n = .none
  key : ∀ k n, m.lookup k = some n → k = commandId n ∧ n < s.nextCommandId
  entry : ∀ n, m.lookup (commandId n) = some n →
    (s.requests n).phase.listed = true ∧ (s.requests n).completions = []
  held : ∀ n, (s.requests n).Pending → m.lookup (commandId n) = some n ∨ n ∈ s.disposing
  opened : s.priorError = none → s.disposing = [] ∧ s.pendingAtDisposal = []
  closed : s.priorError ≠ none → m = ∅
  nodup : s.disposing.Nodup
  inHand : ∀ n ∈ s.disposing,
    (s.requests n).completions = [] ∧ (s.requests n).phase.begun = true
  fresh : ∀ n, (s.requests n).phase.begun = false → (s.requests n).completions = []
  completed : ∀ n, CompletedBy s.priorError n (s.requests n).completions
  disposed : ∀ n ∈ s.pendingAtDisposal,
    n ∈ s.disposing ∨ Disposed s.priorError (s.requests n).completions
  cursor : ∀ n c, (s.requests n).phase = .unlinking c →
    s.requestMap.seek hashCode (commandId n) = some c
  single : ∀ n n', (s.requests n).phase.isUnlinking = true →
    (s.requests n').phase.isUnlinking = true → n = n'

/-- What a step must see to that gives the call `n` the record `r` and the map `m'`. -/
structure Update (s : ResponseCorrelator ε) (m : Finmap fun _ : BitVec 32 => Nat) (n : Nat)
    (r : Request ε) (requestMap : HashMap (BitVec 32) Nat)
    (m' : Finmap fun _ : BitVec 32 => Nat) : Prop where
  table : HashMap.Represents hashCode thresholdOf requestMap m'
  others : ∀ k, k ≠ commandId n → m'.lookup k = m.lookup k
  self : m'.lookup (commandId n) = none ∨
    m'.lookup (commandId n) = some n ∧ r.phase.listed = true ∧ r.completions = []
  closed : s.priorError ≠ none → m' = ∅
  held : r.Pending → m'.lookup (commandId n) = some n ∨ n ∈ s.disposing
  inHand : n ∈ s.disposing → r.completions = [] ∧ r.phase.begun = true
  fresh : r.phase.begun = false → r.completions = []
  completed : CompletedBy s.priorError n r.completions
  disposed : n ∈ s.pendingAtDisposal → n ∈ s.disposing ∨ Disposed s.priorError r.completions
  /-- The map stays as it is as long as somebody else unlinks an entry. -/
  quiet : ∀ n', n' ≠ n → (s.requests n').phase.isUnlinking = true →
    requestMap = s.requestMap ∧ r.phase.isUnlinking = false
  cursor : ∀ c, r.phase = .unlinking c → requestMap.seek hashCode (commandId n) = some c

variable {s : ResponseCorrelator ε} {m : Finmap fun _ : BitVec 32 => Nat}
  {requestMap : HashMap (BitVec 32) Nat} {r : Request ε}

theorem register_open {old : Option Nat} (hprior : s.priorError = none)
    (hput : s.requestMap.putImpl hashCode thresholdOf (commandId n) n = (requestMap, .ok old)) :
    s.register n = { s with requestMap }.setPhase n .registered := by
  rw [ResponseCorrelator.register, hprior]
  rw [hput]

/-- The new record of one call and the records of the others. -/
theorem forall_setRequest (P : Nat → Request ε → Prop) (hnew : P n r)
    (hold : ∀ n', n' ≠ n → P n' (s.requests n')) (n' : Nat) :
    P n' ((s.setRequest n r).requests n') :=
  (Function.forall_update_iff _ P).mpr ⟨hnew, hold⟩ n'

namespace Inv

variable {n : Nat} (h : Inv s m)
include h

theorem lt_of_phase (hused : (s.requests n).phase ≠ .unused) : n < s.nextCommandId := by
  by_contra hge
  rw [h.unused n (not_lt.mp hge)] at hused
  exact hused rfl

theorem lt_of_begun (hbegun : (s.requests n).phase.begun = true) : n < s.nextCommandId :=
  h.lt_of_phase fun hunused => by
    rw [hunused] at hbegun
    cases hbegun

variable (hn : n < s.nextCommandId)
include hn

/-- Under the id of a command there is its own entry or none. -/
theorem lookup_cases : m.lookup (commandId n) = none ∨ m.lookup (commandId n) = some n := by
  cases hlookup : m.lookup (commandId n) with
  | none => exact .inl rfl
  | some n' =>
    obtain ⟨hkey, hn'⟩ := h.key _ _ hlookup
    have hfew := h.few
    rw [commandId_inj (by omega) (by omega) hkey]
    exact .inr rfl

/-- A step that concerns one call. -/
theorem update {m' : Finmap fun _ : BitVec 32 => Nat}
    (hu : Update s m n r requestMap m') : Inv ({ s with requestMap }.setRequest n r) m' := by
  have hself : ({ s with requestMap }.setRequest n r).requests n = r := Function.update_self ..
  have hother : ∀ n', n' ≠ n →
      ({ s with requestMap }.setRequest n r).requests n' = s.requests n' :=
    fun n' hne => Function.update_of_ne hne ..
  have hfew := h.few
  have hids : ∀ n', n' < s.nextCommandId → n' ≠ n → commandId n' ≠ commandId n :=
    fun n' hn' hne heq => hne (commandId_inj (by omega) (by omega) heq)
  -- an entry of another call was there before
  have hentry : ∀ n', n' ≠ n → m'.lookup (commandId n') = some n' →
      m.lookup (commandId n') = some n' := by
    intro n' hne hlookup
    by_cases hid : commandId n' = commandId n
    · rw [hid] at hlookup
      rcases hu.self with hnone | ⟨hsome, -⟩
      · rw [hnone] at hlookup
        cases hlookup
      · rw [hsome] at hlookup
        exact absurd (Option.some.inj hlookup).symm hne
    · rwa [hu.others _ hid] at hlookup
  constructor
  · exact hu.table
  · exact h.few
  · intro n' hge
    have hge' : s.nextCommandId ≤ n' := hge
    rw [hother n' (by omega)]
    exact h.unused n' hge
  · intro k n' hlookup
    by_cases hk : k = commandId n
    · rw [hk] at hlookup
      rcases hu.self with hnone | ⟨hsome, -⟩
      · rw [hnone] at hlookup
        cases hlookup
      · rw [hsome] at hlookup
        rw [← Option.some.inj hlookup]
        exact ⟨hk, hn⟩
    · rw [hu.others k hk] at hlookup
      exact h.key k n' hlookup
  · refine forall_setRequest (fun n' r => m'.lookup (commandId n') = some n' →
      r.phase.listed = true ∧ r.completions = []) (fun hlookup => ?_)
      fun n' hne hlookup => h.entry n' (hentry n' hne hlookup)
    rcases hu.self with hnone | ⟨-, hlisted⟩
    · rw [hnone] at hlookup
      cases hlookup
    · exact hlisted
  · refine forall_setRequest
      (fun n' r => r.Pending → m'.lookup (commandId n') = some n' ∨ n' ∈ s.disposing) hu.held
      fun n' hne hpending => (h.held n' hpending).imp_left fun hlookup => ?_
    rw [hu.others _ (hids n' (h.key _ _ hlookup).2 hne)]
    exact hlookup
  · exact h.opened
  · exact hu.closed
  · exact h.nodup
  · exact forall_setRequest
      (fun n' r => n' ∈ s.disposing → r.completions = [] ∧ r.phase.begun = true)
      hu.inHand fun n' _ => h.inHand n'
  · exact forall_setRequest (fun _ r => r.phase.begun = false → r.completions = []) hu.fresh
      fun n' _ => h.fresh n'
  · exact forall_setRequest (fun n' r => CompletedBy s.priorError n' r.completions) hu.completed
      fun n' _ => h.completed n'
  · exact forall_setRequest (fun n' r => n' ∈ s.pendingAtDisposal →
      n' ∈ s.disposing ∨ Disposed s.priorError r.completions) hu.disposed fun n' _ => h.disposed n'
  · intro n' c hphase
    by_cases hne : n' = n
    · subst hne
      rw [hself] at hphase
      exact hu.cursor c hphase
    · rw [hother n' hne] at hphase
      have hsame := (hu.quiet n' hne (by rw [hphase]; rfl)).1
      show requestMap.seek hashCode _ = _
      rw [hsame]
      exact h.cursor n' c hphase
  · intro n₁ n₂ h₁ h₂
    by_cases hne₁ : n₁ = n
    · by_cases hne₂ : n₂ = n
      · rw [hne₁, hne₂]
      · rw [hne₁, hself] at h₁
        rw [hother n₂ hne₂] at h₂
        rw [(hu.quiet n₂ hne₂ h₂).2] at h₁
        cases h₁
    · rw [hother n₁ hne₁] at h₁
      by_cases hne₂ : n₂ = n
      · rw [hne₂, hself, (hu.quiet n₁ hne₁ h₁).2] at h₂
        cases h₂
      · rw [hother n₂ hne₂] at h₂
        exact h.single n₁ n₂ h₁ h₂

/-! ## Steps of one call -/

/-- The map is left alone. -/
theorem setRequest (hu : Update s m n r s.requestMap m) : Inv (s.setRequest n r) m := h.update hn hu

omit hn

theorem quiet_all (hquiet : s.Quiet) (n : Nat) : (s.requests n).phase.isUnlinking = false := by
  by_cases hn : n < s.nextCommandId
  · exact hquiet n hn
  · rw [h.unused n (not_lt.mp hn)]
    rfl

theorem quiet_cursor (hquiet : s.Quiet) {c : HashMap.Cursor (BitVec 32)} {P : Prop}
    (hphase : (s.requests n).phase = .unlinking c) : P := by
  have hunlinking := h.quiet_all hquiet n
  rw [hphase] at hunlinking
  cases hunlinking

theorem quiet_others (hquiet : s.Quiet) {P : Prop} :
    ∀ n', n' ≠ n → (s.requests n').phase.isUnlinking = true → P := by
  intro n' _ hunlinking
  rw [h.quiet_all hquiet n'] at hunlinking
  cases hunlinking

/-- The call goes on from one phase to another with its entry, if it has one. -/
theorem setPhase {phase : Phase} (hold : (s.requests n).phase.listed = true)
    (hbegun : phase.begun = true) (hlisted : m.lookup (commandId n) = none ∨ phase.listed = true)
    (hpending : phase = .registered ∨ phase = .waiting → (s.requests n).phase = .registered)
    (hquiet : phase.isUnlinking = true → s.Quiet)
    (hcursor : ∀ c, phase = .unlinking c → s.requestMap.seek hashCode (commandId n) = some c) :
    Inv (s.setPhase n phase) m := by
  have hn : n < s.nextCommandId := h.lt_of_begun (begun_of_listed hold)
  refine h.setRequest hn ⟨h.table, fun _ _ => rfl, ?_, h.closed, ?_, ?_, ?_, h.completed n,
    h.disposed n, ?_, hcursor⟩
  · refine (h.lookup_cases hn).imp_right fun hlookup => ⟨hlookup, ?_, (h.entry n hlookup).2⟩
    refine hlisted.resolve_left fun hnone => ?_
    rw [hnone] at hlookup
    cases hlookup
  · rintro ⟨hphase, hnil⟩
    exact h.held n ⟨.inl (hpending hphase), hnil⟩
  · intro hin
    exact ⟨(h.inHand n hin).1, hbegun⟩
  · intro hnot
    rw [show ({ s.requests n with phase } : Request ε).phase.begun = true from hbegun] at hnot
    cases hnot
  · intro n' hne hunlinking
    refine ⟨rfl, ?_⟩
    cases hcase : phase.isUnlinking with
    | false => rfl
    | true =>
      rw [h.quiet_all (hquiet hcase) n'] at hunlinking
      cases hunlinking

/-- The call ends with its entry removed. -/
theorem remove (hbegun : (s.requests n).phase.begun = true)
    (hquiet : ∀ n', n' ≠ n → (s.requests n').phase.isUnlinking = false) :
    ∃ m', Inv ({ s with requestMap := (s.requestMap.remove hashCode (commandId n)).1 }.setPhase n
      .done) m' := by
  have hn : n < s.nextCommandId := h.lt_of_begun hbegun
  refine ⟨m.erase (commandId n), h.update hn ⟨(h.table.remove _).1,
    fun k hk => lookup_erase_ne hk, .inl (lookup_erase ..), ?_, ?_, ?_, ?_,
    h.completed n, h.disposed n, ?_, ?_⟩⟩
  · intro hclosed
    rw [h.closed hclosed]
    rfl
  · rintro ⟨hphase | hphase, -⟩ <;> cases hphase
  · intro hin
    exact ⟨(h.inHand n hin).1, rfl⟩
  · nofun
  · intro n' hne hunlinking
    rw [hquiet n' hne] at hunlinking
    cases hunlinking
  · nofun

theorem oneway (hfew : s.nextCommandId < 2 ^ 32) :
    Inv { s with nextCommandId := s.nextCommandId + 1 } m :=
  { h with
    few := hfew
    unused := fun n hge => h.unused n (Nat.le_of_succ_le hge)
    key := fun k n hlookup => (h.key k n hlookup).imp_right Nat.lt_succ_of_lt }

/-- A call begins: nobody knows its id. -/
theorem call (hfew : s.nextCommandId < 2 ^ 32) (kind : Kind) :
    Inv { s.setRequest s.nextCommandId ⟨kind, .assigned, []⟩ with
      nextCommandId := s.nextCommandId + 1 } m := by
  have hnext := h.oneway hfew
  have hnone : s.requests s.nextCommandId = .none := h.unused _ (Nat.le_refl _)
  have hlookup : m.lookup (commandId s.nextCommandId) = none := by
    refine (hnext.lookup_cases (Nat.lt_succ_self _)).resolve_right fun hsome => ?_
    have hlisted := (h.entry _ hsome).1
    rw [hnone] at hlisted
    cases hlisted
  refine hnext.setRequest (Nat.lt_succ_self _) ⟨h.table, fun _ _ => rfl, .inl hlookup, h.closed, ?_,
    ?_, fun _ => rfl, .inl rfl, ?_, fun _ _ _ => ⟨rfl, rfl⟩, nofun⟩
  · rintro ⟨hphase | hphase, -⟩ <;> cases hphase
  · intro hin
    have hbegun := (h.inHand _ hin).2
    rw [hnone] at hbegun
    cases hbegun
  · intro hin
    refine (h.disposed _ hin).imp_right ?_
    rintro ⟨error, -, hcompletions⟩
    rw [hnone] at hcompletions
    cases hcompletions

/-- The block under the mutex. -/
theorem register (hassigned : (s.requests n).phase = .assigned) (hquiet : s.Quiet)
    (hroom : s.requestMap.HasRoom) : ∃ m', Inv (s.register n) m' := by
  have hn : n < s.nextCommandId := h.lt_of_phase fun hunused => by
    rw [hassigned] at hunused
    cases hunused
  have hnil : (s.requests n).completions = [] := h.fresh n (by rw [hassigned]; rfl)
  have hnot : n ∉ s.disposing := fun hin => by
    have hbegun := (h.inHand n hin).2
    rw [hassigned] at hbegun
    cases hbegun
  have hnotPending : n ∉ s.pendingAtDisposal := fun hin => by
    refine (h.disposed n hin).elim hnot ?_
    rintro ⟨error, -, hcompletions⟩
    rw [hnil] at hcompletions
    cases hcompletions
  rcases hprior : s.priorError with _ | error
  · obtain ⟨hput, hok, -⟩ := h.table.putImpl (commandId n) n (.inr hroom)
    rcases hresult : s.requestMap.putImpl hashCode thresholdOf (commandId n) n with
      ⟨requestMap, result⟩
    rw [hresult] at hput hok
    obtain rfl : result = _ := hok
    have hlookup : (m.insert (commandId n) n).lookup (commandId n) = some n :=
      lookup_insert m
    have hu : Update s m n { s.requests n with phase := .registered } requestMap
        (m.insert (commandId n) n) :=
      ⟨hput, fun k hk => lookup_insert_of_ne m hk, .inr ⟨hlookup, rfl, hnil⟩,
        fun hclosed => absurd hprior hclosed, fun _ => .inl hlookup, fun hin => absurd hin hnot,
        nofun, .inl hnil, fun hin => absurd hin hnotPending, h.quiet_others hquiet, nofun⟩
    exact ⟨_, by rw [register_open hprior hresult]; exact h.update hn hu⟩
  · have hempty : m = ∅ := h.closed (by simp [hprior])
    have hlookup : m.lookup (commandId n) = none := by
      rw [hempty]
      rfl
    -- nothing is registered; an asynchronous request is completed at once
    have hdone : ∀ completions : List (Completion ε),
        CompletedBy s.priorError n completions →
        Inv (s.setRequest n { s.requests n with phase := .done, completions }) m := by
      intro completions hcompleted
      refine h.setRequest hn ⟨h.table, fun _ _ => rfl, .inl hlookup, h.closed, ?_,
        fun hin => absurd hin hnot, nofun, hcompleted, fun hin => absurd hin hnotPending,
        h.quiet_others hquiet, nofun⟩
      rintro ⟨hphase | hphase, -⟩ <;> cases hphase
    rw [ResponseCorrelator.register, hprior]
    dsimp only
    cases (s.requests n).kind with
    | request => exact ⟨m, hdone (s.requests n).completions (h.completed n)⟩
    | asyncRequest throws =>
      refine ⟨m, ?_⟩
      have hinv := hdone [.disposal error] (.inr (.inr ⟨error, hprior, rfl⟩))
      have hsame : (s.complete n (.disposal error)).setPhase n .done =
          s.setRequest n { s.requests n with phase := .done, completions := [.disposal error] } := by
        simp [ResponseCorrelator.complete, ResponseCorrelator.setPhase,
          ResponseCorrelator.setRequest, Request.complete, hnil]
      rwa [hsame]

/-- `onCommand`. -/
theorem response (hquiet : s.Quiet) {correlationId : BitVec 32}
    (hremove : s.requestMap.remove hashCode correlationId = (requestMap, .ok n)) :
    ∃ m', Inv ({ s with requestMap }.complete n (.response correlationId)) m' := by
  obtain ⟨htable, hresult⟩ := h.table.remove correlationId
  rw [hremove] at htable hresult
  have hlookup : m.lookup correlationId = some n := by
    cases hfound : m.lookup correlationId with
    | none =>
      rw [hfound] at hresult
      cases hresult
    | some n' =>
      rw [hfound] at hresult
      rw [Except.ok.inj hresult]
  obtain ⟨rfl, hn⟩ := h.key _ _ hlookup
  obtain ⟨hlisted, hnil⟩ := h.entry n hlookup
  have hprior : s.priorError = none := by
    by_contra hclosed
    rw [h.closed hclosed] at hlookup
    cases hlookup
  obtain ⟨hdisposing, hpending⟩ := h.opened hprior
  refine ⟨m.erase (commandId n), h.update hn ⟨htable, fun k hk => lookup_erase_ne hk,
    .inl (lookup_erase ..), fun hclosed => absurd hprior hclosed, ?_, ?_, ?_, ?_, ?_,
    h.quiet_others hquiet, fun _ hphase => h.quiet_cursor hquiet hphase⟩⟩
  · rintro ⟨-, hcompletions⟩
    cases hcompletions
  · rw [hdisposing]
    nofun
  · intro hbegun
    rw [show ((s.requests n).complete _).phase.begun = true from begun_of_listed hlisted] at hbegun
    cases hbegun
  · show CompletedBy _ n (_ :: (s.requests n).completions)
    rw [hnil]
    exact .inr (.inl rfl)
  · rw [hpending]
    nofun

/-! ## Disposal -/

theorem coe_futures : m.entries.map Sigma.snd = (s.futures : Multiset Nat) := by
  obtain ⟨values, hvalues, hentries⟩ := h.table.observes.values
  rw [futures, hvalues]
  exact hentries

theorem mem_futures (n : Nat) : n ∈ s.futures ↔ m.lookup (commandId n) = some n := by
  rw [← Multiset.mem_coe, ← h.coe_futures, Multiset.mem_map]
  constructor
  · rintro ⟨⟨k, n'⟩, hin, rfl⟩
    have hlookup := lookup_eq_some_iff.mpr hin
    rwa [(h.key _ _ hlookup).1] at hlookup
  · intro hlookup
    exact ⟨⟨commandId n, n⟩, lookup_eq_some_iff.mp hlookup, rfl⟩

theorem nodup_futures : s.futures.Nodup := by
  rw [← Multiset.coe_nodup, ← h.coe_futures]
  refine Multiset.Nodup.map_on ?_ m.nodup_entries
  rintro ⟨k, n⟩ hin ⟨k', n'⟩ hin' heq
  obtain rfl : n = n' := heq
  rw [(h.key _ _ (lookup_eq_some_iff.mpr hin)).1, (h.key _ _ (lookup_eq_some_iff.mpr hin')).1]

variable [DecidableEq ε]

theorem dispose (hquiet : s.Quiet) (error : ε) : ∃ m', Inv (s.dispose error) m' := by
  rcases hprior : s.priorError with _ | prior
  · obtain ⟨hdisposing, -⟩ := h.opened hprior
    have hheld : ∀ n, (s.requests n).Pending → n ∈ s.futures := by
      intro n hpending
      refine (h.mem_futures n).mpr ((h.held n hpending).resolve_right ?_)
      rw [hdisposing]
      exact not_mem_nil
    rw [ResponseCorrelator.dispose, hprior]
    refine ⟨∅, ?_⟩
    constructor
    · exact h.table.clear
    · exact h.few
    · exact h.unused
    · nofun
    · nofun
    · intro n hpending
      exact .inr (hheld n hpending)
    · nofun
    · intro _
      rfl
    · exact h.nodup_futures
    · intro n hin
      obtain ⟨hlisted, hnil⟩ := h.entry n ((h.mem_futures n).mp hin)
      exact ⟨hnil, begun_of_listed hlisted⟩
    · exact h.fresh
    · intro n
      rcases h.completed n with hnil | hresponse | ⟨prior, hsome, -⟩
      · exact .inl hnil
      · exact .inr (.inl hresponse)
      · rw [hprior] at hsome
        cases hsome
    · intro n hin
      exact .inl (hheld n (by simpa using (mem_filter.mp hin).2))
    · intro n c hphase
      exact h.quiet_cursor hquiet hphase
    · exact h.single
  · rw [ResponseCorrelator.dispose, hprior]
    exact ⟨m, h⟩

omit [DecidableEq ε] in
/-- A round of the loop. -/
theorem settle (hthrows : ∀ n ∈ s.disposing.head?,
    (s.requests n).throws = true → s.disposing = [n]) : Inv s.settle m := by
  rcases hdisposing : s.disposing with _ | ⟨n, rest⟩
  · have hsame : s.settle = s := by
      rw [ResponseCorrelator.settle, hdisposing]
    rwa [hsame]
  rcases hprior : s.priorError with _ | error
  · rw [(h.opened hprior).1] at hdisposing
    cases hdisposing
  have hempty : m = ∅ := h.closed (by simp [hprior])
  have hnodup := h.nodup
  rw [hdisposing] at hnodup
  obtain ⟨hfresh, hrest⟩ := nodup_cons.mp hnodup
  obtain ⟨hnil, hbegun⟩ := h.inHand n (by rw [hdisposing]; exact mem_cons_self)
  have hsettle : s.settle = { s.complete n (.disposal error) with disposing := rest } := by
    have hleft : (if (s.requests n).throws then [] else rest) = rest := by
      split
      · next hthrow =>
        have hone := hthrows n (by rw [hdisposing]; rfl) hthrow
        rw [hdisposing] at hone
        exact (cons.inj hone).2.symm
      · rfl
    rw [ResponseCorrelator.settle, hdisposing, hprior]
    dsimp only
    rw [hleft]
  have hphase : ∀ n', ((s.complete n (.disposal error)).requests n').phase =
      (s.requests n').phase :=
    forall_setRequest (fun n' r => r.phase = (s.requests n').phase) rfl fun _ _ => rfl
  have hcompleted : ((s.requests n).complete (.disposal error)).completions =
      [.disposal error] := by
    show _ :: (s.requests n).completions = _
    rw [hnil]
  have hwaits : ∀ n', n' ∈ s.disposing → n' ≠ n → n' ∈ rest := by
    intro n' hin hne
    rw [hdisposing] at hin
    exact (mem_cons.mp hin).resolve_left hne
  rw [hsettle]
  constructor
  · exact h.table
  · exact h.few
  · exact forall_setRequest (fun n' r => s.nextCommandId ≤ n' → r = .none)
      (fun hge => absurd (h.lt_of_begun hbegun) (not_lt.mpr hge)) fun n' _ => h.unused n'
  · exact h.key
  · intro n' hlookup
    rw [hempty] at hlookup
    cases hlookup
  · exact forall_setRequest
      (fun n' r => r.Pending → m.lookup (commandId n') = some n' ∨ n' ∈ rest) nofun
      fun n' hne hpends => (h.held n' hpends).imp_right fun hin => hwaits n' hin hne
  · exact fun hnone => absurd (hprior.symm.trans hnone) (Option.some_ne_none error)
  · intro _
    exact hempty
  · exact hrest
  · refine forall_setRequest (fun n' r => n' ∈ rest → r.completions = [] ∧ r.phase.begun = true)
      (fun hin => absurd hin hfresh) fun n' _ hin => h.inHand n' ?_
    rw [hdisposing]
    exact mem_cons_of_mem _ hin
  · exact forall_setRequest (fun _ r => r.phase.begun = false → r.completions = [])
      (fun hnot => absurd (hbegun.symm.trans hnot) nofun) fun n' _ => h.fresh n'
  · exact forall_setRequest (fun n' r => CompletedBy s.priorError n' r.completions)
      (.inr (.inr ⟨error, hprior, hcompleted⟩)) fun n' _ => h.completed n'
  · exact forall_setRequest (fun n' r => n' ∈ s.pendingAtDisposal →
      n' ∈ rest ∨ Disposed s.priorError r.completions) (fun _ => .inr ⟨error, hprior, hcompleted⟩)
      fun n' hne hin => (h.disposed n' hin).imp_left fun hin => hwaits n' hin hne
  · intro n' c hunlinking
    rw [hphase] at hunlinking
    exact h.cursor n' c hunlinking
  · intro n₁ n₂ h₁ h₂
    rw [hphase] at h₁ h₂
    exact h.single n₁ n₂ h₁ h₂

/-! ## Runs -/

/-- One step of one thread. -/
theorem step (event : Event ε) (horderly : s.Orderly event) : ∃ m', Inv (s.step event) m' := by
  cases event with
  | oneway => exact ⟨m, h.oneway horderly⟩
  | call kind => exact ⟨m, h.call horderly kind⟩
  | register n =>
    rw [ResponseCorrelator.step]
    split
    · next hassigned => exact h.register hassigned horderly.1 horderly.2
    · exact ⟨m, h⟩
  | send n ok =>
    rw [ResponseCorrelator.step]
    split
    · next hregistered =>
      refine ⟨m, h.setPhase (by rw [hregistered]; rfl) ?_ (.inr ?_) (fun _ => hregistered) ?_ ?_⟩
      all_goals
        split
        · simp [Phase.begun, Phase.listed, Phase.isUnlinking]
        · split <;> simp [Phase.begun, Phase.listed, Phase.isUnlinking]
    · exact ⟨m, h⟩
  | wake n =>
    rw [ResponseCorrelator.step]
    split
    · next hwaiting =>
      exact ⟨m, h.setPhase (by rw [hwaiting.1]; rfl) rfl (.inr rfl)
        (fun hphase => by rcases hphase with hphase | hphase <;> cases hphase)
        nofun nofun⟩
    · exact ⟨m, h⟩
  | finalize n =>
    rw [ResponseCorrelator.step]
    split
    · next hfinalizing =>
      exact h.remove (by rw [hfinalizing]; rfl) fun n' _ => h.quiet_all horderly n'
    · exact ⟨m, h⟩
  | seek n =>
    rw [ResponseCorrelator.step]
    split
    · next hfailing =>
      have hlisted : (s.requests n).phase.listed = true := by
        rw [hfailing]
        rfl
      cases hseek : s.requestMap.seek hashCode (commandId n) with
      | none =>
        have hnone : m.lookup (commandId n) = none := by
          rw [h.table.lookup_eq, HashMap.getEntry_of_seek hseek]
          rfl
        exact ⟨m, h.setPhase hlisted rfl (.inl hnone)
          (fun hphase => by rcases hphase with hphase | hphase <;> cases hphase)
          nofun nofun⟩
      | some cursor =>
        refine ⟨m, h.setPhase hlisted rfl (.inr rfl)
          (fun hphase => by rcases hphase with hphase | hphase <;> cases hphase)
          (fun _ => horderly) fun c hphase => ?_⟩
        rw [hseek, Phase.unlinking.inj hphase]
    · exact ⟨m, h⟩
  | unlink n =>
    rw [ResponseCorrelator.step]
    cases hphase : (s.requests n).phase with
    | unlinking cursor =>
      have hunlink := HashMap.unlink_seek (h.cursor n cursor hphase)
      dsimp only
      rw [hunlink]
      refine h.remove (by rw [hphase]; rfl) fun n' hne => ?_
      cases hother : (s.requests n').phase.isUnlinking with
      | false => rfl
      | true => exact absurd (h.single n' n hother (by rw [hphase]; rfl)) hne
    | _ => exact ⟨m, h⟩
  | response correlationId =>
    rw [ResponseCorrelator.step]
    rcases hremove : s.requestMap.remove hashCode correlationId with ⟨requestMap, result⟩
    cases result with
    | ok n => exact h.response horderly hremove
    | error e => exact ⟨m, h⟩
  | dispose error => exact h.dispose horderly error
  | settle => exact ⟨m, h.settle horderly⟩

end Inv

/-- The loop of `dispose` ends. -/
theorem run_settle [DecidableEq ε] (rounds : Nat) :
    ∀ s : ResponseCorrelator ε, (s.priorError = none → s.disposing = []) →
      s.disposing.length ≤ rounds →
      (machine.run s (replicate rounds .settle)).disposing = [] := by
  induction rounds with
  | zero =>
    intro s _ hlength
    exact eq_nil_of_length_eq_zero (Nat.le_zero.mp hlength)
  | succ rounds ih =>
    intro s hopened hlength
    show (machine.run s.settle _).disposing = []
    rcases hdisposing : s.disposing with _ | ⟨n, rest⟩
    · have hsame : s.settle = s := by
        rw [settle, hdisposing]
      rw [hsame]
      exact ih s hopened (by rw [hdisposing]; exact Nat.zero_le _)
    · rcases hprior : s.priorError with _ | error
      · rw [hopened hprior] at hdisposing
        cases hdisposing
      · have hsettle : s.settle = { s.complete n (.disposal error) with
            disposing := if (s.requests n).throws then [] else rest } := by
          rw [settle, hdisposing, hprior]
        have hprior' : s.settle.priorError = some error := by
          rw [hsettle]
          exact hprior
        refine ih s.settle (fun hnone => ?_) ?_
        · rw [hprior'] at hnone
          cases hnone
        · rw [hdisposing, length_cons] at hlength
          rw [hsettle]
          dsimp only
          split
          · exact Nat.zero_le _
          · omega

/-- What the relation says to the callers. -/
theorem Inv.correct [DecidableEq ε] (h : Inv s m) : Correct s where
  completed := h.completed
  disposed := h.disposed
  settles := run_settle _ s (fun hprior => (h.opened hprior).1) (Nat.le_refl _)
  closed := by
    intro hsome
    have hempty : m = ∅ := h.closed fun hnone => by
      rw [hnone] at hsome
      cases hsome
    refine ⟨?_, fun key => ?_⟩
    · rw [h.table.observes.size, hempty]
      rfl
    · rw [Bool.eq_false_iff, Ne, h.table.observes.containsKey, hempty]
      exact notMem_empty
  cleaned := by
    intro n hn hended
    rw [Bool.eq_false_iff, Ne, h.table.observes.containsKey, ← lookup_isSome]
    rcases h.lookup_cases hn with hnone | hsome
    · rw [hnone]
      simp
    · obtain ⟨hlisted, hnil⟩ := h.entry n hsome
      rcases hended with hdone | hcompleted
      · rw [hdone] at hlisted
        cases hlisted
      · exact absurd hnil hcompleted

theorem inv_new : Inv (new : ResponseCorrelator ε) ∅ where
  table := HashMap.represents_new (show 12 < 2 ^ 31 by decide) rfl
  few := by
    show 1 ≤ 2 ^ 32
    decide
  unused _ _ := rfl
  key k n hlookup := by cases hlookup
  entry n hlookup := by cases hlookup
  held n hpending := by rcases hpending.1 with hphase | hphase <;> cases hphase
  opened _ := ⟨rfl, rfl⟩
  closed hclosed := absurd rfl hclosed
  nodup := nodup_nil
  inHand n hin := by cases hin
  fresh _ _ := rfl
  completed _ := .inl rfl
  disposed n hin := by cases hin
  cursor n c hphase := by cases hphase
  single n n' hunlinking := by cases hunlinking

end ActivemqCpp.Transport.ResponseCorrelator

namespace ActivemqCpp.Transport

open Base

/-- **Requests and responses are matched.** In every interleaving of calls, responses,
send failures, timeouts and disposals with fewer than 2^32 commands, in which nobody uses
the map while an entry is removed without the mutex, no callback throws in front of a
future that `dispose` has yet to complete and the map can grow: every request is
completed at most once, by the response to its command or by the error of the disposal;
what is pending at the disposal is completed with that error, nothing is added after it;
and no entry outlives its request. -/
theorem responseCorrelator_matches {ε : Type} [DecidableEq ε] (events : List (Event ε))
    (horderly : ResponseCorrelator.machine.Meets ResponseCorrelator.Orderly
      (ResponseCorrelator.new : ResponseCorrelator ε) events) :
    ResponseCorrelator.machine.Always ResponseCorrelator.Correct
      (ResponseCorrelator.new : ResponseCorrelator ε) events := by
  refine (Machine.invariant_of_meets (I := fun s => ∃ m, ResponseCorrelator.Inv s m)
    ?_ ⟨∅, ResponseCorrelator.inv_new⟩ horderly).mono fun s h => ?_
  · rintro s event ⟨m, h⟩ horderly
    exact h.step event horderly
  · obtain ⟨m, h⟩ := h
    exact h.correct

/-- A request answered, one that times out, a failed asynchronous send, and one that is
pending at the disposal. -/
theorem responseCorrelator_matches_four :
    ResponseCorrelator.machine.Always ResponseCorrelator.Correct
      (ResponseCorrelator.new : ResponseCorrelator Nat)
      [.call .request, .register 1, .call (.asyncRequest false), .register 2, .send 1 true,
        .send 2 false, .response 1, .seek 2, .unlink 2, .wake 1, .finalize 1, .call .request,
        .register 3, .send 3 true, .wake 3, .response 7, .finalize 3,
        .call (.asyncRequest true), .register 4, .send 4 true, .dispose 5, .settle,
        .call .request, .register 5, .response 4] :=
  responseCorrelator_matches _ (by decide)

/-- The asynchronous request 1 fails to be sent. While its entry is removed without the
mutex, request 17 puts its own in front of it, and both go: at the disposal nobody
completes request 17. And of two requests pending at a disposal the second is forgotten
when the callback of the first throws. -/
theorem responseCorrelator_forgets :
    (let s := ResponseCorrelator.machine.run (ResponseCorrelator.new : ResponseCorrelator Nat)
      ([.call (.asyncRequest false), .register 1, .send 1 false, .seek 1] ++
        List.replicate 15 .oneway ++
        [.call .request, .register 17, .unlink 1, .send 17 true, .dispose 5])
     17 ∈ s.pendingAtDisposal ∧ s.disposing = [] ∧ (s.requests 17).completions = []) ∧
    (let s := ResponseCorrelator.machine.run (ResponseCorrelator.new : ResponseCorrelator Nat)
      [.call (.asyncRequest true), .register 1, .send 1 true, .call .request, .register 2,
        .send 2 true, .dispose 5, .settle]
     2 ∈ s.pendingAtDisposal ∧ s.disposing = [] ∧ (s.requests 2).completions = []) := by
  decide

end ActivemqCpp.Transport
