import ActivemqCpp.State.History

/-!
# Consumers stalled during a recovery

`doRestoreConsumers` announces a consumer without prefetch while its connection recovers, and
keeps the original info in `recoveringPullConsumers`. `connectionInterruptProcessingComplete`
sends a `ConsumerControl` with the original prefetch for every entry and then clears the map.
The map that it clears is a copy: the entries stay, and every later completion sends them again.
-/

namespace ActivemqCpp.State

open Base Decaf Commands

namespace Tracker

/-- The stalled consumers of a connection. -/
def stalled (id : ConnectionId) (t : Tracker) : StlMap ConsumerId ConsumerInfo :=
  (t.connectionStates.find ConnectionId.less id).elim [] (·.recoveringPullConsumers)

/-- The original prefetch of a stalled consumer. -/
def prefetchControl (e : ConsumerId × ConsumerInfo) : Command :=
  .consumerControl ⟨0, e.1, e.2.destination, e.2.prefetchSize⟩

/-- The completion of a recovery: a tracked connection sends one `ConsumerControl` for each of
its stalled consumers, the entries that its restores have made, and none is left for the next
recovery. -/
structure Recovers (id : ConnectionId) (t : Tracker) : Prop where
  controls : t.connectionStates.find ConnectionId.less id ≠ none →
    (t.connectionInterruptProcessingComplete id).2 = .ok ((t.stalled id).map prefetchControl)
  cleared : (t.connectionInterruptProcessingComplete id).1.stalled id = []

/-- The completion leaves the stalled consumers as they are. -/
theorem stalled_connectionInterruptProcessingComplete (id : ConnectionId) (t : Tracker) :
    (t.connectionInterruptProcessingComplete id).1.stalled id = t.stalled id := by
  rw [connectionInterruptProcessingComplete, withConnection]
  rcases hfind : t.connectionStates.find ConnectionId.less id with _ | cs
  · rfl
  · simp [stalled, StlMap.find_update_self, hfind, Option.map_some, Option.elim_some]

theorem recovers_iff (id : ConnectionId) (t : Tracker) : t.Recovers id ↔ t.stalled id = [] := by
  constructor
  · intro h
    rw [← stalled_connectionInterruptProcessingComplete]
    exact h.cleared
  · intro h
    refine ⟨fun hfind => ?_, (stalled_connectionInterruptProcessingComplete id t).trans h⟩
    obtain ⟨cs, hcs⟩ := Option.ne_none_iff_exists'.mp hfind
    rw [connectionInterruptProcessingComplete, withConnection, stalled, hcs]
    rfl

end Tracker

namespace Followed

/-- Every recovery that is completed is complete. -/
def Recovers (s : Followed) : Event → Prop
  | .interruptProcessingComplete id => s.tracker.Recovers id
  | _ => True

/-- No consumer of the connection is stalled when its recovery is completed. -/
def Unstalled (s : Followed) : Event → Prop
  | .interruptProcessingComplete id => s.tracker.stalled id = []
  | _ => True

/-- **When recoveries clear the stalled consumers.** In a history of tracked commands and
failovers every completed recovery restores each stalled consumer once, leaving none, iff no
recovery is completed with a stalled consumer. -/
theorem recovers_iff_unstalled (opts : Options) (history : List Event) :
    (machine opts).Meets Recovers .new history ↔ (machine opts).Meets Unstalled .new history := by
  refine Machine.meets_congr (fun s event => ?_) _ _
  cases event with
  | interruptProcessingComplete id => exact Tracker.recovers_iff id s.tracker
  | track | trackBack | responded | transportInterrupted | restore => exact Iff.rfl

/-- Two failovers. The second broker speaks version 5, where no consumer is stalled. -/
def stalledOnce : List Event :=
  [.track (.connectionInfo ⟨1, ⟨[65]⟩, false⟩), .track (.sessionInfo ⟨2, ⟨[65], 1⟩⟩),
    .track (.consumerInfo ⟨3, ⟨[65], 1, 1⟩, Sample.tempQueue, 100⟩), .transportInterrupted,
    .restore 11, .interruptProcessingComplete ⟨[65]⟩, .transportInterrupted, .restore 5]

/-- The consumer that was stalled in the first recovery is sent its prefetch again in the
second one, and is still kept after it. -/
theorem stalled_again :
    ¬ (machine Sample.opts).Meets Recovers .new
      (stalledOnce ++ [.interruptProcessingComplete ⟨[65]⟩]) ∧
    ((Sample.reached stalledOnce).tracker.connectionInterruptProcessingComplete ⟨[65]⟩).2 =
      .ok [.consumerControl ⟨0, ⟨[65], 1, 1⟩, Sample.tempQueue, 100⟩] := by
  refine ⟨fun h => ?_, by decide⟩
  have hcleared := h.2.2.2.2.2.1.cleared
  exact absurd hcleared (by decide)

end Followed

end ActivemqCpp.State
