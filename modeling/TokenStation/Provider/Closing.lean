import TokenStation.Provider.AcceptedFrames
import TokenStation.Provider.OpenAi

/-!
# How a stream closes

A stream closes once and last: nothing follows an error, one `done` is sent,
and neither content nor a usage report follows it. A monitor reads the events
one by one, and each dialect's frames are sorted by what they bring to it.
-/

namespace TokenStation.Responses

/-- Content and usage reports. -/
def StreamEvent.isOutput : StreamEvent → Bool
  | .finish _ _ | .done _ _ | .error _ => false
  | _ => true

def StreamEvent.isDone : StreamEvent → Bool
  | .done _ _ => true
  | _ => false

end TokenStation.Responses

namespace TokenStation.Provider

open Library Library.ChunkedReading Library.Json Responses Sse

/-- The close of the stream comes once, and last. -/
structure ClosesOnce (events : List StreamEvent) : Prop where
  /-- No event follows an error. -/
  error_last : events.Pairwise fun before _ => before.isError = false
  one_done : events.countP StreamEvent.isDone ≤ 1
  /-- No content and no usage report follows a `done`. -/
  done_last : events.Pairwise fun before after => before.isDone = true → after.isOutput = false

/-! ## Monitoring the close -/

/-- How far the close of a stream has come. -/
inductive Phase where
  | streaming
  | done
  | failed
deriving DecidableEq, Repr

namespace Phase

/-- The phase after one more event; none when the event may not come. -/
def next : Phase → StreamEvent → Option Phase
  | .failed, _ => none
  | _, .error _ => some .failed
  | .streaming, .done _ _ => some .done
  | .streaming, _ => some .streaming
  | .done, .finish _ _ => some .done
  | .done, _ => none

/-- Events that may come in this phase. -/
def Follows : Phase → List StreamEvent → Prop
  | _, [] => True
  | phase, event :: events =>
      match phase.next event with
      | none => False
      | some phase => phase.Follows events

theorem follows_nil (phase : Phase) : phase.Follows [] := trivial

theorem failed_follows_iff {events : List StreamEvent} :
    failed.Follows events ↔ events = [] := by
  cases events <;> simp [Follows, next]

theorem streaming_follows_output {event : StreamEvent} {events : List StreamEvent}
    (h : event.isOutput = true) :
    streaming.Follows (event :: events) ↔ streaming.Follows events := by
  cases event with
  | finish | done | error => cases h
  | _ => exact Iff.rfl

theorem done_follows_output {event : StreamEvent} {events : List StreamEvent}
    (h : event.isOutput = true) : ¬done.Follows (event :: events) := by
  cases event with
  | finish | done | error => cases h
  | _ => exact id

theorem streaming_follows_append {content events : List StreamEvent}
    (h : ∀ event ∈ content, event.isOutput = true) :
    streaming.Follows (content ++ events) ↔ streaming.Follows events := by
  induction content with
  | nil => rfl
  | cons event content ih =>
      rw [List.cons_append, streaming_follows_output (h event List.mem_cons_self),
        ih fun event hevent => h event (List.mem_cons_of_mem _ hevent)]

/-- After the close, of a frame's content and what comes after it. -/
theorem settled_follows_append {phase : Phase} {content events : List StreamEvent}
    (hphase : phase ≠ streaming) (h : ∀ event ∈ content, event.isOutput = true) :
    phase.Follows (content ++ events) ↔ content = [] ∧ phase.Follows events := by
  cases content with
  | nil => simp
  | cons event content =>
      cases phase with
      | streaming => exact absurd rfl hphase
      | done =>
          simpa using @done_follows_output event (content ++ events)
            (h event List.mem_cons_self)
      | failed => simp [failed_follows_iff]

end Phase

/-! ## What the monitor accepts -/

theorem closesOnce_cons {event : StreamEvent} {events : List StreamEvent} :
    ClosesOnce (event :: events) ↔
      (event.isError = true → events = []) ∧
        (event.isDone = true →
          ∀ after ∈ events, after.isDone = false ∧ after.isOutput = false) ∧
        ClosesOnce events := by
  constructor
  · rintro ⟨herror, hone, hdone⟩
    rw [List.pairwise_cons] at herror hdone
    rw [List.countP_cons] at hone
    refine ⟨fun h => ?_, fun h after hafter => ⟨?_, hdone.1 after hafter h⟩,
      herror.2, by omega, hdone.2⟩
    · refine List.eq_nil_iff_forall_not_mem.mpr fun after hafter => ?_
      simpa [h] using herror.1 after hafter
    · rw [if_pos h] at hone
      have hnone : events.countP StreamEvent.isDone = 0 := by omega
      simpa using List.countP_eq_zero.mp hnone after hafter
  · rintro ⟨herror, hdone, hrest⟩
    refine ⟨List.pairwise_cons.mpr ⟨fun after hafter => ?_, hrest.error_last⟩, ?_,
      List.pairwise_cons.mpr ⟨fun after hafter h => (hdone h after hafter).2, hrest.done_last⟩⟩
    · by_contra h
      rw [herror (by simpa using h)] at hafter
      cases hafter
    · rw [List.countP_cons]
      have hone := hrest.one_done
      split
      · rename_i h
        have hnone : events.countP StreamEvent.isDone = 0 :=
          List.countP_eq_zero.mpr fun after hafter => by simp [(hdone h after hafter).1]
        omega
      · omega

theorem closesOnce_nil : ClosesOnce [] := ⟨.nil, Nat.zero_le _, .nil⟩

/-- Neither a `done` nor an output is among the events a closed stream may send. -/
theorem done_follows_iff {events : List StreamEvent} :
    Phase.done.Follows events ↔
      ClosesOnce events ∧ ∀ event ∈ events, event.isDone = false ∧ event.isOutput = false := by
  induction events with
  | nil => simp [Phase.Follows, closesOnce_nil]
  | cons event events ih =>
      rw [closesOnce_cons, List.forall_mem_cons]
      cases event with
      | finish reason sequence =>
          rw [show Phase.done.Follows (.finish reason sequence :: events) ↔
            Phase.done.Follows events from Iff.rfl, ih]
          simp [StreamEvent.isError, StreamEvent.isDone, StreamEvent.isOutput]
      | error e =>
          rw [show Phase.done.Follows (.error e :: events) ↔ Phase.failed.Follows events
            from Iff.rfl, Phase.failed_follows_iff]
          constructor
          · rintro rfl
            simp [closesOnce_nil, StreamEvent.isDone, StreamEvent.isOutput]
          · exact fun h => h.1.1 rfl
      | _ => simp [Phase.Follows, Phase.next, StreamEvent.isDone, StreamEvent.isOutput]

/-- The monitor accepts the events that close once and last. -/
theorem closesOnce_iff {events : List StreamEvent} :
    ClosesOnce events ↔ Phase.streaming.Follows events := by
  induction events with
  | nil => simp [Phase.Follows, closesOnce_nil]
  | cons event events ih =>
      rw [closesOnce_cons]
      cases event with
      | error e =>
          rw [show Phase.streaming.Follows (.error e :: events) ↔ Phase.failed.Follows events
            from Iff.rfl, Phase.failed_follows_iff]
          constructor
          · exact fun h => h.1 rfl
          · rintro rfl
            simp [closesOnce_nil]
      | done reason sequence =>
          rw [show Phase.streaming.Follows (.done reason sequence :: events) ↔
            Phase.done.Follows events from Iff.rfl, done_follows_iff]
          simp [StreamEvent.isError, StreamEvent.isDone, and_comm]
      | _ =>
          rw [ih]
          simp [StreamEvent.isError, StreamEvent.isDone, Phase.Follows, Phase.next]

end TokenStation.Provider
