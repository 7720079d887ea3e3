import TokenStation.Provider.AcceptedFrames

/-!
# Streams with a terminal frame

A dialect with a terminal frame streams content up to it and accepts nothing
after it. What its frames do one by one decides the events of every stream.
-/

namespace TokenStation.Responses

/-- The content events of a provider stream. -/
def StreamEvent.isSpoken : StreamEvent → Bool
  | .delta _ _ | .thinkingDelta _ _ _ | .toolCallDelta _ _ _ _ _ => true
  | _ => false

end TokenStation.Responses

namespace TokenStation.Provider

open Library Library.ChunkedReading Responses Sse

variable {σ : Type}

/-- Content up to a terminal, if the stream has come to one. -/
def Terminates (terminal : List StreamEvent → Prop) (ended : Prop) (events : List StreamEvent) :
    Prop :=
  ∃ content last, events = content ++ last ∧ (∀ event ∈ content, event.isSpoken = true) ∧
    (ended ∧ terminal last ∨ ¬ended ∧ last = [])

/-- Content, then nothing or a terminal. -/
def Grammatical (terminal : List StreamEvent → Prop) (events : List StreamEvent) : Prop :=
  ∃ content last, events = content ++ last ∧ (∀ event ∈ content, event.isSpoken = true) ∧
    (last = [] ∨ terminal last)

theorem Terminates.grammatical {terminal : List StreamEvent → Prop} {ended : Prop}
    {events : List StreamEvent} (h : Terminates terminal ended events) :
    Grammatical terminal events := by
  obtain ⟨content, last, rfl, hcontent, hlast⟩ := h
  exact ⟨content, last, rfl, hcontent, hlast.elim (fun h => .inr h.2) fun h => .inl h.2⟩

theorem Terminates.spoken {terminal : List StreamEvent → Prop} {ended : Prop}
    {content events : List StreamEvent} (hcontent : ∀ event ∈ content, event.isSpoken = true)
    (h : Terminates terminal ended events) : Terminates terminal ended (content ++ events) := by
  obtain ⟨more, last, rfl, hmore, hlast⟩ := h
  refine ⟨content ++ more, last, by rw [List.append_assoc], fun event hevent => ?_, hlast⟩
  exact (List.mem_append.mp hevent).elim (hcontent event) (hmore event)

namespace Dialect

/-- Frames stream content until one of them is terminal; no frame is accepted
after it, and the end of the body adds nothing. -/
structure Terminating (d : Dialect σ) (ended : σ → Prop)
    (terminal : List StreamEvent → Prop) : Prop where
  start : ¬ended d.start
  last : ∀ {s frame r}, ended s → d.frame s frame ≠ .ok r
  step : ∀ {s frame events t}, ¬ended s → d.frame s frame = .ok (events, t) →
    Terminates terminal (ended t) events
  close : d.SilentClose

namespace Terminating

variable {d : Dialect σ} {ended : σ → Prop} {terminal : List StreamEvent → Prop}

/-- A terminal frame is the last one. -/
theorem read_ended (h : d.Terminating ended terminal) {s t : σ} (hended : ended s)
    {frames : List SseFrameV1} {events : List StreamEvent}
    (hread : d.read s frames = .ok (events, t)) : frames = [] ∧ events = [] ∧ t = s := by
  cases frames with
  | nil =>
      cases hread
      exact ⟨rfl, rfl, rfl⟩
  | cons frame frames =>
      obtain ⟨now, rest, u, hnow, -, -⟩ := read_cons_ok hread
      exact absurd hnow (h.last hended)

/-- The events of a run of frames. -/
theorem read_terminates (h : d.Terminating ended terminal) {s t : σ} (hopen : ¬ended s)
    {frames : List SseFrameV1} {events : List StreamEvent}
    (hread : d.read s frames = .ok (events, t)) : Terminates terminal (ended t) events := by
  induction frames generalizing s events with
  | nil =>
      cases hread
      exact ⟨[], [], rfl, by simp, .inr ⟨hopen, rfl⟩⟩
  | cons frame frames ih =>
      obtain ⟨now, rest, u, hnow, hrest, rfl⟩ := read_cons_ok hread
      by_cases hended : ended u
      · obtain ⟨-, rfl, rfl⟩ := h.read_ended hended hrest
        rw [List.append_nil]
        exact h.step hopen hnow
      · obtain ⟨content, last, rfl, hcontent, hlast⟩ := h.step hopen hnow
        rcases hlast with ⟨hu, -⟩ | ⟨-, rfl⟩
        · exact absurd hu hended
        · rw [List.append_nil]
          exact (ih hended hrest).spoken hcontent

/-- The events of every stream, up to its first refused call. -/
theorem items_terminate (h : d.Terminating ended terminal) (chunks : List (List UInt8)) :
    Grammatical terminal (Batching.calls d.parseChunk (.new, d.start) chunks).items := by
  obtain ⟨t, hread⟩ := items_silent h.close (.new, d.start) chunks
  exact (h.read_terminates h.start hread).grammatical

end Terminating

end Dialect

end TokenStation.Provider
