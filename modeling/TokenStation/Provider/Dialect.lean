import TokenStation.Library.Batching
import TokenStation.Responses.Conversation
import TokenStation.Sse.Splitter

/-!
# Provider stream parsers

A provider dialect reads the frames the splitter cuts from an upstream body.
Its parser takes the body in chunks: the frames a chunk completes are judged
before the splitter's own refusal, and the empty chunk is the end of the body.
-/

namespace TokenStation.Provider

open Library Library.ChunkedReading Responses Sse

/-- A refusal of what the upstream sent. -/
def protocolError (message : String) : ErrorEnvelope :=
  ⟨.providerProtocolError, 502, message, none⟩

/-- What one dialect adds to the splitter. -/
structure Dialect (σ : Type) where
  start : σ
  /-- The events of one frame. -/
  frame : σ → SseFrameV1 → Except ErrorEnvelope (List StreamEvent × σ)
  splitError : SseSplitErrorV1 → ErrorEnvelope
  /-- What the end of the body adds. -/
  close : σ → Except ErrorEnvelope (List StreamEvent × σ)

namespace Dialect

variable {σ : Type} (d : Dialect σ)

/-- The frames of a chunk in order. -/
def read (s : σ) (frames : List SseFrameV1) : Except ErrorEnvelope (List StreamEvent × σ) :=
  Batching.call d.frame s frames

/-- Read one chunk; the empty chunk ends the body. -/
def parseChunk (p : SseSplitterV1 × σ) (chunk : List UInt8) :
    Except ErrorEnvelope (List StreamEvent × (SseSplitterV1 × σ)) :=
  if chunk = [] then
    match p.1.finish with
    | (.error e, _) => .error (d.splitError e)
    | (.ok frame, splitter) => do
        let (events, s) ← d.read p.2 frame.toList
        let (last, s) ← d.close s
        return (events ++ last, (splitter, s))
  else
    match p.1.push chunk with
    | (push, splitter) => do
        let (events, s) ← d.read p.2 push.frames
        match push.error with
        | some e => .error (d.splitError e)
        | none => return (events, (splitter, s))

/-- The events of the calls for these chunks and the end of the body, up to
the first refused call. -/
def events (chunks : List (List UInt8)) : Trace StreamEvent ErrorEnvelope Unit :=
  Batching.calls d.parseChunk (.new, d.start) (chunks ++ [[]])

end Dialect

/-- All events of a parser that refuses nothing, or its first refusal. -/
def outcome (trace : Trace StreamEvent ErrorEnvelope Unit) :
    Except ErrorEnvelope (List StreamEvent) :=
  trace.result.map fun _ => trace.items

end TokenStation.Provider
