import TokenStation.Library.ShallowJson
import TokenStation.Provider.Judging
import TokenStation.Responses.Carrier
import TokenStation.Sse.EncodedFrames

/-!
# Frames of JSON values

A value without doubles is written on one line, so it can be the data of an
event of any type. A parser that reads the frames of a body reads the body,
unless a frame is over the bound.
-/

namespace TokenStation.Provider

open Library Library.ChunkedReading Library.Json Library.Text Responses Sse

/-- A value as the data of an event. -/
def writtenFrame (packages : Packages) (event : String) (data : Value) : SseFrameV1 :=
  ⟨event, packages.toText data⟩

variable {packages : Packages}

/-- A shallow value is read back from its text. -/
theorem fromStr_toText (hp : packages.Lawful) {n : Nat} {data : Value} (h : Shallow n data)
    (hn : n < 128) : packages.fromStr (packages.toText data) = some data :=
  hp.parses data h.exact (h.depth_le.trans_lt hn)

/-- The text of an object starts with its brace. -/
theorem toText_object (hp : packages.Lawful) {data : Value} (h : Exact data)
    (hobject : data.isObject = true) : (packages.toText data).toList.head? = some '\x7b' := by
  rw [hp.writes data h, String.toList_ofList]
  cases data with
  | object entries =>
      cases entries with
      | nil => rfl
      | cons entry entries => rfl
  | null | bool | number | string | array => cases hobject

theorem oneLine_toText (hp : packages.Lawful) {data : Value} (h : Exact data) :
    OneLine (packages.toText data) := by
  rw [hp.writes data h]
  refine oneLine_of_printable ?_
  rw [String.toList_ofList]
  exact write_printable _ data h

theorem oneLined_written (hp : packages.Lawful) {event : String} (hevent : OneLine event)
    {data : Value} (h : Exact data) : (writtenFrame packages event data).OneLined :=
  ⟨hevent.unbroken, (oneLine_toText hp h).unbroken⟩

/-- A written value within the bound fits its line. -/
theorem writable_written (hp : packages.Lawful) {event : String} (hevent : OneLine event)
    (hnamed : event ≠ "") (hshort : ("event: " ++ event).utf8ByteSize ≤ maxSseSplitBytes)
    {data : Value} (h : Exact data)
    (hfits : ("data: " ++ packages.toText data).utf8ByteSize ≤ maxSseSplitBytes) :
    (writtenFrame packages event data).Writable where
  named := hnamed
  event_unbroken := hevent.unbroken
  data_unbroken := (oneLine_toText hp h).unbroken
  event_fits := hshort
  data_fits := hfits

/-! ## Values over the bound -/

/-- A text somewhere inside a value. -/
inductive HoldsText (text : String) : Value → Prop where
  | here : HoldsText text (.string text)
  | field {v w : Value} (key : String) (hget : v.get key = some w) (h : HoldsText text w) :
      HoldsText text v
  | item {items : List Value} {w : Value} (hmem : w ∈ items) (h : HoldsText text w) :
      HoldsText text (.array items)

/-- A value is written in no fewer bytes than the texts inside it. -/
theorem HoldsText.size_le {text : String} {v : Value} (h : HoldsText text v) :
    stringSize text ≤ textSize (write (fun _ => []) v) := by
  induction h with
  | here => rw [textSize_string]
  | field key hget _ ih => exact ih.trans (textSize_get hget)
  | item hmem _ ih => exact ih.trans (textSize_item hmem)

/-- A text over the bound of a line. -/
def overlongText : String := String.ofList (List.replicate maxSseSplitBytes 'a')

theorem overlongText_ne : overlongText ≠ "" := by
  have hne : ∀ n : Nat, n ≠ 0 → String.ofList (List.replicate n 'a') ≠ "" := by
    intro n hn h
    have hlength := congrArg (fun s => s.toList.length) h
    rw [String.toList_ofList, List.length_replicate] at hlength
    exact hn hlength
  exact hne _ (by decide)

theorem overlong_size {v : Value} (h : HoldsText overlongText v) (hexact : Exact v) :
    maxSseSplitBytes < (Packages.textual.toText v).utf8ByteSize := by
  have hsize := h.size_le
  rw [show stringSize overlongText = maxSseSplitBytes + 2 from stringSize_replicate _] at hsize
  rw [lawful_textual.writes v hexact, utf8ByteSize_ofList]
  omega

namespace Dialect

variable {σ : Type} {d : Dialect σ} {frames : List SseFrameV1} {events last : List StreamEvent}
  {s t : σ} {chunks : List (List UInt8)}

/-- A body of writable frames is read as its frames are. -/
theorem outcome_encode (h : ∀ frame ∈ frames, frame.Writable)
    (hchunks : ∀ chunk ∈ chunks, chunk ≠ []) (hflat : chunks.flatten = encode frames)
    (hread : d.read d.start frames = .ok (events, s)) (hclose : d.close s = .ok (last, t)) :
    outcome (d.events chunks) = .ok (events ++ last) := by
  rw [d.outcome_events chunks hchunks, run_encode h hflat, judge]
  simp [Trace.emit, hread, hclose, Except.map]

/-- A body whose frames are read up to one over the bound is refused for its size. -/
theorem outcome_oversized {frame : SseFrameV1} {more : List SseFrameV1}
    (h : ∀ frame ∈ frames, frame.Writable) (hmore : ∀ f ∈ frame :: more, f.OneLined)
    (hevent : ("event: " ++ frame.event).utf8ByteSize ≤ maxSseSplitBytes)
    (hlarge : maxSseSplitBytes < frame.data.utf8ByteSize)
    (hchunks : ∀ chunk ∈ chunks, chunk ≠ [])
    (hflat : chunks.flatten = encode (frames ++ frame :: more))
    (hread : d.read d.start frames = .ok (events, s)) :
    outcome (d.events chunks) = .error (d.splitError .tooLarge) := by
  rw [d.outcome_events chunks hchunks, run_oversized h hmore hevent hlarge hflat, judge_bind,
    hread]
  rfl

end Dialect

end TokenStation.Provider
