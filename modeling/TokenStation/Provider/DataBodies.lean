import TokenStation.Provider.AcceptedFrames
import TokenStation.Sse.SplitterReading

/-!
# Bodies of data frames

A body that is one `data` line and a blank line a frame is cut into exactly these
frames, and a dialect that reads them reads the body.
-/

namespace TokenStation.Provider

open Library Library.ChunkedReading Library.Text Responses Sse

/-! ## The splitter -/

/-- Data that stands on one line as it is. -/
structure PlainData (data : String) : Prop where
  one_line : OneLine data
  head : data.toList.head? ≠ some ' '
  size : data.utf8ByteSize ≤ maxSseSplitBytes

def dataFrame (data : String) : List UInt8 := bytes ("data:" ++ data) ++ [lf, lf]

def dataBody (datas : List String) : List UInt8 := datas.flatMap dataFrame

/-- A splitter between two events. -/
def between (tail : List UInt8) : SseSplitterV1 := ⟨tail, true, false, "", "", false⟩

open SseSplitterV1 in
/-- A text line is read as its text. -/
theorem readLines_text {s s' : SseSplitterV1} {text : String} {frame : Option SseFrameV1}
    (hone : OneLine text) (hline : s.line text = (.ok frame, s')) (rest : List UInt8)
    (frames : List SseFrameV1) :
    readLines s (bytes text ++ lf :: rest) frames = readLines s' rest (frames ++ frame.toList) := by
  have hterm : terminator (bytes text ++ lf :: rest) = some (bytes text).length := by
    rw [terminator_append_of_none (terminator_eq_none_iff.mpr hone.unbroken)]
    simp [terminator, List.findIdx?_cons]
  have hlf : (bytes text ++ lf :: rest)[(bytes text).length]? = some lf := by simp
  have hcr : ¬(some lf = some cr) := by decide
  rw [readLines]
  split
  · rename_i hnone
    rw [hterm] at hnone
    cases hnone
  · rename_i offset hsome
    obtain rfl : (bytes text).length = offset := Option.some.inj (hterm.symm.trans hsome)
    rw [List.take_left, fromUtf8_bytes]
    simp only [hlf, hcr, false_and, if_false, hline]
    rw [List.drop_append, List.drop_of_length_le (by omega)]
    simp

theorem line_data (tail : List UInt8) {data : String} (h : PlainData data) :
    (between tail).line ("data:" ++ data) = (.ok none, ⟨tail, true, false, "", data, true⟩) := by
  have hlist : ("data:" ++ data).toList = 'd' :: 'a' :: 't' :: 'a' :: ':' :: data.toList := by
    rw [String.toList_append]
    rfl
  have hfield : SseSplitterV1.fieldOf ("data:" ++ data) = ("data", data) := by
    have hstrip : stripPrefix data ' ' = none := by
      have hhead := h.head
      unfold stripPrefix
      split
      · rename_i x xs hx
        rw [hx] at hhead
        simpa using hhead
      · rfl
    have hsplit : splitOnce ("data:" ++ data) ':' = some ("data", data) := by
      rw [splitOnce, hlist]
      simp [splitOnceList]
    rw [SseSplitterV1.fieldOf, hsplit]
    simp only [hstrip, Option.getD_none]
  have hne : "data:" ++ data ≠ "" := by
    intro hempty
    have hempty := congrArg String.toList hempty
    rw [hlist] at hempty
    simp at hempty
  have hcolon : startsWith ("data:" ++ data) ':' = false := by
    rw [startsWith, hlist]
    rfl
  have hover : ¬data.utf8ByteSize > maxSseSplitBytes := by
    have := h.size
    omega
  simp [between, SseSplitterV1.line, hne, hcolon, hfield, hover]

open SseSplitterV1 in
/-- A frame of the body is read as one. -/
theorem readLines_data {data : String} (h : PlainData data) (tail rest : List UInt8)
    (frames : List SseFrameV1) :
    readLines (between tail) (dataFrame data ++ rest) frames =
      readLines (between tail) rest (frames ++ [⟨"message", data⟩]) := by
  have hprefix : OneLine "data:" := oneLine_of_all (by decide)
  have hblank : (⟨tail, true, false, "", data, true⟩ : SseSplitterV1).line "" =
      (.ok (some ⟨"message", data⟩), between tail) := rfl
  have hempty := @readLines_text _ _ "" _ (by simp [OneLine]) hblank rest
    (frames ++ (none : Option SseFrameV1).toList)
  have hnil : bytes "" = [] := by decide
  rw [hnil] at hempty
  have htext := readLines_text (OneLine.append hprefix h.one_line) (line_data tail h) (lf :: rest)
    frames
  rw [dataFrame, List.append_assoc]
  simpa using htext.trans hempty

theorem readLines_dataBody {datas : List String} (h : ∀ data ∈ datas, PlainData data)
    (tail : List UInt8) (frames : List SseFrameV1) :
    SseSplitterV1.readLines (between tail) (dataBody datas) frames =
      (⟨frames ++ datas.map fun data => ⟨"message", data⟩, none⟩, between []) := by
  induction datas generalizing frames with
  | nil =>
      rw [dataBody, List.flatMap_nil, SseSplitterV1.readLines_of_none rfl, List.map_nil,
        List.append_nil]
      rfl
  | cons data datas ih =>
      rw [dataBody, List.flatMap_cons, readLines_data (h data (by simp))]
      exact (ih (fun other hother => h other (List.mem_cons_of_mem _ hother)) _).trans (by simp)

/-- A body of data frames is cut into them. -/
theorem push_dataBody {datas : List String} (hne : datas ≠ [])
    (h : ∀ data ∈ datas, PlainData data) :
    SseSplitterV1.new.push (dataBody datas) =
      (⟨datas.map fun data => ⟨"message", data⟩, none⟩, between []) := by
  obtain ⟨rest, hfirst⟩ : ∃ rest, dataBody datas = 100 :: rest := by
    obtain ⟨data, datas, rfl⟩ := List.exists_cons_of_ne_nil hne
    rw [dataBody, List.flatMap_cons, dataFrame, bytes_append]
    exact ⟨_, rfl⟩
  have hread := readLines_dataBody h (dataBody datas) []
  have hskip : ¬(SseSplitterV1.new.afterCr = true ∧ (dataBody datas).head? = some lf) := by
    simp [SseSplitterV1.new]
  have hbom : bom.isPrefixOf? (dataBody datas) = none := by
    rw [hfirst]
    simp [bom, List.isPrefixOf?]
  have hshort : ¬((dataBody datas).length < bom.length ∧
      (dataBody datas).isPrefixOf bom = true) := by
    rw [hfirst]
    simp [bom, List.isPrefixOf]
  have hchunk : dataBody datas ≠ [] := by
    rw [hfirst]
    exact List.cons_ne_nil _ _
  simp only [SseSplitterV1.push, hskip, if_neg hchunk, if_false]
  rw [if_neg (by simp [SseSplitterV1.new]), if_neg (by simpa [SseSplitterV1.new] using hshort)]
  simpa [SseSplitterV1.new, hbom, between] using hread

/-! ## The dialect -/

section Runs

variable {σ : Type} {d : Dialect σ} {s t : σ}

theorem Dialect.read_pair {u : σ} {first second : SseFrameV1} {events more : List StreamEvent}
    (hfirst : d.frame s first = .ok (events, t)) (hsecond : d.frame t second = .ok (more, u)) :
    d.read s [first, second] = .ok (events ++ more, u) := by
  simp [Dialect.read, Batching.call, hfirst, hsecond, Except.map]

/-- A dialect that reads the frames of a body and may close reads the body. -/
theorem Dialect.body_read {datas : List String} {events : List StreamEvent} (hne : datas ≠ [])
    (hplain : ∀ data ∈ datas, PlainData data)
    (hread : d.read s (datas.map fun data => ⟨"message", data⟩) = .ok (events, t))
    (hclose : d.close t = .ok ([], t)) :
    Batching.calls d.parseChunk (.new, s) [dataBody datas, []] = .emit events () ∧
      d.accepted (.new, s) [dataBody datas, []] = datas.map fun data => ⟨"message", data⟩ := by
  have hchunk : dataBody datas ≠ [] := by
    obtain ⟨data, datas, rfl⟩ := List.exists_cons_of_ne_nil hne
    simp [dataBody, dataFrame]
  have hpush := push_dataBody hne hplain
  have hfinish : (between []).finish = (.ok none, between []) := rfl
  have hfirst : d.parseChunk (.new, s) (dataBody datas) = .ok (events, (between [], t)) := by
    rw [Dialect.parseChunk, if_neg hchunk]
    simp [hpush, hread, bind, Except.bind, pure, Except.pure]
  have hlast : d.parseChunk (between [], t) [] = .ok ([], (between [], t)) := by
    simp [Dialect.parseChunk, hfinish, Dialect.read, Batching.call, hclose, bind, Except.bind, pure,
      Except.pure]
  constructor
  · simp [Batching.calls, hfirst, hlast, Trace.bind, Trace.emit, Trace.pure]
  · simp [Dialect.accepted, hfirst, hlast, handed, hchunk, hpush, hfinish]

end Runs

end TokenStation.Provider
