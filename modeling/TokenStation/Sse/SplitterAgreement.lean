import TokenStation.Sse.FrameCuts
import TokenStation.Sse.SplitterRefusals

/-!
# The splitter and the host decoder

Both implementations are compared with the grammar itself, which knows no
bounds: a pending type, optional pending data and a step for each line. Inside
the bounds both follow the grammar, so the component sees exactly the frames
the host cuts.
-/

namespace TokenStation.Sse

open Library.Text Library.ChunkedReading

/-- What a stream has said since the last dispatch. -/
structure Pending where
  type : String
  data : Option String
  deriving DecidableEq

namespace Pending

def none : Pending := ⟨"", .none⟩

/-- The data with the value of one more `data` line. -/
def joined (p : Pending) (value : String) : String :=
  match p.data with
  | .none => value
  | some data => data ++ "\n" ++ value

/-- One line of the grammar: the event it dispatches and what is pending. -/
def step (p : Pending) : Field → Option SseEventV1 × Pending
  | .blank => (p.data.map fun data =>
      ⟨if p.type = "" then defaultSseEventType else p.type, data⟩, none)
  | .event value => (.none, { p with type := value })
  | .data value => (.none, { p with data := some (p.joined value) })
  | _ => (.none, p)

/-- The type, the LF-joined data and one byte fit the bound. -/
def Fits (p : Pending) : Prop :=
  ∀ data ∈ p.data, p.type.utf8ByteSize + data.utf8ByteSize + 1 ≤ maxSseSplitBytes

end Pending

section Grammar

variable {ε : Type*}

/-- The grammar over line texts, up to the end of input or a line that is not
UTF-8. -/
def grammar (malformed : ε) (p : Pending) : List (List UInt8) → Trace SseEventV1 ε Unit
  | [] => .emit (p.step .blank).1.toList ()
  | text :: texts =>
      if Field.ofBytes text = .malformed then .fail malformed
      else (Trace.emit (p.step (Field.ofBytes text)).1.toList ()).bind fun _ =>
        grammar malformed (p.step (Field.ofBytes text)).2 texts

/-- What is pending after each line, up to a line that is not UTF-8. -/
def pendings (p : Pending) : List (List UInt8) → List Pending
  | [] => []
  | text :: texts =>
      if Field.ofBytes text = .malformed then []
      else (p.step (Field.ofBytes text)).2 :: pendings (p.step (Field.ofBytes text)).2 texts

end Grammar

/-- Only the name of the error depends on who reads the grammar. -/
theorem grammar_error {ε ε' : Type*} (e : ε) (e' : ε') (p : Pending)
    (texts : List (List UInt8)) :
    (grammar e p texts).items = (grammar e' p texts).items ∧
      ((grammar e p texts).result = .ok () ∧ (grammar e' p texts).result = .ok () ∨
        (grammar e p texts).result = .error e ∧ (grammar e' p texts).result = .error e') := by
  induction texts generalizing p with
  | nil => simp [grammar, Trace.emit]
  | cons text texts ih =>
      simp only [grammar]
      split
      · simp [Trace.fail]
      · obtain ⟨hitems, hresult⟩ := ih (p.step (Field.ofBytes text)).2
        exact ⟨by simp [hitems], by simpa using hresult⟩

/-! ## The decoder -/

/-- The decoder's builder for what is pending. -/
def Pending.builder (p : Pending) : EventBuilder :=
  mid p.type (match p.data with
    | .none => ""
    | some data => data ++ "\n")

theorem pop_newline (data : String) : pop (data ++ "\n") = data := pop_push data '\n'

theorem append_newline_ne (data : String) : data ++ "\n" ≠ "" := by
  intro h
  have := congrArg String.utf8ByteSize h
  simp at this

/-- The splitter's bound is the decoder's. -/
theorem le_splitBytes {n : Nat} (h : n ≤ maxSseSplitBytes) : n ≤ maxSseLineBytes := h

/-- Inside the bounds the builder takes the step of the grammar. -/
theorem builder_line {p : Pending} {text : List UInt8} (hlen : text.length ≤ maxSseSplitBytes)
    (hvalid : Field.ofBytes text ≠ .malformed) (hfits : (p.step (Field.ofBytes text)).2.Fits) :
    p.builder.line text =
      (.ok (p.step (Field.ofBytes text)).1, (p.step (Field.ofBytes text)).2.builder) := by
  have hmax : maxSseSplitBytes = maxSseEventBytes := rfl
  have hnl : "\n".utf8ByteSize = 1 := by decide
  rw [Pending.builder, line_mid _ _ (le_splitBytes hlen)]
  cases hfield : Field.ofBytes text with
  | malformed => exact absurd hfield hvalid
  | ignored => rfl
  | blank =>
      cases hdata : p.data with
      | none =>
          simp only [EventBuilder.apply, hdata, Pending.step]
          rw [EventBuilder.dispatch_of_empty rfl]
          rfl
      | some data =>
          simp only [EventBuilder.apply, hdata, Pending.step]
          rw [EventBuilder.dispatch_of_data (append_newline_ne data)]
          simp only [mid, pop_newline]
          rfl
  | event value =>
      have hsize := ofBytes_value_size (.inl hfield)
      rw [hfield] at hfits
      rw [EventBuilder.apply, if_neg]
      · rfl
      · cases hdata : p.data with
        | none =>
            simp only [mid, String.utf8ByteSize_empty]
            omega
        | some data =>
            have := hfits data hdata
            simp only [Pending.step] at this
            simp only [mid, String.utf8ByteSize_append, hnl]
            omega
  | data value =>
      rw [hfield] at hfits
      have := hfits _ rfl
      simp only [Pending.step] at this
      cases hdata : p.data with
      | none =>
          simp only [Pending.joined, hdata] at this
          rw [EventBuilder.apply, if_neg]
          · simp [Pending.step, Pending.builder, Pending.joined, hdata, mid]
          · simp only [mid, String.utf8ByteSize_empty]
            omega
      | some data =>
          simp only [Pending.joined, hdata, String.utf8ByteSize_append, hnl] at this
          rw [EventBuilder.apply, if_neg]
          · simp [Pending.step, Pending.builder, Pending.joined, hdata, mid]
          · simp only [mid, String.utf8ByteSize_append, hnl]
            omega

theorem interpret_eq_grammar (p : Pending) (texts : List (List UInt8))
    (hlen : ∀ text ∈ texts, text.length ≤ maxSseSplitBytes)
    (hfits : ∀ q ∈ pendings p texts, q.Fits) :
    interpret p.builder texts = grammar .notUtf8 p texts := by
  induction texts generalizing p with
  | nil =>
      rw [interpret, grammar]
      cases hdata : p.data with
      | none =>
          rw [Pending.builder, hdata, EventBuilder.dispatch_of_empty rfl]
          simp [Pending.step, hdata]
      | some data =>
          rw [Pending.builder, hdata, EventBuilder.dispatch_of_data (append_newline_ne data)]
          simp only [Pending.step, hdata, mid, pop_newline]
          rfl
  | cons text texts ih =>
      have htext := hlen text (by simp)
      rw [pendings] at hfits
      rw [grammar]
      by_cases hvalid : Field.ofBytes text = .malformed
      · have hline : p.builder.line text = (.error .notUtf8, p.builder) := by
          rw [Pending.builder, line_mid _ _ (le_splitBytes htext), hvalid]
          rfl
        rw [if_pos hvalid, interpret_error hline]
      · rw [if_neg hvalid] at hfits ⊢
        rw [interpret_ok (builder_line htext hvalid (hfits _ (by simp)))]
        rw [ih _ (fun t ht => hlen t (by simp [ht])) (fun q hq => hfits q (by simp [hq]))]
        rfl

/-! ## The splitter -/

/-- The frame a component sees for an event. -/
def frameOf (event : SseEventV1) : SseFrameV1 := ⟨event.event, event.data⟩

/-- The splitter's fields say what is pending. -/
structure Shows (s : SseSplitterV1) (p : Pending) : Prop where
  event_eq : s.event = p.type
  hasData_eq : s.hasData = p.data.isSome
  data_eq : s.data = p.data.getD ""

/-- Inside the bounds the splitter takes the step of the grammar. -/
theorem splitter_apply {s : SseSplitterV1} {p : Pending} {f : Field} (hs : Shows s p)
    (hvalid : f ≠ .malformed) (hfits : (p.step f).2.Fits) :
    ∃ s', s.apply f = (.ok ((p.step f).1.map frameOf), s') ∧ Shows s' (p.step f).2 := by
  obtain ⟨hevent, hhas, hdata⟩ := hs
  cases f with
  | malformed => exact absurd rfl hvalid
  | ignored => exact ⟨s, rfl, ⟨hevent, hhas, hdata⟩⟩
  | event value => exact ⟨{ s with event := value }, rfl, ⟨rfl, hhas, hdata⟩⟩
  | blank =>
      cases hp : p.data with
      | none =>
          rw [hp] at hhas hdata
          refine ⟨{ s with event := "" }, ?_, ⟨rfl, hhas, hdata⟩⟩
          simp only [Option.isSome_none] at hhas
          simp [SseSplitterV1.apply, hhas, Pending.step, hp]
      | some data =>
          rw [hp] at hhas hdata
          refine ⟨{ s with event := "", data := "", hasData := false }, ?_, ⟨rfl, rfl, rfl⟩⟩
          simp only [Option.isSome_some, Option.getD_some] at hhas hdata
          simp [SseSplitterV1.apply, hhas, Pending.step, hp, frameOf, hevent, hdata,
            defaultSseEventType]
  | data value =>
      have hjoined : s.joined value = p.joined value := by
        unfold SseSplitterV1.joined Pending.joined
        cases hp : p.data with
        | none => simp [hhas, hdata, hp]
        | some data => simp [hhas, hdata, hp]
      have hsize := hfits _ rfl
      refine ⟨{ s with data := s.joined value, hasData := true }, ?_, ⟨hevent, rfl, hjoined⟩⟩
      rw [SseSplitterV1.apply, if_neg]
      · rfl
      · rw [hjoined]
        omega

theorem splitAll_eq_grammar (strict : Bool) {s : SseSplitterV1} {p : Pending} (hs : Shows s p)
    (ls : List Line) (hlen : ∀ l ∈ ls, l.text.length ≤ maxSseSplitBytes)
    (hfits : ∀ q ∈ pendings p (ls.map Line.text), q.Fits) :
    SseSplitterV1.splitAll strict s ls =
      (grammar .notUtf8 p (ls.map Line.text)).mapItems frameOf := by
  induction ls generalizing s p with
  | nil =>
      obtain ⟨s', happly, -⟩ := splitter_apply (f := .blank) hs (by simp)
        (by simp [Pending.step, Pending.none, Pending.Fits])
      rw [SseSplitterV1.splitAll, SseSplitterV1.ended, happly, List.map_nil, grammar]
      cases (p.step .blank).1 <;> rfl
  | cons l ls ih =>
      have hl := hlen l (by simp)
      rw [List.map_cons, pendings] at hfits
      rw [SseSplitterV1.splitAll, if_neg (fun h => by omega), List.map_cons, grammar]
      by_cases hvalid : Field.ofBytes l.text = .malformed
      · rw [if_pos hvalid, hvalid]
        rfl
      · rw [if_neg hvalid] at hfits ⊢
        obtain ⟨s', happly, hs'⟩ := splitter_apply hs hvalid (hfits _ (by simp))
        rw [happly]
        dsimp only
        rw [ih hs' (fun m hm => hlen m (by simp [hm])) (fun q hq => hfits q (by simp [hq])),
          Trace.mapItems_bind]
        cases (p.step (Field.ofBytes l.text)).1 <;> rfl

/-! ## The whole input -/

/-- A leading mark belongs to the first line. -/
theorem lines_bom (rest : List UInt8) :
    lines (bom ++ rest) = match lines rest with
      | [] => [⟨bom, []⟩]
      | l :: ls => ⟨bom ++ l.text, l.ending⟩ :: ls := by
  have hbom : Unbroken bom := terminator_eq_none_iff.mp (by decide)
  have happend : ∀ text, Unbroken text → Unbroken (bom ++ text) := by
    intro text htext b hb
    rcases List.mem_append.mp hb with hb | hb
    · exact hbom b hb
    · exact htext b hb
  cases hterm : terminator rest with
  | none =>
      have hrest := terminator_eq_none_iff.mp hterm
      rw [lines_last (happend rest hrest) (by simp [bom]), lines_of_none hterm]
      split
      · rename_i hnil
        split at hnil
        · simp [*]
        · cases hnil
      · rename_i hcons
        split at hcons
        · cases hcons
        · cases hcons
          rfl
  | some n =>
      obtain ⟨l, htext, -, hends, hrest⟩ := exists_line hterm
      have hunbroken : Unbroken l.text := htext ▸ (terminator_eq_some hterm).1
      have hmarked := lines_cons (l := ⟨bom ++ l.text, l.ending⟩) (happend _ hunbroken) hends
      have hplain := lines_cons hunbroken hends
      rw [← hrest] at hplain
      rw [List.append_assoc, ← hrest] at hmarked
      rw [hmarked, hplain]

/-- The decoder reads the lines of the input without its leading mark. -/
theorem interpret_unmarked (body : List UInt8)
    (hlen : ∀ l ∈ lines body, l.text.length ≤ maxSseSplitBytes) :
    interpret .new ((lines body).map Line.text) =
        interpret Pending.none.builder ((SseSplitterV1.unmarkedLines body).map Line.text) ∧
      ∀ l ∈ SseSplitterV1.unmarkedLines body, l.text.length ≤ maxSseSplitBytes := by
  have hline : ∀ text : List UInt8, text.length ≤ maxSseSplitBytes →
      EventBuilder.new.line text =
        (mid "" "").apply (Field.ofBytes (EventBuilder.new.unmarked text)) := by
    intro text htext
    rw [EventBuilder.line_eq_apply, if_neg (Nat.not_lt.mpr (le_splitBytes htext))]
    rfl
  unfold SseSplitterV1.unmarkedLines SseSplitterV1.unmark
  cases hpre : bom.isPrefixOf? body with
  | none =>
      refine ⟨?_, hlen⟩
      rw [Option.getD_none]
      cases hls : lines body with
      | nil => rfl
      | cons l ls =>
          have hl := hlen l (by simp [hls])
          have hplain : EventBuilder.new.unmarked l.text = l.text := by
            rcases unmarked_cases l.text with h | ⟨hidden, hbom, -⟩
            · exact h
            · -- The first line starts the body, which has no mark.
              have hbody := (lines_spec body).1
              rw [hls, bytesOf_cons, hbom, List.append_assoc] at hbody
              rw [List.isPrefixOf?_eq_some_iff_append_eq.mpr hbody] at hpre
              cases hpre
          have hfirst : EventBuilder.new.line l.text = Pending.none.builder.line l.text := by
            rw [hline _ hl, hplain]
            exact (line_mid _ _ (le_splitBytes hl)).symm
          rw [List.map_cons, interpret, interpret, hfirst]
  | some rest =>
      have hbody := List.isPrefixOf?_eq_some_iff_append_eq.mp hpre
      rw [Option.getD_some]
      have hlines := lines_bom rest
      rw [hbody] at hlines
      cases hls : lines rest with
      | nil =>
          rw [hls] at hlines
          have hblank : EventBuilder.new.line bom = (.ok none, Pending.none.builder) := by decide
          refine ⟨?_, by simp⟩
          rw [hlines, List.map_cons, interpret_ok hblank]
          rfl
      | cons l ls =>
          rw [hls] at hlines
          have hl : (bom ++ l.text).length ≤ maxSseSplitBytes :=
            hlen ⟨bom ++ l.text, l.ending⟩ (by rw [hlines]; simp)
          have hshort : l.text.length ≤ maxSseSplitBytes := by
            rw [List.length_append] at hl
            omega
          have hfirst : EventBuilder.new.line (bom ++ l.text) =
              Pending.none.builder.line l.text := by
            rw [hline _ hl]
            exact (line_mid _ _ (le_splitBytes hshort)).symm
          constructor
          · rw [hlines, List.map_cons, interpret, List.map_cons, interpret, hfirst]
          · intro m hm
            rcases List.mem_cons.mp hm with rfl | hm
            · exact hshort
            · exact hlen m (by rw [hlines]; simp [hm])

/-- The splitter, however its input is chunked, returns the frames of the
events the decoder dispatches and refuses a line that is not UTF-8 where the
decoder does, as long as every line and every pending event stays inside the
bound. -/
theorem splitter_agrees_with_decoder (body : List UInt8) (chunks : List (List UInt8))
    (hchunks : chunks.flatten = body)
    (hlines : ∀ l ∈ lines body, l.text.length ≤ maxSseSplitBytes)
    (hpending : ∀ p ∈ pendings .none ((SseSplitterV1.unmarkedLines body).map Line.text),
      p.Fits) :
    (SseSplitterV1.new.run chunks).items =
        (SseDecoderV1.new.run [body]).items.map (fun p => frameOf p.1) ∧
      ((SseSplitterV1.new.run chunks).result = .error .notUtf8 ↔
        (SseDecoderV1.new.run [body]).result = .error .notUtf8) ∧
      ((SseSplitterV1.new.run chunks).result = .ok () ↔
        (SseDecoderV1.new.run [body]).result = .ok ()) := by
  obtain ⟨hdecoder, hshort⟩ := interpret_unmarked body hlines
  rw [interpret_eq_grammar _ _ (by simpa using hshort) hpending,
    ← runAll_mapItems .new 0, ← List.flatten_singleton (l := body),
    ← SseDecoderV1.run_eq_runAll, List.flatten_singleton] at hdecoder
  have hsplit : ∀ strict, SseSplitterV1.splitAll strict .new (SseSplitterV1.unmarkedLines body) =
      (grammar .notUtf8 .none ((SseSplitterV1.unmarkedLines body).map Line.text)).mapItems
        frameOf :=
    fun strict => splitAll_eq_grammar strict ⟨rfl, rfl, rfl⟩ _ hshort hpending
  have hrun : SseSplitterV1.new.run chunks =
      (grammar .notUtf8 .none ((SseSplitterV1.unmarkedLines body).map Line.text)).mapItems
        frameOf := by
    have hcases := SseSplitterV1.run_cases chunks
    rw [hchunks, hsplit, hsplit] at hcases
    rcases hcases with hrun | hbetween
    · exact hrun
    · exact hbetween.eq
  obtain ⟨hitems, hresult⟩ := grammar_error SseSplitErrorV1.notUtf8 SseErrorV1.notUtf8 .none
    ((SseSplitterV1.unmarkedLines body).map Line.text)
  have hditems : (SseDecoderV1.new.run [body]).items.map Prod.fst = _ :=
    congrArg Trace.items hdecoder
  have hdresult : (SseDecoderV1.new.run [body]).result =
      (grammar .notUtf8 .none ((SseSplitterV1.unmarkedLines body).map Line.text)).result := by
    rw [← hdecoder]
    rfl
  rw [hrun, hdresult]
  refine ⟨?_, ?_, ?_⟩
  · change _ = List.map (frameOf ∘ Prod.fst) _
    rw [← List.map_map, hditems, ← hitems]
    rfl
  · rcases hresult with ⟨h, h'⟩ | ⟨h, h'⟩ <;> simp [Trace.mapItems, h, h']
  · rcases hresult with ⟨h, h'⟩ | ⟨h, h'⟩ <;> simp [Trace.mapItems, h, h']

/-- An event and a malformed line after it, with chunks inside a CRLF and
inside the malformed line. -/
theorem splitter_agrees_with_decoder_malformed :
    (SseSplitterV1.new.run [bytes "data: a\r", bytes "\n\n", [0xC3], [0x28, 10]]).items =
        (SseDecoderV1.new.run [bytes "data: a\r\n\n" ++ [0xC3, 0x28, 10]]).items.map
          (fun p => frameOf p.1) ∧
      (SseDecoderV1.new.run [bytes "data: a\r\n\n" ++ [0xC3, 0x28, 10]]).items =
        [(⟨"message", "a"⟩, 10)] ∧
      (SseSplitterV1.new.run [bytes "data: a\r", bytes "\n\n", [0xC3], [0x28, 10]]).result =
        .error .notUtf8 := by
  have hpendings : pendings .none ((SseSplitterV1.unmarkedLines
      (bytes "data: a\r\n\n" ++ [0xC3, 0x28, 10])).map Line.text) =
        [⟨"", some "a"⟩, ⟨"", none⟩] := by
    decide
  obtain ⟨hitems, herror, -⟩ := splitter_agrees_with_decoder
    (bytes "data: a\r\n\n" ++ [0xC3, 0x28, 10])
    [bytes "data: a\r", bytes "\n\n", [0xC3], [0x28, 10]] (by decide) (by decide)
    (by
      rw [hpendings]
      intro p hp data hdata
      simp only [List.mem_cons, List.not_mem_nil, or_false] at hp
      rcases hp with rfl | rfl
      · cases hdata
        decide
      · cases hdata)
  exact ⟨hitems, by decide +kernel, herror.mpr (by decide +kernel)⟩

/-! ## A type that is replaced -/

theorem ofText_event (value : String) (h : stripPrefix value ' ' = none) :
    Field.ofText ("event:" ++ value) = .event value := by
  have hfield : EventBuilder.fieldOf ("event:" ++ value) = ("event", value) := by
    have hsplit : splitOnce ("event:" ++ value) ':' = some ("event", value) := by
      simp [splitOnce, splitOnceList]
    rw [EventBuilder.fieldOf, hsplit]
    simp [h]
  have hne : "event:" ++ value ≠ "" := by
    intro hempty
    simpa using congrArg String.toList hempty
  have hstart : startsWith ("event:" ++ value) ':' = false := by simp [startsWith]
  simp [Field.ofText, hfield, hne, hstart]

/-- A type of this many letters, data under it, and the type that replaces it. -/
def replacedType (n : Nat) : List Line :=
  [⟨bytes "event:" ++ letters n, [lf]⟩, ⟨bytes "data:xxxxxx", [lf]⟩, ⟨bytes "event:a", [lf]⟩,
    ⟨[], [lf]⟩]

theorem ofBytes_replacedType (n : Nat) :
    ((replacedType n).map Line.text).map Field.ofBytes =
      [.event (String.ofList (List.replicate n 'a')), .data "xxxxxx", .event "a", .blank] := by
  have hlong : fromUtf8 (bytes "event:" ++ letters n) =
      some ("event:" ++ String.ofList (List.replicate n 'a')) := by
    rw [fromUtf8_eq_some_iff, bytes_append, bytes_of_fromUtf8 (fromUtf8_letters _)]
  have hstrip : stripPrefix (String.ofList (List.replicate n 'a')) ' ' = none := by
    cases n <;> simp [stripPrefix, List.replicate_succ]
  have hfirst : Field.ofBytes (bytes "event:" ++ letters n) =
      .event (String.ofList (List.replicate n 'a')) := by
    rw [Field.ofBytes, hlong]
    exact ofText_event _ hstrip
  have hrest : [bytes "data:xxxxxx", bytes "event:a", []].map Field.ofBytes =
      [.data "xxxxxx", .event "a", .blank] := by
    decide
  simp only [replacedType, List.map_cons, List.map_nil, hfirst]
  exact congrArg _ hrest

theorem lines_replacedType (n : Nat) : lines (bytesOf (replacedType n)) = replacedType n := by
  apply lines_bytesOf
  have hfirst : Unbroken (bytes "event:" ++ letters n) := by
    have hname : Unbroken (bytes "event:") := terminator_eq_none_iff.mp (by decide)
    intro b hb
    rcases List.mem_append.mp hb with hb | hb
    · exact hname b hb
    · exact unbroken_letters _ b hb
  refine ⟨hfirst, .inl rfl, ?_, .inl rfl, ?_, .inl rfl, ?_, .inl (.inl rfl)⟩ <;>
    exact terminator_eq_none_iff.mp (by decide)

theorem unmarkedLines_replacedType (n : Nat) :
    SseSplitterV1.unmarkedLines (bytesOf (replacedType n)) = replacedType n := by
  have hunmark : SseSplitterV1.unmark (bytesOf (replacedType n)) = bytesOf (replacedType n) := by
    rw [replacedType, bytesOf_cons]
    rfl
  rw [SseSplitterV1.unmarkedLines, hunmark, lines_replacedType]

theorem length_replacedType {n : Nat} (h : n + 6 ≤ maxSseSplitBytes) :
    ∀ l ∈ replacedType n, l.text.length ≤ maxSseSplitBytes := by
  have hname : (bytes "event:").length = 6 := by decide
  intro l hl
  simp only [replacedType, List.mem_cons, List.not_mem_nil, or_false] at hl
  rcases hl with rfl | rfl | rfl | rfl
  · rw [List.length_append, letters, List.length_replicate, hname]
    omega
  · decide
  · decide
  · decide

/-- The grammar and the splitter know only the replacing type. -/
theorem run_replacedType (n : Nat) :
    (grammar () .none ((replacedType n).map Line.text)).items = [⟨"a", "xxxxxx"⟩] ∧
      (SseSplitterV1.new.run [bytesOf (replacedType n)]).items = [⟨"a", "xxxxxx"⟩] := by
  have hfields := ofBytes_replacedType n
  simp only [replacedType, List.map_cons, List.map_nil, List.cons.injEq, and_true] at hfields
  obtain ⟨h1, h2, h3, h4⟩ := hfields
  constructor
  · simp [replacedType, grammar, h1, h2, h3, h4, Pending.step, Pending.none, Pending.joined]
    rfl
  · rw [SseSplitterV1.run_whole, unmarkedLines_replacedType]
    have hsize : ¬maxSseSplitBytes < "xxxxxx".utf8ByteSize := by decide
    simp only [replacedType, SseSplitterV1.splitAll, h1, h2, h3, h4]
    simp [SseSplitterV1.apply, SseSplitterV1.new, SseSplitterV1.joined, SseSplitterV1.ended, hsize]
    rfl

/-- The decoder bounds the data under the replaced type. -/
theorem decoder_replacedType {n : Nat} (h : n + 6 = maxSseSplitBytes) :
    SseDecoderV1.new.run [bytesOf (replacedType n)] = .fail .eventTooLarge := by
  have hmax : maxSseSplitBytes = maxSseEventBytes := rfl
  have hlen := length_replacedType (Nat.le_of_eq h)
  have hfields := ofBytes_replacedType n
  simp only [replacedType, List.map_cons, List.map_nil, List.cons.injEq, and_true] at hfields
  obtain ⟨h1, h2, -⟩ := hfields
  simp only [replacedType, List.forall_mem_cons] at hlen
  have htype : (String.ofList (List.replicate n 'a')).utf8ByteSize = n := by
    rw [← length_bytes, bytes_of_fromUtf8 (fromUtf8_letters _), letters, List.length_replicate]
  have hfirst : EventBuilder.new.line (bytes "event:" ++ letters n) =
      (.ok none, mid (String.ofList (List.replicate n 'a')) "") := by
    rw [EventBuilder.line_eq_apply, if_neg (Nat.not_lt.mpr (le_splitBytes hlen.1))]
    have hplain : EventBuilder.new.unmarked (bytes "event:" ++ letters n) =
        bytes "event:" ++ letters n := rfl
    rw [hplain, h1, EventBuilder.apply, if_neg]
    · rfl
    · simp only [EventBuilder.new, htype, String.utf8ByteSize_empty]
      omega
  have hsecond : (mid (String.ofList (List.replicate n 'a')) "").line (bytes "data:xxxxxx") =
      (.error .eventTooLarge, mid (String.ofList (List.replicate n 'a')) "") := by
    rw [line_mid _ _ (le_splitBytes hlen.2.1), h2, EventBuilder.apply, if_pos]
    simp only [mid, htype, show "xxxxxx".utf8ByteSize = 6 by decide, String.utf8ByteSize_empty]
    omega
  rw [SseDecoderV1.run_eq_runAll, List.flatten_singleton, lines_replacedType, replacedType,
    runAll_cons, stepLine]
  simp only [hfirst, Option.toList_none, List.map_nil]
  rw [Trace.emit_bind, runAll_cons, stepLine]
  simp only [hsecond, Trace.fail_bind]
  rfl

/-- Bounding only the events a stream dispatches is not enough: the decoder
also bounds data under a type that is replaced later, and the splitter does
not. -/
theorem splitter_frame_behind_replaced_type :
    (∀ l ∈ lines (bytesOf (replacedType (maxSseSplitBytes - 6))),
        l.text.length ≤ maxSseSplitBytes) ∧
      (∀ event ∈ (grammar () .none ((SseSplitterV1.unmarkedLines
          (bytesOf (replacedType (maxSseSplitBytes - 6)))).map Line.text)).items,
        event.event.utf8ByteSize + event.data.utf8ByteSize + 1 ≤ maxSseSplitBytes) ∧
      (SseSplitterV1.new.run [bytesOf (replacedType (maxSseSplitBytes - 6))]).items =
        [⟨"a", "xxxxxx"⟩] ∧
      SseDecoderV1.new.run [bytesOf (replacedType (maxSseSplitBytes - 6))] =
        .fail .eventTooLarge := by
  have hn : maxSseSplitBytes - 6 + 6 = maxSseSplitBytes := rfl
  revert hn
  generalize maxSseSplitBytes - 6 = n
  intro hn
  obtain ⟨hevents, hframes⟩ := run_replacedType n
  refine ⟨?_, ?_, hframes, decoder_replacedType hn⟩
  · rw [lines_replacedType]
    exact length_replacedType (Nat.le_of_eq hn)
  · rw [unmarkedLines_replacedType, hevents]
    decide

end TokenStation.Sse
