import TokenStation.Sse.FrameCuts

/-!
# Which frames are self-contained

A frame that starts with a byte order mark hides its first line from the
stream but not from a reader of the frame alone. The frame still decodes to
its event exactly when the hidden line is of no consequence: it is not a
`data` line before an event, and an event type it sets is replaced or is the
default one before it is used.
-/

namespace TokenStation.Sse

open Library.Text Library.ChunkedReading

/-- A hidden event type is of no consequence for the lines after it, of which
`size` bytes of data have been collected: it is dropped, replaced or the
default before an event takes it, and it never exhausts the event bound. -/
def Superseded (type : String) (size : Nat) : List (List UInt8) → Prop
  | [] => size = 0 ∨ type = defaultSseEventType
  | text :: texts =>
      match Field.ofBytes text with
      | .blank => size = 0 ∨ type = defaultSseEventType
      | .event _ => True
      | .data value =>
          type.utf8ByteSize + size + value.utf8ByteSize + 1 ≤ maxSseEventBytes ∧
            Superseded type (size + value.utf8ByteSize + 1) texts
      | _ => Superseded type size texts

/-- A line hidden behind a byte order mark is of no consequence for the lines
after it. -/
def HiddenHarmless (hidden : List UInt8) (texts : List (List UInt8)) : Prop :=
  match Field.ofBytes hidden with
  | .data _ => ∀ text ∈ texts, ∀ value, Field.ofBytes text ≠ .data value
  | .event type => type = "" ∨ Superseded type 0 texts
  | _ => True

/-- No line that opens a frame hides a line of consequence behind a byte order
mark. `opens` says that the previous line ended a frame, `pending` that data
has been collected since. -/
def MarksHarmless (opens pending : Bool) : List (List UInt8) → Prop
  | [] => True
  | text :: texts =>
      (opens = true → ∀ hidden, text = bom ++ hidden → HiddenHarmless hidden texts) ∧
      match Field.ofBytes text with
      | .blank => MarksHarmless pending false texts
      | .data _ => MarksHarmless false true texts
      | _ => MarksHarmless false pending texts

/-- The same for the lines of a body, whose own leading mark hides nothing. -/
def FramesUnmarked (body : List UInt8) : Prop :=
  match (lines body).map Line.text with
  | [] => True
  | first :: texts => MarksHarmless false false (EventBuilder.new.unmarked first :: texts)

/-! ## The first frame alone -/

/-- The first frame of a stream read by `b`, when read alone by `s`. -/
def FirstAlone (s b : EventBuilder) (ls : List Line) : Prop :=
  ∀ frame ∈ (framesOf b [] ls).head?, interpret s (frame.2.map Line.text) = .emit [frame.1] ()

/-- Lines already read belong to the first frame. -/
theorem framesOf_begun (b : EventBuilder) (begun ls : List Line) :
    framesOf b begun ls = match framesOf b [] ls with
      | [] => []
      | frame :: frames => (frame.1, begun ++ frame.2) :: frames := by
  induction ls generalizing b begun with
  | nil =>
      rw [framesOf, framesOf]
      cases b.dispatch.1 <;> simp
  | cons l ls ih =>
      rw [framesOf, framesOf]
      rcases b.line l.text with ⟨e | _ | event, b'⟩
      · rfl
      · dsimp only
        rw [ih b' (begun ++ [l]), ih b' ([] ++ [l])]
        cases framesOf b' [] ls <;> simp
      · simp

theorem firstAlone_nil (s b : EventBuilder) :
    FirstAlone s b [] ↔ b.dispatch.1 = none ∨ s.dispatch.1 = b.dispatch.1 := by
  unfold FirstAlone
  rw [framesOf]
  cases hb : b.dispatch.1 with
  | none => simp
  | some event =>
      cases hs : s.dispatch.1 <;>
        simp [interpret, hs, Trace.emit]

theorem firstAlone_skip {s s' b b' : EventBuilder} {l : Line} {ls : List Line}
    (hb : b.line l.text = (.ok none, b')) (hs : s.line l.text = (.ok none, s')) :
    FirstAlone s b (l :: ls) ↔ FirstAlone s' b' ls := by
  unfold FirstAlone
  rw [framesOf, hb]
  dsimp only
  rw [framesOf_begun]
  cases framesOf b' [] ls with
  | nil => simp
  | cons frame frames => simp [interpret_ok hs]

theorem firstAlone_dispatch {s s' b b' : EventBuilder} {l : Line} {ls : List Line}
    {event event' : SseEventV1} (hb : b.line l.text = (.ok (some event), b'))
    (hs : s.line l.text = (.ok (some event'), s')) :
    FirstAlone s b (l :: ls) ↔ event' = event := by
  unfold FirstAlone
  rw [framesOf, hb]
  simp [interpret_ok hs, EventBuilder.line_dispatched hs, interpret, EventBuilder.dispatch,
    Trace.emit]

theorem firstAlone_fail {s s' b b' : EventBuilder} {l : Line} {ls : List Line} {e : SseErrorV1}
    (hb : b.line l.text = (.ok none, b')) (hs : s.line l.text = (.error e, s')) :
    FirstAlone s b (l :: ls) ↔ framesOf b' [] ls = [] := by
  unfold FirstAlone
  rw [framesOf, hb]
  dsimp only
  rw [framesOf_begun]
  cases framesOf b' [] ls with
  | nil => simp
  | cons frame frames => simp [interpret_error hs, Trace.emit, Trace.fail]

/-- Read by the builder that read the stream, the first frame gives its event. -/
theorem firstAlone_refl (b : EventBuilder) (ls : List Line) : FirstAlone b b ls := by
  induction ls generalizing b with
  | nil => exact (firstAlone_nil b b).mpr (.inr rfl)
  | cons l ls ih =>
      rcases h : b.line l.text with ⟨e | _ | event, b'⟩
      · simp [FirstAlone, framesOf, h]
      · exact (firstAlone_skip h h).mpr (ih b')
      · exact (firstAlone_dispatch h h).mpr rfl

/-- An event of its own before the frame's event spoils the frame. -/
theorem firstAlone_extra {s s' b : EventBuilder} {l : Line} {ls : List Line}
    {event : SseEventV1} (hb : b.line l.text = (.ok none, .idle))
    (hs : s.line l.text = (.ok (some event), s')) :
    FirstAlone s b (l :: ls) ↔ framesOf .idle [] ls = [] := by
  have hrefl := firstAlone_refl .idle ls
  unfold FirstAlone at hrefl ⊢
  rw [framesOf, hb]
  dsimp only
  rw [framesOf_begun]
  cases hframes : framesOf .idle [] ls with
  | nil => simp
  | cons frame frames =>
      rw [hframes] at hrefl
      have hframe := hrefl frame rfl
      have hidle : s' = .idle := EventBuilder.line_dispatched hs
      simp [interpret_ok hs, hidle, hframe, Trace.emit]

/-! ## What a line does to a builder inside a stream -/

/-- Everything an accepted line can do to a builder inside a stream. -/
theorem mid_line_cases {type data : String} {text : List UInt8} {event : Option SseEventV1}
    {b' : EventBuilder} (h : (mid type data).line text = (.ok event, b')) :
    text.length ≤ maxSseLineBytes ∧
    ((Field.ofBytes text = .blank ∧ data = "" ∧ event = none ∧ b' = mid "" "") ∨
     (Field.ofBytes text = .blank ∧ data ≠ "" ∧ b' = mid "" "" ∧
        event = some ⟨if type = "" then defaultSseEventType else type, pop data⟩) ∨
     (∃ value, Field.ofBytes text = .event value ∧
        value.utf8ByteSize + data.utf8ByteSize ≤ maxSseEventBytes ∧
        event = none ∧ b' = mid value data) ∨
     (∃ value, Field.ofBytes text = .data value ∧
        type.utf8ByteSize + data.utf8ByteSize + value.utf8ByteSize + 1 ≤ maxSseEventBytes ∧
        event = none ∧ b' = mid type (data ++ value ++ "\n")) ∨
     (Field.ofBytes text = .ignored ∧ event = none ∧ b' = mid type data)) := by
  have hlen : text.length ≤ maxSseLineBytes := by
    by_contra hlong
    rw [EventBuilder.line_too_long (by omega)] at h
    simp at h
  refine ⟨hlen, ?_⟩
  rw [line_mid _ _ hlen] at h
  cases hfield : Field.ofBytes text with
  | malformed => simp [hfield, EventBuilder.apply] at h
  | blank =>
      rw [hfield, EventBuilder.apply] at h
      obtain ⟨hevent, rfl⟩ := Prod.mk.inj h
      have hevent := Except.ok.inj hevent
      by_cases hdata : data = ""
      · refine .inl ⟨rfl, hdata, ?_, ?_⟩
        · rw [← hevent, EventBuilder.dispatch_of_empty (b := mid type data) hdata]
        · rw [EventBuilder.dispatch_of_empty (b := mid type data) hdata]
          simp [mid, hdata]
      · refine .inr (.inl ⟨rfl, hdata, ?_, ?_⟩)
        · rw [EventBuilder.dispatch_of_data (b := mid type data) hdata]
          rfl
        · rw [← hevent, EventBuilder.dispatch_of_data (b := mid type data) hdata]
          rfl
  | event value =>
      rw [hfield, EventBuilder.apply] at h
      split at h
      · simp at h
      · rename_i hle
        obtain ⟨hevent, rfl⟩ := Prod.mk.inj h
        exact .inr (.inr (.inl ⟨value, rfl, Nat.le_of_not_gt hle, (Except.ok.inj hevent).symm, rfl⟩))
  | data value =>
      rw [hfield, EventBuilder.apply] at h
      split at h
      · simp at h
      · rename_i hle
        obtain ⟨hevent, rfl⟩ := Prod.mk.inj h
        exact .inr (.inr (.inr (.inl
          ⟨value, rfl, Nat.le_of_not_gt hle, (Except.ok.inj hevent).symm, rfl⟩)))
  | ignored =>
      rw [hfield, EventBuilder.apply] at h
      obtain ⟨hevent, rfl⟩ := Prod.mk.inj h
      exact .inr (.inr (.inr (.inr ⟨rfl, (Except.ok.inj hevent).symm, rfl⟩)))

/-- An accepted stream accepts its first line and goes on. -/
theorem interpret_cons_ok {b : EventBuilder} {text : List UInt8} {texts : List (List UInt8)}
    (h : (interpret b (text :: texts)).result = .ok ()) :
    ∃ event b', b.line text = (.ok event, b') ∧ (interpret b' texts).result = .ok () := by
  rcases hline : b.line text with ⟨e | event, b'⟩
  · rw [interpret_error hline] at h
    cases h
  · rw [interpret_ok hline] at h
    exact ⟨event, b', rfl, h⟩

theorem framesOf_skip {b b' : EventBuilder} {l : Line} (h : b.line l.text = (.ok none, b'))
    (ls : List Line) : framesOf b [] (l :: ls) = [] ↔ framesOf b' [] ls = [] := by
  rw [framesOf, h]
  dsimp only
  rw [framesOf_begun]
  cases framesOf b' [] ls <;> simp

theorem append_newline_ne_empty (data value : String) : data ++ value ++ "\n" ≠ "" := by
  intro h
  have := congrArg String.utf8ByteSize h
  simp at this

/-- An accepted stream has a further frame exactly when data is pending or a
`data` line is still to come. -/
theorem framesOf_eq_nil_iff {type data : String} {ls : List Line}
    (hok : (interpret (mid type data) (ls.map Line.text)).result = .ok ()) :
    framesOf (mid type data) [] ls = [] ↔
      data = "" ∧ ∀ text ∈ ls.map Line.text, ∀ value, Field.ofBytes text ≠ .data value := by
  induction ls generalizing type data with
  | nil =>
      rw [framesOf]
      by_cases hdata : data = ""
      · subst hdata
        rw [EventBuilder.dispatch_of_empty (b := mid type "") rfl]
        simp
      · rw [EventBuilder.dispatch_of_data (b := mid type data) hdata]
        simp [hdata]
  | cons l ls ih =>
      obtain ⟨event, b', hline, hrest⟩ := interpret_cons_ok hok
      obtain ⟨-, ⟨hf, rfl, rfl, rfl⟩ | ⟨hf, hdata, rfl, rfl⟩ | ⟨v, hf, -, rfl, rfl⟩ |
        ⟨v, hf, -, rfl, rfl⟩ | ⟨hf, rfl, rfl⟩⟩ := mid_line_cases hline
      · rw [framesOf_skip hline, ih hrest]
        simp [hf]
      · rw [framesOf, hline]
        simp [hdata]
      · rw [framesOf_skip hline, ih hrest]
        simp [hf]
      · rw [framesOf_skip hline, ih hrest]
        simp [hf]
      · rw [framesOf_skip hline, ih hrest]
        simp [hf]

/-- A hidden event type spoils the first frame unless it is superseded. -/
theorem firstAlone_type {type data : String} {ls : List Line} (htype : type ≠ "")
    (hok : (interpret (mid "" data) (ls.map Line.text)).result = .ok ()) :
    FirstAlone (mid type data) (mid "" data) ls ↔
      Superseded type data.utf8ByteSize (ls.map Line.text) := by
  induction ls generalizing data with
  | nil =>
      rw [firstAlone_nil, List.map_nil, Superseded]
      by_cases hdata : data = ""
      · subst hdata
        rw [EventBuilder.dispatch_of_empty (b := mid "" "") rfl]
        simp
      · rw [EventBuilder.dispatch_of_data (b := mid "" data) hdata,
          EventBuilder.dispatch_of_data (b := mid type data) hdata]
        simp [mid, htype, hdata]
  | cons l ls ih =>
      obtain ⟨event, b', hline, hrest⟩ := interpret_cons_ok hok
      obtain ⟨hlen, ⟨hf, rfl, rfl, rfl⟩ | ⟨hf, hdata, rfl, rfl⟩ | ⟨v, hf, hle, rfl, rfl⟩ |
        ⟨v, hf, hle, rfl, rfl⟩ | ⟨hf, rfl, rfl⟩⟩ := mid_line_cases hline
      · have hs : (mid type "").line l.text = (.ok none, mid "" "") := by
          rw [line_mid _ _ hlen, hf]
          rfl
        rw [firstAlone_skip hline hs]
        simp [Superseded, hf, firstAlone_refl]
      · have hs : (mid type data).line l.text = (.ok (some ⟨type, pop data⟩), mid "" "") := by
          rw [line_mid _ _ hlen, hf, EventBuilder.apply,
            EventBuilder.dispatch_of_data (b := mid type data) hdata]
          simp [mid, htype]
        rw [firstAlone_dispatch hline hs]
        simp [Superseded, hf, hdata]
      · have hs : (mid type data).line l.text = (.ok none, mid v data) := by
          rw [line_mid _ _ hlen, hf, EventBuilder.apply, if_neg (by simp only [mid]; omega)]
          rfl
        rw [firstAlone_skip hline hs]
        simp [Superseded, hf, firstAlone_refl]
      · by_cases hover : type.utf8ByteSize + data.utf8ByteSize + v.utf8ByteSize + 1 >
            maxSseEventBytes
        · have hs : (mid type data).line l.text = (.error .eventTooLarge, mid type data) := by
            rw [line_mid _ _ hlen, hf, EventBuilder.apply, if_pos (by simpa [mid] using hover)]
          rw [firstAlone_fail hline hs, framesOf_eq_nil_iff hrest]
          simp [Superseded, hf, Nat.not_le.mpr hover]
        · have hs : (mid type data).line l.text = (.ok none, mid type (data ++ v ++ "\n")) := by
            rw [line_mid _ _ hlen, hf, EventBuilder.apply, if_neg (by simpa [mid] using hover)]
            rfl
          rw [firstAlone_skip hline hs, ih hrest]
          have hnl : "\n".utf8ByteSize = 1 := by decide
          simp [Superseded, hf, Nat.le_of_not_gt hover, hnl]
      · have hs : (mid type data).line l.text = (.ok none, mid type data) := by
          rw [line_mid _ _ hlen, hf]
          rfl
        rw [firstAlone_skip hline hs, ih hrest]
        simp [Superseded, hf]

theorem pop_append {s t : String} (h : t ≠ "") : pop (s ++ t) = s ++ pop t := by
  apply String.toList_injective
  have : t.toList ≠ [] := by simpa using h
  simp [pop, List.dropLast_append_of_ne_nil this]

/-- Hidden data spoils the first frame, if there is one. -/
theorem firstAlone_data {type data hidden : String} {ls : List Line} (hhidden : hidden ≠ "")
    (hok : (interpret (mid type data) (ls.map Line.text)).result = .ok ()) :
    FirstAlone (mid type (hidden ++ data)) (mid type data) ls ↔
      framesOf (mid type data) [] ls = [] := by
  have hne : ∀ t, hidden ++ t ≠ "" := by
    intro t h
    have := congrArg String.utf8ByteSize h
    simp at this
    exact hhidden this.1
  have hpop : ∀ t, t ≠ "" → pop (hidden ++ t) ≠ pop t := by
    intro t ht h
    rw [pop_append ht] at h
    have := congrArg String.utf8ByteSize h
    simp at this
    exact hhidden this
  induction ls generalizing type data with
  | nil =>
      rw [firstAlone_nil, framesOf]
      rw [EventBuilder.dispatch_of_data (b := mid type (hidden ++ data)) (hne data)]
      by_cases hdata : data = ""
      · simp [EventBuilder.dispatch_of_empty (b := mid type data) hdata]
      · rw [EventBuilder.dispatch_of_data (b := mid type data) hdata]
        simp [mid, hpop data hdata]
  | cons l ls ih =>
      obtain ⟨event, b', hline, hrest⟩ := interpret_cons_ok hok
      obtain ⟨hlen, ⟨hf, rfl, rfl, rfl⟩ | ⟨hf, hdata, rfl, rfl⟩ | ⟨v, hf, hle, rfl, rfl⟩ |
        ⟨v, hf, hle, rfl, rfl⟩ | ⟨hf, rfl, rfl⟩⟩ := mid_line_cases hline
      · have hs := line_mid type (hidden ++ "") hlen
        rw [hf, EventBuilder.apply,
          EventBuilder.dispatch_of_data (b := mid type (hidden ++ "")) (hne _)] at hs
        rw [firstAlone_extra hline hs, framesOf_skip hline]
        rfl
      · have hs := line_mid type (hidden ++ data) hlen
        rw [hf, EventBuilder.apply,
          EventBuilder.dispatch_of_data (b := mid type (hidden ++ data)) (hne _)] at hs
        rw [firstAlone_dispatch hline hs, framesOf, hline]
        simp [mid, hpop data hdata]
      · have hs := line_mid type (hidden ++ data) hlen
        rw [hf, EventBuilder.apply] at hs
        split at hs
        · rw [firstAlone_fail hline hs, framesOf_skip hline]
        · rw [firstAlone_skip hline hs, framesOf_skip hline]
          exact ih hrest
      · have hs := line_mid type (hidden ++ data) hlen
        rw [hf, EventBuilder.apply] at hs
        split at hs
        · rw [firstAlone_fail hline hs, framesOf_skip hline]
        · rw [firstAlone_skip hline hs, framesOf_skip hline]
          have := ih hrest
          simpa [mid, String.append_assoc] using this
      · have hs := line_mid type (hidden ++ data) hlen
        rw [hf, EventBuilder.apply] at hs
        rw [firstAlone_skip hline hs, framesOf_skip hline]
        exact ih hrest

/-! ## Lines behind a byte order mark -/

theorem bytes_bom : bytes (String.singleton '\uFEFF') = bom := by decide

/-- A text that starts with U+FEFF is an ignored line. -/
theorem ofText_bom (t : String) : Field.ofText (String.singleton '\uFEFF' ++ t) = .ignored := by
  have hne : String.singleton '\uFEFF' ++ t ≠ "" := by
    intro h
    simpa using congrArg String.toList h
  have hstart : startsWith (String.singleton '\uFEFF' ++ t) ':' = false := by
    simp [startsWith]
  have hfield : ∀ name : String, name.toList.head? ≠ some '\uFEFF' →
      (EventBuilder.fieldOf (String.singleton '\uFEFF' ++ t)).1 ≠ name := by
    intro name hname h
    apply hname
    rw [← h, EventBuilder.fieldOf]
    cases hsplit : splitOnce (String.singleton '\uFEFF' ++ t) ':' with
    | none => simp
    | some p =>
        simp only [splitOnce, Option.map_eq_some_iff] at hsplit
        obtain ⟨q, hq, rfl⟩ := hsplit
        simp only [String.toList_append, String.toList_singleton, List.singleton_append,
          splitOnceList, Char.reduceEq, ↓reduceIte, Option.map_eq_some_iff] at hq
        obtain ⟨r, -, rfl⟩ := hq
        simp
  rw [Field.ofText, if_neg hne, if_neg (by rw [hstart]; decide)]
  dsimp only
  rw [if_neg (hfield "event" (by decide)), if_neg (hfield "data" (by decide))]

theorem ofBytes_bom (hidden : List UInt8) : Field.ofBytes (bom ++ hidden) =
    if Field.ofBytes hidden = .malformed then .malformed else .ignored := by
  unfold Field.ofBytes
  rw [← bytes_bom, fromUtf8_singleton_append]
  cases fromUtf8 hidden with
  | none => rfl
  | some t =>
      dsimp only [Option.map_some]
      rw [ofText_bom, if_neg (Field.ofText_ne_malformed t)]

/-- Without a byte order mark a line means the same at the stream's start. -/
theorem line_new_of_unmarked {text : List UInt8} (h : EventBuilder.new.unmarked text = text) :
    text.length ≤ maxSseLineBytes → EventBuilder.new.line text = EventBuilder.idle.line text := by
  intro hlen
  rw [EventBuilder.line_eq_apply, EventBuilder.line_eq_apply, if_neg (by omega),
    if_neg (by omega), h]
  rfl

/-- At the stream's start a byte order mark is dropped. -/
theorem line_new_bom {hidden : List UInt8} (h : (bom ++ hidden).length ≤ maxSseLineBytes) :
    EventBuilder.new.line (bom ++ hidden) = EventBuilder.idle.apply (Field.ofBytes hidden) := by
  rw [EventBuilder.line_eq_apply, if_neg (by omega)]
  rfl

/-! ## All frames -/

/-- A frame decoded by itself gives its event. -/
def Alone (frame : SseEventV1 × List Line) : Prop :=
  interpret .new (frame.2.map Line.text) = .emit [frame.1] ()

/-- The first frame after a dispatch decodes alone exactly when its first line
hides nothing of consequence. -/
theorem firstAlone_new_idle {l : Line} {ls : List Line}
    (hok : (interpret .idle ((l :: ls).map Line.text)).result = .ok ()) :
    FirstAlone .new .idle (l :: ls) ↔
      ∀ hidden, l.text = bom ++ hidden → HiddenHarmless hidden (ls.map Line.text) := by
  obtain ⟨event, b', hline, hrest⟩ := interpret_cons_ok hok
  have hlen := (mid_line_cases hline).1
  rcases unmarked_cases l.text with hplain | ⟨hidden, hbom, hdrop⟩
  · have hnew : EventBuilder.new.line l.text = (.ok event, b') := by
      rw [line_new_of_unmarked hplain hlen, hline]
    have hnone : ∀ hidden, l.text ≠ bom ++ hidden := by
      intro hidden hbom
      have hpref := List.isPrefixOf?_eq_some_iff_append_eq.mpr hbom.symm
      have hlength := congrArg List.length hplain
      rw [EventBuilder.unmarked, EventBuilder.new, if_pos rfl, hpref, Option.getD_some, hbom,
        List.length_append] at hlength
      have : bom.length = 3 := by decide
      omega
    simp only [hnone, false_implies, implies_true, iff_true]
    cases event with
    | none => exact (firstAlone_skip hline hnew).mpr (firstAlone_refl b' ls)
    | some event => exact (firstAlone_dispatch hline hnew).mpr rfl
  · rw [hbom] at hlen
    have hone : (∀ h, l.text = bom ++ h → HiddenHarmless h (ls.map Line.text)) ↔
        HiddenHarmless hidden (ls.map Line.text) := by
      constructor
      · exact fun h => h hidden hbom
      · intro h hidden' hbom'
        rw [hbom, List.append_cancel_left_eq] at hbom'
        rwa [← hbom']
    rw [hone]
    have hvisible : Field.ofBytes hidden ≠ .malformed := by
      intro hm
      rw [hbom, show EventBuilder.idle = mid "" "" from rfl, line_mid _ _ hlen, ofBytes_bom, hm,
        if_pos rfl, EventBuilder.apply] at hline
      simp at hline
    have hskip : EventBuilder.idle.line l.text = (.ok none, mid "" "") := by
      rw [hbom, show EventBuilder.idle = mid "" "" from rfl, line_mid _ _ hlen, ofBytes_bom,
        if_neg hvisible, EventBuilder.apply]
    obtain ⟨-, rfl⟩ := Prod.mk.inj (hline.symm.trans hskip)
    have hnew := line_new_bom hlen
    rw [← hbom] at hnew
    rw [List.length_append] at hlen
    have hmax : maxSseLineBytes = maxSseEventBytes := rfl
    unfold HiddenHarmless
    cases hfield : Field.ofBytes hidden with
    | malformed => exact absurd hfield hvisible
    | blank =>
        rw [hfield] at hnew
        simpa using (firstAlone_skip hskip hnew).mpr (firstAlone_refl _ ls)
    | ignored =>
        rw [hfield] at hnew
        simpa using (firstAlone_skip hskip hnew).mpr (firstAlone_refl _ ls)
    | event value =>
        have hsize := ofBytes_value_size (.inl hfield)
        have hempty : EventBuilder.idle.data.utf8ByteSize = 0 := rfl
        rw [hfield, EventBuilder.apply, if_neg (by omega)] at hnew
        rw [firstAlone_skip hskip hnew]
        by_cases hvalue : value = ""
        · subst hvalue
          exact ⟨fun _ => .inl rfl, fun _ => firstAlone_refl (mid "" "") ls⟩
        · exact (firstAlone_type hvalue hrest).trans (by simp [hvalue])
    | data value =>
        have hsize := ofBytes_value_size (.inr hfield)
        have hempty : EventBuilder.idle.data.utf8ByteSize = 0 := rfl
        have hnotype : EventBuilder.idle.eventType.utf8ByteSize = 0 := rfl
        rw [hfield, EventBuilder.apply, if_neg (by omega)] at hnew
        rw [firstAlone_skip hskip hnew]
        have hdata := firstAlone_data (append_newline_ne_empty "" value) hrest
        rw [String.append_empty] at hdata
        exact hdata.trans ((framesOf_eq_nil_iff hrest).trans (by simp))

theorem marksHarmless_true (pending : Bool) (text : List UInt8) (texts : List (List UInt8)) :
    MarksHarmless true pending (text :: texts) ↔
      (∀ hidden, text = bom ++ hidden → HiddenHarmless hidden texts) ∧
        MarksHarmless false pending (text :: texts) := by
  simp [MarksHarmless]

theorem framesOf_tail {b b' : EventBuilder} {l : Line} (h : b.line l.text = (.ok none, b'))
    (ls : List Line) : (framesOf b [] (l :: ls)).tail = (framesOf b' [] ls).tail := by
  rw [framesOf, h]
  dsimp only
  rw [framesOf_begun]
  cases framesOf b' [] ls <;> rfl

theorem forall_frames_iff (frames : List (SseEventV1 × List Line)) :
    (∀ frame ∈ frames, Alone frame) ↔
      (∀ frame ∈ frames.head?, Alone frame) ∧ ∀ frame ∈ frames.tail, Alone frame := by
  cases frames <;> simp

/-- The frames after the current one decode alone exactly when the lines that
open them hide nothing of consequence. -/
theorem tail_alone_iff {type data : String} {ls : List Line}
    (hok : (interpret (mid type data) (ls.map Line.text)).result = .ok ()) :
    (∀ frame ∈ (framesOf (mid type data) [] ls).tail, Alone frame) ↔
      MarksHarmless false (decide (data ≠ "")) (ls.map Line.text) := by
  induction ls generalizing type data with
  | nil =>
      rw [framesOf]
      cases (mid type data).dispatch.1 <;> simp [MarksHarmless]
  | cons l ls ih =>
      obtain ⟨event, b', hline, hrest⟩ := interpret_cons_ok hok
      obtain ⟨-, ⟨hf, rfl, rfl, rfl⟩ | ⟨hf, hdata, rfl, rfl⟩ | ⟨v, hf, -, rfl, rfl⟩ |
        ⟨v, hf, -, rfl, rfl⟩ | ⟨hf, rfl, rfl⟩⟩ := mid_line_cases hline
      · rw [framesOf_tail hline, ih hrest]
        simp [MarksHarmless, hf]
      · -- A frame ends here: the next line opens one, and its frame comes with the rest.
        rw [framesOf, hline]
        have hopens : MarksHarmless false (decide (data ≠ "")) ((l :: ls).map Line.text) ↔
            MarksHarmless true false (ls.map Line.text) := by
          simp [MarksHarmless, hf, hdata]
        rw [hopens, List.tail_cons, forall_frames_iff, ih hrest]
        cases ls with
        | nil => simp [framesOf, EventBuilder.dispatch, mid, MarksHarmless]
        | cons m ls =>
            rw [List.map_cons, marksHarmless_true]
            exact and_congr (firstAlone_new_idle hrest) Iff.rfl
      · rw [framesOf_tail hline, ih hrest]
        simp [MarksHarmless, hf]
      · rw [framesOf_tail hline, ih hrest]
        simp [MarksHarmless, hf]
      · rw [framesOf_tail hline, ih hrest]
        simp [MarksHarmless, hf]

/-- The first line of a stream is the first line past its start, unmarked. -/
theorem line_new_eq {text : List UInt8} {event : Option SseEventV1} {b' : EventBuilder}
    (h : EventBuilder.new.line text = (.ok event, b')) :
    (mid "" "").line (EventBuilder.new.unmarked text) = (.ok event, b') := by
  have hlen : text.length ≤ maxSseLineBytes := by
    by_contra hlong
    rw [EventBuilder.line_too_long (by omega)] at h
    simp at h
  rw [EventBuilder.line_eq_apply, if_neg (by omega)] at h
  rw [line_mid, ← h]
  · rfl
  · rcases unmarked_cases text with hplain | ⟨hidden, hbom, hdrop⟩
    · rwa [hplain]
    · rw [hdrop]
      have := congrArg List.length hbom
      rw [List.length_append] at this
      omega

/-- An accepted body is accepted line by line. -/
theorem interpret_of_decode {body : List UInt8} {events : List SseEventV1}
    (h : decodeSseV1 body = .ok events) :
    (interpret .new ((lines body).map Line.text)).result = .ok () := by
  rw [decodeSseV1_eq, SseDecoderV1.run_eq_runAll, List.flatten_singleton, bounded] at h
  rw [← runAll_mapItems .new 0]
  split at h
  · simp at h
  · cases hresult : (runAll (EventBuilder.new, 0) (lines body)).result with
    | error e => simp [hresult, Except.map] at h
    | ok u => simp [Trace.mapItems, hresult]

/-- The frames cut from an accepted body decode alone to their events exactly
when no frame after the first hides a line of consequence behind a byte order
mark. -/
theorem sse_frames_self_contained_iff (body : List UInt8) (events : List SseEventV1)
    (h : decodeSseV1 body = .ok events) : SelfContained body ↔ FramesUnmarked body := by
  have hok := interpret_of_decode h
  rw [selfContained_iff, FramesUnmarked]
  change (∀ frame ∈ framesOf .new [] (lines body), Alone frame) ↔ _
  cases hls : lines body with
  | nil => simp [framesOf, EventBuilder.dispatch, EventBuilder.new]
  | cons l ls =>
      rw [hls] at hok
      obtain ⟨event, b', hline, hrest⟩ := interpret_cons_ok hok
      have hmid := line_new_eq hline
      have hok' : (interpret (mid "" "")
          ((⟨EventBuilder.new.unmarked l.text, l.ending⟩ :: ls : List Line).map Line.text)).result =
            .ok () := by
        rw [List.map_cons, interpret_ok hmid]
        exact hrest
      have htail := tail_alone_iff hok'
      have hnone : event = none := by
        obtain ⟨-, ⟨-, -, h, -⟩ | ⟨-, h, -⟩ | ⟨_, -, -, h, -⟩ | ⟨_, -, -, h, -⟩ | ⟨-, h, -⟩⟩ :=
          mid_line_cases hmid
        · exact h
        · exact absurd rfl h
        · exact h
        · exact h
        · exact h
      subst hnone
      rw [framesOf_tail hmid] at htail
      rw [forall_frames_iff, framesOf_tail hline, htail]
      exact and_iff_right (firstAlone_refl .new (l :: ls))

/-- A frame whose hidden type is replaced before its event is unharmed. -/
theorem sse_frames_self_contained_replaced_type :
    decodeSseV1 (bytes "data: a\n\n\uFEFFevent: x\nevent: y\ndata: b\n\n") =
        .ok [⟨"message", "a"⟩, ⟨"y", "b"⟩] ∧
      SelfContained (bytes "data: a\n\n\uFEFFevent: x\nevent: y\ndata: b\n\n") := by
  have hdecode : decodeSseV1 (bytes "data: a\n\n\uFEFFevent: x\nevent: y\ndata: b\n\n") =
      .ok [⟨"message", "a"⟩, ⟨"y", "b"⟩] := by
    decide +kernel
  refine ⟨hdecode, (sse_frames_self_contained_iff _ _ hdecode).mpr ?_⟩
  have hlines : (lines (bytes "data: a\n\n\uFEFFevent: x\nevent: y\ndata: b\n\n")).map Line.text =
      [bytes "data: a", [], bom ++ bytes "event: x", bytes "event: y", bytes "data: b", []] := by
    decide
  have hfields : [bytes "data: a", [], bom ++ bytes "event: x", bytes "event: y",
      bytes "data: b", bytes "event: x"].map Field.ofBytes =
      [.data "a", .blank, .ignored, .event "y", .data "b", .event "x"] := by
    decide
  have hfirst : EventBuilder.new.unmarked (bytes "data: a") = bytes "data: a" := by decide
  simp only [List.map_cons, List.map_nil, List.cons.injEq, and_true] at hfields
  obtain ⟨h1, h2, h3, h4, h5, h6⟩ := hfields
  simp [FramesUnmarked, hlines, hfirst, MarksHarmless, HiddenHarmless, Superseded, h1, h2, h3, h4,
    h5, h6]

/-- A `data` line behind a mark is part of no event of the stream, and of the
event of its frame alone. -/
theorem sse_frame_data_behind_mark :
    decodeSseV1 (bytes "data: a\n\n\uFEFFdata: b\ndata: c\n\n") =
        .ok [⟨"message", "a"⟩, ⟨"message", "c"⟩] ∧
      ¬SelfContained (bytes "data: a\n\n\uFEFFdata: b\ndata: c\n\n") := by
  refine ⟨by decide +kernel, ?_⟩
  intro h
  have hframe := h (⟨"message", "c"⟩, bytes "\uFEFFdata: b\ndata: c\n\n") (by decide +kernel)
  revert hframe
  decide +kernel

end TokenStation.Sse
