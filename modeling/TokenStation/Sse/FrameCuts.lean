import TokenStation.Sse.Fields

/-!
# Cutting a stream into frames

A passthrough host cuts the upstream bytes at the decoder's position after
each event and forwards the slices. Every slice consists of whole lines and
the builder starts each of them with nothing pending, so only the rule that is
tied to the start of a stream can make a slice mean something else alone: a
byte order mark, which the decoder keeps in the middle of a stream and drops
at the beginning of a slice.
-/

namespace TokenStation.Sse

open Library.Text Library.ChunkedReading

/-- The event and the slice of the body up to each noted position. -/
def cutFrames (body : List UInt8) (start : Nat) :
    List (SseEventV1 × Nat) → List (SseEventV1 × List UInt8)
  | [] => []
  | (event, end_) :: rest =>
      (event, (body.drop start).take (end_ - start)) :: cutFrames body end_ rest

/-- Every frame cut at the decoder's positions decodes alone to its event. -/
def SelfContained (body : List UInt8) : Prop :=
  ∀ frame ∈ cutFrames body 0 (SseDecoderV1.new.run [body]).items,
    decodeSseV1 frame.2 = .ok [frame.1]

/-! ## Consecutive lines -/

/-- Lines as a body splits into them: unbroken texts, each terminated before
the next, and a last line that is terminated or not empty. -/
def Delimited : List Line → Prop
  | [] => True
  | [l] => Unbroken l.text ∧ (EndsBefore l.ending [] ∨ (l.ending = [] ∧ l.text ≠ []))
  | l :: m :: ls => Unbroken l.text ∧ EndsBefore l.ending (bytesOf (m :: ls)) ∧ Delimited (m :: ls)

theorem lines_bytesOf {ls : List Line} (h : Delimited ls) : lines (bytesOf ls) = ls := by
  induction ls with
  | nil => rfl
  | cons l ls ih =>
      cases ls with
      | nil =>
          obtain ⟨htext, hends | ⟨hnil, hne⟩⟩ := h
          · rw [bytesOf_cons, bytesOf_nil, lines_cons htext hends]
            rfl
          · rw [bytesOf_cons, bytesOf_nil, hnil, List.append_nil, List.append_nil,
              lines_last htext hne]
            exact congrArg (· :: []) (Line.ext rfl hnil.symm)
      | cons m ls =>
          obtain ⟨htext, hends, hrest⟩ := h
          rw [bytesOf_cons, lines_cons htext hends, ih hrest]

theorem Delimited.tail {l : Line} {ls : List Line} (h : Delimited (l :: ls)) : Delimited ls := by
  cases ls with
  | nil => trivial
  | cons m ls => exact h.2.2

theorem EndsBefore.nil {ending rest : List UInt8} (h : EndsBefore ending rest) :
    EndsBefore ending [] := by
  rcases h with h | h | ⟨h, -⟩
  · exact .inl h
  · exact .inr (.inl h)
  · exact .inr (.inr ⟨h, by simp⟩)

/-- What follows a terminated line matters only through its first byte. -/
theorem EndsBefore.of_head {ending rest rest' : List UInt8} (h : EndsBefore ending rest)
    (hhead : rest'.head? = some lf → rest.head? = some lf) : EndsBefore ending rest' := by
  rcases h with h | h | ⟨h, hne⟩
  · exact .inl h
  · exact .inr (.inl h)
  · exact .inr (.inr ⟨h, fun h' => hne (hhead h')⟩)

theorem Delimited.left {ls ms : List Line} (h : Delimited (ls ++ ms)) : Delimited ls := by
  induction ls with
  | nil => trivial
  | cons l ls ih =>
      cases ls with
      | nil =>
          cases ms with
          | nil => simpa using h
          | cons m ms => exact ⟨h.1, .inl h.2.1.nil⟩
      | cons k ls =>
          refine ⟨h.1, ?_, ih h.tail⟩
          apply h.2.1.of_head
          intro hhead
          have hne : bytesOf (k :: ls) ≠ [] := by
            intro hnil
            rw [hnil] at hhead
            simp at hhead
          change (bytesOf ((k :: ls) ++ ms)).head? = some lf
          rw [bytesOf_append, List.head?_append_of_ne_nil _ hne]
          exact hhead

theorem Delimited.right {ls ms : List Line} (h : Delimited (ls ++ ms)) : Delimited ms := by
  induction ls with
  | nil => exact h
  | cons l ls ih => exact ih h.tail

/-- Splitting a body loses no byte, and gives delimited lines. -/
theorem lines_spec (body : List UInt8) : bytesOf (lines body) = body ∧ Delimited (lines body) := by
  cases hterm : terminator body with
  | none =>
      rw [lines_of_none hterm]
      split
      · subst_vars
        exact ⟨rfl, trivial⟩
      · exact ⟨by simp, terminator_eq_none_iff.mp hterm, .inr ⟨rfl, by assumption⟩⟩
  | some n =>
      obtain ⟨l, htext, hlen, hends, hbody⟩ := exists_line hterm
      have hunbroken : Unbroken l.text := htext ▸ (terminator_eq_some hterm).1
      have hlines : lines body = l :: lines (body.drop (lineUsed body n)) := by
        conv_lhs => rw [hbody]
        exact lines_cons hunbroken hends
      have hlt := terminator_lt hterm
      have hpos : 0 < lineUsed body n := by
        unfold lineUsed
        split <;> omega
      obtain ⟨hbytes, hdelim⟩ := lines_spec (body.drop (lineUsed body n))
      rw [hlines]
      refine ⟨by rw [bytesOf_cons, hbytes, ← hbody], ?_⟩
      cases hrest : lines (body.drop (lineUsed body n)) with
      | nil => exact ⟨hunbroken, .inl hends.nil⟩
      | cons m ls =>
          rw [hrest] at hbytes hdelim
          exact ⟨hunbroken, hbytes ▸ hends, hdelim⟩
termination_by body.length
decreasing_by simp only [List.length_drop]; omega

/-! ## Frames as groups of lines -/

/-- The builder right after a dispatch. -/
def EventBuilder.idle : EventBuilder := ⟨false, "", ""⟩

/-- The lines of each frame with the event it dispatches, given the lines
already read into the current one. -/
def framesOf (b : EventBuilder) (begun : List Line) : List Line → List (SseEventV1 × List Line)
  | [] => b.dispatch.1.toList.map fun e => (e, begun)
  | l :: ls =>
      match b.line l.text with
      | (.error _, _) => []
      | (.ok none, b) => framesOf b (begun ++ [l]) ls
      | (.ok (some event), b) => (event, begun ++ [l]) :: framesOf b [] ls

/-- Cutting at the positions of a run cuts between the groups of lines. -/
theorem cutFrames_runAll (body : List UInt8) (b : EventBuilder) (start : Nat)
    (begun ls : List Line) (h : body.drop start = bytesOf (begun ++ ls)) :
    cutFrames body start (runAll (b, start + (bytesOf begun).length) ls).items =
      (framesOf b begun ls).map fun f => (f.1, bytesOf f.2) := by
  induction ls generalizing b start begun with
  | nil =>
      simp only [List.append_nil] at h
      rw [runAll_nil, runEnd, framesOf]
      cases b.dispatch.1 with
      | none => rfl
      | some event => simp [Trace.emit, cutFrames, h]
  | cons l ls ih =>
      have hsplit : bytesOf (begun ++ l :: ls) = bytesOf (begun ++ [l]) ++ bytesOf ls := by simp
      have hlen : (bytesOf (begun ++ [l])).length =
          (bytesOf begun).length + (l.text.length + l.ending.length) := by simp
      rw [runAll_cons, stepLine, framesOf]
      dsimp only
      rw [Nat.add_assoc, ← hlen]
      rcases b.line l.text with ⟨e | _ | event, b'⟩
      · rfl
      · exact ih b' start (begun ++ [l]) (by rw [h]; simp)
      · have hdrop : body.drop (start + (bytesOf (begun ++ [l])).length) = bytesOf ([] ++ ls) := by
          rw [← List.drop_drop, h, hsplit, List.drop_left, List.nil_append]
        have htake : (body.drop start).take (start + (bytesOf (begun ++ [l])).length - start) =
            bytesOf (begun ++ [l]) := by
          rw [h, hsplit, Nat.add_sub_cancel_left, List.take_left]
        have hih := ih b' _ [] hdrop
        simp only [bytesOf_nil, List.length_nil, Nat.add_zero] at hih
        simp only [Option.toList_some, List.map_cons, List.map_nil, Trace.emit_bind,
          List.singleton_append, cutFrames, htake, hih]

/-- The lines of a frame are consecutive lines of the input. -/
theorem framesOf_infix {b : EventBuilder} {begun ls : List Line} {frame : SseEventV1 × List Line}
    (h : frame ∈ framesOf b begun ls) : frame.2 <:+: begun ++ ls := by
  induction ls generalizing b begun with
  | nil =>
      obtain ⟨e, -, rfl⟩ := List.mem_map.mp h
      simp
  | cons l ls ih =>
      rw [framesOf] at h
      split at h
      · simp at h
      · simpa using ih h
      · rcases List.mem_cons.mp h with rfl | h
        · exact ⟨[], ls, by simp⟩
        · exact (ih h).trans ⟨begun ++ [l], [], by simp⟩

/-- The frames cut from a body, each decoded alone, as groups of its lines. -/
theorem selfContained_iff (body : List UInt8) :
    SelfContained body ↔ ∀ frame ∈ framesOf .new [] (lines body),
      interpret .new (frame.2.map Line.text) = .emit [frame.1] () := by
  obtain ⟨hbytes, hdelim⟩ := lines_spec body
  have hcut := cutFrames_runAll body .new 0 [] (lines body) (by simp [hbytes])
  simp only [bytesOf_nil, List.length_nil, Nat.add_zero] at hcut
  have hdecode : ∀ frame ∈ framesOf .new [] (lines body),
      (decodeSseV1 (bytesOf frame.2) = .ok [frame.1] ↔
        interpret .new (frame.2.map Line.text) = .emit [frame.1] ()) := by
    intro frame hframe
    obtain ⟨pre, post, hsplit⟩ := framesOf_infix hframe
    have hf : Delimited frame.2 := by
      rw [List.nil_append] at hsplit
      rw [← hsplit] at hdelim
      exact hdelim.left.right
    rw [decodeSseV1_eq, SseDecoderV1.run_eq_runAll, List.flatten_singleton, lines_bytesOf hf,
      bounded_eq_singleton, runAll_mapItems]
  rw [SelfContained, SseDecoderV1.run_eq_runAll, List.flatten_singleton, hcut]
  simp only [List.mem_map, forall_exists_index, and_imp, forall_apply_eq_imp_iff₂]
  exact forall₂_congr hdecode

end TokenStation.Sse
