import TokenStation.LocalWrite.Tracker

/-!
# What the tracker has read

The bytes taken since the last flushed request are an unfinished header block,
a header block with a part of its body, a whole request, or bytes that no request
goes on from. The tracker's state says which, and every chunk keeps it so.
-/

namespace TokenStation.LocalWrite

/-- A header block, cut at its first empty line. -/
structure HeaderBlock (block : List UInt8) : Prop where
  ends : headerEnd <:+ block
  first : ∀ front, front <+: block → headerEnd <:+ front → front = block
  bounded : block.length ≤ maxHeaderBytes

/-- One complete request: a header block and as many bytes as it declares. -/
def IsRequest (bytes : List UInt8) (event : Event) : Prop :=
  ∃ block body, bytes = block ++ body ∧ HeaderBlock block ∧ parseHeader block = some event
    ∧ body.length = event.2

/-- Bytes in which no header block has ended yet. -/
def Unfinished (bytes : List UInt8) : Prop :=
  bytes.length ≤ maxHeaderBytes ∧ ∀ front, front <+: bytes → ¬headerEnd <:+ front

/-- Bytes that a request does not start with: too long a header block, one that
is not accepted, or more bytes than the body has. -/
inductive Refused (bytes : List UInt8) : Prop
  | overlong (hlong : maxHeaderBytes < bytes.length)
      (hopen : ∀ front, front <+: bytes → front.length ≤ maxHeaderBytes → ¬headerEnd <:+ front)
  | header {block : List UInt8} (hblock : HeaderBlock block) (hlead : block <+: bytes)
      (hparse : parseHeader block = none)
  | overrun {block : List UInt8} {event : Event} (hblock : HeaderBlock block)
      (hlead : block <+: bytes) (hparse : parseHeader block = some event)
      (hlong : block.length + event.2 < bytes.length)

/-- What a tracker that took `bytes` holds. -/
inductive Progress (bytes : List UInt8) : WriteTracker → Prop
  | header (h : Unfinished bytes) : Progress bytes { header := bytes }
  | body {block body : List UInt8} {id : String} {length : Nat} (hbytes : bytes = block ++ body)
      (hblock : HeaderBlock block) (hparse : parseHeader block = some (id, length))
      (hlt : body.length < length) : Progress bytes { body := some (id, length, body.length) }
  | complete {event : Event} (h : IsRequest bytes event) : Progress bytes { complete := some event }
  | refused (h : Refused bytes) : Progress bytes { disabled := true }

theorem unfinished_nil : Unfinished [] := by
  refine ⟨Nat.zero_le _, fun front hfront hends => ?_⟩
  rw [List.prefix_nil.mp hfront] at hends
  exact absurd hends (by decide)

/-- A text has one header block in front. -/
theorem HeaderBlock.unique {block other bytes : List UInt8} (h : HeaderBlock block)
    (h' : HeaderBlock other) (hlead : block <+: bytes) (hlead' : other <+: bytes) :
    block = other := by
  rcases List.prefix_or_prefix_of_prefix hlead hlead' with hle | hle
  · exact h'.first _ hle h.ends
  · exact (h.first _ hle h'.ends).symm

theorem Unfinished.no_block {bytes block : List UInt8} (h : Unfinished bytes)
    (hblock : HeaderBlock block) : ¬block <+: bytes :=
  fun hlead => h.2 _ hlead hblock.ends

theorem Refused.append {bytes : List UInt8} (h : Refused bytes) (more : List UInt8) :
    Refused (bytes ++ more) := by
  cases h with
  | overlong hlong hopen =>
      refine .overlong (by rw [List.length_append]; omega) fun front hfront hle => ?_
      refine hopen front ?_ hle
      exact List.prefix_of_prefix_length_le hfront (List.prefix_append _ _) (by omega)
  | header hblock hlead hparse => exact .header hblock (hlead.trans (List.prefix_append _ _)) hparse
  | overrun hblock hlead hparse hlong =>
      refine .overrun hblock (hlead.trans (List.prefix_append _ _)) hparse ?_
      rw [List.length_append]
      omega

/-- Refused bytes start no request, whatever follows. -/
theorem Refused.not_request {bytes more : List UInt8} {event : Event} (h : Refused bytes) :
    ¬IsRequest (bytes ++ more) event := by
  rintro ⟨block, body, heq, hblock, hparse, hlength⟩
  have hlead : block <+: bytes ++ more := heq ▸ List.prefix_append _ _
  have hsize := congrArg List.length heq
  rw [List.length_append, List.length_append] at hsize
  cases h.append more with
  | overlong hlong hopen => exact hopen _ hlead hblock.bounded hblock.ends
  | header hother hlead' hnone =>
      rw [hblock.unique hother hlead hlead', hnone] at hparse
      cases hparse
  | overrun hother hlead' hsome hover =>
      rw [hblock.unique hother hlead hlead', hsome] at hparse
      cases hparse
      rw [← hblock.unique hother hlead hlead', List.length_append] at hover
      omega

/-- No request is the start of another. -/
theorem IsRequest.eq_of_prefix {bytes more : List UInt8} {event other : Event}
    (h : IsRequest bytes event) (h' : IsRequest (bytes ++ more) other) :
    more = [] ∧ event = other := by
  obtain ⟨block, body, rfl, hblock, hparse, hlength⟩ := h
  obtain ⟨block', body', heq, hblock', hparse', hlength'⟩ := h'
  have hlead : block <+: block ++ body ++ more :=
    (List.prefix_append block body).trans (List.prefix_append _ _)
  obtain rfl := hblock.unique hblock' hlead (by rw [heq]; exact List.prefix_append _ _)
  rw [hparse] at hparse'
  cases hparse'
  rw [List.append_assoc, List.append_cancel_left_eq] at heq
  have hsize := congrArg List.length heq
  rw [List.length_append] at hsize
  exact ⟨List.eq_nil_of_length_eq_zero (by omega), rfl⟩

theorem withId_length {fields next : HeaderFields} {value : List Char}
    (h : fields.withId value = some next) : next.length = fields.length := by
  unfold HeaderFields.withId at h
  split at h
  · cases h
  · cases h
    rfl

theorem withLength_length {fields next : HeaderFields} {value : List Char}
    (h : fields.withLength value = some next) : ∀ n ∈ next.length, n < 2 ^ 64 := by
  unfold HeaderFields.withLength at h
  split at h
  · cases h
  · split at h
    · rename_i hlt
      cases h
      intro n hn
      rwa [← Option.some.inj hn]
    · cases h

/-- A header line keeps the declared length within 64 bits. -/
theorem readLine_length {fields next : HeaderFields} {line : List Char}
    (h : readLine fields line = some next) (hfields : ∀ n ∈ fields.length, n < 2 ^ 64) :
    ∀ n ∈ next.length, n < 2 ^ 64 := by
  unfold readLine at h
  obtain ⟨⟨name, value⟩, -, h⟩ := Option.bind_eq_some_iff.mp h
  obtain ⟨value, -, h⟩ := Option.bind_eq_some_iff.mp h
  split at h
  · cases h
  · obtain ⟨named, hnamed, h⟩ := Option.bind_eq_some_iff.mp h
    have hsame : named.length = fields.length := by
      split at hnamed
      · exact withId_length hnamed
      · rw [← Option.some.inj hnamed]
    split at h
    · exact withLength_length h
    · rwa [← Option.some.inj h, hsame]

theorem foldlM_readLine_length {lines : List (List Char)} {fields next : HeaderFields}
    (h : lines.foldlM readLine fields = some next) (hfields : ∀ n ∈ fields.length, n < 2 ^ 64) :
    ∀ n ∈ next.length, n < 2 ^ 64 := by
  induction lines generalizing fields with
  | nil =>
      cases h
      exact hfields
  | cons line lines ih =>
      rw [List.foldlM_cons] at h
      obtain ⟨middle, hline, h⟩ := Option.bind_eq_some_iff.mp h
      exact ih h (readLine_length hline hfields)

/-- A length a header block declares fits 64 bits. -/
theorem parseHeader_length {block : List UInt8} {event : Event}
    (h : parseHeader block = some event) : event.2 < 2 ^ 64 := by
  unfold parseHeader at h
  obtain ⟨text, -, h⟩ := Option.bind_eq_some_iff.mp h
  split at h
  · cases h
  · split at h
    · cases h
    · obtain ⟨fields, hfields, h⟩ := Option.bind_eq_some_iff.mp h
      obtain ⟨id, -, h⟩ := Option.bind_eq_some_iff.mp h
      obtain ⟨length, hlength, h⟩ := Option.bind_eq_some_iff.mp h
      cases h
      exact foldlM_readLine_length hfields (by simp) length hlength

namespace WriteTracker

theorem acceptHeader_body {t : WriteTracker} (h : t.body.isSome) (data : List UInt8) :
    t.acceptHeader data = some (t, data) := by
  cases data with
  | nil => rfl
  | cons byte data => rw [acceptHeader, if_pos h]

/-- The loop over a chunk behind an unfinished header block. -/
theorem acceptHeader_spec {bytes : List UInt8} (data : List UInt8) (h : Unfinished bytes) :
    (acceptHeader { header := bytes } data = some ({ header := bytes ++ data }, [])
        ∧ Unfinished (bytes ++ data))
      ∨ (acceptHeader { header := bytes } data = none ∧ Refused (bytes ++ data))
      ∨ ∃ block rest id length, bytes ++ data = block ++ rest ∧ HeaderBlock block
        ∧ parseHeader block = some (id, length)
        ∧ acceptHeader { header := bytes } data = some ({ body := some (id, length, 0) }, rest) := by
  induction data generalizing bytes with
  | nil => exact .inl ⟨by simp [acceptHeader], by simpa using h⟩
  | cons byte data ih =>
      have hcons : bytes ++ byte :: data = (bytes ++ [byte]) ++ data := by simp
      rw [acceptHeader, if_neg (by simp)]
      by_cases hfull : bytes.length = maxHeaderBytes
      · rw [if_pos hfull]
        refine .inr (.inl ⟨rfl, .overlong (by simp [hfull]) fun front hfront hle => ?_⟩)
        exact h.2 front
          (List.prefix_of_prefix_length_le hfront (List.prefix_append _ _) (by omega))
      · have hle : (bytes ++ [byte]).length ≤ maxHeaderBytes := by
          have := h.1
          rw [List.length_append, List.length_singleton]
          omega
        have hshorter : ∀ front, front <+: bytes ++ [byte] → headerEnd <:+ front →
            front = bytes ++ [byte] := by
          intro front hfront hends
          rcases List.prefix_concat_iff.mp hfront with heq | hlead
          · exact heq
          · exact absurd hends (h.2 front hlead)
        rw [if_neg hfull]
        by_cases hends : headerEnd <:+ bytes ++ [byte]
        · have hblock : HeaderBlock (bytes ++ [byte]) := ⟨hends, hshorter, hle⟩
          simp only [List.isSuffixOf_iff_suffix, hends, if_true]
          cases hparse : parseHeader (bytes ++ [byte]) with
          | none =>
              refine .inr (.inl ⟨rfl, .header hblock ?_ hparse⟩)
              exact hcons ▸ List.prefix_append _ _
          | some event =>
              obtain ⟨id, length⟩ := event
              refine .inr (.inr ⟨_, data, id, length, hcons, hblock, hparse, ?_⟩)
              exact acceptHeader_body rfl data
        · have hopen : Unfinished (bytes ++ [byte]) :=
            ⟨hle, fun front hfront hfrontEnds => hends (hshorter front hfront hfrontEnds ▸ hfrontEnds)⟩
          simp only [List.isSuffixOf_iff_suffix, hends, if_false]
          rw [hcons]
          exact ih hopen

/-- The count of body bytes behind a header block. -/
theorem acceptBody_spec {block body : List UInt8} {id : String} {length : Nat}
    (data : List UInt8) (hblock : HeaderBlock block) (hparse : parseHeader block = some (id, length))
    (hle : body.length ≤ length) :
    ∃ t report, acceptBody { body := some (id, length, body.length) } data = some (t, report)
      ∧ Progress (block ++ (body ++ data)) t ∧ report = t.complete := by
  have hlength := parseHeader_length hparse
  have hover (h : length < body.length + data.length) : Refused (block ++ (body ++ data)) := by
    refine .overrun hblock (List.prefix_append _ _) hparse ?_
    rw [List.length_append, List.length_append]
    exact Nat.add_lt_add_left h _
  simp only at hlength
  simp only [acceptBody]
  by_cases hhuge : 2 ^ 64 ≤ data.length
  · rw [if_pos hhuge]
    exact ⟨_, _, rfl, .refused (hover (by omega)), rfl⟩
  · rw [if_neg hhuge, if_neg (by omega)]
    by_cases hlong : length - body.length < data.length
    · rw [if_pos hlong]
      exact ⟨_, _, rfl, .refused (hover (by omega)), rfl⟩
    · rw [if_neg hlong, if_neg (by omega)]
      by_cases hwhole : body.length + data.length = length
      · rw [if_pos hwhole]
        refine ⟨_, _, rfl, .complete ⟨block, body ++ data, rfl, hblock, hparse, ?_⟩, rfl⟩
        rw [List.length_append]
        exact hwhole
      · rw [if_neg hwhole]
        have hmore := @Progress.body _ _ (body ++ data) _ _ rfl hblock hparse
          (by rw [List.length_append]; omega)
        rw [List.length_append] at hmore
        exact ⟨_, _, rfl, hmore, rfl⟩

end WriteTracker

/-- What a chunk reports: the request it completes. A whole request that is not
flushed yet is kept or given up. -/
def Reporting (t next : WriteTracker) (report : Option Event) : Prop :=
  (t.complete = none ∧ report = next.complete)
    ∨ (report = none ∧ (next = t ∨ next = { disabled := true }))

/-- A chunk keeps what the tracker holds, overflows nothing and reports the
request it completes. -/
theorem Progress.accepted {bytes : List UInt8} {t : WriteTracker} (h : Progress bytes t)
    (chunk : List UInt8) :
    ∃ next report, t.accepted chunk = some (next, report) ∧ Progress (bytes ++ chunk) next
      ∧ Reporting t next report := by
  cases chunk with
  | nil =>
      refine ⟨t, none, by simp [WriteTracker.accepted], by simpa using h, ?_⟩
      exact .inr ⟨rfl, .inl rfl⟩
  | cons byte data =>
      unfold WriteTracker.accepted
      cases h with
      | refused h => exact ⟨_, _, rfl, .refused (h.append _), .inr ⟨rfl, .inl rfl⟩⟩
      | complete h =>
          obtain ⟨block, body, rfl, hblock, hparse, hlength⟩ := h
          refine ⟨_, _, rfl, .refused (.overrun hblock ?_ hparse ?_), .inr ⟨rfl, .inr rfl⟩⟩
          · exact List.prefix_append_of_prefix (List.prefix_append _ _)
          · simp only [List.length_append, List.length_cons]
            omega
      | body hbytes hblock hparse hlt =>
          obtain ⟨next, report, hnext, hprogress, hreport⟩ :=
            WriteTracker.acceptBody_spec (byte :: data) hblock hparse hlt.le
          rw [hbytes, List.append_assoc]
          refine ⟨next, report, ?_, hprogress, .inl ⟨rfl, hreport⟩⟩
          simpa [WriteTracker.acceptHeader_body] using hnext
      | header h =>
          rcases WriteTracker.acceptHeader_spec (byte :: data) h with
            ⟨haccept, hopen⟩ | ⟨haccept, hrefused⟩ | ⟨block, rest, id, length, heq, hblock, hparse, haccept⟩
          · refine ⟨_, _, ?_, .header hopen, .inl ⟨rfl, rfl⟩⟩
            simp [haccept, WriteTracker.acceptBody]
          · refine ⟨_, _, ?_, .refused hrefused, .inl ⟨rfl, rfl⟩⟩
            simp [haccept]
            rfl
          · obtain ⟨next, report, hnext, hprogress, hreport⟩ :=
              @WriteTracker.acceptBody_spec _ [] _ _ rest hblock hparse (Nat.zero_le _)
            rw [heq]
            refine ⟨next, report, ?_, hprogress, .inl ⟨rfl, hreport⟩⟩
            simpa [haccept] using hnext

end TokenStation.LocalWrite
