import TokenStation.Eventstream.Headers
import TokenStation.Library.ChunkedReading
import TokenStation.Library.Crc32

/-!
# Eventstream frames

One frame of the binary eventstream format as the contracts crate decodes it:
a prelude with its own checksum, a block of typed headers, the payload and a
checksum over everything before it. Lengths are `Nat`; the code's `usize` holds
every 32-bit length.
-/

namespace TokenStation.Eventstream

open Library Library.BigEndian Library.ChunkedReading

/-- The largest accepted frame, prelude and trailing checksum included. -/
def maxEventstreamFrameBytes : Nat := 16 * 1024 * 1024

def preludeBytes : Nat := 12

def crcBytes : Nat := 4

/-- The smallest well-formed frame: no headers and no payload. -/
def minEventstreamFrameBytes : Nat := preludeBytes + crcBytes

/-- The largest accepted header block. -/
def maxEventstreamHeadersBytes : Nat := 128 * 1024

/-- One checked message: its headers and its raw payload. -/
structure EventStreamMessageV1 where
  headers : SortedMap String EventStreamHeaderValueV1
  payload : List UInt8
  deriving DecidableEq

/-- The reflected polynomial of IEEE 802.3. -/
def crc32Polynomial : BitVec 32 := 0xEDB88320#32

/-- The checksum of the prelude and of the message. -/
def crc32 (bytes : List UInt8) : BitVec 32 := Crc32.tableChecksum crc32Polynomial bytes

/-- Check the trailing checksum of a complete frame and read its headers. -/
def decodeChecked (frame : List UInt8) (headersLen : Nat) :
    Except EventStreamErrorV1 EventStreamMessageV1 :=
  if frame.length < crcBytes then .error .frameTooShort
  else
    let covered := frame.take (frame.length - crcBytes)
    let trailer := frame.drop (frame.length - crcBytes)
    if crc32 covered ≠ .ofNat 32 (ofBytes trailer) then .error .messageChecksumMismatch
    else
      let body := covered.drop preludeBytes
      if body.length < headersLen then .error .headersExceedFrame
      else
        match parseHeaders (body.take headersLen) with
        | .error e => .error e
        | .ok headers => .ok ⟨headers, body.drop headersLen⟩

/-- Decode the frame at the start of the bytes: nothing when more bytes are
needed, otherwise the message and the frame's length. -/
def decodeFrame (bytes : List UInt8) :
    Except EventStreamErrorV1 (Option (EventStreamMessageV1 × Nat)) :=
  if bytes.length < preludeBytes then .ok none
  else if crc32 (bytes.take 8) ≠ .ofNat 32 (ofBytes ((bytes.drop 8).take 4)) then
    .error .preludeChecksumMismatch
  else
    let frameLen := ofBytes (bytes.take 4)
    if frameLen < minEventstreamFrameBytes then .error .frameTooShort
    else if frameLen > maxEventstreamFrameBytes then .error .frameTooLarge
    else
      let headersLen := ofBytes ((bytes.drop 4).take 4)
      if headersLen > maxEventstreamHeadersBytes then .error .headersTooLarge
      else if headersLen > frameLen - minEventstreamFrameBytes then .error .headersExceedFrame
      else if bytes.length < frameLen then .ok none
      else
        match decodeChecked (bytes.take frameLen) headersLen with
        | .error e => .error e
        | .ok message => .ok (some (message, frameLen))

/-- A returned frame is not empty and lies inside the bytes. -/
theorem decodeFrame_used {bytes : List UInt8} {m : EventStreamMessageV1} {n : Nat}
    (h : decodeFrame bytes = .ok (some (m, n))) :
    minEventstreamFrameBytes ≤ n ∧ n ≤ maxEventstreamFrameBytes ∧ n ≤ bytes.length := by
  unfold decodeFrame at h
  dsimp only at h
  split_ifs at h with h1 h2 h3 h4 h5 h6 h7
  · simp at h
  · simp at h
  · split at h
    · cases h
    · cases h
      omega

/-- Bytes that decide the frame decide it whatever follows them. -/
theorem decodeFrame_stable {bytes : List UInt8} (h : decodeFrame bytes ≠ .ok none)
    (rest : List UInt8) : decodeFrame (bytes ++ rest) = decodeFrame bytes := by
  by_cases hprelude : bytes.length < preludeBytes
  · exact absurd (if_pos hprelude) h
  · have hlen : 12 ≤ bytes.length := Nat.le_of_not_gt hprelude
    have hlong : ¬(bytes ++ rest).length < preludeBytes := by
      rw [List.length_append]
      omega
    have htake : ∀ n ≤ 12, (bytes ++ rest).take n = bytes.take n := fun n hn =>
      List.take_append_of_le_length (by omega)
    have hslice : ∀ k, k + 4 ≤ 12 → ((bytes ++ rest).drop k).take 4 = (bytes.drop k).take 4 := by
      intro k hk
      rw [List.drop_append_of_le_length (by omega), List.take_append_of_le_length]
      rw [List.length_drop]
      omega
    unfold decodeFrame at h ⊢
    rw [if_neg hprelude] at h
    rw [if_neg hprelude, if_neg hlong, htake 8 (by omega), htake 4 (by omega),
      hslice 8 (by omega), hslice 4 (by omega)]
    dsimp only at h ⊢
    split_ifs at h ⊢ with h1 h2 h3 h4 h5 h6
    all_goals try rfl
    · rw [List.length_append] at h6
      omega
    · exact absurd rfl h
    · rw [List.take_append_of_le_length (by omega)]

/-- The incremental deframer. -/
structure AwsEventStreamDeframerV1 where
  buffer : List UInt8
  readPos : Nat
  failure : Option EventStreamErrorV1

namespace AwsEventStreamDeframerV1

def new : AwsEventStreamDeframerV1 := ⟨[], 0, none⟩

/-- Append one chunk; bytes pushed after an error are discarded. -/
def push (d : AwsEventStreamDeframerV1) (chunk : List UInt8) : AwsEventStreamDeframerV1 :=
  if d.failure.isSome then d
  else if d.readPos > 0 then { d with buffer := d.buffer.drop d.readPos ++ chunk, readPos := 0 }
  else { d with buffer := d.buffer ++ chunk }

/-- The next complete message, nothing when more bytes are needed, or the
first error, which is kept. -/
def nextMessage (d : AwsEventStreamDeframerV1) :
    Except EventStreamErrorV1 (Option EventStreamMessageV1) × AwsEventStreamDeframerV1 :=
  match d.failure with
  | some error => (.error error, d)
  | none =>
      match decodeFrame (d.buffer.drop d.readPos) with
      | .ok (some (message, frameLen)) =>
          let d := { d with readPos := d.readPos + frameLen }
          (.ok (some message),
            if d.readPos = d.buffer.length then { d with buffer := [], readPos := 0 } else d)
      | .ok none => (.ok none, d)
      | .error error => (.error error, ⟨[], 0, some error⟩)

/-- How many pushed bytes are not yet part of a returned message. -/
def bufferedLen (d : AwsEventStreamDeframerV1) : Nat := d.buffer.length - d.readPos

/-- End the input: every pushed byte must belong to a returned message. -/
def finish (d : AwsEventStreamDeframerV1) : Except EventStreamErrorV1 Unit :=
  match d.nextMessage with
  | (.error error, _) => .error error
  | (.ok (some _), _) => .error .undrainedMessage
  | (.ok none, d) => if d.bufferedLen = 0 then .ok () else .error .truncatedFrame

theorem bufferedLen_nextMessage {d d' : AwsEventStreamDeframerV1} {m : EventStreamMessageV1}
    (h : d.nextMessage = (.ok (some m), d')) : d'.bufferedLen < d.bufferedLen := by
  unfold nextMessage at h
  split at h
  · simp at h
  · split at h
    · rename_i message frameLen hframe
      have hused := decodeFrame_used hframe
      rw [List.length_drop] at hused
      have hmin : minEventstreamFrameBytes = 16 := rfl
      obtain ⟨-, rfl⟩ := Prod.mk.inj h
      dsimp only [bufferedLen]
      split
      · simp only [List.length_nil]
        omega
      · dsimp only
        omega
    · simp at h
    · simp at h

/-- Pull messages until none is left. -/
def drain (d : AwsEventStreamDeframerV1) :
    Trace EventStreamMessageV1 EventStreamErrorV1 AwsEventStreamDeframerV1 :=
  match _h : d.nextMessage with
  | (.error error, _) => .fail error
  | (.ok none, d) => .pure d
  | (.ok (some message), d) => (Trace.emit [message] ()).bind fun _ => d.drain
termination_by d.bufferedLen
decreasing_by exact bufferedLen_nextMessage _h

/-- Push the chunks one after another, draining after each, then finish. -/
def run (d : AwsEventStreamDeframerV1) :
    List (List UInt8) → Trace EventStreamMessageV1 EventStreamErrorV1 Unit
  | [] => ⟨[], d.finish⟩
  | chunk :: chunks => (d.push chunk).drain.bind fun d => d.run chunks

end AwsEventStreamDeframerV1

/-- Deframe the rest of a complete body after the messages before it. -/
def deframeFrom (messages : List EventStreamMessageV1) (rest : List UInt8) :
    Except EventStreamErrorV1 (List EventStreamMessageV1) :=
  if rest = [] then .ok messages
  else
    match _h : decodeFrame rest with
    | .error e => .error e
    | .ok none => .error .truncatedFrame
    | .ok (some (message, frameLen)) => deframeFrom (messages ++ [message]) (rest.drop frameLen)
termination_by rest.length
decreasing_by
  have hused := decodeFrame_used _h
  have hmin : minEventstreamFrameBytes = 16 := rfl
  rw [List.length_drop]
  omega

/-- Deframe a complete body. -/
def deframeAwsEventstreamV1 (body : List UInt8) :
    Except EventStreamErrorV1 (List EventStreamMessageV1) :=
  deframeFrom [] body

end TokenStation.Eventstream
