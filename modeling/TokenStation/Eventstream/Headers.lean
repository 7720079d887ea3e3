import TokenStation.Library.BigEndian
import TokenStation.Library.Checked
import TokenStation.Library.SortedMap
import TokenStation.Library.Text

/-!
# Eventstream headers

The header block of an eventstream message as the contracts crate reads it,
and the wire form of a header. A reader succeeds exactly on the wire form of
what it returns, followed by what it leaves.
-/

namespace TokenStation.Eventstream

open Library Library.BigEndian Library.Checked Library.Text

/-- The refusals of the deframer, then those of the re-encoding. -/
inductive EventStreamErrorV1
  | preludeChecksumMismatch
  | frameTooShort
  | frameTooLarge
  | headersTooLarge
  | headersExceedFrame
  | messageChecksumMismatch
  | truncatedHeader
  | emptyHeaderName
  | headerNotUtf8
  | unknownHeaderType
  | duplicateHeader
  | truncatedFrame
  | undrainedMessage
  | unknownMessageType
  | missingHeader (header : String)
  | headerNotString (header : String)
  | invalidEventName (header : String)
  | payloadNotUtf8
  | payloadNotJson
  deriving DecidableEq, Repr

/-- One typed header value, covering all ten wire types. -/
inductive EventStreamHeaderValueV1
  | bool (value : Bool)
  | byte (value : Int8)
  | int16 (value : Int16)
  | int32 (value : Int32)
  | int64 (value : Int64)
  | byteArray (value : List UInt8)
  | string (value : String)
  | timestamp (value : Int64)
  | uuid (value : Vector UInt8 16)
  deriving DecidableEq

namespace HeaderReader

/-- Take this many bytes. -/
def bytes (len : Nat) (rest : List UInt8) :
    Except EventStreamErrorV1 (List UInt8 × List UInt8) :=
  if len ≤ rest.length then .ok (rest.take len, rest.drop len) else .error .truncatedHeader

/-- Take a fixed number of bytes. -/
def array (n : Nat) (rest : List UInt8) :
    Except EventStreamErrorV1 (Vector UInt8 n × List UInt8) :=
  if h : n ≤ rest.length then .ok (⟨(rest.take n).toArray, by simp [h]⟩, rest.drop n)
  else .error .truncatedHeader

/-- Take a byte string behind its 16-bit length. -/
def lengthPrefixed (rest : List UInt8) : Except EventStreamErrorV1 (List UInt8 × List UInt8) := do
  let (len, rest) ← array 2 rest
  bytes (ofBytes len.toList) rest

/-- Take a big-endian number of this many bytes. -/
def number (width : Nat) (wrap : BitVec (8 * width) → EventStreamHeaderValueV1)
    (rest : List UInt8) : Except EventStreamErrorV1 (EventStreamHeaderValueV1 × List UInt8) := do
  let (raw, rest) ← array width rest
  .ok (wrap (.ofNat _ (ofBytes raw.toList)), rest)

/-- Take the value of a header of this type. -/
def value (typeByte : UInt8) (rest : List UInt8) :
    Except EventStreamErrorV1 (EventStreamHeaderValueV1 × List UInt8) :=
  match typeByte.toNat with
  | 0 => .ok (.bool true, rest)
  | 1 => .ok (.bool false, rest)
  | 2 => number 1 (fun n => .byte (.ofBitVec n)) rest
  | 3 => number 2 (fun n => .int16 (.ofBitVec n)) rest
  | 4 => number 4 (fun n => .int32 (.ofBitVec n)) rest
  | 5 => number 8 (fun n => .int64 (.ofBitVec n)) rest
  | 6 => do
      let (raw, rest) ← lengthPrefixed rest
      .ok (.byteArray raw, rest)
  | 7 => do
      let (raw, rest) ← lengthPrefixed rest
      match fromUtf8 raw with
      | none => .error .headerNotUtf8
      | some text => .ok (.string text, rest)
  | 8 => number 8 (fun n => .timestamp (.ofBitVec n)) rest
  | 9 => do
      let (raw, rest) ← array 16 rest
      .ok (.uuid raw, rest)
  | _ => .error .unknownHeaderType

/-- Take one header: its name, its type and its value. -/
def header (rest : List UInt8) :
    Except EventStreamErrorV1 ((String × EventStreamHeaderValueV1) × List UInt8) := do
  let (nameLen, rest) ← array 1 rest
  if nameLen[0] = 0 then .error .emptyHeaderName
  else
    let (raw, rest) ← bytes nameLen[0].toNat rest
    match fromUtf8 raw with
    | none => .error .headerNotUtf8
    | some name =>
        let (typeByte, rest) ← array 1 rest
        let (value, rest) ← value typeByte[0] rest
        .ok ((name, value), rest)

theorem bytes_eq_ok {len : Nat} {rest rest' raw : List UInt8} :
    bytes len rest = .ok (raw, rest') ↔ raw.length = len ∧ rest = raw ++ rest' := by
  unfold bytes
  split
  · rename_i hle
    simp only [Except.ok.injEq, Prod.mk.injEq]
    constructor
    · rintro ⟨rfl, rfl⟩
      exact ⟨by simp [hle], (List.take_append_drop len rest).symm⟩
    · rintro ⟨rfl, rfl⟩
      simp
  · rename_i hlt
    simp only [reduceCtorEq, false_iff]
    rintro ⟨rfl, rfl⟩
    simp at hlt

theorem array_eq_ok {n : Nat} {rest rest' : List UInt8} {v : Vector UInt8 n} :
    array n rest = .ok (v, rest') ↔ rest = v.toList ++ rest' := by
  have hsize : v.toList.length = n := by simp
  unfold array
  split
  · simp only [Except.ok.injEq, Prod.mk.injEq]
    constructor
    · rintro ⟨rfl, rfl⟩
      simp
    · rintro rfl
      refine ⟨?_, List.drop_left' hsize⟩
      apply Vector.toList_inj.mp
      simp [List.take_append_of_le_length (Nat.le_of_eq hsize.symm),
        List.take_of_length_le (Nat.le_of_eq hsize)]
  · rename_i hlt
    simp only [reduceCtorEq, false_iff]
    rintro rfl
    rw [List.length_append, hsize] at hlt
    omega

theorem lengthPrefixed_eq_ok {rest rest' raw : List UInt8} :
    lengthPrefixed rest = .ok (raw, rest') ↔
      raw.length < 256 ^ 2 ∧ rest = toBytes 2 raw.length ++ raw ++ rest' := by
  change (array 2 rest >>= _) = _ ↔ _
  rw [bind_eq_ok]
  constructor
  · rintro ⟨⟨len, rest₁⟩, hlen, hraw⟩
    rw [array_eq_ok] at hlen
    obtain ⟨hlength, rfl⟩ := bytes_eq_ok.mp hraw
    have hwidth : len.toList.length = 2 := by simp
    have hlt := ofBytes_lt len.toList
    rw [hwidth] at hlt
    rw [hlength, hlen]
    refine ⟨hlt, ?_⟩
    rw [← eq_toBytes hwidth, List.append_assoc]
  · rintro ⟨hlt, rfl⟩
    refine ⟨(⟨(toBytes 2 raw.length).toArray, by simp⟩, raw ++ rest'), ?_, ?_⟩
    · rw [array_eq_ok, List.append_assoc]
      simp
    · exact bytes_eq_ok.mpr ⟨(ofBytes_toBytes hlt).symm, rfl⟩

end HeaderReader

/-! ## The wire form -/

namespace EventStreamHeaderValueV1

/-- The type byte and the value bytes. -/
def encode : EventStreamHeaderValueV1 → List UInt8
  | .bool true => [0]
  | .bool false => [1]
  | .byte value => 2 :: toBytes 1 value.toBitVec.toNat
  | .int16 value => 3 :: toBytes 2 value.toBitVec.toNat
  | .int32 value => 4 :: toBytes 4 value.toBitVec.toNat
  | .int64 value => 5 :: toBytes 8 value.toBitVec.toNat
  | .byteArray value => 6 :: (toBytes 2 value.length ++ value)
  | .string value => 7 :: (toBytes 2 (bytes value).length ++ bytes value)
  | .timestamp value => 8 :: toBytes 8 value.toBitVec.toNat
  | .uuid value => 9 :: value.toList

/-- A value whose length field can hold its length. -/
def WellFormed : EventStreamHeaderValueV1 → Prop
  | .byteArray value => value.length ≤ 65535
  | .string value => value.utf8ByteSize ≤ 65535
  | _ => True

end EventStreamHeaderValueV1

/-- A header on the wire: the length of its name, the name and the value. -/
def encodeHeader (header : String × EventStreamHeaderValueV1) : List UInt8 :=
  UInt8.ofNat header.1.utf8ByteSize :: (bytes header.1 ++ header.2.encode)

/-- A header the wire form can hold. -/
structure WellFormedHeader (header : String × EventStreamHeaderValueV1) : Prop where
  name_ne : header.1 ≠ ""
  name_le : header.1.utf8ByteSize ≤ 255
  value : header.2.WellFormed

def encodeHeaders (headers : List (String × EventStreamHeaderValueV1)) : List UInt8 :=
  headers.flatMap encodeHeader

namespace HeaderReader

/-- A number is read exactly where its own width of bytes stands. -/
theorem number_eq_ok {width : Nat} {wrap : BitVec (8 * width) → EventStreamHeaderValueV1}
    {rest rest' : List UInt8} {v : EventStreamHeaderValueV1} :
    number width wrap rest = .ok (v, rest') ↔
      ∃ n, v = wrap n ∧ rest = toBytes width n.toNat ++ rest' := by
  have hpow : 256 ^ width = 2 ^ (8 * width) := by
    rw [Nat.pow_mul]
  change (array width rest >>= _) = _ ↔ _
  rw [bind_eq_ok]
  constructor
  · rintro ⟨⟨raw, r⟩, hraw, hv⟩
    cases hv
    have hwidth : raw.toList.length = width := by simp
    have hlt := ofBytes_lt raw.toList
    rw [hwidth, hpow] at hlt
    refine ⟨_, rfl, ?_⟩
    rw [array_eq_ok.mp hraw, BitVec.toNat_ofNat, Nat.mod_eq_of_lt hlt, ← eq_toBytes hwidth]
  · rintro ⟨n, rfl, rfl⟩
    have hlt : n.toNat < 256 ^ width := by
      rw [hpow]
      exact n.isLt
    refine ⟨(⟨(toBytes width n.toNat).toArray, by simp⟩, rest'), by simp [array_eq_ok], ?_⟩
    simp [ofBytes_toBytes hlt]

theorem number_toBytes (width : Nat) (wrap : BitVec (8 * width) → EventStreamHeaderValueV1)
    (n : BitVec (8 * width)) (rest : List UInt8) :
    number width wrap (toBytes width n.toNat ++ rest) = .ok (wrap n, rest) :=
  number_eq_ok.mpr ⟨n, rfl, rfl⟩

theorem value_of_ok {typeByte : UInt8} {rest rest' : List UInt8} {v : EventStreamHeaderValueV1}
    (h : value typeByte rest = .ok (v, rest')) :
    v.WellFormed ∧ typeByte :: rest = v.encode ++ rest' := by
  have hbyte : ∀ k : UInt8, typeByte.toNat = k.toNat → typeByte = k :=
    fun k hk => UInt8.toNat_inj.mp hk
  unfold value at h
  split at h
  · rename_i heq
    cases h
    exact ⟨trivial, by rw [hbyte 0 heq]; rfl⟩
  · rename_i heq
    cases h
    exact ⟨trivial, by rw [hbyte 1 heq]; rfl⟩
  · rename_i heq
    obtain ⟨n, rfl, rfl⟩ := number_eq_ok.mp h
    exact ⟨trivial, by rw [hbyte 2 heq]; rfl⟩
  · rename_i heq
    obtain ⟨n, rfl, rfl⟩ := number_eq_ok.mp h
    exact ⟨trivial, by rw [hbyte 3 heq]; rfl⟩
  · rename_i heq
    obtain ⟨n, rfl, rfl⟩ := number_eq_ok.mp h
    exact ⟨trivial, by rw [hbyte 4 heq]; rfl⟩
  · rename_i heq
    obtain ⟨n, rfl, rfl⟩ := number_eq_ok.mp h
    exact ⟨trivial, by rw [hbyte 5 heq]; rfl⟩
  · rename_i heq
    obtain ⟨⟨raw, r⟩, hraw, hv⟩ := bind_eq_ok.mp h
    cases hv
    obtain ⟨hlt, rfl⟩ := lengthPrefixed_eq_ok.mp hraw
    exact ⟨Nat.le_of_lt_succ hlt, by rw [hbyte 6 heq]; rfl⟩
  · rename_i heq
    obtain ⟨⟨raw, r⟩, hraw, hv⟩ := bind_eq_ok.mp h
    obtain ⟨hlt, rfl⟩ := lengthPrefixed_eq_ok.mp hraw
    dsimp only at hv
    split at hv
    · cases hv
    · rename_i text htext
      cases hv
      obtain rfl := fromUtf8_eq_some_iff.mp htext
      rw [length_bytes] at hlt
      exact ⟨Nat.le_of_lt_succ hlt, by rw [hbyte 7 heq]; rfl⟩
  · rename_i heq
    obtain ⟨n, rfl, rfl⟩ := number_eq_ok.mp h
    exact ⟨trivial, by rw [hbyte 8 heq]; rfl⟩
  · rename_i heq
    obtain ⟨⟨raw, r⟩, hraw, hv⟩ := bind_eq_ok.mp h
    cases hv
    obtain rfl := array_eq_ok.mp hraw
    exact ⟨trivial, by rw [hbyte 9 heq]; rfl⟩
  · cases h

theorem value_encode {v : EventStreamHeaderValueV1} (h : v.WellFormed) (rest' : List UInt8) :
    ∃ typeByte rest, v.encode ++ rest' = typeByte :: rest ∧
      value typeByte rest = .ok (v, rest') := by
  cases v with
  | bool b => cases b <;> exact ⟨_, _, rfl, rfl⟩
  | byte n =>
      have hn := number_toBytes 1 (fun n => .byte (.ofBitVec n)) n.toBitVec rest'
      exact ⟨2, _, rfl, hn⟩
  | int16 n =>
      have hn := number_toBytes 2 (fun n => .int16 (.ofBitVec n)) n.toBitVec rest'
      exact ⟨3, _, rfl, hn⟩
  | int32 n =>
      have hn := number_toBytes 4 (fun n => .int32 (.ofBitVec n)) n.toBitVec rest'
      exact ⟨4, _, rfl, hn⟩
  | int64 n =>
      have hn := number_toBytes 8 (fun n => .int64 (.ofBitVec n)) n.toBitVec rest'
      exact ⟨5, _, rfl, hn⟩
  | byteArray raw =>
      refine ⟨6, _, rfl, bind_eq_ok.mpr ⟨(raw, rest'), ?_, rfl⟩⟩
      exact lengthPrefixed_eq_ok.mpr ⟨Nat.lt_succ_of_le h, rfl⟩
  | string text =>
      refine ⟨7, _, rfl, bind_eq_ok.mpr ⟨(Text.bytes text, rest'), ?_, ?_⟩⟩
      · refine lengthPrefixed_eq_ok.mpr ⟨?_, rfl⟩
        rw [length_bytes]
        exact Nat.lt_succ_of_le h
      · simp [fromUtf8_bytes]
  | timestamp n =>
      have hn := number_toBytes 8 (fun n => .timestamp (.ofBitVec n)) n.toBitVec rest'
      exact ⟨8, _, rfl, hn⟩
  | uuid raw => exact ⟨9, _, rfl, bind_eq_ok.mpr ⟨(raw, rest'), array_eq_ok.mpr rfl, rfl⟩⟩

theorem vector_one (v : Vector UInt8 1) : v.toList = [v[0]] := by
  apply List.ext_getElem
  · simp
  · intro i hi _
    have : i = 0 := by
      simp at hi
      omega
    subst this
    simp

/-- A header is read exactly where its wire form stands. -/
theorem header_eq_ok {rest rest' : List UInt8} {h : String × EventStreamHeaderValueV1} :
    header rest = .ok (h, rest') ↔ WellFormedHeader h ∧ rest = encodeHeader h ++ rest' := by
  obtain ⟨name, v⟩ := h
  change (array 1 rest >>= _) = _ ↔ _
  rw [bind_eq_ok]
  constructor
  · rintro ⟨⟨nameLen, rest₁⟩, hlen, hbody⟩
    rw [array_eq_ok, vector_one] at hlen
    change (if nameLen[0] = 0 then _ else _) = _ at hbody
    split at hbody
    · cases hbody
    · rename_i hne
      obtain ⟨⟨raw, rest₂⟩, hraw, hnamed⟩ := bind_eq_ok.mp hbody
      obtain ⟨hrawlen, rfl⟩ := bytes_eq_ok.mp hraw
      dsimp only at hnamed
      split at hnamed
      · cases hnamed
      · rename_i text htext
        obtain ⟨⟨typeByte, rest₃⟩, htype, htyped⟩ := bind_eq_ok.mp hnamed
        obtain ⟨⟨v', rest₄⟩, hvalue, hdone⟩ := bind_eq_ok.mp htyped
        cases hdone
        obtain ⟨hwf, hrest⟩ := value_of_ok hvalue
        rw [array_eq_ok, vector_one, List.singleton_append, hrest] at htype
        obtain rfl := fromUtf8_eq_some_iff.mp htext
        rw [length_bytes] at hrawlen
        have hlt := nameLen[0].toNat_lt
        refine ⟨⟨?_, by dsimp only; omega, hwf⟩, ?_⟩
        · rintro rfl
          exact hne (UInt8.toNat_inj.mp hrawlen.symm)
        · rw [hlen, htype, encodeHeader, hrawlen, UInt8.ofNat_toNat]
          simp
  · rintro ⟨⟨hne, hle, hwf⟩, rfl⟩
    dsimp only at hne hle hwf
    obtain ⟨typeByte, rest, hencode, hvalue⟩ := value_encode hwf rest'
    have hnat : (UInt8.ofNat name.utf8ByteSize).toNat = name.utf8ByteSize := by
      rw [UInt8.toNat_ofNat']
      omega
    refine ⟨(#v[UInt8.ofNat name.utf8ByteSize], Text.bytes name ++ (v.encode ++ rest')), ?_, ?_⟩
    · rw [array_eq_ok]
      simp [encodeHeader]
    · have hzero : ¬UInt8.ofNat name.utf8ByteSize = 0 := by
        intro h
        have := congrArg UInt8.toNat h
        rw [hnat] at this
        apply hne
        simpa using this
      have hname : bytes name.utf8ByteSize (Text.bytes name ++ (v.encode ++ rest')) =
          .ok (Text.bytes name, v.encode ++ rest') :=
        bytes_eq_ok.mpr ⟨length_bytes name, rfl⟩
      have htype : array 1 (v.encode ++ rest') = .ok (#v[typeByte], rest) := by
        rw [array_eq_ok, hencode]
        rfl
      simp [hzero, hnat, hname, htype, hvalue, fromUtf8_bytes, bind, Except.bind]

end HeaderReader

/-! ## The header block -/

theorem length_encodeHeader (h : String × EventStreamHeaderValueV1) :
    (encodeHeader h).length = 1 + h.1.utf8ByteSize + h.2.encode.length := by
  simp only [encodeHeader, List.length_cons, List.length_append, length_bytes]
  omega

theorem header_shorter {rest rest' : List UInt8} {h : String × EventStreamHeaderValueV1}
    (heq : HeaderReader.header rest = .ok (h, rest')) : rest'.length < rest.length := by
  obtain ⟨-, rfl⟩ := HeaderReader.header_eq_ok.mp heq
  rw [List.length_append, length_encodeHeader]
  omega

/-- Read headers into a map until the block ends. -/
def parseHeadersFrom (rest : List UInt8) (headers : SortedMap String EventStreamHeaderValueV1) :
    Except EventStreamErrorV1 (SortedMap String EventStreamHeaderValueV1) :=
  if rest = [] then .ok headers
  else
    match _h : HeaderReader.header rest with
    | .error e => .error e
    | .ok ((name, value), rest') =>
        if (headers.get name).isSome then .error .duplicateHeader
        else parseHeadersFrom rest' (headers.insert name value)
termination_by rest.length
decreasing_by exact header_shorter _h

def parseHeaders (block : List UInt8) :
    Except EventStreamErrorV1 (SortedMap String EventStreamHeaderValueV1) :=
  parseHeadersFrom block .empty

/-- Headers that fit on the wire, under distinct names. -/
structure WellFormedHeaders (headers : List (String × EventStreamHeaderValueV1)) : Prop where
  each : ∀ h ∈ headers, WellFormedHeader h
  nodup : (headers.map Prod.fst).Nodup

theorem parseHeadersFrom_of_ok {rest : List UInt8}
    {headers m : SortedMap String EventStreamHeaderValueV1}
    (h : parseHeadersFrom rest headers = .ok m) :
    ∃ hs, WellFormedHeaders hs ∧ (∀ h ∈ hs, headers.get h.1 = none) ∧ rest = encodeHeaders hs ∧
      m = headers.insertAll hs := by
  rw [parseHeadersFrom] at h
  split at h
  · cases h
    exact ⟨[], ⟨by simp, by simp⟩, by simp, by assumption, rfl⟩
  · split at h
    · cases h
    · rename_i name value rest' heq
      have hshort := header_shorter heq
      obtain ⟨hwf, hrest⟩ := HeaderReader.header_eq_ok.mp heq
      split at h
      · cases h
      · rename_i hnew
        obtain ⟨hs, ⟨heach, hnodup⟩, hget, rfl, rfl⟩ := parseHeadersFrom_of_ok h
        have hne : ∀ h ∈ hs, name ≠ h.1 ∧ headers.get h.1 = none := by
          intro h hh
          have hnone := hget h hh
          rw [SortedMap.get_insert] at hnone
          split at hnone
          · cases hnone
          · exact ⟨by assumption, hnone⟩
        refine ⟨(name, value) :: hs, ⟨?_, ?_⟩, ?_, ?_, rfl⟩
        · exact List.forall_mem_cons.mpr ⟨hwf, heach⟩
        · rw [List.map_cons, List.nodup_cons]
          refine ⟨?_, hnodup⟩
          intro hmem
          obtain ⟨h, hh, heq⟩ := List.mem_map.mp hmem
          exact (hne h hh).1 heq.symm
        · refine List.forall_mem_cons.mpr ⟨by simpa using hnew, fun h hh => (hne h hh).2⟩
        · rw [hrest]
          rfl
termination_by rest.length
decreasing_by exact hshort

theorem parseHeadersFrom_encode {hs : List (String × EventStreamHeaderValueV1)}
    {headers : SortedMap String EventStreamHeaderValueV1} (hwf : WellFormedHeaders hs)
    (hnew : ∀ h ∈ hs, headers.get h.1 = none) :
    parseHeadersFrom (encodeHeaders hs) headers = .ok (headers.insertAll hs) := by
  induction hs generalizing headers with
  | nil =>
      rw [parseHeadersFrom]
      rfl
  | cons h hs ih =>
      obtain ⟨heach, hnodup⟩ := hwf
      rw [List.map_cons, List.nodup_cons] at hnodup
      obtain ⟨hh, hrestwf⟩ := List.forall_mem_cons.mp heach
      obtain ⟨hfree, hrestnew⟩ := List.forall_mem_cons.mp hnew
      have hread : HeaderReader.header (encodeHeaders (h :: hs)) = .ok (h, encodeHeaders hs) :=
        HeaderReader.header_eq_ok.mpr ⟨hh, rfl⟩
      have hne : encodeHeaders (h :: hs) ≠ [] := by
        intro hnil
        rw [hnil] at hread
        cases hread
      have hrest : ∀ g ∈ hs, (headers.insert h.1 h.2).get g.1 = none := by
        intro g hg
        rw [SortedMap.get_insert, if_neg, hrestnew g hg]
        intro heq
        exact hnodup.1 (heq ▸ List.mem_map_of_mem hg)
      rw [parseHeadersFrom, if_neg hne]
      split
      · rename_i heq
        rw [hread] at heq
        cases heq
      · rename_i heq
        rw [hread] at heq
        cases heq
        rw [hfree]
        exact ih ⟨hrestwf, hnodup.2⟩ hrest

/-- A block is accepted exactly when it is the wire form of its headers. -/
theorem parseHeaders_eq_ok {block : List UInt8}
    {m : SortedMap String EventStreamHeaderValueV1} :
    parseHeaders block = .ok m ↔
      ∃ hs, WellFormedHeaders hs ∧ block = encodeHeaders hs ∧ m = .ofList hs := by
  constructor
  · intro h
    obtain ⟨hs, hwf, -, hblock, hm⟩ := parseHeadersFrom_of_ok h
    exact ⟨hs, hwf, hblock, hm⟩
  · rintro ⟨hs, hwf, rfl, rfl⟩
    exact parseHeadersFrom_encode hwf (fun _ _ => rfl)

end TokenStation.Eventstream
