import TokenStation.Media.SymbolStream

/-!
# One spelling for every text

The components' encoder writes the symbols of the bytes and, when asked to, the pads that
complete the last group. Their decoder reads back what is written, and reads nothing else.
-/

namespace TokenStation.Conformance.Base64

open Library.Text Library.PaddedBase64 Media

/-- How many pads complete the last group. -/
def canonicalPads (data : List UInt8) : Nat := (3 - data.length % 3) % 3

/-! ## What is written -/

variable (alphabet : Base64.Alphabet)

theorem utf8_symbolAt (group index : Nat) :
    String.utf8EncodeChar (symbolAt alphabet.symbols group index) =
      [(alphabetOf alphabet).symbol (group / 2 ^ (18 - 6 * index) % 64)] := by
  have hall : ∀ n < 64, String.utf8EncodeChar (charFrom (alphabet.symbols.getD n 0)) =
      [alphabet.symbols.getD n 0] := by cases alphabet <;> decide +kernel
  rw [symbolAt, Nat.shiftRight_eq_div_pow, show (0x3f : Nat) = 2 ^ 6 - 1 from rfl,
    Nat.and_two_pow_sub_one_eq_mod]
  exact hall _ (Nat.mod_lt _ (by decide))

/-- The symbols written for a slice, without its pads. -/
def slice (chunk : List UInt8) : List Char :=
  (List.range (chunk.length + 1)).map (symbolAt alphabet.symbols (groupOf chunk))

theorem utf8_slice {chunk : List UInt8} (hne : chunk ≠ []) (hle : chunk.length ≤ 3) :
    (slice alphabet chunk).flatMap String.utf8EncodeChar =
      (alphabetOf alphabet).symbols chunk := by
  obtain _ | ⟨a, _ | ⟨b, _ | ⟨c, _ | ⟨d, rest⟩⟩⟩⟩ := chunk
  · exact absurd rfl hne
  · have ha := a.toNat_lt
    have hfirst : a.toNat * 65536 / 262144 % 64 = a.toNat / 4 := by omega
    have hsecond : a.toNat * 65536 / 4096 % 64 = a.toNat % 4 * 16 := by omega
    simp [slice, List.range_succ, utf8_symbolAt, groupOf_one, hfirst, hsecond,
      Library.PaddedBase64.Alphabet.symbols]
  · have ha := a.toNat_lt
    have hb := b.toNat_lt
    have hfirst : (a.toNat * 65536 + b.toNat * 256) / 262144 % 64 = a.toNat / 4 := by omega
    have hsecond : (a.toNat * 65536 + b.toNat * 256) / 4096 % 64 =
        a.toNat % 4 * 16 + b.toNat / 16 := by omega
    have hthird : (a.toNat * 65536 + b.toNat * 256) / 64 % 64 = b.toNat % 16 * 4 := by omega
    simp [slice, List.range_succ, utf8_symbolAt, groupOf_two, hfirst, hsecond, hthird,
      Library.PaddedBase64.Alphabet.symbols]
  · have ha := a.toNat_lt
    have hb := b.toNat_lt
    have hc := c.toNat_lt
    have hfirst : (a.toNat * 65536 + b.toNat * 256 + c.toNat) / 262144 % 64 = a.toNat / 4 := by
      omega
    have hsecond : (a.toNat * 65536 + b.toNat * 256 + c.toNat) / 4096 % 64 =
        a.toNat % 4 * 16 + b.toNat / 16 := by omega
    have hthird : (a.toNat * 65536 + b.toNat * 256 + c.toNat) / 64 % 64 =
        b.toNat % 16 * 4 + c.toNat / 64 := by omega
    have hfourth : (a.toNat * 65536 + b.toNat * 256 + c.toNat) % 64 = c.toNat % 64 := by omega
    simp [slice, List.range_succ, utf8_symbolAt, groupOf_three, hfirst, hsecond, hthird, hfourth,
      Library.PaddedBase64.Alphabet.symbols]
  · simp only [List.length_cons] at hle
    omega

theorem utf8_pads (count : Nat) :
    (List.replicate count '=').flatMap String.utf8EncodeChar = List.replicate count 61 := by
  induction count with
  | zero => rfl
  | succ count ih =>
      rw [List.replicate_succ, List.flatMap_cons, ih]
      rfl

theorem bytes_encode (data : List UInt8) (pad : Bool) :
    bytes (encode data alphabet pad) = (alphabetOf alphabet).symbols data ++
      List.replicate (if pad then canonicalPads data else 0) 61 := by
  have hchunk : ∀ chunk : List UInt8, chunk ≠ [] → chunk.length ≤ 3 →
      (slice alphabet chunk ++ if pad then List.replicate (3 - chunk.length) '=' else []).flatMap
        String.utf8EncodeChar = (alphabetOf alphabet).symbols chunk ++
          List.replicate (if pad then 3 - chunk.length else 0) 61 := by
    intro chunk hne hle
    rw [List.flatMap_append, utf8_slice alphabet hne hle]
    cases pad with
    | false => rfl
    | true => exact congrArg _ (utf8_pads _)
  have hchunks : ((chunks data).flatMap fun chunk => slice alphabet chunk ++
      if pad then List.replicate (3 - chunk.length) '=' else []).flatMap String.utf8EncodeChar =
        (alphabetOf alphabet).symbols data ++
          List.replicate (if pad then canonicalPads data else 0) 61 := by
    fun_induction chunks data with
    | case1 => cases pad <;> rfl
    | case2 a =>
        rw [List.flatMap_cons, List.flatMap_nil, List.append_nil, hchunk [a] (by simp) (by simp)]
        rfl
    | case3 a b =>
        rw [List.flatMap_cons, List.flatMap_nil, List.append_nil,
          hchunk [a, b] (by simp) (by simp)]
        rfl
    | case4 a b c rest ih =>
        have hpads : canonicalPads (a :: b :: c :: rest) = canonicalPads rest := by
          simp only [canonicalPads, List.length_cons]
          omega
        rw [List.flatMap_cons, List.flatMap_append, ih, hchunk [a, b, c] (by simp) (by simp), hpads]
        simp [Library.PaddedBase64.Alphabet.symbols]
  rw [encode, bytes_ofList]
  exact hchunks

/-- Padding is written after everything else. -/
theorem encode_true (data : List UInt8) : encode data alphabet true =
    encode data alphabet false ++ String.ofList (List.replicate (canonicalPads data) '=') := by
  apply bytes_injective
  rw [bytes_append, bytes_ofList, utf8_pads, bytes_encode, bytes_encode]
  simp

/-! ## What is read -/

theorem decode_encode (data : List UInt8) (padding : Padding) :
    decode (encode data alphabet true) alphabet padding = some data := by
  rw [decode_eq_some]
  refine ⟨canonicalPads data, ?_, bytes_encode alphabet data true⟩
  cases padding with
  | canonical => rfl
  | indifferent => exact Nat.le_refl _

theorem decode_unpadded (data : List UInt8) :
    decode (encode data alphabet false) alphabet .indifferent = some data :=
  decode_eq_some.mpr ⟨0, Nat.zero_le _, bytes_encode alphabet data false⟩

/-- A text read as some bytes is their encoding and as many pads as the mode admits. -/
theorem spelled_of_decode {text : String} {padding : Padding} {data : List UInt8}
    (h : decode text alphabet padding = some data) :
    ∃ count, Admits padding data.length count ∧
      text = encode data alphabet false ++ String.ofList (List.replicate count '=') := by
  obtain ⟨count, hadmits, hbytes⟩ := decode_eq_some.mp h
  refine ⟨count, hadmits, bytes_injective ?_⟩
  rw [bytes_append, bytes_ofList, utf8_pads, bytes_encode, hbytes]
  simp

/-- Every encoding is read back, padded under both modes and unpadded where padding does not
matter; and every text that is read is an encoding of what is read. -/
theorem codec_exact :
    (∀ (data : List UInt8) (alphabet : Base64.Alphabet) (padding : Padding),
      decode (encode data alphabet true) alphabet padding = some data) ∧
    (∀ (data : List UInt8) (alphabet : Base64.Alphabet),
      decode (encode data alphabet false) alphabet .indifferent = some data) ∧
    (∀ (text : String) (alphabet : Base64.Alphabet) (data : List UInt8),
      decode text alphabet .canonical = some data → text = encode data alphabet true) ∧
    ∀ (text : String) (alphabet : Base64.Alphabet) (data : List UInt8),
      decode text alphabet .indifferent = some data → ∃ count ≤ canonicalPads data,
        text = encode data alphabet false ++ String.ofList (List.replicate count '=') := by
  refine ⟨fun data alphabet padding => decode_encode alphabet data padding,
    fun data alphabet => decode_unpadded alphabet data, ?_, ?_⟩
  · intro text alphabet data h
    obtain ⟨count, hcount, htext⟩ := spelled_of_decode alphabet h
    rw [encode_true, htext, show count = canonicalPads data from hcount]
  · intro text alphabet data h
    exact spelled_of_decode alphabet h

/-- One byte spelled without its pads, and with one of the two. -/
theorem letter_a_spelled : "YQ==" = encode [97] .standard true ∧
    ∃ count ≤ canonicalPads [97],
      "YQ=" = encode [97] .urlSafe false ++ String.ofList (List.replicate count '=') :=
  ⟨codec_exact.2.2.1 "YQ==" .standard [97] (by decide),
    codec_exact.2.2.2 "YQ=" .urlSafe [97] (by decide)⟩

end TokenStation.Conformance.Base64
