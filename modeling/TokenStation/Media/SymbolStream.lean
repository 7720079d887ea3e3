import TokenStation.Media.Codecs

/-!
# Symbols read as a stream

The components' decoder shifts sextets into a group of sixteen bits and takes a byte out
whenever it can. Every fourth symbol leaves no bits pending, and then it does not matter
what the group still holds.
-/

namespace TokenStation.Media

open Library.PaddedBase64 Library.Text Conformance.Base64

/-! ## The components' alphabets -/

theorem idxOf?_eq_some {symbols : List UInt8} (hnodup : symbols.Nodup) (symbol : UInt8) (n : Nat) :
    symbols.idxOf? symbol = some n ↔ n < symbols.length ∧ symbol = symbols.getD n 0 := by
  rw [List.idxOf?_eq_some_iff]
  constructor
  · rintro ⟨hn, heq, -⟩
    refine ⟨hn, ?_⟩
    rw [List.getD_eq_getElem _ _ hn]
    exact heq.symm
  · rintro ⟨hn, rfl⟩
    rw [List.getD_eq_getElem _ _ hn]
    refine ⟨hn, rfl, fun j hj heq => ?_⟩
    exact hj.ne ((List.Nodup.getElem_inj_iff hnodup).mp heq)

/-- The alphabet as symbols with values, padded with `=`. -/
def alphabetOf (alphabet : Conformance.Base64.Alphabet) : Library.PaddedBase64.Alphabet where
  symbol n := alphabet.symbols.getD n 0
  value := alphabet.sextet
  pad := 61
  value_eq_some symbol n := by
    have hnodup : alphabet.symbols.Nodup := by cases alphabet <;> decide +kernel
    have hlength : alphabet.symbols.length = 64 := by cases alphabet <;> decide +kernel
    rw [Conformance.Base64.Alphabet.sextet, idxOf?_eq_some hnodup, hlength]
  value_pad := by cases alphabet <;> decide +kernel

variable {alphabet : Conformance.Base64.Alphabet}

theorem sextet_lt {symbol : UInt8} {n : Nat} (h : alphabet.sextet symbol = some n) : n < 64 :=
  (((alphabetOf alphabet).value_eq_some symbol n).mp h).1

/-! ## One symbol after the other -/

/-- The group after one more sextet. -/
def shifted (group value : Nat) : Nat := (group * 64 + value) % 65536

theorem readSymbols_cons {group bits value : Nat} {symbol : UInt8} {body : List UInt8}
    (h : alphabet.sextet symbol = some value) :
    readSymbols alphabet group bits (symbol :: body) =
      if bits + 6 ≥ 8 then
        (readSymbols alphabet (shifted group value) (bits + 6 - 8) body).map fun read =>
          (UInt8.ofNat (shifted group value / 2 ^ (bits + 6 - 8)) :: read.1, read.2)
      else readSymbols alphabet (shifted group value) (bits + 6) body := by
  have hor := @or_eq_add group value 6 (sextet_lt h)
  have hgroup : (group <<< 6 ||| value) &&& 0xffff = shifted group value := by
    rw [Nat.shiftLeft_eq, hor, show (0xffff : Nat) = 2 ^ 16 - 1 from rfl,
      Nat.and_two_pow_sub_one_eq_mod]
    rfl
  rw [readSymbols, h]
  simp only [Option.bind_eq_bind, Option.bind_some, hgroup, shift_mask]
  split
  · cases readSymbols alphabet (shifted group value) (bits + 6 - 8) body <;> rfl
  · rfl

theorem readSymbols_none {group bits : Nat} {symbol : UInt8} {body : List UInt8}
    (h : alphabet.sextet symbol = none) : readSymbols alphabet group bits (symbol :: body) = none := by
  rw [readSymbols, h]
  rfl

/-- The twelve low bits of a group are the last two sextets. -/
theorem shifted_low {group value : Nat} (h : value < 64) :
    shifted group value % 4096 = group % 64 * 64 + value := by
  rw [shifted]
  omega

/-- What the second sextet completes, and what it leaves. -/
theorem second_low (group : Nat) {a b : Nat} (ha : a < 64) (hb : b < 64) :
    shifted (shifted group a) b / 16 % 256 = (a * 4 + b / 16) % 256 ∧
      shifted (shifted group a) b % 16 = b % 16 := by
  have hfirst := @shifted_low group a ha
  have hsecond := @shifted_low (shifted group a) b hb
  omega

/-- What the third sextet completes, and what it leaves. -/
theorem third_low (group : Nat) {b c : Nat} (hb : b < 64) (hc : c < 64) :
    shifted (shifted group b) c / 4 % 256 = (b % 16 * 16 + c / 4) % 256 ∧
      shifted (shifted group b) c % 4 = c % 4 := by
  have hfirst := @shifted_low group b hb
  have hsecond := @shifted_low (shifted group b) c hc
  omega

/-- What the fourth sextet completes. -/
theorem fourth_low (group : Nat) {c d : Nat} (hc : c < 64) (hd : d < 64) :
    shifted (shifted group c) d / 1 % 256 = (c % 4 * 64 + d) % 256 := by
  have hfirst := @shifted_low group c hc
  have hsecond := @shifted_low (shifted group c) d hd
  omega

/-- A body read to its end, with nothing but zero bits left over. -/
def Decodes (alphabet : Conformance.Base64.Alphabet) (group bits : Nat)
    (body data : List UInt8) : Prop :=
  ∃ last left, readSymbols alphabet group bits body = some (data, last, left) ∧
    last % 2 ^ left = 0

theorem decodes_nil {group bits : Nat} {data : List UInt8} :
    Decodes alphabet group bits [] data ↔ data = [] ∧ group % 2 ^ bits = 0 := by
  constructor
  · rintro ⟨last, left, hread, hzero⟩
    cases hread
    exact ⟨rfl, hzero⟩
  · rintro ⟨rfl, hzero⟩
    exact ⟨group, bits, rfl, hzero⟩

/-- A symbol that does not complete a byte. -/
theorem decodes_pending {group bits : Nat} {symbol : UInt8} {body data : List UInt8}
    (hbits : ¬bits + 6 ≥ 8) : Decodes alphabet group bits (symbol :: body) data ↔
      ∃ value, alphabet.sextet symbol = some value ∧
        Decodes alphabet (shifted group value) (bits + 6) body data := by
  cases hvalue : alphabet.sextet symbol with
  | none => simp [Decodes, readSymbols_none hvalue]
  | some value => simp [Decodes, readSymbols_cons hvalue, hbits]

/-- A symbol that completes a byte. -/
theorem decodes_byte {group bits : Nat} {symbol : UInt8} {body data : List UInt8}
    (hbits : bits + 6 ≥ 8) : Decodes alphabet group bits (symbol :: body) data ↔
      ∃ value, alphabet.sextet symbol = some value ∧
        ∃ more, Decodes alphabet (shifted group value) (bits + 6 - 8) body more ∧
          data = UInt8.ofNat (shifted group value / 2 ^ (bits + 6 - 8)) :: more := by
  cases hvalue : alphabet.sextet symbol with
  | none => simp [Decodes, readSymbols_none hvalue]
  | some value =>
      simp only [Decodes, readSymbols_cons hvalue, if_pos hbits, Option.map_eq_some_iff,
        Option.some.injEq, exists_eq_left']
      constructor
      · rintro ⟨last, left, ⟨⟨more, rest⟩, hread, hpair⟩, hzero⟩
        obtain ⟨rfl, rfl⟩ := Prod.mk.inj hpair
        exact ⟨more, ⟨last, left, hread, hzero⟩, rfl⟩
      · rintro ⟨more, ⟨last, left, hread, hzero⟩, rfl⟩
        exact ⟨last, left, ⟨(more, last, left), hread, rfl⟩, hzero⟩

/-! ## Whole bodies -/

/-- The bytes four symbols complete. -/
theorem fourBytes (group : Nat) {w x y z : UInt8} {a b c d : Nat}
    (ha : alphabet.sextet w = some a) (hb : alphabet.sextet x = some b)
    (hc : alphabet.sextet y = some c) (hd : alphabet.sextet z = some d) :
    threeBytes a b c d = [UInt8.ofNat (shifted (shifted group a) b / 16),
      UInt8.ofNat (shifted (shifted (shifted group a) b) c / 4),
      UInt8.ofNat (shifted (shifted (shifted (shifted group a) b) c) d / 1)] := by
  rw [ofNat_congr (second_low group (sextet_lt ha) (sextet_lt hb)).1,
    ofNat_congr (third_low (shifted group a) (sextet_lt hb) (sextet_lt hc)).1,
    ofNat_congr (fourth_low (shifted (shifted group a) b) (sextet_lt hc) (sextet_lt hd))]
  rfl

/-- A body of whole bytes is read to its end exactly when it is the symbols of what was read. -/
theorem decodes_iff (body : List UInt8) (group : Nat) (data : List UInt8) :
    body.length % 4 ≠ 1 ∧ Decodes alphabet group 0 body data ↔
      body = (alphabetOf alphabet).symbols data := by
  match body with
  | [] =>
      rw [decodes_nil]
      constructor
      · rintro ⟨-, rfl, -⟩
        rfl
      · intro h
        have hlength := congrArg List.length h
        rw [Alphabet.length_symbols, List.length_nil] at hlength
        exact ⟨by decide, List.length_eq_zero_iff.mp (by omega), Nat.mod_one _⟩
  | [w] =>
      refine ⟨fun h => absurd rfl h.1, fun h => ?_⟩
      have hlength := congrArg List.length h
      rw [Alphabet.length_symbols, List.length_singleton] at hlength
      omega
  | [w, x] =>
      rw [symbols_two_iff, ← one_byte_iff, and_iff_right (by simp), decodes_pending (by decide)]
      simp only [exists_and_left]
      refine exists_congr fun a => and_congr_right fun ha => ?_
      rw [decodes_byte (by decide)]
      refine exists_congr fun b => and_congr_right fun hb => ?_
      obtain ⟨hbyte, hleft⟩ := second_low group (sextet_lt ha) (sextet_lt hb)
      simp only [decodes_nil, Nat.reduceAdd, Nat.reduceSub, Nat.reducePow, hleft, threeBytes,
        List.take_succ_cons, List.take_zero, ofNat_congr hbyte]
      constructor
      · rintro ⟨more, ⟨rfl, hzero⟩, rfl⟩
        exact ⟨hzero, rfl⟩
      · rintro ⟨hzero, rfl⟩
        exact ⟨[], ⟨rfl, hzero⟩, rfl⟩
  | [w, x, y] =>
      rw [symbols_three_iff, ← two_bytes_iff, and_iff_right (by simp), decodes_pending (by decide)]
      simp only [exists_and_left]
      refine exists_congr fun a => and_congr_right fun ha => ?_
      rw [decodes_byte (by decide)]
      refine exists_congr fun b => and_congr_right fun hb => ?_
      obtain ⟨hfirst, -⟩ := second_low group (sextet_lt ha) (sextet_lt hb)
      simp only [decodes_byte (show 4 + 6 ≥ 8 by decide), decodes_nil, Nat.reduceAdd,
        Nat.reduceSub, Nat.reducePow, threeBytes, List.take_succ_cons, List.take_zero,
        ofNat_congr hfirst]
      constructor
      · rintro ⟨more, ⟨c, hc, last, ⟨rfl, hzero⟩, rfl⟩, rfl⟩
        obtain ⟨hsecond, hleft⟩ := third_low (shifted group a) (sextet_lt hb) (sextet_lt hc)
        rw [hleft] at hzero
        exact ⟨c, hc, hzero, by rw [ofNat_congr hsecond]⟩
      · rintro ⟨c, hc, hzero, rfl⟩
        obtain ⟨hsecond, hleft⟩ := third_low (shifted group a) (sextet_lt hb) (sextet_lt hc)
        refine ⟨_, ⟨c, hc, [], ⟨rfl, hleft.trans hzero⟩, rfl⟩, ?_⟩
        rw [ofNat_congr hsecond]
  | w :: x :: y :: z :: rest =>
      have hlength : (w :: x :: y :: z :: rest).length % 4 ≠ 1 ↔ rest.length % 4 ≠ 1 := by
        simp only [List.length_cons]
        omega
      rw [symbols_four_iff, hlength, decodes_pending (by decide)]
      constructor
      · rintro ⟨hrest, a, ha, h⟩
        rw [decodes_byte (by decide)] at h
        obtain ⟨b, hb, data, h, rfl⟩ := h
        rw [decodes_byte (by decide)] at h
        obtain ⟨c, hc, data, h, rfl⟩ := h
        rw [decodes_byte (by decide)] at h
        obtain ⟨d, hd, more, h, rfl⟩ := h
        obtain ⟨hchunk, hspell⟩ := (@three_bytes_iff (alphabetOf alphabet) w x y z _).mp
          ⟨a, b, c, d, ha, hb, hc, hd, rfl⟩
        refine ⟨threeBytes a b c d, more, hchunk, hspell,
          (decodes_iff rest _ more).mp ⟨hrest, h⟩, ?_⟩
        rw [fourBytes group ha hb hc hd]
        rfl
      · rintro ⟨chunk, more, hchunk, hspell, hmore, rfl⟩
        obtain ⟨a, b, c, d, ha, hb, hc, hd, rfl⟩ := three_bytes_iff.mpr ⟨hchunk, hspell⟩
        have ha : alphabet.sextet w = some a := ha
        have hb : alphabet.sextet x = some b := hb
        have hc : alphabet.sextet y = some c := hc
        have hd : alphabet.sextet z = some d := hd
        obtain ⟨hrest, h⟩ := (decodes_iff rest
          (shifted (shifted (shifted (shifted group a) b) c) d) more).mpr hmore
        refine ⟨hrest, a, ha, ?_⟩
        rw [decodes_byte (by decide), fourBytes group ha hb hc hd]
        refine ⟨b, hb, _, ?_, rfl⟩
        rw [decodes_byte (by decide)]
        refine ⟨c, hc, _, ?_, rfl⟩
        rw [decodes_byte (by decide)]
        exact ⟨d, hd, more, h, rfl⟩

/-! ## Whole texts -/

theorem rdropWhile_replicate (body : List UInt8) (count : Nat) (pad : UInt8) :
    (body ++ List.replicate count pad).rdropWhile (· == pad) = body.rdropWhile (· == pad) := by
  induction count with
  | zero => simp
  | succ count ih =>
      rw [List.replicate_succ', ← List.append_assoc, List.rdropWhile_concat_pos _ _ _ (by simp), ih]

theorem rdropWhile_of_notMem {body : List UInt8} {pad : UInt8} (h : pad ∉ body) :
    body.rdropWhile (· == pad) = body := by
  rw [List.rdropWhile_eq_self_iff]
  intro hne heq
  exact h (beq_iff_eq.mp heq ▸ List.getLast_mem hne)

/-- What is dropped at the end is all pads. -/
theorem rdropWhile_append (text : List UInt8) (pad : UInt8) :
    ∃ count, text = text.rdropWhile (· == pad) ++ List.replicate count pad := by
  induction text using List.reverseRecOn with
  | nil => exact ⟨0, rfl⟩
  | append_singleton text last ih =>
      by_cases hlast : last = pad
      · obtain ⟨count, htext⟩ := ih
        refine ⟨count + 1, ?_⟩
        rw [List.rdropWhile_concat_pos _ _ _ (by simpa using hlast), List.replicate_succ',
          ← List.append_assoc, ← htext, hlast]
      · exact ⟨0, by rw [List.rdropWhile_concat_neg _ _ _ (by simpa using hlast)]; simp⟩

/-- How many pads a padding mode admits after the symbols of some bytes. -/
def Admits (padding : Padding) (size count : Nat) : Prop :=
  match padding with
  | .canonical => count = (3 - size % 3) % 3
  | .indifferent => count ≤ (3 - size % 3) % 3

/-- The bytes of a body of symbols, when no bit is left over in its last group. -/
def decodedBody (alphabet : Conformance.Base64.Alphabet) (body : List UInt8) : Option (List UInt8) :=
  match readSymbols alphabet 0 0 body with
  | none => none
  | some (decoded, group, bits) => if group &&& (1 <<< bits - 1) != 0 then none else some decoded

theorem decodedBody_eq_some {body data : List UInt8} :
    decodedBody alphabet body = some data ↔ Decodes alphabet 0 0 body data := by
  rw [decodedBody, Decodes]
  split
  · next hnone => simp [hnone]
  · next decoded last left hsome =>
      have hmask : last &&& (1 <<< left - 1) = last % 2 ^ left := by
        rw [Nat.one_shiftLeft, Nat.and_two_pow_sub_one_eq_mod]
      rw [hmask, hsome]
      by_cases hzero : last % 2 ^ left = 0
      · simp [hzero]
      · simp [hzero]

/-- A text is decoded exactly when it is the symbols of the bytes and admitted padding. -/
theorem decode_eq_some {text : String} {padding : Padding} {data : List UInt8} :
    decode text alphabet padding = some data ↔ ∃ count, Admits padding data.length count ∧
      bytes text = (alphabetOf alphabet).symbols data ++ List.replicate count 61 := by
  obtain ⟨count, htext⟩ := rdropWhile_append (bytes text) 61
  generalize hbody : (bytes text).rdropWhile (· == 61) = body at htext
  have htake : (bytes text).take body.length = body := by rw [htext, List.take_left]
  have hdrop : (bytes text).drop body.length = List.replicate count 61 := by
    rw [htext, List.drop_left]
  -- The text splits in one way only, so the two counts are the same.
  have hsplit : (∃ count, Admits padding data.length count ∧
      bytes text = (alphabetOf alphabet).symbols data ++ List.replicate count 61) ↔
      Admits padding data.length count ∧ body = (alphabetOf alphabet).symbols data := by
    constructor
    · rintro ⟨other, hadmits, hother⟩
      have hsame : body = (alphabetOf alphabet).symbols data := by
        rw [← hbody, hother, rdropWhile_replicate]
        exact rdropWhile_of_notMem ((alphabetOf alphabet).pad_not_mem_symbols data)
      have hcount : other = count := by
        rw [hother, ← hsame] at hdrop
        simpa using congrArg List.length hdrop
      exact ⟨hcount ▸ hadmits, hsame⟩
    · rintro ⟨hadmits, hsame⟩
      exact ⟨count, hadmits, hsame ▸ htext⟩
  rw [hsplit, ← decodes_iff body 0 data]
  rw [decode]
  simp only [hbody, htake, hdrop, List.length_replicate]
  by_cases hone : body.length % 4 = 1
  · rw [if_pos hone]
    exact ⟨(fun h => by cases h), fun h => absurd hone h.2.1⟩
  · rw [if_neg hone]
    -- The canonical number of pads completes the last group of the bytes.
    have hcanonical : Decodes alphabet 0 0 body data →
        (if body.length % 4 = 0 then 0 else 4 - body.length % 4) = (3 - data.length % 3) % 3 := by
      intro h
      have hlength := congrArg List.length ((decodes_iff body 0 data).mp ⟨hone, h⟩)
      rw [Library.PaddedBase64.Alphabet.length_symbols] at hlength
      have hcases : data.length % 3 = 0 ∨ data.length % 3 = 1 ∨ data.length % 3 = 2 := by omega
      rcases hcases with h | h | h <;> split <;> omega
    have hguarded : ∀ allowed : Bool, (Decodes alphabet 0 0 body data →
        (allowed = true ↔ Admits padding data.length count)) →
        ((if (!allowed) = true then none else decodedBody alphabet body) = some data ↔
          Admits padding data.length count ∧ body.length % 4 ≠ 1 ∧
            Decodes alphabet 0 0 body data) := by
      intro allowed hallowed
      cases allowed with
      | false =>
          refine ⟨(fun h => by cases h), fun h => ?_⟩
          exact absurd ((hallowed h.2.2).mpr h.1) Bool.false_ne_true
      | true =>
          rw [if_neg (by decide), decodedBody_eq_some]
          exact ⟨fun h => ⟨(hallowed h).mp rfl, hone, h⟩, fun h => h.2.2⟩
    cases padding with
    | canonical =>
        refine hguarded (count == _) fun h => ?_
        rw [hcanonical h, beq_iff_eq]
        rfl
    | indifferent =>
        refine hguarded (decide (count ≤ _)) fun h => ?_
        rw [hcanonical h, decide_eq_true_iff]
        rfl

end TokenStation.Media
