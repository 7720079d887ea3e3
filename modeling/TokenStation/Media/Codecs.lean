import TokenStation.Conformance.Base64
import TokenStation.Embeddings.Base64

/-!
# One base64

Host, embeddings contract and components each have a codec of their own. All three write the
one padded spelling of a byte string and read spellings only, so they accept the same texts.
-/

namespace TokenStation.Media

open Library.PaddedBase64 Library.Text

/-! ## The standard alphabet -/

/-- A fact about every byte, checked byte by byte. -/
theorem forall_byte {p : UInt8 → Prop} (h : ∀ n < 256, p (.ofNat n)) (byte : UInt8) :
    p byte := by
  have hbyte := h byte.toNat byte.toNat_lt
  rwa [UInt8.ofNat_toNat] at hbyte

theorem base64Symbols_eq : base64Symbols =
    (List.range' 65 26 ++ List.range' 97 26 ++ List.range' 48 10 ++ [43, 47]).map UInt8.ofNat := by
  decide

def standardAlphabet : Alphabet where
  symbol n := base64Symbols.getD n 0
  value := base64Value
  pad := 61
  value_eq_some s n := by
    rw [base64Symbols_eq]
    have hback : ∀ n < 64, base64Value (((List.range' 65 26 ++ List.range' 97 26 ++
        List.range' 48 10 ++ [43, 47]).map UInt8.ofNat).getD n 0) = some n := by decide
    have hforth := forall_byte (p := fun s => ((base64Value s).all fun n => n < 64 &&
      s == ((List.range' 65 26 ++ List.range' 97 26 ++ List.range' 48 10 ++
        [43, 47]).map UInt8.ofNat).getD n 0) = true) (by decide +kernel) s
    constructor
    · intro h
      rw [h] at hforth
      simpa using hforth
    · rintro ⟨hn, rfl⟩
      exact hback n hn
  value_pad := by decide

theorem sextet_eq (symbol : UInt8) : Embeddings.sextet symbol = base64Value symbol :=
  forall_byte (p := fun symbol => Embeddings.sextet symbol = base64Value symbol)
    (by decide +kernel) symbol

theorem standard_sextet_eq (symbol : UInt8) :
    Conformance.Base64.Alphabet.standard.sextet symbol = base64Value symbol := by
  rw [Conformance.Base64.Alphabet.sextet,
    show Conformance.Base64.Alphabet.standard.symbols = base64Symbols from rfl, base64Symbols_eq]
  exact forall_byte (p := fun symbol => ((List.range' 65 26 ++ List.range' 97 26 ++
    List.range' 48 10 ++ [43, 47]).map UInt8.ofNat).idxOf? symbol = base64Value symbol)
    (by decide +kernel) symbol

/-! ## Encoders -/

theorem or_eq_add {high low rest : Nat} (h : low < 2 ^ rest) :
    high * 2 ^ rest ||| low = high * 2 ^ rest + low := by
  rw [Nat.mul_comm, Nat.two_pow_add_eq_or_of_lt h]

theorem groupOf_one (a : UInt8) : groupOf [a] = a.toNat * 65536 := by
  simp [groupOf, Nat.shiftLeft_eq]

theorem groupOf_two (a b : UInt8) : groupOf [a, b] = a.toNat * 65536 + b.toNat * 256 := by
  have hb := b.toNat_lt
  have hor := @or_eq_add a.toNat (b.toNat * 256) 16 (by omega)
  simpa [groupOf, Nat.shiftLeft_eq] using hor

theorem groupOf_three (a b c : UInt8) :
    groupOf [a, b, c] = a.toNat * 65536 + b.toNat * 256 + c.toNat := by
  have hc := c.toNat_lt
  have hor := @or_eq_add (a.toNat * 256 + b.toNat) c.toNat 8 hc
  have hgroup : groupOf [a, b, c] = groupOf [a, b] ||| c.toNat := by
    simp [groupOf, Nat.shiftLeft_eq]
  rw [hgroup, groupOf_two]
  have hmul : a.toNat * 65536 + b.toNat * 256 = (a.toNat * 256 + b.toNat) * 2 ^ 8 := by ring
  rw [hmul, hor]

theorem symbolAt_eq (group : Nat) (index : Nat) :
    symbolAt base64Symbols group index =
      charFrom (standardAlphabet.symbol (group / 2 ^ (18 - 6 * index) % 64)) := by
  rw [symbolAt, Nat.shiftRight_eq_div_pow, show (0x3f : Nat) = 2 ^ 6 - 1 from rfl,
    Nat.and_two_pow_sub_one_eq_mod]
  rfl

theorem utf8_symbol {n : Nat} (h : n < 64) :
    String.utf8EncodeChar (charFrom (standardAlphabet.symbol n)) = [standardAlphabet.symbol n] := by
  have hall : ∀ n < 64, String.utf8EncodeChar (charFrom (((List.range' 65 26 ++
      List.range' 97 26 ++ List.range' 48 10 ++ [43, 47]).map UInt8.ofNat).getD n 0)) =
      [((List.range' 65 26 ++ List.range' 97 26 ++ List.range' 48 10 ++
        [43, 47]).map UInt8.ofNat).getD n 0] := by decide
  rw [← base64Symbols_eq] at hall
  exact hall n h

/-- The four characters written for a slice. -/
def written (chunk : List UInt8) : List Char :=
  (List.range 4).map fun index =>
    if index ≤ chunk.length then symbolAt base64Symbols (groupOf chunk) index else '='

theorem utf8_symbolAt (group index : Nat) :
    String.utf8EncodeChar (symbolAt base64Symbols group index) =
      [standardAlphabet.symbol (group / 2 ^ (18 - 6 * index) % 64)] := by
  rw [symbolAt_eq]
  exact utf8_symbol (Nat.mod_lt _ (by decide))

theorem utf8_equals : String.utf8EncodeChar '=' = [standardAlphabet.pad] := by decide

theorem bytes_written {chunk : List UInt8} (hne : chunk ≠ []) (hle : chunk.length ≤ 3) :
    (written chunk).flatMap String.utf8EncodeChar = standardAlphabet.spell chunk := by
  match chunk, hne, hle with
  | [a], _, _ =>
      have ha := a.toNat_lt
      have hfirst : a.toNat * 65536 / 262144 % 64 = a.toNat / 4 := by omega
      have hsecond : a.toNat * 65536 / 4096 % 64 = a.toNat % 4 * 16 := by omega
      rw [show written [a] = [symbolAt base64Symbols (groupOf [a]) 0,
        symbolAt base64Symbols (groupOf [a]) 1, '=', '='] from rfl]
      simp only [List.flatMap_cons, List.flatMap_nil, utf8_symbolAt, utf8_equals, groupOf_one,
        Nat.reduceMul, Nat.reduceSub, Nat.reducePow, hfirst, hsecond]
      rfl
  | [a, b], _, _ =>
      have ha := a.toNat_lt
      have hb := b.toNat_lt
      have hfirst : (a.toNat * 65536 + b.toNat * 256) / 262144 % 64 = a.toNat / 4 := by omega
      have hsecond : (a.toNat * 65536 + b.toNat * 256) / 4096 % 64 =
          a.toNat % 4 * 16 + b.toNat / 16 := by omega
      have hthird : (a.toNat * 65536 + b.toNat * 256) / 64 % 64 = b.toNat % 16 * 4 := by omega
      rw [show written [a, b] = [symbolAt base64Symbols (groupOf [a, b]) 0,
        symbolAt base64Symbols (groupOf [a, b]) 1, symbolAt base64Symbols (groupOf [a, b]) 2,
        '='] from rfl]
      simp only [List.flatMap_cons, List.flatMap_nil, utf8_symbolAt, utf8_equals, groupOf_two,
        Nat.reduceMul, Nat.reduceSub, Nat.reducePow, hfirst, hsecond, hthird]
      rfl
  | [a, b, c], _, _ =>
      have ha := a.toNat_lt
      have hb := b.toNat_lt
      have hc := c.toNat_lt
      have hfirst : (a.toNat * 65536 + b.toNat * 256 + c.toNat) / 262144 % 64 = a.toNat / 4 := by
        omega
      have hsecond : (a.toNat * 65536 + b.toNat * 256 + c.toNat) / 4096 % 64 =
          a.toNat % 4 * 16 + b.toNat / 16 := by omega
      have hthird : (a.toNat * 65536 + b.toNat * 256 + c.toNat) / 64 % 64 =
          b.toNat % 16 * 4 + c.toNat / 64 := by omega
      have hfourth : (a.toNat * 65536 + b.toNat * 256 + c.toNat) / 1 % 64 = c.toNat % 64 := by
        omega
      rw [show written [a, b, c] = [symbolAt base64Symbols (groupOf [a, b, c]) 0,
        symbolAt base64Symbols (groupOf [a, b, c]) 1, symbolAt base64Symbols (groupOf [a, b, c]) 2,
        symbolAt base64Symbols (groupOf [a, b, c]) 3] from rfl]
      simp only [List.flatMap_cons, List.flatMap_nil, utf8_symbolAt, groupOf_three,
        Nat.reduceMul, Nat.reduceSub, Nat.reducePow, hfirst, hsecond, hthird, hfourth]
      simp [Alphabet.spell, Alphabet.symbols]

/-- The contract's encoder writes the spelling. -/
theorem bytes_encodeBase64 (data : List UInt8) :
    bytes (encodeBase64 data) = standardAlphabet.spell data := by
  have hchunks : ((chunks data).flatMap written).flatMap String.utf8EncodeChar =
      standardAlphabet.spell data := by
    fun_induction chunks data with
    | case1 => rfl
    | case2 a => simpa using bytes_written (List.cons_ne_nil a []) (by simp)
    | case3 a b => simpa using bytes_written (List.cons_ne_nil a [b]) (by simp)
    | case4 a b c rest ih =>
        rw [List.flatMap_cons, List.flatMap_append, ih,
          bytes_written (List.cons_ne_nil a [b, c]) (by simp), ← Alphabet.spell_group _ rfl]
        rfl
  rw [encodeBase64, encodePadded, bytes_ofList]
  exact hchunks

theorem embeddings_encode_eq (data : List UInt8) :
    Embeddings.base64Encode data = encodeBase64 data := rfl

theorem chunks_length (data : List UInt8) : ∀ chunk ∈ chunks data, chunk ≠ [] ∧ chunk.length ≤ 3 := by
  fun_induction chunks data with
  | case1 => simp
  | case2 a => simp
  | case3 a b => simp
  | case4 a b c rest ih => simpa using ih

/-- The components write the pads after the symbols, the contract symbol by symbol. -/
theorem conformance_encode_eq (data : List UInt8) :
    Conformance.Base64.encode data .standard true = encodeBase64 data := by
  rw [Conformance.Base64.encode, encodeBase64, encodePadded]
  congr 1
  refine List.flatMap_congr fun chunk hchunk => ?_
  obtain ⟨hne, hle⟩ := chunks_length data chunk hchunk
  match chunk, hne, hle with
  | [a], _, _ => rfl
  | [a, b], _, _ => rfl
  | [a, b, c], _, _ => rfl

/-! ## Decoders by groups -/

/-- Sextets shifted into one word. -/
def word (values : List Nat) : Nat := values.foldl (fun value sextet => value <<< 6 ||| sextet) 0

theorem foldlM_word (value : UInt8 → Option Nat) (symbols : List UInt8) :
    symbols.foldlM (fun word symbol => (value symbol).map (word <<< 6 ||| ·)) 0 =
      (symbols.mapM value).map word := by
  have hfrom : ∀ start, symbols.foldlM
      (fun word symbol => (value symbol).map (word <<< 6 ||| ·)) start =
      (symbols.mapM value).map (List.foldl (fun word sextet => word <<< 6 ||| sextet) start) := by
    intro start
    induction symbols generalizing start with
    | nil => rfl
    | cons symbol symbols ih =>
        rw [List.foldlM_cons, List.mapM_cons]
        cases value symbol with
        | none => rfl
        | some sextet =>
            rw [Option.map_some, Option.bind_eq_bind, Option.bind_some, ih]
            cases symbols.mapM value <;> rfl
  exact hfrom 0

theorem word_two {a b : Nat} (hb : b < 64) : word [a, b] = a * 64 + b := by
  simpa [word, Nat.shiftLeft_eq] using @or_eq_add a b 6 hb

theorem word_snoc (values : List Nat) {last : Nat} (h : last < 64) :
    word (values ++ [last]) = word values * 64 + last := by
  rw [word, List.foldl_append, List.foldl_cons, List.foldl_nil, Nat.shiftLeft_eq]
  exact @or_eq_add _ last 6 h

theorem word_three {a b c : Nat} (hb : b < 64) (hc : c < 64) :
    word [a, b, c] = (a * 64 + b) * 64 + c := by
  rw [← word_two hb]
  exact word_snoc [a, b] hc

theorem word_four {a b c d : Nat} (hb : b < 64) (hc : c < 64) (hd : d < 64) :
    word [a, b, c, d] = ((a * 64 + b) * 64 + c) * 64 + d := by
  rw [← word_three hb hc]
  exact word_snoc [a, b, c] hd

theorem ofNat_congr {n m : Nat} (h : n % 256 = m % 256) : UInt8.ofNat n = UInt8.ofNat m := by
  rw [← UInt8.toNat_inj, UInt8.toNat_ofNat', UInt8.toNat_ofNat']
  exact h

theorem base64Value_lt {symbol : UInt8} {n : Nat} (h : base64Value symbol = some n) : n < 64 :=
  ((standardAlphabet.value_eq_some symbol n).mp h).1

theorem paddingOf_none {w x y z : UInt8} (hz : z ≠ 61) : paddingOf [w, x, y, z] = 0 := by
  simp [paddingOf, hz]

theorem paddingOf_one {w x y : UInt8} (hy : y ≠ 61) : paddingOf [w, x, y, 61] = 1 := by
  simp [paddingOf, hy]

theorem paddingOf_two {w x : UInt8} (hx : x ≠ 61) : paddingOf [w, x, 61, 61] = 2 := by
  simp [paddingOf, hx]

theorem two_lt_paddingOf (w : UInt8) : paddingOf [w, 61, 61, 61] > 2 := by
  by_cases hw : w = 61 <;> simp [paddingOf, hw]

theorem shift_mask (value shift : Nat) :
    UInt8.ofNat (value >>> shift &&& 0xff) = UInt8.ofNat (value / 2 ^ shift) := by
  refine ofNat_congr ?_
  rw [show (0xff : Nat) = 2 ^ 8 - 1 from rfl, Nat.and_two_pow_sub_one_eq_mod,
    Nat.shiftRight_eq_div_pow]
  exact Nat.mod_mod _ _

/-- What a group's word gives, by the number of pads. -/
def finish (padding value : Nat) : Option (List UInt8) :=
  if padding = 0 then some [.ofNat (value / 65536), .ofNat (value / 256), .ofNat value]
  else if padding = 1 then
    if value % 256 = 0 then some [.ofNat (value / 65536), .ofNat (value / 256)] else none
  else if value % 65536 = 0 then some [.ofNat (value / 65536)] else none

theorem decodeGroup_eq {last : Bool} {group : List UInt8} {padding : Nat}
    (hpadding : paddingOf group = padding) (hle : padding ≤ 2)
    (hlast : padding > 0 → last = true) :
    decodeGroup last group = ((group.take (4 - padding)).mapM base64Value).bind fun values =>
      finish padding (word values * 64 ^ padding) := by
  have hguard : (decide (padding > 2) || decide (padding > 0) && !last) = false := by
    rcases Nat.eq_zero_or_pos padding with h | h
    · simp [h]
    · simp [hlast h]
      omega
  rw [decodeGroup, hpadding]
  simp only [hguard, Bool.false_eq_true, if_false, foldlM_word, Option.bind_eq_bind,
    Option.bind_map]
  refine Option.bind_congr fun values _ => ?_
  rw [Function.comp_apply, Nat.shiftLeft_eq, Nat.pow_mul, show (2 : Nat) ^ 6 = 64 from rfl]
  generalize word values * 64 ^ padding = value
  have hcases : padding = 0 ∨ padding = 1 ∨ padding = 2 := by omega
  simp only [shift_mask]
  rcases hcases with rfl | rfl | rfl
  · simp [finish, List.range_succ]
  · have hmask : value &&& 255 = value % 256 := Nat.and_two_pow_sub_one_eq_mod value 8
    by_cases hzero : value % 256 = 0 <;>
      simp [finish, List.range_succ, hmask, hzero, Nat.shiftLeft_eq]
  · have hmask : value &&& 65535 = value % 65536 := Nat.and_two_pow_sub_one_eq_mod value 16
    by_cases hzero : value % 65536 = 0 <;>
      simp [finish, List.range_succ, hmask, hzero, Nat.shiftLeft_eq]

theorem decodeGroup_reads : ReadsGroup standardAlphabet decodeGroup := by
  refine readsGroup_of ?_ ?_ ?_ ?_
  · intro last w x y z hz
    rw [decodeGroup_eq (paddingOf_none hz) (by decide) (fun h => absurd h (by decide))]
    simp only [Nat.sub_zero, List.take_succ_cons, List.take_zero, List.mapM_cons, List.mapM_nil,
      Option.bind_eq_bind, Option.pure_def, Option.bind_assoc, Option.bind_some]
    refine Option.bind_congr fun a ha => Option.bind_congr fun b hb => Option.bind_congr fun c hc =>
      Option.bind_congr fun d hd => ?_
    rw [word_four (base64Value_lt hb) (base64Value_lt hc) (base64Value_lt hd)]
    have ha := base64Value_lt ha
    have hb := base64Value_lt hb
    have hc := base64Value_lt hc
    have hd := base64Value_lt hd
    rw [finish, if_pos rfl, threeBytes]
    refine congrArg some (List.cons_eq_cons.mpr ⟨ofNat_congr (by omega), List.cons_eq_cons.mpr
      ⟨ofNat_congr (by omega), List.cons_eq_cons.mpr ⟨ofNat_congr (by omega), rfl⟩⟩⟩)
  · intro last w x y hy
    cases last with
    | false => simp [decodeGroup, paddingOf_one hy, show standardAlphabet.pad = 61 from rfl]
    | true =>
        rw [show standardAlphabet.pad = 61 from rfl,
          decodeGroup_eq (paddingOf_one hy) (by decide) (fun _ => rfl), if_pos rfl]
        simp only [Nat.reduceSub, List.take_succ_cons, List.take_zero, List.mapM_cons,
          List.mapM_nil, Option.bind_eq_bind, Option.pure_def, Option.bind_assoc, Option.bind_some]
        refine Option.bind_congr fun a ha => Option.bind_congr fun b hb =>
          Option.bind_congr fun c hc => ?_
        rw [word_three (base64Value_lt hb) (base64Value_lt hc)]
        have ha := base64Value_lt ha
        have hb := base64Value_lt hb
        have hc := base64Value_lt hc
        have hzero : ((a * 64 + b) * 64 + c) * 64 ^ 1 % 256 = 0 ↔ c % 4 = 0 := by omega
        rw [finish, if_neg (by decide), if_pos rfl, threeBytes]
        simp only [hzero, List.take_succ_cons, List.take_zero]
        split
        · refine congrArg some (List.cons_eq_cons.mpr ⟨ofNat_congr (by omega),
            List.cons_eq_cons.mpr ⟨ofNat_congr (by omega), rfl⟩⟩)
        · rfl
  · intro last w x hx
    cases last with
    | false => simp [decodeGroup, paddingOf_two hx, show standardAlphabet.pad = 61 from rfl]
    | true =>
        rw [show standardAlphabet.pad = 61 from rfl,
          decodeGroup_eq (paddingOf_two hx) (by decide) (fun _ => rfl), if_pos rfl]
        simp only [Nat.reduceSub, List.take_succ_cons, List.take_zero, List.mapM_cons,
          List.mapM_nil, Option.bind_eq_bind, Option.pure_def, Option.bind_assoc, Option.bind_some]
        refine Option.bind_congr fun a ha => Option.bind_congr fun b hb => ?_
        rw [word_two (base64Value_lt hb)]
        have ha := base64Value_lt ha
        have hb := base64Value_lt hb
        have hzero : (a * 64 + b) * 64 ^ 2 % 65536 = 0 ↔ b % 16 = 0 := by omega
        rw [finish, if_neg (by decide), if_neg (by decide), threeBytes]
        simp only [hzero, List.take_succ_cons, List.take_zero]
        split
        · exact congrArg some (List.cons_eq_cons.mpr ⟨ofNat_congr (by omega), rfl⟩)
        · rfl
  · intro last w
    have hpads := two_lt_paddingOf w
    rw [show standardAlphabet.pad = 61 from rfl, decodeGroup]
    simp [hpads]

/-- The contract accepts spellings, and nothing else. -/
theorem decodeBase64_iff (text : String) (data : List UInt8) :
    decodeBase64 text = .ok data ↔ bytes text = standardAlphabet.spell data := by
  rw [decodeBase64]
  by_cases hwhole : (bytes text).length % 4 = 0
  · rw [if_neg (by simpa using hwhole),
      ← readGroups_eq_some decodeGroup_reads hwhole (Nat.zero_add _)]
    cases readGroups decodeGroup ((bytes text).length / 4) 0 (chunksExact (bytes text)) <;> simp
  · rw [if_pos hwhole]
    refine ⟨(fun h => by cases h), fun h => absurd ?_ hwhole⟩
    rw [h, Alphabet.length_spell, Nat.mul_mod_left]

/-- A byte is zero exactly when the bits it is made of are. -/
theorem ofNat_eq_zero (n : Nat) : UInt8.ofNat n = 0 ↔ n % 256 = 0 := by
  rw [← UInt8.toNat_inj, UInt8.toNat_ofNat']
  rfl

/-- Looking at the bytes the padding leaves out is looking at the unused bits. -/
theorem decodeQuad_eq (last : Bool) (quad : List UInt8) :
    Embeddings.decodeQuad last quad = decodeGroup last quad := by
  by_cases hpads : paddingOf quad > 2
  · simp [Embeddings.decodeQuad, decodeGroup, hpads]
  · by_cases hlast : paddingOf quad > 0 → last = true
    · rw [decodeGroup_eq rfl (by omega) hlast]
      have hguard : (decide (paddingOf quad > 2) || decide (paddingOf quad > 0) && !last) =
          false := by
        rcases Nat.eq_zero_or_pos (paddingOf quad) with h | h
        · simp [h]
        · simp [hlast h]
          omega
      rw [Embeddings.decodeQuad]
      simp only [hguard, Bool.false_eq_true, if_false, foldlM_word, Option.bind_eq_bind,
        Option.bind_map, funext sextet_eq]
      refine Option.bind_congr fun values _ => ?_
      rw [Function.comp_apply, Nat.shiftLeft_eq, Nat.pow_mul, show (2 : Nat) ^ 6 = 64 from rfl]
      generalize word values * 64 ^ paddingOf quad = value
      have hcases : paddingOf quad = 0 ∨ paddingOf quad = 1 ∨ paddingOf quad = 2 := by omega
      rcases hcases with h | h | h
      · simp [h, finish, Embeddings.lowBytes, Nat.shiftRight_eq_div_pow]
      · by_cases hzero : value % 256 = 0 <;>
          simp [h, finish, Embeddings.lowBytes, Nat.shiftRight_eq_div_pow, ofNat_eq_zero, hzero]
      · have hboth : value / 256 % 256 = 0 ∧ value % 256 = 0 ↔ value % 65536 = 0 := by omega
        by_cases hzero : value % 65536 = 0 <;>
          simp [h, finish, Embeddings.lowBytes, Nat.shiftRight_eq_div_pow, ofNat_eq_zero, hboth,
            hzero]
    · obtain ⟨hpos, hopen⟩ : paddingOf quad > 0 ∧ ¬last = true := by
        simpa using hlast
      simp [Embeddings.decodeQuad, decodeGroup, hpos, hopen]

theorem base64Decode_iff (text : String) (data : List UInt8) :
    Embeddings.base64Decode text = some data ↔ bytes text = standardAlphabet.spell data := by
  rw [← decodeBase64_iff, Embeddings.base64Decode, decodeBase64, funext₂ decodeQuad_eq]
  split
  · simp
  · cases readGroups decodeGroup ((bytes text).length / 4) 0 (chunksExact (bytes text)) <;> simp

end TokenStation.Media
