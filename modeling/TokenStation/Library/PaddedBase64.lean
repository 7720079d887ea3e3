import Mathlib

/-!
# Padded base64

Three bytes are four symbols of six bits; one or two bytes at the end are filled up with a
pad that is no symbol. Every byte string has one spelling, and a strict decoder accepts
spellings only.
-/

namespace TokenStation.Library.PaddedBase64

/-- Sixty-four symbols, and a pad that is none of them. -/
structure Alphabet where
  symbol : Nat → UInt8
  value : UInt8 → Option Nat
  pad : UInt8
  value_eq_some : ∀ s n, value s = some n ↔ n < 64 ∧ s = symbol n
  value_pad : value pad = none

variable (A : Alphabet)

namespace Alphabet

theorem value_symbol {n : Nat} (h : n < 64) : A.value (A.symbol n) = some n :=
  (A.value_eq_some _ n).mpr ⟨h, rfl⟩

theorem symbol_ne_pad {n : Nat} (h : n < 64) : A.symbol n ≠ A.pad := by
  intro heq
  have hvalue := A.value_symbol h
  rw [heq, A.value_pad] at hvalue
  cases hvalue

/-- The symbols of some bytes, without padding. -/
def symbols : List UInt8 → List UInt8
  | [] => []
  | [a] => [A.symbol (a.toNat / 4), A.symbol (a.toNat % 4 * 16)]
  | [a, b] =>
      [A.symbol (a.toNat / 4), A.symbol (a.toNat % 4 * 16 + b.toNat / 16),
        A.symbol (b.toNat % 16 * 4)]
  | a :: b :: c :: rest =>
      A.symbol (a.toNat / 4) :: A.symbol (a.toNat % 4 * 16 + b.toNat / 16) ::
        A.symbol (b.toNat % 16 * 4 + c.toNat / 64) :: A.symbol (c.toNat % 64) :: symbols rest

/-- The spelling of some bytes. -/
def spell (data : List UInt8) : List UInt8 :=
  A.symbols data ++ List.replicate ((3 - data.length % 3) % 3) A.pad

theorem spell_group {chunk rest : List UInt8} (h : chunk.length = 3) :
    A.spell (chunk ++ rest) = A.spell chunk ++ A.spell rest := by
  obtain ⟨a, b, c, rfl⟩ := List.length_eq_three.mp h
  have hpads : (3 - (rest.length + 1 + 1 + 1) % 3) % 3 = (3 - rest.length % 3) % 3 := by omega
  simp [spell, symbols, hpads]

theorem pad_not_mem_symbols (data : List UInt8) : A.pad ∉ A.symbols data := by
  fun_induction symbols A data with
  | case1 => simp
  | case2 a =>
      have ha := a.toNat_lt
      simp [(A.symbol_ne_pad (show a.toNat / 4 < 64 by omega)).symm,
        (A.symbol_ne_pad (show a.toNat % 4 * 16 < 64 by omega)).symm]
  | case3 a b =>
      have ha := a.toNat_lt
      have hb := b.toNat_lt
      simp [(A.symbol_ne_pad (show a.toNat / 4 < 64 by omega)).symm,
        (A.symbol_ne_pad (show a.toNat % 4 * 16 + b.toNat / 16 < 64 by omega)).symm,
        (A.symbol_ne_pad (show b.toNat % 16 * 4 < 64 by omega)).symm]
  | case4 a b c rest ih =>
      have ha := a.toNat_lt
      have hb := b.toNat_lt
      have hc := c.toNat_lt
      simp [(A.symbol_ne_pad (show a.toNat / 4 < 64 by omega)).symm,
        (A.symbol_ne_pad (show a.toNat % 4 * 16 + b.toNat / 16 < 64 by omega)).symm,
        (A.symbol_ne_pad (show b.toNat % 16 * 4 + c.toNat / 64 < 64 by omega)).symm,
        (A.symbol_ne_pad (show c.toNat % 64 < 64 by omega)).symm, ih]

theorem length_symbols (data : List UInt8) :
    (A.symbols data).length = (4 * data.length + 2) / 3 := by
  fun_induction symbols A data with
  | case1 => rfl
  | case2 => simp
  | case3 => simp
  | case4 a b c rest ih =>
      simp only [List.length_cons, ih]
      omega

theorem length_spell (data : List UInt8) : (A.spell data).length = (data.length + 2) / 3 * 4 := by
  rw [spell, List.length_append, length_symbols, List.length_replicate]
  omega

end Alphabet

/-! ## Groups -/

/-- The bytes of four sextets. -/
def threeBytes (a b c d : Nat) : List UInt8 :=
  [.ofNat (a * 4 + b / 16), .ofNat (b % 16 * 16 + c / 4), .ofNat (c % 4 * 64 + d)]

/-- A reader of single groups, told whether a group is the last one, that accepts the
spelling of one to three bytes, and of fewer than three only at the end. -/
def ReadsGroup (read : Bool → List UInt8 → Option (List UInt8)) : Prop :=
  ∀ last w x y z out, read last [w, x, y, z] = some out ↔
    out ≠ [] ∧ out.length ≤ 3 ∧ [w, x, y, z] = A.spell out ∧ (out.length < 3 → last = true)

variable {A}

theorem three_bytes_iff {w x y z : UInt8} {out : List UInt8} :
    (∃ a b c d, A.value w = some a ∧ A.value x = some b ∧ A.value y = some c ∧
      A.value z = some d ∧ out = threeBytes a b c d) ↔
    out.length = 3 ∧ [w, x, y, z] = A.spell out := by
  constructor
  · rintro ⟨a, b, c, d, ha, hb, hc, hd, rfl⟩
    rw [A.value_eq_some] at ha hb hc hd
    obtain ⟨ha, rfl⟩ := ha
    obtain ⟨hb, rfl⟩ := hb
    obtain ⟨hc, rfl⟩ := hc
    obtain ⟨hd, rfl⟩ := hd
    have hfirst : (a * 4 + b / 16) % 256 / 4 = a := by omega
    have hsecond : (a * 4 + b / 16) % 256 % 4 * 16 + (b % 16 * 16 + c / 4) % 256 / 16 = b := by
      omega
    have hthird : (b % 16 * 16 + c / 4) % 256 % 16 * 4 + (c % 4 * 64 + d) % 256 / 64 = c := by
      omega
    have hfourth : (c % 4 * 64 + d) % 256 % 64 = d := by omega
    simp only [threeBytes, Alphabet.spell, Alphabet.symbols, UInt8.toNat_ofNat', Nat.reducePow,
      hfirst, hsecond, hthird, hfourth, List.length_cons, List.length_nil, Nat.reduceAdd,
      Nat.mod_self, Nat.sub_zero, List.replicate_zero, List.append_nil, and_self]
  · rintro ⟨hlength, hspell⟩
    obtain ⟨p, q, r, rfl⟩ := List.length_eq_three.mp hlength
    have hp := p.toNat_lt
    have hq := q.toNat_lt
    have hr := r.toNat_lt
    simp only [Alphabet.spell, Alphabet.symbols, List.length_cons, List.length_nil,
      List.cons_append, List.nil_append, List.cons.injEq] at hspell
    obtain ⟨rfl, rfl, rfl, rfl, -⟩ := hspell
    refine ⟨_, _, _, _, A.value_symbol (by omega), A.value_symbol (by omega),
      A.value_symbol (by omega), A.value_symbol (by omega), ?_⟩
    have hfirst : p.toNat / 4 * 4 + (p.toNat % 4 * 16 + q.toNat / 16) / 16 = p.toNat := by omega
    have hsecond : (p.toNat % 4 * 16 + q.toNat / 16) % 16 * 16 +
        (q.toNat % 16 * 4 + r.toNat / 64) / 4 = q.toNat := by omega
    have hthird : (q.toNat % 16 * 4 + r.toNat / 64) % 4 * 64 + r.toNat % 64 = r.toNat := by omega
    simp only [threeBytes, hfirst, hsecond, hthird, UInt8.ofNat_toNat]

theorem two_bytes_iff {w x y : UInt8} {out : List UInt8} :
    (∃ a b c, A.value w = some a ∧ A.value x = some b ∧ A.value y = some c ∧ c % 4 = 0 ∧
      out = (threeBytes a b c 0).take 2) ↔
    out.length = 2 ∧ [w, x, y, A.pad] = A.spell out := by
  constructor
  · rintro ⟨a, b, c, ha, hb, hc, hzero, rfl⟩
    rw [A.value_eq_some] at ha hb hc
    obtain ⟨ha, rfl⟩ := ha
    obtain ⟨hb, rfl⟩ := hb
    obtain ⟨hc, rfl⟩ := hc
    have hfirst : (a * 4 + b / 16) % 256 / 4 = a := by omega
    have hsecond : (a * 4 + b / 16) % 256 % 4 * 16 + (b % 16 * 16 + c / 4) % 256 / 16 = b := by
      omega
    have hthird : (b % 16 * 16 + c / 4) % 256 % 16 * 4 = c := by omega
    simp only [threeBytes, Alphabet.spell, Alphabet.symbols, UInt8.toNat_ofNat', Nat.reducePow,
      hfirst, hsecond, hthird, List.take_succ_cons, List.take_zero, List.length_cons,
      List.length_nil, Nat.reduceAdd, Nat.reduceMod, Nat.reduceSub, List.replicate_succ,
      List.replicate_zero, List.cons_append, List.nil_append, and_self]
  · rintro ⟨hlength, hspell⟩
    obtain ⟨p, q, rfl⟩ := List.length_eq_two.mp hlength
    have hp := p.toNat_lt
    have hq := q.toNat_lt
    simp only [Alphabet.spell, Alphabet.symbols, List.length_cons, List.length_nil,
      List.cons_append, List.nil_append, List.cons.injEq] at hspell
    obtain ⟨rfl, rfl, rfl, -⟩ := hspell
    refine ⟨_, _, _, A.value_symbol (by omega), A.value_symbol (by omega),
      A.value_symbol (by omega), by omega, ?_⟩
    have hfirst : p.toNat / 4 * 4 + (p.toNat % 4 * 16 + q.toNat / 16) / 16 = p.toNat := by omega
    have hsecond : (p.toNat % 4 * 16 + q.toNat / 16) % 16 * 16 + q.toNat % 16 * 4 / 4 =
        q.toNat := by omega
    simp only [threeBytes, List.take_succ_cons, List.take_zero, hfirst, hsecond, UInt8.ofNat_toNat]

theorem one_byte_iff {w x : UInt8} {out : List UInt8} :
    (∃ a b, A.value w = some a ∧ A.value x = some b ∧ b % 16 = 0 ∧
      out = (threeBytes a b 0 0).take 1) ↔
    out.length = 1 ∧ [w, x, A.pad, A.pad] = A.spell out := by
  constructor
  · rintro ⟨a, b, ha, hb, hzero, rfl⟩
    rw [A.value_eq_some] at ha hb
    obtain ⟨ha, rfl⟩ := ha
    obtain ⟨hb, rfl⟩ := hb
    have hfirst : (a * 4 + b / 16) % 256 / 4 = a := by omega
    have hsecond : (a * 4 + b / 16) % 256 % 4 * 16 = b := by omega
    simp only [threeBytes, Alphabet.spell, Alphabet.symbols, UInt8.toNat_ofNat', Nat.reducePow,
      hfirst, hsecond, List.take_succ_cons, List.take_zero, List.length_cons, List.length_nil,
      Nat.reduceAdd, Nat.reduceMod, Nat.reduceSub, List.replicate_succ, List.replicate_zero,
      List.cons_append, List.nil_append, and_self]
  · rintro ⟨hlength, hspell⟩
    obtain ⟨p, rfl⟩ := List.length_eq_one_iff.mp hlength
    have hp := p.toNat_lt
    simp only [Alphabet.spell, Alphabet.symbols, List.length_cons, List.length_nil,
      List.cons_append, List.nil_append, List.cons.injEq] at hspell
    obtain ⟨rfl, rfl, -⟩ := hspell
    refine ⟨_, _, A.value_symbol (by omega), A.value_symbol (by omega), by omega, ?_⟩
    have hfirst : p.toNat / 4 * 4 + p.toNat % 4 * 16 / 16 = p.toNat := by omega
    simp only [threeBytes, List.take_succ_cons, List.take_zero, hfirst, UInt8.ofNat_toNat]

theorem symbols_two_iff {w x : UInt8} {data : List UInt8} : [w, x] = A.symbols data ↔
    data.length = 1 ∧ [w, x, A.pad, A.pad] = A.spell data := by
  constructor
  · intro h
    have hlength := congrArg List.length h
    rw [A.length_symbols] at hlength
    have hone : data.length = 1 := by
      simp only [List.length_cons, List.length_nil] at hlength
      omega
    refine ⟨hone, ?_⟩
    rw [Alphabet.spell, ← h, hone]
    rfl
  · rintro ⟨hone, h⟩
    rw [Alphabet.spell, hone] at h
    exact (List.append_inj' (show [w, x] ++ [A.pad, A.pad] = _ from h) rfl).1

theorem symbols_three_iff {w x y : UInt8} {data : List UInt8} : [w, x, y] = A.symbols data ↔
    data.length = 2 ∧ [w, x, y, A.pad] = A.spell data := by
  constructor
  · intro h
    have hlength := congrArg List.length h
    rw [A.length_symbols] at hlength
    have htwo : data.length = 2 := by
      simp only [List.length_cons, List.length_nil] at hlength
      omega
    refine ⟨htwo, ?_⟩
    rw [Alphabet.spell, ← h, htwo]
    rfl
  · rintro ⟨htwo, h⟩
    rw [Alphabet.spell, htwo] at h
    exact (List.append_inj' (show [w, x, y] ++ [A.pad] = _ from h) rfl).1

/-- Four symbols and more are three bytes and what the rest spells. -/
theorem symbols_four_iff {w x y z : UInt8} {rest data : List UInt8} :
    w :: x :: y :: z :: rest = A.symbols data ↔
      ∃ chunk more, chunk.length = 3 ∧ [w, x, y, z] = A.spell chunk ∧ rest = A.symbols more ∧
        data = chunk ++ more := by
  constructor
  · intro h
    have hlength := congrArg List.length h
    rw [A.length_symbols] at hlength
    simp only [List.length_cons] at hlength
    match data with
    | [] | [_] | [_, _] => simp at hlength
    | a :: b :: c :: more =>
        rw [Alphabet.symbols] at h
        simp only [List.cons.injEq] at h
        obtain ⟨rfl, rfl, rfl, rfl, rfl⟩ := h
        exact ⟨[a, b, c], more, rfl, by simp [Alphabet.spell, Alphabet.symbols], rfl, rfl⟩
  · rintro ⟨chunk, more, hchunk, hspell, rfl, rfl⟩
    obtain ⟨a, b, c, rfl⟩ := List.length_eq_three.mp hchunk
    simp only [Alphabet.spell, Alphabet.symbols, List.length_cons, List.length_nil,
      List.cons_append, List.nil_append, List.cons.injEq] at hspell
    obtain ⟨rfl, rfl, rfl, rfl, -⟩ := hspell
    rw [List.cons_append, List.cons_append, List.cons_append, List.nil_append, Alphabet.symbols]

/-- The pads of a group tell how many bytes it spells. -/
theorem spell_pads {w x y z : UInt8} {out : List UInt8} (hne : out ≠ []) (hle : out.length ≤ 3)
    (h : [w, x, y, z] = A.spell out) :
    out.length = 1 ∧ x ≠ A.pad ∧ y = A.pad ∧ z = A.pad ∨
      out.length = 2 ∧ y ≠ A.pad ∧ z = A.pad ∨ out.length = 3 ∧ z ≠ A.pad := by
  match out, hne, hle with
  | [a], _, _ =>
      have ha := a.toNat_lt
      left
      obtain ⟨-, rfl, rfl, rfl⟩ : w = _ ∧ x = _ ∧ y = _ ∧ z = _ := by
        simpa [Alphabet.spell, Alphabet.symbols, List.replicate] using h
      exact ⟨rfl, A.symbol_ne_pad (by omega), rfl, rfl⟩
  | [a, b], _, _ =>
      have hb := b.toNat_lt
      right; left
      obtain ⟨-, -, rfl, rfl⟩ : w = _ ∧ x = _ ∧ y = _ ∧ z = _ := by
        simpa [Alphabet.spell, Alphabet.symbols, List.replicate] using h
      exact ⟨rfl, A.symbol_ne_pad (by omega), rfl⟩
  | [a, b, c], _, _ =>
      right; right
      obtain ⟨-, -, -, rfl⟩ : w = _ ∧ x = _ ∧ y = _ ∧ z = _ := by
        simpa [Alphabet.spell, Alphabet.symbols] using h
      exact ⟨rfl, A.symbol_ne_pad (by omega)⟩

/-- A reader of groups is given by what it does with none, one, two and three pads. -/
theorem readsGroup_of {read : Bool → List UInt8 → Option (List UInt8)}
    (hfull : ∀ last w x y z, z ≠ A.pad → read last [w, x, y, z] = do
      let a ← A.value w
      let b ← A.value x
      let c ← A.value y
      let d ← A.value z
      some (threeBytes a b c d))
    (hone : ∀ last w x y, y ≠ A.pad → read last [w, x, y, A.pad] =
      if last then do
        let a ← A.value w
        let b ← A.value x
        let c ← A.value y
        if c % 4 = 0 then some ((threeBytes a b c 0).take 2) else none
      else none)
    (htwo : ∀ last w x, x ≠ A.pad → read last [w, x, A.pad, A.pad] =
      if last then do
        let a ← A.value w
        let b ← A.value x
        if b % 16 = 0 then some ((threeBytes a b 0 0).take 1) else none
      else none)
    (hthree : ∀ last w, read last [w, A.pad, A.pad, A.pad] = none) : ReadsGroup A read := by
  intro last w x y z out
  have hpads : ∀ h : out ≠ [] ∧ out.length ≤ 3 ∧ [w, x, y, z] = A.spell out ∧
      (out.length < 3 → last = true), _ := fun h => spell_pads h.1 h.2.1 h.2.2.1
  by_cases hz : z = A.pad
  · subst hz
    by_cases hy : y = A.pad
    · subst hy
      by_cases hx : x = A.pad
      · subst hx
        rw [hthree]
        refine ⟨(fun h => nomatch h), fun h => ?_⟩
        rcases hpads h with ⟨-, hx, -⟩ | ⟨-, hy, -⟩ | ⟨-, hz⟩
        · exact absurd rfl hx
        · exact absurd rfl hy
        · exact absurd rfl hz
      · rw [htwo last w x hx]
        have hread : (if last then do
            let a ← A.value w
            let b ← A.value x
            if b % 16 = 0 then some ((threeBytes a b 0 0).take 1) else none
          else none) = some out ↔ last = true ∧ out.length = 1 ∧
            [w, x, A.pad, A.pad] = A.spell out := by
          rw [← one_byte_iff]
          cases last <;> simp [Option.bind_eq_some_iff, exists_and_left, eq_comm (a := out)]
        rw [hread]
        constructor
        · rintro ⟨hlast, hlength, hspell⟩
          exact ⟨List.ne_nil_of_length_eq_add_one hlength, by omega, hspell, fun _ => hlast⟩
        · intro h
          rcases hpads h with ⟨hlength, -⟩ | ⟨-, hy, -⟩ | ⟨-, hz⟩
          · exact ⟨h.2.2.2 (by omega), hlength, h.2.2.1⟩
          · exact absurd rfl hy
          · exact absurd rfl hz
    · rw [hone last w x y hy]
      have hread : (if last then do
          let a ← A.value w
          let b ← A.value x
          let c ← A.value y
          if c % 4 = 0 then some ((threeBytes a b c 0).take 2) else none
        else none) = some out ↔ last = true ∧ out.length = 2 ∧
          [w, x, y, A.pad] = A.spell out := by
        rw [← two_bytes_iff]
        cases last <;> simp [Option.bind_eq_some_iff, exists_and_left, eq_comm (a := out)]
      rw [hread]
      constructor
      · rintro ⟨hlast, hlength, hspell⟩
        exact ⟨List.ne_nil_of_length_eq_add_one hlength, by omega, hspell, fun _ => hlast⟩
      · intro h
        rcases hpads h with ⟨-, -, hy', -⟩ | ⟨hlength, -⟩ | ⟨-, hz⟩
        · exact absurd hy' hy
        · exact ⟨h.2.2.2 (by omega), hlength, h.2.2.1⟩
        · exact absurd rfl hz
  · rw [hfull last w x y z hz]
    have hread : (do
        let a ← A.value w
        let b ← A.value x
        let c ← A.value y
        let d ← A.value z
        some (threeBytes a b c d)) = some out ↔ out.length = 3 ∧ [w, x, y, z] = A.spell out := by
      rw [← three_bytes_iff]
      simp [Option.bind_eq_some_iff, exists_and_left, eq_comm (a := out)]
    rw [hread]
    constructor
    · rintro ⟨hlength, hspell⟩
      exact ⟨List.ne_nil_of_length_eq_add_one hlength, by omega, hspell, fun h => by omega⟩
    · intro h
      rcases hpads h with ⟨-, -, -, hz'⟩ | ⟨-, -, hz'⟩ | ⟨hlength, -⟩
      · exact absurd hz' hz
      · exact absurd hz' hz
      · exact ⟨hlength, h.2.2.1⟩

/-! ## Texts -/

/-- The complete groups of four. -/
def chunksExact : List UInt8 → List (List UInt8)
  | w :: x :: y :: z :: rest => [w, x, y, z] :: chunksExact rest
  | _ => []

/-- Reads the groups in order, the reader told of each whether it is the last of all. -/
def readGroups (read : Bool → List UInt8 → Option (List UInt8)) (groups : Nat) :
    Nat → List (List UInt8) → Option (List UInt8)
  | _, [] => some []
  | index, group :: rest => do
      let bytes ← read (index + 1 == groups) group
      let more ← readGroups read groups (index + 1) rest
      return bytes ++ more

/-- A text of whole groups is read exactly when it is a spelling. -/
theorem readGroups_eq_some {read : Bool → List UInt8 → Option (List UInt8)}
    (hread : ReadsGroup A read) {text data : List UInt8} {index groups : Nat}
    (hwhole : text.length % 4 = 0) (hgroups : index + text.length / 4 = groups) :
    readGroups read groups index (chunksExact text) = some data ↔ text = A.spell data := by
  fun_induction chunksExact text generalizing index data with
  | case2 text hshort =>
      have hnil : text = [] := by
        match text with
        | [] => rfl
        | [_] | [_, _] | [_, _, _] => simp at hwhole
        | w :: x :: y :: z :: rest => exact absurd rfl (hshort w x y z rest)
      subst hnil
      rw [readGroups, Option.some.injEq]
      constructor
      · rintro rfl
        rfl
      · intro h
        have hlength := congrArg List.length h
        rw [A.length_spell, List.length_nil] at hlength
        exact (List.length_eq_zero_iff.mp (by omega)).symm
  | case1 w x y z rest ih =>
      have hrest : rest.length % 4 = 0 := by
        simp only [List.length_cons] at hwhole
        omega
      have hcount : index + 1 + rest.length / 4 = groups := by
        simp only [List.length_cons] at hgroups
        omega
      have hlast : (index + 1 == groups) = true ↔ rest = [] := by
        rw [beq_iff_eq, ← List.length_eq_zero_iff]
        omega
      have hcons : w :: x :: y :: z :: rest = [w, x, y, z] ++ rest := rfl
      simp only [readGroups, Option.bind_eq_bind, Option.bind_eq_some_iff, hread _ w x y z,
        ih hrest hcount, Option.pure_def, Option.some.injEq]
      constructor
      · rintro ⟨bytes, ⟨hne, hle, hspell, hshort⟩, more, rfl, rfl⟩
        by_cases hlength : bytes.length = 3
        · rw [A.spell_group hlength, ← hspell, hcons]
        · have hnil : A.spell more = [] := hlast.mp (hshort (by omega))
          have hmore : more = [] := by
            have hzero := congrArg List.length hnil
            rw [A.length_spell, List.length_nil] at hzero
            exact List.length_eq_zero_iff.mp (by omega)
          rw [hcons, hnil, hmore, List.append_nil, List.append_nil, hspell]
      · intro h
        have hne : data ≠ [] := by
          rintro rfl
          cases h
        by_cases hle : data.length ≤ 3
        · have hnil : rest = [] := by
            have hlength := congrArg List.length h
            rw [A.length_spell] at hlength
            simp only [List.length_cons] at hlength
            exact List.length_eq_zero_iff.mp (by omega)
          subst hnil
          exact ⟨data, ⟨hne, hle, h, fun _ => hlast.mpr rfl⟩, [], rfl, List.append_nil data⟩
        · have hchunk : (data.take 3).length = 3 := by simp; omega
          have hspell := @Alphabet.spell_group A (data.take 3) (data.drop 3) hchunk
          rw [List.take_append_drop, ← h, hcons] at hspell
          have hfour : (A.spell (data.take 3)).length = 4 := by rw [A.length_spell, hchunk]
          obtain ⟨hfirst, hafter⟩ := List.append_inj hspell (by rw [hfour]; rfl)
          refine ⟨data.take 3, ⟨?_, by omega, hfirst, fun h => by omega⟩, data.drop 3, hafter,
            List.take_append_drop 3 data⟩
          exact List.ne_nil_of_length_eq_add_one hchunk

end TokenStation.Library.PaddedBase64
