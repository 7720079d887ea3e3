import Mathlib

/-!
# Unpadded base64

The URL-safe alphabet, without padding and without stray bits after the last
byte. What was encoded decodes to itself, in letters of the alphabet only.
-/

namespace TokenStation.Library.Base64

/-- The letter of six bits. -/
def letter (n : Nat) : Char :=
  if n < 26 then Char.ofNat (65 + n)
  else if n < 52 then Char.ofNat (97 + (n - 26))
  else if n < 62 then Char.ofNat (48 + (n - 52))
  else if n = 62 then '-'
  else '_'

/-- The six bits of a letter. -/
def value (c : Char) : Option Nat :=
  let n := c.toNat
  if 65 ≤ n ∧ n ≤ 90 then some (n - 65)
  else if 97 ≤ n ∧ n ≤ 122 then some (n - 97 + 26)
  else if 48 ≤ n ∧ n ≤ 57 then some (n - 48 + 52)
  else if c = '-' then some 62
  else if c = '_' then some 63
  else none

/-- Three bytes become four letters; one or two at the end become two or three. -/
def encode : List UInt8 → List Char
  | [] => []
  | [a] => [letter (a.toNat / 4), letter (a.toNat % 4 * 16)]
  | [a, b] =>
      [letter (a.toNat / 4), letter (a.toNat % 4 * 16 + b.toNat / 16), letter (b.toNat % 16 * 4)]
  | a :: b :: c :: rest =>
      letter (a.toNat / 4) :: letter (a.toNat % 4 * 16 + b.toNat / 16) ::
        letter (b.toNat % 16 * 4 + c.toNat / 64) :: letter (c.toNat % 64) :: encode rest

def decode : List Char → Option (List UInt8)
  | [] => some []
  | [_] => none
  | [w, x] => do
      let w ← value w
      let x ← value x
      if x % 16 = 0 then some [.ofNat (w * 4 + x / 16)] else none
  | [w, x, y] => do
      let w ← value w
      let x ← value x
      let y ← value y
      if y % 4 = 0 then some [.ofNat (w * 4 + x / 16), .ofNat (x % 16 * 16 + y / 4)] else none
  | w :: x :: y :: z :: rest => do
      let w ← value w
      let x ← value x
      let y ← value y
      let z ← value z
      let bytes ← decode rest
      some (.ofNat (w * 4 + x / 16) :: .ofNat (x % 16 * 16 + y / 4) :: .ofNat (y % 4 * 64 + z) ::
        bytes)

theorem value_letter : ∀ n < 64, value (letter n) = some n := by decide

theorem letter_ne_equals : ∀ n < 64, letter n ≠ '=' := by decide

theorem decode_encode (bytes : List UInt8) : decode (encode bytes) = some bytes := by
  fun_induction encode bytes with
  | case1 => rfl
  | case2 a =>
      have ha := a.toNat_lt
      rw [decode, value_letter _ (by omega), value_letter _ (by omega)]
      have hbyte : a.toNat / 4 * 4 + a.toNat % 4 * 16 / 16 = a.toNat := by omega
      have hlast : a.toNat % 4 * 16 % 16 = 0 := by omega
      simp only [Option.bind_eq_bind, Option.bind_some, hbyte, hlast, if_true, UInt8.ofNat_toNat]
  | case3 a b =>
      have ha := a.toNat_lt
      have hb := b.toNat_lt
      rw [decode, value_letter _ (by omega), value_letter _ (by omega), value_letter _ (by omega)]
      have hfirst : a.toNat / 4 * 4 + (a.toNat % 4 * 16 + b.toNat / 16) / 16 = a.toNat := by omega
      have hsecond : (a.toNat % 4 * 16 + b.toNat / 16) % 16 * 16 + b.toNat % 16 * 4 / 4 =
          b.toNat := by omega
      have hlast : b.toNat % 16 * 4 % 4 = 0 := by omega
      simp only [Option.bind_eq_bind, Option.bind_some, hfirst, hsecond, hlast, if_true,
        UInt8.ofNat_toNat]
  | case4 a b c rest ih =>
      have ha := a.toNat_lt
      have hb := b.toNat_lt
      have hc := c.toNat_lt
      rw [decode, value_letter _ (by omega), value_letter _ (by omega), value_letter _ (by omega),
        value_letter _ (by omega)]
      have hfirst : a.toNat / 4 * 4 + (a.toNat % 4 * 16 + b.toNat / 16) / 16 = a.toNat := by omega
      have hsecond : (a.toNat % 4 * 16 + b.toNat / 16) % 16 * 16 +
          (b.toNat % 16 * 4 + c.toNat / 64) / 4 = b.toNat := by omega
      have hthird : (b.toNat % 16 * 4 + c.toNat / 64) % 4 * 64 + c.toNat % 64 = c.toNat := by omega
      simp only [Option.bind_eq_bind, Option.bind_some, ih, hfirst, hsecond, hthird,
        UInt8.ofNat_toNat]

/-- Four letters for three bytes. -/
theorem length_encode (bytes : List UInt8) :
    (encode bytes).length = (4 * bytes.length + 2) / 3 := by
  fun_induction encode bytes with
  | case1 => rfl
  | case2 => simp
  | case3 => simp
  | case4 a b c rest ih =>
      simp only [List.length_cons, ih]
      omega

theorem utf8Size_letter : ∀ n < 64, (letter n).utf8Size = 1 := by decide

/-- Every letter takes one byte. -/
theorem utf8Size_mem_encode (bytes : List UInt8) : ∀ c ∈ encode bytes, c.utf8Size = 1 := by
  fun_induction encode bytes with
  | case1 => simp
  | case2 a =>
      have ha := a.toNat_lt
      simp [utf8Size_letter _ (show a.toNat / 4 < 64 by omega),
        utf8Size_letter _ (show a.toNat % 4 * 16 < 64 by omega)]
  | case3 a b =>
      have ha := a.toNat_lt
      have hb := b.toNat_lt
      simp [utf8Size_letter _ (show a.toNat / 4 < 64 by omega),
        utf8Size_letter _ (show a.toNat % 4 * 16 + b.toNat / 16 < 64 by omega),
        utf8Size_letter _ (show b.toNat % 16 * 4 < 64 by omega)]
  | case4 a b c rest ih =>
      have ha := a.toNat_lt
      have hb := b.toNat_lt
      have hc := c.toNat_lt
      simpa [utf8Size_letter _ (show a.toNat / 4 < 64 by omega),
        utf8Size_letter _ (show a.toNat % 4 * 16 + b.toNat / 16 < 64 by omega),
        utf8Size_letter _ (show b.toNat % 16 * 4 + c.toNat / 64 < 64 by omega),
        utf8Size_letter _ (show c.toNat % 64 < 64 by omega)] using ih

/-- No padding. -/
theorem equals_not_mem_encode (bytes : List UInt8) : '=' ∉ encode bytes := by
  fun_induction encode bytes with
  | case1 => simp
  | case2 a =>
      have ha := a.toNat_lt
      simp [(letter_ne_equals _ (show a.toNat / 4 < 64 by omega)).symm,
        (letter_ne_equals _ (show a.toNat % 4 * 16 < 64 by omega)).symm]
  | case3 a b =>
      have ha := a.toNat_lt
      have hb := b.toNat_lt
      simp [(letter_ne_equals _ (show a.toNat / 4 < 64 by omega)).symm,
        (letter_ne_equals _ (show a.toNat % 4 * 16 + b.toNat / 16 < 64 by omega)).symm,
        (letter_ne_equals _ (show b.toNat % 16 * 4 < 64 by omega)).symm]
  | case4 a b c rest ih =>
      have ha := a.toNat_lt
      have hb := b.toNat_lt
      have hc := c.toNat_lt
      simp [ih, (letter_ne_equals _ (show a.toNat / 4 < 64 by omega)).symm,
        (letter_ne_equals _ (show a.toNat % 4 * 16 + b.toNat / 16 < 64 by omega)).symm,
        (letter_ne_equals _ (show b.toNat % 16 * 4 + c.toNat / 64 < 64 by omega)).symm,
        (letter_ne_equals _ (show c.toNat % 64 < 64 by omega)).symm]

end TokenStation.Library.Base64
