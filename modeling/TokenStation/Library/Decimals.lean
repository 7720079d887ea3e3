import Mathlib

/-!
# Decimals in digits

A decimal is written as digits before a point and digits behind it. Zeros in
front and zeros at the end do not count, and without them every value is
written in one way. In a fixed width the digits are ordered as the numbers are.
-/

namespace TokenStation.Library.Decimals

/-- Text of digits only. -/
def Digits (text : List Char) : Prop := ∀ c ∈ text, c.isDigit = true

/-- The number that digits show. -/
def natOf (digits : List Char) : Nat := Nat.ofDigitChars 10 digits 0

/-- The value of digits before and behind a point. -/
def valueOf (whole fraction : List Char) : ℚ :=
  natOf (whole ++ fraction) / 10 ^ fraction.length

theorem natOf_append (a b : List Char) : natOf (a ++ b) = natOf a * 10 ^ b.length + natOf b := by
  unfold natOf
  rw [Nat.ofDigitChars_append, Nat.ofDigitChars_eq_ofDigitChars_zero, Nat.mul_comm]

@[simp] theorem natOf_nil : natOf [] = 0 := Nat.ofDigitChars_nil

theorem natOf_singleton (c : Char) : natOf [c] = c.toNat - 48 := by
  simp [natOf, Nat.ofDigitChars]

@[simp] theorem natOf_zeros (n : Nat) : natOf (List.replicate n '0') = 0 := by
  simp [natOf]

theorem digit_bounds {c : Char} (h : c.isDigit = true) : 48 ≤ c.toNat ∧ c.toNat ≤ 57 := by
  simpa [Char.isDigit, Char.le_def, UInt32.le_iff_toNat_le] using h

theorem digit_eq_of_value {c d : Char} (hc : c.isDigit = true) (hd : d.isDigit = true)
    (h : c.toNat - 48 = d.toNat - 48) : c = d := by
  have := digit_bounds hc
  have := digit_bounds hd
  exact Char.toNat_inj.mp (by omega)

theorem digit_zero_of_value {c : Char} (hc : c.isDigit = true) (h : c.toNat - 48 = 0) : c = '0' :=
  digit_eq_of_value hc rfl h

theorem Digits.append {a b : List Char} (ha : Digits a) (hb : Digits b) : Digits (a ++ b) := by
  intro c hc
  exact (List.mem_append.mp hc).elim (ha c) (hb c)

theorem Digits.left {a b : List Char} (h : Digits (a ++ b)) : Digits a :=
  fun c hc => h c (List.mem_append_left _ hc)

theorem digits_zeros (n : Nat) : Digits (List.replicate n '0') := by
  intro c hc
  rw [List.eq_of_mem_replicate hc]
  rfl

theorem toDigits_digits (n : Nat) : Digits (Nat.toDigits 10 n) := fun _ hc =>
  Nat.isDigit_of_mem_toDigits (by decide) (by decide) hc

theorem natOf_toDigits (n : Nat) : natOf (Nat.toDigits 10 n) = n := Nat.ofDigitChars_ten_toDigits

theorem natOf_lt {digits : List Char} (h : Digits digits) : natOf digits < 10 ^ digits.length := by
  induction digits using List.reverseRecOn with
  | nil => simp
  | append_singleton digits c ih =>
      have hc := digit_bounds (h c (by simp))
      have hlt := ih h.left
      rw [natOf_append, natOf_singleton, List.length_append, List.length_singleton, pow_succ]
      omega

/-- Digits of one length that show one number are the same. -/
theorem eq_of_natOf {a b : List Char} (ha : Digits a) (hb : Digits b) (hlength : a.length = b.length)
    (h : natOf a = natOf b) : a = b := by
  induction a using List.reverseRecOn generalizing b with
  | nil => exact (List.eq_nil_of_length_eq_zero hlength.symm).symm
  | append_singleton a c ih =>
      rcases List.eq_nil_or_concat b with rfl | ⟨b, d, rfl⟩
      · simp at hlength
      · rw [List.concat_eq_append] at *
        have hc := digit_bounds (ha c (by simp))
        have hd := digit_bounds (hb d (by simp))
        rw [natOf_append, natOf_append, natOf_singleton, natOf_singleton, List.length_singleton,
          List.length_singleton] at h
        have hfront : a = b := ih ha.left hb.left (by simpa using hlength) (by omega)
        rw [hfront, digit_eq_of_value (ha c (by simp)) (hb d (by simp)) (by omega)]

theorem natOf_dropZeros (digits : List Char) : natOf (digits.dropWhile (· == '0')) = natOf digits := by
  induction digits with
  | nil => rfl
  | cons c digits ih =>
      rw [List.dropWhile_cons]
      split
      · rename_i hc
        obtain rfl := eq_of_beq hc
        rw [ih, ← List.singleton_append, natOf_append, natOf_singleton]
        simp
      · rfl

/-- Digits without zeros in front, a single zero apart. -/
def LeadFree (whole : List Char) : Prop := whole ≠ [] ∧ (whole = ['0'] ∨ whole.head? ≠ some '0')

/-- Digits without zeros at the end. -/
def TailFree (fraction : List Char) : Prop := fraction.getLast? ≠ some '0'

/-- A value in its one form. -/
structure Canonical (whole fraction : List Char) (value : ℚ) : Prop where
  whole_digits : Digits whole
  fraction_digits : Digits fraction
  lead : LeadFree whole
  tail : TailFree fraction
  value_eq : valueOf whole fraction = value

theorem pow_le_natOf {whole : List Char} (hdigits : Digits whole) (hlead : whole.head? ≠ some '0')
    (hne : whole ≠ []) : 10 ^ (whole.length - 1) ≤ natOf whole := by
  obtain ⟨c, rest, rfl⟩ := List.exists_cons_of_ne_nil hne
  have hc := digit_bounds (hdigits c (by simp))
  have hpos : 1 ≤ c.toNat - 48 := by
    by_contra hzero
    exact hlead (congrArg some (digit_zero_of_value (hdigits c (by simp)) (by omega)))
  rw [← List.singleton_append, natOf_append, natOf_singleton]
  simp only [List.length_append, List.length_singleton, Nat.add_sub_cancel_left]
  calc 10 ^ rest.length = 1 * 10 ^ rest.length := (one_mul _).symm
    _ ≤ (c.toNat - 48) * 10 ^ rest.length := Nat.mul_le_mul_right _ hpos
    _ ≤ _ := Nat.le_add_right _ _

/-- How many digits a whole number takes. -/
theorem length_le_iff {whole : List Char} (hdigits : Digits whole) (hlead : LeadFree whole)
    {places : Nat} (hplaces : 0 < places) : whole.length ≤ places ↔ natOf whole < 10 ^ places := by
  constructor
  · exact fun h => (natOf_lt hdigits).trans_le (Nat.pow_le_pow_right (by decide) h)
  · intro h
    rcases hlead.2 with rfl | hhead
    · exact hplaces
    · have hpow := pow_le_natOf hdigits hhead hlead.1
      have := (Nat.pow_lt_pow_iff_right (by decide : 1 < 10)).mp (hpow.trans_lt h)
      omega

theorem LeadFree.eq {a b : List Char} (ha : LeadFree a) (hb : LeadFree b) (hda : Digits a)
    (hdb : Digits b) (h : natOf a = natOf b) : a = b := by
  have hle {x y : List Char} (hx : LeadFree x) (hy : LeadFree y) (hdx : Digits x) (hdy : Digits y)
      (h : natOf x = natOf y) : x.length ≤ y.length := by
    have hpos := List.length_pos_of_ne_nil hy.1
    rw [length_le_iff hdx hx hpos, h]
    exact natOf_lt hdy
  exact eq_of_natOf hda hdb (le_antisymm (hle ha hb hda hdb h) (hle hb ha hdb hda h.symm)) h

theorem valueOf_eq (whole fraction : List Char) :
    valueOf whole fraction = natOf whole + natOf fraction / 10 ^ fraction.length := by
  unfold valueOf
  rw [natOf_append]
  push_cast
  field_simp

theorem fraction_lt_one {fraction : List Char} (h : Digits fraction) :
    (natOf fraction : ℚ) / 10 ^ fraction.length < 1 := by
  rw [div_lt_one (by positivity)]
  exact_mod_cast natOf_lt h

/-- The whole digits show the integer part of the value. -/
theorem Canonical.floor_eq {whole fraction : List Char} {value : ℚ} (h : Canonical whole fraction value) :
    ⌊value⌋ = natOf whole := by
  rw [← h.value_eq, valueOf_eq, Int.floor_eq_iff]
  have hlt := fraction_lt_one h.fraction_digits
  have hnonneg : (0 : ℚ) ≤ natOf fraction / 10 ^ fraction.length := by positivity
  push_cast
  constructor <;> linarith

theorem TailFree.not_dvd {fraction : List Char} (h : TailFree fraction) (hdigits : Digits fraction)
    (hne : fraction ≠ []) : ¬10 ∣ natOf fraction := by
  rcases List.eq_nil_or_concat fraction with rfl | ⟨front, c, rfl⟩
  · exact absurd rfl hne
  · intro hdvd
    rw [List.concat_eq_append] at *
    have hc := digit_bounds (hdigits c (by simp))
    rw [natOf_append, natOf_singleton, List.length_singleton] at hdvd
    refine h ?_
    rw [List.getLast?_append, List.getLast?_singleton, Option.some_or,
      digit_zero_of_value (hdigits c (by simp)) (by omega)]

/-- A fraction without zeros at the end has as many digits as its value needs. -/
theorem places_iff {fraction : List Char} (h : TailFree fraction) (hdigits : Digits fraction)
    (places : Nat) : fraction.length ≤ places ↔
      ∃ n : ℕ, (natOf fraction : ℚ) / 10 ^ fraction.length * 10 ^ places = n := by
  constructor
  · intro hle
    obtain ⟨more, rfl⟩ := Nat.exists_eq_add_of_le hle
    refine ⟨natOf fraction * 10 ^ more, ?_⟩
    push_cast
    rw [pow_add]
    field_simp
  · rintro ⟨n, hn⟩
    by_contra hlt
    obtain ⟨more, hmore⟩ := Nat.exists_eq_add_of_lt (not_le.mp hlt)
    have hpow : (natOf fraction : ℚ) = n * 10 ^ (more + 1) := by
      rw [div_mul_eq_mul_div, div_eq_iff (by positivity)] at hn
      have hpos : (10 : ℚ) ^ places ≠ 0 := by positivity
      apply mul_right_cancel₀ hpos
      rw [hn, hmore]
      ring
    have hnat : natOf fraction = n * 10 ^ (more + 1) := by exact_mod_cast hpow
    refine h.not_dvd hdigits (by rintro rfl; simp at hlt) ?_
    rw [hnat, pow_succ]
    exact ⟨n * 10 ^ more, by ring⟩

/-- A value has one form. -/
theorem Canonical.unique {a b f g : List Char} {value : ℚ} (h : Canonical a f value)
    (h' : Canonical b g value) : a = b ∧ f = g := by
  have hwhole : natOf a = natOf b := by exact_mod_cast h.floor_eq.symm.trans h'.floor_eq
  have hfraction : (natOf f : ℚ) / 10 ^ f.length = natOf g / 10 ^ g.length := by
    have := h.value_eq.trans h'.value_eq.symm
    rw [valueOf_eq, valueOf_eq, hwhole] at this
    exact add_left_cancel this
  have hle {x y : List Char} (hx : TailFree x) (hdx : Digits x)
      (heq : (natOf x : ℚ) / 10 ^ x.length = natOf y / 10 ^ y.length) : x.length ≤ y.length := by
    rw [places_iff hx hdx, heq]
    exact ⟨natOf y, by field_simp⟩
  have hlength := le_antisymm (hle h.tail h.fraction_digits hfraction)
    (hle h'.tail h'.fraction_digits hfraction.symm)
  have hnat : natOf f = natOf g := by
    rw [hlength] at hfraction
    field_simp at hfraction
    exact_mod_cast hfraction
  exact ⟨h.lead.eq h'.lead h.whole_digits h'.whole_digits hwhole,
    eq_of_natOf h.fraction_digits h'.fraction_digits hlength hnat⟩

/-! ## Digits of a width -/

/-- A number in decimal digits, with zeros in front up to a width. -/
def padded (width n : Nat) : List Char :=
  List.replicate (width - (Nat.toDigits 10 n).length) '0' ++ Nat.toDigits 10 n

theorem digits_padded (width n : Nat) : Digits (padded width n) :=
  (digits_zeros _).append (toDigits_digits n)

theorem natOf_padded (width n : Nat) : natOf (padded width n) = n := by
  rw [padded, natOf_append, natOf_zeros, natOf_toDigits, Nat.zero_mul, Nat.zero_add]

theorem length_padded {width n : Nat} (hwidth : 0 < width) (h : n < 10 ^ width) :
    (padded width n).length = width := by
  have := (Nat.length_toDigits_le_iff (by decide) hwidth).mpr h
  rw [padded, List.length_append, List.length_replicate]
  omega

theorem le_length_padded (width n : Nat) : width ≤ (padded width n).length := by
  rw [padded, List.length_append, List.length_replicate]
  omega

/-- The last digits of a number. -/
def fixed : Nat → Nat → List Char
  | 0, _ => []
  | width + 1, n => fixed width (n / 10) ++ [Nat.digitChar (n % 10)]

theorem fixed_zero (width : Nat) : fixed width 0 = List.replicate width '0' := by
  induction width with
  | zero => rfl
  | succ width ih =>
      rw [fixed, ih, List.replicate_succ']
      rfl

theorem padded_eq_fixed {width n : Nat} (hwidth : 0 < width) (h : n < 10 ^ width) :
    padded width n = fixed width n := by
  induction width generalizing n with
  | zero => cases hwidth
  | succ width ih =>
      by_cases hsmall : n < 10
      · rw [padded, Nat.toDigits_of_lt_base hsmall, fixed, Nat.div_eq_of_lt hsmall, fixed_zero,
          Nat.mod_eq_of_lt hsmall]
        rfl
      · have hpositive : 0 < width := by
          by_contra hzero
          obtain rfl : width = 0 := by omega
          omega
        rw [fixed, ← @ih (n / 10) hpositive (by rw [pow_succ] at h; omega), padded, padded,
          Nat.toDigits_of_base_le (by decide) (by omega)]
        simp

theorem digitChar_lt {a b : Nat} (h : a < b) (hb : b < 10) : Nat.digitChar a < Nat.digitChar b := by
  have hall : ∀ b < 10, ∀ a < b, Nat.digitChar a < Nat.digitChar b := by decide
  exact hall b hb a h

/-- A smaller number has the smaller digits, whatever follows. -/
theorem fixed_append_lt {width a b : Nat} (h : a < b) (hb : b < 10 ^ width) (s t : List Char) :
    fixed width a ++ s < fixed width b ++ t := by
  induction width generalizing a b s t with
  | zero => omega
  | succ width ih =>
      rw [fixed, fixed, List.append_assoc, List.append_assoc]
      by_cases hhigh : a / 10 < b / 10
      · exact ih hhigh (by rw [pow_succ] at hb; omega) _ _
      · have hsame : a / 10 = b / 10 := by omega
        rw [hsame]
        refine List.append_left_lt ?_
        exact List.cons_lt_cons_iff.mpr (.inl (digitChar_lt (by omega) (by omega)))

end TokenStation.Library.Decimals
