import TokenStation.Images.Amounts

/-!
# Amounts are exact

The decimal of a JSON number has the number's value, in the one form without
needless zeros, and it is a credit count exactly when the value fits the
contract. The dollars of a tick count have its value.
-/

namespace TokenStation.Images

open Library Library.Json Library.Decimals

/-- The text of a decimal. -/
def shown (whole fraction : List Char) : List Char :=
  if fraction.isEmpty then whole else whole ++ '.' :: fraction

/-- A text without zeros at the end. -/
def withoutTail (fraction : List Char) : List Char := fraction.rdropWhile (· == '0')

/-- Digits without zeros in front. -/
def withoutLead (whole : List Char) : List Char :=
  if (whole.dropWhile (· == '0')).isEmpty then ['0'] else whole.dropWhile (· == '0')

theorem trimmedDecimal_eq (whole fraction : List Char) :
    trimmedDecimal whole fraction = shown (withoutLead whole) (withoutTail fraction) := rfl

/-! ## Needless zeros -/

theorem withoutLead_spec {whole : List Char} (h : Digits whole) :
    Digits (withoutLead whole) ∧ LeadFree (withoutLead whole)
      ∧ natOf (withoutLead whole) = natOf whole := by
  unfold withoutLead
  split_ifs with hempty
  · refine ⟨by simp [Digits], ⟨by simp, .inl rfl⟩, ?_⟩
    have hdropped := natOf_dropZeros whole
    rw [List.isEmpty_iff.mp hempty] at hdropped
    rw [← hdropped]
    rfl
  · refine ⟨fun c hc => h c ((List.dropWhile_suffix _).subset hc), ⟨?_, .inr ?_⟩,
      natOf_dropZeros whole⟩
    · simpa using hempty
    · intro hhead
      have hnot := List.head?_dropWhile_not (· == '0') whole
      rw [hhead] at hnot
      simp at hnot

theorem exists_zeros (fraction : List Char) :
    ∃ n, fraction = withoutTail fraction ++ List.replicate n '0' := by
  refine ⟨(fraction.rtakeWhile (· == '0')).length, ?_⟩
  have hzeros : fraction.rtakeWhile (· == '0')
      = List.replicate (fraction.rtakeWhile (· == '0')).length '0' := by
    refine List.eq_replicate_of_mem fun c hc => ?_
    have hzero := List.mem_rtakeWhile_imp hc
    exact eq_of_beq hzero
  rw [← hzeros]
  exact List.rdropWhile_append_rtakeWhile.symm

theorem withoutTail_spec {fraction : List Char} (h : Digits fraction) :
    Digits (withoutTail fraction) ∧ TailFree (withoutTail fraction)
      ∧ (natOf (withoutTail fraction) : ℚ) / 10 ^ (withoutTail fraction).length
        = natOf fraction / 10 ^ fraction.length := by
  obtain ⟨n, hzeros⟩ := exists_zeros fraction
  have hdigits : Digits (withoutTail fraction) := by
    rw [hzeros] at h
    exact h.left
  refine ⟨hdigits, ?_, ?_⟩
  · intro hlast
    have hne : withoutTail fraction ≠ [] := by
      intro hnil
      rw [hnil] at hlast
      cases hlast
    have hnot := List.rdropWhile_last_not (· == '0') fraction hne
    rw [List.getLast?_eq_some_getLast hne, Option.some.injEq] at hlast
    exact hnot (beq_iff_eq.mpr hlast)
  · generalize withoutTail fraction = kept at hzeros
    rw [hzeros, natOf_append, natOf_zeros, List.length_append, List.length_replicate, pow_add]
    push_cast
    field_simp
    ring

/-- A text without its needless zeros has the value and its one form. -/
theorem canonical_trimmed {whole fraction : List Char} (hw : Digits whole) (hf : Digits fraction) :
    Canonical (withoutLead whole) (withoutTail fraction) (valueOf whole fraction) := by
  obtain ⟨hwd, hlead, hwhole⟩ := withoutLead_spec hw
  obtain ⟨hfd, htail, hfraction⟩ := withoutTail_spec hf
  refine ⟨hwd, hfd, hlead, htail, ?_⟩
  rw [valueOf_eq, valueOf_eq, hwhole, hfraction]

/-- Where the point is put, the value is that of the digits scaled. -/
theorem placePoint_spec {digits : List Char} (h : Digits digits) (point : Int) :
    Digits (placePoint digits point).1 ∧ Digits (placePoint digits point).2
      ∧ valueOf (placePoint digits point).1 (placePoint digits point).2
        = natOf digits * (10 : ℚ) ^ (point - digits.length) := by
  unfold placePoint
  split_ifs with hneg hlong
  · refine ⟨by simp [Digits], (digits_zeros _).append h, ?_⟩
    obtain ⟨n, rfl⟩ : ∃ n : Nat, point = -(n : Int) := ⟨point.natAbs, by omega⟩
    rw [valueOf, natOf_append, natOf_append, natOf_zeros, natOf_singleton]
    simp only [Int.natAbs_neg, Int.natAbs_natCast, List.length_append, List.length_replicate]
    rw [show -(n : Int) - digits.length = -((n + digits.length : Nat) : Int) by push_cast; ring,
      zpow_neg, zpow_natCast]
    simp [div_eq_mul_inv]
  · obtain ⟨n, rfl⟩ : ∃ n : Nat, point = digits.length + (n : Int) :=
      ⟨(point - digits.length).toNat, by omega⟩
    refine ⟨h.append (digits_zeros _), by simp [Digits], ?_⟩
    rw [valueOf, List.append_nil, natOf_append, natOf_zeros]
    simp
  · obtain ⟨n, rfl⟩ : ∃ n : Nat, point = (n : Int) := ⟨point.toNat, by omega⟩
    refine ⟨fun c hc => h c (List.mem_of_mem_take hc), fun c hc => h c (List.mem_of_mem_drop hc), ?_⟩
    have hle : n ≤ digits.length := by omega
    rw [valueOf, Int.toNat_natCast, List.take_append_drop, List.length_drop,
      show (n : Int) - digits.length = -((digits.length - n : Nat) : Int) by omega, zpow_neg,
      zpow_natCast, div_eq_mul_inv]

/-! ## Number texts -/

/-- The parts of a number's text: digits, a fraction and an exponent with its
mark and sign. -/
structure NumberText where
  whole : List Char
  fraction : Option (List Char)
  exponent : Option (Char × Option Char × List Char)
  whole_valid : whole ≠ [] ∧ Digits whole
  fraction_valid : ∀ digits ∈ fraction, digits ≠ [] ∧ Digits digits
  exponent_valid : ∀ mark sign digits, exponent = some (mark, sign, digits) →
    isExponentMark mark = true ∧ (∀ c ∈ sign, c = '+' ∨ c = '-') ∧ digits ≠ [] ∧ Digits digits

namespace NumberText

def mantissa (t : NumberText) : List Char :=
  t.whole ++ t.fraction.elim [] fun digits => '.' :: digits

def text (t : NumberText) : List Char :=
  t.mantissa ++ t.exponent.elim [] fun (mark, sign, digits) => mark :: (sign.toList ++ digits)

def exponentValue (t : NumberText) : Int :=
  match t.exponent with
  | none => 0
  | some (_, sign, digits) => if sign = some '-' then -natOf digits else natOf digits

def digits (t : NumberText) : List Char := t.whole ++ t.fraction.getD []

/-- The value of the number. -/
def value (t : NumberText) : ℚ :=
  valueOf t.whole (t.fraction.getD []) * (10 : ℚ) ^ t.exponentValue

/-- Where the point stands, counted from the first digit. -/
def point (t : NumberText) : Int := t.whole.length + t.exponentValue

theorem fraction_digits (t : NumberText) : Digits (t.fraction.getD []) := by
  cases h : t.fraction with
  | none => simp [Digits]
  | some digits => exact (t.fraction_valid digits h).2

theorem digits_digits (t : NumberText) : Digits t.digits := t.whole_valid.2.append t.fraction_digits

theorem value_eq (t : NumberText) : t.value = natOf t.digits * (10 : ℚ) ^ (t.point - t.digits.length) := by
  unfold value valueOf point digits
  rw [List.length_append, div_eq_mul_inv, mul_assoc, ← zpow_natCast, ← zpow_neg, ← zpow_add₀ (by norm_num)]
  congr 2
  push_cast
  ring

end NumberText

theorem digit_ne {c d : Char} (hc : c.isDigit = true) (hd : d.isDigit = false) : c ≠ d := by
  rintro rfl
  rw [hc] at hd
  cases hd

theorem splitPoint_mantissa (t : NumberText) : splitPoint t.mantissa = (t.whole, t.fraction) := by
  have hwhole : ∀ c ∈ t.whole, (c != '.') = true := fun c hc =>
    bne_iff_ne.mpr (digit_ne (t.whole_valid.2 c hc) rfl)
  unfold splitPoint NumberText.mantissa
  cases t.fraction with
  | none =>
      rw [Option.elim_none, List.append_nil, List.dropWhile_eq_nil_iff.mpr hwhole]
  | some digits =>
      simp only [Option.elim_some]
      rw [List.dropWhile_append_of_pos hwhole, List.takeWhile_append_of_pos hwhole]
      simp

theorem mantissa_unmarked (t : NumberText) : ∀ c ∈ t.mantissa, (!isExponentMark c) = true := by
  have hdigit {c : Char} (hc : c.isDigit = true) : (!isExponentMark c) = true := by
    have he := digit_ne hc (show 'e'.isDigit = false from rfl)
    have hE := digit_ne hc (show 'E'.isDigit = false from rfl)
    simp [isExponentMark, he, hE]
  intro c hc
  rcases List.mem_append.mp hc with hc | hc
  · exact hdigit (t.whole_valid.2 c hc)
  · cases hfraction : t.fraction with
    | none => simp [hfraction] at hc
    | some digits =>
        rw [hfraction, Option.elim_some, List.mem_cons] at hc
        rcases hc with rfl | hc
        · rfl
        · exact hdigit ((t.fraction_valid digits hfraction).2 c hc)

theorem parseI32_signed {sign : Option Char} {digits : List Char}
    (hsign : ∀ c ∈ sign, c = '+' ∨ c = '-') (hne : digits ≠ []) (hdigits : Digits digits) :
    parseI32 (sign.toList ++ digits) =
      (some (if sign = some '-' then -(natOf digits : Int) else natOf digits)).filter
        fun n => -2 ^ 31 ≤ n && n < 2 ^ 31 := by
  have hall : digits.all Char.isDigit = true := List.all_eq_true.mpr hdigits
  have hempty : digits.isEmpty = false := by simpa using hne
  cases sign with
  | none =>
      obtain ⟨c, rest, rfl⟩ := List.exists_cons_of_ne_nil hne
      have hplus := digit_ne (hdigits c (by simp)) (show '+'.isDigit = false from rfl)
      have hminus := digit_ne (hdigits c (by simp)) (show '-'.isDigit = false from rfl)
      unfold parseI32
      split
      · rename_i heq
        simp at heq
        exact absurd heq.1 hplus
      · rename_i heq
        simp at heq
        exact absurd heq.1 hminus
      · simp [hall]
  | some c =>
      rcases hsign c rfl with rfl | rfl <;> simp [parseI32, hall, hempty]

/-- An exponent that fits 32 bits. -/
def NumberText.Fits (t : NumberText) : Prop := -2 ^ 31 ≤ t.exponentValue ∧ t.exponentValue < 2 ^ 31

instance (t : NumberText) : Decidable t.Fits := inferInstanceAs (Decidable (_ ∧ _))

theorem splitExponent_text (t : NumberText) :
    splitExponent t.text = if t.Fits then some (t.mantissa, t.exponentValue) else none := by
  have hplain := mantissa_unmarked t
  unfold splitExponent NumberText.text
  cases hexponent : t.exponent with
  | none =>
      have hvalue : t.exponentValue = 0 := by simp [NumberText.exponentValue, hexponent]
      rw [Option.elim_none, List.append_nil, List.dropWhile_eq_nil_iff.mpr hplain, hvalue,
        if_pos (by simp [NumberText.Fits, hvalue])]
  | some parts =>
      obtain ⟨mark, sign, digits⟩ := parts
      obtain ⟨hmark, hsign, hne, hdigits⟩ := t.exponent_valid mark sign digits hexponent
      have hvalue : t.exponentValue = if sign = some '-' then -(natOf digits : Int) else natOf digits := by
        simp [NumberText.exponentValue, hexponent]
      simp only [Option.elim_some]
      rw [List.dropWhile_append_of_pos hplain, List.takeWhile_append_of_pos hplain,
        List.dropWhile_cons_of_neg (by simp [hmark]), List.takeWhile_cons_of_neg (by simp [hmark]),
        List.append_nil]
      dsimp only
      rw [parseI32_signed hsign hne hdigits, ← hvalue, Option.filter_some]
      by_cases hfits : t.Fits
      · rw [if_pos hfits, if_pos (by simpa [NumberText.Fits] using hfits)]
        rfl
      · rw [if_neg hfits, if_neg (by simpa [NumberText.Fits] using hfits)]
        rfl

/-- The text of a number is read into its parts. -/
theorem plainDecimal_text (t : NumberText) :
    plainDecimal t.text =
      if t.Fits ∧ -64 ≤ t.point ∧ t.point ≤ 64 then
        some (trimmedDecimal (placePoint t.digits t.point).1 (placePoint t.digits t.point).2)
      else none := by
  have hhead : t.text.head? ≠ some '-' := by
    obtain ⟨c, rest, hwhole⟩ := List.exists_cons_of_ne_nil t.whole_valid.1
    have hc : c.isDigit = true := t.whole_valid.2 c (by simp [hwhole])
    simpa [NumberText.text, NumberText.mantissa, hwhole] using digit_ne hc rfl
  have hall : t.digits.all Char.isDigit = true := List.all_eq_true.mpr t.digits_digits
  have hempty : t.digits.isEmpty = false := by
    simpa [NumberText.digits] using fun h => absurd h t.whole_valid.1
  unfold plainDecimal
  rw [if_neg hhead, splitExponent_text]
  by_cases hfits : t.Fits
  · rw [if_pos hfits, Option.bind_eq_bind, Option.bind_some]
    simp only [splitPoint_mantissa, hfits, true_and]
    change (if (t.digits.isEmpty || !t.digits.all Char.isDigit) = true then none else
      if ¬(-64 ≤ t.point ∧ t.point ≤ 64) then none else _) = _
    rw [if_neg (by simp [hall, hempty]), ite_not]
    rfl
  · simp [hfits]

/-! ## The contract's bounds -/

theorem splitPoint_shown {whole fraction : List Char} (h : Digits whole) :
    splitPoint (shown whole fraction)
      = (whole, if fraction.isEmpty then none else some fraction) := by
  have hwhole : ∀ c ∈ whole, (c != '.') = true := fun c hc =>
    bne_iff_ne.mpr (digit_ne (h c hc) rfl)
  unfold splitPoint shown
  split_ifs with hempty
  · rw [List.dropWhile_eq_nil_iff.mpr hwhole]
  · rw [List.dropWhile_append_of_pos hwhole, List.takeWhile_append_of_pos hwhole]
    simp

/-- A decimal in its one form is one of the contract's exactly when it is below
`10 ^ 18` and has no more places than allowed. -/
theorem parse_shown {whole fraction : List Char} {value : ℚ} (h : Canonical whole fraction value)
    (places : Nat) :
    DecimalV1.parse places (shown whole fraction) =
      if whole.length ≤ 18 ∧ fraction.length ≤ places then some (shown whole fraction) else none := by
  have hwhole : whole.all Char.isDigit = true := List.all_eq_true.mpr h.whole_digits
  have hfraction : fraction.all Char.isDigit = true := List.all_eq_true.mpr h.fraction_digits
  have hlead : (whole == ['0'] || whole.head? != some '0') = true := by
    simpa using h.lead.2
  have hne : whole.isEmpty = false := by simpa using h.lead.1
  unfold DecimalV1.parse
  rw [splitPoint_shown h.whole_digits]
  simp only [hwhole, hlead, hne, Bool.not_false, Bool.true_and, Bool.and_true]
  cases fraction with
  | nil => simp
  | cons c fraction => simp [hfraction]

theorem bounds_iff {whole fraction : List Char} {value : ℚ} (h : Canonical whole fraction value)
    (places : Nat) : whole.length ≤ 18 ∧ fraction.length ≤ places ↔
      value < 10 ^ 18 ∧ ∃ n : ℕ, value * 10 ^ places = n := by
  have hvalue := h.value_eq
  rw [valueOf_eq] at hvalue
  have hlt := fraction_lt_one h.fraction_digits
  have hnonneg : (0 : ℚ) ≤ natOf fraction / 10 ^ fraction.length := by positivity
  refine and_congr ?_ ?_
  · rw [length_le_iff h.whole_digits h.lead (by decide), ← hvalue]
    constructor
    · intro hwhole
      have hsucc : (natOf whole : ℚ) + 1 ≤ 10 ^ 18 := by exact_mod_cast hwhole
      linarith
    · intro hall
      have : (natOf whole : ℚ) < 10 ^ 18 := by linarith
      exact_mod_cast this
  · rw [places_iff h.tail h.fraction_digits, ← hvalue]
    constructor
    · rintro ⟨n, hn⟩
      refine ⟨natOf whole * 10 ^ places + n, ?_⟩
      rw [add_mul, hn]
      push_cast
      rfl
    · rintro ⟨n, hn⟩
      rw [add_mul] at hn
      refine ⟨n - natOf whole * 10 ^ places, ?_⟩
      have hle : natOf whole * 10 ^ places ≤ n := by
        have : (natOf whole : ℚ) * 10 ^ places ≤ n := by
          rw [← hn]
          have : (0 : ℚ) ≤ natOf fraction / 10 ^ fraction.length * 10 ^ places := by positivity
          linarith
        exact_mod_cast this
      rw [Nat.cast_sub hle]
      push_cast
      linarith

/-! ## Ticks -/

theorem toDigits_leadFree (n : Nat) : LeadFree (Nat.toDigits 10 n) := by
  refine ⟨Nat.toDigits_ne_nil, ?_⟩
  induction n using Nat.strongRecOn with
  | ind n ih =>
      by_cases hsmall : n < 10
      · rw [Nat.toDigits_of_lt_base hsmall]
        interval_cases n <;> simp [Nat.digitChar]
      · rw [Nat.toDigits_of_base_le (by decide) (by omega)]
        refine .inr ?_
        rcases ih (n / 10) (by omega) with hzero | hhead
        · have := natOf_toDigits (n / 10)
          rw [hzero] at this
          simp [natOf_singleton] at this
          omega
        · obtain ⟨c, rest, hcons⟩ := List.exists_cons_of_ne_nil (@Nat.toDigits_ne_nil (n / 10) 10)
          rw [hcons] at hhead ⊢
          simpa using hhead

/-- The dollars of a tick count, in the one form of their value. -/
theorem ticksAmount_eq (ticks : Nat) :
    ∃ whole fraction, ticksAmount ticks = shown whole fraction
      ∧ Canonical whole fraction ((ticks : ℚ) / 10 ^ 10) := by
  have hsmall : ticks % ticksPerUsd < 10 ^ 10 := Nat.mod_lt _ (by decide)
  obtain ⟨hfd, htail, hfraction⟩ := withoutTail_spec (digits_padded 10 (ticks % ticksPerUsd))
  rw [natOf_padded, length_padded (by decide) hsmall] at hfraction
  refine ⟨_, _, ?_, ⟨toDigits_digits (ticks / ticksPerUsd), hfd, toDigits_leadFree _, htail, ?_⟩⟩
  · unfold ticksAmount
    by_cases hzero : ticks % ticksPerUsd = 0
    · rw [if_pos hzero, hzero]
      rfl
    · have hne : (withoutTail (padded 10 (ticks % ticksPerUsd))).isEmpty = false := by
        rw [Bool.eq_false_iff]
        intro hempty
        rw [List.isEmpty_iff.mp hempty, natOf_nil, Nat.cast_zero, zero_div, eq_comm,
          div_eq_zero_iff] at hfraction
        rcases hfraction with hticks | hpower
        · exact hzero (by exact_mod_cast hticks)
        · norm_num at hpower
      rw [if_neg hzero, shown, hne]
      rfl
  · rw [valueOf_eq, natOf_toDigits, hfraction]
    have hsplit : (ticks : ℚ) = (ticks / ticksPerUsd : ℕ) * 10 ^ 10 + (ticks % ticksPerUsd : ℕ) := by
      exact_mod_cast (Nat.div_add_mod' ticks ticksPerUsd).symm
    rw [hsplit]
    field_simp

/-! ## Amounts -/

/-- Whether a value is a credit count: below `10 ^ 18`, with at most six places. -/
def IsCreditCount (value : ℚ) : Prop := value < 10 ^ 18 ∧ ∃ n : ℕ, value * 10 ^ 6 = n

/-- What the readers make of a number's text. -/
structure ReadExactly (t : NumberText) (decimal : List Char) : Prop where
  read : plainDecimal t.text = some decimal
  canonical : ∃ whole fraction, decimal = shown whole fraction ∧ Canonical whole fraction t.value
  /-- Another text of the value gives the same decimal. -/
  same : ∀ other : NumberText, other.Fits → -64 ≤ other.point ∧ other.point ≤ 64 →
    other.value = t.value → plainDecimal other.text = some decimal
  credits : ∀ (numberText : Number → List Char) (number : Number), numberText number = t.text →
    ((credits numberText (.number number)).isSome = true ↔ IsCreditCount t.value)

theorem plainDecimal_canonical (t : NumberText) (hfits : t.Fits)
    (hpoint : -64 ≤ t.point ∧ t.point ≤ 64) :
    ∃ whole fraction, plainDecimal t.text = some (shown whole fraction)
      ∧ Canonical whole fraction t.value := by
  obtain ⟨hw, hf, hvalue⟩ := placePoint_spec t.digits_digits t.point
  refine ⟨_, _, ?_, t.value_eq.trans hvalue.symm ▸ canonical_trimmed hw hf⟩
  rw [plainDecimal_text, if_pos ⟨hfits, hpoint⟩, trimmedDecimal_eq]

/-- The decimal of a number is exact, and so are the dollars of every tick count. -/
theorem reported_amounts_exact :
    (∀ t : NumberText, t.Fits → -64 ≤ t.point ∧ t.point ≤ 64 → ∃ decimal, ReadExactly t decimal) ∧
      ∀ (body usage : Value) (ticks : Nat), ticks < 2 ^ 63 → body.get "usage" = some usage →
        usage.get "cost_in_usd_ticks" = some (.nat ticks) →
        ∃ cost whole fraction, upstreamCost body = some cost ∧ cost.amount = shown whole fraction
          ∧ valueOf whole fraction * 10 ^ 10 = ticks := by
  constructor
  · intro t hfits hpoint
    obtain ⟨whole, fraction, hread, hcanonical⟩ := plainDecimal_canonical t hfits hpoint
    refine ⟨_, hread, ⟨whole, fraction, rfl, hcanonical⟩, ?_, ?_⟩
    · intro other hother hotherPoint hvalue
      obtain ⟨w, f, hotherRead, hotherCanonical⟩ := plainDecimal_canonical other hother hotherPoint
      rw [hvalue] at hotherCanonical
      obtain ⟨rfl, rfl⟩ := hotherCanonical.unique hcanonical
      exact hotherRead
    · intro numberText number htext
      unfold credits
      dsimp only
      rw [htext, hread, Option.bind_some, parse_shown hcanonical, IsCreditCount,
        ← bounds_iff hcanonical 6]
      split_ifs with hbounds
      · exact iff_of_true rfl hbounds
      · exact iff_of_false Bool.false_ne_true hbounds
  · intro body usage ticks hlt husage hticks
    obtain ⟨whole, fraction, hamount, hcanonical⟩ := ticksAmount_eq ticks
    have hbounds : whole.length ≤ 18 ∧ fraction.length ≤ usdPlaces := by
      rw [bounds_iff hcanonical]
      refine ⟨?_, ticks, ?_⟩
      · rw [div_lt_iff₀ (by positivity)]
        have : (ticks : ℚ) < 2 ^ 63 := by exact_mod_cast hlt
        linarith
      · unfold usdPlaces
        field_simp
    refine ⟨⟨.usd, shown whole fraction⟩, whole, fraction, ?_, rfl, ?_⟩
    · unfold upstreamCost
      have hread : asI64 (.nat ticks) = some (ticks : Int) := by
        exact if_pos hlt
      simp only [husage, Option.bind_some, hticks, hread, Option.bind_eq_bind, Int.toNat_natCast,
        hamount, parse_shown hcanonical, if_pos hbounds]
      simp
    · rw [hcanonical.value_eq]
      field_simp

/-- The number one and a half, as `15e-1`. -/
def oneAndAHalf : NumberText where
  whole := ['1', '5']
  fraction := none
  exponent := some ('e', some '-', ['1'])
  whole_valid := ⟨by simp, by simp [Digits]⟩
  fraction_valid := by simp
  exponent_valid := by
    rintro mark sign digits h
    cases h
    exact ⟨rfl, by simp, by simp, by simp [Digits]⟩

theorem one_and_a_half_read :
    (∃ decimal, ReadExactly oneAndAHalf decimal) ∧
      ∃ cost whole fraction,
        upstreamCost (.object [("usage", .object [("cost_in_usd_ticks", .nat 15)])]) = some cost
          ∧ cost.amount = shown whole fraction ∧ valueOf whole fraction * 10 ^ 10 = (15 : ℕ) :=
  ⟨reported_amounts_exact.1 oneAndAHalf (by decide) (by decide),
    reported_amounts_exact.2 _ (.object [("cost_in_usd_ticks", .nat 15)]) 15 (by decide) rfl rfl⟩

/-- A one with zeros behind it and the exponent that takes them back, below the
least of 32 bits. -/
def longNumber (zeros : Nat) : NumberText where
  whole := '1' :: List.replicate zeros '0'
  fraction := none
  exponent := some ('e', some '-', ['2', '1', '4', '7', '4', '8', '3', '6', '4', '9'])
  whole_valid := ⟨by simp, by
    intro c hc
    rcases List.mem_cons.mp hc with rfl | hc
    · rfl
    · rw [List.eq_of_mem_replicate hc]
      rfl⟩
  fraction_valid := by simp
  exponent_valid := by
    rintro mark sign digits h
    cases h
    exact ⟨rfl, by simp, by simp, by simp [Digits]⟩

theorem longNumber_exponent (zeros : Nat) : (longNumber zeros).exponentValue = -2147483649 := by
  change -(natOf ['2', '1', '4', '7', '4', '8', '3', '6', '4', '9'] : Int) = _
  decide

theorem longNumber_point (zeros : Nat) : (longNumber zeros).point = zeros + 1 - 2147483649 := by
  rw [NumberText.point, longNumber_exponent]
  change ((('1' :: List.replicate zeros '0').length : Nat) : Int) + _ = _
  rw [List.length_cons, List.length_replicate]
  push_cast
  ring

theorem longNumber_unread (zeros : Nat) : plainDecimal (longNumber zeros).text = none := by
  rw [plainDecimal_text, if_neg]
  rintro ⟨hfits, -⟩
  have hlow := hfits.1
  rw [longNumber_exponent] at hlow
  exact absurd hlow (by decide)

/-- Its point stands in the bounds, and it has no decimal. -/
theorem long_number_unread :
    ¬∀ t : NumberText, -64 ≤ t.point ∧ t.point ≤ 64 → ∃ decimal, plainDecimal t.text = some decimal := by
  intro h
  obtain ⟨zeros, hzeros⟩ : ∃ zeros : Nat, zeros = 2147483648 := ⟨_, rfl⟩
  obtain ⟨decimal, hread⟩ := h (longNumber zeros) (by rw [longNumber_point]; omega)
  rw [longNumber_unread] at hread
  cases hread

end TokenStation.Images
