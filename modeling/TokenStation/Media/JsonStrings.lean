import TokenStation.Media.JsonGrammar

/-!
# Strings and numbers of the parser

The parser takes a string or a number off a text exactly where the grammar derives one,
and reads what the grammar says it means.
-/

namespace TokenStation.Media.Json

open Library.Json (skip isSpace hexValue unescape escape shortEscapes)

theorem consumed_append (text rest : List Char) : consumed (text ++ rest) rest = text := by
  simp [consumed]

/-! ## Characters -/

theorem hex4_eq_some {text rest : List Char} {n : Nat} :
    hex4 text = some (n, rest) ↔ ∃ digits, Hex4 digits n ∧ text = digits ++ rest := by
  constructor
  · intro h
    unfold hex4 at h
    split at h
    · simp only [Option.bind_eq_bind, Option.bind_eq_some_iff, Option.some.injEq,
        Prod.mk.injEq] at h
      obtain ⟨w, hw, x, hx, y, hy, z, hz, rfl, rfl⟩ := h
      exact ⟨_, .mk hw hx hy hz, rfl⟩
    · cases h
  · rintro ⟨digits, hdigits, rfl⟩
    obtain ⟨ha, hb, hc, hd⟩ := hdigits
    simp [hex4, ha, hb, hc, hd]

theorem unescape_eq_some {e c : Char} : unescape e = some c ↔ (e, c) ∈ escapeLetters := by
  constructor
  · intro h
    have hletters : ∀ p ∈ ('/', '/') :: shortEscapes.map Prod.swap, p ∈ escapeLetters := by decide
    exact hletters _ (Library.mem_of_lookup h)
  · have hback : ∀ p ∈ escapeLetters, unescape p.1 = some p.2 := by decide
    exact hback (e, c)

theorem unicodeEscape_sound {text rest : List Char} {c : Char}
    (h : unicodeEscape text = some (c, rest)) :
    ∃ raw, CharText ('\\' :: 'u' :: raw) c ∧ text = raw ++ rest := by
  unfold unicodeEscape at h
  obtain ⟨⟨first, tail⟩, hfirst, hafter⟩ := Option.bind_eq_some_iff.mp h
  obtain ⟨digits, hdigits, rfl⟩ := hex4_eq_some.mp hfirst
  dsimp only at hafter
  clear h
  split at hafter
  · rename_i hhigh
    split at hafter
    · rename_i more
      obtain ⟨⟨second, left⟩, hsecond, hpair⟩ := Option.bind_eq_some_iff.mp hafter
      obtain ⟨low, hmore, rfl⟩ := hex4_eq_some.mp hsecond
      dsimp only at hpair
      split at hpair
      · rename_i hlow
        obtain ⟨rfl, rfl⟩ := Prod.mk.inj (Option.some.inj hpair)
        exact ⟨digits ++ '\\' :: 'u' :: low, .pair hdigits hhigh hmore hlow, by simp⟩
      · cases hpair
    · cases hafter
  · rename_i hhigh
    split at hafter
    · cases hafter
    · rename_i hlow
      obtain ⟨rfl, rfl⟩ := Prod.mk.inj (Option.some.inj hafter)
      exact ⟨digits, .unicode hdigits (Bool.not_eq_true _ ▸ hhigh) (Bool.not_eq_true _ ▸ hlow),
        rfl⟩

/-- A character is taken off a text with a spelling of it. -/
theorem readChar_sound {text rest : List Char} {c : Char} (h : readChar text = some (c, rest)) :
    ∃ raw, CharText raw c ∧ text = raw ++ rest := by
  unfold readChar at h
  split at h
  · obtain ⟨raw, hraw, rfl⟩ := unicodeEscape_sound h
    exact ⟨_, hraw, rfl⟩
  · obtain ⟨c, hc, hpair⟩ := Option.map_eq_some_iff.mp h
    obtain ⟨rfl, rfl⟩ := Prod.mk.inj hpair
    exact ⟨_, .letter (unescape_eq_some.mp hc), rfl⟩
  · split at h
    · cases h
    · rename_i hplain
      obtain ⟨rfl, rfl⟩ := Prod.mk.inj (Option.some.inj h)
      simp only [not_or] at hplain
      exact ⟨_, .plain hplain.1 hplain.2.1 hplain.2.2, rfl⟩
  · cases h

/-- A spelled character is read whatever comes after it. -/
theorem readChar_complete {raw : List Char} {c : Char} (h : CharText raw c) (rest : List Char) :
    readChar (raw ++ rest) = some (c, rest) := by
  cases h with
  | plain hquote hslash hcontrol =>
      simp only [List.cons_append, List.nil_append]
      rw [readChar]
      · simp [hquote, hslash, hcontrol]
      · exact fun _ heq => absurd heq hslash
      · exact fun _ _ heq => absurd heq hslash
  | @letter e c hletter =>
      have hu : e ≠ 'u' := by
        have hletters : ∀ p ∈ escapeLetters, p.1 ≠ 'u' := by decide
        exact hletters _ hletter
      simp only [List.cons_append, List.nil_append]
      rw [readChar]
      · simp [unescape_eq_some.mpr hletter]
      · exact hu
  | @unicode digits n hdigits hhigh hlow =>
      change unicodeEscape (digits ++ rest) = _
      have hread : hex4 (digits ++ rest) = some (n, rest) := hex4_eq_some.mpr ⟨_, hdigits, rfl⟩
      simp [unicodeEscape, hread, hhigh, hlow]
  | @pair digits more first second hdigits hhigh hmore hlow =>
      rw [List.cons_append, List.cons_append, List.append_assoc]
      change unicodeEscape (digits ++ '\\' :: 'u' :: (more ++ rest)) = _
      have hread : hex4 (digits ++ '\\' :: 'u' :: (more ++ rest)) =
          some (first, '\\' :: 'u' :: (more ++ rest)) := hex4_eq_some.mpr ⟨_, hdigits, rfl⟩
      have hlowRead : hex4 (more ++ rest) = some (second, rest) :=
        hex4_eq_some.mpr ⟨_, hmore, rfl⟩
      simp [unicodeEscape, hread, hlowRead, hhigh, hlow]

/-- A character never starts with the closing quote. -/
theorem CharText.exists_cons {raw : List Char} {c : Char} (h : CharText raw c) :
    ∃ first tail, raw = first :: tail ∧ first ≠ '"' := by
  cases h with
  | plain hquote => exact ⟨_, [], rfl, hquote⟩
  | letter => exact ⟨_, _, rfl, by decide⟩
  | unicode => exact ⟨_, _, rfl, by decide⟩
  | pair => exact ⟨_, _, rfl, by decide⟩

/-! ## Strings -/

theorem readChars_cons {first : Char} (h : first ≠ '"') (fuel : Nat) (raw : List Char) :
    readChars (fuel + 1) (first :: raw) =
      (readChar (first :: raw)).bind fun p =>
        (readChars fuel p.2).bind fun q => some (p.1 :: q.1, q.2) := by
  rw [readChars]
  · rfl
  · rintro _ heq
    exact h (List.cons.inj heq).1

theorem readChars_sound {fuel : Nat} {text decoded rest : List Char}
    (h : readChars fuel text = some (decoded, rest)) :
    ∃ raw, StringText raw decoded ∧ text = raw ++ '"' :: rest := by
  induction fuel generalizing text decoded with
  | zero => cases h
  | succ fuel ih =>
      rw [readChars.eq_def] at h
      split at h
      · cases ‹_ + 1 = 0›
      · obtain ⟨rfl, rfl⟩ := Prod.mk.inj (Option.some.inj h)
        exact ⟨[], .nil, rfl⟩
      · rename_i hfuel _
        obtain rfl := Nat.succ.inj hfuel
        simp only [Option.bind_eq_bind, Option.bind_eq_some_iff, Option.some.injEq,
          Prod.mk.injEq] at h
        obtain ⟨⟨c, tail⟩, hc, ⟨after, left⟩, htail, rfl, rfl⟩ := h
        obtain ⟨raw, hraw, rfl⟩ := readChar_sound hc
        obtain ⟨more, hmore, hsplit⟩ := ih htail
        dsimp only at hsplit
        subst hsplit
        exact ⟨raw ++ more, .cons hraw hmore, (List.append_assoc _ _ _).symm⟩

theorem readChars_complete {raw decoded : List Char} (h : StringText raw decoded) {fuel : Nat}
    (hfuel : raw.length < fuel) (rest : List Char) :
    readChars fuel (raw ++ '"' :: rest) = some (decoded, rest) := by
  induction h generalizing fuel with
  | nil =>
      obtain ⟨fuel, rfl⟩ := Nat.exists_eq_succ_of_ne_zero (Nat.ne_zero_of_lt hfuel)
      rfl
  | @cons raw more c decoded hc hrest ih =>
      obtain ⟨fuel, rfl⟩ := Nat.exists_eq_succ_of_ne_zero (Nat.ne_zero_of_lt hfuel)
      obtain ⟨first, tail, rfl, hfirst⟩ := hc.exists_cons
      have hread := readChar_complete hc (more ++ '"' :: rest)
      rw [List.length_append, List.length_cons] at hfuel
      rw [List.cons_append] at hread
      rw [List.append_assoc, List.cons_append, Nat.succ_eq_add_one, readChars_cons hfirst, hread,
        Option.bind_some, ih (by omega), Option.bind_some]

theorem readString_eq_some {text rest : List Char} {s : JsonString} :
    readString text = some (s, rest) ↔ s.Spelled ∧ text = s.raw.toList ++ '"' :: rest := by
  constructor
  · intro h
    obtain ⟨⟨decoded, left⟩, hchars, hpair⟩ := Option.map_eq_some_iff.mp h
    obtain ⟨rfl, rfl⟩ := Prod.mk.inj hpair
    obtain ⟨raw, hraw, rfl⟩ := readChars_sound hchars
    have hsplit : raw ++ '"' :: left = (raw ++ ['"']) ++ left := by simp
    rw [hsplit, consumed_append, List.dropLast_concat]
    refine ⟨?_, by simp⟩
    rw [JsonString.Spelled]
    simpa only [String.toList_ofList] using hraw
  · rintro ⟨hs, rfl⟩
    have hsplit : s.raw.toList ++ '"' :: rest = (s.raw.toList ++ ['"']) ++ rest := by simp
    unfold readString
    rw [readChars_complete hs (by simp), Option.map_some]
    dsimp only
    rw [hsplit, consumed_append, List.dropLast_concat, String.ofList_toList, String.ofList_toList]

/-- An escaped character is spelled. -/
theorem charText_escape (c : Char) : CharText (escape c) c := by
  unfold escape
  split
  · rename_i e he
    have hletters : ∀ p ∈ shortEscapes, (p.2, p.1) ∈ escapeLetters := by decide
    exact .letter (hletters _ (Library.mem_of_lookup he))
  · rename_i hnone
    have hplain : c ≠ '"' ∧ c ≠ '\\' := by
      constructor <;> rintro rfl <;> exact absurd hnone (by decide)
    split
    · rename_i hcontrol
      have hlt : c.toNat < 32 := hcontrol
      have hzero : hexValue '0' = some 0 := rfl
      have hdigits : Hex4 ['0', '0', Nat.digitChar (c.toNat / 16), Nat.digitChar (c.toNat % 16)]
          ((0 * 16 + 0) * 256 + c.toNat / 16 * 16 + c.toNat % 16) :=
        .mk hzero hzero (Library.Json.digitChar_hex _ (by omega))
          (Library.Json.digitChar_hex _ (by omega))
      have hvalue : (0 * 16 + 0) * 256 + c.toNat / 16 * 16 + c.toNat % 16 = c.toNat := by omega
      rw [hvalue] at hdigits
      have htext := CharText.unicode hdigits
        (by simp only [isHighSurrogate, Bool.and_eq_false_iff, decide_eq_false_iff_not]; omega)
        (by simp only [isLowSurrogate, Bool.and_eq_false_iff, decide_eq_false_iff_not]; omega)
      rwa [Char.ofNat_toNat] at htext
    · rename_i hcontrol
      exact .plain hplain.1 hplain.2 hcontrol

theorem writeString_spelled (value : String) : (writeString value).Spelled := by
  have hall : ∀ cs : List Char, StringText (cs.flatMap escape) cs := by
    intro cs
    induction cs with
    | nil => exact .nil
    | cons c cs ih =>
        rw [List.flatMap_cons]
        exact .cons (charText_escape c) ih
  rw [JsonString.Spelled, writeString]
  simpa only [String.toList_ofList] using hall value.toList

/-! ## Numbers -/

def NoDigit (rest : List Char) : Prop := ∀ c ∈ rest.head?, c.isDigit = false

theorem NoDigit.cons {c : Char} (h : c.isDigit = false) (rest : List Char) :
    NoDigit (c :: rest) := by
  intro d hd
  cases hd
  exact h

/-- What may follow a number: nothing that would carry it on. -/
def NumberEnds (rest : List Char) : Prop :=
  ∀ c ∈ rest.head?, c.isDigit = false ∧ c ≠ '.' ∧ c ≠ 'e' ∧ c ≠ 'E'

theorem NumberEnds.noDigit {rest : List Char} (h : NumberEnds rest) : NoDigit rest :=
  fun c hc => (h c hc).1

theorem someDigits_sound {text rest : List Char} (h : someDigits text = some rest) :
    ∃ digits, Digits digits ∧ text = digits ++ rest := by
  unfold someDigits at h
  split at h
  · rename_i c tail
    split at h
    · rename_i hc
      obtain rfl := Option.some.inj h
      refine ⟨c :: tail.takeWhile Char.isDigit, ⟨List.cons_ne_nil _ _, ?_⟩, ?_⟩
      · intro d hd
        rcases List.mem_cons.mp hd with rfl | hd
        · exact hc
        · exact List.mem_takeWhile_imp hd
      · rw [List.cons_append, List.takeWhile_append_dropWhile]
    · cases h
  · cases h

theorem someDigits_complete {digits rest : List Char} (h : Digits digits) (hrest : NoDigit rest) :
    someDigits (digits ++ rest) = some rest := by
  obtain ⟨c, tail, rfl⟩ := List.exists_cons_of_ne_nil h.nonempty
  have hc := h.digits c List.mem_cons_self
  have htail : ∀ d ∈ tail, d.isDigit = true := fun d hd => h.digits d (List.mem_cons_of_mem _ hd)
  have hstop : rest.dropWhile Char.isDigit = rest := by
    cases rest with
    | nil => rfl
    | cons d rest =>
        have hd := hrest d rfl
        rw [List.dropWhile_cons, hd]
        rfl
  rw [List.cons_append, someDigits, if_pos hc, List.dropWhile_append_of_pos htail, hstop]

theorem skipSign_eq (text : List Char) :
    ∃ sign, (sign = [] ∨ sign = ['-']) ∧ text = sign ++ skipSign text := by
  unfold skipSign
  split
  · exact ⟨['-'], .inr rfl, rfl⟩
  · exact ⟨[], .inl rfl, rfl⟩

theorem whole_sound {text rest : List Char} (h : whole text = some rest) :
    ∃ int, IntText int ∧ text = int ++ rest := by
  unfold whole at h
  split at h
  · obtain rfl := Option.some.inj h
    exact ⟨['0'], .inl rfl, rfl⟩
  · rename_i hzero
    obtain ⟨digits, hdigits, rfl⟩ := someDigits_sound h
    refine ⟨digits, .inr ⟨hdigits, fun hhead => ?_⟩, rfl⟩
    obtain ⟨c, tail, rfl⟩ := List.exists_cons_of_ne_nil hdigits.nonempty
    obtain rfl := Option.some.inj hhead
    exact hzero (tail ++ rest) rfl

theorem whole_complete {int rest : List Char} (h : IntText int) (hrest : NoDigit rest) :
    whole (int ++ rest) = some rest := by
  rcases h with rfl | ⟨hdigits, hhead⟩
  · rfl
  · have hread := someDigits_complete hdigits hrest
    obtain ⟨c, tail, rfl⟩ := List.exists_cons_of_ne_nil hdigits.nonempty
    rw [List.cons_append] at hread ⊢
    rw [whole]
    · exact hread
    · rintro _ heq
      exact hhead (congrArg some (List.cons.inj heq).1)

theorem fraction_sound {text rest : List Char} (h : fraction text = some rest) :
    ∃ part, FractionText part ∧ text = part ++ rest := by
  unfold fraction at h
  split at h
  · obtain ⟨digits, hdigits, rfl⟩ := someDigits_sound h
    exact ⟨'.' :: digits, .inr ⟨digits, hdigits, rfl⟩, rfl⟩
  · obtain rfl := Option.some.inj h
    exact ⟨[], .inl rfl, rfl⟩

theorem fraction_complete {part rest : List Char} (h : FractionText part) (hrest : NoDigit rest)
    (hpoint : rest.head? ≠ some '.') : fraction (part ++ rest) = some rest := by
  rcases h with rfl | ⟨digits, hdigits, rfl⟩
  · rw [List.nil_append, fraction]
    rintro tail rfl
    exact hpoint rfl
  · exact someDigits_complete hdigits hrest

theorem skipExponentSign_eq (text : List Char) :
    ∃ sign, (sign = [] ∨ sign = ['+'] ∨ sign = ['-']) ∧ text = sign ++ skipExponentSign text := by
  unfold skipExponentSign
  split
  · exact ⟨['+'], .inr (.inl rfl), rfl⟩
  · obtain ⟨sign, hsign, htext⟩ := skipSign_eq text
    exact ⟨sign, hsign.imp_right .inr, htext⟩

theorem exponent_sound {text rest : List Char} (h : exponent text = some rest) :
    ∃ part, ExponentText part ∧ text = part ++ rest := by
  unfold exponent at h
  split at h
  · rename_i c tail
    split at h
    · rename_i hc
      obtain ⟨sign, hsign, htail⟩ := skipExponentSign_eq tail
      obtain ⟨digits, hdigits, hrest⟩ := someDigits_sound h
      refine ⟨c :: (sign ++ digits), .inr ⟨c, sign, digits, hc, hsign, hdigits, rfl⟩, ?_⟩
      rw [List.cons_append, List.append_assoc, ← hrest, ← htail]
    · obtain rfl := Option.some.inj h
      exact ⟨[], .inl rfl, rfl⟩
  · obtain rfl := Option.some.inj h
    exact ⟨[], .inl rfl, rfl⟩

theorem skipExponentSign_append {sign digits : List Char}
    (hsign : sign = [] ∨ sign = ['+'] ∨ sign = ['-']) (hdigits : Digits digits)
    (rest : List Char) : skipExponentSign (sign ++ (digits ++ rest)) = digits ++ rest := by
  obtain ⟨c, tail, rfl⟩ := List.exists_cons_of_ne_nil hdigits.nonempty
  have hc := hdigits.digits c List.mem_cons_self
  rcases hsign with rfl | rfl | rfl
  · have hplus : c ≠ '+' := by rintro rfl; exact absurd hc (by decide)
    have hminus : c ≠ '-' := by rintro rfl; exact absurd hc (by decide)
    rw [List.nil_append, List.cons_append, skipExponentSign, skipSign]
    · exact fun _ heq => hminus (List.cons.inj heq).1
    · exact fun _ heq => hplus (List.cons.inj heq).1
  · rfl
  · rfl

theorem exponent_complete {part rest : List Char} (h : ExponentText part)
    (hrest : NumberEnds rest) : exponent (part ++ rest) = some rest := by
  rcases h with rfl | ⟨e, sign, digits, he, hsign, hdigits, rfl⟩
  · cases rest with
    | nil => rfl
    | cons c rest =>
        obtain ⟨-, -, hlower, hupper⟩ := hrest c rfl
        rw [List.nil_append, exponent, if_neg (not_or.mpr ⟨hlower, hupper⟩)]
  · rw [List.cons_append, exponent, if_pos he, List.append_assoc,
      skipExponentSign_append hsign hdigits, someDigits_complete hdigits hrest.noDigit]

theorem number_sound {text rest : List Char} (h : number text = some rest) :
    ∃ part, NumberText part ∧ text = part ++ rest := by
  unfold number at h
  obtain ⟨afterInt, hreadInt, hafter⟩ := Option.bind_eq_some_iff.mp h
  obtain ⟨afterFraction, hreadFraction, hreadExponent⟩ := Option.bind_eq_some_iff.mp hafter
  obtain ⟨sign, hsign, htext⟩ := skipSign_eq text
  obtain ⟨int, hint, hwhole⟩ := whole_sound hreadInt
  obtain ⟨fraction, hfraction, rfl⟩ := fraction_sound hreadFraction
  obtain ⟨exponent, hexponent, rfl⟩ := exponent_sound hreadExponent
  refine ⟨_, .mk hsign hint hfraction hexponent, ?_⟩
  rw [htext, hwhole]
  simp only [List.append_assoc]

/-- What follows the digits of a number is no digit. -/
theorem exponentText_ends {part rest : List Char} (h : ExponentText part)
    (hrest : NumberEnds rest) : NoDigit (part ++ rest) ∧ (part ++ rest).head? ≠ some '.' := by
  rcases h with rfl | ⟨e, sign, digits, he, -, -, rfl⟩
  · refine ⟨hrest.noDigit, fun hhead => ?_⟩
    exact (hrest '.' hhead).2.1 rfl
  · rcases he with rfl | rfl
    · exact ⟨NoDigit.cons (by decide) _, by simp⟩
    · exact ⟨NoDigit.cons (by decide) _, by simp⟩

theorem number_complete {text rest : List Char} (h : NumberText text) (hrest : NumberEnds rest) :
    number (text ++ rest) = some rest := by
  obtain ⟨hsign, hint, hfraction, hexponent⟩ := h
  rename_i sign int fraction exponent
  obtain ⟨hdigit, hpoint⟩ := exponentText_ends hexponent hrest
  have hafter : NoDigit (fraction ++ (exponent ++ rest)) := by
    rcases hfraction with rfl | ⟨digits, -, rfl⟩
    · exact hdigit
    · exact NoDigit.cons (by decide) _
  have hskip : skipSign (sign ++ (int ++ (fraction ++ (exponent ++ rest)))) =
      int ++ (fraction ++ (exponent ++ rest)) := by
    rcases hsign with rfl | rfl
    · have hminus : ∀ tail, int ++ (fraction ++ (exponent ++ rest)) ≠ '-' :: tail := by
        rcases hint with rfl | ⟨hdigits, -⟩
        · simp
        · obtain ⟨c, tail, rfl⟩ := List.exists_cons_of_ne_nil hdigits.nonempty
          have hc := hdigits.digits c List.mem_cons_self
          intro more heq
          obtain rfl := (List.cons.inj heq).1
          exact absurd hc (by decide)
      rw [List.nil_append, skipSign]
      exact hminus
    · rfl
  unfold number
  simp only [List.append_assoc]
  rw [hskip, whole_complete hint hafter, Option.bind_some,
    fraction_complete hfraction hdigit hpoint, Option.bind_some, exponent_complete hexponent hrest]

/-- A number starts with a digit or its sign. -/
theorem NumberText.exists_cons {text : List Char} (h : NumberText text) :
    ∃ c tail, text = c :: tail ∧ (c.isDigit = true ∨ c = '-') := by
  obtain ⟨hsign, hint, -, -⟩ := h
  rcases hsign with rfl | rfl
  · rcases hint with rfl | ⟨hdigits, -⟩
    · exact ⟨'0', _, rfl, .inl (by decide)⟩
    · obtain ⟨c, tail, rfl⟩ := List.exists_cons_of_ne_nil hdigits.nonempty
      exact ⟨c, _, rfl, .inl (hdigits.digits c List.mem_cons_self)⟩
  · exact ⟨'-', _, rfl, .inr rfl⟩

end TokenStation.Media.Json
