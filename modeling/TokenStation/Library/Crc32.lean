import Mathlib

/-!
# Reflected 32-bit checksums

The bitwise definition of a reflected cyclic checksum and its table-driven
form. One bit step is linear over exclusive or, and a word whose low bits are
clear is only shifted, so eight bit steps may look up the low byte and shift
the rest. When the polynomial has its top bit no step loses anything, so two
texts that differ inside four bytes have different checksums.
-/

namespace TokenStation.Library.Crc32

variable (poly : BitVec 32)

/-- Shift one bit out and fold the polynomial in when it was set. -/
def bitStep (crc : BitVec 32) : BitVec 32 :=
  if crc &&& 1#32 = 1#32 then (crc >>> 1) ^^^ poly else crc >>> 1

def bitSteps : Nat → BitVec 32 → BitVec 32
  | 0, crc => crc
  | n + 1, crc => bitSteps n (bitStep poly crc)

/-- One byte, bit by bit. -/
def bitwiseByte (crc : BitVec 32) (byte : UInt8) : BitVec 32 :=
  bitSteps poly 8 (crc ^^^ byte.toBitVec.setWidth 32)

/-- The effect of eight bit steps on every byte. -/
def table : List (BitVec 32) := (List.range 256).map fun i => bitSteps poly 8 (BitVec.ofNat 32 i)

/-- One byte, by table. -/
def tableByte (crc : BitVec 32) (byte : UInt8) : BitVec 32 :=
  (table poly).getD (crc.setWidth 8 ^^^ byte.toBitVec).toNat 0 ^^^ (crc >>> 8)

/-- The checksum, bit by bit. -/
def checksum (bytes : List UInt8) : BitVec 32 :=
  ~~~(bytes.foldl (bitwiseByte poly) (BitVec.allOnes 32))

/-- The checksum, by table. -/
def tableChecksum (bytes : List UInt8) : BitVec 32 :=
  ~~~(bytes.foldl (tableByte poly) (BitVec.allOnes 32))

theorem and_one_eq (crc : BitVec 32) : crc &&& 1#32 = 1#32 ↔ crc.getLsbD 0 = true := by
  rw [BitVec.and_one_eq_setWidth_ofBool_getLsbD]
  cases crc.getLsbD 0 <;> decide

theorem bitStep_eq (crc : BitVec 32) :
    bitStep poly crc = (crc >>> 1) ^^^ if crc.getLsbD 0 then poly else 0#32 := by
  unfold bitStep
  simp only [and_one_eq]
  split <;> simp

theorem bitStep_xor (x y : BitVec 32) :
    bitStep poly (x ^^^ y) = bitStep poly x ^^^ bitStep poly y := by
  simp only [bitStep_eq, BitVec.getLsbD_xor, BitVec.ushiftRight_xor_distrib]
  generalize x >>> 1 = u
  generalize y >>> 1 = v
  apply BitVec.eq_of_getLsbD_eq
  intro i _
  cases x.getLsbD 0 <;> cases y.getLsbD 0 <;> simp only [BitVec.getLsbD_xor] <;>
    cases u.getLsbD i <;> cases v.getLsbD i <;> cases poly.getLsbD i <;> simp

theorem bitSteps_xor (n : Nat) (x y : BitVec 32) :
    bitSteps poly n (x ^^^ y) = bitSteps poly n x ^^^ bitSteps poly n y := by
  induction n generalizing x y with
  | zero => rfl
  | succ n ih => rw [bitSteps, bitStep_xor, ih, bitSteps, bitSteps]

/-- Clear low bits are shifted out without touching the polynomial. -/
theorem bitSteps_of_low_clear {n : Nat} {x : BitVec 32} (h : ∀ i < n, x.getLsbD i = false) :
    bitSteps poly n x = x >>> n := by
  induction n generalizing x with
  | zero => simp [bitSteps]
  | succ n ih =>
      have hstep : bitStep poly x = x >>> 1 := by
        rw [bitStep_eq, h 0 (by omega)]
        simp
      rw [bitSteps, hstep, ih]
      · rw [← BitVec.shiftRight_add, Nat.add_comm]
      · intro i hi
        rw [BitVec.getLsbD_ushiftRight]
        exact h (1 + i) (by omega)

theorem table_getD (i : BitVec 8) :
    (table poly).getD i.toNat 0 = bitSteps poly 8 (i.setWidth 32) := by
  have hi : i.toNat < 256 := i.isLt
  have hofNat : BitVec.ofNat 32 i.toNat = i.setWidth 32 := by
    apply BitVec.eq_of_toNat_eq
    simp
  rw [table, List.getD_eq_getElem?_getD, List.getElem?_map, List.getElem?_range hi]
  simp [hofNat]

/-- A word is its low byte and the rest. -/
theorem low_xor_high (x : BitVec 32) :
    x = (x.setWidth 8).setWidth 32 ^^^ (x >>> 8) <<< 8 := by
  apply BitVec.eq_of_getLsbD_eq
  intro i hi
  simp only [BitVec.getLsbD_xor, BitVec.getLsbD_setWidth, BitVec.getLsbD_shiftLeft,
    BitVec.getLsbD_ushiftRight]
  by_cases hlow : i < 8
  · simp [hi, hlow]
  · simp [hi, hlow, show 8 + (i - 8) = i by omega]

/-- Eight bit steps are one table lookup. -/
theorem tableByte_eq (crc : BitVec 32) (byte : UInt8) :
    tableByte poly crc byte = bitwiseByte poly crc byte := by
  unfold tableByte bitwiseByte
  rw [table_getD]
  conv_rhs => rw [low_xor_high (crc ^^^ byte.toBitVec.setWidth 32), bitSteps_xor]
  congr 1
  · congr 1
    apply BitVec.eq_of_getLsbD_eq
    intro i hi
    simp only [BitVec.getLsbD_setWidth, BitVec.getLsbD_xor]
    by_cases hlow : i < 8
    · simp [hlow, hi]
    · have hbyte : byte.toBitVec.getLsbD i = false := BitVec.getLsbD_of_ge _ _ (by omega)
      simp [hlow, hbyte]
  · rw [bitSteps_of_low_clear]
    · apply BitVec.eq_of_getLsbD_eq
      intro i hi
      simp only [BitVec.getLsbD_ushiftRight, BitVec.getLsbD_shiftLeft, BitVec.getLsbD_xor,
        BitVec.getLsbD_setWidth]
      by_cases hhigh : 8 + i < 32
      · simp [hhigh]
      · have hcrc : crc.getLsbD (8 + i) = false := BitVec.getLsbD_of_ge _ _ (by omega)
        simp [hhigh, hcrc]
    · intro i hi
      simp [BitVec.getLsbD_shiftLeft, hi]

/-- The table-driven checksum is the bitwise one. -/
theorem tableChecksum_eq (bytes : List UInt8) : tableChecksum poly bytes = checksum poly bytes := by
  unfold tableChecksum checksum
  rw [show tableByte poly = bitwiseByte poly from funext fun crc => funext fun byte =>
    tableByte_eq poly crc byte]

/-! ## Bursts -/

variable {poly}

/-- A step folds in the top bit whenever it drops a set low bit, so it drops nothing. -/
theorem eq_zero_of_bitStep (htop : poly.getLsbD 31 = true) {x : BitVec 32}
    (h : bitStep poly x = 0#32) : x = 0#32 := by
  rw [bitStep_eq] at h
  have hbit := fun i => congrArg (BitVec.getLsbD · i) h
  simp only [BitVec.getLsbD_xor, BitVec.getLsbD_ushiftRight, BitVec.getLsbD_zero] at hbit
  have hlow : x.getLsbD 0 = false := by
    have hpast : x.getLsbD (1 + 31) = false := BitVec.getLsbD_of_ge _ _ (by omega)
    have htopBit := hbit 31
    rw [hpast, Bool.false_xor] at htopBit
    by_contra hset
    rw [Bool.not_eq_false] at hset
    rw [if_pos hset, htop] at htopBit
    cases htopBit
  apply BitVec.eq_of_getLsbD_eq
  intro i _
  cases i with
  | zero => rw [hlow, BitVec.getLsbD_zero]
  | succ i =>
      have hnext := hbit i
      rw [hlow] at hnext
      simpa [Nat.add_comm] using hnext

theorem bitSteps_injective (htop : poly.getLsbD 31 = true) (n : Nat) :
    Function.Injective (bitSteps poly n) := by
  have hzero : ∀ x, bitSteps poly n x = 0#32 → x = 0#32 := by
    induction n with
    | zero => exact fun x h => h
    | succ n ih => exact fun x h => eq_zero_of_bitStep htop (ih _ h)
  intro x y h
  refine BitVec.xor_eq_zero_iff.mp (hzero _ ?_)
  rw [bitSteps_xor, h, BitVec.xor_self]

/-- Bytes as one word, the first of them lowest. -/
def wordOf : List UInt8 → BitVec 32
  | [] => 0#32
  | byte :: bytes => byte.toBitVec.setWidth 32 ^^^ wordOf bytes <<< 8

theorem wordOf_high {bytes : List UInt8} {i : Nat} (h : 8 * bytes.length ≤ i) :
    (wordOf bytes).getLsbD i = false := by
  induction bytes generalizing i with
  | nil => simp [wordOf]
  | cons byte bytes ih =>
      rw [List.length_cons] at h
      have hbyte : byte.toBitVec.getLsbD i = false := BitVec.getLsbD_of_ge _ _ (by omega)
      have hrest : (wordOf bytes).getLsbD (i - 8) = false := ih (by omega)
      simp [wordOf, BitVec.getLsbD_setWidth, BitVec.getLsbD_shiftLeft, hbyte, hrest]

theorem wordOf_shift {bytes : List UInt8} (h : bytes.length ≤ 3) :
    wordOf bytes <<< 8 >>> 8 = wordOf bytes := by
  apply BitVec.eq_of_getLsbD_eq
  intro i _
  by_cases hlow : 8 + i < 32
  · rw [BitVec.getLsbD_ushiftRight, BitVec.getLsbD_shiftLeft]
    simp [hlow]
  · have hhigh : (wordOf bytes).getLsbD i = false := wordOf_high (by omega)
    simp [BitVec.getLsbD_ushiftRight, BitVec.getLsbD_shiftLeft, hlow, hhigh]

theorem wordOf_injective {a b : List UInt8} (hlength : a.length = b.length)
    (hfour : a.length ≤ 4) (h : wordOf a = wordOf b) : a = b := by
  induction a generalizing b with
  | nil => exact (List.length_eq_zero_iff.mp hlength.symm).symm
  | cons x a ih =>
      obtain _ | ⟨y, b⟩ := b
      · cases hlength
      · simp only [List.length_cons, Nat.add_right_cancel_iff] at hlength hfour
        have hfirst : x = y := by
          refine UInt8.toBitVec_inj.mp (BitVec.eq_of_getLsbD_eq fun i hi => ?_)
          have hbit := congrArg (BitVec.getLsbD · i) h
          simpa [wordOf, BitVec.getLsbD_shiftLeft, hi, show i < 32 by omega] using hbit
        subst hfirst
        have hshift : wordOf a <<< 8 = wordOf b <<< 8 := (BitVec.xor_right_inj _).mp h
        have hrest : wordOf a = wordOf b := by
          rw [← wordOf_shift (show a.length ≤ 3 by omega), hshift, wordOf_shift (by omega)]
        rw [ih hlength (by omega) hrest]

theorem bitSteps_add (poly : BitVec 32) (m n : Nat) (x : BitVec 32) :
    bitSteps poly (m + n) x = bitSteps poly n (bitSteps poly m x) := by
  induction m generalizing x with
  | zero => rw [Nat.zero_add, bitSteps]
  | succ m ih => rw [Nat.succ_add, bitSteps, ih, bitSteps]

/-- Up to four bytes are one word, folded in before all their bit steps. -/
theorem foldl_bitwiseByte (poly crc : BitVec 32) {bytes : List UInt8} (h : bytes.length ≤ 4) :
    bytes.foldl (bitwiseByte poly) crc =
      bitSteps poly (8 * bytes.length) (crc ^^^ wordOf bytes) := by
  induction bytes generalizing crc with
  | nil => simp [bitSteps, wordOf]
  | cons byte bytes ih =>
      rw [List.length_cons] at h
      have hshift : bitSteps poly 8 (wordOf bytes <<< 8) = wordOf bytes := by
        rw [bitSteps_of_low_clear, wordOf_shift (by omega)]
        intro i hi
        simp [BitVec.getLsbD_shiftLeft, hi]
      rw [List.foldl_cons, ih _ (by omega), List.length_cons,
        show 8 * (bytes.length + 1) = 8 + 8 * bytes.length by ring, bitSteps_add, wordOf,
        ← BitVec.xor_assoc, bitSteps_xor poly 8, hshift, bitwiseByte]

theorem foldl_bitwiseByte_injective (htop : poly.getLsbD 31 = true) (bytes : List UInt8) :
    Function.Injective fun crc => bytes.foldl (bitwiseByte poly) crc := by
  induction bytes with
  | nil => exact fun _ _ h => h
  | cons byte bytes ih =>
      intro x y h
      have hfirst := bitSteps_injective htop 8 (ih h)
      rwa [BitVec.xor_comm x, BitVec.xor_comm y, BitVec.xor_right_inj] at hfirst

/-- Texts that differ inside four bytes have different checksums. -/
theorem checksum_ne_of_burst (htop : poly.getLsbD 31 = true) {front a b back : List UInt8}
    (hlength : a.length = b.length) (hfour : a.length ≤ 4) (hne : a ≠ b) :
    checksum poly (front ++ a ++ back) ≠ checksum poly (front ++ b ++ back) := by
  intro h
  have hfold := BitVec.not_inj.mp h
  simp only [List.foldl_append] at hfold
  generalize front.foldl (bitwiseByte poly) (BitVec.allOnes 32) = crc at hfold
  have hfourB : b.length ≤ 4 := by omega
  have hinside := foldl_bitwiseByte_injective htop back hfold
  rw [foldl_bitwiseByte _ _ hfour, foldl_bitwiseByte _ _ hfourB, hlength] at hinside
  have hword := bitSteps_injective htop _ hinside
  exact hne (wordOf_injective hlength hfour ((BitVec.xor_right_inj _).mp hword))

end TokenStation.Library.Crc32
