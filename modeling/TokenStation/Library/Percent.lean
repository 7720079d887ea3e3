import Mathlib

/-!
# Percent-escaped bytes

An escape is a percent sign and two hexadecimal digits. Decoding replaces each
escape by its byte and keeps everything else. Separators are neither percent
signs nor digits, so decoding goes piece by piece.
-/

namespace TokenStation.Library.Percent

def percent : UInt8 := 0x25

/-- The value of a hexadecimal digit. -/
def hexNibble (byte : UInt8) : Option UInt8 :=
  if 0x30 ≤ byte ∧ byte ≤ 0x39 then some (byte - 0x30)
  else if 0x61 ≤ byte ∧ byte ≤ 0x66 then some (byte - 0x61 + 10)
  else if 0x41 ≤ byte ∧ byte ≤ 0x46 then some (byte - 0x41 + 10)
  else none

/-- The byte of an escape. -/
def escaped (sign high low : UInt8) : Option UInt8 :=
  if sign = percent then do
    let high ← hexNibble high
    let low ← hexNibble low
    return (high <<< 4) ||| low
  else none

/-- Every escape replaced by its byte; what is no escape stays. -/
def percentDecode : List UInt8 → List UInt8
  | sign :: high :: low :: rest =>
      match escaped sign high low with
      | some byte => byte :: percentDecode rest
      | none => sign :: percentDecode (high :: low :: rest)
  | short => short

theorem escaped_of_ne {sign : UInt8} (h : sign ≠ percent) (high low : UInt8) :
    escaped sign high low = none := if_neg h

theorem percentDecode_cons_ne {byte : UInt8} (h : byte ≠ percent) (rest : List UInt8) :
    percentDecode (byte :: rest) = byte :: percentDecode rest := by
  match rest with
  | [] => rfl
  | [_] => rfl
  | high :: low :: rest => rw [percentDecode, escaped_of_ne h]

theorem percentDecode_escape {high low byte : UInt8} (h : escaped percent high low = some byte)
    (rest : List UInt8) :
    percentDecode (percent :: high :: low :: rest) = byte :: percentDecode rest := by
  rw [percentDecode, h]

/-- Text without percent signs has nothing to decode. -/
theorem percentDecode_of_not_mem {text : List UInt8} (h : percent ∉ text) :
    percentDecode text = text := by
  induction text with
  | nil => rfl
  | cons byte text ih =>
      obtain ⟨hne, hrest⟩ := not_or.mp (mt List.mem_cons.mpr h)
      rw [percentDecode_cons_ne (Ne.symm hne), ih hrest]

/-- A byte that is no part of any escape. -/
structure Separator (sep : UInt8) : Prop where
  notSign : sep ≠ percent
  notDigit : hexNibble sep = none

theorem Separator.first {sep : UInt8} (h : Separator sep) (sign low : UInt8) :
    escaped sign sep low = none := by
  unfold escaped
  rw [h.notDigit]
  split <;> rfl

theorem Separator.second {sep : UInt8} (h : Separator sep) (sign high : UInt8) :
    escaped sign high sep = none := by
  unfold escaped
  rw [h.notDigit]
  split
  · cases hexNibble high <;> rfl
  · rfl

/-- Decoding goes piece by piece. -/
theorem percentDecode_append {sep : UInt8} (hsep : Separator sep) (text rest : List UInt8) :
    percentDecode (text ++ sep :: rest) = percentDecode text ++ sep :: percentDecode rest := by
  induction text using percentDecode.induct with
  | case1 sign high low text byte hescape ih =>
      rw [List.cons_append, List.cons_append, List.cons_append, percentDecode, percentDecode,
        hescape]
      exact congrArg (byte :: ·) ih
  | case2 sign high low text hnone ih =>
      rw [List.cons_append, List.cons_append, List.cons_append, percentDecode, percentDecode,
        hnone]
      exact congrArg (sign :: ·) ih
  | case3 short hshort =>
      match short with
      | [] => exact percentDecode_cons_ne hsep.notSign rest
      | [a] =>
          cases rest with
          | nil => rfl
          | cons b rest =>
              change percentDecode (a :: sep :: b :: rest) = a :: sep :: percentDecode (b :: rest)
              rw [percentDecode, hsep.first]
              exact congrArg (a :: ·) (percentDecode_cons_ne hsep.notSign _)
      | [a, b] =>
          change percentDecode (a :: b :: sep :: rest) = a :: b :: sep :: percentDecode rest
          rw [percentDecode, hsep.second]
          have htail : percentDecode (b :: sep :: rest) = b :: sep :: percentDecode rest := by
            cases rest with
            | nil => rfl
            | cons c rest =>
                rw [percentDecode, hsep.first]
                exact congrArg (b :: ·) (percentDecode_cons_ne hsep.notSign _)
          exact congrArg (a :: ·) htail
      | a :: b :: c :: more => exact absurd rfl (hshort a b c more)

/-- A text is one piece, or a piece, a separator and the rest. -/
theorem exists_piece (sep : UInt8) (text : List UInt8) :
    sep ∉ text ∨ ∃ piece rest, text = piece ++ sep :: rest ∧ sep ∉ piece := by
  by_cases h : sep ∈ text
  · obtain ⟨piece, rest, htext, hpiece⟩ := List.eq_append_cons_of_mem h
    exact .inr ⟨piece, rest, htext, hpiece⟩
  · exact .inl h

/-- A text without escapes is the same however often it is decoded. -/
theorem iterate_percentDecode {text : List UInt8} (h : percent ∉ text) (n : Nat) :
    percentDecode^[n] text = text :=
  Function.iterate_fixed (percentDecode_of_not_mem h) n

theorem iterate_percentDecode_cons {byte : UInt8} (h : byte ≠ percent) (rest : List UInt8)
    (n : Nat) : percentDecode^[n] (byte :: rest) = byte :: percentDecode^[n] rest := by
  induction n generalizing rest with
  | zero => rfl
  | succ n ih =>
      rw [Function.iterate_succ_apply, percentDecode_cons_ne h, ih, Function.iterate_succ_apply]

theorem iterate_percentDecode_append {sep : UInt8} (hsep : Separator sep)
    (text rest : List UInt8) (n : Nat) :
    percentDecode^[n] (text ++ sep :: rest) =
      percentDecode^[n] text ++ sep :: percentDecode^[n] rest := by
  induction n generalizing text rest with
  | zero => rfl
  | succ n ih =>
      rw [Function.iterate_succ_apply, percentDecode_append hsep, ih, Function.iterate_succ_apply,
        Function.iterate_succ_apply]

end TokenStation.Library.Percent
