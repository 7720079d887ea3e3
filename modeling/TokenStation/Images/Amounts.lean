import TokenStation.Library.Decimals
import TokenStation.Library.Json

/-!
# Amounts an image component reports

A credit count is the decimal text of a JSON number, with the decimal point put
where the exponent moves it; a cost is a count of ticks written in dollars. Both
are decimals of the contract, which bounds their digits.
-/

namespace TokenStation.Images

open Library Library.Json Library.Decimals

/-! ## The contract's decimals -/

/-- The text before and after the first point. -/
def splitPoint (text : List Char) : List Char × Option (List Char) :=
  match text.dropWhile (· != '.') with
  | [] => (text, none)
  | _ :: fraction => (text.takeWhile (· != '.'), some fraction)

/-- A decimal amount with at most `places` digits behind the point. -/
def DecimalV1.parse (places : Nat) (text : List Char) : Option (List Char) :=
  let (whole, fraction) := splitPoint text
  let wholeOk := !whole.isEmpty && whole.length ≤ 18 && whole.all Char.isDigit
    && (whole == ['0'] || whole.head? != some '0')
  let fractionOk := fraction.all fun fraction =>
    1 ≤ fraction.length && fraction.length ≤ places && fraction.all Char.isDigit
  if wholeOk && fractionOk then some text else none

def creditPlaces : Nat := 6
def usdPlaces : Nat := 10

/-! ## Credits -/

/-- A signed 32-bit number in decimal digits. -/
def parseI32 (text : List Char) : Option Int :=
  let digits (text : List Char) : Option Nat :=
    if text.isEmpty || !text.all Char.isDigit then none else some (natOf text)
  let value : Option Int :=
    match text with
    | '+' :: rest => (digits rest).map fun n => (n : Int)
    | '-' :: rest => (digits rest).map fun n => -(n : Int)
    | _ => (digits text).map fun n => (n : Int)
  value.filter fun n => -2 ^ 31 ≤ n && n < 2 ^ 31

def isExponentMark (c : Char) : Bool := c == 'e' || c == 'E'

/-- The digits before and behind the point, once it stands behind `point` of them. -/
def placePoint (digits : List Char) (point : Int) : List Char × List Char :=
  if point ≤ 0 then (['0'], List.replicate point.natAbs '0' ++ digits)
  else if (digits.length : Int) ≤ point then
    (digits ++ List.replicate (point - digits.length).toNat '0', [])
  else (digits.take point.toNat, digits.drop point.toNat)

/-- The text of a decimal without needless zeros. -/
def trimmedDecimal (whole fraction : List Char) : List Char :=
  let whole := whole.dropWhile (· == '0')
  let whole := if whole.isEmpty then ['0'] else whole
  let fraction := fraction.rdropWhile (· == '0')
  if fraction.isEmpty then whole else whole ++ '.' :: fraction

/-- A number's text before its exponent, and the exponent. -/
def splitExponent (text : List Char) : Option (List Char × Int) :=
  match text.dropWhile (fun c => !isExponentMark c) with
  | [] => some (text, 0)
  | _ :: exponent =>
      (parseI32 exponent).map fun n => (text.takeWhile (fun c => !isExponentMark c), n)

/-- The digits of a JSON number's text without an exponent. -/
def plainDecimal (text : List Char) : Option (List Char) := do
  if text.head? = some '-' then none
  else
    let (mantissa, exponent) ← splitExponent text
    let (whole, fraction) := splitPoint mantissa
    let fraction := fraction.getD []
    let digits := whole ++ fraction
    if digits.isEmpty || !digits.all Char.isDigit then none
    else
      let point := (whole.length : Int) + exponent
      -- Far outside what a credit count can be.
      if ¬(-64 ≤ point ∧ point ≤ 64) then none
      else
        let (whole, fraction) := placePoint digits point
        some (trimmedDecimal whole fraction)

/-- The credits of a response value; `numberText` is the text of a number. -/
def credits (numberText : Number → List Char) : Value → Option (List Char)
  | .number number => (plainDecimal (numberText number)).bind (DecimalV1.parse creditPlaces)
  | _ => none

/-! ## Upstream costs -/

def ticksPerUsd : Nat := 10 ^ 10

inductive UpstreamCurrencyV1 where
  | usd
deriving DecidableEq, Repr

structure UpstreamCostV1 where
  currency : UpstreamCurrencyV1
  amount : List Char
deriving DecidableEq, Repr

/-- An integer of 64 bits with a sign. -/
def asI64 : Value → Option Int
  | .number (.posInt n) => if n < 2 ^ 63 then some n else none
  | .number (.negInt n) => some n
  | _ => none

/-- The dollars of a count of ticks. -/
def ticksAmount (ticks : Nat) : List Char :=
  let whole := Nat.toDigits 10 (ticks / ticksPerUsd)
  let fraction := ticks % ticksPerUsd
  if fraction = 0 then whole
  else whole ++ '.' :: (padded 10 fraction).rdropWhile (· == '0')

def upstreamCost (body : Value) : Option UpstreamCostV1 := do
  let ticks ← (body.get "usage").bind (·.get "cost_in_usd_ticks")
  let ticks ← asI64 ticks
  if ticks < 0 then none
  else
    let amount ← DecimalV1.parse usdPlaces (ticksAmount ticks.toNat)
    some ⟨.usd, amount⟩

end TokenStation.Images
