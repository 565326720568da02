import OpGraph.Json.Value

/-!
The value of a number in JSON text. A whole number within 64 bits is exact. Any other one is a
double: its leading digits are taken while they fit in 64 bits, and the double nearest to them is
scaled by one power of ten. A number beyond the greatest double has no value.
-/

namespace OpGraph

/-- A number as its text gives it; digits are most significant first. -/
structure Numeral where
  isNegative : Bool
  whole : List Nat
  fraction : Option (List Nat)
  /-- Whether the exponent is negative, and its digits. -/
  exponent : Option (Bool × List Nat)

namespace Numeral

/-- Appends digits while the number stays below `2 ^ 64`; gives also the digits left over. -/
def absorb : (significand : Nat) → List Nat → Nat × List Nat
  | significand, [] => (significand, [])
  | significand, digit :: rest =>
    if 10 * significand + digit < UInt64.size then absorb (10 * significand + digit) rest
    else (significand, digit :: rest)

/-- A magnitude times a power of ten. Below `10 ^ -308` the division is done in steps. -/
def scaleTen : (steps : Nat) → Binary64 → Int → Option Binary64
  | 0, _, _ => none
  | steps + 1, magnitude, exponent =>
    if exponent.natAbs ≤ 308 then
      if 0 ≤ exponent then
        let product := magnitude.mulMagnitude (.ofNat (Nat.pow 10 exponent.toNat))
        if product.isFinite then some product else none
      else some (magnitude.divMagnitude (.ofNat (Nat.pow 10 exponent.natAbs)))
    else if magnitude.isZero then some magnitude
    else if 0 ≤ exponent then none
    else scaleTen steps (magnitude.divMagnitude (.ofNat (Nat.pow 10 308))) (exponent + 308)

def digitsValue (digits : List Nat) : Nat := digits.foldl (fun value digit => 10 * value + digit) 0

/-- The magnitude as a double. An exponent beyond 31 bits makes it zero or puts it out of range. -/
def magnitude? (numeral : Numeral) : Option Binary64 :=
  let fraction := numeral.fraction.getD []
  let (leading, lost) := absorb 0 numeral.whole
  let (significand, ignored) := absorb leading fraction
  let point : Int := lost.length - (fraction.length - ignored.length)
  let (isNegative, digits) := numeral.exponent.getD (false, [])
  let size := digitsValue digits
  if size < 0x80000000 then
    let exponent := if isNegative then point - size else point + size
    scaleTen (exponent.natAbs / 308 + 1) (.ofNat significand) exponent
  else if significand ≠ 0 ∧ ¬isNegative then none
  else some .zero

def float? (numeral : Numeral) : Option Number := do
  let magnitude ← numeral.magnitude?
  let value := if numeral.isNegative then magnitude.negate else magnitude
  if isFinite : value.isFinite then some (.float value isFinite) else none

/-- A whole number of 64 bits keeps its digits; `-0` does not, and is a double. -/
def value? (numeral : Numeral) : Option Number :=
  if numeral.fraction.isSome ∨ numeral.exponent.isSome then numeral.float?
  else
    let value := digitsValue numeral.whole
    if numeral.isNegative then
      let negated := Int64.ofInt (-value)
      if isNegative : negated < 0 ∧ value ≤ 0x8000000000000000 then some (.negative negated isNegative.1)
      else numeral.float?
    else if value < UInt64.size then some (.natural (UInt64.ofNat value))
    else numeral.float?

end Numeral
end OpGraph
