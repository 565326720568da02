import OpGraph.Binary64.Basic

/-!
The double nearest to a quotient of natural numbers, a half going to the even neighbour. Products
and quotients of doubles are exact quotients that are then rounded once.
-/

namespace OpGraph.Binary64

/-- The quotient rounded to the nearest whole number, a half to the even one. -/
def roundQuotient (num den : Nat) : Nat :=
  let below := num / den
  let twice := 2 * (num % den)
  if twice < den ∨ twice = den ∧ below % 2 = 0 then below else below + 1

/-- The greatest `k` with `2 ^ k ≤ num / den`, both numbers being positive. -/
def floorLog2 (num den : Nat) : Int :=
  let guess : Int := num.log2 - den.log2
  if den <<< guess.toNat ≤ num <<< (-guess).toNat then guess else guess - 1

/-- The double nearest to `num / den`; from half a unit above the greatest finite one on, infinity. -/
def ofQuotient (num den : Nat) : Binary64 :=
  if num = 0 then zero
  else
    let scale := max (floorLog2 num den - 52) (-1074)
    let significand := roundQuotient (num <<< (-scale).toNat) (den <<< scale.toNat)
    let word := (scale + 1074).toNat * hiddenBit + significand
    if infinity.bits.toNat ≤ word then infinity else ⟨UInt64.ofNat word⟩

/-- The least magnitude that rounds to infinity, `2 ^ 1024 - 2 ^ 970`: half a unit above the greatest
finite double. -/
def overflow : Nat := 0x3FFFFFFFFFFFFF <<< 970

/-- Whether `coefficient * 10 ^ exponent` rounds to infinity. The number of digits before the point
decides, unless there are 309 of them; so no large power is computed. -/
def overflows (coefficient : Nat) (exponent : Int) : Bool :=
  let digitsBefore := (Nat.toDigits 10 coefficient).length + exponent
  coefficient != 0 && 309 ≤ digitsBefore
    && (309 < digitsBefore
      || overflow * Nat.pow 10 (-exponent).toNat ≤ coefficient * Nat.pow 10 exponent.toNat)

def ofNat (value : Nat) : Binary64 := ofQuotient value 1

def ofInt (value : Int) : Binary64 :=
  if value < 0 then (ofNat value.natAbs).negate else ofNat value.natAbs

/-- The product of two magnitudes. -/
def mulMagnitude (x y : Binary64) : Binary64 :=
  let scale := x.scale + y.scale
  ofQuotient ((x.significand * y.significand) <<< scale.toNat) (1 <<< (-scale).toNat)

/-- The quotient of two magnitudes, the second one not zero. -/
def divMagnitude (x y : Binary64) : Binary64 :=
  let scale := x.scale - y.scale
  ofQuotient (x.significand <<< scale.toNat) (y.significand <<< (-scale).toNat)

end OpGraph.Binary64
