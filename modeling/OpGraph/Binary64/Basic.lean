/-!
Double-precision numbers, given by their bits. A finite one stands for
`± significand * 2 ^ scale`; all arithmetic on them is exact arithmetic on these two parts.
-/

namespace OpGraph

/-- A double-precision binary floating-point number. -/
structure Binary64 where
  bits : UInt64
deriving DecidableEq

namespace Binary64

def zero : Binary64 := ⟨0⟩

def infinity : Binary64 := ⟨0x7FF0000000000000⟩

/-- The place of the sign in the bits. -/
def signBit : Nat := 0x8000000000000000

/-- `2 ^ 52`, which is one in the place above the bits of the fraction. -/
def hiddenBit : Nat := 0x10000000000000

def isNegative (x : Binary64) : Bool := signBit ≤ x.bits.toNat

/-- The eleven bits of the exponent, as stored. -/
def exponentField (x : Binary64) : Nat := x.bits.toNat / hiddenBit % 2048

def fraction (x : Binary64) : Nat := x.bits.toNat % hiddenBit

def isFinite (x : Binary64) : Bool := x.exponentField < 2047

def isNaN (x : Binary64) : Bool := x.exponentField == 2047 && x.fraction != 0

def isZero (x : Binary64) : Bool := x.bits.toNat % signBit == 0

/-- The whole number that is scaled by a power of two; it has the hidden bit unless the number is
subnormal. -/
def significand (x : Binary64) : Nat :=
  if x.exponentField = 0 then x.fraction else hiddenBit + x.fraction

def scale (x : Binary64) : Int :=
  if x.exponentField = 0 then -1074 else x.exponentField - 1075

def negate (x : Binary64) : Binary64 := ⟨x.bits ^^^ 0x8000000000000000⟩

/-- Equality as numbers: the two zeros are equal, and what is not a number equals nothing. -/
def numEq (x y : Binary64) : Bool :=
  !x.isNaN && !y.isNaN && (x == y || x.isZero && y.isZero)

end Binary64
end OpGraph
