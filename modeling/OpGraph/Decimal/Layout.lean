import OpGraph.Decimal.Shortest

/-!
How a finite double is written: positionally while its exponent lies in a given range, otherwise
with one digit before the point and an exponent.
-/

namespace OpGraph.Decimal

/-- The decisions that a number format leaves open. -/
structure Layout where
  /-- The least exponent of the first digit that is written positionally. -/
  leastPositional : Int
  /-- The first exponent of the first digit that is no longer written positionally. -/
  endPositional : Int
  /-- Whether an exponent that is not negative has a sign. -/
  plusSign : Bool
  tie : Tie

def zeros (count : Nat) : String := String.ofList (List.replicate count '0')

/-- A whole number always has the digit `0` after its point. -/
def positional (digits : List Char) (exponent : Int) : String :=
  let whole := digits.length + exponent
  if 0 ≤ exponent then String.ofList digits ++ zeros exponent.toNat ++ ".0"
  else if 0 < whole then
    String.ofList (digits.take whole.toNat) ++ "." ++ String.ofList (digits.drop whole.toNat)
  else "0." ++ zeros (-whole).toNat ++ String.ofList digits

def scientific (plusSign : Bool) (digits : List Char) (exponent : Int) : String :=
  let leading := digits.length + exponent - 1
  let sign := if leading < 0 then "-" else if plusSign then "+" else ""
  let point := if digits.length = 1 then "" else "."
  String.ofList (digits.take 1) ++ point ++ String.ofList (digits.drop 1) ++ "e" ++ sign
    ++ toString leading.natAbs

def Layout.renderPositive (layout : Layout) (x : Binary64) : String :=
  let decimal := shortest layout.tie x
  let digits := Nat.toDigits 10 decimal.digits
  let leading := digits.length + decimal.exponent - 1
  if layout.leastPositional ≤ leading ∧ leading < layout.endPositional then
    positional digits decimal.exponent
  else scientific layout.plusSign digits decimal.exponent

/-- The text of a finite double. -/
def Layout.render (layout : Layout) (x : Binary64) : String :=
  (if x.isNegative then "-" else "") ++ if x.isZero then "0.0" else layout.renderPositive x

end OpGraph.Decimal
