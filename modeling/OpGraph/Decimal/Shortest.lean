import OpGraph.Binary64.Basic

/-!
The shortest decimal that reads back as a given double: among the decimals nearer to it than to any
other double, one on the coarsest grid of powers of ten, and of the two neighbours on that grid the
nearer one.
-/

namespace OpGraph

/-- The positive number `digits * 10 ^ exponent`. -/
structure Decimal where
  digits : Nat
  exponent : Int
deriving DecidableEq

namespace Decimal

/-- Which of two equally near neighbours is taken. -/
inductive Tie where
  | toEven
  | up
deriving DecidableEq

/-- The numbers that round to one positive double, in units of `2 ^ unit`. -/
structure RoundingInterval where
  lower : Nat
  value : Nat
  upper : Nat
  unit : Int
  /-- Whether the two ends round to the double as well. -/
  closed : Bool

/-- The neighbour below is only half as far away where the significand is the least of its binade. -/
def RoundingInterval.of (x : Binary64) : RoundingInterval :=
  let significand := x.significand
  let narrow := x.fraction = 0 ∧ 1 < x.exponentField
  { lower := 4 * significand - if narrow then 1 else 2
    value := 4 * significand
    upper := 4 * significand + 2
    unit := x.scale - 2
    closed := significand % 2 = 0 }

/-- The multiple of `10 ^ exponent` that stands for the interval, if one lies in it. -/
def RoundingInterval.gridPoint? (interval : RoundingInterval) (tie : Tie) (exponent : Int) : Option Nat :=
  let num := Nat.pow 10 (-exponent).toNat <<< interval.unit.toNat
  let den := Nat.pow 10 exponent.toNat <<< (-interval.unit).toNat
  let inside (point : Nat) : Bool :=
    if interval.closed then interval.lower * num ≤ point * den ∧ point * den ≤ interval.upper * num
    else interval.lower * num < point * den ∧ point * den < interval.upper * num
  let below := interval.value * num / den
  let above := below + 1
  match inside below, inside above with
  | false, false => none
  | true, false => some below
  | false, true => some above
  | true, true =>
    match compare (2 * (interval.value * num)) ((below + above) * den) with
    | .lt => some below
    | .gt => some above
    | .eq => match tie with
      | .up => some above
      | .toEven => some (if below % 2 = 0 then below else above)

/-- The first hit on the grids `10 ^ exponent`, `10 ^ (exponent - 1)`, … -/
def RoundingInterval.search (interval : RoundingInterval) (tie : Tie) :
    (grids : Nat) → (exponent : Int) → Decimal
  | 0, exponent => ⟨interval.value, exponent⟩
  | grids + 1, exponent =>
    match interval.gridPoint? tie exponent with
    | some digits => ⟨digits, exponent⟩
    | none => search interval tie grids (exponent - 1)

/-- A power of ten above the double: `0.30103` is just above the decimal logarithm of two. -/
def exponentAbove (x : Binary64) : Int :=
  (x.significand.log2 + x.scale + 1) * 30103 / 100000 + 2

/-- The shortest decimal for a positive finite double. Seventeen digits always suffice. -/
def shortest (tie : Tie) (x : Binary64) : Decimal :=
  (RoundingInterval.of x).search tie 24 (exponentAbove x)

end Decimal
end OpGraph
