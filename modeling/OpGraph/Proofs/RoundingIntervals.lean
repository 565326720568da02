import OpGraph.Decimal.Shortest
import Mathlib.Algebra.Order.Field.Power
import Mathlib.Tactic.Linarith
import Mathlib.Tactic.NormNum
import Mathlib.Tactic.Positivity
import Mathlib.Tactic.Ring

/-! Shortest decimals tell doubles apart. A double is known from its sign, its significand and its scale. The numbers
that round to a double lie between those that round to its neighbours: where two intervals meet, the significand of
one of them is odd, and that one is open. A shortest decimal lies in the interval of its double, as the last of the
grids that are searched is finer than the interval. -/

namespace OpGraph

/-! ## Parts of a double -/

namespace Binary64

variable {x y : Binary64}

theorem fraction_lt (x : Binary64) : x.fraction < hiddenBit := Nat.mod_lt _ (by decide)

theorem significand_lt (x : Binary64) : x.significand < 2 ^ 53 := by
  have small := x.fraction_lt
  rw [hiddenBit] at small
  rw [significand, hiddenBit]
  split <;> omega

theorem scale_ge (x : Binary64) : -1074 ≤ x.scale := by
  rw [scale]
  split <;> omega

theorem scale_le (x : Binary64) : x.scale ≤ 972 := by
  have field : x.exponentField < 2048 := Nat.mod_lt _ (by decide)
  rw [scale]
  split <;> omega

/-- Above the least scale a significand has the hidden bit. -/
theorem significand_ge (normal : -1074 < x.scale) : 2 ^ 52 ≤ x.significand := by
  rw [scale] at normal
  rw [significand, hiddenBit]
  split at normal
  · omega
  next field => rw [if_neg field]; omega

/-- The significand is the least of those with its scale, and there is a smaller scale. -/
def IsLeast (x : Binary64) : Prop := x.significand = 2 ^ 52 ∧ -1074 < x.scale

theorem isLeast_iff : x.IsLeast ↔ x.fraction = 0 ∧ 1 < x.exponentField := by
  have small := x.fraction_lt
  rw [hiddenBit] at small
  rw [IsLeast, significand, scale, hiddenBit]
  split <;> omega

/-- The parts of the magnitude as one number. -/
theorem bits_mod (x : Binary64) : x.bits.toNat % signBit = (x.scale + 1074).toNat * 2 ^ 52 + x.significand := by
  have split : x.bits.toNat % signBit = x.exponentField * 2 ^ 52 + x.fraction := by
    rw [exponentField, fraction, signBit, hiddenBit]
    omega
  rw [split, scale, significand, hiddenBit]
  split <;> omega

theorem isZero_iff : x.isZero ↔ x.significand = 0 := by
  have least := x.scale_ge
  rw [isZero, beq_iff_eq, bits_mod]
  constructor
  · omega
  · intro none
    by_cases normal : -1074 < x.scale
    · have hidden := significand_ge normal
      omega
    · omega

/-- Both zeros have the least scale. -/
theorem scale_of_isZero (zero : x.isZero) : x.scale = -1074 := by
  have least := x.scale_ge
  have none := x.bits_mod
  rw [isZero, beq_iff_eq] at zero
  omega

/-- A double is known from its parts. -/
theorem ext (sign : x.isNegative = y.isNegative) (significand : x.significand = y.significand)
    (scale : x.scale = y.scale) : x = y := by
  have low := x.bits_mod
  rw [significand, scale, ← y.bits_mod] at low
  have high := x.bits.toNat_lt
  have otherHigh := y.bits.toNat_lt
  rw [isNegative, isNegative, decide_eq_decide] at sign
  rw [signBit] at low sign
  have same : x.bits = y.bits := UInt64.toNat_inj.mp (by omega)
  cases x
  cases y
  exact congrArg mk same

end Binary64

/-! ## Powers -/

section Powers

variable {base : ℚ} (positive : 0 < base)
include positive

/-- A power is a quotient of two, one of which is one. -/
theorem zpow_mul_pow_toNat (exponent : ℤ) : base ^ exponent * base ^ (-exponent).toNat = base ^ exponent.toNat := by
  rw [← zpow_natCast base (-exponent).toNat, ← zpow_natCast base exponent.toNat, ← zpow_add₀ positive.ne']
  congr 1
  omega

end Powers

/-- Powers of ten between powers of two, from `10 ^ 3 < 2 ^ 10` and `2 ^ 33 < 10 ^ 10`. -/
theorem ten_zpow_le_two_zpow {tens twos : ℤ} (above : 10 * tens ≤ 3 * twos) (below : 33 * tens ≤ 10 * twos) :
    (10 : ℚ) ^ tens ≤ 2 ^ twos := by
  obtain nonneg | negative := le_or_gt 0 tens
  · refine (pow_le_pow_iff_left₀ (by positivity) (by positivity) (show 3 ≠ 0 by decide)).mp ?_
    calc ((10 : ℚ) ^ tens) ^ 3 = (10 ^ 3) ^ tens := by rw [← zpow_natCast, zpow_comm]; norm_num
      _ ≤ (2 ^ 10) ^ tens := zpow_le_zpow_left₀ nonneg (by norm_num) (by norm_num)
      _ = 2 ^ (10 * tens) := by rw [zpow_mul]; norm_num
      _ ≤ 2 ^ (twos * 3) := zpow_le_zpow_right₀ (by norm_num) (by omega)
      _ = (2 ^ twos) ^ 3 := by rw [zpow_mul]; norm_num
  · refine (pow_le_pow_iff_left₀ (by positivity) (by positivity) (show 10 ≠ 0 by decide)).mp ?_
    calc ((10 : ℚ) ^ tens) ^ 10 = ((10 ^ 10) ^ (-tens))⁻¹ := by
          rw [← zpow_neg, neg_neg, ← zpow_natCast, zpow_comm]
          norm_num
      _ ≤ ((2 ^ 33) ^ (-tens))⁻¹ :=
        inv_anti₀ (by positivity) (zpow_le_zpow_left₀ (by omega) (by norm_num) (by norm_num))
      _ = 2 ^ (33 * tens) := by rw [← zpow_neg, neg_neg, zpow_mul]; norm_num
      _ ≤ 2 ^ (twos * 10) := zpow_le_zpow_right₀ (by norm_num) (by omega)
      _ = (2 ^ twos) ^ 10 := by rw [zpow_mul]; norm_num

theorem le_iff_of_scaled {first second : ℕ} {left right factor other : ℚ} (positive : 0 < factor)
    (otherPositive : 0 < other) (here : first * factor = other * left) (there : second * factor = other * right) :
    first ≤ second ↔ left ≤ right := by
  rw [← mul_le_mul_iff_right₀ otherPositive, ← here, ← there, mul_le_mul_iff_left₀ positive, Nat.cast_le]

namespace Decimal

def value (decimal : Decimal) : ℚ := decimal.digits * 10 ^ decimal.exponent

namespace RoundingInterval

variable {interval : RoundingInterval}

/-- The number rounds to the double of the interval. -/
def Contains (interval : RoundingInterval) (number : ℚ) : Prop :=
  if interval.closed then interval.lower * 2 ^ interval.unit ≤ number ∧ number ≤ interval.upper * 2 ^ interval.unit
  else interval.lower * 2 ^ interval.unit < number ∧ number < interval.upper * 2 ^ interval.unit

theorem contains_of_lt {number : ℚ} (below : interval.lower * 2 ^ interval.unit < number)
    (above : number < interval.upper * 2 ^ interval.unit) : interval.Contains number := by
  rw [Contains]
  split
  · exact ⟨below.le, above.le⟩
  · exact ⟨below, above⟩

/-! ## Grids -/

/-- A unit of the interval is `num / den` steps of the grid. -/
def num (interval : RoundingInterval) (exponent : ℤ) : ℕ := Nat.pow 10 (-exponent).toNat <<< interval.unit.toNat

def den (interval : RoundingInterval) (exponent : ℤ) : ℕ := Nat.pow 10 exponent.toNat <<< (-interval.unit).toNat

def inside (interval : RoundingInterval) (exponent : ℤ) (point : ℕ) : Bool :=
  if interval.closed then
    interval.lower * interval.num exponent ≤ point * interval.den exponent ∧
      point * interval.den exponent ≤ interval.upper * interval.num exponent
  else
    interval.lower * interval.num exponent < point * interval.den exponent ∧
      point * interval.den exponent < interval.upper * interval.num exponent

/-- The last point of the grid that is not above the double. -/
def below (interval : RoundingInterval) (exponent : ℤ) : ℕ :=
  interval.value * interval.num exponent / interval.den exponent

theorem num_mul_step (interval : RoundingInterval) (exponent : ℤ) :
    (interval.num exponent : ℚ) * 10 ^ exponent = interval.den exponent * 2 ^ interval.unit := by
  have tens := zpow_mul_pow_toNat (show (0 : ℚ) < 10 by norm_num) exponent
  have twos := zpow_mul_pow_toNat (show (0 : ℚ) < 2 by norm_num) interval.unit
  simp only [num, den, Nat.shiftLeft_eq, Nat.pow_eq, Nat.cast_mul, Nat.cast_pow, Nat.cast_ofNat]
  rw [← tens, ← twos]
  ring

theorem den_pos (interval : RoundingInterval) (exponent : ℤ) : 0 < interval.den exponent := by
  rw [den, Nat.shiftLeft_eq, Nat.pow_eq]
  positivity

/-- Bounds of the interval and points of the grid, in a common unit, compare as the numbers do. -/
theorem bound_scaled (interval : RoundingInterval) (exponent : ℤ) (bound : ℕ) :
    ((bound * interval.num exponent : ℕ) : ℚ) * 10 ^ exponent =
      interval.den exponent * (bound * 2 ^ interval.unit) := by
  rw [Nat.cast_mul, mul_assoc, num_mul_step]
  ring

theorem point_scaled (interval : RoundingInterval) (exponent : ℤ) (point : ℕ) :
    ((point * interval.den exponent : ℕ) : ℚ) * 10 ^ exponent = interval.den exponent * (point * 10 ^ exponent) := by
  rw [Nat.cast_mul]
  ring

section Scaled

variable (interval : RoundingInterval) (exponent : ℤ) (bound point : ℕ)

theorem bound_le_point : bound * interval.num exponent ≤ point * interval.den exponent ↔
    (bound : ℚ) * 2 ^ interval.unit ≤ point * 10 ^ exponent :=
  le_iff_of_scaled (by positivity) (Nat.cast_pos.mpr (interval.den_pos exponent)) (interval.bound_scaled exponent bound)
    (interval.point_scaled exponent point)

theorem point_le_bound : point * interval.den exponent ≤ bound * interval.num exponent ↔
    (point : ℚ) * 10 ^ exponent ≤ bound * 2 ^ interval.unit :=
  le_iff_of_scaled (by positivity) (Nat.cast_pos.mpr (interval.den_pos exponent)) (interval.point_scaled exponent point)
    (interval.bound_scaled exponent bound)

theorem inside_iff : interval.inside exponent point ↔ interval.Contains (point * 10 ^ exponent) := by
  rw [inside, Contains]
  split
  · rw [decide_eq_true_eq, bound_le_point, point_le_bound]
  · rw [decide_eq_true_eq, lt_iff_lt_of_le_iff_le (interval.point_le_bound exponent _ point),
      lt_iff_lt_of_le_iff_le (interval.bound_le_point exponent _ point)]

end Scaled

variable {tie : Tie} {exponent : ℤ}

theorem gridPoint?_eq (interval : RoundingInterval) (tie : Tie) (exponent : ℤ) : interval.gridPoint? tie exponent =
    match interval.inside exponent (interval.below exponent),
      interval.inside exponent (interval.below exponent + 1) with
    | false, false => none
    | true, false => some (interval.below exponent)
    | false, true => some (interval.below exponent + 1)
    | true, true =>
      match compare (2 * (interval.value * interval.num exponent))
        ((interval.below exponent + (interval.below exponent + 1)) * interval.den exponent) with
      | .lt => some (interval.below exponent)
      | .gt => some (interval.below exponent + 1)
      | .eq => match tie with
        | .up => some (interval.below exponent + 1)
        | .toEven => some (if interval.below exponent % 2 = 0 then interval.below exponent
          else interval.below exponent + 1) := rfl

/-- A point that is taken lies in the interval. -/
theorem contains_of_gridPoint? {point : ℕ} (found : interval.gridPoint? tie exponent = some point) :
    interval.Contains (point * 10 ^ exponent) := by
  rw [← inside_iff]
  rw [gridPoint?_eq] at found
  split at found
  next => cases found
  next here _ => exact Option.some.inj found ▸ here
  next _ there => exact Option.some.inj found ▸ there
  next here there =>
    -- whichever of the two is nearer, both are inside
    have either : point = interval.below exponent ∨ point = interval.below exponent + 1 := by
      grind
    obtain rfl | rfl := either
    · exact here
    · exact there

/-- A grid that is finer than the interval above the double has a point in it. -/
theorem isSome_gridPoint? (lower : interval.lower ≤ interval.value) (upper : interval.value + 2 ≤ interval.upper)
    (finer : (10 : ℚ) ^ exponent < 2 * 2 ^ interval.unit) : (interval.gridPoint? tie exponent).isSome := by
  have unitPositive : (0 : ℚ) < 2 ^ interval.unit := by positivity
  have least : (interval.below exponent : ℚ) * 10 ^ exponent ≤ interval.value * 2 ^ interval.unit :=
    (interval.point_le_bound exponent _ _).mp (Nat.div_mul_le_self _ _)
  have next : (interval.value : ℚ) * 2 ^ interval.unit < (interval.below exponent + 1 : ℕ) * 10 ^ exponent :=
    (lt_iff_lt_of_le_iff_le (interval.point_le_bound exponent _ _)).mp
      (Nat.lt_mul_of_div_lt (Nat.lt_succ_self _) (interval.den_pos exponent))
  have lowerBound : (interval.lower : ℚ) * 2 ^ interval.unit ≤ interval.value * 2 ^ interval.unit :=
    mul_le_mul_of_nonneg_right (Nat.cast_le.mpr lower) unitPositive.le
  have upperBound : (interval.value : ℚ) * 2 ^ interval.unit + 2 * 2 ^ interval.unit ≤
      interval.upper * 2 ^ interval.unit := by
    rw [← add_mul]
    exact mul_le_mul_of_nonneg_right (by exact_mod_cast upper) unitPositive.le
  have there : interval.inside exponent (interval.below exponent + 1) := by
    refine (interval.inside_iff exponent _).mpr (contains_of_lt (lt_of_le_of_lt lowerBound next) ?_)
    push_cast
    linarith
  rw [gridPoint?_eq, there]
  grind

/-- The search stops at a decimal in the interval, at the latest on the first grid that is finer. -/
theorem contains_search (lower : interval.lower ≤ interval.value)
    (upper : interval.value + 2 ≤ interval.upper) {grids : ℕ}
    (finer : (10 : ℚ) ^ (exponent - grids) < 2 * 2 ^ interval.unit) :
    interval.Contains (interval.search tie (grids + 1) exponent).value := by
  induction grids generalizing exponent with
  | zero =>
    rw [Nat.cast_zero, sub_zero] at finer
    have taken : (interval.gridPoint? tie exponent).isSome := isSome_gridPoint? lower upper finer
    obtain ⟨point, found⟩ := Option.isSome_iff_exists.mp taken
    rw [search, found]
    exact contains_of_gridPoint? found
  | succ grids ih =>
    rw [search]
    split
    next found => exact contains_of_gridPoint? found
    next => exact ih (by rwa [sub_sub, add_comm, ← Nat.cast_succ])

/-! ## The interval of a double -/

variable {x y : Binary64}

theorem unit_of (x : Binary64) : (of x).unit = x.scale - 2 := rfl

theorem upper_of (x : Binary64) : (of x).upper = 4 * x.significand + 2 := rfl

theorem closed_of (x : Binary64) : (of x).closed = true ↔ x.significand % 2 = 0 := decide_eq_true_iff

theorem lower_of_isLeast (least : x.IsLeast) : (of x).lower = 4 * x.significand - 1 := by
  have narrow := Binary64.isLeast_iff.mp least
  simp only [of, if_pos narrow]

theorem le_lower_of (x : Binary64) : 4 * x.significand - 2 ≤ (of x).lower := by
  rw [of]
  dsimp only
  split <;> omega

theorem lower_of_le (x : Binary64) : (of x).lower ≤ (of x).value := Nat.sub_le _ _

def Precedes (x y : Binary64) : Prop := x.scale < y.scale ∨ x.scale = y.scale ∧ x.significand < y.significand

/-- The interval of a greater double starts where that of a smaller one ends or later, and later if both are closed. -/
theorem upper_le_lower (precedes : Precedes x y) : ∃ power : ℕ, y.scale = x.scale + power ∧
    (of x).upper ≤ (of y).lower * 2 ^ power ∧
      ((of x).closed → (of y).closed → (of x).upper < (of y).lower * 2 ^ power) := by
  have least := x.scale_ge
  have small := x.significand_lt
  have starts := le_lower_of y
  rw [upper_of, closed_of, closed_of]
  obtain smaller | ⟨same, smaller⟩ := precedes
  · obtain ⟨power, next⟩ : ∃ power : ℕ, y.scale = x.scale + (power + 1 : ℕ) := ⟨(y.scale - x.scale - 1).toNat, by omega⟩
    have hidden := Binary64.significand_ge (show -1074 < y.scale by omega)
    have doubled : 2 ^ 54 - 1 ≤ (of y).lower := by
      by_cases least : y.IsLeast
      · rw [lower_of_isLeast least]
        omega
      · have greater : y.significand ≠ 2 ^ 52 := fun least' => least ⟨least', by omega⟩
        omega
    have grows : (of y).lower * 2 ≤ (of y).lower * 2 ^ (power + 1) :=
      Nat.mul_le_mul_left _ (Nat.le_self_pow (Nat.succ_ne_zero power) 2)
    exact ⟨power + 1, next, by omega, by omega⟩
  · refine ⟨0, by omega, ?_, ?_⟩ <;> rw [pow_zero, mul_one] <;> omega

theorem disjoint (precedes : Precedes x y) {number : ℚ} (here : (of x).Contains number) : ¬ (of y).Contains number := by
  intro there
  obtain ⟨power, next, meets, apart⟩ := upper_le_lower precedes
  have unitPositive : (0 : ℚ) < 2 ^ (of x).unit := by positivity
  have units : (2 : ℚ) ^ (of y).unit = 2 ^ power * 2 ^ (of x).unit := by
    rw [unit_of, unit_of, next, ← zpow_natCast, ← zpow_add₀ (by norm_num)]
    congr 1
    omega
  have meets : ((of x).upper : ℚ) * 2 ^ (of x).unit ≤ (of y).lower * 2 ^ (of y).unit := by
    rw [units, ← mul_assoc]
    exact mul_le_mul_of_nonneg_right (by exact_mod_cast meets) unitPositive.le
  rw [Contains] at here there
  split at here
  next closed =>
    split at there
    next alsoClosed =>
      have apart : ((of x).upper : ℚ) * 2 ^ (of x).unit < (of y).lower * 2 ^ (of y).unit := by
        rw [units, ← mul_assoc]
        exact mul_lt_mul_of_pos_right (by exact_mod_cast apart closed alsoClosed) unitPositive
      linarith [here.2, there.1]
    next => linarith [here.2, there.1]
  next =>
    split at there
    next => linarith [here.2, there.1]
    next => linarith [here.2, there.1]

/-- A number rounds to one magnitude only. -/
theorem eq_of_contains {number : ℚ} (here : (of x).Contains number) (there : (of y).Contains number) :
    x.significand = y.significand ∧ x.scale = y.scale := by
  have neither : ¬ Precedes x y ∧ ¬ Precedes y x :=
    ⟨fun before => disjoint before here there, fun after => disjoint after there here⟩
  simp only [Precedes] at neither
  omega

theorem pos_of_contains (nonzero : 0 < x.significand) {number : ℚ} (here : (of x).Contains number) : 0 < number := by
  have starts := le_lower_of x
  have lower : (0 : ℚ) < (of x).lower * 2 ^ (of x).unit := mul_pos (Nat.cast_pos.mpr (by omega)) (by positivity)
  rw [Contains] at here
  split at here
  · exact lt_of_lt_of_le lower here.1
  · exact lower.trans here.1

end RoundingInterval

/-- The last grid that is searched is finer than the interval, by far. -/
theorem last_grid_finer (x : Binary64) : (10 : ℚ) ^ (exponentAbove x - 23) < 2 * 2 ^ (x.scale - 2) := by
  have small : x.significand.log2 < 53 := by
    by_cases zero : x.significand = 0
    · rw [zero]
      decide
    · exact (Nat.log2_lt zero).mpr x.significand_lt
  have least := x.scale_ge
  have greatest := x.scale_le
  have bound : (10 : ℚ) ^ (exponentAbove x - 23) ≤ 2 ^ (x.scale - 2) := by
    apply ten_zpow_le_two_zpow <;> rw [exponentAbove] <;> omega
  have positive : (0 : ℚ) < 2 ^ (x.scale - 2) := by positivity
  linarith

/-- The shortest decimal of a double lies in its interval. -/
theorem contains_shortest (tie : Tie) (x : Binary64) : (RoundingInterval.of x).Contains (shortest tie x).value :=
  RoundingInterval.contains_search (RoundingInterval.lower_of_le x) (le_refl _) (last_grid_finer x)

theorem value_shortest_pos (tie : Tie) {x : Binary64} (nonzero : 0 < x.significand) : 0 < (shortest tie x).value :=
  RoundingInterval.pos_of_contains nonzero (contains_shortest tie x)

/-- Doubles with one shortest decimal have one magnitude. -/
theorem eq_of_value_shortest {tie other : Tie} {x y : Binary64}
    (same : (shortest tie x).value = (shortest other y).value) :
    x.significand = y.significand ∧ x.scale = y.scale :=
  RoundingInterval.eq_of_contains (contains_shortest tie x) (same ▸ contains_shortest other y)

end Decimal
end OpGraph
