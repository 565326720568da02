import OpGraph.Proofs.JsonNumbers
import OpGraph.Proofs.RoundingIntervals

/-! The texts of numbers are told apart. The text of a double spells its shortest decimal, wherever the point stands,
and has a point or an exponent, as no text of a whole number has. A text ends where the longest run of its signs does,
so that texts differ also with more text behind them. -/

namespace OpGraph

/-! ## Values of numerals -/

namespace Numeral

theorem foldl_digits (digits : List Nat) (start : Nat) :
    digits.foldl (fun value digit => 10 * value + digit) start = start * 10 ^ digits.length + digitsValue digits := by
  induction digits generalizing start with
  | nil => simp [digitsValue]
  | cons digit digits ih =>
    rw [digitsValue, List.foldl_cons, List.foldl_cons, ih, ih, List.length_cons]
    ring

theorem digitsValue_append (digits more : List Nat) :
    digitsValue (digits ++ more) = digitsValue digits * 10 ^ more.length + digitsValue more := by
  rw [digitsValue, List.foldl_append, foldl_digits more]
  rfl

theorem digitsValue_zeros (count : Nat) : digitsValue (List.replicate count 0) = 0 := by
  induction count with
  | zero => rfl
  | succ count ih => rw [List.replicate_succ, digitsValue, List.foldl_cons]; exact ih

def power : Option (Bool × List Nat) → ℤ
  | none => 0
  | some (false, digits) => digitsValue digits
  | some (true, digits) => -digitsValue digits

def exact (numeral : Numeral) : ℚ :=
  digitsValue (numeral.whole ++ numeral.fraction.getD []) * 10 ^
    (power numeral.exponent - (numeral.fraction.getD []).length)

end Numeral

namespace Document

/-! ## Texts with a point or an exponent -/

structure Written where
  whole : List Char
  fraction : Option (List Char)
  exponent : Option (Bool × List Char)

namespace Written

def fractionBytes : Option (List Char) → Bytes
  | none => []
  | some digits => 0x2E :: spelled digits

def exponentBytes : Option (Bool × List Char) → Bytes
  | none => []
  | some (isNegative, digits) => 0x65 :: (if isNegative then 0x2D else 0x2B) :: spelled digits

def bytes (written : Written) : Bytes :=
  spelled written.whole ++ (fractionBytes written.fraction ++ exponentBytes written.exponent)

def numeral (written : Written) (isNegative : Bool) : Numeral :=
  ⟨isNegative, places written.whole, written.fraction.map places,
    written.exponent.map fun (sign, digits) => (sign, places digits)⟩

/-- All are digits, no part is empty, and a zero leads only alone. -/
structure Valid (written : Written) : Prop where
  whole : ∀ char ∈ written.whole, char.isDigit
  someWhole : written.whole ≠ []
  leading : ∀ digit run, places written.whole ≠ 0 :: digit :: run
  fraction : ∀ digits ∈ written.fraction, digits ≠ [] ∧ ∀ char ∈ digits, char.isDigit
  exponent : ∀ sign digits, (sign, digits) ∈ written.exponent → digits ≠ [] ∧ ∀ char ∈ digits, char.isDigit

theorem places_ne_nil {chars : List Char} (nonempty : chars ≠ []) :
    places chars ≠ [] := by simpa [places] using nonempty

theorem digitsOne?_spelled {chars : List Char} (nonempty : chars ≠ [])
    (all : ∀ char ∈ chars, char.isDigit) {rest : Bytes}
    (stops : Stops rest) : digitsOne? (spelled chars ++ rest) = some (places chars, rest) :=
  digitsOne?_eq_some.mpr ⟨digits_spelled all stops, places_ne_nil nonempty⟩

theorem stops_exponentBytes (exponent : Option (Bool × List Char)) : Stops (exponentBytes exponent) := by
  cases exponent <;> simp [Stops, exponentBytes, isDigit]

theorem stops_fractionBytes (fraction : Option (List Char)) (exponent : Option (Bool × List Char)) :
    Stops (fractionBytes fraction ++ exponentBytes exponent) := by
  cases fraction with
  | none => exact stops_exponentBytes exponent
  | some digits => simp [Stops, fractionBytes, isDigit]

variable {written : Written}

theorem Valid.fraction? (valid : written.Valid) :
    Document.fraction? (fractionBytes written.fraction ++ exponentBytes written.exponent) =
    some (written.fraction.map places, exponentBytes written.exponent) := by
  cases found : written.fraction with
  | none => cases written.exponent <;> rfl
  | some digits =>
    obtain ⟨nonempty, all⟩ := valid.fraction digits found
    have read := digitsOne?_spelled nonempty all (stops_exponentBytes written.exponent)
    exact congrArg (Option.map (Prod.map some id)) read

theorem Valid.exponent? (valid : written.Valid) : Document.exponent? (exponentBytes written.exponent) =
    some (written.exponent.map fun (sign, digits) => (sign, places digits), []) := by
  cases found : written.exponent with
  | none => rfl
  | some exponent =>
    obtain ⟨sign, digits⟩ := exponent
    obtain ⟨nonempty, all⟩ := valid.exponent sign digits found
    have read := digitsOne?_spelled nonempty all (show Ends [] from trivial).stops
    rw [List.append_nil] at read
    have signed : Document.exponent? (exponentBytes (some (sign, digits))) = exponentDigits? sign (spelled digits) := by
      cases sign <;> rfl
    rw [signed, exponentDigits?, read]
    rfl

/-- What is written is read to its end, digit by digit. -/
theorem Valid.unsigned? (valid : written.Valid) (isNegative : Bool) :
    Document.unsigned? isNegative written.bytes = some (written.numeral isNegative, []) :=
  unsigned?_eq_some.mpr ⟨rfl, _, _, whole?_eq_some.mpr ⟨digits_spelled valid.whole (stops_fractionBytes _ _),
    places_ne_nil valid.someWhole, valid.leading⟩, valid.fraction?, valid.exponent?⟩

theorem Valid.numeral? (valid : written.Valid) (isNegative : Bool) :
    Document.numeral? ((if isNegative then [0x2D] else []) ++ written.bytes) =
      some (written.numeral isNegative, []) := by
  rw [← valid.unsigned?]
  cases isNegative with
  | true => rfl
  | false =>
    obtain ⟨char, chars, same⟩ := List.exists_cons_of_ne_nil valid.someWhole
    have front : written.bytes = UInt8.ofNat char.toNat :: (spelled chars ++
        (fractionBytes written.fraction ++ exponentBytes written.exponent)) := by rw [bytes, same]; rfl
    have digit : isDigit (UInt8.ofNat char.toNat) = true :=
      isDigit_of_mem_spelled valid.whole (same ▸ List.mem_cons_self)
    rw [front]
    refine numeral?_plain _ fun minus => ?_
    rw [minus] at digit
    cases digit

end Written
end Document

/-! ## Layouts -/

namespace Decimal

open Document

def positionalParts (digits : List Char) (exponent : ℤ) : Written :=
  let whole := digits.length + exponent
  if 0 ≤ exponent then ⟨digits ++ List.replicate exponent.toNat '0', some ['0'], none⟩
  else if 0 < whole then ⟨digits.take whole.toNat, some (digits.drop whole.toNat), none⟩
  else ⟨['0'], some (List.replicate (-whole).toNat '0' ++ digits), none⟩

def scientificParts (digits : List Char) (exponent : ℤ) : Written :=
  let leading := digits.length + exponent - 1
  ⟨digits.take 1, if digits.length = 1 then none else some (digits.drop 1),
    some (leading < 0, Nat.toDigits 10 leading.natAbs)⟩

section Parts

variable {digits : List Char} (all : ∀ char ∈ digits, char.isDigit)

theorem isDigit_of_mem_zeros {count : ℕ} : ∀ char ∈ List.replicate count '0', char.isDigit := by
  intro char member
  rw [List.eq_of_mem_replicate member]
  rfl

theorem spelled_append (digits more : List Char) :
    spelled (digits ++ more) = spelled digits ++ spelled more := List.map_append

include all

theorem encode_positional (exponent : ℤ) :
    Utf8.encode (positional digits exponent) = (positionalParts digits exponent).bytes := by
  have front (count : ℕ) := encode_spelled fun char member => all char (List.mem_of_mem_take (i := count) member)
  have back (count : ℕ) := encode_spelled fun char member => all char (List.mem_of_mem_drop (i := count) member)
  rw [positional, positionalParts]
  split
  · rw [Utf8.encode_append, Utf8.encode_append, encode_spelled all, zeros, encode_spelled isDigit_of_mem_zeros,
      ← spelled_append]
    rfl
  · split
    · rw [Utf8.encode_append, Utf8.encode_append, front, back, Written.bytes, List.append_assoc]
      exact congrArg (spelled _ ++ ·) (List.append_nil _).symm
    · rw [Utf8.encode_append, Utf8.encode_append, encode_spelled all, zeros, encode_spelled isDigit_of_mem_zeros,
        List.append_assoc, ← spelled_append]
      exact congrArg (0x30 :: 0x2E :: ·) (List.append_nil _).symm

theorem encode_scientific (exponent : ℤ) :
    Utf8.encode (scientific true digits exponent) = (scientificParts digits exponent).bytes := by
  have front := encode_spelled fun char member => all char (List.mem_of_mem_take (i := 1) member)
  have back := encode_spelled fun char member => all char (List.mem_of_mem_drop (i := 1) member)
  have point : Utf8.encode (if digits.length = 1 then "" else ".") ++ spelled (digits.drop 1) =
      Written.fractionBytes (if digits.length = 1 then none else some (digits.drop 1)) := by
    split
    next one => rw [List.drop_eq_nil_of_le (Nat.le_of_eq one)]; rfl
    next => rfl
  have power (leading : ℤ) : Utf8.encode "e" ++ (Utf8.encode (if leading < 0 then "-" else "+") ++
      Utf8.encode (toString leading.natAbs)) =
        Written.exponentBytes (some (leading < 0, Nat.toDigits 10 leading.natAbs)) := by
    rw [show toString leading.natAbs = leading.natAbs.repr from rfl, encode_repr]
    by_cases negative : leading < 0 <;> simp only [negative, if_true, if_false] <;> rfl
  rw [scientific, scientificParts, Written.bytes]
  simp only [Utf8.encode_append, front, back, List.append_assoc, if_true]
  rw [power, ← List.append_assoc (Utf8.encode _), point]

end Parts

section Value

variable (digits : List Char) (exponent : ℤ) (isNegative : Bool)

theorem exact_numeral (written : Written) : (written.numeral isNegative).exact =
    Numeral.digitsValue (places (written.whole ++ written.fraction.getD [])) *
      10 ^ (Numeral.power (written.numeral isNegative).exponent - (written.fraction.getD []).length) := by
  obtain ⟨whole, fraction, power⟩ := written
  cases fraction <;> simp [Numeral.exact, Written.numeral, places]

theorem places_zeros (count : ℕ) : places (List.replicate count '0') = List.replicate count 0 := List.map_replicate

/-- Wherever the point stands, the digits and the exponent are spelled. -/
theorem exact_positionalParts : ((positionalParts digits exponent).numeral isNegative).exact =
    Numeral.digitsValue (places digits) * 10 ^ exponent := by
  rw [exact_numeral, positionalParts]
  split
  next nonneg =>
    obtain ⟨count, rfl⟩ := Int.eq_ofNat_of_zero_le nonneg
    have zeros : digits ++ List.replicate count '0' ++ ['0'] = digits ++ List.replicate (count + 1) '0' := by
      rw [List.append_assoc, List.replicate_succ']
    have ten : (10 : ℚ) ^ (count + 1) * 10 ^ (0 - 1 : ℤ) = 10 ^ (count : ℤ) := by
      rw [← zpow_natCast, ← zpow_add₀ (by norm_num)]
      congr 1
      omega
    rw [Option.getD_some, Int.toNat_natCast, zeros, places, List.map_append, ← places, ← places, places_zeros,
      Numeral.digitsValue_append, Numeral.digitsValue_zeros, List.length_replicate, add_zero,
      Nat.cast_mul, Nat.cast_pow, Nat.cast_ofNat, mul_assoc]
    exact congrArg (_ * ·) ten
  next negative =>
    split
    next =>
      rw [Option.getD_some, List.take_append_drop, List.length_drop]
      congr 2
      change (0 : ℤ) - _ = _
      omega
    next =>
      have zeros : ['0'] ++ (List.replicate (-(digits.length + exponent)).toNat '0' ++ digits) =
          List.replicate ((-(digits.length + exponent)).toNat + 1) '0' ++ digits := by rw [List.replicate_succ]; rfl
      rw [Option.getD_some, zeros, places, List.map_append, ← places, ← places, places_zeros,
        Numeral.digitsValue_append, Numeral.digitsValue_zeros, zero_mul, zero_add, List.length_append,
        List.length_replicate]
      congr 2
      change (0 : ℤ) - _ = _
      omega

variable {digits}

theorem power_toDigits (leading : ℤ) :
    Numeral.power (some (decide (leading < 0), places (Nat.toDigits 10 leading.natAbs))) = leading := by
  by_cases negative : leading < 0
  all_goals
    simp only [negative, decide_true, decide_false, Numeral.power, digitsValue_toDigits]
    omega

theorem exact_scientificParts (nonempty : digits ≠ []) : ((scientificParts digits exponent).numeral isNegative).exact =
    Numeral.digitsValue (places digits) * 10 ^ exponent := by
  have positive := List.length_pos_iff.mpr nonempty
  have fraction : (if digits.length = 1 then none else some (digits.drop 1)).getD [] = digits.drop 1 := by
    split
    next one => exact (List.drop_eq_nil_of_le (Nat.le_of_eq one)).symm
    next => rfl
  rw [exact_numeral, scientificParts, fraction, List.take_append_drop, List.length_drop]
  congr 2
  refine (congrArg (· - _) (power_toDigits _)).trans ?_
  omega

end Value

section Valid

variable {digits : List Char} (all : ∀ char ∈ digits, char.isDigit)
include all

theorem digits_behind {count : ℕ} (inside : count < digits.length) :
    digits.drop count ≠ [] ∧ ∀ char ∈ digits.drop count, char.isDigit := by
  refine ⟨fun empty => ?_, fun char member => all char (List.mem_of_mem_drop member)⟩
  have shorter := List.drop_eq_nil_iff.mp empty
  omega

variable {first : ℕ} {rest : List Char} (same : digits = Nat.digitChar first :: rest)
include same

theorem valid_positionalParts (positive : 0 < first) (small : first < 10) (exponent : ℤ) :
    (positionalParts digits exponent).Valid := by
  have leading (chars : List Char) (digit : ℕ) (run : List ℕ) :
      places (Nat.digitChar first :: chars) ≠ 0 :: digit :: run := by
    intro zero
    rw [places, List.map_cons, Nat.toNat_digitChar_sub_48_of_lt_ten small] at zero
    exact positive.ne' (List.cons.inj zero).1
  have zero : ∀ char ∈ ['0'], char.isDigit := @isDigit_of_mem_zeros 1
  have length : digits.length = rest.length + 1 := by rw [same]; rfl
  rw [positionalParts]
  split
  · refine ⟨List.forall_mem_append.mpr ⟨all, isDigit_of_mem_zeros⟩, by simp [same], ?_, ?_,
      fun _ _ impossible => by cases impossible⟩
    · rw [same]
      exact leading _
    · rintro _ ⟨⟩
      exact ⟨List.cons_ne_nil _ _, zero⟩
  · split
    next inside =>
      obtain ⟨count, taken⟩ : ∃ count, (digits.length + exponent).toNat = count + 1 :=
        ⟨(digits.length + exponent).toNat - 1, by omega⟩
      refine ⟨fun char member => all char (List.mem_of_mem_take member), ?_, ?_, ?_,
        fun _ _ impossible => by cases impossible⟩
      · rw [taken, same]
        exact List.cons_ne_nil _ _
      · rw [taken, same, List.take_succ_cons]
        exact leading _
      · rintro _ ⟨⟩
        exact digits_behind all (by omega)
    next =>
      refine ⟨zero, List.cons_ne_nil _ _, fun digit run impossible => ?_, ?_, fun _ _ impossible => by cases impossible⟩
      · cases impossible
      · rintro _ ⟨⟩
        exact ⟨by simp [same], List.forall_mem_append.mpr ⟨isDigit_of_mem_zeros, all⟩⟩

theorem valid_scientificParts (exponent : ℤ) : (scientificParts digits exponent).Valid := by
  have length : digits.length = rest.length + 1 := by rw [same]; rfl
  refine ⟨fun char member => all char (List.mem_of_mem_take member), ?_, fun digit run long => ?_, ?_, ?_⟩
  · simp [scientificParts, same]
  · rw [scientificParts, same] at long
    cases (List.cons.inj long).2
  · intro chars member
    rw [scientificParts] at member
    split at member
    next => cases member
    next several =>
      cases member
      exact digits_behind all (by omega)
  · rintro _ _ ⟨⟩
    exact ⟨by simp, isDigit_of_mem_toDigits⟩

end Valid

/-- The text of a positive double spells its shortest decimal, with a point or an exponent. -/
theorem renderPositive_written (layout : Layout) (plusSign : layout.plusSign) {x : Binary64}
    (nonzero : 0 < x.significand) :
    ∃ written : Written, written.Valid ∧ Utf8.encode (layout.renderPositive x) = written.bytes ∧
      (written.fraction.isSome ∨ written.exponent.isSome) ∧
      ∀ isNegative, (written.numeral isNegative).exact = (shortest layout.tie x).value := by
  have positive : 0 < (shortest layout.tie x).digits := by
    have value := value_shortest_pos layout.tie nonzero
    exact Nat.pos_of_ne_zero fun zero => by simp [Decimal.value, zero] at value
  have all := @isDigit_of_mem_toDigits (shortest layout.tie x).digits
  obtain ⟨first, rest, same, leads, small⟩ := toDigits_head positive
  have spells : (Numeral.digitsValue (places (Nat.toDigits 10 (shortest layout.tie x).digits)) : ℚ) *
      10 ^ (shortest layout.tie x).exponent = (shortest layout.tie x).value := by
        rw [digitsValue_toDigits, Decimal.value]
  rw [Layout.renderPositive]
  split
  · refine ⟨_, valid_positionalParts all same leads small _, encode_positional all _, ?_, fun isNegative => ?_⟩
    · rw [positionalParts]
      split
      · exact .inl rfl
      · split <;> exact .inl rfl
    · rw [exact_positionalParts, spells]
  · rw [plusSign]
    refine ⟨_, valid_scientificParts all same _, encode_scientific all _, .inr rfl, fun isNegative => ?_⟩
    rw [exact_scientificParts _ _ (by rw [same]; exact List.cons_ne_nil _ _), spells]

end Decimal

/-! ## Numbers -/

namespace Number

open Document

/-- What a numeral says of the number in whose text it stands. -/
def SpelledBy (numeral : Numeral) : Number → Prop
  | natural value => ¬ (numeral.fraction.isSome ∨ numeral.exponent.isSome) ∧ numeral.isNegative = false ∧
      Numeral.digitsValue numeral.whole = value.toNat
  | negative value _ => ¬ (numeral.fraction.isSome ∨ numeral.exponent.isSome) ∧ numeral.isNegative = true ∧
      Numeral.digitsValue numeral.whole = value.toInt.natAbs
  | float value _ => (numeral.fraction.isSome ∨ numeral.exponent.isSome) ∧ numeral.isNegative = value.isNegative ∧
      numeral.exact = if value.isZero then 0 else (Decimal.shortest .toEven value).value

theorem eq_of_exact {value other : Binary64} (sign : value.isNegative = other.isNegative)
    (exact : (if value.isZero then 0 else (Decimal.shortest .toEven value).value) =
      if other.isZero then 0 else (Decimal.shortest .toEven other).value) : value = other := by
  have positive {value : Binary64} (nonzero : ¬ value.isZero) : 0 < (Decimal.shortest .toEven value).value :=
    Decimal.value_shortest_pos .toEven (Nat.pos_of_ne_zero fun none => nonzero (Binary64.isZero_iff.mpr none))
  split at exact
  next zero =>
    split at exact
    next otherZero =>
      refine Binary64.ext sign ?_ ?_
      · rw [Binary64.isZero_iff.mp zero, Binary64.isZero_iff.mp otherZero]
      · rw [Binary64.scale_of_isZero zero, Binary64.scale_of_isZero otherZero]
    next nonzero => exact absurd exact (positive nonzero).ne
  next nonzero =>
    split at exact
    next => exact absurd exact (positive nonzero).ne'
    next =>
      obtain ⟨significand, scale⟩ := Decimal.eq_of_value_shortest exact
      exact Binary64.ext sign significand scale

theorem eq_of_spelledBy {numeral : Numeral} {first second : Number} (here : first.SpelledBy numeral)
    (there : second.SpelledBy numeral) : first = second := by
  cases first with
  | natural value =>
    cases second with
    | natural other => exact congrArg natural (UInt64.toNat_inj.mp (here.2.2.symm.trans there.2.2))
    | negative other _ => exact absurd (here.2.1.symm.trans there.2.1) (by decide)
    | float other _ => exact absurd there.1 here.1
  | negative value isNegative =>
    cases second with
    | natural other => exact absurd (here.2.1.symm.trans there.2.1) (by decide)
    | negative other otherNegative =>
      have below : value.toInt < 0 := Int64.lt_iff_toInt_lt.mp isNegative
      have otherBelow : other.toInt < 0 := Int64.lt_iff_toInt_lt.mp otherNegative
      have magnitude := here.2.2.symm.trans there.2.2
      have same : value = other := Int64.toInt_inj.mp (by omega)
      subst same
      rfl
    | float other _ => exact absurd there.1 here.1
  | float value isFinite =>
    cases second with
    | natural other => exact absurd here.1 there.1
    | negative other _ => exact absurd here.1 there.1
    | float other _ =>
      obtain ⟨-, sign, spells⟩ := here
      obtain ⟨-, otherSign, otherSpells⟩ := there
      have exact : (if value.isZero then 0 else (Decimal.shortest .toEven value).value) =
          if other.isZero then 0 else (Decimal.shortest .toEven other).value := spells.symm.trans otherSpells
      have same := eq_of_exact (sign.symm.trans otherSign) exact
      subst same
      rfl

theorem valid_zero : (⟨['0'], some ['0'], none⟩ : Written).Valid where
  whole := @Decimal.isDigit_of_mem_zeros 1
  someWhole := List.cons_ne_nil _ _
  leading _ _ impossible := by cases impossible
  fraction := by
    rintro _ ⟨⟩
    exact ⟨List.cons_ne_nil _ _, @Decimal.isDigit_of_mem_zeros 1⟩
  exponent _ _ impossible := by cases impossible

theorem float_spelledBy (value : Binary64) (isFinite : value.isFinite) :
    ∃ numeral, numeral? (Utf8.encode (float value isFinite).text) = some (numeral, []) ∧
      (float value isFinite).SpelledBy numeral := by
  have sign : Utf8.encode (if value.isNegative then "-" else "") = if value.isNegative then [0x2D] else [] := by
    split <;> rfl
  have text : Utf8.encode (float value isFinite).text = (if value.isNegative then [0x2D] else []) ++
      Utf8.encode (if value.isZero then "0.0" else layout.renderPositive value) := by
    rw [← sign, ← Utf8.encode_append]
    rfl
  rw [text]
  by_cases zero : value.isZero
  · have exact : ((⟨['0'], some ['0'], none⟩ : Written).numeral value.isNegative).exact = 0 := by
      rw [Decimal.exact_numeral, show Numeral.digitsValue _ = 0 from rfl, Nat.cast_zero, zero_mul]
    rw [if_pos zero]
    refine ⟨_, valid_zero.numeral? value.isNegative, .inl rfl, rfl, ?_⟩
    rw [exact, if_pos zero]
  · have nonzero : 0 < value.significand := Nat.pos_of_ne_zero fun none => zero (Binary64.isZero_iff.mpr none)
    obtain ⟨written, valid, bytes, marked, exact⟩ := Decimal.renderPositive_written layout rfl nonzero
    rw [if_neg zero, bytes]
    refine ⟨_, valid.numeral? value.isNegative, ?_, rfl, ?_⟩
    · simpa [Written.numeral] using marked
    · rw [exact, if_neg zero]
      rfl

/-- The text of a number is read to its end, as what the number is. -/
theorem exists_spelledBy (number : Number) :
    ∃ numeral, numeral? (Utf8.encode number.text) = some (numeral, []) ∧ number.SpelledBy numeral := by
  cases number with
  | natural value => exact ⟨_, numeral?_natural value, by simp, rfl, digitsValue_toDigits _⟩
  | negative value isNegative => exact ⟨_, numeral?_negative value isNegative, by simp, rfl, digitsValue_toDigits _⟩
  | float value isFinite => exact float_spelledBy value isFinite

/-- Numbers are told apart by their texts, whatever follows the end of these. -/
theorem text_unambiguous {first second : Number} {rest other : Bytes} (ends : Ends rest) (otherEnds : Ends other)
    (same : Utf8.encode first.text ++ rest = Utf8.encode second.text ++ other) : first = second ∧ rest = other := by
  obtain ⟨numeral, read, spelled⟩ := first.exists_spelledBy
  obtain ⟨otherNumeral, otherRead, otherSpelled⟩ := second.exists_spelledBy
  have here := stable_numeral? read rest ends
  have there := stable_numeral? otherRead other otherEnds
  rw [same, there] at here
  obtain ⟨rfl, rfl⟩ := Prod.mk.inj (Option.some.inj here)
  exact ⟨eq_of_spelledBy spelled otherSpelled, rfl⟩

end Number
end OpGraph
