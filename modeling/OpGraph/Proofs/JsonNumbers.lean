import OpGraph.Proofs.JsonStrings
import Mathlib.Data.List.TakeDrop
import Mathlib.Data.List.TakeWhile

/-! Numbers in JSON text. A number ends where the longest run of its characters does, so whatever ends a
value may follow it. Whole numbers read back from their digits; a double is read by its own arithmetic, so
that it reads back is a property of the single double. -/

namespace OpGraph
namespace Document

/-! ## What follows a number -/

def Ends : Bytes → Prop
  | [] => True
  | byte :: _ => isBlank byte ∨ byte = 0x2C ∨ byte = 0x5D ∨ byte = 0x7D

theorem Ends.head {byte : UInt8} {rest : Bytes} (ends : Ends (byte :: rest)) :
    isDigit byte = false ∧ byte ≠ 0x2E ∧ byte ≠ 0x65 ∧ byte ≠ 0x45 := by
  simp only [Ends, isBlank, Bool.or_eq_true, beq_iff_eq] at ends
  rcases ends with (((rfl | rfl) | rfl) | rfl) | rfl | rfl | rfl <;> decide

/-- What is read from the front of a text is read there also if a value ends with the text. -/
def Stable {α : Type} (read : Bytes → Option (α × Bytes)) : Prop :=
  ∀ {bytes found tail}, read bytes = some (found, tail) → ∀ rest, Ends rest →
    read (bytes ++ rest) = some (found, tail ++ rest)

def Stops (rest : Bytes) : Prop := ∀ byte ∈ rest.head?, isDigit byte = false

theorem Ends.stops {rest : Bytes} (ends : Ends rest) : Stops rest := by
  cases rest with
  | nil => exact fun _ member => nomatch member
  | cons byte rest => simpa [Stops] using ends.head.1

theorem digits_append (bytes : Bytes) {rest : Bytes} (stops : Stops rest) :
    digits (bytes ++ rest) = ((digits bytes).1, (digits bytes).2 ++ rest) := by
  simp only [digits, List.span_eq_takeWhile_dropWhile]
  induction bytes with
  | nil =>
    cases rest with
    | nil => rfl
    | cons byte rest => simp [stops byte rfl]
  | cons byte bytes ih =>
    by_cases digit : isDigit byte
    · obtain ⟨run, tail⟩ := Prod.mk.inj ih
      simp only [List.cons_append, List.takeWhile_cons, List.dropWhile_cons, digit, if_true, List.map_cons, run, tail]
    · simp [digit]

theorem digitsOne?_eq_some {bytes : Bytes} {found : List Nat × Bytes} :
    digitsOne? bytes = some found ↔ digits bytes = found ∧ found.1 ≠ [] := by
  unfold digitsOne?
  obtain ⟨run, left⟩ := digits bytes
  cases run with
  | nil =>
    constructor
    · intro impossible
      cases impossible
    · rintro ⟨rfl, some⟩
      exact absurd rfl some
  | cons digit run =>
    rw [Option.some.injEq]
    constructor
    · rintro rfl
      exact ⟨rfl, List.cons_ne_nil _ _⟩
    · exact And.left

theorem whole?_eq_some {bytes : Bytes} {found : List Nat × Bytes} :
    whole? bytes = some found ↔ digits bytes = found ∧ found.1 ≠ [] ∧ ∀ digit run, found.1 ≠ 0 :: digit :: run := by
  unfold whole?
  obtain ⟨run, left⟩ := digits bytes
  cases run with
  | nil =>
    constructor
    · intro impossible
      cases impossible
    · rintro ⟨rfl, some, _⟩
      exact absurd rfl some
  | cons first run =>
    by_cases zero : ∃ digit rest, first :: run = 0 :: digit :: rest
    · obtain ⟨digit, rest, same⟩ := zero
      cases same
      constructor
      · intro impossible
        cases impossible
      · rintro ⟨rfl, _, noZero⟩
        exact absurd rfl (noZero digit rest)
    · have noZero : ∀ digit rest, first :: run ≠ 0 :: digit :: rest := fun digit rest same => zero ⟨digit, rest, same⟩
      split
      next same => cases same
      next same =>
        cases same
        exact absurd rfl (noZero _ _)
      next =>
        rw [Option.some.injEq]
        constructor
        · rintro rfl
          exact ⟨rfl, List.cons_ne_nil _ _, noZero⟩
        · exact And.left

theorem stable_digitsOne? : Stable digitsOne? := by
  intro bytes found tail read rest ends
  obtain ⟨same, some⟩ := digitsOne?_eq_some.mp read
  exact digitsOne?_eq_some.mpr ⟨by rw [digits_append bytes ends.stops, same], some⟩

theorem stable_whole? : Stable whole? := by
  intro bytes found tail read rest ends
  obtain ⟨same, some⟩ := whole?_eq_some.mp read
  exact whole?_eq_some.mpr ⟨by rw [digits_append bytes ends.stops, same], some⟩

theorem Stable.map {α β : Type} {read : Bytes → Option (α × Bytes)} (stable : Stable read) (change : α → β) :
    Stable fun bytes => (fun (found, rest) => (change found, rest)) <$> read bytes := by
  intro bytes found tail ran rest ends
  obtain ⟨⟨first, left⟩, here, same⟩ := Option.map_eq_some_iff.mp ran
  cases same
  exact Option.map_eq_some_iff.mpr ⟨_, stable here rest ends, rfl⟩

/-- A part that is there only after a mark, where no mark follows a value. -/
theorem stable_marked {α : Type} {read : Bytes → Option (Option α × Bytes)} (Mark : UInt8 → Prop)
    (inside : Bytes → Option (Option α × Bytes)) (nothing : read [] = some (none, []))
    (absent : ∀ byte bytes, ¬ Mark byte → read (byte :: bytes) = some (none, byte :: bytes))
    (present : ∀ byte bytes, Mark byte → read (byte :: bytes) = inside bytes)
    (unmarked : ∀ {byte rest}, Ends (byte :: rest) → ¬ Mark byte) (stable : Stable inside) : Stable read := by
  intro bytes found tail ran rest ends
  cases bytes with
  | nil =>
    cases nothing.symm.trans ran
    cases rest with
    | nil => exact nothing
    | cons byte rest => exact absent byte rest (unmarked ends)
  | cons byte bytes =>
    by_cases mark : Mark byte
    · rw [present byte bytes mark] at ran
      rw [List.cons_append, present byte _ mark]
      exact stable ran rest ends
    · cases (absent byte bytes mark).symm.trans ran
      exact absent byte _ mark

theorem stable_fraction? : Stable fraction? := by
  refine stable_marked (· = 0x2E) (fun bytes => (fun read => (some read.1, read.2)) <$> digitsOne? bytes) rfl
    (fun byte bytes other => by simp [fraction?, other]) ?_ (fun ends => ends.head.2.1) ?_
  · rintro byte bytes rfl
    rfl
  · exact stable_digitsOne?.map some

theorem stable_exponentDigits? (isNegative : Bool) : Stable (exponentDigits? isNegative) :=
  stable_digitsOne?.map fun found => some (isNegative, found)

def exponentSign? : Bytes → Option (Option (Bool × List Nat) × Bytes)
  | 0x2B :: rest => exponentDigits? false rest
  | 0x2D :: rest => exponentDigits? true rest
  | rest => exponentDigits? false rest

theorem stable_exponentSign? : Stable exponentSign? := by
  intro bytes found tail read rest ends
  cases bytes with
  | nil => cases read
  | cons byte bytes =>
    by_cases plus : byte = 0x2B
    · subst plus
      exact stable_exponentDigits? false read rest ends
    · by_cases minus : byte = 0x2D
      · subst minus
        exact stable_exponentDigits? true read rest ends
      · have unsigned (bytes : Bytes) : exponentSign? (byte :: bytes) = exponentDigits? false (byte :: bytes) := by
          simp [exponentSign?, plus, minus]
        rw [unsigned] at read
        rw [List.cons_append, unsigned]
        exact stable_exponentDigits? false read rest ends

theorem stable_exponent? : Stable exponent? := by
  refine stable_marked (fun byte => byte = 0x65 ∨ byte = 0x45) exponentSign? rfl
    (fun byte bytes other => by simp [exponent?, not_or.mp other]) ?_ (fun ends => not_or.mpr ends.head.2.2) ?_
  · intro byte bytes letter
    have marked : (byte == 0x65 || byte == 0x45) = true := by simpa using letter
    simp only [exponent?, marked, if_true]
    rfl
  · exact stable_exponentSign?

def unsigned? (isNegative : Bool) (bytes : Bytes) : Option (Numeral × Bytes) := do
  let (whole, bytes) ← whole? bytes
  let (fraction, bytes) ← fraction? bytes
  let (exponent, bytes) ← exponent? bytes
  return (⟨isNegative, whole, fraction, exponent⟩, bytes)

theorem unsigned?_eq_some {isNegative : Bool} {bytes : Bytes} {numeral : Numeral} {tail : Bytes} :
    unsigned? isNegative bytes = some (numeral, tail) ↔ numeral.isNegative = isNegative ∧ ∃ afterWhole afterFraction,
      whole? bytes = some (numeral.whole, afterWhole) ∧ fraction? afterWhole = some (numeral.fraction, afterFraction) ∧
      exponent? afterFraction = some (numeral.exponent, tail) := by
  obtain ⟨sign, whole, fraction, exponent⟩ := numeral
  simp only [unsigned?, Option.bind_eq_bind, Option.bind_eq_some_iff, Prod.exists, Option.pure_def, Option.some.injEq,
    Prod.mk.injEq, Numeral.mk.injEq]
  constructor
  · rintro ⟨_, afterWhole, first, _, afterFraction, second, _, _, third, ⟨rfl, rfl, rfl, rfl⟩, rfl⟩
    exact ⟨rfl, afterWhole, afterFraction, first, second, third⟩
  · rintro ⟨rfl, afterWhole, afterFraction, first, second, third⟩
    exact ⟨_, afterWhole, first, _, afterFraction, second, _, _, third, ⟨rfl, rfl, rfl, rfl⟩, rfl⟩

theorem stable_unsigned? (isNegative : Bool) : Stable (unsigned? isNegative) := by
  intro bytes numeral tail read rest ends
  obtain ⟨sign, afterWhole, afterFraction, first, second, third⟩ := unsigned?_eq_some.mp read
  exact unsigned?_eq_some.mpr ⟨sign, _, _, stable_whole? first rest ends, stable_fraction? second rest ends,
    stable_exponent? third rest ends⟩

theorem numeral?_minus (bytes : Bytes) : numeral? (0x2D :: bytes) = unsigned? true bytes := rfl

theorem numeral?_plain {byte : UInt8} (bytes : Bytes) (unsigned : byte ≠ 0x2D) :
    numeral? (byte :: bytes) = unsigned? false (byte :: bytes) := by
  simp [numeral?, unsigned, unsigned?]

theorem stable_numeral? : Stable numeral? := by
  intro bytes found tail read rest ends
  cases bytes with
  | nil => cases read
  | cons byte bytes =>
    by_cases minus : byte = 0x2D
    · subst minus
      exact stable_unsigned? true read rest ends
    · rw [numeral?_plain bytes minus] at read
      rw [List.cons_append, numeral?_plain _ minus]
      exact stable_unsigned? false read rest ends

/-! ## Whole numbers -/

def spelled (chars : List Char) : Bytes := chars.map fun char => UInt8.ofNat char.toNat

def places (chars : List Char) : List Nat := chars.map fun char => char.toNat - 48

theorem ascii_of_isDigit {char : Char} (digit : char.isDigit) : char.toNat < 128 := by
  have bounds : 48 ≤ char.toNat ∧ char.toNat ≤ 57 := Char.isDigit_iff_toNat.mp digit
  omega

theorem encode_spelled {chars : List Char} (all : ∀ char ∈ chars, char.isDigit) :
    Utf8.encode (String.ofList chars) = spelled chars := by
  rw [Utf8.encode_ofList, Utf8.flatMap_ascii fun char member => ascii_of_isDigit (all char member), spelled]

theorem isDigit_of_mem_spelled {chars : List Char} (all : ∀ char ∈ chars, char.isDigit) {byte : UInt8}
    (member : byte ∈ spelled chars) : isDigit byte = true := by
  obtain ⟨char, listed, rfl⟩ := List.mem_map.mp member
  have digit := all char listed
  obtain ⟨least, most⟩ := Char.isDigit_iff_toNat.mp digit
  simp only [isDigit, Bool.and_eq_true, decide_eq_true_eq, UInt8.le_iff_toNat_le,
    Utf8.toNat_ofNat_ascii (ascii_of_isDigit digit)]
  exact ⟨least, most⟩

/-- Digits are read up to what is none. -/
theorem digits_spelled {chars : List Char} (all : ∀ char ∈ chars, char.isDigit) {rest : Bytes} (stops : Stops rest) :
    digits (spelled chars ++ rest) = (places chars, rest) := by
  have run : ∀ byte ∈ spelled chars, isDigit byte = true := fun _ => isDigit_of_mem_spelled all
  have values : (spelled chars).map (fun byte => byte.toNat - 48) = places chars := by
    rw [spelled, List.map_map]
    exact List.map_congr_left fun char member =>
      congrArg (· - 48) (Utf8.toNat_ofNat_ascii (ascii_of_isDigit (all char member)))
  have alone : digits (spelled chars) = (places chars, []) := by
    simp only [digits, List.span_eq_takeWhile_dropWhile]
    rw [List.takeWhile_eq_self_iff.mpr run, List.dropWhile_eq_nil_iff.mpr run]
    exact congrArg (·, []) values
  rw [digits_append _ stops, alone, List.nil_append]

def decimal (value : Nat) : Bytes := spelled (Nat.toDigits 10 value)

theorem isDigit_of_mem_toDigits {value : Nat} : ∀ char ∈ Nat.toDigits 10 value, char.isDigit :=
  fun _ member => Nat.isDigit_of_mem_toDigits (by omega) (by omega) member

theorem encode_repr (value : Nat) : Utf8.encode value.repr = decimal value := by
  rw [Nat.repr_eq_ofList_toDigits, encode_spelled isDigit_of_mem_toDigits, decimal]

theorem toDigits_head {value : Nat} (positive : 0 < value) :
    ∃ first rest, Nat.toDigits 10 value = Nat.digitChar first :: rest ∧ 0 < first ∧ first < 10 := by
  induction value using Nat.strongRecOn with
  | ind value ih =>
    by_cases small : value < 10
    · exact ⟨value, [], Nat.toDigits_of_lt_base small, positive, small⟩
    · obtain ⟨first, rest, same, bounds⟩ := ih (value / 10) (by omega) (by omega)
      refine ⟨first, rest ++ [Nat.digitChar (value % 10)], ?_, bounds⟩
      rw [Nat.toDigits_of_base_le (by omega) (by omega), same, List.cons_append]

theorem digitsValue_toDigits (value : Nat) : Numeral.digitsValue (places (Nat.toDigits 10 value)) = value := by
  rw [Numeral.digitsValue, places, List.foldl_map]
  exact Nat.ofDigitChars_ten_toDigits

/-- Only zero starts with a zero. -/
theorem toDigits_ne_zero_cons {value digit : Nat} {run : List Nat} :
    places (Nat.toDigits 10 value) ≠ 0 :: digit :: run := by
  intro same
  cases value with
  | zero => cases same
  | succ value =>
    obtain ⟨first, rest, digits, positive, small⟩ := toDigits_head (Nat.succ_pos value)
    rw [digits, places, List.map_cons, Nat.toNat_digitChar_sub_48_of_lt_ten small] at same
    have zero := (List.cons.inj same).1
    omega

/-- The digits are read to their end. -/
theorem unsigned?_decimal (isNegative : Bool) (value : Nat) :
    unsigned? isNegative (decimal value) = some (⟨isNegative, places (Nat.toDigits 10 value), none, none⟩, []) := by
  have some : places (Nat.toDigits 10 value) ≠ [] := by simp [places]
  have read : digits (decimal value ++ []) = _ :=
    digits_spelled isDigit_of_mem_toDigits (show Ends [] from trivial).stops
  rw [List.append_nil] at read
  have whole := whole?_eq_some.mpr ⟨read, some, fun _ _ => toDigits_ne_zero_cons⟩
  exact unsigned?_eq_some.mpr ⟨rfl, [], [], whole, rfl, rfl⟩

theorem exists_decimal_cons (value : Nat) : ∃ byte rest, decimal value = byte :: rest ∧ isDigit byte = true := by
  cases digits : decimal value with
  | nil => simp [decimal, spelled] at digits
  | cons byte rest =>
    exact ⟨byte, rest, rfl, isDigit_of_mem_spelled isDigit_of_mem_toDigits (digits ▸ List.mem_cons_self)⟩

end Document

namespace Number

def ReadsBack (number : Number) : Prop :=
  (Document.numeral? (Utf8.encode number.text)).map (fun (numeral, rest) => (numeral.value?, rest)) =
    some (some number, [])

instance (number : Number) : Decidable number.ReadsBack := inferInstanceAs (Decidable (_ = _))

theorem numeral?_natural (value : UInt64) : Document.numeral? (Utf8.encode (natural value).text) =
    some (⟨false, Document.places (Nat.toDigits 10 value.toNat), none, none⟩, []) := by
  have bytes : Utf8.encode (natural value).text = Document.decimal value.toNat := Document.encode_repr _
  obtain ⟨byte, rest, digits, digit⟩ := Document.exists_decimal_cons value.toNat
  have unsigned : byte ≠ 0x2D := by
    rintro rfl
    cases digit
  rw [bytes, digits, Document.numeral?_plain rest unsigned, ← digits, Document.unsigned?_decimal]

theorem numeral?_negative (value : Int64) (isNegative : value < 0) :
    Document.numeral? (Utf8.encode (negative value isNegative).text) =
      some (⟨true, Document.places (Nat.toDigits 10 value.toInt.natAbs), none, none⟩, []) := by
  obtain ⟨magnitude, same⟩ := Int.eq_negSucc_of_lt_zero (Int64.lt_iff_toInt_lt.mp isNegative)
  have minus : Utf8.encode "-" = [0x2D] := rfl
  have signed : (negative value isNegative).text = "-" ++ value.toInt.natAbs.repr := by
    rw [same]
    exact congrArg Int.repr same
  rw [signed, Utf8.encode_append, minus, Document.encode_repr, List.singleton_append, Document.numeral?_minus,
    Document.unsigned?_decimal]

theorem readsBack_natural (value : UInt64) : (natural value).ReadsBack := by
  rw [ReadsBack, numeral?_natural]
  simp [Numeral.value?, Document.digitsValue_toDigits, value.toNat_lt_size]

theorem readsBack_negative (value : Int64) (isNegative : value < 0) : (negative value isNegative).ReadsBack := by
  have below : value.toInt < 0 := Int64.lt_iff_toInt_lt.mp isNegative
  have least := value.le_toInt
  have negated : Int64.ofInt (-(value.toInt.natAbs : Int)) = value := by
    rw [Int.ofNat_natAbs_of_nonpos (Int.le_of_lt below), Int.neg_neg, Int64.ofInt_toInt]
  have fits : value.toInt.natAbs ≤ 0x8000000000000000 := by omega
  rw [ReadsBack, numeral?_negative]
  simp only [Option.map_some, Numeral.value?, Document.digitsValue_toDigits, Option.isSome_none,
    Bool.false_eq_true, or_self, if_false, if_true, negated, dif_pos (And.intro isNegative fits)]

end Number
end OpGraph
