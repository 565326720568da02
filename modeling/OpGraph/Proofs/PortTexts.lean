import Mathlib.Data.List.TakeDrop
import Mathlib.Data.Nat.Digits.Defs
import OpGraph.Graph.PortSpec

/-! Ports as text. What stands beside the number may be any text, colons included: a number has none, so the colon next
to it can be told from those of the id. Every port has a text, and every text is that of one port or of none. -/

namespace OpGraph.PortSpec

/-! ## Numbers -/

def spelledValue (digits : List Char) : Nat := Nat.ofDigits 10 (digits.reverse.map fun digit => digit.toNat - '0'.toNat)

/-- An optional plus sign and some decimal digits that spell the number. -/
def Spells (text : String) (number : UInt64) : Prop :=
  ∃ sign digits : List Char, text.toList = sign ++ digits ∧ (sign = [] ∨ sign = ['+']) ∧ digits ≠ [] ∧
    (∀ digit ∈ digits, digit.isDigit) ∧ spelledValue digits = number.toNat

theorem spelledValue_eq (digits : List Char) : spelledValue digits = Nat.ofDigitChars 10 digits 0 := by
  rw [spelledValue, Nat.ofDigits_eq_foldr, List.foldr_map, List.foldr_reverse, Nat.ofDigitChars]
  simp only [Nat.cast_id, Nat.add_comm]

def unsigned : List Char → List Char
  | '+' :: rest => rest
  | chars => chars

theorem number?_eq (chars : List Char) : number? chars =
    if (unsigned chars).isEmpty || !(unsigned chars).all Char.isDigit then none
    else if Nat.ofDigitChars 10 (unsigned chars) 0 < UInt64.size then
      some (UInt64.ofNat (Nat.ofDigitChars 10 (unsigned chars) 0))
    else none := by
  unfold unsigned
  rfl

theorem unsigned_digits {digits : List Char} (all : ∀ digit ∈ digits, digit.isDigit) : unsigned digits = digits := by
  unfold unsigned
  split
  next => exact absurd (all '+' List.mem_cons_self) (by decide)
  next => rfl

theorem exists_sign (chars : List Char) : ∃ sign, chars = sign ++ unsigned chars ∧ (sign = [] ∨ sign = ['+']) := by
  unfold unsigned
  split
  next rest => exact ⟨['+'], rfl, .inr rfl⟩
  next => exact ⟨[], rfl, .inl rfl⟩

theorem spells_iff {text : String} {number : UInt64} : Spells text number ↔ unsigned text.toList ≠ [] ∧
    (∀ digit ∈ unsigned text.toList, digit.isDigit) ∧ Nat.ofDigitChars 10 (unsigned text.toList) 0 = number.toNat := by
  simp only [← spelledValue_eq]
  constructor
  · rintro ⟨sign, digits, whole, signed, rest⟩
    have same : unsigned text.toList = digits := by
      rw [whole]
      rcases signed with rfl | rfl
      · exact unsigned_digits rest.2.1
      · rfl
    rwa [same]
  · intro rest
    obtain ⟨sign, whole, signed⟩ := exists_sign text.toList
    exact ⟨sign, _, whole, signed, rest⟩

theorem number?_eq_some_iff {text : String} {number : UInt64} :
    number? text.toList = some number ↔ Spells text number := by
  have fits (value : Nat) : value < UInt64.size ∧ UInt64.ofNat value = number ↔ value = number.toNat := by
    constructor
    · rintro ⟨small, rfl⟩
      exact (UInt64.toNat_ofNat_of_lt' small).symm
    · rintro rfl
      exact ⟨number.toNat_lt, UInt64.ofNat_toNat⟩
  rw [spells_iff, number?_eq, Option.ite_none_left_eq_some, Option.ite_none_right_eq_some, Option.some.injEq, fits]
  simp [and_assoc]

theorem Spells.no_colon {text : String} {number : UInt64} (spells : Spells text number) : ':' ∉ text.toList := by
  obtain ⟨sign, digits, whole, signed, _, all, _⟩ := spells
  rw [whole, List.mem_append, not_or]
  constructor
  · rcases signed with rfl | rfl <;> decide
  · exact fun member => absurd (all ':' member) (by decide)

theorem spells_toString (number : UInt64) : Spells (toString number) number := by
  have text : (toString number).toList = Nat.toDigits 10 number.toNat :=
    (congrArg String.toList Nat.repr_eq_ofList_toDigits).trans String.toList_ofList
  refine ⟨[], Nat.toDigits 10 number.toNat, text, .inl rfl, Nat.toDigits_ne_nil, ?_, ?_⟩
  · exact fun _ => Nat.isDigit_of_mem_toDigits (by decide) (by decide)
  · rw [spelledValue_eq, Nat.ofDigitChars_ten_toDigits]

/-! ## Colons -/

theorem splitFirst?_cons (char : Char) (chars : List Char) : splitFirst? (char :: chars) =
    if char = ':' then some ([], chars) else (splitFirst? chars).map fun (before, after) =>
      (char :: before, after) := by
  simp only [splitFirst?, List.span_eq_takeWhile_dropWhile, List.takeWhile_cons, List.dropWhile_cons, bne_iff_ne]
  by_cases colon : char = ':'
  · simp [colon]
  · simp only [if_neg colon, if_pos colon]
    cases chars.dropWhile (· != ':') <;> rfl

theorem splitFirst?_eq_some_iff {chars before after : List Char} :
    splitFirst? chars = some (before, after) ↔ chars = before ++ ':' :: after ∧ ':' ∉ before := by
  induction chars generalizing before after with
  | nil => simp [splitFirst?]
  | cons char chars ih =>
    rw [splitFirst?_cons]
    split
    next colon =>
      subst colon
      cases before with
      | nil => simp
      | cons first rest => grind
    next other =>
      simp only [Option.map_eq_some_iff, Prod.exists, ih, Prod.mk.injEq]
      constructor
      · rintro ⟨rest, _, ⟨rfl, free⟩, rfl, rfl⟩
        exact ⟨rfl, by simp [Ne.symm other, free]⟩
      · rintro ⟨whole, free⟩
        cases before with
        | nil => exact absurd (List.cons.inj whole).1 other
        | cons first rest =>
          obtain ⟨rfl, rfl⟩ := List.cons.inj whole
          exact ⟨rest, after, ⟨rfl, fun member => free (List.mem_cons_of_mem _ member)⟩, rfl, rfl⟩

theorem splitFirst?_eq_none_iff {chars : List Char} : splitFirst? chars = none ↔ ':' ∉ chars := by
  induction chars with
  | nil => simp [splitFirst?]
  | cons char chars ih =>
    rw [splitFirst?_cons]
    split
    next colon => simp [colon]
    next other => simp [ih, Ne.symm other]

theorem splitLast?_eq_some_iff {chars before after : List Char} :
    splitLast? chars = some (before, after) ↔ chars = before ++ ':' :: after ∧ ':' ∉ after := by
  simp only [splitLast?, Option.map_eq_map, Option.map_eq_some_iff, Prod.exists, splitFirst?_eq_some_iff, Prod.mk.injEq]
  constructor
  · rintro ⟨first, second, ⟨reversed, free⟩, rfl, rfl⟩
    refine ⟨?_, by simpa using free⟩
    rw [← List.reverse_inj, reversed]
    simp
  · rintro ⟨rfl, free⟩
    exact ⟨after.reverse, before.reverse, ⟨by simp, by simpa using free⟩, by simp, by simp⟩

theorem splitLast?_eq_none_iff {chars : List Char} : splitLast? chars = none ↔ ':' ∉ chars := by
  simp [splitLast?, splitFirst?_eq_none_iff]

/-! ## Ports -/

/-- An id alone, or an id, a colon and a number. -/
def IsSource (spec : String) (port : Port) : Prop :=
  port.node ≠ "" ∧ (spec = port.node ∧ ':' ∉ spec.toList ∧ port.index = 0 ∨
    ∃ number, Spells number port.index ∧ spec = port.node ++ ":" ++ number)

/-- An id alone, or a number, a colon and an id. -/
def IsTarget (spec : String) (port : Port) : Prop :=
  port.node ≠ "" ∧ (spec = port.node ∧ ':' ∉ spec.toList ∧ port.index = 0 ∨
    ∃ number, Spells number port.index ∧ spec = number ++ ":" ++ port.node)

theorem wholeId?_eq_some_iff {spec : String} {port : Port} :
    wholeId? spec.toList = some port ↔ port.node ≠ "" ∧ spec = port.node ∧ port.index = 0 := by
  rw [wholeId?, Option.ite_none_left_eq_some, Option.some.injEq, Port.ext_iff, String.ofList_toList]
  constructor
  · rintro ⟨filled, rfl, index⟩
    exact ⟨by simpa using filled, rfl, index.symm⟩
  · rintro ⟨filled, rfl, index⟩
    exact ⟨by simpa using filled, rfl, index.symm⟩

theorem port?_eq_some_iff {id number : String} {port : Port} :
    port? id.toList number.toList = some port ↔ port.node ≠ "" ∧ id = port.node ∧ Spells number port.index := by
  simp only [port?, Option.bind_eq_bind, Option.bind_eq_some_iff, number?_eq_some_iff, Option.ite_none_left_eq_some,
    Option.some.injEq, Port.ext_iff, String.ofList_toList]
  constructor
  · rintro ⟨_, spells, filled, rfl, rfl⟩
    exact ⟨by simpa using filled, rfl, spells⟩
  · rintro ⟨filled, rfl, spells⟩
    exact ⟨port.index, spells, by simpa using filled, rfl, rfl⟩

/-- A port, by the parts that its text is split into. -/
theorem parts_eq_some_iff {spec : String} {port : Port} (parts : Option (List Char × List Char)) :
    (match parts with | none => wholeId? spec.toList | some (id, number) => port? id number) = some port ↔
      port.node ≠ "" ∧ (parts = none ∧ spec = port.node ∧ port.index = 0 ∨
        ∃ number : String, parts = some (port.node.toList, number.toList) ∧ Spells number port.index) := by
  cases parts with
  | none => simp [wholeId?_eq_some_iff]
  | some parts =>
    obtain ⟨id, number⟩ := parts
    have read := @port?_eq_some_iff (String.ofList id) (String.ofList number) port
    rw [String.toList_ofList, String.toList_ofList] at read
    simp only [read, reduceCtorEq, false_and, false_or, Option.some.injEq, Prod.mk.injEq]
    refine and_congr_right fun _ => ?_
    constructor
    · rintro ⟨same, spells⟩
      exact ⟨String.ofList number, ⟨same ▸ String.toList_ofList.symm, String.toList_ofList.symm⟩, spells⟩
    · rintro ⟨text, ⟨rfl, rfl⟩, spells⟩
      exact ⟨String.ofList_toList, String.ofList_toList.symm ▸ spells⟩

theorem source?_eq_some_iff {spec : String} {port : Port} : source? spec.toList = some port ↔ IsSource spec port := by
  have whole : splitLast? spec.toList = none ∧ spec = port.node ∧ port.index = 0 ↔
      spec = port.node ∧ ':' ∉ spec.toList ∧ port.index = 0 := by
    rw [splitLast?_eq_none_iff]
    exact and_left_comm
  have split (number : String) : splitLast? spec.toList = some (port.node.toList, number.toList) ∧
      Spells number port.index ↔
      Spells number port.index ∧ spec = port.node ++ ":" ++ number := by
    rw [splitLast?_eq_some_iff, and_comm]
    refine and_congr_right fun spells => ?_
    rw [and_iff_left spells.no_colon, String.ext_iff]
    simp
  exact (parts_eq_some_iff (splitLast? spec.toList)).trans
    (and_congr_right fun _ => or_congr whole (exists_congr split))

theorem target?_eq_some_iff {spec : String} {port : Port} : target? spec.toList = some port ↔ IsTarget spec port := by
  have swapped : target? spec.toList = match (splitFirst? spec.toList).map Prod.swap with
      | none => wholeId? spec.toList
      | some (id, number) => port? id number := by
    unfold target?
    cases splitFirst? spec.toList <;> rfl
  have whole : (splitFirst? spec.toList).map Prod.swap = none ∧ spec = port.node ∧ port.index = 0 ↔
      spec = port.node ∧ ':' ∉ spec.toList ∧ port.index = 0 := by
    rw [Option.map_eq_none_iff, splitFirst?_eq_none_iff]
    exact and_left_comm
  have split (number : String) : (splitFirst? spec.toList).map Prod.swap = some (port.node.toList, number.toList) ∧
      Spells number port.index ↔ Spells number port.index ∧ spec = number ++ ":" ++ port.node := by
    rw [Option.map_eq_some_iff, Prod.exists, and_comm]
    refine and_congr_right fun spells => ?_
    simp only [splitFirst?_eq_some_iff, Prod.swap_prod_mk, Prod.mk.injEq, String.ext_iff, String.toList_append]
    constructor
    · rintro ⟨_, _, ⟨same, _⟩, rfl, rfl⟩
      simpa using same
    · intro same
      exact ⟨_, _, ⟨by simpa using same, spells.no_colon⟩, rfl, rfl⟩
  rw [swapped]
  exact (parts_eq_some_iff _).trans (and_congr_right fun _ => or_congr whole (exists_congr split))

theorem parseSource_eq_ok_iff {spec : String} {port : Port} : parseSource spec = .ok port ↔ IsSource spec port := by
  rw [← source?_eq_some_iff, parseSource]
  cases source? spec.toList <;> simp

theorem parseTarget_eq_ok_iff {spec : String} {port : Port} : parseTarget spec = .ok port ↔ IsTarget spec port := by
  rw [← target?_eq_some_iff, parseTarget]
  cases target? spec.toList <;> simp

theorem parseSource_eq_error_iff {spec : String} {error : GraphError} :
    parseSource spec = .error error ↔ error = .invalidPortSpec spec ∧ ∀ port, ¬ IsSource spec port := by
  simp only [← source?_eq_some_iff, parseSource]
  cases source? spec.toList <;> simp [eq_comm]

theorem parseTarget_eq_error_iff {spec : String} {error : GraphError} :
    parseTarget spec = .error error ↔ error = .invalidPortSpec spec ∧ ∀ port, ¬ IsTarget spec port := by
  simp only [← target?_eq_some_iff, parseTarget]
  cases target? spec.toList <;> simp [eq_comm]

/-- A text is read as an output port exactly if it is an id without a colon, for port 0, or an id, a colon and a
number, and as an input port likewise with the number first. Every other text is reported as a whole. A port that is
printed with its number is read back, whatever colons its id has. -/
theorem parse_reads_ports :
    (∀ spec port, parseSource spec = .ok port ↔ IsSource spec port) ∧
    (∀ spec port, parseTarget spec = .ok port ↔ IsTarget spec port) ∧
    (∀ spec error, parseSource spec = .error error ↔ error = .invalidPortSpec spec ∧ ∀ port, ¬ IsSource spec port) ∧
    (∀ spec error, parseTarget spec = .error error ↔ error = .invalidPortSpec spec ∧ ∀ port, ¬ IsTarget spec port) ∧
    ∀ (id : NodeId) (index : UInt64), id ≠ "" →
      parseSource s!"{id}:{index}" = .ok ⟨id, index⟩ ∧ parseTarget s!"{index}:{id}" = .ok ⟨id, index⟩ := by
  refine ⟨fun _ _ => parseSource_eq_ok_iff, fun _ _ => parseTarget_eq_ok_iff, fun _ _ => parseSource_eq_error_iff,
    fun _ _ => parseTarget_eq_error_iff, fun id index filled => ⟨?_, ?_⟩⟩
  · exact parseSource_eq_ok_iff.mpr ⟨filled, .inr ⟨toString index, spells_toString index, rfl⟩⟩
  · exact parseTarget_eq_ok_iff.mpr ⟨filled, .inr ⟨toString index, spells_toString index, rfl⟩⟩

theorem parse_reads_ports_colons :
    "a::b:" ≠ "" ∧ parseSource "a::b::7" = .ok ⟨"a::b:", 7⟩ ∧ parseTarget "7:a::b:" = .ok ⟨"a::b:", 7⟩ := by
  have filled : "a::b:" ≠ "" := by decide
  exact ⟨filled, parse_reads_ports.2.2.2.2 "a::b:" 7 filled⟩

end OpGraph.PortSpec
