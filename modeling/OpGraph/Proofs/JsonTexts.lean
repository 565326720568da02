import OpGraph.Proofs.JsonNumbers
import Mathlib.Data.List.DropRight

/-! The texts of a JSON value. A grammar says which bytes spell a value, with blanks where the two writers
put them; both writers follow it, and the reader takes whatever it derives for the value that it
spells. Fuel is no limit: two units for each byte of a text are enough to read it. -/

namespace OpGraph

namespace Json

mutual

def numbers : Json → List Number
  | .number value => [value]
  | .array items => numbersOfItems items
  | .object members => numbersOfMembers members
  | _ => []

def numbersOfItems : List Json → List Number
  | [] => []
  | item :: rest => numbers item ++ numbersOfItems rest

def numbersOfMembers : List (String × Json) → List Number
  | [] => []
  | (_, value) :: rest => numbers value ++ numbersOfMembers rest

end

end Json

namespace Document

mutual

/-- What is read from the text of a value. -/
def ofJson : Json → Document
  | .null => .null
  | .bool value => .bool value
  | .number value => .number (some value)
  | .string value => .string (some value)
  | .array items => .array (ofItems items)
  | .object members => .object (ofMembers members)

def ofItems : List Json → List Document
  | [] => []
  | item :: rest => ofJson item :: ofItems rest

def ofMembers : List (String × Json) → List (Option String × Document)
  | [] => []
  | (key, value) :: rest => (some key, ofJson value) :: ofMembers rest

end

/-! ## Grammar -/

def Blank (bytes : Bytes) : Prop := ∀ byte ∈ bytes, isBlank byte

mutual

inductive Spells : Json → Bytes → Prop where
  | null : Spells .null (Utf8.encode "null")
  | bool (value : Bool) : Spells (.bool value) (Utf8.encode (if value then "true" else "false"))
  | number {value : Number} (reads : value.ReadsBack) : Spells (.number value) (Utf8.encode value.text)
  | string (text : String) : Spells (.string text) (Utf8.encode (Json.quote text))
  | emptyArray : Spells (.array []) [0x5B, 0x5D]
  | array {items inside} (spelled : SpellsItems items inside) : Spells (.array items) (0x5B :: (inside ++ [0x5D]))
  | emptyObject : Spells (.object []) [0x7B, 0x7D]
  | object {members inside} (spelled : SpellsMembers members inside) :
      Spells (.object members) (0x7B :: (inside ++ [0x7D]))

/-- The bytes spell the items of an array, up to its closing bracket. -/
inductive SpellsItems : List Json → Bytes → Prop where
  | last {item text before after} (blank : Blank before) (spelled : Spells item text) (blankAfter : Blank after) :
      SpellsItems [item] (before ++ (text ++ after))
  | cons {item text before items more} (blank : Blank before) (spelled : Spells item text)
    (rest : SpellsItems items more) :
      SpellsItems (item :: items) (before ++ (text ++ 0x2C :: more))

/-- The bytes spell the members of an object, up to its closing bracket. -/
inductive SpellsMembers : List (String × Json) → Bytes → Prop where
  | last {key value text before between after} (blank : Blank before) (blankBetween : Blank between)
      (spelled : Spells value text) (blankAfter : Blank after) :
      SpellsMembers [(key, value)] (before ++ (Utf8.encode (Json.quote key) ++ 0x3A :: (between ++ (text ++ after))))
  | cons {key value text before between members more} (blank : Blank before) (blankBetween : Blank between)
      (spelled : Spells value text) (rest : SpellsMembers members more) :
      SpellsMembers ((key, value) :: members)
        (before ++ (Utf8.encode (Json.quote key) ++ 0x3A :: (between ++ (text ++ 0x2C :: more))))

end

/-! ## Blanks -/

theorem skipBlanks_append {gap : Bytes} (blank : Blank gap) (rest : Bytes) :
    skipBlanks (gap ++ rest) = skipBlanks rest := by
  rw [skipBlanks, List.dropWhile_append_of_pos blank, skipBlanks]

theorem skipBlanks_cons {byte : UInt8} (sign : isBlank byte = false) (rest : Bytes) :
    skipBlanks (byte :: rest) = byte :: rest := by
  rw [skipBlanks, List.dropWhile_cons_of_neg (by rw [sign]; decide)]

theorem skipBlanks_skipBlanks (bytes : Bytes) : skipBlanks (skipBlanks bytes) = skipBlanks bytes :=
  List.dropWhile_idempotent _ _

theorem value?_skipBlanks (fuel : Nat) (bytes : Bytes) : value? fuel (skipBlanks bytes) = value? fuel bytes := by
  cases fuel with
  | zero => rfl
  | succ fuel => rw [value?, value?, skipBlanks_skipBlanks]

theorem items?_skipBlanks (fuel : Nat) (bytes : Bytes) : items? fuel (skipBlanks bytes) = items? fuel bytes := by
  cases fuel with
  | zero => rfl
  | succ fuel => rw [items?, items?, value?_skipBlanks]

theorem members?_skipBlanks (fuel : Nat) (bytes : Bytes) : members? fuel (skipBlanks bytes) = members? fuel bytes := by
  cases fuel with
  | zero => rfl
  | succ fuel => rw [members?, members?, skipBlanks_skipBlanks]

/-! ## Reading -/

def Leads (byte : UInt8) : Prop := byte = 0x2D ∨ isDigit byte

theorem numeral?_head {bytes : Bytes} {found : Numeral × Bytes} (read : numeral? bytes = some found) :
    ∃ byte rest, bytes = byte :: rest ∧ Leads byte := by
  cases bytes with
  | nil => cases read
  | cons byte rest =>
    refine ⟨byte, rest, rfl, ?_⟩
    by_cases minus : byte = 0x2D
    · exact .inl minus
    · rw [numeral?_plain rest minus] at read
      obtain ⟨_, _, _, whole, _⟩ :=
        unsigned?_eq_some.mp (show unsigned? false (byte :: rest) = some (found.1, found.2) from read)
      obtain ⟨run, some, _⟩ := whole?_eq_some.mp whole
      refine .inr (Classical.byContradiction fun noDigit => some ?_)
      simp only [digits, List.span_eq_takeWhile_dropWhile, List.takeWhile_cons, noDigit] at run
      exact (Prod.mk.inj run).1.symm

theorem Leads.ne {byte other : UInt8} (leads : Leads byte) (minus : other ≠ 0x2D) (digit : isDigit other = false) :
    byte ≠ other := by
  rintro rfl
  cases leads with
  | inl same => exact minus same
  | inr digits => rw [digit] at digits; cases digits

theorem Leads.isBlank {byte : UInt8} (leads : Leads byte) : isBlank byte = false := by
  simp only [Document.isBlank, Bool.or_eq_false_iff, beq_eq_false_iff_ne]
  exact ⟨⟨⟨leads.ne (by decide) rfl, leads.ne (by decide) rfl⟩, leads.ne (by decide) rfl⟩, leads.ne (by decide) rfl⟩

theorem value?_leads {byte : UInt8} (leads : Leads byte) (fuel : Nat) (rest : Bytes) :
    value? (fuel + 1) (byte :: rest) =
      (numeral? (byte :: rest)).map fun (numeral, rest) => (.number numeral.value?, rest) := by
  have null : byte ≠ 0x6E := leads.ne (by decide) rfl
  have truth : byte ≠ 0x74 := leads.ne (by decide) rfl
  have falsity : byte ≠ 0x66 := leads.ne (by decide) rfl
  have quote : byte ≠ 0x22 := leads.ne (by decide) rfl
  have bracket : byte ≠ 0x5B := leads.ne (by decide) rfl
  have brace : byte ≠ 0x7B := leads.ne (by decide) rfl
  rw [value?, skipBlanks_cons leads.isBlank]
  simp [null, truth, falsity, quote, bracket, brace]
  cases numeral? (byte :: rest) <;> rfl

theorem value?_number {value : Number} (reads : value.ReadsBack) (fuel : Nat) {rest : Bytes} (ends : Ends rest) :
    value? (fuel + 1) (Utf8.encode value.text ++ rest) = some (.number (some value), rest) := by
  obtain ⟨⟨numeral, left⟩, read, same⟩ := Option.map_eq_some_iff.mp reads
  obtain ⟨spelled, rfl⟩ := Prod.mk.inj same
  obtain ⟨byte, more, front, leads⟩ := numeral?_head read
  have whole := stable_numeral? read rest ends
  rw [front, List.cons_append] at whole ⊢
  rw [value?_leads leads, whole]
  exact congrArg (fun found => some (Document.number found, rest)) spelled

theorem value?_string (text : String) (fuel : Nat) (rest : Bytes) :
    value? (fuel + 1) (Utf8.encode (Json.quote text) ++ rest) = some (.string (some text), rest) := by
  have read := string?_quote text rest
  rw [encode_quote, List.cons_append, List.append_assoc, List.singleton_append, value?, skipBlanks_cons rfl]
  simp [read]

/-- A value starts with a sign that is neither a blank nor a closing bracket. -/
theorem Spells.head {json : Json} {text : Bytes} (spelled : Spells json text) :
    ∃ byte rest, text = byte :: rest ∧ isBlank byte = false ∧ byte ≠ 0x5D := by
  cases spelled with
  | null => exact ⟨0x6E, _, rfl, rfl, by decide⟩
  | bool value =>
    cases value with
    | false => exact ⟨0x66, _, rfl, rfl, by decide⟩
    | true => exact ⟨0x74, _, rfl, rfl, by decide⟩
  | number reads =>
    obtain ⟨⟨numeral, left⟩, read, _⟩ := Option.map_eq_some_iff.mp reads
    obtain ⟨byte, more, front, leads⟩ := numeral?_head read
    exact ⟨byte, more, front, leads.isBlank, leads.ne (by decide) rfl⟩
  | string text => exact ⟨0x22, _, encode_quote text, rfl, by decide⟩
  | emptyArray | array _ => exact ⟨0x5B, _, rfl, rfl, by decide⟩
  | emptyObject | object _ => exact ⟨0x7B, _, rfl, rfl, by decide⟩

theorem ends_comma (rest : Bytes) : Ends (0x2C :: rest) := .inr (.inl rfl)

theorem ends_bracket (rest : Bytes) : Ends (0x5D :: rest) := .inr (.inr (.inl rfl))

theorem ends_brace (rest : Bytes) : Ends (0x7D :: rest) := .inr (.inr (.inr rfl))

theorem Ends.blank {gap rest : Bytes} (blank : Blank gap) (ends : Ends rest) : Ends (gap ++ rest) := by
  cases gap with
  | nil => exact ends
  | cons byte gap => exact .inl (blank byte List.mem_cons_self)

theorem value?_append {gap : Bytes} (blank : Blank gap) (fuel : Nat) (rest : Bytes) :
    value? fuel (gap ++ rest) = value? fuel rest := by
  rw [← value?_skipBlanks, skipBlanks_append blank, value?_skipBlanks]

theorem SpellsItems.head {items : List Json} {inside : Bytes} (spelled : SpellsItems items inside) (rest : Bytes) :
    ∃ byte more, skipBlanks (inside ++ rest) = byte :: more ∧ byte ≠ 0x5D := by
  cases spelled with
  | last blank spelled _ | cons blank spelled _ =>
    obtain ⟨byte, more, front, sign, other⟩ := spelled.head
    rw [front, List.append_assoc, skipBlanks_append blank, List.cons_append, List.cons_append, skipBlanks_cons sign]
    exact ⟨byte, _, rfl, other⟩

theorem SpellsMembers.head {members : List (String × Json)} {inside : Bytes} (spelled : SpellsMembers members inside)
    (rest : Bytes) : ∃ more, skipBlanks (inside ++ rest) = 0x22 :: more := by
  cases spelled with
  | last blank _ _ _ | cons blank _ _ _ =>
    rw [encode_quote, List.append_assoc, skipBlanks_append blank, List.cons_append, List.cons_append,
      skipBlanks_cons rfl]
    exact ⟨_, rfl⟩

theorem value?_array {inside rest : Bytes} {items : List Json} (spelled : SpellsItems items inside) {fuel : Nat}
    (read : items? fuel (inside ++ 0x5D :: rest) = some (ofItems items, rest)) :
    value? (fuel + 1) (0x5B :: (inside ++ [0x5D]) ++ rest) = some (ofJson (.array items), rest) := by
  obtain ⟨byte, more, front, other⟩ := spelled.head (0x5D :: rest)
  rw [← items?_skipBlanks, front] at read
  rw [List.cons_append, List.append_assoc, List.singleton_append, value?, skipBlanks_cons rfl]
  simp [front, other, read, ofJson]

theorem value?_object {inside rest : Bytes} {members : List (String × Json)} (spelled : SpellsMembers members inside)
    {fuel : Nat} (read : members? fuel (inside ++ 0x7D :: rest) = some (ofMembers members, rest)) :
    value? (fuel + 1) (0x7B :: (inside ++ [0x7D]) ++ rest) = some (ofJson (.object members), rest) := by
  obtain ⟨more, front⟩ := spelled.head (0x7D :: rest)
  rw [← members?_skipBlanks, front] at read
  rw [List.cons_append, List.append_assoc, List.singleton_append, value?, skipBlanks_cons rfl]
  simp [front, read, ofJson]

def afterColon? (fuel : Nat) (key : Option String) (bytes : Bytes) :
    Option (List (Option String × Document) × Bytes) := do
  let (value, rest) ← value? fuel bytes
  match skipBlanks rest with
  | 0x7D :: rest => return ([(key, value)], rest)
  | 0x2C :: rest => do
    let (members, rest) ← members? fuel rest
    return ((key, value) :: members, rest)
  | _ => none

theorem members?_key {gap : Bytes} (blank : Blank gap) (key : String) (fuel : Nat) (rest : Bytes) :
    members? (fuel + 1) (gap ++ (Utf8.encode (Json.quote key) ++ 0x3A :: rest)) = afterColon? fuel (some key) rest := by
  have read := string?_quote key (0x3A :: rest)
  have colon : skipBlanks (0x3A :: rest) = 0x3A :: rest := skipBlanks_cons rfl rest
  rw [members?, skipBlanks_append blank, encode_quote, List.cons_append, List.append_assoc, List.singleton_append,
    skipBlanks_cons rfl]
  simp [read, colon]
  rfl

mutual

theorem Spells.value? {json : Json} {text : Bytes} (spelled : Spells json text) {fuel : Nat}
    (enough : 2 * text.length ≤ fuel)
    {rest : Bytes} (ends : Ends rest) : Document.value? fuel (text ++ rest) = some (ofJson json, rest) := by
  obtain ⟨byte, more, front, _⟩ := spelled.head
  obtain ⟨fuel, rfl⟩ : ∃ less, fuel = less + 1 := ⟨fuel - 1, by rw [front, List.length_cons] at enough; omega⟩
  cases spelled with
  | null => rfl
  | bool value => cases value <;> rfl
  | number reads => exact value?_number reads fuel ends
  | string text => exact value?_string text fuel rest
  | emptyArray => rfl
  | emptyObject => rfl
  | @array items inside spelled =>
    refine value?_array spelled (spelled.items? ?_)
    simp only [List.length_cons, List.length_append, List.length_nil] at enough
    omega
  | @object members inside spelled =>
    refine value?_object spelled (spelled.members? ?_)
    simp only [List.length_cons, List.length_append, List.length_nil] at enough
    omega

theorem SpellsItems.items? {items : List Json} {inside : Bytes} (spelled : SpellsItems items inside) {fuel : Nat}
    (enough : 2 * inside.length + 1 ≤ fuel) {rest : Bytes} :
    Document.items? fuel (inside ++ 0x5D :: rest) = some (ofItems items, rest) := by
  obtain ⟨fuel, rfl⟩ : ∃ less, fuel = less + 1 := ⟨fuel - 1, by omega⟩
  cases spelled with
  | @last item text before after blank spelled blankAfter =>
    simp only [List.length_append] at enough
    have read := spelled.value? (show 2 * text.length ≤ fuel by omega) (.blank blankAfter (ends_bracket rest))
    rw [Document.items?, List.append_assoc, value?_append blank, List.append_assoc, read]
    have closed : skipBlanks (after ++ 0x5D :: rest) = 0x5D :: rest :=
      (skipBlanks_append blankAfter _).trans (skipBlanks_cons rfl rest)
    simp [closed, ofItems]
  | @cons item text before items more blank spelled others =>
    simp only [List.length_append, List.length_cons] at enough
    have read := spelled.value? (show 2 * text.length ≤ fuel by omega) (ends_comma (more ++ 0x5D :: rest))
    have readOthers : Document.items? fuel (more ++ 0x5D :: rest) = some (ofItems items, rest) :=
      others.items? (by omega)
    rw [Document.items?, List.append_assoc, value?_append blank, List.append_assoc, List.cons_append, read]
    have next : skipBlanks (0x2C :: (more ++ 0x5D :: rest)) = 0x2C :: (more ++ 0x5D :: rest) := skipBlanks_cons rfl _
    simp [next, readOthers, ofItems]

theorem SpellsMembers.members? {members : List (String × Json)} {inside : Bytes}
    (spelled : SpellsMembers members inside) {fuel : Nat} (enough : 2 * inside.length + 1 ≤ fuel) {rest : Bytes} :
    Document.members? fuel (inside ++ 0x7D :: rest) = some (ofMembers members, rest) := by
  obtain ⟨fuel, rfl⟩ : ∃ less, fuel = less + 1 := ⟨fuel - 1, by omega⟩
  cases spelled with
  | @last key value text before between after blank blankBetween spelled blankAfter =>
    simp only [List.length_append, List.length_cons] at enough
    have read := spelled.value? (show 2 * text.length ≤ fuel by omega) (.blank blankAfter (ends_brace rest))
    have closed : skipBlanks (after ++ 0x7D :: rest) = 0x7D :: rest :=
      (skipBlanks_append blankAfter _).trans (skipBlanks_cons rfl rest)
    simp only [List.append_assoc, List.cons_append]
    rw [members?_key blank, afterColon?, value?_append blankBetween, read]
    simp [closed, ofMembers]
  | @cons key value text before between members more blank blankBetween spelled others =>
    simp only [List.length_append, List.length_cons] at enough
    have read := spelled.value? (show 2 * text.length ≤ fuel by omega) (ends_comma (more ++ 0x7D :: rest))
    have readOthers : Document.members? fuel (more ++ 0x7D :: rest) = some (ofMembers members, rest) :=
      others.members? (by omega)
    have next : skipBlanks (0x2C :: (more ++ 0x7D :: rest)) = 0x2C :: (more ++ 0x7D :: rest) := skipBlanks_cons rfl _
    simp only [List.append_assoc, List.cons_append]
    rw [members?_key blank, afterColon?, value?_append blankBetween, read]
    simp [next, readOthers, ofMembers]

end

theorem Spells.leading? {json : Json} {text : Bytes} (spelled : Spells json text) :
    Document.leading? text = some (ofJson json, []) := by
  have read := spelled.value? (show 2 * text.length ≤ 2 * text.length + 2 by omega) (show Ends [] from trivial)
  rwa [List.append_nil] at read

/-- Every member takes its colon. -/
theorem SpellsMembers.length_le {members : List (String × Json)} {inside : Bytes} :
    SpellsMembers members inside → members.length ≤ inside.length
  | .last _ _ _ _ => by
    simp only [List.length_append, List.length_cons, List.length_nil]
    omega
  | .cons _ _ _ rest => by
    have fewer := rest.length_le
    simp only [List.length_append, List.length_cons]
    omega

theorem SpellsMembers.exists_of_mem {members : List (String × Json)} {inside : Bytes} {key : String} {value : Json}
    (listed : (key, value) ∈ members) : SpellsMembers members inside →
      ∃ text, Spells value text ∧ text.length ≤ inside.length
  | .last _ _ spelled _ => by
    cases List.mem_singleton.mp listed
    exact ⟨_, spelled, by simp only [List.length_append, List.length_cons]; omega⟩
  | .cons _ _ spelled rest => by
    rcases List.mem_cons.mp listed with same | later
    · cases same
      exact ⟨_, spelled, by simp only [List.length_append, List.length_cons]; omega⟩
    · obtain ⟨text, spelled, shorter⟩ := rest.exists_of_mem later
      exact ⟨text, spelled, by simp only [List.length_append, List.length_cons]; omega⟩

/-- A text is no shorter than an object inside its object has members. -/
theorem Spells.length_le {members inner : List (String × Json)} {text : Bytes} (spelled : Spells (.object members) text)
    {key : String} (listed : (key, .object inner) ∈ members) : inner.length ≤ text.length := by
  cases spelled with
  | emptyObject => cases listed
  | object spelled =>
    obtain ⟨part, spelledPart, shorter⟩ := spelled.exists_of_mem listed
    cases spelledPart with
    | emptyObject => exact Nat.zero_le _
    | object spelledInner =>
      have fewer := spelledInner.length_le
      simp only [List.length_append, List.length_cons] at shorter ⊢
      omega

/-! ## Writing -/

theorem SpellsItems.intercalate {gap closing : String} (blank : Blank (Utf8.encode gap))
    (blankAfter : Blank (Utf8.encode closing)) {items : List Json} {pieces : List String}
    (spelled : List.Forall₂ (fun item piece => Spells item (Utf8.encode piece)) items pieces) (some : items ≠ []) :
    SpellsItems items (Utf8.encode (gap ++ ("," ++ gap).intercalate pieces ++ closing)) := by
  induction spelled with
  | nil => exact absurd rfl some
  | @cons item piece items pieces first rest ih =>
    cases rest with
    | nil =>
      rw [String.intercalate_singleton, Utf8.encode_append, Utf8.encode_append, List.append_assoc]
      exact .last blank first blankAfter
    | cons second rest =>
      have more := ih (List.cons_ne_nil _ _)
      have comma : Utf8.encode "," = [0x2C] := rfl
      rw [String.intercalate_cons_cons]
      simp only [Utf8.encode_append, List.append_assoc, comma, List.singleton_append] at more ⊢
      exact .cons blank first more

def SpellsMember (member : String × Json) (piece : String) : Prop :=
  ∃ between text, Blank between ∧ Spells member.2 text ∧
    Utf8.encode piece = Utf8.encode (Json.quote member.1) ++ 0x3A :: (between ++ text)

theorem SpellsMembers.intercalate {gap closing : String} (blank : Blank (Utf8.encode gap))
    (blankAfter : Blank (Utf8.encode closing)) {members : List (String × Json)} {pieces : List String}
    (spelled : List.Forall₂ SpellsMember members pieces) (some : members ≠ []) :
    SpellsMembers members (Utf8.encode (gap ++ ("," ++ gap).intercalate pieces ++ closing)) := by
  induction spelled with
  | nil => exact absurd rfl some
  | @cons member piece members pieces first rest ih =>
    obtain ⟨between, text, blankBetween, spelled, same⟩ := first
    cases rest with
    | nil =>
      rw [String.intercalate_singleton]
      simp only [Utf8.encode_append, same, List.append_assoc, List.cons_append]
      exact .last blank blankBetween spelled blankAfter
    | cons second rest =>
      have more := ih (List.cons_ne_nil _ _)
      have comma : Utf8.encode "," = [0x2C] := rfl
      rw [String.intercalate_cons_cons]
      simp only [Utf8.encode_append, same, List.append_assoc, comma, List.cons_append, List.nil_append] at more ⊢
      exact .cons blank blankBetween spelled more

theorem blank_empty : Blank (Utf8.encode "") := fun _ member => nomatch member

theorem spells_brackets {items : List Json} {text : String} (spelled : SpellsItems items (Utf8.encode text)) :
    Spells (.array items) (Utf8.encode ("[" ++ text ++ "]")) := by
  rw [Utf8.encode_append, Utf8.encode_append, List.append_assoc]
  exact .array spelled

theorem spells_braces {members : List (String × Json)} {text : String}
    (spelled : SpellsMembers members (Utf8.encode text)) :
    Spells (.object members) (Utf8.encode ("\x7b" ++ text ++ "\x7d")) := by
  rw [Utf8.encode_append, Utf8.encode_append, List.append_assoc]
  exact .object spelled

mutual

theorem spells_compact (json : Json) (reads : ∀ number ∈ json.numbers, number.ReadsBack) :
    Spells json (Utf8.encode json.compact) := by
  cases json with
  | null => exact .null
  | bool value => cases value <;> exact .bool _
  | number value => exact .number (reads value (by simp [Json.numbers]))
  | string text => exact .string text
  | array items =>
    by_cases none : items = []
    · subst none
      exact .emptyArray
    · have inside := SpellsItems.intercalate blank_empty blank_empty (spells_compactItems items reads) none
      rw [String.empty_append, String.append_empty, String.append_empty] at inside
      exact spells_brackets inside
  | object members =>
    by_cases none : members = []
    · subst none
      exact .emptyObject
    · have inside := SpellsMembers.intercalate blank_empty blank_empty (spells_compactMembers members reads) none
      rw [String.empty_append, String.append_empty, String.append_empty] at inside
      exact spells_braces inside

theorem spells_compactItems (items : List Json) (reads : ∀ number ∈ Json.numbersOfItems items, number.ReadsBack) :
    List.Forall₂ (fun item piece => Spells item (Utf8.encode piece)) items (Json.compactItems items) := by
  cases items with
  | nil => exact .nil
  | cons item items =>
    rw [Json.numbersOfItems, List.forall_mem_append] at reads
    exact .cons (spells_compact item reads.1) (spells_compactItems items reads.2)

theorem spells_compactMembers (members : List (String × Json))
    (reads : ∀ number ∈ Json.numbersOfMembers members, number.ReadsBack) :
    List.Forall₂ SpellsMember members (Json.compactMembers members) := by
  cases members with
  | nil => exact .nil
  | cons member members =>
    obtain ⟨key, value⟩ := member
    rw [Json.numbersOfMembers, List.forall_mem_append] at reads
    have piece : SpellsMember (key, value) (Json.quote key ++ ":" ++ value.compact) := by
      refine ⟨[], _, blank_empty, spells_compact value reads.1, ?_⟩
      rw [Utf8.encode_append, Utf8.encode_append, List.append_assoc]
      rfl
    exact .cons piece (spells_compactMembers members reads.2)

end

theorem blank_newLine (depth : Nat) : Blank (Utf8.encode (Json.newLine depth)) := by
  intro byte member
  rw [Json.newLine, Utf8.encode_ofList, List.flatMap_cons] at member
  rcases List.mem_append.mp member with same | blanks
  · cases List.mem_singleton.mp same
    rfl
  · obtain ⟨char, replicated, same⟩ := List.mem_flatMap.mp blanks
    rw [List.eq_of_mem_replicate replicated] at same
    cases List.mem_singleton.mp same
    rfl

theorem block_eq (opening closing : String) (depth : Nat) {pieces : List String} (some : pieces ≠ []) :
    Json.block opening closing depth pieces = opening ++ (Json.newLine (depth + 1) ++
      ("," ++ Json.newLine (depth + 1)).intercalate pieces ++ Json.newLine depth) ++ closing := by
  rw [Json.block, if_neg (by simpa using some)]
  simp only [String.append_assoc]

mutual

theorem spells_indentedAt (depth : Nat) (json : Json) (reads : ∀ number ∈ json.numbers, number.ReadsBack) :
    Spells json (Utf8.encode (json.indentedAt depth)) := by
  cases json with
  | null => exact .null
  | bool value => cases value <;> exact .bool _
  | number value => exact .number (reads value (by simp [Json.numbers]))
  | string text => exact .string text
  | array items =>
    by_cases none : items = []
    · subst none
      exact .emptyArray
    · have pieces := spells_indentedItems (depth + 1) items reads
      have some : Json.indentedItems (depth + 1) items ≠ [] := fun empty => none (by
        rw [empty] at pieces
        cases pieces
        rfl)
      rw [Json.indentedAt, block_eq _ _ depth some]
      exact spells_brackets (.intercalate (blank_newLine (depth + 1)) (blank_newLine depth) pieces none)
  | object members =>
    by_cases none : members = []
    · subst none
      exact .emptyObject
    · have pieces := spells_indentedMembers (depth + 1) members reads
      have some : Json.indentedMembers (depth + 1) members ≠ [] := fun empty => none (by
        rw [empty] at pieces
        cases pieces
        rfl)
      rw [Json.indentedAt, block_eq _ _ depth some]
      exact spells_braces (.intercalate (blank_newLine (depth + 1)) (blank_newLine depth) pieces none)

theorem spells_indentedItems (depth : Nat) (items : List Json)
    (reads : ∀ number ∈ Json.numbersOfItems items, number.ReadsBack) :
    List.Forall₂ (fun item piece => Spells item (Utf8.encode piece)) items (Json.indentedItems depth items) := by
  cases items with
  | nil => exact .nil
  | cons item items =>
    rw [Json.numbersOfItems, List.forall_mem_append] at reads
    exact .cons (spells_indentedAt depth item reads.1) (spells_indentedItems depth items reads.2)

theorem spells_indentedMembers (depth : Nat) (members : List (String × Json))
    (reads : ∀ number ∈ Json.numbersOfMembers members, number.ReadsBack) :
    List.Forall₂ SpellsMember members (Json.indentedMembers depth members) := by
  cases members with
  | nil => exact .nil
  | cons member members =>
    obtain ⟨key, value⟩ := member
    rw [Json.numbersOfMembers, List.forall_mem_append] at reads
    have piece : SpellsMember (key, value) (Json.quote key ++ ": " ++ value.indentedAt depth) := by
      refine ⟨[0x20], _, by simp [Blank, isBlank], spells_indentedAt depth value reads.1, ?_⟩
      rw [Utf8.encode_append, Utf8.encode_append, List.append_assoc]
      rfl
    exact .cons piece (spells_indentedMembers depth members reads.2)

end

/-- Both texts of a value are read as that value, if its numbers are. -/
theorem leading?_texts {json : Json} (reads : ∀ number ∈ json.numbers, number.ReadsBack) :
    leading? (Utf8.encode json.compact) = some (ofJson json, []) ∧
      leading? (Utf8.encode json.indented) = some (ofJson json, []) :=
  ⟨(spells_compact json reads).leading?, (spells_indentedAt 0 json reads).leading?⟩

end Document
end OpGraph
