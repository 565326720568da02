import OpGraph.Proofs.JsonTexts
import OpGraph.Proofs.NumberTexts

/-! Compact texts are told apart. The first sign of a text says what sort of value it is, and every part of a value
ends where the next sign cannot belong to it; so of two texts with anything behind them, the values are the same if
the bytes are. -/

namespace OpGraph
namespace Document

/-! ## First signs -/

/-- The first sign of the text of a value, the minus standing for digits too and one letter for the other truth
value. -/
def opening : Json → UInt8
  | .null => 0x6E
  | .bool _ => 0x74
  | .number _ => 0x2D
  | .string _ => 0x22
  | .array _ => 0x5B
  | .object _ => 0x7B

def sort (byte : UInt8) : UInt8 := if isDigit byte then 0x2D else if byte = 0x66 then 0x74 else byte

theorem compact_head (json : Json) :
    ∃ byte rest, Utf8.encode json.compact = byte :: rest ∧ sort byte = opening json := by
  cases json with
  | null => exact ⟨0x6E, _, rfl, rfl⟩
  | bool value =>
    cases value with
    | false => exact ⟨0x66, _, rfl, rfl⟩
    | true => exact ⟨0x74, _, rfl, rfl⟩
  | number value =>
    obtain ⟨numeral, read, _⟩ := value.exists_spelledBy
    obtain ⟨byte, rest, front, leads⟩ := numeral?_head read
    refine ⟨byte, rest, front, ?_⟩
    obtain rfl | digit := leads
    · rfl
    · exact if_pos digit
  | string text => exact ⟨0x22, _, encode_quote text, rfl⟩
  | array items =>
    exact ⟨0x5B, _, by rw [Json.compact, Utf8.encode_append, Utf8.encode_append, List.append_assoc]; rfl, rfl⟩
  | object members =>
    exact ⟨0x7B, _, by rw [Json.compact, Utf8.encode_append, Utf8.encode_append, List.append_assoc]; rfl, rfl⟩

/-- Values whose texts start alike are of one sort. -/
theorem opening_eq {first second : Json} {rest other : Bytes}
    (same : Utf8.encode first.compact ++ rest = Utf8.encode second.compact ++ other) :
    opening first = opening second := by
  obtain ⟨byte, tail, front, sorted⟩ := compact_head first
  obtain ⟨otherByte, otherTail, otherFront, otherSorted⟩ := compact_head second
  rw [front, otherFront] at same
  rw [← sorted, ← otherSorted, (List.cons.inj same).1]

theorem quote_unambiguous {first second : String} {rest other : Bytes}
    (same : Utf8.encode (Json.quote first) ++ rest = Utf8.encode (Json.quote second) ++ other) :
    first = second ∧ rest = other := by
  have read := string?_quote first rest
  have otherRead := string?_quote second other
  simp only [encode_quote, List.cons_append, List.append_assoc, List.nil_append] at same
  rw [(List.cons.inj same).2, otherRead] at read
  obtain ⟨text, rfl⟩ := Prod.mk.inj (Option.some.inj read)
  exact ⟨(Option.some.inj text).symm, rfl⟩

/-! ## Lists -/

section Lists

variable {α : Type} (text : α → Bytes) (closing : UInt8)

def afterItem : List α → Bytes → Bytes
  | [], rest => closing :: rest
  | item :: items, rest => 0x2C :: (text item ++ afterItem items rest)

def listText : List α → Bytes → Bytes
  | [], rest => closing :: rest
  | item :: items, rest => text item ++ afterItem text closing items rest

theorem encode_intercalate (piece : α → String) (items : List α) (rest : Bytes) :
    Utf8.encode (",".intercalate (items.map piece)) ++ closing :: rest =
      listText (fun item => Utf8.encode (piece item)) closing items rest := by
  cases items with
  | nil => rfl
  | cons item items =>
    induction items generalizing item with
    | nil => rw [List.map_cons, List.map_nil, String.intercalate_singleton]; rfl
    | cons next items ih =>
      have comma : Utf8.encode "," = [0x2C] := rfl
      rw [List.map_cons, List.map_cons, String.intercalate_cons_cons, Utf8.encode_append, Utf8.encode_append,
        List.append_assoc, List.append_assoc, ← List.map_cons, ih, comma]
      rfl

variable {text closing} (closes : ∀ rest, Ends (closing :: rest))
include closes

theorem ends_afterItem (items : List α) (rest : Bytes) : Ends (afterItem text closing items rest) := by
  cases items with
  | nil => exact closes rest
  | cons item items => exact ends_comma _

variable {items : List α} (noComma : closing ≠ 0x2C)
  (each : ∀ item ∈ items, ∀ {other : α} {rest more : Bytes}, Ends rest → Ends more →
    text item ++ rest = text other ++ more → item = other ∧ rest = more)
include noComma each

theorem afterItem_unambiguous {others : List α} {rest more : Bytes}
    (same : afterItem text closing items rest = afterItem text closing others more) : items = others ∧ rest = more := by
  induction items generalizing others with
  | nil =>
    cases others with
    | nil => exact ⟨rfl, (List.cons.inj same).2⟩
    | cons other others => exact absurd (List.cons.inj same).1 noComma
  | cons item items ih =>
    cases others with
    | nil => exact absurd (List.cons.inj same).1.symm noComma
    | cons other others =>
      obtain ⟨here, later⟩ := List.forall_mem_cons.mp each
      obtain ⟨rfl, after⟩ :=
        here (ends_afterItem closes items rest) (ends_afterItem closes others more) (List.cons.inj same).2
      obtain ⟨rfl, rfl⟩ := ih later after
      exact ⟨rfl, rfl⟩

/-- Lists are told apart by their texts if their items are, and no item starts as the closing sign. -/
theorem listText_unambiguous (starts : ∀ (item : α) (rest more : Bytes), text item ++ rest ≠ closing :: more)
    {others : List α}
    {rest more : Bytes} (same : listText text closing items rest = listText text closing others more) :
    items = others ∧ rest = more := by
  cases items with
  | nil =>
    cases others with
    | nil => exact ⟨rfl, (List.cons.inj same).2⟩
    | cons other others => exact absurd same.symm (starts other _ _)
  | cons item items =>
    cases others with
    | nil => exact absurd same (starts item _ _)
    | cons other others =>
      obtain ⟨here, later⟩ := List.forall_mem_cons.mp each
      obtain ⟨rfl, after⟩ := here (ends_afterItem closes items rest) (ends_afterItem closes others more) same
      obtain ⟨rfl, rfl⟩ := afterItem_unambiguous closes noComma later after
      exact ⟨rfl, rfl⟩

end Lists

/-! ## Values -/

def memberText (member : String × Json) : String := Json.quote member.1 ++ ":" ++ member.2.compact

theorem compactItems_eq (items : List Json) : Json.compactItems items = items.map Json.compact := by
  induction items with
  | nil => rfl
  | cons item items ih => rw [Json.compactItems, ih, List.map_cons]

theorem compactMembers_eq (members : List (String × Json)) : Json.compactMembers members = members.map memberText := by
  induction members with
  | nil => rfl
  | cons member members ih => rw [Json.compactMembers, ih, List.map_cons, memberText]

theorem encode_array (items : List Json) (rest : Bytes) : Utf8.encode (Json.array items).compact ++ rest =
    0x5B :: listText (fun item => Utf8.encode item.compact) 0x5D items rest := by
  rw [Json.compact, compactItems_eq, ← encode_intercalate, Utf8.encode_append, Utf8.encode_append, List.append_assoc,
    List.append_assoc]
  rfl

theorem encode_object (members : List (String × Json)) (rest : Bytes) :
    Utf8.encode (Json.object members).compact ++ rest =
    0x7B :: listText (fun member => Utf8.encode (memberText member)) 0x7D members rest := by
  rw [Json.compact, compactMembers_eq, ← encode_intercalate, Utf8.encode_append, Utf8.encode_append, List.append_assoc,
    List.append_assoc]
  rfl

theorem encode_member (member : String × Json) (rest : Bytes) : Utf8.encode (memberText member) ++ rest =
    Utf8.encode (Json.quote member.1) ++ 0x3A :: (Utf8.encode member.2.compact ++ rest) := by
  rw [memberText, Utf8.encode_append, Utf8.encode_append, List.append_assoc, List.append_assoc]
  rfl

theorem item_starts (item : Json) (rest more : Bytes) : Utf8.encode item.compact ++ rest ≠ 0x5D :: more := by
  obtain ⟨byte, tail, front, sorted⟩ := compact_head item
  rw [front]
  intro same
  rw [(List.cons.inj same).1] at sorted
  cases item <;> cases sorted

theorem member_starts (member : String × Json) (rest more : Bytes) :
    Utf8.encode (memberText member) ++ rest ≠ 0x7D :: more := by
  rw [encode_member, encode_quote]
  exact fun same => absurd (List.cons.inj same).1 (by decide)

theorem sizeOf_snd_lt {member : String × Json} {members : List (String × Json)} (listed : member ∈ members) :
    sizeOf member.2 < sizeOf members := by
  have inner := List.sizeOf_lt_of_mem listed
  have own : sizeOf member = 1 + sizeOf member.1 + sizeOf member.2 := rfl
  omega

/-- Of two texts that are followed by the end of a value, the bytes are the same only if the values are. -/
theorem compact_unambiguous (first : Json) {second : Json} {rest more : Bytes} (ends : Ends rest) (moreEnds : Ends more)
    (same : Utf8.encode first.compact ++ rest = Utf8.encode second.compact ++ more) : first = second ∧ rest = more := by
  have sorts := opening_eq same
  match first with
  | .null =>
    cases second with
    | null => exact ⟨rfl, List.append_cancel_left same⟩
    | _ => cases sorts
  | .bool value =>
    cases second with
    | bool other =>
      by_cases alike : value = other
      · subst alike
        exact ⟨rfl, List.append_cancel_left same⟩
      · cases value <;> cases other <;> first | exact absurd rfl alike | exact absurd (List.cons.inj same).1 (by decide)
    | _ => cases sorts
  | .number value =>
    cases second with
    | number other =>
      obtain ⟨rfl, rfl⟩ := Number.text_unambiguous ends moreEnds same
      exact ⟨rfl, rfl⟩
    | _ => cases sorts
  | .string text =>
    cases second with
    | string other =>
      obtain ⟨rfl, rfl⟩ := quote_unambiguous same
      exact ⟨rfl, rfl⟩
    | _ => cases sorts
  | .array items =>
    cases second with
    | array others =>
      rw [encode_array, encode_array] at same
      obtain ⟨rfl, rfl⟩ := listText_unambiguous ends_bracket (by decide)
        (fun item _ {_ _ _} ends moreEnds same => compact_unambiguous item ends moreEnds same)
          item_starts (List.cons.inj same).2
      exact ⟨rfl, rfl⟩
    | _ => cases sorts
  | .object members =>
    cases second with
    | object others =>
      rw [encode_object, encode_object] at same
      obtain ⟨rfl, rfl⟩ :=
        listText_unambiguous ends_brace (by decide) (fun member listed {other _ _} ends moreEnds same => by
        have smaller := sizeOf_snd_lt listed
        rw [encode_member, encode_member] at same
        obtain ⟨key, colon⟩ := quote_unambiguous same
        obtain ⟨value, after⟩ := compact_unambiguous member.2 ends moreEnds (List.cons.inj colon).2
        exact ⟨Prod.ext key value, after⟩) member_starts (List.cons.inj same).2
      exact ⟨rfl, rfl⟩
    | _ => cases sorts
termination_by first

/-- A value is known from its compact text. -/
theorem compact_injective {first second : Json} (same : first.compact = second.compact) : first = second :=
  (compact_unambiguous first (show Ends [] from trivial) (show Ends [] from trivial) (by rw [same])).1

end Document
end OpGraph
