import OpGraph.Utf8

/-!
Hexadecimal digits. Writing uses lower case; reading takes either case.
-/

namespace OpGraph.Hex

/-- The digit for a number below sixteen. -/
def digit (value : Nat) : Char :=
  if value < 10 then Char.ofNat (48 + value) else Char.ofNat (87 + value)

def digit? (char : Char) : Option Nat :=
  if '0' ≤ char ∧ char ≤ '9' then some (char.toNat - 48)
  else if 'a' ≤ char ∧ char ≤ 'f' then some (char.toNat - 87)
  else if 'A' ≤ char ∧ char ≤ 'F' then some (char.toNat - 55)
  else none

/-- The low `count` digits of a number, most significant first. -/
def digits : (count : Nat) → Nat → List Char
  | 0, _ => []
  | count + 1, value => digit ((value >>> (4 * count)) % 16) :: digits count value

/-- The number that all these digits spell, most significant first. -/
def ofDigits? (chars : List Char) : Option Nat :=
  chars.foldlM (fun value char => (16 * value + ·) <$> digit? char) 0

/-- Bytes, each written as two digits. -/
def encode (bytes : Bytes) : String := String.ofList (bytes.flatMap fun byte => digits 2 byte.toNat)

def decodeChars? : List Char → Option Bytes
  | [] => some []
  | high :: low :: rest => do
    let byte ← ofDigits? [high, low]
    return UInt8.ofNat byte :: (← decodeChars? rest)
  | [_] => none

/-- The bytes spelled by an even number of digits. -/
def decode? (text : String) : Option Bytes := decodeChars? text.toList

end OpGraph.Hex
