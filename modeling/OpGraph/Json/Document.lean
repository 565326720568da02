import OpGraph.Hex
import OpGraph.Json.Numeral

/-!
JSON text as it is read, from bytes. Reading checks the grammar alone: a string that is not text and
a number beyond every double are kept as leaves without a value, so that a part of a document nobody
asks for may hold them. Objects keep repeated keys.
-/

namespace OpGraph

inductive Document where
  | null
  | bool (value : Bool)
  | number (value : Option Number)
  | string (value : Option String)
  | array (items : List Document)
  | object (members : List (Option String × Document))

namespace Document

instance : Inhabited Document := ⟨.null⟩

def isBlank (byte : UInt8) : Bool := byte == 0x20 || byte == 0x0A || byte == 0x0D || byte == 0x09

def skipBlanks (bytes : Bytes) : Bytes := bytes.dropWhile isBlank

/-! ## Strings -/

/-- A part of a string: a byte of its text, or a code unit given by an escape. -/
inductive Piece where
  | byte (value : UInt8)
  | unit (value : Nat)

/-- The code unit that four digits spell. -/
def codeUnit? (b0 b1 b2 b3 : UInt8) : Option Nat :=
  Hex.ofDigits? ([b0, b1, b2, b3].map fun byte => Char.ofNat byte.toNat)

/-- What a backslash and this byte stand for. -/
def escape? (byte : UInt8) : Option UInt8 :=
  match byte with
  | 0x22 => some 0x22
  | 0x5C => some 0x5C
  | 0x2F => some 0x2F
  | 0x62 => some 0x08
  | 0x66 => some 0x0C
  | 0x6E => some 0x0A
  | 0x72 => some 0x0D
  | 0x74 => some 0x09
  | _ => none

/-- The parts of a string up to its closing quote, and what follows it. -/
def pieces? (found : List Piece) : Bytes → Option (List Piece × Bytes)
  | [] => none
  | 0x22 :: rest => some (found.reverse, rest)
  | 0x5C :: 0x75 :: b0 :: b1 :: b2 :: b3 :: rest =>
    match codeUnit? b0 b1 b2 b3 with
    | some value => pieces? (.unit value :: found) rest
    | none => none
  | 0x5C :: byte :: rest =>
    match escape? byte with
    | some value => pieces? (.byte value :: found) rest
    | none => none
  | byte :: rest => if byte < 0x20 then none else pieces? (.byte byte :: found) rest

def isHighSurrogate (value : Nat) : Bool := 0xD800 ≤ value && value < 0xDC00

def isLowSurrogate (value : Nat) : Bool := 0xDC00 ≤ value && value < 0xE000

def charBytes (value : Nat) : Bytes := Utf8.encode (String.singleton (Char.ofNat value))

/-- The bytes of a string after those found, last one first. A surrogate stands only in a pair, high
before low. -/
def textBytes? (found : Bytes) : List Piece → Option Bytes
  | [] => some found.reverse
  | .byte value :: rest => textBytes? (value :: found) rest
  | .unit high :: .unit low :: rest =>
    if isHighSurrogate high then
      if isLowSurrogate low then
        textBytes? ((charBytes (0x10000 + 1024 * (high - 0xD800) + (low - 0xDC00))).reverse ++ found) rest
      else none
    else if isLowSurrogate high then none
    else textBytes? ((charBytes high).reverse ++ found) (.unit low :: rest)
  | .unit value :: rest =>
    if isHighSurrogate value || isLowSurrogate value then none
    else textBytes? ((charBytes value).reverse ++ found) rest

/-- A string after its opening quote; it has a value if its bytes spell a text. -/
def string? (bytes : Bytes) : Option (Option String × Bytes) := do
  let (pieces, rest) ← pieces? [] bytes
  return (textBytes? [] pieces >>= Utf8.decode?, rest)

/-! ## Numbers -/

def isDigit (byte : UInt8) : Bool := 0x30 ≤ byte && byte ≤ 0x39

/-- The longest run of digits at the front. -/
def digits (bytes : Bytes) : List Nat × Bytes :=
  let (run, rest) := bytes.span isDigit
  (run.map fun byte => byte.toNat - 0x30, rest)

def digitsOne? (bytes : Bytes) : Option (List Nat × Bytes) :=
  match digits bytes with
  | ([], _) => none
  | found => some found

/-- A zero leads only alone. -/
def whole? (bytes : Bytes) : Option (List Nat × Bytes) :=
  match digits bytes with
  | ([], _) => none
  | (0 :: _ :: _, _) => none
  | found => some found

def fraction? : Bytes → Option (Option (List Nat) × Bytes)
  | 0x2E :: rest => (fun (found, rest) => (some found, rest)) <$> digitsOne? rest
  | bytes => some (none, bytes)

def exponentDigits? (isNegative : Bool) (bytes : Bytes) : Option (Option (Bool × List Nat) × Bytes) :=
  (fun (found, rest) => (some (isNegative, found), rest)) <$> digitsOne? bytes

def exponent? : Bytes → Option (Option (Bool × List Nat) × Bytes)
  | byte :: rest =>
    if byte == 0x65 || byte == 0x45 then
      match rest with
      | 0x2B :: rest => exponentDigits? false rest
      | 0x2D :: rest => exponentDigits? true rest
      | rest => exponentDigits? false rest
    else some (none, byte :: rest)
  | [] => some (none, [])

def numeral? (bytes : Bytes) : Option (Numeral × Bytes) := do
  let (isNegative, bytes) := match bytes with
    | 0x2D :: rest => (true, rest)
    | bytes => (false, bytes)
  let (whole, bytes) ← whole? bytes
  let (fraction, bytes) ← fraction? bytes
  let (exponent, bytes) ← exponent? bytes
  return (⟨isNegative, whole, fraction, exponent⟩, bytes)

/-! ## Values -/

mutual

/-- A value at the front, after blanks. Every nested call takes one unit of fuel. -/
def value? : (fuel : Nat) → Bytes → Option (Document × Bytes)
  | 0, _ => none
  | fuel + 1, bytes =>
    match skipBlanks bytes with
    | 0x6E :: 0x75 :: 0x6C :: 0x6C :: rest => some (.null, rest)
    | 0x74 :: 0x72 :: 0x75 :: 0x65 :: rest => some (.bool true, rest)
    | 0x66 :: 0x61 :: 0x6C :: 0x73 :: 0x65 :: rest => some (.bool false, rest)
    | 0x22 :: rest => do
      let (value, rest) ← string? rest
      return (.string value, rest)
    | 0x5B :: rest =>
      match skipBlanks rest with
      | 0x5D :: rest => some (.array [], rest)
      | rest => do
        let (items, rest) ← items? fuel rest
        return (.array items, rest)
    | 0x7B :: rest =>
      match skipBlanks rest with
      | 0x7D :: rest => some (.object [], rest)
      | rest => do
        let (members, rest) ← members? fuel rest
        return (.object members, rest)
    | bytes => do
      let (numeral, rest) ← numeral? bytes
      return (.number numeral.value?, rest)

/-- The items of an array, at least one, and its closing bracket. -/
def items? : (fuel : Nat) → Bytes → Option (List Document × Bytes)
  | 0, _ => none
  | fuel + 1, bytes => do
    let (item, rest) ← value? fuel bytes
    match skipBlanks rest with
    | 0x5D :: rest => return ([item], rest)
    | 0x2C :: rest => do
      let (items, rest) ← items? fuel rest
      return (item :: items, rest)
    | _ => none

/-- The members of an object, at least one, and its closing bracket. -/
def members? : (fuel : Nat) → Bytes → Option (List (Option String × Document) × Bytes)
  | 0, _ => none
  | fuel + 1, bytes => do
    match skipBlanks bytes with
    | 0x22 :: rest => do
      let (key, rest) ← string? rest
      match skipBlanks rest with
      | 0x3A :: rest => do
        let (value, rest) ← value? fuel rest
        match skipBlanks rest with
        | 0x7D :: rest => return ([(key, value)], rest)
        | 0x2C :: rest => do
          let (members, rest) ← members? fuel rest
          return ((key, value) :: members, rest)
        | _ => none
      | _ => none
    | _ => none

end

/-- The first value of the text and the bytes after it. -/
def leading? (bytes : Bytes) : Option (Document × Bytes) := value? (2 * bytes.length + 2) bytes

/-- The value that makes up the whole text. -/
def ofBytes? (bytes : Bytes) : Option Document := do
  let (value, rest) ← leading? bytes
  if rest.all isBlank then some value else none

end Document
end OpGraph
