import OpGraph.Binary64.Rounding
import OpGraph.Hex

/-!
The smallest parts of TOML text: blanks, comments, strings, keys, numbers and dates. A reader gives
what it found at the front of the text and the rest of the text.
-/

namespace OpGraph.Toml

abbrev Text := List Char

def isBlank (char : Char) : Bool := char == ' ' || char == '\t'

def skipBlanks (text : Text) : Text := text.dropWhile isBlank

/-- Whether a character may stand in a comment or, unescaped, in a string. -/
def isPlain (char : Char) : Bool := char == '\t' || 0x20 ≤ char.toNat && char.toNat != 0x7F

/-- A line break is a line feed, perhaps after a carriage return. -/
def lineBreak? : Text → Option Text
  | '\n' :: rest => some rest
  | '\r' :: '\n' :: rest => some rest
  | _ => none

/-- Skips a comment, if there is one, up to the end of its line. -/
def skipComment : Text → Text
  | '#' :: rest => rest.dropWhile isPlain
  | text => text

/-- The rest of a line that holds nothing more than blanks and a comment; nothing follows the last line. -/
def lineEnd? (text : Text) : Option Text :=
  match skipComment (skipBlanks text) with
  | [] => some []
  | rest => lineBreak? rest

/-- Skips blanks, comments and line breaks. -/
def skipLines : (fuel : Nat) → Text → Text
  | 0, text => text
  | fuel + 1, text =>
    let rest := skipComment (skipBlanks text)
    match lineBreak? rest with
    | some rest => skipLines fuel rest
    | none => rest

/-! ## Strings -/

/-- The character with this number, in so many hexadecimal digits; a surrogate is none. -/
def codePoint? (digits : List Char) : Option Char := do
  let value ← Hex.ofDigits? digits
  if value.isValidChar then some (Char.ofNat value) else none

def escape? (char : Char) : Option Char :=
  match char with
  | 'b' => some '\x08'
  | 't' => some '\t'
  | 'n' => some '\n'
  | 'f' => some '\x0c'
  | 'r' => some '\r'
  | '"' => some '"'
  | '\\' => some '\\'
  | _ => none

/-- What an escape after its backslash stands for. -/
def escaped? : Text → Option (Char × Text)
  | 'u' :: rest => if rest.length < 4 then none else (·, rest.drop 4) <$> codePoint? (rest.take 4)
  | 'U' :: rest => if rest.length < 8 then none else (·, rest.drop 8) <$> codePoint? (rest.take 8)
  | char :: rest => (·, rest) <$> escape? char
  | [] => none

/-- A string in double quotes, after the opening one. -/
def basic? : (fuel : Nat) → (found : List Char) → Text → Option (String × Text)
  | 0, _, _ => none
  | _, _, [] => none
  | _ + 1, found, '"' :: rest => some (String.ofList found.reverse, rest)
  | fuel + 1, found, '\\' :: rest => do
    let (char, rest) ← escaped? rest
    basic? fuel (char :: found) rest
  | fuel + 1, found, char :: rest => if isPlain char then basic? fuel (char :: found) rest else none

/-- A string in single quotes, after the opening one; it has no escapes. -/
def literal? (text : Text) : Option (String × Text) :=
  match text.span fun char => isPlain char && char != '\'' with
  | (found, '\'' :: rest) => some (String.ofList found, rest)
  | _ => none

/-- The end of a string in triple quotes: of up to five quotes the last three close it. -/
def closing? (quote : Char) (text : Text) : Option (List Char × Text) :=
  let quotes := min (text.takeWhile (· == quote)).length 5
  if quotes < 3 then none else some (List.replicate (quotes - 3) quote, text.drop quotes)

/-- Skips blanks and line breaks. -/
def skipBlankLines (text : Text) : Text :=
  match text with
  | '\r' :: '\n' :: rest => skipBlankLines rest
  | char :: rest => if isBlank char || char == '\n' then skipBlankLines rest else text
  | [] => []

/-- After a backslash at the end of a line, the blanks and line breaks up to the next character are
left out. -/
def continuation? (text : Text) : Option Text :=
  skipBlankLines <$> lineBreak? (skipBlanks text)

/-- A string over several lines, after its opening quotes. -/
def multiline? (quote : Char) : (fuel : Nat) → (found : List Char) → Text → Option (String × Text)
  | 0, _, _ => none
  | fuel + 1, found, text =>
    match closing? quote text with
    | some (quotes, rest) => some (String.ofList (found.reverse ++ quotes), rest)
    | none =>
      match text with
      | [] => none
      | char :: rest =>
        if char == '\\' && quote == '"' then
          match continuation? rest with
          | some rest => multiline? quote fuel found rest
          | none => do
            let (char, rest) ← escaped? rest
            multiline? quote fuel (char :: found) rest
        else match lineBreak? text with
          | some rest => multiline? quote fuel ('\n' :: found) rest
          | none => if isPlain char then multiline? quote fuel (char :: found) rest else none

/-- A string of any kind. A line break right after triple quotes is left out. -/
def string? (text : Text) : Option (String × Text) :=
  let afterBreak (rest : Text) := (lineBreak? rest).getD rest
  match text with
  | '"' :: '"' :: '"' :: rest => multiline? '"' (rest.length + 1) [] (afterBreak rest)
  | '\'' :: '\'' :: '\'' :: rest => multiline? '\'' (rest.length + 1) [] (afterBreak rest)
  | '"' :: rest => basic? (rest.length + 1) [] rest
  | '\'' :: rest => literal? rest
  | _ => none

/-! ## Keys -/

def isBare (char : Char) : Bool := char.isAlphanum || char == '_' || char == '-'

/-- One part of a key: bare, or a string on one line. -/
def keyPart? (text : Text) : Option (String × Text) :=
  match text with
  | '"' :: rest => basic? (rest.length + 1) [] rest
  | '\'' :: rest => literal? rest
  | text =>
    match text.span isBare with
    | ([], _) => none
    | (found, rest) => some (String.ofList found, rest)

/-- The parts of a key, with dots between them. -/
def keyParts? : (fuel : Nat) → Text → Option (List String × Text)
  | 0, _ => none
  | fuel + 1, text => do
    let (part, rest) ← keyPart? (skipBlanks text)
    match skipBlanks rest with
    | '.' :: rest => do
      let (parts, rest) ← keyParts? fuel rest
      return (part :: parts, rest)
    | rest => return ([part], rest)

/-- The parts that a key may have. -/
def keyLimit : Nat := 79

def key? (text : Text) : Option (List String × Text) := do
  let (parts, rest) ← keyParts? (text.length + 1) text
  if parts.length ≤ keyLimit then some (parts, rest) else none

/-! ## Numbers and dates -/

/-- Digits with single underscores between them. -/
def isDigits (isDigit : Char → Bool) (text : Text) : Bool :=
  match text with
  | [] => false
  | [char] => isDigit char
  | char :: '_' :: rest => isDigit char && isDigits isDigit rest
  | char :: rest => isDigit char && isDigits isDigit rest

def digitsValue (base : Nat) (text : Text) : Nat :=
  text.foldl (fun value char => (base * value + ·) ((Hex.digit? char).getD 0)) 0

def withoutSign : Text → Text
  | '+' :: rest => rest
  | '-' :: rest => rest
  | text => text

/-- Decimal digits without a needless zero at the front. -/
def isWhole (text : Text) : Bool :=
  isDigits Char.isDigit text && (text.length == 1 || text.head? != some '0')

/-- Whether a number fits in 64 bits with a sign. -/
def isInRange (isNegative : Bool) (magnitude : Nat) : Bool :=
  if isNegative then magnitude ≤ 0x8000000000000000 else magnitude < 0x8000000000000000

def isInteger (text : Text) : Bool :=
  let inBase (base : Nat) (isDigit : Char → Bool) (digits : Text) : Bool :=
    isDigits isDigit digits && isInRange false (digitsValue base (digits.filter (· != '_')))
  match text with
  | '0' :: 'x' :: digits => inBase 16 (fun char => (Hex.digit? char).isSome) digits
  | '0' :: 'o' :: digits => inBase 8 (fun char => '0' ≤ char && char ≤ '7') digits
  | '0' :: 'b' :: digits => inBase 2 (fun char => char == '0' || char == '1') digits
  | text =>
    let digits := withoutSign text
    isWhole digits && isInRange (text.head? == some '-') (digitsValue 10 (digits.filter (· != '_')))

/-- The value of digits that may have a sign and underscores. -/
def signedValue (text : Text) : Int :=
  let magnitude : Int := digitsValue 10 ((withoutSign text).filter (· != '_'))
  if text.head? == some '-' then -magnitude else magnitude

/-- A number with a fraction or an exponent, or a special one. One beyond the greatest double is
refused; below the least one it is negative infinity. -/
def isFloat (text : Text) : Bool :=
  let unsigned := withoutSign text
  let (mantissa, exponent) := unsigned.span fun char => char != 'e' && char != 'E'
  let (whole, fraction) := mantissa.span (· != '.')
  let exponentFits := exponent.isEmpty || isDigits Char.isDigit (withoutSign (exponent.drop 1))
  let fractionFits := fraction.isEmpty || isDigits Char.isDigit (fraction.drop 1)
  let decimals := (fraction.drop 1).filter (· != '_')
  let coefficient := digitsValue 10 (whole.filter (· != '_') ++ decimals)
  let isTooLarge := text.head? != some '-'
    && Binary64.overflows coefficient (signedValue (exponent.drop 1) - decimals.length)
  unsigned == "inf".toList || unsigned == "nan".toList
    || isWhole whole && fractionFits && exponentFits && !(fraction.isEmpty && exponent.isEmpty)
      && !isTooLarge

/-- The number in the first `count` characters, if they are digits, and what follows them. -/
def fixedDigits? (count : Nat) (text : Text) : Option (Nat × Text) :=
  let digits := text.take count
  if digits.length == count && digits.all Char.isDigit then some (digitsValue 10 digits, text.drop count)
  else none

def daysIn (year month : Nat) : Nat :=
  if month == 2 then if year % 4 == 0 && (year % 100 != 0 || year % 400 == 0) then 29 else 28
  else if [4, 6, 9, 11].contains month then 30 else 31

/-- A year, month and day. -/
def date? (text : Text) : Option Text := do
  let (year, rest) ← fixedDigits? 4 text
  let '-' :: rest := rest | none
  let (month, rest) ← fixedDigits? 2 rest
  let '-' :: rest := rest | none
  let (day, rest) ← fixedDigits? 2 rest
  if 1 ≤ month ∧ month ≤ 12 ∧ 1 ≤ day ∧ day ≤ daysIn year month then some rest else none

def hourAndMinute? (text : Text) : Option Text := do
  let (hour, rest) ← fixedDigits? 2 text
  let ':' :: rest := rest | none
  let (minute, rest) ← fixedDigits? 2 rest
  if hour ≤ 23 ∧ minute ≤ 59 then some rest else none

/-- A time of day to the second, perhaps with a fraction. -/
def time? (text : Text) : Option Text := do
  let ':' :: rest ← hourAndMinute? text | none
  let (second, rest) ← fixedDigits? 2 rest
  if 60 < second then none
  else match rest with
    | '.' :: rest =>
      match rest.span Char.isDigit with
      | ([], _) => none
      | (_, rest) => some rest
    | rest => some rest

def isOffset : Text → Bool
  | [] => true
  | ['Z'] | ['z'] => true
  | '+' :: rest | '-' :: rest => hourAndMinute? rest == some []
  | _ => false

def isDateTime (text : Text) : Bool :=
  match date? text with
  | none => time? text == some []
  | some [] => true
  | some (separator :: rest) =>
    (separator == 'T' || separator == 't' || separator == ' ') && (time? rest).any isOffset

def isScalarChar (char : Char) : Bool := isBare char || char == '+' || char == '.' || char == ':'

inductive Scalar where
  | number
  /-- A date, a time of day, or both. -/
  | date
deriving DecidableEq

/-- A number or a date. A blank may stand between a date and its time. -/
def scalar? (text : Text) : Option (Scalar × Text) :=
  let (found, rest) := text.span isScalarChar
  let (found, rest) := match rest with
    | ' ' :: after =>
      if (date? found).any List.isEmpty && (hourAndMinute? after).isSome then
        let (time, rest) := after.span isScalarChar
        (found ++ ' ' :: time, rest)
      else (found, rest)
    | rest => (found, rest)
  if isDateTime found then some (.date, rest)
  else if isInteger found || isFloat found then some (.number, rest)
  else none

end OpGraph.Toml
