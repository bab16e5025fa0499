import Workflow.Text.CharClass
import Workflow.Value.Printer

/-!
# Reading values from text

The first value of a text is read and the rest of the text is left. Every reader takes characters
and returns what it read with the characters that follow. The mutual readers recurse on a count of
nested steps, for which the length of the text is always enough.
-/

namespace Workflow.Value

/-- The blanks between values. -/
def isBlank (c : Char) : Bool :=
  c == ' ' || c == '\t' || c == '\r' || c == '\n'

/-- Blanks and commas, which separate items. -/
def isSeparator (c : Char) : Bool :=
  isBlank c || c == ','

/-- The characters that end a bare token: blanks, the two other spaces of ASCII, and brackets,
quotes and marks. -/
def isDelimiter (c : Char) : Bool :=
  isBlank c || c == '\x0b' || c == '\x0c' || "()\x7b\x7d[]<>\"';,@#:".toList.contains c

/-- The marks with which no value begins. -/
def isMisplaced (c : Char) : Bool :=
  "]>\x7d;,:".toList.contains c

/-- The brackets that end a compound. Any of them does, whichever bracket began it. -/
def isClosing (c : Char) : Bool :=
  c == ']' || c == '>' || c == '\x7d'

/-- Whether an octet behind the first one of a character reads as a blank by itself: a bare token
with such a character is cut within it and refused. -/
def hidesBlank (c : Char) : Bool :=
  ((Utf8.encode (String.singleton c)).drop 1).any fun b => b == 0x85 || b == 0xa0

/-- Four hexadecimal digits as a number. -/
def readUnit : List Char → Option (Nat × List Char)
  | a :: b :: c :: d :: rest => (Hex.number? [a, b, c, d]).map (·, rest)
  | _ => none

/-- The character of an escape behind the letter `u`. The two halves of a surrogate pair are joined;
a half alone is refused. -/
def readUnicode (cs : List Char) : Option (Char × List Char) := do
  let (high, rest) ← readUnit cs
  if 0xD800 ≤ high ∧ high < 0xDC00 then
    match rest with
    | '\\' :: 'u' :: rest =>
      let (low, rest) ← readUnit rest
      if 0xDC00 ≤ low ∧ low < 0xE000 then
        return (Char.ofNat (0x10000 + (high - 0xD800) * 0x400 + (low - 0xDC00)), rest)
      else none
    | _ => none
  else if 0xDC00 ≤ high ∧ high < 0xE000 then none
  else return (Char.ofNat high, rest)

/-- The character of a one-letter escape; the quote in use can be escaped as well. -/
def shortEscape? (quote c : Char) : Option Char :=
  if c = quote ∨ c = '\\' ∨ c = '/' then some c
  else if c = 'b' then some '\x08'
  else if c = 'f' then some '\x0c'
  else if c = 'n' then some '\n'
  else if c = 'r' then some '\r'
  else if c = 't' then some '\t'
  else none

/-- The characters up to the closing quote, with escapes resolved. -/
def readQuoted (quote : Char) : Nat → List Char → Option (List Char × List Char)
  | 0, _ => none
  | _ + 1, [] => none
  | fuel + 1, '\\' :: 'u' :: rest => do
    let (c, rest) ← readUnicode rest
    let (cs, rest) ← readQuoted quote fuel rest
    return (c :: cs, rest)
  | fuel + 1, '\\' :: e :: rest => do
    let c ← shortEscape? quote e
    let (cs, rest) ← readQuoted quote fuel rest
    return (c :: cs, rest)
  | _ + 1, ['\\'] => none
  | fuel + 1, c :: rest =>
    if c = quote then some ([], rest)
    else (readQuoted quote fuel rest).map fun (cs, rest) => (c :: cs, rest)

/-- The octets of a byte literal up to its closing quote: characters stand for their UTF-8 form, and
`\x` with two digits for one octet. -/
def readByteLiteral : Nat → List Char → Option (Bytes × List Char)
  | 0, _ => none
  | _ + 1, [] => none
  | _ + 1, '"' :: rest => some ([], rest)
  | fuel + 1, '\\' :: 'x' :: a :: b :: rest => do
    let n ← Hex.number? [a, b]
    let (bs, rest) ← readByteLiteral fuel rest
    return (UInt8.ofNat n :: bs, rest)
  | fuel + 1, '\\' :: e :: rest => do
    let c ← shortEscape? '"' e
    let (bs, rest) ← readByteLiteral fuel rest
    return (UInt8.ofNat c.toNat :: bs, rest)
  | _ + 1, ['\\'] => none
  | fuel + 1, c :: rest =>
    (readByteLiteral fuel rest).map fun (bs, rest) => (Utf8.encode (String.singleton c) ++ bs, rest)

/-- The characters up to a closing bracket, without blanks. -/
def readBracketed (cs : List Char) : Option (List Char × List Char) :=
  match cs.dropWhile (· != ']') with
  | _ :: rest => some ((cs.takeWhile (· != ']')).filter fun c => !isBlank c, rest)
  | [] => none

/-- The octets of digit pairs up to the closing quote; blanks may stand between the pairs. -/
def readPairs : Nat → List Char → Option (Bytes × List Char)
  | 0, _ => none
  | fuel + 1, cs =>
    match cs.dropWhile isBlank with
    | '"' :: rest => some ([], rest)
    | a :: b :: rest => do
      let n ← Hex.number? [a, b]
      let (bs, rest) ← readPairs fuel rest
      return (UInt8.ofNat n :: bs, rest)
    | _ => none

/-- The number that decimal digits spell. -/
def digitsValue (digits : List Char) : Nat :=
  digits.foldl (fun n c => n * 10 + (c.toNat - 48)) 0

/-- Whether characters begin with a minus sign. -/
def startsNegative : List Char → Bool
  | '-' :: _ => true
  | _ => false

/-- A signed integer from an optional sign and digits. -/
def integerValue (cs : List Char) : Int :=
  let n : Int := digitsValue (dropSign cs)
  if startsNegative cs then -n else n

/-- The double that a sign, digits, fraction and exponent spell. -/
def doubleValue (cs : List Char) : Double :=
  let unsigned := dropSign cs
  let whole := unsigned.takeWhile Char.isDigit
  let tail := unsigned.dropWhile Char.isDigit
  let (fraction, tail) :=
    match tail with
    | '.' :: rest => (rest.takeWhile Char.isDigit, rest.dropWhile Char.isDigit)
    | rest => ([], rest)
  let exponent := integerValue (tail.drop 1)
  Double.ofDecimal (startsNegative cs) (digitsValue (whole ++ fraction))
    (exponent - fraction.length)

/-- The token with every decimal digit, of whichever script, written as zero. -/
def numeralShape (cs : List Char) : List Char :=
  cs.map fun c => if CharClass.decimalDigits.contains c then '0' else c

/-- A bare token: an integer, a double or a symbol. A token that has the shape of a number with
digits of another script is refused. -/
def tokenValue? (cs : List Char) : Option Value :=
  if cs.any hidesBlank then none
  else if spellsInteger cs then some (integer (integerValue cs))
  else if spellsDouble cs then some (double (doubleValue cs))
  else if spellsInteger (numeralShape cs) || spellsDouble (numeralShape cs) then none
  else some (symbol (String.ofList cs))

/-- Whether the next character ends a token. -/
def atDelimiter : List Char → Bool
  | [] => true
  | c :: _ => isDelimiter c

/-- The value behind `#`, for the forms that need no nested reading. -/
def readHash : List Char → Option (Value × List Char)
  | 't' :: rest => if atDelimiter rest then some (boolean true, rest) else none
  | 'f' :: rest => if atDelimiter rest then some (boolean false, rest) else none
  | '"' :: rest => (readByteLiteral (rest.length + 1) rest).map fun (bs, rest) => (bytes bs, rest)
  | 'x' :: '"' :: rest => (readPairs (rest.length + 1) rest).map fun (bs, rest) => (bytes bs, rest)
  | 'x' :: 'd' :: '"' :: rest => do
    let (bs, rest) ← readPairs (rest.length + 1) rest
    if bs.length = 8 then
      return (double ⟨UInt64.ofNat (bs.foldl (fun n b => n * 256 + b.toNat) 0)⟩, rest)
    else none
  | '[' :: rest => do
    let (digits, rest) ← readBracketed rest
    let bs ← Base64.decodeChars? digits
    return (bytes bs, rest)
  | _ => none

/-- The text of a line and what follows it; the line must end. -/
def readLine (cs : List Char) : Option (List Char × List Char) :=
  match cs.dropWhile fun c => c != '\n' && c != '\r' with
  | _ :: rest => some (cs.takeWhile fun c => c != '\n' && c != '\r', rest)
  | [] => none

mutual

/-- Read one value, passing over blanks in front. -/
def readValue : Nat → List Char → Option (Value × List Char)
  | 0, _ => none
  | fuel + 1, cs =>
    match cs.dropWhile isBlank with
    | [] => none
    | ['#'] => none
    | '"' :: rest =>
      (readQuoted '"' fuel rest).map fun (s, rest) => (string (String.ofList s), rest)
    | '\'' :: rest =>
      (readQuoted '\'' fuel rest).map fun (s, rest) => (symbol (String.ofList s), rest)
    | '@' :: rest => do
      let (note, rest) ← readValue fuel rest
      let (v, rest) ← readValue fuel rest
      return (annotated note v, rest)
    | '[' :: rest => do
      let (items, rest) ← readItems fuel rest
      return (sequence items, rest)
    | '<' :: rest => do
      match ← readFields fuel rest with
      | (label :: fields, rest) => return (record label fields, rest)
      | ([], _) => none
    | '\x7b' :: rest => do
      let (entries, rest) ← readEntries fuel rest
      return (← dictionaryOf? entries, rest)
    | '#' :: '\x7b' :: rest => do
      let (members, rest) ← readItems fuel rest
      return (← setOf? members, rest)
    | '#' :: ':' :: rest => do
      let (v, rest) ← readValue fuel rest
      return (embedded v, rest)
    | '#' :: '!' :: rest => do
      let (line, rest) ← readLine rest
      let (v, rest) ← readValue fuel rest
      return (annotated (record (symbol "interpreter") [string (String.ofList line)]) v, rest)
    | '#' :: c :: rest =>
      if isBlank c then do
        let (line, rest) ← readLine (if c == ' ' || c == '\t' then rest else c :: rest)
        let (v, rest) ← readValue fuel rest
        return (annotated (string (String.ofList line)) v, rest)
      else readHash (c :: rest)
    | c :: rest =>
      if isMisplaced c then none
      else
        (tokenValue? (c :: rest.takeWhile fun c => !isDelimiter c)).map
          (·, rest.dropWhile fun c => !isDelimiter c)

/-- Read items up to a closing bracket; commas and blanks separate them. -/
def readItems : Nat → List Char → Option (List Value × List Char)
  | 0, _ => none
  | fuel + 1, cs =>
    match cs.dropWhile isSeparator with
    | [] => none
    | c :: rest =>
      if isClosing c then some ([], rest)
      else do
        let (v, rest) ← readValue fuel (c :: rest)
        let (vs, rest) ← readItems fuel rest
        return (v :: vs, rest)

/-- Read the label and fields of a record up to a closing bracket; only blanks separate them. -/
def readFields : Nat → List Char → Option (List Value × List Char)
  | 0, _ => none
  | fuel + 1, cs =>
    match cs.dropWhile isBlank with
    | [] => none
    | c :: rest =>
      if isClosing c then some ([], rest)
      else do
        let (v, rest) ← readValue fuel (c :: rest)
        let (vs, rest) ← readFields fuel rest
        return (v :: vs, rest)

/-- Read the entries of a dictionary up to a closing bracket. -/
def readEntries : Nat → List Char → Option (List Entry × List Char)
  | 0, _ => none
  | fuel + 1, cs =>
    match cs.dropWhile isSeparator with
    | [] => none
    | c :: rest =>
      if isClosing c then some ([], rest)
      else do
        let (k, rest) ← readValue fuel (c :: rest)
        match rest.dropWhile isBlank with
        | ':' :: rest => do
          let (v, rest) ← readValue fuel rest
          let (es, rest) ← readEntries fuel rest
          return (.mk k v :: es, rest)
        | _ => none

end

/-- The first value of a text. -/
def parse? (text : String) : Option Value :=
  let cs := text.toList
  (readValue (2 * cs.length + 2) cs).map (·.1)

end Workflow.Value
