import Workflow.Json
import Workflow.Text.Hex
import Workflow.Word

/-!
# Reading JSON

An octet sequence is one document with blanks around it. Only the text between quotes may hold
octets beyond ASCII. While the parser runs, each octet stands as the character of its number; the
octets of a quoted text are put together and read as UTF-8 at its end. A part that is written well
but cannot be read stays in the document as such.
-/

namespace Workflow.Json

/-- The blanks between tokens. -/
def isBlank (c : Char) : Bool :=
  c == ' ' || c == '\t' || c == '\r' || c == '\n'

/-- The characters without the blanks in front. -/
def skipBlanks (cs : List Char) : List Char :=
  cs.dropWhile isBlank

/-- Four hexadecimal digits as a number. -/
def readUnit : List Char → Option (Nat × List Char)
  | a :: b :: c :: d :: rest => (Hex.number? [a, b, c, d]).map (·, rest)
  | _ => none

/-- The octets of a code point below `0x10000`. Half of a surrogate pair has octets as well, which
no text holds. -/
def unitOctets (n : Nat) : Bytes :=
  if n < 0x80 then [UInt8.ofNat n]
  else if n < 0x800 then [UInt8.ofNat (0xc0 + n / 64), UInt8.ofNat (0x80 + n % 64)]
  else [UInt8.ofNat (0xe0 + n / 4096), UInt8.ofNat (0x80 + n / 64 % 64),
    UInt8.ofNat (0x80 + n % 64)]

/-- The octets of an escape behind the letter `u`; surrogate pairs are joined. -/
def readUnicode (cs : List Char) : Option (Bytes × List Char) := do
  let (high, rest) ← readUnit cs
  if 0xD800 ≤ high ∧ high < 0xDC00 then
    match rest with
    | '\\' :: 'u' :: behind =>
      let (low, behind) ← readUnit behind
      if 0xDC00 ≤ low ∧ low < 0xE000 then
        let c := Char.ofNat (0x10000 + (high - 0xD800) * 0x400 + (low - 0xDC00))
        return (Utf8.encode (String.singleton c), behind)
      else return (unitOctets high, rest)
    | _ => return (unitOctets high, rest)
  else return (unitOctets high, rest)

/-- The octet of a one-letter escape. -/
def shortEscape? (c : Char) : Option UInt8 :=
  if c = '"' ∨ c = '\\' ∨ c = '/' then some (UInt8.ofNat c.toNat)
  else if c = 'b' then some 8
  else if c = 'f' then some 12
  else if c = 'n' then some 10
  else if c = 'r' then some 13
  else if c = 't' then some 9
  else none

/-- The octets of a text up to its closing quote. -/
def readString : Nat → List Char → Option (Bytes × List Char)
  | 0, _ => none
  | _ + 1, [] => none
  | _ + 1, '"' :: rest => some ([], rest)
  | fuel + 1, '\\' :: 'u' :: rest => do
    let (octets, rest) ← readUnicode rest
    let (more, rest) ← readString fuel rest
    return (octets ++ more, rest)
  | fuel + 1, '\\' :: e :: rest => do
    let octet ← shortEscape? e
    let (more, rest) ← readString fuel rest
    return (octet :: more, rest)
  | _ + 1, ['\\'] => none
  | fuel + 1, c :: rest =>
    if c.toNat < 32 then none
    else (readString fuel rest).map fun (more, rest) => (UInt8.ofNat c.toNat :: more, rest)

/-- The number that decimal digits spell. -/
def digitsValue (digits : List Char) : Nat :=
  digits.foldl (fun n c => n * 10 + (c.toNat - 48)) 0

/-- Digits in front, which must be there. -/
def readDigits (cs : List Char) : Option (List Char × List Char) :=
  match cs.takeWhile Char.isDigit with
  | [] => none
  | digits => some (digits, cs.dropWhile Char.isDigit)

/-- Digits of an integer part: no zero in front of other digits. -/
def readWhole (cs : List Char) : Option (List Char × List Char) := do
  let (digits, rest) ← readDigits cs
  match digits with
  | '0' :: _ :: _ => none
  | _ => return (digits, rest)

/-- An optional fraction. -/
def readFraction : List Char → Option (Option (List Char) × List Char)
  | '.' :: rest => (readDigits rest).map fun (digits, rest) => (some digits, rest)
  | rest => some (none, rest)

/-- The digits of an exponent, with its sign. -/
def readPower (negative : Bool) (cs : List Char) : Option (Option Int × List Char) :=
  (readDigits cs).map fun (digits, rest) =>
    let n : Int := digitsValue digits
    (some (if negative then -n else n), rest)

/-- An optional exponent. -/
def readExponent : List Char → Option (Option Int × List Char)
  | c :: rest =>
    if c = 'e' ∨ c = 'E' then
      match rest with
      | '+' :: rest => readPower false rest
      | '-' :: rest => readPower true rest
      | rest => readPower false rest
    else some (none, c :: rest)
  | [] => some (none, [])

/-- The number of a sign, an integer part, a fraction and an exponent, unless it is beyond the range
of doubles. -/
def makeNumber? (negative : Bool) (whole : List Char) (fraction : Option (List Char))
    (exponent : Option Int) : Option JsonNumber :=
  let n := digitsValue whole
  let fits : Bool := if negative then decide (0 < n ∧ n ≤ signBound) else decide (n < wordBound)
  if fraction.isNone && exponent.isNone && fits then
    some (.integer (if negative then -(n : Int) else n))
  else
    let places := fraction.getD []
    let d := Double.ofDecimal negative (digitsValue (whole ++ places))
      (exponent.getD 0 - places.length)
    if d.isFinite then some (.real d) else none

/-- A number. -/
def readNumber (cs : List Char) : Option (Json × List Char) := do
  let negative := match cs with
    | '-' :: _ => true
    | _ => false
  let (whole, rest) ← readWhole (if negative then cs.drop 1 else cs)
  let (fraction, rest) ← readFraction rest
  let (exponent, rest) ← readExponent rest
  return (((makeNumber? negative whole fraction exponent).map number).getD unreadable, rest)

/-- The text of octets. -/
def ofOctets (octets : Bytes) : Json :=
  ((Utf8.decode? octets).map string).getD unreadable

/-- The object of fields whose names are octets. -/
def ofNamedOctets (fields : List (Bytes × Json)) : Json :=
  let named? := fields.mapM fun (field : Bytes × Json) =>
    (Utf8.decode? field.1).map fun name => (name, field.2)
  (named?.map object).getD unreadable

mutual

/-- Read one value; `depth` more levels of nesting are allowed. -/
def readValue : Nat → Nat → List Char → Option (Json × List Char)
  | 0, _, _ => none
  | fuel + 1, depth, cs =>
    match skipBlanks cs with
    | [] => none
    | 'n' :: 'u' :: 'l' :: 'l' :: rest => some (null, rest)
    | 't' :: 'r' :: 'u' :: 'e' :: rest => some (boolean true, rest)
    | 'f' :: 'a' :: 'l' :: 's' :: 'e' :: rest => some (boolean false, rest)
    | '"' :: rest => (readString fuel rest).map fun (octets, rest) => (ofOctets octets, rest)
    | '[' :: rest =>
      match depth with
      | 0 => none
      | depth + 1 =>
        match skipBlanks rest with
        | ']' :: rest => some (array [], rest)
        | rest => (readItems fuel depth rest).map fun (js, rest) => (array js, rest)
    | '\x7b' :: rest =>
      match depth with
      | 0 => none
      | depth + 1 =>
        match skipBlanks rest with
        | '\x7d' :: rest => some (object [], rest)
        | rest => (readFields fuel depth rest).map fun (fs, rest) => (ofNamedOctets fs, rest)
    | rest => readNumber rest

/-- Read one item or more up to the closing bracket. -/
def readItems : Nat → Nat → List Char → Option (List Json × List Char)
  | 0, _, _ => none
  | fuel + 1, depth, cs => do
    let (j, rest) ← readValue fuel depth cs
    match skipBlanks rest with
    | ',' :: rest =>
      let (js, rest) ← readItems fuel depth rest
      return (j :: js, rest)
    | ']' :: rest => return ([j], rest)
    | _ => none

/-- Read one field or more up to the closing brace. -/
def readFields : Nat → Nat → List Char → Option (List (Bytes × Json) × List Char)
  | 0, _, _ => none
  | fuel + 1, depth, cs =>
    match skipBlanks cs with
    | '"' :: rest => do
      let (name, rest) ← readString fuel rest
      match skipBlanks rest with
      | ':' :: rest => do
        let (j, rest) ← readValue fuel depth rest
        match skipBlanks rest with
        | ',' :: rest => do
          let (fs, rest) ← readFields fuel depth rest
          return ((name, j) :: fs, rest)
        | '\x7d' :: rest => return ([(name, j)], rest)
        | _ => none
      | _ => none
    | _ => none

end

/-- The document that octets spell, nested no deeper than `depth`. -/
def readDocument (depth : Nat) (octets : Bytes) : Option Json := do
  let cs := octets.map fun b => Char.ofNat b.toNat
  let (j, rest) ← readValue (2 * cs.length + 2) depth cs
  if (skipBlanks rest).isEmpty then some j else none

/-- The document that octets spell. Parts of it may be unreadable. -/
def ofBytes? (octets : Bytes) : Option Json :=
  readDocument octets.length octets

/-- The levels of nesting that a text may have. -/
def maxDepth : Nat := 127

/-- The document that a text spells, all of it readable. -/
def parse? (text : String) : Option Json :=
  (readDocument maxDepth (Utf8.encode text)).filter isReadable

end Workflow.Json
