import Workflow.Double.Layout
import Workflow.Double.Scaled
import Workflow.Text.Base64
import Workflow.Text.Hex
import Workflow.Value

/-!
# Printing values

Each value has one text: items are separated by a comma and a blank, record fields by a blank;
symbols stand bare where they cannot be mistaken for anything else and between single quotes
otherwise; a double shows digits that read back.
-/

namespace Workflow

namespace Value

/-- Doubles are written in full from a millionth up to twenty-one integer digits. -/
def doubleLayout : DecimalLayout := ⟨21, -6⟩

/-- The text of a double: decimal if it is finite, else its word in hexadecimal. -/
def printDouble (d : Double) : List Char :=
  if d.isFinite then
    let text := doubleLayout.write (Double.scaledDecimal d.magnitude)
    if d.isNegative then '-' :: text else text
  else
    "#xd\"".toList ++ Hex.padded 16 d.bits.toNat ++ ['"']

/-- A character inside quotes, escaped if it is the quote itself, a backslash or one of the five
control characters that have a short escape. -/
def escapeChar (quote c : Char) : List Char :=
  if c = quote ∨ c = '\\' then ['\\', c]
  else if c = '\x08' then ['\\', 'b']
  else if c = '\x0c' then ['\\', 'f']
  else if c = '\n' then ['\\', 'n']
  else if c = '\r' then ['\\', 'r']
  else if c = '\t' then ['\\', 't']
  else [c]

/-- A text between quotes. -/
def quoted (quote : Char) (text : String) : List Char :=
  quote :: text.toList.flatMap (escapeChar quote) ++ [quote]

/-- Drop an optional sign. -/
def dropSign : List Char → List Char
  | '+' :: cs => cs
  | '-' :: cs => cs
  | cs => cs

/-- One digit or more, and nothing else. -/
def isDigits (cs : List Char) : Bool :=
  !cs.isEmpty && cs.all Char.isDigit

/-- Whether characters spell an integer: an optional sign and digits. -/
def spellsInteger (cs : List Char) : Bool :=
  isDigits (dropSign cs)

/-- Whether characters are an exponent: `e`, an optional sign and digits. -/
def isExponent : List Char → Bool
  | c :: cs => (c == 'e' || c == 'E') && isDigits (dropSign cs)
  | [] => false

/-- Whether characters spell a double: an integer, then a fraction, an exponent or both. -/
def spellsDouble (cs : List Char) : Bool :=
  let whole := (dropSign cs).takeWhile Char.isDigit
  !whole.isEmpty &&
    match (dropSign cs).dropWhile Char.isDigit with
    | '.' :: rest =>
      let exponent := rest.dropWhile Char.isDigit
      !(rest.takeWhile Char.isDigit).isEmpty && (exponent.isEmpty || isExponent exponent)
    | rest => isExponent rest

/-- The characters of which a bare symbol may consist. -/
def isSymbolChar (c : Char) : Bool :=
  c.isAlphanum || "-~!$%^&*?_=+/.|".toList.contains c

/-- Whether a symbol may be written without quotes. -/
def isBareSymbol (cs : List Char) : Bool :=
  !cs.isEmpty && cs.all isSymbolChar && !spellsInteger cs && !spellsDouble cs

/-- The text of a symbol. -/
def printSymbol (s : String) : List Char :=
  if isBareSymbol s.toList then s.toList else quoted '\'' s

/-- Texts with a separator between each two. -/
def separated (separator : List Char) : List (List Char) → List Char
  | [] => []
  | [t] => t
  | t :: ts => t ++ separator ++ separated separator ts

mutual

/-- The text of a value as characters. -/
def printChars : Value → List Char
  | boolean b => if b then ['#', 't'] else ['#', 'f']
  | double d => printDouble d
  | integer n => (toString n).toList
  | string s => quoted '"' s
  | bytes bs => '#' :: '[' :: Base64.encodeChars bs ++ [']']
  | symbol s => printSymbol s
  | record label fields => '<' :: separated [' '] (printChars label :: printAll fields) ++ ['>']
  | sequence items => '[' :: separated [',', ' '] (printAll items) ++ [']']
  | set members => '#' :: '\x7b' :: separated [',', ' '] (printAll members) ++ ['\x7d']
  | dictionary entries => '\x7b' :: separated [',', ' '] (printEntries entries) ++ ['\x7d']
  | embedded v => '#' :: ':' :: printChars v
  | annotated note v => '@' :: printChars note ++ ' ' :: printChars v

/-- The texts of a list of values. -/
def printAll : List Value → List (List Char)
  | [] => []
  | v :: vs => printChars v :: printAll vs

/-- The texts of the entries of a dictionary. -/
def printEntries : List Entry → List (List Char)
  | [] => []
  | e :: es => printEntry e :: printEntries es

/-- The text of an entry: the key, a colon, a blank and the value. -/
def printEntry : Entry → List Char
  | .mk k v => printChars k ++ ':' :: ' ' :: printChars v

end

/-- The text of a value. -/
def print (v : Value) : String :=
  String.ofList (printChars v)

end Value

end Workflow
