import Workflow.Double.Layout
import Workflow.Json
import Workflow.Text.Hex

/-!
# Printing JSON

The compact form has no blanks; the indented form puts every item and field on a line of its own.
Control characters are escaped, all other characters stand for themselves.
-/

namespace Workflow.Json

/-- Doubles are written in full from a hundred-thousandth up to sixteen integer digits. -/
def numberLayout : DecimalLayout := ⟨16, -5⟩

/-- The text of a number; infinities have none of their own and are written as null. -/
def printNumber : JsonNumber → List Char
  | .integer n => (toString n).toList
  | .real d =>
    if d.isFinite then
      let text := numberLayout.write (Double.shortestDecimal d.magnitude)
      if d.isNegative then '-' :: text else text
    else "null".toList

/-- A character inside a JSON text. -/
def escapeChar (c : Char) : List Char :=
  if c = '"' ∨ c = '\\' then ['\\', c]
  else if c = '\x08' then ['\\', 'b']
  else if c = '\x0c' then ['\\', 'f']
  else if c = '\n' then ['\\', 'n']
  else if c = '\r' then ['\\', 'r']
  else if c = '\t' then ['\\', 't']
  else if c.toNat < 32 then '\\' :: 'u' :: Hex.padded 4 c.toNat
  else [c]

/-- A JSON text with its quotes. -/
def printString (s : String) : List Char :=
  '"' :: s.toList.flatMap escapeChar ++ ['"']

mutual

/-- The compact form of a document. -/
def compactChars : Json → List Char
  | null => "null".toList
  | boolean b => (if b then "true" else "false").toList
  | number n => printNumber n
  | string s => printString s
  | unreadable => "null".toList
  | array items => '[' :: compactItems items ++ [']']
  | object fields => '\x7b' :: compactFields fields ++ ['\x7d']

/-- Items with a comma between each two. -/
def compactItems : List Json → List Char
  | [] => []
  | [j] => compactChars j
  | j :: js => compactChars j ++ ',' :: compactItems js

/-- Fields with a comma between each two. -/
def compactFields : List (String × Json) → List Char
  | [] => []
  | [f] => compactField f
  | f :: fs => compactField f ++ ',' :: compactFields fs

/-- A name, a colon and a value. -/
def compactField : String × Json → List Char
  | (name, j) => printString name ++ ':' :: compactChars j

end

/-- The compact text of a document. -/
def compact (j : Json) : String :=
  String.ofList j.compactChars

/-- A line break and the blanks of an indentation level. -/
def lineBreak (level : Nat) : List Char :=
  '\n' :: List.replicate (2 * level) ' '

mutual

/-- The indented form of a document at an indentation level. -/
def indentedChars (level : Nat) : Json → List Char
  | null => "null".toList
  | boolean b => (if b then "true" else "false").toList
  | number n => printNumber n
  | string s => printString s
  | unreadable => "null".toList
  | array [] => ['[', ']']
  | array (j :: js) => '[' :: indentedItems (level + 1) (j :: js) ++ lineBreak level ++ [']']
  | object [] => ['\x7b', '\x7d']
  | object (f :: fs) =>
    '\x7b' :: indentedFields (level + 1) (f :: fs) ++ lineBreak level ++ ['\x7d']

/-- Items on lines of their own. -/
def indentedItems (level : Nat) : List Json → List Char
  | [] => []
  | [j] => lineBreak level ++ indentedChars level j
  | j :: js => lineBreak level ++ indentedChars level j ++ ',' :: indentedItems level js

/-- Fields on lines of their own. -/
def indentedFields (level : Nat) : List (String × Json) → List Char
  | [] => []
  | [f] => lineBreak level ++ indentedField level f
  | f :: fs => lineBreak level ++ indentedField level f ++ ',' :: indentedFields level fs

/-- A name, a colon, a blank and a value. -/
def indentedField (level : Nat) : String × Json → List Char
  | (name, j) => printString name ++ ':' :: ' ' :: indentedChars level j

end

/-- The indented text of a document. -/
def indented (j : Json) : String :=
  String.ofList (j.indentedChars 0)

end Workflow.Json
