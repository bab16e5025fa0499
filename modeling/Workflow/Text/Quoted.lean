import Workflow.Text.Unmarked

/-!
# Quoted text for inspection

Listings made for a reader show a text between double quotes. Quotes, backslashes and the common
control characters have short escapes; every other character that leaves no mark of its own is
shown by its code point.
-/

namespace Workflow.Quoted

/-- A character as it stands between the quotes. -/
def escapeChar (c : Char) : List Char :=
  if c = '"' ∨ c = '\\' then ['\\', c]
  else if c = '\n' then ['\\', 'n']
  else if c = '\r' then ['\\', 'r']
  else if c = '\t' then ['\\', 't']
  else if c = '\x00' then ['\\', '0']
  else if CharClass.unmarked.contains c then
    '\\' :: 'u' :: '\x7b' :: Nat.toDigits 16 c.toNat ++ ['\x7d']
  else [c]

/-- The text between double quotes. -/
def quote (text : String) : String :=
  String.ofList ('"' :: text.toList.flatMap escapeChar ++ ['"'])

end Workflow.Quoted
