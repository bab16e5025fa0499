import Workflow.Text.Hex
import Std.Data.ExtTreeMap

/-!
# Identifiers of 128 bits

An identifier is written as thirty-two hexadecimal digits in groups of eight, four, four, four and
twelve. It is read in that form, without the hyphens, between braces, or as a resource name.
-/

namespace Workflow

/-- The bound of numbers of 128 bits. -/
abbrev doubleWordBound : Nat := 0x100000000000000000000000000000000

/-- An identifier of 128 bits. -/
structure Uuid where
  /-- The bits as a number, the first digit highest. -/
  number : Fin doubleWordBound
deriving DecidableEq

namespace Uuid

instance : Ord Uuid := ⟨compareOn fun u => u.number.val⟩

instance : Std.TransOrd Uuid :=
  inferInstanceAs (Std.TransCmp (compareOn fun u : Uuid => u.number.val))

instance : Std.LawfulEqOrd Uuid where
  eq_of_compare {a b} h := by
    have h := Std.LawfulEqOrd.eq_of_compare (α := Nat) h
    cases a
    cases b
    simpa [Fin.ext_iff] using h

instance : Inhabited Uuid := ⟨⟨0⟩⟩

/-- The identifier of a number, taken modulo `2 ^ 128`. -/
def ofNat (n : Nat) : Uuid :=
  ⟨Fin.ofNat doubleWordBound n⟩

/-- The thirty-two digits of an identifier. -/
def digits (u : Uuid) : List Char :=
  Hex.padded 32 u.number.val

/-- Digits in the five hyphenated groups. -/
def hyphenate (ds : List Char) : List Char :=
  ds.take 8 ++ '-' :: (ds.drop 8).take 4 ++ '-' :: (ds.drop 12).take 4 ++
    '-' :: (ds.drop 16).take 4 ++ '-' :: ds.drop 20

/-- The hyphenated text of an identifier. -/
def print (u : Uuid) : String :=
  String.ofList (hyphenate u.digits)

instance : ToString Uuid := ⟨print⟩

/-- Read thirty-two digits. -/
def ofDigits? (ds : List Char) : Option Uuid :=
  if ds.length = 32 then (Hex.number? ds).map ofNat else none

/-- Read five hyphenated groups. -/
def ofHyphenated? (cs : List Char) : Option Uuid :=
  let ds := cs.take 8 ++ (cs.drop 9).take 4 ++ (cs.drop 14).take 4 ++ (cs.drop 19).take 4 ++
    cs.drop 24
  if hyphenate ds = cs then ofDigits? ds else none

/-- The characters in front of an identifier written as a resource name, in either case. -/
def resourceMark : List Char :=
  "urn:uuid:".toList

/-- Read an identifier in any of its forms. -/
def parse? (text : String) : Option Uuid :=
  let cs := text.toList
  match cs.length with
  | 32 => ofDigits? cs
  | 36 => ofHyphenated? cs
  | 38 =>
    if cs.head? = some '\x7b' ∧ cs.getLast? = some '\x7d' then ofHyphenated? cs.tail.dropLast
    else none
  | 45 => if (cs.take 9).map Char.toLower = resourceMark then ofHyphenated? (cs.drop 9) else none
  | _ => none

end Uuid

end Workflow
