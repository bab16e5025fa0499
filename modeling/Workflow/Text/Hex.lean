import Workflow.Text.Utf8

/-!
# Hexadecimal text

Two lower-case digits per octet going out; digits of either case coming in.
-/

namespace Workflow.Hex

/-- The lower-case digit of a number below sixteen. -/
def digit (n : Nat) : Char :=
  Char.ofNat (if n < 10 then 48 + n else 87 + n)

/-- The value of a hexadecimal digit of either case. -/
def digitValue? (c : Char) : Option Nat :=
  if '0' ≤ c ∧ c ≤ '9' then some (c.toNat - 48)
  else if 'a' ≤ c ∧ c ≤ 'f' then some (c.toNat - 87)
  else if 'A' ≤ c ∧ c ≤ 'F' then some (c.toNat - 55)
  else none

/-- Two digits for each octet. -/
def encodeChars (bytes : Bytes) : List Char :=
  bytes.flatMap fun b => [digit (b.toNat / 16), digit (b.toNat % 16)]

/-- The hexadecimal text of an octet sequence. -/
def encode (bytes : Bytes) : String :=
  String.ofList (encodeChars bytes)

/-- Read digit pairs; an odd digit or a foreign character is refused. -/
def decodeChars? : List Char → Option Bytes
  | [] => some []
  | [_] => none
  | a :: b :: rest => do
    let high ← digitValue? a
    let low ← digitValue? b
    let bytes ← decodeChars? rest
    return UInt8.ofNat (high * 16 + low) :: bytes

/-- The octets that a hexadecimal text spells. -/
def decode? (text : String) : Option Bytes :=
  decodeChars? text.toList

/-- The number that a sequence of hexadecimal digits spells. -/
def number? (digits : List Char) : Option Nat :=
  digits.foldlM (fun n c => (n * 16 + ·) <$> digitValue? c) 0

/-- The digits of a number, padded with zeros to at least `width` places. -/
def padded (width n : Nat) : List Char :=
  let digits := (Nat.toDigits 16 n)
  List.replicate (width - digits.length) '0' ++ digits

end Workflow.Hex
