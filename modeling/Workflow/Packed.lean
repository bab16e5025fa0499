import Workflow.Text.Utf8
import Workflow.Word

/-!
# Packed data

Packed data is a tree of atoms and compounds. Every atom starts with a tag; texts and numbers carry
their length, and compounds run up to a closing tag. Annotations are passed over when data is read.
Texts stay octets until they are asked for, so a part that nobody asks for need not be well-formed
UTF-8.
-/

namespace Workflow

/-- A tree of packed data. -/
inductive Packed where
  /-- A truth value. -/
  | boolean (b : Bool)
  /-- A floating-point number, by its octets. -/
  | double (octets : Bytes)
  /-- An integer. -/
  | integer (n : Int)
  /-- A text, by its octets. -/
  | string (octets : Bytes)
  /-- A byte string. -/
  | bytes (octets : Bytes)
  /-- A symbol, by its octets. -/
  | symbol (octets : Bytes)
  /-- A record of a label and fields. -/
  | record (label : Packed) (fields : List Packed)
  /-- A sequence. -/
  | sequence (items : List Packed)
  /-- A set. -/
  | set (items : List Packed)
  /-- A dictionary, each key followed by its value. -/
  | dictionary (items : List Packed)
  /-- An embedded value. -/
  | embedded (v : Packed)

namespace Packed

/-- A text as packed data. -/
def text (s : String) : Packed :=
  string (Utf8.encode s)

/-- The octets of a length, seven bits each, the lowest first; all but the last are marked. -/
def writeLength : Nat → Nat → Bytes
  | 0, n => [UInt8.ofNat n]
  | fuel + 1, n =>
    if n < 128 then [UInt8.ofNat n]
    else UInt8.ofNat (n % 128 + 128) :: writeLength fuel (n / 128)

/-- The octets of a length. -/
def lengthOctets (n : Nat) : Bytes :=
  writeLength n n

/-- The given number of octets of a number, highest first, the number taken modulo their range. -/
def octetsOf (size : Nat) (n : Nat) : Bytes :=
  ((List.range size).map fun i => UInt8.ofNat (n / Nat.pow 256 i)).reverse

/-- The least positive number of octets that hold an integer with its sign. -/
def signedSize : Nat → Int → Nat
  | 0, _ => 1
  | fuel + 1, n => if -128 ≤ n ∧ n < 128 then 1 else signedSize fuel (n.fdiv 256) + 1

/-- The number of octets of an integer; zero has none. -/
def integerSize (n : Int) : Nat :=
  if n = 0 then 0 else signedSize n.natAbs n

/-- The octets of an integer in two's complement, highest first, no more than it needs. -/
def integerOctets (n : Int) : Bytes :=
  let size := integerSize n
  octetsOf size (n.emod (Nat.pow 256 size)).toNat

/-- A tag, a length and octets. -/
def sized (tag : UInt8) (octets : Bytes) : Bytes :=
  tag :: lengthOctets octets.length ++ octets

mutual

/-- The octets of a tree. -/
def write : Packed → Bytes
  | boolean b => [if b then 0x81 else 0x80]
  | double octets => sized 0x87 octets
  | integer n => sized 0xb0 (integerOctets n)
  | string octets => sized 0xb1 octets
  | bytes octets => sized 0xb2 octets
  | symbol octets => sized 0xb3 octets
  | record label fields => 0xb4 :: label.write ++ writeAll fields ++ [0x84]
  | sequence items => 0xb5 :: writeAll items ++ [0x84]
  | set items => 0xb6 :: writeAll items ++ [0x84]
  | dictionary items => 0xb7 :: writeAll items ++ [0x84]
  | embedded v => 0x86 :: v.write

/-- The octets of several trees in turn. -/
def writeAll : List Packed → Bytes
  | [] => []
  | p :: rest => p.write ++ writeAll rest

end

/-- Read the octets of a length, ten at most. -/
def readGroups : Nat → Bytes → Option (Nat × Bytes)
  | 0, _ => none
  | _ + 1, [] => none
  | fuel + 1, b :: rest =>
    if b < 128 then some (b.toNat, rest)
    else do
      let (n, rest) ← readGroups fuel rest
      return (b.toNat - 128 + 128 * n, rest)

/-- Read a length; one that no word holds is refused. -/
def readLength (bytes : Bytes) : Option (Nat × Bytes) :=
  (readGroups 10 bytes).filter fun (n, _) => n < wordBound

/-- Read a length and so many octets. -/
def readSized (bytes : Bytes) : Option (Bytes × Bytes) := do
  let (n, rest) ← readLength bytes
  if n ≤ rest.length then some (rest.take n, rest.drop n) else none

/-- The octets of an integer without the filling of 255 in front of sixteen others; the sign is
then read off what remains. -/
def unfilled (octets : Bytes) : Bytes :=
  let rest := octets.dropWhile (· = 255)
  if octets.length > 16 ∧ rest.length = 16 then rest else octets

/-- The integer of octets in two's complement, highest first. -/
def integerOf (filled : Bytes) : Int :=
  let octets := unfilled filled
  let n : Nat := octets.foldl (fun (n : Nat) b => n * 256 + b.toNat) 0
  if octets.head?.any (128 ≤ ·) then (n : Int) - Nat.pow 256 octets.length else n

mutual

/-- Read one tree. -/
def readTree : Nat → Bytes → Option (Packed × Bytes)
  | 0, _ => none
  | _ + 1, [] => none
  | fuel + 1, tag :: rest =>
    match tag.toNat with
    | 0x80 => some (boolean false, rest)
    | 0x81 => some (boolean true, rest)
    | 0x85 => do
      let (_, rest) ← readTree fuel rest
      readTree fuel rest
    | 0x86 => do
      let (v, rest) ← readTree fuel rest
      return (embedded v, rest)
    | 0x87 => do
      let (octets, rest) ← readSized rest
      return (double octets, rest)
    | 0xb0 => do
      let (octets, rest) ← readSized rest
      return (integer (integerOf octets), rest)
    | 0xb1 => do
      let (octets, rest) ← readSized rest
      return (string octets, rest)
    | 0xb2 => do
      let (octets, rest) ← readSized rest
      return (bytes octets, rest)
    | 0xb3 => do
      let (octets, rest) ← readSized rest
      return (symbol octets, rest)
    | 0xb4 => do
      let (label, rest) ← readTree fuel rest
      let (fields, rest) ← readTrees fuel rest
      return (record label fields, rest)
    | 0xb5 => do
      let (items, rest) ← readTrees fuel rest
      return (sequence items, rest)
    | 0xb6 => do
      let (items, rest) ← readTrees fuel rest
      return (set items, rest)
    | 0xb7 => do
      let (items, rest) ← readTrees fuel rest
      if items.length % 2 = 0 then some (dictionary items, rest) else none
    | _ => none

/-- Read trees up to the closing tag. -/
def readTrees : Nat → Bytes → Option (List Packed × Bytes)
  | 0, _ => none
  | _ + 1, [] => none
  | fuel + 1, tag :: rest =>
    if tag = 0x84 then some ([], rest)
    else do
      let (p, rest) ← readTree fuel (tag :: rest)
      let (ps, rest) ← readTrees fuel rest
      return (p :: ps, rest)

end

/-- Read one tree; what follows it is not looked at. -/
def read? (bytes : Bytes) : Option Packed :=
  (readTree (bytes.length + 1) bytes).map (·.1)

/-- A record labelled by a symbol. -/
def labelled (label : String) (fields : List Packed) : Packed :=
  record (symbol (Utf8.encode label)) fields

/-- The fields of a record with the given label. -/
def fieldsOf? (label : String) : Packed → Option (List Packed)
  | record (symbol l) fields => if l = Utf8.encode label then some fields else none
  | _ => none

/-- The label and the fields of a record. -/
def record? : Packed → Option (String × List Packed)
  | record (symbol l) fields => (Utf8.decode? l).map (·, fields)
  | _ => none

/-- The label of a record that stands for a case; fields after it are passed over. -/
def case? (p : Packed) : Option String :=
  p.record?.map (·.1)

/-- The truth value of an atom. -/
def boolean? : Packed → Option Bool
  | boolean b => some b
  | _ => none

/-- The number of an atom, if it is natural and below a bound. -/
def natBelow? (bound : Nat) : Packed → Option Nat
  | integer (.ofNat n) => if n < bound then some n else none
  | _ => none

/-- The text of an atom. -/
def string? : Packed → Option String
  | string octets => Utf8.decode? octets
  | _ => none

/-- Read every item of a sequence; a set may stand for one. -/
def list? {α : Type} (read : Packed → Option α) : Packed → Option (List α)
  | sequence items => items.mapM read
  | set items => items.mapM read
  | _ => none

/-- A record that wraps one tree. -/
def wrapped (label : String) (p : Packed) : Packed :=
  labelled label [p]

/-- Read the one tree that a record wraps. -/
def wrapped? {α : Type} (label : String) (read : Packed → Option α) (p : Packed) : Option α := do
  match ← p.fieldsOf? label with
  | [field] => read field
  | _ => none

/-- An optional tree. -/
def ofOption : Option Packed → Packed
  | some p => labelled "Some" [p]
  | none => labelled "None" []

/-- Read an optional tree. -/
def option? {α : Type} (read : Packed → Option α) (p : Packed) : Option (Option α) := do
  match ← p.record? with
  | ("None", []) => some none
  | ("Some", [field]) => (read field).map some
  | _ => none

end Packed

end Workflow
