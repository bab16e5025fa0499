import Workflow.Text.Utf8

/-!
# Plain text

A text that is shown somewhere else than on a terminal loses what would command one: control
characters, and sequences that begin with an escape character. Tabs, line ends and form feeds stay,
also where they interrupt a sequence. The octets of a text are read one by one.
-/

namespace Workflow.Plain

/-- Where a reader of octets is in a sequence. -/
inductive Stage where
  /-- Outside of every sequence. -/
  | outside
  /-- Behind the escape character. -/
  | escape
  /-- Behind marks that follow the escape character. -/
  | marks
  /-- In a control sequence, which ends with a letter. -/
  | control
  /-- At the start of a device string. -/
  | device
  /-- Behind the first parameter of a device string. -/
  | parameters
  /-- Behind marks in the head of a device string. -/
  | deviceMarks
  /-- In a string that ends with the string terminator. -/
  | body
  /-- In a command of the system, which a bell ends as well. -/
  | command

namespace Stage

/-- Whether control characters are obeyed at a stage, so that blanks among them stay. -/
def obeys : Stage → Bool
  | outside => true
  | escape => true
  | marks => true
  | control => true
  | _ => false

/-- The stage behind an octet that is left out. -/
def next (s : Stage) (b : UInt8) : Stage :=
  let isMark : Bool := 0x20 ≤ b && b < 0x30
  let isFinal : Bool := 0x40 ≤ b && b < 0x7f
  if b = 0x18 ∨ b = 0x1a then outside
  else if b = 0x1b then escape
  else
    match s with
    | outside => outside
    | escape =>
      if isMark then marks
      else if b = 0x5b then control
      else if b = 0x5d then command
      else if b = 0x50 then device
      else if b = 0x58 ∨ b = 0x5e ∨ b = 0x5f then body
      else if 0x30 ≤ b ∧ b < 0x7f then outside
      else escape
    | marks => if 0x30 ≤ b ∧ b < 0x7f then outside else marks
    | control => if isFinal then outside else control
    | device =>
      if isMark then deviceMarks
      else if 0x30 ≤ b ∧ b < 0x40 then parameters
      else if isFinal then body
      else device
    | parameters =>
      if isMark then deviceMarks
      else if (0x3c ≤ b ∧ b < 0x40) ∨ isFinal then body
      else parameters
    | deviceMarks => if 0x30 ≤ b ∧ b < 0x7f then body else deviceMarks
    | body => if b = 0x9c then outside else body
    | command => if b = 0x07 then outside else command

end Stage

/-- Whether an octet is a tab, a line end or a form feed. -/
def isBlankControl (b : UInt8) : Bool :=
  b = 0x09 || b = 0x0a || b = 0x0c || b = 0x0d

/-- Whether an octet stays where octets before it have stayed. -/
def stays (b : UInt8) : Bool :=
  (0x20 ≤ b && b != 0x7f) || isBlankControl b

/-- Whether an octet stays where octets before it were left out: outside of sequences, if a
character begins with it, and blanks wherever control characters are obeyed. -/
def begins (s : Stage) (b : UInt8) : Bool :=
  match s with
  | .outside => stays b && (b < 0x80 || 0xc2 ≤ b)
  | s => s.obeys && isBlankControl b

/-- The octets that stay. A run of them goes on up to a control character; the stage that it has
interrupted goes on behind it, unless a character beyond ASCII ends the sequence. -/
def octets (s : Stage) (running : Bool) : Bytes → Bytes
  | [] => []
  | b :: rest =>
    if (if running then stays b else begins s b) then
      b :: octets (if b < 0x80 then s else .outside) true rest
    else octets (s.next b) false rest

/-- A text without what would command a terminal. -/
def ofText (text : String) : String :=
  (Utf8.decode? (octets .outside false (Utf8.encode text))).getD text

end Workflow.Plain
