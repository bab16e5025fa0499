/-!
# Bytes of a text

A byte sequence is a list of octets. A text becomes the octets of its UTF-8 form, and an octet
sequence is read back only where it is well formed.
-/

namespace Workflow

/-- A sequence of octets. -/
abbrev Bytes := List UInt8

namespace Utf8

/-- The UTF-8 octets of a text. -/
def encode (text : String) : Bytes :=
  text.toUTF8.data.toList

/-- The text that an octet sequence spells, if the sequence is well-formed UTF-8. -/
def decode? (bytes : Bytes) : Option String :=
  String.fromUTF8? ⟨bytes.toArray⟩

/-- Reading the octets of a text gives the text back. -/
theorem decode?_encode (text : String) : decode? (encode text) = some text := by
  have h : (⟨(encode text).toArray⟩ : ByteArray) = text.toByteArray := rfl
  rw [decode?, h, String.fromUTF8?, dif_pos text.isValidUTF8]
  rfl

end Utf8

end Workflow
