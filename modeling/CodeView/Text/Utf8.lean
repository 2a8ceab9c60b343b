/-!
# Bytes and characters

Texts are stored as bytes in UTF-8. `encode` gives the bytes of a character, `decode?` the text that
bytes stand for, unless some of them are no characters: up to those, `intactLength` bytes are
characters. `wide` shows each byte as the character of its number, which is how a reader looks at
bytes one by one.
-/

namespace CodeView.Text.Utf8

/-- The bytes of a character. -/
def encode (c : Char) : List UInt8 :=
  String.utf8EncodeChar c

/-- The text that bytes stand for. -/
def decode? (bytes : List UInt8) : Option String :=
  String.fromUTF8? ⟨bytes.toArray⟩

/-- How many bytes the first character has, if the bytes start with one. -/
def firstLength? (bytes : List UInt8) : Option Nat :=
  ((⟨(bytes.take 4).toArray⟩ : ByteArray).utf8DecodeChar? 0).map Char.utf8Size

/-- How many bytes there are before the first that are no character. -/
def intactLength : List UInt8 → Nat
  | [] => 0
  | b :: rest =>
    match firstLength? (b :: rest) with
    | none => 0
    | some n => n + intactLength (rest.drop (n - 1))
termination_by bytes => bytes.length
decreasing_by simp only [List.length_drop, List.length_cons]; omega

/-- Bytes, each as the character of its number. -/
def wide (bytes : List UInt8) : List Char :=
  bytes.map Char.ofUInt8

/-- The bytes of a text. -/
def bytes (s : String) : List UInt8 :=
  s.toUTF8.data.toList

/-- The bytes of a text stand for it. -/
theorem decode?_bytes (s : String) : decode? (bytes s) = some s := by
  have h : (⟨s.toUTF8.data⟩ : ByteArray).IsValidUTF8 := s.isValidUTF8
  simp only [decode?, bytes, Array.toArray_toList, String.fromUTF8?, h, ↓reduceDIte]
  rfl

/-- A byte is told by the character of its number. -/
theorem toUInt8_ofUInt8 (b : UInt8) : (Char.ofUInt8 b).toUInt8 = b := by
  show b.toUInt32.toUInt8 = b
  simp

end CodeView.Text.Utf8
