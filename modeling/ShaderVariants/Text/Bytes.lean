import ShaderVariants.Text.Utf8

/-!
# Text byte by byte

A text can be taken apart into bytes: each byte becomes the character of that number. What works on
bytes, such as a filter that counts or cuts them, works on texts of this kind, and any bytes at all
have one.
-/

namespace ShaderVariants.Text

/-- The bytes of a text, each as a character. -/
def bytewise (s : String) : String :=
  if s.toList.all (·.toNat < 128) then s
  else String.ofList (s.toUTF8.toList.map fun b => Char.ofNat b.toNat)

/-- The bytes that the characters stand for. -/
def bytesOf (s : String) : List UInt8 :=
  s.toList.map fun c => UInt8.ofNat c.toNat

/-- The text that bytes are when they are put together again, as well as it can be shown. -/
def assembled (s : String) : String :=
  if s.toList.all (·.toNat < 128) then s else ofBytesLossy (bytesOf s)

/-- A letter of two bytes, and back. -/
example : bytewise "é" = "Ã©" ∧ assembled "Ã©" = "é" := by decide +kernel

end ShaderVariants.Text
