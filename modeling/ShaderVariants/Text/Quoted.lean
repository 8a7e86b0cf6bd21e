import ShaderVariants.Text.Unseen

/-!
# Quoted text

Text in a message stands between double quotes. The quote and the backslash are written after a
backslash, four control characters have letters, and every other character that does not show is
written as its code point in hexadecimal.
-/

namespace ShaderVariants.Text

/-- One character of quoted text. -/
def quoteChar (c : Char) : List Char :=
  if c = '"' then ['\\', '"']
  else if c = '\\' then ['\\', '\\']
  else if c = '\x00' then ['\\', '0']
  else if c = '\t' then ['\\', 't']
  else if c = '\n' then ['\\', 'n']
  else if c = '\r' then ['\\', 'r']
  else if isUnseen c then ['\\', 'u', '\x7b'] ++ Nat.toDigits 16 c.toNat ++ ['\x7d']
  else [c]

/-- Text as it is quoted in a message. -/
def quoted (s : String) : String :=
  String.ofList ('"' :: s.toList.flatMap quoteChar ++ ['"'])

end ShaderVariants.Text
