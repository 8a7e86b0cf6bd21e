import ShaderVariants.Proofs.Json.Numeral
import ShaderVariants.Proofs.Json.Text

/-!
# How values are written

`Value.Writes` says which texts write a value: blanks may stand around every value and every name
and in empty brackets, numerals and pieces of texts are written in any of their ways, and commas
stand between elements and between members. Nothing is said of what the texts and numbers in it come
to, so a text that writes a value may still be flawed: a surrogate may be unpaired, and a number too
large for a double.
-/

namespace ShaderVariants.Json

/-- A member of an object, and the characters that its name and its value are written in. -/
structure WrittenMember where
  name : Except Flaw String
  value : Value
  nameChars : List Char
  valueChars : List Char

namespace WrittenMember

/-- The member without its characters. -/
def member (m : WrittenMember) : Except Flaw String × Value :=
  (m.name, m.value)

/-- The characters of a member. -/
def chars (m : WrittenMember) : List Char :=
  m.nameChars ++ ':' :: m.valueChars

end WrittenMember

namespace Value

/-- A value is written in characters. -/
inductive Writes : Value → List Char → Prop where
  | null : Writes (.atom (.ok .null)) ['n', 'u', 'l', 'l']
  | boolean (b : Bool) :
      Writes (.atom (.ok (.boolean b)))
        (if b then ['t', 'r', 'u', 'e'] else ['f', 'a', 'l', 's', 'e'])
  | number {n : Numeral} {cs : List Char} (h : n.Writes cs) : Writes (.atom n.atom) cs
  | text {pieces : List Piece} {cs : List Char} (h : Piece.WritesAll pieces cs) :
      Writes (.text (Token.ofPieces pieces (.ok []))) ('"' :: cs ++ ['"'])
  | emptyArray {blanks : List Char} (h : ∀ c ∈ blanks, isBlank c = true) :
      Writes (.array [] none) ('[' :: blanks ++ [']'])
  | array {parts : List (Value × List Char)} (h : ∀ p ∈ parts, Writes p.1 p.2) :
      Writes (.array (parts.map Prod.fst) none)
        ('[' :: List.intercalate [','] (parts.map Prod.snd) ++ [']'])
  | emptyObject {blanks : List Char} (h : ∀ c ∈ blanks, isBlank c = true) :
      Writes (.object [] .closed) ('\x7b' :: blanks ++ ['\x7d'])
  | object {parts : List WrittenMember} (hnames : ∀ m ∈ parts, Writes (.text m.name) m.nameChars)
      (hvalues : ∀ m ∈ parts, Writes m.value m.valueChars) :
      Writes (.object (parts.map WrittenMember.member) .closed)
        ('\x7b' :: List.intercalate [','] (parts.map WrittenMember.chars) ++ ['\x7d'])
  | blankBefore {v : Value} {c : Char} {cs : List Char} (hc : isBlank c = true)
      (h : Writes v cs) : Writes v (c :: cs)
  | blankAfter {v : Value} {c : Char} {cs : List Char} (h : Writes v cs)
      (hc : isBlank c = true) : Writes v (cs ++ [c])

end Value

end ShaderVariants.Json
