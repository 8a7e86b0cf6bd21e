import ShaderVariants.Json.Error

/-!
# Writing values

A value is written without blanks. Text keeps every character that may stand between quotes; the
quote, the backslash and control characters are escaped, by a letter where there is one. Only what
is whole is written: of a flawed or missing value there is nothing to write.
-/

namespace ShaderVariants.Json

/-- One character between quotes. -/
def escape (c : Char) : List Char :=
  if c = '"' then ['\\', '"']
  else if c = '\\' then ['\\', '\\']
  else if c = '\x08' then ['\\', 'b']
  else if c = '\t' then ['\\', 't']
  else if c = '\n' then ['\\', 'n']
  else if c = '\x0c' then ['\\', 'f']
  else if c = '\r' then ['\\', 'r']
  else if c < ' ' then
    ['\\', 'u', '0', '0', Nat.digitChar (c.toNat / 16), Nat.digitChar (c.toNat % 16)]
  else [c]

/-- Text between quotes. -/
def printText (s : String) : List Char :=
  '"' :: s.toList.flatMap escape ++ ['"']

/-- A number. -/
def Number.print : Number → List Char
  | integer n => (toString n).toList
  | double negative x =>
    (if negative then ['-'] else []) ++ (Number.style.write x.shortest).toList

/-- A value of one token. -/
def Atom.print : Atom → List Char
  | null => ['n', 'u', 'l', 'l']
  | boolean true => ['t', 'r', 'u', 'e']
  | boolean false => ['f', 'a', 'l', 's', 'e']
  | number n => n.print

/-- The name of a member and the colon after it. -/
def printName : Except Flaw String → List Char
  | .ok name => printText name ++ [':']
  | .error _ => []

namespace Value

mutual

/-- A value as text. -/
def print : Value → List Char
  | atom (.ok a) => a.print
  | atom (.error _) => []
  | text (.ok s) => printText s
  | text (.error _) => []
  | missing _ => []
  | array elements _ => '[' :: printElements elements ++ [']']
  | object members _ => '\x7b' :: printMembers members ++ ['\x7d']

/-- Elements with commas between them. -/
def printElements : List Value → List Char
  | [] => []
  | [v] => print v
  | v :: w :: vs => print v ++ ',' :: printElements (w :: vs)

/-- Members with commas between them. -/
def printMembers : List (Except Flaw String × Value) → List Char
  | [] => []
  | [(name, v)] => printName name ++ print v
  | (name, v) :: m :: ms => printName name ++ print v ++ ',' :: printMembers (m :: ms)

end

/-- The value of a word. -/
def word (n : UInt32) : Value :=
  .atom (.ok (.number (.integer n.toNat)))

/-- The value of a text. -/
def ofText (s : String) : Value :=
  .text (.ok s)

/-- A closed object. -/
def ofMembers (members : List (String × Value)) : Value :=
  .object (members.map fun m => (.ok m.1, m.2)) .closed

/-- A closed array. -/
def ofElements (elements : List Value) : Value :=
  .array elements none

end Value

end ShaderVariants.Json
