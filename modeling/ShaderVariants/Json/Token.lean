import ShaderVariants.Json.Number

/-!
# Tokens of JSON texts

`tokens` cuts a text into tokens. Between tokens stand spaces, tabs, line feeds and carriage
returns, and nothing else.

A token may be flawed, and what is wrong with it depends on what the reader wants. A reader that
needs the value of the token insists on paired surrogate escapes and on numbers that a double can
hold; one that only skips the token does not. Where skipping fails too, nothing after the token is
read, and it is the last one.
-/

namespace ShaderVariants.Json

/-- What is wrong with a token for a reader that needs its value, and for one that skips it. -/
structure Flaw where
  reading : Fault
  skipping : Option Fault
deriving DecidableEq

/-- A character of structure. -/
inductive Mark where
  | openArray
  | closeArray
  | openObject
  | closeObject
  | comma
  | colon
deriving DecidableEq

/-- A value written as one token that is not text. -/
inductive Atom where
  | null
  | boolean (b : Bool)
  | number (n : Number)
deriving DecidableEq

/-- A token, or what is wrong with it. -/
inductive Token where
  | mark (m : Mark)
  | atom (a : Except Flaw Atom)
  | text (s : Except Flaw String)

/-! ## Text between quotes -/

/-- A character of a text between quotes, or a 16-bit unit that an escape gives by number. -/
inductive Piece where
  | char (c : Char)
  | unit (n : Nat)
deriving DecidableEq

namespace Piece

/-- The value of a hexadecimal digit. -/
def hexDigit (c : Char) : Option Nat :=
  if '0' ≤ c ∧ c ≤ '9' then some (c.toNat - '0'.toNat)
  else if 'a' ≤ c ∧ c ≤ 'f' then some (c.toNat - 'a'.toNat + 10)
  else if 'A' ≤ c ∧ c ≤ 'F' then some (c.toNat - 'A'.toNat + 10)
  else none

/-- The unit that four hexadecimal digits write. -/
def ofHex (a b c d : Char) : Option Nat := do
  return (((← hexDigit a) * 16 + (← hexDigit b)) * 16 + (← hexDigit c)) * 16 + (← hexDigit d)

/-- The character that a letter after a backslash stands for. -/
def ofEscape (c : Char) : Option Char :=
  if c = '"' ∨ c = '\\' ∨ c = '/' then some c
  else if c = 'b' then some '\x08'
  else if c = 'f' then some '\x0c'
  else if c = 'n' then some '\n'
  else if c = 'r' then some '\r'
  else if c = 't' then some '\t'
  else none

/-- The number of bytes that characters take. -/
def bytes (cs : List Char) : Nat :=
  cs.foldr (fun c n => c.utf8Size + n) 0

/-- A piece in front of what was scanned after it. -/
def before {α : Type} (p : Piece) (scanned : List Piece × α) : List Piece × α :=
  (p :: scanned.1, scanned.2)

/-- The pieces up to the closing quote and the text after it, or where the pieces break off. Fewer
than four bytes after the letter of a unit are the end of the text. -/
def scan : List Char → List Piece × Except Fault (List Char)
  | [] => ([], .error .truncated)
  | '"' :: cs => ([], .ok cs)
  | ['\\'] => ([], .error .truncated)
  | '\\' :: 'u' :: a :: b :: c :: d :: cs =>
    match ofHex a b c d with
    | some n => before (unit n) (scan cs)
    | none => ([], .error .malformed)
  | '\\' :: 'u' :: cs => ([], .error (if bytes cs < 4 then .truncated else .malformed))
  | '\\' :: e :: cs =>
    match ofEscape e with
    | some c => before (char c) (scan cs)
    | none => ([], .error .malformed)
  | c :: cs => if c < ' ' then ([], .error .malformed) else before (char c) (scan cs)

/-- The first unit of a surrogate pair. -/
def isLeading (n : Nat) : Bool :=
  0xd800 ≤ n && n < 0xdc00

/-- The second unit of a surrogate pair. -/
def isTrailing (n : Nat) : Bool :=
  0xdc00 ≤ n && n < 0xe000

/-- The character of a surrogate pair. -/
def paired (leading trailing : Nat) : Char :=
  Char.ofNat (0x10000 + (leading - 0xd800) * 0x400 + (trailing - 0xdc00))

/-- The characters of pieces that end with the closing quote, or break off at `broken`. Surrogates
must be paired. -/
def decode (broken : Option Fault) : List Piece → Except Fault (List Char)
  | [] => match broken with
    | none => .ok []
    | some f => .error f
  | char c :: ps => (decode broken ps).map (c :: ·)
  | unit n :: ps =>
    if isTrailing n then .error .malformed
    else if isLeading n then
      match ps with
      | [] => .error (broken.getD .malformed)
      | unit m :: ps =>
        if isTrailing m then (decode broken ps).map (paired n m :: ·) else .error .malformed
      | char _ :: _ => .error .malformed
    else (decode broken ps).map (Char.ofNat n :: ·)

/-- Text is cut off the front. -/
theorem length_le_of_scan {cs rest : List Char} (h : (scan cs).2 = .ok rest) :
    rest.length ≤ cs.length := by
  fun_induction scan cs generalizing rest with
  | case1 => cases h
  | case2 cs =>
    cases h
    simp
  | case3 => cases h
  | case4 a b c d cs n hn ih =>
    have := ih h
    simp only [List.length_cons]
    omega
  | case5 => cases h
  | case6 => cases h
  | case7 e cs _ _ _ _ ih =>
    have := ih h
    simp only [List.length_cons]
    omega
  | case8 => cases h
  | case9 => cases h
  | case10 c cs _ _ _ _ _ _ ih =>
    have := ih h
    simp only [List.length_cons]
    omega

end Piece

namespace Token

/-- The text that pieces write, or what is wrong with it. -/
def ofPieces (pieces : List Piece) (ending : Except Fault (List Char)) : Except Flaw String :=
  let broken := match ending with
    | .ok _ => none
    | .error f => some f
  match Piece.decode broken pieces with
  | .ok cs => .ok (String.ofList cs)
  | .error f => .error ⟨f, broken⟩

/-- A word at the front of a text, and what follows it. -/
def scanWord : List Char → List Char → Except Fault (List Char)
  | [], cs => .ok cs
  | _ :: _, [] => .error .truncated
  | w :: ws, c :: cs => if c = w then scanWord ws cs else .error .malformed

/-- The atom `a` whose letters after the first are `word`. -/
def ofWord (word : List Char) (a : Atom) (cs : List Char) : Token × Option (List Char) :=
  match scanWord word cs with
  | .ok rest => (.atom (.ok a), some rest)
  | .error f => (.atom (.error ⟨f, some f⟩), none)

/-- The number that a text starts with. A number that breaks off is malformed for a reader that
skips it, and one that no double holds is malformed only for a reader that needs it. -/
def ofNumeral (cs : List Char) : Token × Option (List Char) :=
  match Numeral.scan cs with
  | .error f => (.atom (.error ⟨f, some .malformed⟩), none)
  | .ok (n, rest) =>
    match n.value with
    | some v => (.atom (.ok (.number v)), some rest)
    | none => (.atom (.error ⟨.malformed, none⟩), some rest)

/-- The mark that a character is. -/
def mark? (c : Char) : Option Mark :=
  if c = '[' then some .openArray
  else if c = ']' then some .closeArray
  else if c = '\x7b' then some .openObject
  else if c = '\x7d' then some .closeObject
  else if c = ',' then some .comma
  else if c = ':' then some .colon
  else none

/-- The token that starts with `c`, and the text after it if that can be read. -/
def scan (c : Char) (cs : List Char) : Token × Option (List Char) :=
  match mark? c with
  | some m => (.mark m, some cs)
  | none =>
    if c = '"' then
      let (pieces, ending) := Piece.scan cs
      (.text (ofPieces pieces ending), ending.toOption)
    else if c = 'n' then ofWord ['u', 'l', 'l'] .null cs
    else if c = 't' then ofWord ['r', 'u', 'e'] (.boolean true) cs
    else if c = 'f' then ofWord ['a', 'l', 's', 'e'] (.boolean false) cs
    else if c = '-' ∨ c.isDigit then ofNumeral (c :: cs)
    else (.atom (.error ⟨.malformed, some .malformed⟩), none)

/-- A word is cut off the front of a text. -/
theorem length_le_of_scanWord {ws cs rest : List Char} (h : scanWord ws cs = .ok rest) :
    rest.length ≤ cs.length := by
  fun_induction scanWord ws cs generalizing rest with
  | case1 cs =>
    cases h
    exact Nat.le_refl _
  | case2 => cases h
  | case3 ws c cs ih =>
    have := ih h
    simp only [List.length_cons]
    omega
  | case4 => cases h

/-- An atom's word is cut off the front of a text. -/
theorem length_le_of_ofWord {ws cs rest : List Char} {a : Atom}
    (h : (ofWord ws a cs).2 = some rest) : rest.length ≤ cs.length := by
  unfold ofWord at h
  split at h
  · rename_i hw
    cases h
    exact length_le_of_scanWord hw
  · cases h

/-- A number is cut off the front of a text. -/
theorem length_lt_of_ofNumeral {cs rest : List Char} (h : (ofNumeral cs).2 = some rest) :
    rest.length < cs.length := by
  unfold ofNumeral at h
  split at h
  · cases h
  · rename_i hn
    split at h <;> cases h <;> exact Numeral.length_lt_of_scan hn

/-- A token is cut off the front of a text. -/
theorem length_le_of_scan {c : Char} {cs rest : List Char} (h : (scan c cs).2 = some rest) :
    rest.length ≤ cs.length := by
  unfold scan at h
  split at h
  · cases h
    exact Nat.le_refl _
  · split at h
    · cases hp : (Piece.scan cs).2 with
      | error f => simp [hp, Except.toOption] at h
      | ok r =>
        simp only [hp, Except.toOption, Option.some.injEq] at h
        exact h ▸ Piece.length_le_of_scan hp
    · repeat' split at h
      · exact length_le_of_ofWord h
      · exact length_le_of_ofWord h
      · exact length_le_of_ofWord h
      · have := length_lt_of_ofNumeral h
        simp only [List.length_cons] at this
        omega
      · cases h

end Token

/-- A character between tokens. -/
def isBlank (c : Char) : Bool :=
  c = ' ' || c = '\t' || c = '\n' || c = '\r'

/-- The tokens of a text. -/
def tokens : List Char → List Token
  | [] => []
  | c :: cs =>
    if isBlank c then tokens cs
    else match _h : Token.scan c cs with
      | (t, none) => [t]
      | (t, some rest) => t :: tokens rest
termination_by cs => cs.length
decreasing_by
  · simp
  · have := Token.length_le_of_scan (congrArg Prod.snd _h)
    simp only [List.length_cons]
    omega

end ShaderVariants.Json
