/-!
# Arithmetic

Expressions over whole numbers of 64 bits, which wrap around. An expression is read into an
`Expression`, and `eval` computes its value; what a variable is worth and how it is set is given by
the surroundings.
-/

namespace ShaderVariants.Script

/-- The number of a digit in a base. -/
def digitValue? (base : Nat) (c : Char) : Option Nat :=
  let n :=
    if c.isDigit then c.toNat - '0'.toNat
    else if 'a' ≤ c ∧ c ≤ 'z' then c.toNat - 'a'.toNat + 10
    else if 'A' ≤ c ∧ c ≤ 'Z' then c.toNat - 'A'.toNat + 10
    else base
  if n < base then some n else none

/-- The number that digits of a base write. -/
def digitsValue (base : Nat) (cs : List Char) : Nat :=
  cs.foldl (fun n c => n * base + (digitValue? base c).getD 0) 0

/-- The base and the digits of the number that a text starts with, and what follows. -/
def numeral (cs : List Char) : Nat × List Char × List Char :=
  let hex := (cs.drop 2).takeWhile fun c => (digitValue? 16 c).isSome
  match cs with
  | '0' :: x :: rest =>
    if (x = 'x' ∨ x = 'X') ∧ hex ≠ [] then (16, hex, rest.drop hex.length)
    else
      let digits := cs.takeWhile fun c => (digitValue? 8 c).isSome
      (8, digits, cs.drop digits.length)
  | cs =>
    let digits := cs.takeWhile Char.isDigit
    (10, digits, cs.drop digits.length)

/-- The largest number. -/
def maxNumber : Nat :=
  9223372036854775807

/-- A character that is passed over in front of a number. -/
def isSpace (c : Char) : Bool :=
  c = ' ' || ('\t' ≤ c && c ≤ '\r')

/-- The whole number that a text writes in the base that its start tells, with blanks around it. -/
def wholeNumber? (s : String) : Option Int :=
  let cs := s.toList.dropWhile isSpace
  let (negative, cs) := match cs with
    | '-' :: cs => (true, cs)
    | '+' :: cs => (false, cs)
    | cs => (false, cs)
  let (base, digits, rest) := numeral cs
  let n := digitsValue base digits
  if digits = [] ∨ !rest.all isSpace ∨ maxNumber + (if negative then 1 else 0) < n then none
  else some (if negative then -n else n)

/-- A ratio with a sign of its own, or a number beyond all others. -/
structure Real where
  negative : Bool := false
  num : Nat := 0
  den : Nat := 1
  endless : Bool := false

/-- The number that a text starts with, in decimal or hexadecimal digits with an exponent, and what
follows it. -/
def Real.ofChars (cs : List Char) : Option (Real × List Char) :=
  let cs := cs.dropWhile isSpace
  let (negative, cs) := match cs with
    | '-' :: cs => (true, cs)
    | '+' :: cs => (false, cs)
    | cs => (false, cs)
  let lower := cs.map Char.toLower
  match ["infinity", "inf"].find? fun word => word.toList.isPrefixOf lower with
  | some word => some ({ negative, endless := true }, cs.drop word.length)
  | none =>
    let (base, cs) := match cs with
      | '0' :: x :: c :: rest =>
        if (x = 'x' || x = 'X') && ((digitValue? 16 c).isSome || c = '.') then (16, c :: rest)
        else (10, cs)
      | cs => (10, cs)
    let digits (cs : List Char) := cs.takeWhile fun c => (digitValue? base c).isSome
    let whole := digits cs
    let (fraction, rest) := match cs.drop whole.length with
      | '.' :: more => (digits more, more.drop (digits more).length)
      | rest => ([], rest)
    let mark := if base = 16 then ['p', 'P'] else ['e', 'E']
    let (exponent, rest) : Int × List Char := match rest with
      | c :: more =>
        let (negative, ds) := match more with
          | '-' :: ds => (true, ds)
          | '+' :: ds => (false, ds)
          | ds => (false, ds)
        let number := ds.takeWhile Char.isDigit
        if !mark.contains c || number.isEmpty then (0, rest)
        else
          let n : Int := min (digitsValue 10 number) 5000
          (if negative then -n else n, ds.drop number.length)
      | [] => (0, [])
    if whole.isEmpty && fraction.isEmpty then none
    else
      let power := if base = 16 then 2 else 10
      some ({
        negative
        num := digitsValue base (whole ++ fraction) * Nat.pow power exponent.toNat
        den := Nat.pow base fraction.length * Nat.pow power (-exponent).toNat }, rest)

/-- An expression. -/
inductive Expression where
  | number (n : Int64)
  | named (name : String)
  | unary (sign : Char) (e : Expression)
  | binary (sign : String) (a b : Expression)
  /-- The second part counts only if the first one holds. -/
  | both (a b : Expression)
  | either (a b : Expression)
  | choose (condition a b : Expression)
  /-- Set a variable, to its old value combined with a new one if there is a sign. -/
  | assign (name : String) (sign : Option String) (e : Expression)
  /-- What cannot be understood. -/
  | mistaken

namespace Expression

/-- A token of an expression. -/
inductive Symbol where
  | number (n : Int64)
  | name (s : String)
  | sign (s : String)
deriving DecidableEq

namespace Symbol

/-- The signs, each before those that it starts with. -/
def signs : List String :=
  ["<<=", ">>=", "<<", ">>", "<=", ">=", "==", "!=", "&&", "||", "+=", "-=", "*=", "/=", "%=", "&=",
    "|=", "^=", "<", ">", "=", "!", "&", "|", "+", "-", "*", "/", "%", "^", "~", "?", ":", "(", ")"]

/-- The tokens of a text. A character that starts none is a sign of its own. -/
def ofChars : (fuel : Nat) → List Char → List Symbol
  | 0, _ => []
  | _, [] => []
  | fuel + 1, c :: cs =>
    if c = ' ' ∨ c = '\t' ∨ c = '\n' then ofChars fuel cs
    else if c.isDigit then
      let (base, digits, rest) := numeral (c :: cs)
      number (Int64.ofNat (min (digitsValue base digits) maxNumber)) :: ofChars fuel rest
    else if c.isAlpha ∨ c = '_' then
      let word := (c :: cs).takeWhile fun c => c.isAlphanum || c = '_'
      name (String.ofList word) :: ofChars fuel ((c :: cs).drop word.length)
    else match signs.find? fun s => s.toList.isPrefixOf (c :: cs) with
      | some s => sign s :: ofChars fuel ((c :: cs).drop s.length)
      | none => sign (String.singleton c) :: ofChars fuel cs

end Symbol

/-- How tightly a sign binds what is around it: the lower, the tighter. -/
def rank? (s : String) : Option Nat :=
  if s = "*" ∨ s = "/" ∨ s = "%" then some 0
  else if s = "+" ∨ s = "-" then some 1
  else if s = "<<" ∨ s = ">>" then some 2
  else if s = "<" ∨ s = "<=" ∨ s = ">" ∨ s = ">=" then some 3
  else if s = "==" ∨ s = "!=" then some 4
  else if s = "&" then some 5
  else if s = "^" then some 6
  else if s = "|" then some 7
  else none

/-- The number of ranks. -/
def ranks : Nat :=
  8

/-- The sign that is combined with an assignment. -/
def assigned? (s : String) : Option (Option String) :=
  if s = "=" then some none
  else if s ∈ ["*=", "/=", "%=", "+=", "-=", "<<=", ">>=", "&=", "^=", "|="] then
    some (some (String.ofList (s.toList.take (s.length - 1))))
  else none

/-- Tokens that are left to be read, and what is wrong with those that were read. -/
structure Reader where
  symbols : List Symbol
  mistake : Option String := none

/-- Reading an expression from tokens. -/
abbrev Read := StateM Reader

/-- Something is wrong, and the rest is not read. Of several things, the first counts. -/
def wrong (why : String) : Read Expression := do
  modify fun r => { symbols := [], mistake := some (r.mistake.getD why) }
  return mistaken

/-- The sign is next, and passed then. -/
def accept (s : String) : Read Bool := do
  match (← get).symbols with
  | .sign t :: rest =>
    if t = s then
      modify fun r => { r with symbols := rest }
      return true
    return false
  | _ => return false

mutual

/-- A number, a variable, an expression in brackets, or a sign in front of one of these. -/
def primary : (fuel : Nat) → Read Expression
  | 0 => wrong "expecting primary"
  | fuel + 1 => do
    match (← get).symbols with
    | symbol :: rest =>
      modify fun r => { r with symbols := rest }
      match symbol with
      | .number n => return number n
      | .name s => return named s
      | .sign s =>
        if s = "(" then
          let e ← assignment fuel
          if ← accept ")" then return e
          return binary "+" e (← wrong "expecting ')'")
        else if s = "+" then primary fuel
        else if s = "-" then return unary '-' (← primary fuel)
        else if s = "!" then return unary '!' (← primary fuel)
        else if s = "~" then return unary '~' (← primary fuel)
        else wrong "expecting primary"
    | [] => wrong "expecting primary"

/-- An expression with signs of a rank below a bound. -/
def binaries : (fuel bound : Nat) → Read Expression
  | 0, _ => wrong "expecting primary"
  | fuel + 1, 0 => primary fuel
  | fuel + 1, bound + 1 => do
    let first ← binaries fuel bound
    binariesAfter fuel bound first

/-- What follows the first operand of signs of a rank. -/
def binariesAfter : (fuel rank : Nat) → Expression → Read Expression
  | 0, _, e => return e
  | fuel + 1, rank, e => do
    match (← get).symbols with
    | .sign s :: rest =>
      if rank? s = some rank then
        modify fun r => { r with symbols := rest }
        let next ← binaries fuel rank
        binariesAfter fuel rank (binary s e next)
      else return e
    | _ => return e

/-- An expression with `&&`. -/
def conjunction : (fuel : Nat) → Read Expression
  | 0 => wrong "expecting primary"
  | fuel + 1 => do
    let e ← binaries fuel ranks
    if ← accept "&&" then return both e (← conjunction fuel) else return e

/-- An expression with `||`. -/
def disjunction : (fuel : Nat) → Read Expression
  | 0 => wrong "expecting primary"
  | fuel + 1 => do
    let e ← conjunction fuel
    if ← accept "||" then return either e (← disjunction fuel) else return e

/-- An expression with a condition. -/
def conditional : (fuel : Nat) → Read Expression
  | 0 => wrong "expecting primary"
  | fuel + 1 => do
    let e ← disjunction fuel
    if ← accept "?" then
      let a ← assignment fuel
      if ← accept ":" then return choose e a (← conditional fuel)
      return choose e (binary "+" a (← wrong "expecting ':'")) mistaken
    else return e

/-- An expression that may set a variable. -/
def assignment : (fuel : Nat) → Read Expression
  | 0 => wrong "expecting primary"
  | fuel + 1 => do
    match (← get).symbols with
    | .name s :: .sign t :: rest =>
      match assigned? t with
      | some sign =>
        modify fun r => { r with symbols := rest }
        return assign s sign (← assignment fuel)
      | none => conditional fuel
    | _ => conditional fuel

end

/-- The expression that a text writes, and what is wrong with it if anything is. It can be evaluated
up to there. -/
def ofText (s : String) : Expression × Option String :=
  let symbols := Symbol.ofChars (s.length + 1) s.toList
  let (e, r) := (assignment (20 * (symbols.length + 2))).run { symbols }
  (e, r.mistake.or (if r.symbols.isEmpty then none else some "expecting EOF"))

/-- One if a condition holds, zero if it does not. -/
def truth (b : Bool) : Int64 :=
  if b then 1 else 0

/-- Two numbers combined; nothing if there is no such number. -/
def combine (sign : String) (a b : Int64) : Option Int64 :=
  if sign = "*" then some (a * b)
  else if sign = "/" then if b = 0 then none else some (a / b)
  else if sign = "%" then if b = 0 then none else some (a % b)
  else if sign = "+" then some (a + b)
  else if sign = "-" then some (a - b)
  else if sign = "<<" then some (a <<< b)
  else if sign = ">>" then some (a >>> b)
  else if sign = "<" then some (truth (a < b))
  else if sign = "<=" then some (truth (a ≤ b))
  else if sign = ">" then some (truth (b < a))
  else if sign = ">=" then some (truth (b ≤ a))
  else if sign = "==" then some (truth (a = b))
  else if sign = "!=" then some (truth (a ≠ b))
  else if sign = "&" then some (a &&& b)
  else if sign = "^" then some (a ^^^ b)
  else some (a ||| b)

/-- What an expression needs of its surroundings. -/
structure Surroundings (m : Type → Type) where
  value : (name : String) → m Int64
  assign : (name : String) → Int64 → m Unit
  /-- A number was divided by zero. -/
  divisionByZero : m Int64
  /-- A part cannot be understood. -/
  misunderstood : m Int64

/-- The value of an expression. -/
def eval {m : Type → Type} [Monad m] (v : Surroundings m) : Expression → m Int64
  | number n => return n
  | named name => v.value name
  | unary sign e => do
    let n ← eval v e
    return if sign = '-' then -n else if sign = '~' then ~~~n else truth (n = 0)
  | binary sign a b => do
    let m ← eval v a
    let n ← eval v b
    match combine sign m n with
    | some n => return n
    | none => v.divisionByZero
  | both a b => do
    if (← eval v a) = 0 then return 0
    return truth ((← eval v b) ≠ 0)
  | either a b => do
    if (← eval v a) ≠ 0 then return 1
    return truth ((← eval v b) ≠ 0)
  | choose c a b => do
    if (← eval v c) ≠ 0 then eval v a else eval v b
  | assign name sign e => do
    let n ← eval v e
    let n ← match sign with
      | none => pure n
      | some sign => do
        match combine sign (← v.value name) n with
        | some n => pure n
        | none => v.divisionByZero
    v.assign name n
    return n
  | mistaken => v.misunderstood

end Expression

end ShaderVariants.Script
