import ShaderVariants.Script.Utility.Options

/-!
# Tests of files, texts and numbers

A condition is a list of words: a word alone holds if it is not empty, and there are tests of one
and of two words, which can be negated and connected. What is wrong with a condition is told by a
`Misuse`.
-/

namespace ShaderVariants.Script.Utility

/-- What is wrong with a condition. -/
inductive Misuse where
  | unexpected (word : String)
  | argumentExpected (word : String)
  | bracketExpected
  | notNumber (word : String)
deriving DecidableEq

namespace Misuse

/-- What is wrong in words. -/
def message : Misuse → String
  | unexpected w => w ++ ": unexpected operator"
  | argumentExpected w => w ++ ": argument expected"
  | bracketExpected => "closing paren expected"
  | notNumber w => "Illegal number: " ++ w

end Misuse

namespace Condition

/-- The kinds of words in a condition. -/
inductive Kind where
  | unary
  | binary
  | not
  | and
  | or
  | opening
  | closing
  | operand
  | ending
deriving DecidableEq

/-- The kind of a word by itself. -/
def kindOf (w : String) : Kind :=
  if w ∈ ["-r", "-w", "-x", "-e", "-f", "-d", "-c", "-b", "-p", "-u", "-g", "-k", "-s", "-t", "-z",
      "-n", "-h", "-O", "-G", "-L", "-S"] then .unary
  else if w ∈ ["=", "!=", "<", ">", "-eq", "-ne", "-gt", "-ge", "-lt", "-le", "-nt", "-ot",
      "-ef"] then .binary
  else if w = "!" then .not
  else if w = "-a" then .and
  else if w = "-o" then .or
  else if w = "(" then .opening
  else if w = ")" then .closing
  else .operand

/-- The kind of the first word of a list: the sign of a test of one word is an operand if no word
follows it, or the sign of a test of two. -/
def kind : List String → Kind
  | [] => .ending
  | w :: rest =>
    let found := kindOf w
    let isOperand := match rest with
      | [] => true
      | [_] => false
      | next :: _ => kindOf next = .binary
    if found = .unary && isOperand then .operand
    else if found = .opening && rest.isEmpty then .operand
    else found

/-- The programs that are in the directories of programs. -/
def programs : List String :=
  ["sh", "dash", "bash", "cat", "cp", "mv", "rm", "ls", "echo", "true", "false", "sleep", "sed",
    "grep", "env", "printf", "test", "mkdir", "touch", "head", "tail", "sort", "tr", "cut", "wc"]

/-- What a path leads to, with links followed or not. -/
def nodeAt (s : Store) (follow : Bool) (p : String) : Option Node :=
  match s.find (Text.assembled p) follow with
  | .ok ⟨_, some n⟩ => some n
  | .ok ⟨["bin", name], none⟩ =>
    if programs.contains name then some (.file (.text "x") true) else none
  | .ok ⟨["usr", "bin", name], none⟩ =>
    if programs.contains name then some (.file (.text "x") true) else none
  | _ => none

/-- A test of one word. -/
def holdsOf (s : Store) (sign w : String) : Except Misuse Bool :=
  if sign = "-z" then .ok w.isEmpty
  else if sign = "-n" then .ok !w.isEmpty
  else if sign = "-t" then .ok false
  else if sign = "-h" ∨ sign = "-L" then
    .ok (match nodeAt s false w with
      | some (.link _) => true
      | _ => false)
  else
    .ok (match nodeAt s true w with
      | none => false
      | some (.file content executable) =>
        if sign = "-x" then executable
        else if sign = "-s" then content.size ≠ 0
        else sign ∈ ["-e", "-f", "-r", "-w", "-O", "-G"]
      | some .directory => sign ∈ ["-e", "-d", "-r", "-w", "-x", "-s", "-O", "-G"]
      | some .device => sign ∈ ["-e", "-c", "-r", "-w", "-O", "-G"]
      | some (.link _) => false)

/-- A character that is passed over around a number. -/
def isBlank (c : Char) : Bool :=
  c = ' ' || ('\t' ≤ c && c ≤ '\r')

/-- The number that a word has to be. -/
def number (w : String) : Except Misuse Int :=
  let cs := w.toList.dropWhile isBlank
  let (negative, cs) := match cs with
    | '-' :: cs => (true, cs)
    | '+' :: cs => (false, cs)
    | cs => (false, cs)
  let digits := cs.takeWhile Char.isDigit
  match natural? (String.ofList digits), (cs.drop digits.length).all isBlank with
  | some n, true =>
    if n ≤ 9223372036854775807 then .ok (if negative then -(n : Int) else n)
    else .error (.notNumber w)
  | _, _ => .error (.notNumber w)

/-- A test of two words. -/
def holdsBetween (s : Store) (a sign b : String) : Except Misuse Bool := do
  if sign = "=" then return a = b
  else if sign = "!=" then return a ≠ b
  else if sign = "<" then return a < b
  else if sign = ">" then return b < a
  else if sign = "-nt" ∨ sign = "-ot" then return false
  else if sign = "-ef" then
    match s.find (Text.assembled a) true, s.find (Text.assembled b) true with
    | .ok ⟨l, some _⟩, .ok ⟨m, some _⟩ => return l = m
    | _, _ => return false
  else
    let m ← number a
    let n ← number b
    if sign = "-eq" then return m = n
    else if sign = "-ne" then return m ≠ n
    else if sign = "-gt" then return n < m
    else if sign = "-ge" then return n ≤ m
    else if sign = "-lt" then return m < n
    else return m ≤ n

/-- Whether a part of a condition holds, and the words from its last one on. -/
abbrev Outcome := Except Misuse (Bool × List String)

mutual

/-- Conditions of which one holds. -/
def anyOf (s : Store) : (fuel : Nat) → Kind → List String → Outcome
  | 0, _, ws => .ok (false, ws)
  | fuel + 1, k, ws => do
    let (held, ws) ← allOf s fuel k ws
    if kind ws.tail = .or then
      let ws := (ws.drop 2)
      let (more, ws) ← anyOf s fuel (kind ws) ws
      return (held || more, ws)
    else return (held, ws)

/-- Conditions of which all hold. -/
def allOf (s : Store) : (fuel : Nat) → Kind → List String → Outcome
  | 0, _, ws => .ok (false, ws)
  | fuel + 1, k, ws => do
    let (held, ws) ← negated s fuel k ws
    if kind ws.tail = .and then
      let ws := (ws.drop 2)
      let (more, ws) ← allOf s fuel (kind ws) ws
      return (held && more, ws)
    else return (held, ws)

/-- A condition that may be negated. -/
def negated (s : Store) : (fuel : Nat) → Kind → List String → Outcome
  | 0, _, ws => .ok (false, ws)
  | fuel + 1, k, ws => do
    if k = .not then
      let next := kind ws.tail
      let (held, ws) ← negated s fuel next (if next = .ending then ws else ws.tail)
      return (!held, ws)
    else primary s fuel k ws

/-- A condition without connections. -/
def primary (s : Store) : (fuel : Nat) → Kind → List String → Outcome
  | 0, _, ws => .ok (false, ws)
  | fuel + 1, k, ws => do
    match k, ws with
    | .ending, ws => return (false, ws)
    | _, [] => return (false, [])
    | .opening, _ :: ws =>
      let next := kind ws
      if next = .closing then return (false, ws)
      let (held, ws) ← anyOf s fuel next ws
      if kind ws.tail ≠ .closing then throw .bracketExpected
      return (held, ws.tail)
    | .unary, sign :: ws =>
      match ws with
      | [] => throw (.argumentExpected sign)
      | w :: _ => return (← holdsOf s sign w, ws)
    | _, w :: rest =>
      if kind rest = .binary then
        match rest with
        | sign :: b :: more => return (← holdsBetween s w sign b, b :: more)
        | sign :: [] => throw (.argumentExpected sign)
        | [] => return (!w.isEmpty, ws)
      else return (!w.isEmpty, ws)

end

/-- Whether words hold. -/
def holds (s : Store) : (fuel : Nat) → List String → Except Misuse Bool
  | 0, _ => .ok false
  | fuel + 1, ws => do
    let whole (k : Kind) (ws : List String) : Except Misuse Bool := do
      let (held, left) ← anyOf s (8 * ws.length + 20) k ws
      match left with
      | _ :: w :: _ => throw (.unexpected (left.headD w))
      | _ => return held
    let bracketed := ws.head? = some "(" && ws.getLast? = some ")"
    match ws with
    | [] => return false
    | [_, sign, _] =>
      if kindOf sign = .binary then whole .operand ws
      else if bracketed then whole (kind (ws.tail.dropLast)) ws.tail.dropLast
      else if ws.head? = some "!" then return !(← holds s fuel ws.tail)
      else whole (kind ws) ws
    | [_, _, _, _] =>
      if bracketed then whole (kind (ws.tail.dropLast)) ws.tail.dropLast
      else if ws.head? = some "!" then return !(← holds s fuel ws.tail)
      else whole (kind ws) ws
    | ws => whole (kind ws) ws

end Condition

/-- The status that tells whether a condition holds; what is wrong with it is handed to `wrong`. -/
def conditionStatus (wrong : Misuse → Run Unit) (words : List String) : Run Nat := do
  match Condition.holds (← get).store (words.length + 1) words with
  | .ok held => return if held then 0 else 1
  | .error e =>
    wrong e
    return 2

/-- A condition as a utility, which may have to be closed by a bracket. -/
def testWith (wrong : Misuse → Run Unit) (bracketMissing : Run Unit) : Utility :=
  fun tool args => do
  if (tool.splitOn "/").getLast? = some "[" then
    if args.getLast? = some "]" then conditionStatus wrong args.dropLast
    else
      bracketMissing
      return 2
  else conditionStatus wrong args

/-- A condition as a part of the shell. -/
def test : Utility :=
  testWith (fun e => Run.warn e.message) (Run.warn "missing ]")

/-- A condition as a program. -/
def testProgram : Utility := fun tool args =>
  testWith (fun e => complain tool (match e with
    | .unexpected w => "extra argument " ++ cited w
    | .argumentExpected w => "missing argument after " ++ cited w
    | .bracketExpected => "')' expected"
    | .notNumber w => "invalid integer " ++ cited w))
    (complain tool "missing ']'") tool args

end ShaderVariants.Script.Utility
