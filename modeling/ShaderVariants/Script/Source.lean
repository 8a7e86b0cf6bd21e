import ShaderVariants.Script.Syntax

/-!
# Reading words

A `Source` is what is left of the text of a script, with its line. A word is read up to the blank
or the operator that ends it; quotes, parameters, scripts in brackets and arithmetic may be nested
in it. A script inside a word is read by a reader that is given as `script`, so that words can be
read without knowing what commands are.

A text that stands below its command is set aside: the command holds its number, and the text is
read when the line of the command ends.
-/

namespace ShaderVariants.Script

/-- What is wrong with a script, and in which line. -/
structure SyntaxError where
  message : String
  line : Nat
deriving DecidableEq

/-- A token of a script. -/
inductive Token where
  | word (w : Word)
  /-- A word that is part of how commands are put together. -/
  | keyword (s : String)
  /-- One of `& && | || ; ;; ( )`. -/
  | operator (s : String)
  | redirect (descriptor : Nat) (direction : Direction)
  | newline
  | ending

namespace Token

/-- The token in messages. -/
def title : Token → String
  | word _ => "word"
  | keyword s => "\"" ++ s ++ "\""
  | operator s => "\"" ++ s ++ "\""
  | redirect .. => "redirection"
  | newline => "newline"
  | ending => "end of file"

end Token

/-- A text that is due below the line. -/
structure Due where
  id : Nat
  mark : String
  /-- Tabs in front of its lines do not count. -/
  indented : Bool
  /-- Nothing is inserted in it. -/
  verbatim : Bool

/-- What is left of a script. -/
structure Source where
  rest : List Char
  line : Nat := 1
  /-- A token that was looked at. -/
  ahead : Option Token := none
  due : List Due := []
  /-- The texts that were read, by their numbers. -/
  documents : Array Word := #[]
  /-- Words that stand for other text. -/
  aliases : List (String × String) := []
  /-- The words among them whose text is not read to its end, and how much follows it. -/
  opened : List (String × Nat) := []

/-- Reading a part of a script. -/
abbrev Reading := StateT Source (Except SyntaxError)

namespace Reading

/-- The script is wrong in the line that was reached. -/
def fail {α : Type} (message : String) : Reading α := do
  throw ⟨"Syntax error: " ++ message, (← get).line⟩

/-- A token stands where it cannot stand. -/
def unexpected {α : Type} (t : Token) : Reading α :=
  fail (t.title ++ " unexpected")

/-- A token stands where another one has to stand. -/
def misplaced {α : Type} (t expected : Token) : Reading α :=
  fail (t.title ++ " unexpected (expecting " ++ expected.title ++ ")")

/-- A text without the line breaks that a backslash in front of them takes back, as far as it starts
with such, and how many there are. -/
def joined : List Char → Nat × List Char
  | '\\' :: '\n' :: cs =>
    let (n, rest) := joined cs
    (n + 1, rest)
  | cs => (0, cs)

/-- The next character as it is written. -/
def rawNext : Reading (Option Char) := do
  let s ← get
  match s.rest with
  | [] => return none
  | c :: cs =>
    set { s with rest := cs, line := if c = '\n' then s.line + 1 else s.line }
    return some c

/-- The next character, where lines are joined. -/
def peek : Reading (Option Char) := do
  let s ← get
  let (n, rest) := joined s.rest
  set { s with rest, line := s.line + n }
  return rest.head?

/-- The same, and it is passed. -/
def next : Reading (Option Char) := do
  let _ ← peek
  rawNext

/-- The character is next, and passed then. -/
def accept (c : Char) : Reading Bool := do
  if (← peek) = some c then
    let _ ← next
    return true
  return false

/-- The characters that satisfy a test, up to one that does not. -/
def passing (test : Char → Bool) : (fuel : Nat) → Reading (List Char)
  | 0 => return []
  | fuel + 1 => do
    match ← peek with
    | some c =>
      if test c then
        let _ ← next
        return c :: (← passing test fuel)
      else return []
    | none => return []

/-- How many steps what is left may need. -/
def fuel : Reading Nat := do
  return 2 * (← get).rest.length + 10

/-- What `step` reads again and again, until it reads nothing more. -/
def many {α : Type} (step : Reading (Option α)) : (fuel : Nat) → Reading (List α)
  | 0 => return []
  | fuel + 1 => do
    match ← step with
    | some a => return a :: (← many step fuel)
    | none => return []

end Reading

namespace Word

open Reading

/-- A parameter that is named by one character that is no letter. -/
def isSpecial (c : Char) : Bool :=
  c = '@' || c = '*' || c = '#' || c = '?' || c = '$' || c = '!' || c = '-'

/-- A character that ends a word. -/
def isBreak (c : Char) : Bool :=
  c = ' ' || c = '\t' || c = '\n' || c = ';' || c = '&' || c = '|' || c = '<' || c = '>' || c = '('
    || c = ')'

/-- Where a part of a word stands. -/
inductive Setting where
  | bare
  | quoted
  /-- In a text below its command. -/
  | document
deriving DecidableEq

namespace Setting

/-- What stands there is quoted. -/
def isQuoted : Setting → Bool
  | bare => false
  | quoted => true
  | document => true

end Setting

/-- The form that the character after a name asks for, and whether a word belongs to it. The
character is passed; a closing bracket says that the value is meant. -/
def formAfter (c : Char) : Reading (Form × Bool) := do
  let ofSign (sign : Option Char) (emptyToo : Bool) : Form :=
    match sign with
    | some '-' => .orElse emptyToo
    | some '+' => .ifSet emptyToo
    | some '=' => .assign emptyToo
    | some '?' => .demand emptyToo
    | _ => .unknown
  match c with
  | '\x7d' => return (.value, false)
  | ':' => return (ofSign (← next) true, true)
  | '%' => return (.cutBack (← accept '%'), true)
  | '#' => return (.cutFront (← accept '#'), true)
  | c => return (ofSign (some c) false, true)

/-- The name after an opening bracket, the form, and whether a word belongs to it. -/
def bracketed : Reading (String × Form × Bool) := do
  let size ← fuel
  let rest (name : String) : Reading (String × Form × Bool) := do
    match ← next with
    | some c => return (name, ← formAfter c)
    | none => return (name, .value, true)
  let named (c : Char) : Reading String := do
    let more ← passing (if c.isDigit then Char.isDigit else isNameChar) size
    return String.ofList (c :: more)
  let unknown (name : String) : Reading (String × Form × Bool) := return (name, .unknown, true)
  match ← next with
  | none => unknown ""
  | some c =>
    if isNameStart c ∨ c.isDigit then rest (← named c)
    else if c = '#' then
      match ← peek with
      | some d =>
        if isNameChar d then
          let _ ← next
          let name ← named d
          if ← accept '\x7d' then return (name, .length, false) else unknown name
        else if isSpecial d ∧ (Reading.joined ((← get).rest.drop 1)).2.head? = some '\x7d' then
          let _ ← next
          let _ ← next
          return (String.singleton d, .length, false)
        else rest "#"
      | none => rest "#"
    else if isSpecial c then rest (String.singleton c)
    else if c = '\x7d' then
      modify fun s => { s with rest := c :: s.rest }
      unknown ""
    else unknown ""

/-- The text up to a closing backquote. A backslash in it guards only what it has to. -/
def backquoted (quoted : Bool) : (fuel : Nat) → Reading (List Char)
  | 0 => fail "EOF in backquote substitution"
  | fuel + 1 => do
    match ← next with
    | none => fail "EOF in backquote substitution"
    | some '\x60' => return []
    | some '\\' =>
      match ← rawNext with
      | none => fail "EOF in backquote substitution"
      | some c =>
        let rest ← backquoted quoted fuel
        if c = '\\' ∨ c = '\x60' ∨ c = '$' ∨ (quoted ∧ c = '"') then return c :: rest
        else return '\\' :: c :: rest
    | some c => return c :: (← backquoted quoted fuel)

/-- The commands of a text inside a script. -/
def commandsOf (script : Reading (List Command)) (text : List Char) : Reading (List Command) := do
  let s ← get
  set { s with rest := text, line := 1, ahead := none, due := [] }
  let commands ← script
  let t ← get
  set { s with documents := t.documents }
  return commands

/-- The commands up to a closing bracket. -/
def commandsIn (script : Reading (List Command)) : Reading (List Command) := do
  let s ← get
  set { s with ahead := none, due := [] }
  let commands ← script
  let t ← get
  match t.ahead with
  | some (.operator ")") =>
    set { t with ahead := s.ahead, due := s.due }
    return commands
  | some other => misplaced other (.operator ")")
  | none => misplaced .ending (.operator ")")

/-- What is done with the parts that are read so far. -/
structure Readers where
  /-- A script inside a word, up to what ends it, which stays to be looked at. -/
  script : Reading (List Command)
  /-- The parts up to a closing curly bracket. -/
  braces : Setting → Reading Word
  /-- The parts up to two closing brackets. -/
  arithmetic : Reading Word

/-- What a dollar sign introduces. -/
def afterDollar (r : Readers) (place : Setting) : Reading Part := do
  let quoted := place.isQuoted
  match ← peek with
  | some '(' =>
    let _ ← next
    if ← accept '(' then return .arithmetic (← r.arithmetic) quoted
    else return .output (← commandsIn r.script) quoted
  | some '\x7b' =>
    let _ ← next
    let (name, form, more) ← bracketed
    if more then
      let inner := match form with
        | .cutFront _ => .bare
        | .cutBack _ => .bare
        | _ => place
      return .parameter name form (← r.braces inner) quoted
    else return .parameter name form [] quoted
  | some c =>
    if isNameStart c then
      return .parameter (String.ofList (← passing isNameChar (← fuel))) .value [] quoted
    else if isSpecial c ∨ c.isDigit then
      let _ ← next
      return .parameter (String.singleton c) .value [] quoted
    else return .plain '$' quoted
  | none => return .plain '$' quoted

/-- The characters up to a single quote. -/
def singleQuoted : (fuel : Nat) → Reading (List Char)
  | 0 => fail "Unterminated quoted string"
  | fuel + 1 => do
    match ← rawNext with
    | none => fail "Unterminated quoted string"
    | some '\'' => return []
    | some c => return c :: (← singleQuoted fuel)

/-- The parts that a backslash gives, where only some characters are guarded by it. -/
def guarded (isGuarded : Char → Bool) : Reading Word := do
  match ← rawNext with
  | none => return [.plain '\\' true]
  | some c =>
    if isGuarded c then return [.plain c true] else return [.plain '\\' true, .plain c true]

/-- A character that a backslash guards between double quotes. -/
def isGuarded (c : Char) : Bool :=
  c = '$' || c = '"' || c = '\\' || c = '\x60'

/-- The script between backquotes. -/
def quotedScript (r : Readers) (place : Setting) : Reading Part := do
  let text ← backquoted place.isQuoted (← fuel)
  return .output (← commandsOf r.script text) place.isQuoted

/-- The parts up to a double quote. -/
def doubleQuoted (r : Readers) : (fuel : Nat) → Reading Word
  | 0 => fail "Unterminated quoted string"
  | fuel + 1 => do
    match ← next with
    | none => fail "Unterminated quoted string"
    | some '"' => return []
    | some '$' => return (← afterDollar r .quoted) :: (← doubleQuoted r fuel)
    | some '\x60' => return (← quotedScript r .quoted) :: (← doubleQuoted r fuel)
    | some '\\' => return (← guarded isGuarded) ++ (← doubleQuoted r fuel)
    | some c => return .plain c true :: (← doubleQuoted r fuel)

/-- The parts of a word that is not in quotes. -/
def bareParts (r : Readers) : (fuel : Nat) → Reading Word
  | 0 => return []
  | fuel + 1 => do
    match ← peek with
    | none => return []
    | some c =>
      if isBreak c then return []
      let _ ← next
      match c with
      | '\'' =>
        let inside ← singleQuoted (← Reading.fuel)
        return .quotes :: inside.map (.plain · true) ++ (← bareParts r fuel)
      | '"' =>
        let inside ← doubleQuoted r (← Reading.fuel)
        return .quotes :: inside ++ (← bareParts r fuel)
      | '$' => return (← afterDollar r .bare) :: (← bareParts r fuel)
      | '\x60' => return (← quotedScript r .bare) :: (← bareParts r fuel)
      | '\\' => return (← guarded fun _ => true) ++ (← bareParts r fuel)
      | c => return .plain c false :: (← bareParts r fuel)

/-- The parts up to a closing curly bracket. Between quotes, further quotes only guard a bracket. -/
def braceParts (r : Readers) (place : Setting) : (guardedHere : Bool) → (fuel : Nat) → Reading Word
  | _, 0 => fail "Missing '\x7d'"
  | guardedHere, fuel + 1 => do
    let more := braceParts r place guardedHere fuel
    match ← next with
    | none =>
      if place = .quoted then fail "Unterminated quoted string"
      else fail "Missing '\x7d'"
    | some '\x7d' => if guardedHere then return .plain '\x7d' true :: (← more) else return []
    | some '$' => return (← afterDollar r place) :: (← more)
    | some '\x60' => return (← quotedScript r place) :: (← more)
    | some '\\' =>
      if place.isQuoted then return (← guarded fun c => isGuarded c || c = '\x7d') ++ (← more)
      else return (← guarded fun _ => true) ++ (← more)
    | some '"' =>
      if place.isQuoted then
        return .quotes :: (← braceParts r place (!guardedHere) fuel)
      else
        let inside ← doubleQuoted r (← Reading.fuel)
        return .quotes :: inside ++ (← more)
    | some '\'' =>
      if place.isQuoted then return .plain '\'' true :: (← more)
      else
        let inside ← singleQuoted (← Reading.fuel)
        return .quotes :: inside.map (.plain · true) ++ (← more)
    | some c => return .plain c place.isQuoted :: (← more)

/-- The parts up to two closing brackets, inside `depth` opening ones. -/
def arithmeticParts (r : Readers) : (depth : Nat) → (fuel : Nat) → Reading Word
  | _, 0 => fail "Missing '))'"
  | depth, fuel + 1 => do
    match ← next with
    | none => fail "Missing '))'"
    | some '(' => return .plain '(' true :: (← arithmeticParts r (depth + 1) fuel)
    | some ')' =>
      match depth with
      | depth + 1 => return .plain ')' true :: (← arithmeticParts r depth fuel)
      | 0 =>
        if ← accept ')' then return []
        else return .plain ')' true :: (← arithmeticParts r 0 fuel)
    | some '$' => return (← afterDollar r .quoted) :: (← arithmeticParts r depth fuel)
    | some '\x60' => return (← quotedScript r .quoted) :: (← arithmeticParts r depth fuel)
    | some '\\' => return (← guarded fun _ => true) ++ (← arithmeticParts r depth fuel)
    | some c => return .plain c true :: (← arithmeticParts r depth fuel)

/-- The readers for what is nested at most `depth` deep. -/
def readers (script : Reading (List Command)) : (depth : Nat) → Readers
  | 0 =>
    { script, braces := fun _ => fail "too deep"
      arithmetic := fail "too deep" }
  | depth + 1 =>
    { script
      braces := fun place => do braceParts (readers script depth) place false (← fuel)
      arithmetic := do arithmeticParts (readers script depth) 0 (← fuel) }

/-- How deep things may be nested in a word. -/
def maxDepth : Nat :=
  100

/-- The word that comes next. -/
def read (script : Reading (List Command)) : Reading Word := do
  bareParts (readers script maxDepth) (← fuel)

/-- The word after which a text ends: in it, nothing is inserted. -/
def readMark : (fuel : Nat) → Reading Word
  | 0 => return []
  | fuel + 1 => do
    match ← peek with
    | none => return []
    | some c =>
      if isBreak c then return []
      let _ ← next
      match c with
      | '\'' =>
        let inside ← singleQuoted (← Reading.fuel)
        return .quotes :: inside.map (.plain · true) ++ (← readMark fuel)
      | '"' =>
        let inside ← passing (· ≠ '"') (← Reading.fuel)
        let _ ← next
        return .quotes :: inside.map (.plain · true) ++ (← readMark fuel)
      | '\\' => return (← guarded fun _ => true) ++ (← readMark fuel)
      | c => return .plain c false :: (← readMark fuel)

/-- The parts of a text below its command. -/
def documentParts (r : Readers) : (fuel : Nat) → Reading Word
  | 0 => return []
  | fuel + 1 => do
    match ← next with
    | none => return []
    | some '$' => return (← afterDollar r .document) :: (← documentParts r fuel)
    | some '\x60' => return (← quotedScript r .document) :: (← documentParts r fuel)
    | some '\\' =>
      return (← guarded fun c => c = '$' || c = '\\' || c = '\x60') ++ (← documentParts r fuel)
    | some c => return .plain c true :: (← documentParts r fuel)

end Word

namespace Reading

/-- The lines up to the mark of a text, joined, and what follows the line of the mark. -/
def linesTo (mark : List Char) (indented : Bool) : (fuel : Nat) → List Char → List Char × List Char
  | 0, cs => ([], cs)
  | _, [] => ([], [])
  | fuel + 1, cs =>
    let line := cs.takeWhile (· ≠ '\n')
    let rest := cs.drop (line.length + 1)
    let shown := if indented then line.dropWhile (· = '\t') else line
    if shown = mark then ([], rest)
    else
      let (more, rest) := linesTo mark indented fuel rest
      (shown ++ (if line.length < cs.length then '\n' :: more else more), rest)

/-- Read a text that is due. -/
def document (script : Reading (List Command)) (d : Due) : Reading Unit := do
  let s ← get
  let (text, rest) := linesTo d.mark.toList d.indented (s.rest.length + 1) s.rest
  let passed := s.rest.take (s.rest.length - rest.length)
  let after := { s with rest, line := s.line + passed.count '\n' }
  let word ← if d.verbatim then pure (text.map (Part.plain · true))
    else do
      set { s with rest := text, ahead := none, due := [] }
      Word.documentParts (Word.readers script Word.maxDepth) (text.length + 1)
  let read := (← get).documents
  set { after with documents := read.setIfInBounds d.id word }

/-- Read all texts that are due. -/
def documents (script : Reading (List Command)) : Reading Unit := do
  let s ← get
  set { s with due := [] }
  s.due.forM (document script)

/-- The direction that a sign and what follows it ask for, and the descriptor if none is given. -/
def direction (sign : Char) : Reading (Nat × Direction) := do
  if sign = '>' then
    if ← accept '>' then return (1, .append)
    else if ← accept '|' then return (1, .output true)
    else if ← accept '&' then return (1, .join)
    else return (1, .output false)
  else if ← accept '<' then
    let s ← get
    set { s with documents := s.documents.push [] }
    return (0, .document s.documents.size)
  else if ← accept '&' then return (0, .join)
  else if ← accept '>' then return (0, .inputOutput)
  else return (0, .input)

/-- The token that comes next. -/
def token (script : Reading (List Command)) : (fuel : Nat) → Reading Token
  | 0 => return .ending
  | fuel + 1 => do
    let either (c : Char) (one two : String) : Reading Token := do
      if ← accept c then return .operator two else return .operator one
    match ← peek with
    | none => return .ending
    | some c =>
      match c with
      | ' ' =>
        let _ ← next
        token script fuel
      | '\t' =>
        let _ ← next
        token script fuel
      | '#' =>
        modify fun s => { s with rest := s.rest.dropWhile (· ≠ '\n') }
        token script fuel
      | '\n' =>
        let _ ← next
        documents script
        return .newline
      | '&' =>
        let _ ← next
        either '&' "&" "&&"
      | '|' =>
        let _ ← next
        either '|' "|" "||"
      | ';' =>
        let _ ← next
        either ';' ";" ";;"
      | '(' =>
        let _ ← next
        return .operator "("
      | ')' =>
        let _ ← next
        return .operator ")"
      | _ =>
        let w ← Word.read script
        match ← peek with
        | some sign =>
          if sign = '<' ∨ sign = '>' then
            match w with
            | [] =>
              let _ ← next
              let (n, d) ← direction sign
              return .redirect n d
            | [.plain digit false] =>
              if digit.isDigit then
                let _ ← next
                let (_, d) ← direction sign
                return .redirect (digit.toNat - '0'.toNat) d
              else return .word w
            | _ => return .word w
          else return .word w
        | none => return .word w

end Reading

end ShaderVariants.Script
