import ShaderVariants.Script.Source

/-!
# Reading commands

Commands are read from the tokens of a script: `unit` reads the commands of a line, or of as many
lines as they take, so that a script can run up to the line in which it is wrong. What may stand
inside a command is read by readers for one level of nesting less.
-/

namespace ShaderVariants.Script

namespace Keyword

/-- The words that put commands together. -/
def all : List String :=
  ["!", "case", "do", "done", "elif", "else", "esac", "fi", "for", "if", "in", "then", "until",
    "while", "\x7b", "\x7d"]

/-- The words that end a list of commands. -/
def closing : List String :=
  ["do", "done", "elif", "else", "esac", "fi", "then", "\x7d"]

end Keyword

namespace Grammar

open Reading

/-- Readers of what stands inside a command. -/
structure Inside where
  command : Reading Command
  /-- A script inside a word, up to what ends it. -/
  script : Reading (List Command)

/-- Commands one after another. -/
def together : List Command → Command
  | [c] => c
  | cs => .inTurn cs

/-- The next token, which stays to be read. Line breaks may be passed, and words may be keywords or
stand for other text. -/
def look (i : Inside) (newlines keywords aliases : Bool) : (fuel : Nat) → Reading Token
  | 0 => return .ending
  | fuel + 1 => do
    let again := look i newlines keywords aliases fuel
    let t ← match (← get).ahead with
      | some t => pure t
      | none => token i.script (← Reading.fuel)
    let keep (t : Token) : Reading Token := do
      modify fun s => { s with ahead := some t }
      return t
    match t with
    | .newline =>
      if newlines then
        modify fun s => { s with ahead := none }
        again
      else keep t
    | .word w =>
      match Word.bare? w with
      | some name =>
        if keywords && name ∈ Keyword.all then keep (.keyword name)
        else
          let s ← get
          let size := s.rest.length
          let isOpen := s.opened.any fun (other, after) => other = name && after ≤ size
          match if aliases && !isOpen then s.aliases.lookup name else none with
          | some text =>
            set { s with
              ahead := none, rest := text.toList ++ s.rest, opened := (name, size) :: s.opened }
            again
          | none => keep t
      | none => keep t
    | t => keep t

/-- The next token as it stands. -/
def plainly (i : Inside) : Reading Token := do
  look i false false false (← fuel)

/-- The next token at the start of a command. -/
def leading (i : Inside) : Reading Token := do
  look i false true true (← fuel)

/-- The next token at the start of a command, which may be in a line of its own. -/
def further (i : Inside) : Reading Token := do
  look i true true true (← fuel)

/-- Pass the token that was looked at. -/
def pass : Reading Unit :=
  modify fun s => { s with ahead := none }

/-- The keyword is next, and passed then. -/
def accepts (t : Token) (s : String) : Reading Bool := do
  match t with
  | .keyword other =>
    if other = s then
      pass
      return true
    return false
  | _ => return false

/-- A keyword has to be next. -/
def demand (s : String) (t : Token) : Reading Unit := do
  unless ← accepts t s do misplaced t (.keyword s)

/-- The redirection whose sign was read. -/
def redirect (i : Inside) (descriptor : Nat) (direction : Direction) : Reading Redirect := do
  match direction with
  | .document id =>
    let indented ← accept '-'
    let _ ← passing (fun c => c = ' ' || c = '\t') (← fuel)
    let mark ← Word.readMark (← fuel)
    if mark.isEmpty then unexpected (← plainly i)
    let verbatim := (Word.bare? mark).isNone
    let due : Due := { id, mark := Word.chars mark, indented, verbatim }
    modify fun s => { s with due := s.due ++ [due] }
    return .mk descriptor direction []
  | _ =>
    match ← plainly i with
    | .word w =>
      pass
      return .mk descriptor direction w
    | t => unexpected t

/-- The redirections that follow a command. -/
def redirects (i : Inside) : Reading (List Redirect) := do
  many (do
    match ← leading i with
    | .redirect n d =>
      pass
      return some (← redirect i n d)
    | _ => return none) (← fuel)

/-- The commands that may not be defined anew. -/
def special : List String :=
  [".", ":", "break", "continue", "eval", "exec", "exit", "export", "local", "readonly", "return",
    "set", "shift", "times", "trap", "unset"]

/-- The definition of a command, after its name and an opening bracket. -/
def definition (i : Inside) (name : Word) : Reading Command := do
  match ← plainly i with
  | .operator ")" =>
    pass
    match Word.bare? name with
    | some s =>
      if !isName s || s ∈ special then fail "Bad function name"
      let line := (← get).line
      let _ ← further i
      return .define line s (← i.command)
    | none => fail "Bad function name"
  | t => misplaced t (.operator ")")

/-- The parts of a simple command: settings, words and redirections. -/
def simpleParts (i : Inside) (line : Nat) (settings : List (String × Word)) (words : List Word)
    (rs : List Redirect) : (fuel : Nat) → Reading Command
  | 0 => fail "too long"
  | fuel + 1 => do
    match ← look i false false words.isEmpty fuel with
    | .word w =>
      pass
      match if words.isEmpty then Word.setting? w else none with
      | some setting => simpleParts i line (setting :: settings) words rs fuel
      | none => simpleParts i line settings (w :: words) rs fuel
    | .redirect n d =>
      pass
      let r ← redirect i n d
      simpleParts i line settings words (r :: rs) fuel
    | .operator "(" =>
      match words, settings, rs with
      | [name], [], [] =>
        pass
        definition i name
      | _, _, _ => unexpected (.operator "(")
    | _ => return .simple line settings.reverse words.reverse rs.reverse

/-- A command that is made of words. -/
def simple (i : Inside) : Reading Command := do
  simpleParts i (← get).line [] [] [] (← fuel)

/-- A command, or several ones that are connected by pipes. -/
def pipeline (i : Inside) : Reading Command := do
  let stages : Reading Command := do
    let first ← i.command
    let more ← many (do
      match ← plainly i with
      | .operator "|" =>
        pass
        let _ ← further i
        return some (← i.command)
      | _ => return none) (← fuel)
    return if more.isEmpty then first else .pipe (first :: more)
  if ← accepts (← leading i) "!" then
    let _ ← leading i
    return .negate (← stages)
  else stages

/-- Pipelines, each of which depends on how the one before it has ended. -/
def chain (i : Inside) : Reading Command := do
  let first ← pipeline i
  let more ← many (do
    match ← plainly i with
    | .operator "&&" =>
      pass
      let _ ← further i
      return some (true, ← pipeline i)
    | .operator "||" =>
      pass
      let _ ← further i
      return some (false, ← pipeline i)
    | _ => return none) (← fuel)
  return more.foldl (fun c (onSuccess, next) => .follow onSuccess c next) first

/-- A chain with what separates it from the next one, and whether another one may follow. -/
def item (i : Inside) : Reading (Command × Bool) := do
  let c ← chain i
  match ← plainly i with
  | .operator "&" =>
    pass
    return (.background c, true)
  | .operator ";" =>
    pass
    return (c, true)
  | .newline => return (c, true)
  | _ => return (c, false)

/-- The token ends a list of commands. -/
def ends : Token → Bool
  | .keyword s => s ∈ Keyword.closing
  | .operator ")" => true
  | .operator ";;" => true
  | .ending => true
  | _ => false

/-- Commands up to what ends them, in reverse after those that are read. Where one is `required`,
there is at least one. -/
def listAfter (i : Inside) (read : List Command) (required : Bool) :
    (fuel : Nat) → Reading (List Command)
  | 0 => fail "too long"
  | fuel + 1 => do
    match ← further i with
    | .ending => return read.reverse
    | t =>
      if !required && ends t then return read.reverse
      let (c, more) ← item i
      if more then listAfter i (c :: read) false fuel else return (c :: read).reverse

/-- Commands up to what ends them. -/
def list (i : Inside) (required : Bool) : Reading (List Command) := do
  listAfter i [] required (← fuel)

/-- Commands inside others, at least one. -/
def body (i : Inside) : Reading Command := do
  return together (← list i true)

/-- What follows a condition that was looked for, up to the end. -/
def branches (i : Inside) : (fuel : Nat) → Reading Command
  | 0 => fail "too long"
  | fuel + 1 => do
    let condition ← body i
    demand "then" (← leading i)
    let thenBody ← body i
    let t ← leading i
    if ← accepts t "elif" then
      return .cond condition thenBody (← branches i fuel)
    else if ← accepts t "else" then
      let elseBody ← body i
      demand "fi" (← leading i)
      return .cond condition thenBody elseBody
    else
      demand "fi" t
      return .cond condition thenBody (.inTurn [])

/-- A loop over words, after its keyword. -/
def forEach (i : Inside) (line : Nat) : Reading Command := do
  let name ← match ← plainly i with
    | .word w =>
      match Word.bare? w with
      | some s => if isName s then pure s else fail "Bad for loop variable"
      | none => fail "Bad for loop variable"
    | _ => fail "Bad for loop variable"
  pass
  let t ← further i
  let words ← if ← accepts t "in" then do
      let words ← many (do
        match ← plainly i with
        | .word w =>
          pass
          return some w
        | _ => return none) (← fuel)
      match ← plainly i with
      | .newline => pass
      | .operator ";" => pass
      | t => unexpected t
      pure (some words)
    else do
      match t with
      | .operator ";" => pass
      | _ => pure ()
      pure none
  demand "do" (← further i)
  let commands ← body i
  demand "done" (← leading i)
  return .forEach line name words commands

/-- The word that a token of a pattern is. -/
def patternOf : Token → Word
  | .word w => w
  | .keyword s => s.toList.map (Part.plain · false)
  | _ => []

/-- The patterns of an arm up to a closing bracket. -/
def patterns (i : Inside) : (fuel : Nat) → Reading (List Word)
  | 0 => fail "too long"
  | fuel + 1 => do
    let w := patternOf (← plainly i)
    pass
    match ← plainly i with
    | .operator "|" =>
      pass
      return w :: (← patterns i fuel)
    | .operator ")" =>
      pass
      return [w]
    | t => misplaced t (.operator ")")

/-- The arms of a choice up to the keyword that ends them. -/
def arms (i : Inside) : (fuel : Nat) → Reading (List (List Word × Command))
  | 0 => fail "too long"
  | fuel + 1 => do
    let t ← look i true true false fuel
    if ← accepts t "esac" then return []
    match t with
    | .operator "(" => pass
    | _ => pure ()
    let ws ← patterns i fuel
    let commands := together (← list i false)
    let t ← look i true true false fuel
    if ← accepts t "esac" then return [(ws, commands)]
    match t with
    | .operator ";;" =>
      pass
      return (ws, commands) :: (← arms i fuel)
    | t => misplaced t (.operator ";;")

/-- A choice between patterns, after its keyword. -/
def choice (i : Inside) (line : Nat) : Reading Command := do
  match ← plainly i with
  | .word w =>
    pass
    demand "in" (← further i)
    return .choice line w (← arms i (← fuel))
  | t => misplaced t (.word [])

/-- A command with the redirections that follow it. -/
def withRedirects (i : Inside) (line : Nat) (c : Command) : Reading Command := do
  let rs ← redirects i
  match rs, c with
  | [], c => return c
  | rs, .subshell line inside _ => return .subshell line inside rs
  | rs, c => return .redirected line c rs

/-- A command that is no pipeline. -/
def command (i : Inside) : Reading Command := do
  let t ← leading i
  let line := (← get).line
  let closed (c : Command) (keyword : String) : Reading Command := do
    demand keyword (← leading i)
    withRedirects i line c
  match t with
  | .word _ => simple i
  | .redirect .. => simple i
  | .operator "(" =>
    pass
    let inside ← body i
    match ← leading i with
    | .operator ")" =>
      pass
      withRedirects i line (.subshell line inside [])
    | t => misplaced t (.operator ")")
  | .keyword "\x7b" =>
    pass
    closed (← body i) "\x7d"
  | .keyword "if" =>
    pass
    withRedirects i line (← branches i (← fuel))
  | .keyword "while" =>
    pass
    let condition ← body i
    demand "do" (← leading i)
    closed (.loop false condition (← body i)) "done"
  | .keyword "until" =>
    pass
    let condition ← body i
    demand "do" (← leading i)
    closed (.loop true condition (← body i)) "done"
  | .keyword "for" =>
    pass
    withRedirects i line (← forEach i line)
  | .keyword "case" =>
    pass
    withRedirects i line (← choice i line)
  | t => unexpected t

/-- The readers of what is nested at most `depth` deep. -/
def inside : (depth : Nat) → Inside
  | 0 => { command := fail "too deep", script := fail "too deep" }
  | depth + 1 =>
    let i := inside depth
    let c := command i
    { command := c, script := list { command := c, script := i.script } false }

/-- How deep commands may be nested. -/
def maxDepth : Nat :=
  150

/-- The commands of the next lines, in reverse after those that are read: nothing at the end of the
script. -/
def unitAfter (i : Inside) (read : List Command) : (fuel : Nat) → Reading (Option (List Command))
  | 0 => return none
  | fuel + 1 => do
    match ← leading i with
    | .newline =>
      pass
      return some read.reverse
    | .ending => return if read.isEmpty then none else some read.reverse
    | _ =>
      let (c, more) ← item i
      if more then unitAfter i (c :: read) fuel
      else match ← plainly i with
        | .ending => return some (c :: read).reverse
        | t => unexpected t

/-- The commands of the next line, or of as many lines as they take. -/
def unit : Reading (Option (List Command)) := do
  unitAfter (inside maxDepth) [] (← fuel)

end Grammar

end ShaderVariants.Script
