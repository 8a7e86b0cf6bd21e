import ShaderVariants.Script.Arithmetic
import ShaderVariants.Script.Pattern
import ShaderVariants.Script.Shell

/-!
# Inserting into words

The value of a parameter, what a script prints, or the value of an expression takes the place of
such a part of a word. The word is then a list of pieces, which are put together to one text, or cut
into fields: inserted text that is not quoted is cut at separators, and a field that is a pattern
stands for the paths that it matches.
-/

namespace ShaderVariants.Script

/-- A piece of a word after inserting. -/
inductive Piece where
  /-- A character of the word; one that is guarded means itself in a pattern. -/
  | char (c : Char) (guarded : Bool)
  /-- An inserted character, which may be a separator. -/
  | split (c : Char)
  /-- A pair of quotes: a field is here, even if it is empty. -/
  | mark
  /-- The end of one argument and the start of the next. -/
  | gap
deriving DecidableEq

namespace Piece

/-- Text that is inserted. -/
def ofText (quoted : Bool) (s : String) : List Piece :=
  s.toList.map fun c => if quoted then char c true else split c

/-- The characters of pieces that are not cut, and what is put at gaps. -/
def marked (joint : String) (pieces : List Piece) : Marked :=
  pieces.flatMap fun p => match p with
    | char c guarded => [(c, guarded)]
    | split c => [(c, false)]
    | mark => []
    | gap => joint.toList.map (·, false)

/-- The text of pieces that are not cut. -/
def text (joint : String) (pieces : List Piece) : String :=
  String.ofList ((marked joint pieces).map Prod.fst)

/-- The fields that pieces make, where `field` is the one under way, in reverse. Blanks that are
separators count as one, also together with another separator next to them: `blank` says that a
field has just ended at one. -/
def cut (separators : List Char) (field : Option Marked) (blank : Bool) :
    List Piece → List Marked
  | [] => (field.map List.reverse).toList
  | p :: ps =>
    let ended := (field.map List.reverse).toList
    match p with
    | char c guarded => cut separators (some ((c, guarded) :: field.getD [])) false ps
    | mark => cut separators (some (field.getD [])) false ps
    | gap => ended ++ cut separators none false ps
    | split c =>
      if c ∉ separators then cut separators (some ((c, false) :: field.getD [])) false ps
      else if c = ' ' ∨ c = '\t' ∨ c = '\n' then
        ended ++ cut separators none (blank || field.isSome) ps
      else match field with
        | some f => f.reverse :: cut separators none false ps
        | none => if blank then cut separators none false ps else [] :: cut separators none false ps

end Piece

namespace Part

/-- The part stands in quotes. -/
def isQuoted : Part → Bool
  | plain _ quoted => quoted
  | quotes => false
  | parameter _ _ _ quoted => quoted
  | output _ quoted => quoted
  | arithmetic _ quoted => quoted

end Part

namespace Word

/-- A word without the quotes around nothing but all arguments: where there is no argument, there is
no field. -/
def withoutLone : Word → Word
  | .quotes :: .parameter "@" .value [] true :: rest =>
    let lone := !((rest.head?).map Part.isQuoted).getD false
    (if lone then [] else [.quotes]) ++ .parameter "@" .value [] true :: withoutLone rest
  | p :: rest => p :: withoutLone rest
  | [] => []

/-- A word with the path of the home directory in the place of a tilde at its start, and, where it
is the value of a `setting`, also of one after a colon. -/
def withHome (home : String) (setting first : Bool) : Word → Word
  | [] => []
  | .plain '~' false :: rest =>
    let alone := match rest with
      | [] => true
      | .plain c false :: _ => c = '/' || (setting && c = ':')
      | _ => false
    if first && alone then home.toList.map (.plain · true) ++ withHome home setting false rest
    else .plain '~' false :: withHome home setting false rest
  | .plain ':' false :: rest => .plain ':' false :: withHome home setting setting rest
  | p :: rest => p :: withHome home setting false rest

/-- The text without the line breaks at its end and the characters that no text may hold. -/
def inserted (s : String) : String :=
  let cs := s.toList.filter (· ≠ '\x00')
  String.ofList (cs.reverse.dropWhile (· = '\n')).reverse

end Word

/-- The path that a text of a script is. -/
def pathOf (s : String) : Path :=
  Text.assembled s

namespace Glob

/-- The characters of a pattern, cut at slashes. -/
def segments : Marked → List Marked
  | [] => [[]]
  | (c, guarded) :: cs =>
    if c = '/' then [] :: segments cs
    else match segments cs with
      | [] => [[(c, guarded)]]
      | s :: ss => ((c, guarded) :: s) :: ss

/-- The names in a directory, in order. -/
def namesIn (s : Store) (dir : String) : List String :=
  match s.find (pathOf (if dir.isEmpty then "." else dir)) true with
  | .ok ⟨l, some .directory⟩ =>
    let names := (s.children l).map fun c => Text.bytewise c.1
    (["." , ".."] ++ names).mergeSort fun a b => decide (a ≤ b)
  | _ => []

/-- The names in a directory that a pattern matches. A point at the start of a name has to be
written. -/
def matching (s : Store) (dir : String) (pattern : Marked) : List String :=
  let parts := ofMarked pattern
  let dotted := (pattern.head?.map Prod.fst) == some '.'
  (namesIn s dir).filter fun name =>
    (dotted || !name.startsWith ".") && matchAll parts name.toList

/-- The paths that a pattern matches, after a path that ends in a slash. -/
def paths (s : Store) (before : String) : List Marked → List String
  | [] => []
  | [last] =>
    if isSpecial last then (matching s before last).map (before ++ ·)
    else
      let p := before ++ String.ofList (last.map Prod.fst)
      match s.find (pathOf p) false with
      | .ok ⟨_, some _⟩ => [p]
      | _ => []
  | segment :: rest =>
    if isSpecial segment then
      ((matching s before segment).filter fun name => s.isDirectory (pathOf (before ++ name)))
        |>.flatMap fun name => paths s (before ++ name ++ "/") rest
    else paths s (before ++ String.ofList (segment.map Prod.fst) ++ "/") rest

end Glob

namespace Run

/-- The value of a parameter that is no list of arguments. -/
def parameter? (name : String) : Run (Option String) := do
  match (← get).parameter? name with
  | some value => return value
  | none => valueOf? name

/-- The number that a variable is. -/
def number (name : String) : Run Int64 := do
  let s := (← parameter? name).getD ""
  if s.toList.all isSpace then return 0
  match wholeNumber? s with
  | some n => return Int64.ofInt n
  | none => fail ("Illegal number: " ++ s)

/-- The value of an expression. -/
def evaluated (text : String) : Run String := do
  let wrong {α : Type} (why : String) : Run α :=
    fail ("arithmetic expression: " ++ why ++ ": \"" ++ text ++ "\"")
  let (e, mistake) := Expression.ofText text
  let n ← e.eval {
    value := number
    assign := fun name n => setVariable name (toString n)
    divisionByZero := wrong "division by zero"
    misunderstood := wrong (mistake.getD "") }
  match mistake with
  | some why => wrong why
  | none => return toString n

/-- All arguments. -/
def allArguments (name : String) (quoted : Bool) : Run (List Piece) := do
  let args := (← get).arguments
  if name = "*" && quoted then return Piece.ofText true ((← joint).intercalate args)
  let one (s : String) := (if quoted then [Piece.mark] else []) ++ Piece.ofText quoted s
  return ((args.map one).intersperse [.gap]).flatten

end Run

namespace Word

open Run

/-- The pieces of a word. What scripts in it print is found by `output`, and characters of the word
itself are cut like inserted ones if `loose` holds. Words inside words are nested less than `depth`
deep. -/
def pieces (output : List Command → Run String) :
    (depth : Nat) → (loose : Bool) → Word → Run (List Piece)
  | 0, _, _ => return []
  | depth + 1, loose, w => do
    let found ← (withoutLone w).mapM fun part => do
      match part with
      | .plain c quoted =>
        return [if quoted then Piece.char c true else if loose then .split c else .char c false]
      | .quotes => return [Piece.mark]
      | .output body quoted => return Piece.ofText quoted (inserted (← output body))
      | .arithmetic e quoted =>
        let text := Piece.text " " (← pieces output depth false e)
        return Piece.ofText quoted (← evaluated text)
      | .parameter name form argument quoted =>
        let isList := name = "@" || name = "*"
        let value ← if isList then do
            let args := (← get).arguments
            let between ← joint
            pure (some (between.intercalate args))
          else parameter? name
        let given := value.getD ""
        let whole := if isList then allArguments name quoted
          else pure (Piece.ofText quoted given)
        let other := pieces output depth (!quoted) argument
        let missing (emptyToo : Bool) := value.isNone || (emptyToo && given.isEmpty)
        let demanded := do
          if value.isNone && !isList && (← option 'u') then
            fail (name ++ ": parameter not set")
        match form with
        | .value =>
          demanded
          whole
        | .length =>
          demanded
          return Piece.ofText quoted (toString given.length)
        | .cutFront longest =>
          demanded
          let glob := Glob.ofMarked (Piece.marked " " (← pieces output depth false argument))
          return Piece.ofText quoted (String.ofList (Glob.cutFront glob longest given.toList))
        | .cutBack longest =>
          demanded
          let glob := Glob.ofMarked (Piece.marked " " (← pieces output depth false argument))
          return Piece.ofText quoted (String.ofList (Glob.cutBack glob longest given.toList))
        | .orElse emptyToo => if missing emptyToo then other else whole
        | .ifSet emptyToo => if missing emptyToo then return [] else other
        | .assign emptyToo =>
          if missing emptyToo then
            if !isName name then fail (name ++ ": bad variable name")
            let text := Piece.text (← joint) (← pieces output depth false argument)
            setVariable name text
            return Piece.ofText quoted text
          else whole
        | .demand emptyToo =>
          if missing emptyToo then
            let text := Piece.text (← joint) (← pieces output depth false argument)
            let why := if argument.isEmpty then
                "parameter not set" ++ (if emptyToo then " or null" else "")
              else text
            fail (name ++ ": " ++ why)
          else whole
        | .unknown => fail "Bad substitution"
    return found.flatten

/-- How deep words may be nested in words when they are inserted. -/
def nesting : Nat :=
  100

/-- A word with the home directory for a tilde. -/
def atHome (setting : Bool) (w : Word) : Run Word := do
  match ← valueOf? "HOME" with
  | some home => return withHome home setting true w
  | none => return w

/-- A word as one text. -/
def text (output : List Command → Run String) (w : Word) : Run String := do
  let found ← pieces output nesting false (← atHome false w)
  return Piece.text (← joint) found

/-- The value of a setting. -/
def settingText (output : List Command → Run String) (w : Word) : Run String := do
  let found ← pieces output nesting false (← atHome true w)
  return Piece.text (← joint) found

/-- A text below its command. -/
def documentText (output : List Command → Run String) (w : Word) : Run String := do
  let found ← pieces output nesting false w
  return Piece.text (← joint) found

/-- A word as a pattern. -/
def pattern (output : List Command → Run String) (w : Word) : Run (List Glob) := do
  let found ← pieces output nesting false (← atHome false w)
  return Glob.ofMarked (Piece.marked (← joint) found)

/-- The paths that a field stands for, or the field itself. -/
def pathsOf (field : Marked) : Run (List String) := do
  let text := String.ofList (field.map Prod.fst)
  if (← option 'f') || !Glob.isSpecial field then return [text]
  let found := Glob.paths (← get).store "" (Glob.segments field)
  return if found.isEmpty then [text] else found

/-- The fields of a word. -/
def fields (output : List Command → Run String) (w : Word) : Run (List String) := do
  let found ← pieces output nesting false (← atHome false w)
  let cut := Piece.cut (← separators) none false found
  return (← cut.mapM pathsOf).flatten

end Word

end ShaderVariants.Script
