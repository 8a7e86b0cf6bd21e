/-!
# Patterns

A `Glob` is matched against a whole text: a star stands for any characters, a question mark for one,
and brackets for one of a set. In the text of a pattern a character may be guarded, by quotes or by
a backslash, and then stands for itself; so a pattern is read from characters with marks.
-/

namespace ShaderVariants.Script

/-- A test for one character. -/
inductive CharTest where
  | literal (c : Char)
  | any
  /-- One of the characters in the ranges, or none of them. -/
  | oneOf (negated : Bool) (ranges : List (Char × Char))
deriving DecidableEq

namespace CharTest

/-- The character passes the test. -/
def passes (t : CharTest) (c : Char) : Bool :=
  match t with
  | literal d => c = d
  | any => true
  | oneOf negated ranges => (ranges.any fun r => decide (r.1 ≤ c ∧ c ≤ r.2)) != negated

/-- The classes of characters that have names. -/
def classes : List (String × List (Char × Char)) := [
  ("alpha", [('A', 'Z'), ('a', 'z')]), ("digit", [('0', '9')]),
  ("alnum", [('0', '9'), ('A', 'Z'), ('a', 'z')]), ("upper", [('A', 'Z')]),
  ("lower", [('a', 'z')]), ("space", [('\t', '\r'), (' ', ' ')]),
  ("blank", [('\t', '\t'), (' ', ' ')]),
  ("punct", [('!', '/'), (':', '@'), ('[', '\x60'), ('\x7b', '~')]), ("print", [(' ', '~')]),
  ("graph", [('!', '~')]), ("cntrl", [('\x00', '\x1f'), ('\x7f', '\x7f')]),
  ("xdigit", [('0', '9'), ('A', 'F'), ('a', 'f')])]

end CharTest

/-- The characters of a pattern, each with whether it is guarded. -/
abbrev Marked := List (Char × Bool)

namespace Marked

/-- Characters of which none is guarded. -/
def bare (cs : List Char) : Marked :=
  cs.map (·, false)

/-- The class that is named at the start of a text, and what follows it. -/
def class? (cs : Marked) : Option (List (Char × Char) × Marked) :=
  match cs with
  | ('[', false) :: (':', false) :: rest =>
    let name := rest.takeWhile fun c => c.1.isAlpha
    match rest.drop name.length with
    | (':', false) :: (']', false) :: rest =>
      some (((CharTest.classes.lookup (String.ofList (name.map Prod.fst))).getD []), rest)
    | _ => none
  | _ => none

/-- The next character of a set and what follows it. Where `escapes` holds, a backslash guards the
character after it. -/
def member? (escapes : Bool) : Marked → Option (Char × Marked)
  | [] => none
  | ('\\', false) :: (c, _) :: rest =>
    if escapes then some (c, rest) else some ('\\', (c, false) :: rest)
  | (c, _) :: rest => some (c, rest)

/-- The ranges of a set up to its closing bracket, and what follows that. -/
def ranges? (escapes first : Bool) : (fuel : Nat) → Marked → Option (List (Char × Char) × Marked)
  | 0, _ => none
  | fuel + 1, cs =>
    if !first && cs.head? = some (']', false) then some ([], cs.tail)
    else match class? cs with
      | some (ranges, rest) =>
        (ranges? escapes false fuel rest).map fun (more, rest) => (ranges ++ more, rest)
      | none => do
        let (low, rest) ← member? escapes cs
        let (high, rest) := match rest with
          | ('-', false) :: (']', false) :: _ => (low, rest)
          | ('-', false) :: after => (member? escapes after).getD (low, rest)
          | _ => (low, rest)
        let (more, rest) ← ranges? escapes false fuel rest
        return ((low, high) :: more, rest)

/-- The set after an opening bracket, which is negated by a sign, and what follows it. -/
def set? (sign : Char) (escapes : Bool) (cs : Marked) : Option (CharTest × Marked) :=
  let (negated, cs) := match cs with
    | (c, false) :: rest => if c = sign then (true, rest) else (false, cs)
    | cs => (false, cs)
  (ranges? escapes true (cs.length + 1) cs).map fun (ranges, rest) => (.oneOf negated ranges, rest)

end Marked

/-- A part of a pattern: one character that passes a test, or any characters. -/
inductive Glob where
  | one (t : CharTest)
  | star
deriving DecidableEq

namespace Glob

/-- The parts of a pattern. -/
def parts : (fuel : Nat) → Marked → List Glob
  | 0, _ => []
  | _, [] => []
  | fuel + 1, (c, true) :: cs => one (.literal c) :: parts fuel cs
  | fuel + 1, (c, false) :: cs =>
    if c = '*' then star :: parts fuel cs
    else if c = '?' then one .any :: parts fuel cs
    else if c = '\\' then
      match cs with
      | (d, _) :: cs => one (.literal d) :: parts fuel cs
      | [] => [one (.literal c)]
    else if c = '[' then
      match Marked.set? '!' true cs with
      | some (t, rest) => one t :: parts fuel rest
      | none => one (.literal c) :: parts fuel cs
    else one (.literal c) :: parts fuel cs

/-- The pattern that characters with marks write. -/
def ofMarked (cs : Marked) : List Glob :=
  parts (cs.length + 1) cs

/-- The parts match a whole text. -/
def matchAll : List Glob → List Char → Bool
  | [], cs => cs.isEmpty
  | one _ :: _, [] => false
  | one t :: ps, c :: cs => t.passes c && matchAll ps cs
  | star :: ps, [] => matchAll ps []
  | star :: ps, c :: cs => matchAll ps (c :: cs) || matchAll (star :: ps) cs
termination_by ps cs => ps.length + cs.length

/-- The characters have a special meaning in a pattern. -/
def isSpecial (cs : Marked) : Bool :=
  cs.any fun c => !c.2 && (c.1 = '*' || c.1 = '?' || c.1 = '[')

/-- A text without the first of its starts, in the given order of lengths, that the parts match. -/
def cutFront (ps : List Glob) (longest : Bool) (cs : List Char) : List Char :=
  let lengths := List.range (cs.length + 1)
  match (if longest then lengths.reverse else lengths).find? fun n => matchAll ps (cs.take n) with
  | some n => cs.drop n
  | none => cs

/-- A text without the first of its ends, in the given order of lengths, that the parts match. -/
def cutBack (ps : List Glob) (longest : Bool) (cs : List Char) : List Char :=
  let lengths := List.range (cs.length + 1)
  match (if longest then lengths else lengths.reverse).find? fun n => matchAll ps (cs.drop n) with
  | some n => cs.take n
  | none => cs

end Glob

end ShaderVariants.Script
