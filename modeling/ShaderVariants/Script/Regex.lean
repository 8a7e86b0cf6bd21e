import ShaderVariants.Script.Pattern

/-!
# Regular expressions

An expression is found at the leftmost place where it matches, and there as long as possible. It is
read in one of two notations: in the basic one brackets and repetitions are written with a
backslash, in the extended one without. Matching hands each way to match a part of an expression on
to what comes after it; the first way that leads to an end is taken, or, where there are
alternatives, the longest.
-/

namespace ShaderVariants.Script

/-- A regular expression. -/
inductive Regex where
  | nothing
  | char (t : CharTest)
  | seq (a b : Regex)
  | either (a b : Regex)
  | repeated (r : Regex) (least : Nat) (most : Option Nat)
  | group (n : Nat) (r : Regex)
  /-- What the group has matched before. -/
  | again (n : Nat)
  | lineStart
  | lineEnd
  /-- A place where a word starts or ends. -/
  | edge (start stop : Bool)
  | noEdge

namespace Regex

/-- A place in a text that is being matched. -/
structure Spot where
  before : Option Char := none
  rest : List Char
  place : Nat := 0
  /-- Where the groups start and end. -/
  groups : List (Nat × (Nat × Nat)) := []

/-- The best end so far, and whether further ones are looked for. -/
structure Search where
  best : Option Spot := none
  thorough : Bool

namespace Search

/-- Nothing more is looked for. -/
def isDone (f : Search) : Bool :=
  f.best.isSome && !f.thorough

/-- The search with another end. -/
def add (s : Spot) (f : Search) : Search :=
  match f.best with
  | some best => if best.place < s.place then { f with best := some s } else f
  | none => { f with best := some s }

end Search

/-- The ways on from a place. -/
abbrev Matcher := Spot → (Spot → Search → Search) → Search → Search

namespace Spot

/-- The place behind the next character. -/
def next (s : Spot) (c : Char) (cs : List Char) : Spot :=
  { s with before := some c, rest := cs, place := s.place + 1 }

/-- The place behind a text, if it comes next. -/
def after (s : Spot) : List Char → Option Spot
  | [] => some s
  | d :: ds => match s.rest with
    | c :: cs => if c = d then after (s.next c cs) ds else none
    | [] => none

/-- A character of words. -/
def isWord (c : Option Char) : Bool :=
  (c.map fun c => c.isAlphanum || c = '_').getD false

end Spot

/-- A character passes a test, in either case if they are the same. -/
def passes (folded : Bool) (t : CharTest) (c : Char) : Bool :=
  t.passes c || (folded && (t.passes c.toLower || t.passes c.toUpper))

/-- As many times as possible first. -/
def iterate (m : Matcher) : (fuel least : Nat) → (most : Option Nat) → Matcher
  | 0, least, _ => fun s k f => if least = 0 then k s f else f
  | fuel + 1, least, most => fun s k f =>
    let f := if most = some 0 then f
      else m s (fun t f =>
        if t.place = s.place && least = 0 then f
        else iterate m fuel (least - 1) (most.map (· - 1)) t k f) f
    if f.isDone then f else if least = 0 then k s f else f

/-- The ways that an expression matches in a text. -/
def matcher (folded : Bool) (text : List Char) : Regex → Matcher
  | nothing => fun s k f => k s f
  | char t => fun s k f => match s.rest with
    | c :: cs => if passes folded t c then k (s.next c cs) f else f
    | [] => f
  | seq a b => fun s k f => matcher folded text a s (fun s f => matcher folded text b s k f) f
  | either a b => fun s k f =>
    let f := matcher folded text a s k f
    if f.isDone then f else matcher folded text b s k f
  | repeated r least most => fun s k f =>
    iterate (matcher folded text r) (s.rest.length + least + 1) least most s k f
  | group n r => fun s k f =>
    matcher folded text r s (fun t f =>
      k { t with groups := (n, s.place, t.place) :: t.groups.filter (·.1 ≠ n) } f) f
  | again n => fun s k f =>
    match s.groups.lookup n with
    | some (start, stop) =>
      match s.after ((text.take stop).drop start) with
      | some s => k s f
      | none => f
    | none => f
  | lineStart => fun s k f => if s.place = 0 then k s f else f
  | lineEnd => fun s k f => if s.rest.isEmpty then k s f else f
  | edge start stop => fun s k f =>
    let (a, b) := (Spot.isWord s.before, Spot.isWord s.rest.head?)
    if (start && !a && b) || (stop && a && !b) then k s f else f
  | noEdge => fun s k f =>
    if Spot.isWord s.before = Spot.isWord s.rest.head? then k s f else f

/-- The expression has alternatives. -/
def hasChoice : Regex → Bool
  | seq a b => hasChoice a || hasChoice b
  | either _ _ => true
  | repeated r _ _ => hasChoice r
  | group _ r => hasChoice r
  | _ => false

/-- A place where an expression was found: its start, and its end with the groups. -/
structure Find where
  start : Nat
  stop : Nat
  groups : List (Nat × (Nat × Nat))

/-- The find at a place. -/
def findAt (folded : Bool) (text : List Char) (r : Regex) (s : Spot) : Option Find :=
  ((matcher folded text r s Search.add { thorough := r.hasChoice }).best).map fun stop =>
    ⟨s.place, stop.place, stop.groups⟩

/-- The first find at a place or behind it. -/
def findFrom (folded : Bool) (text : List Char) (r : Regex) (before : Option Char) (place : Nat) :
    List Char → Option Find
  | [] => findAt folded text r { before, rest := [], place }
  | c :: cs =>
    (findAt folded text r { before, rest := c :: cs, place }).or
      (findFrom folded text r (some c) (place + 1) cs)

/-- The first find in a text, at a place or behind it. -/
def find? (folded : Bool) (r : Regex) (text : List Char) (place : Nat) : Option Find :=
  let before := if place = 0 then none else text[place - 1]?
  findFrom folded text r before place (text.drop place)

/-- All finds that do not overlap; an empty one right behind another find does not count. -/
def findAll (folded : Bool) (r : Regex) (text : List Char) :
    (fuel place : Nat) → (last : Option Nat) → List Find
  | 0, _, _ => []
  | fuel + 1, place, last =>
    match find? folded r text place with
    | none => []
    | some f =>
      if f.start = f.stop then
        let more := findAll folded r text fuel (f.stop + 1) none
        let more := if text.length < f.stop + 1 then [] else more
        if last = some f.start then more else f :: more
      else f :: findAll folded r text fuel f.stop (some f.stop)

/-! ## Reading expressions -/

/-- What is left of the text of an expression, and how many groups it has so far. -/
structure Reader where
  rest : List Char
  groups : Nat := 0
  extended : Bool

/-- Reading an expression, or what is wrong with it. -/
abbrev Read := StateT Reader (Except String)

/-- The next characters are a sign, written with a backslash in the basic notation. It is passed
then. -/
def accept (c : Char) : Read Bool := do
  let r ← get
  let sign := if r.extended then [c] else ['\\', c]
  if sign.isPrefixOf r.rest then
    set { r with rest := r.rest.drop sign.length }
    return true
  return false

/-- The next characters are a sign. -/
def comes (c : Char) : Read Bool := do
  let r ← get
  return (if r.extended then [c] else ['\\', c]).isPrefixOf r.rest

/-- A test for characters of words. -/
def wordTest (negated : Bool) : CharTest :=
  .oneOf negated [('0', '9'), ('A', 'Z'), ('a', 'z'), ('_', '_')]

/-- What a backslash and a character mean. -/
def afterBackslash (c : Char) : Regex :=
  if c = 'n' then char (.literal '\n')
  else if c = 't' then char (.literal '\t')
  else if c = 'w' then char (wordTest false)
  else if c = 'W' then char (wordTest true)
  else if c = 's' then char (.oneOf false [('\t', '\r'), (' ', ' ')])
  else if c = 'S' then char (.oneOf true [('\t', '\r'), (' ', ' ')])
  else if c = 'b' then edge true true
  else if c = 'B' then noEdge
  else if c = '<' then edge true false
  else if c = '>' then edge false true
  else if c = '\x60' then lineStart
  else if c = '\'' then lineEnd
  else if '1' ≤ c ∧ c ≤ '9' then again (c.toNat - '0'.toNat)
  else char (.literal c)

/-- The bounds of a repetition, after the sign that opens them. -/
def bounds : Read (Nat × Option Nat) := do
  let r ← get
  let low := r.rest.takeWhile Char.isDigit
  let number (cs : List Char) := cs.foldl (fun n c => n * 10 + (c.toNat - '0'.toNat)) 0
  let rest := r.rest.drop low.length
  let (found, rest) := match rest with
    | ',' :: rest =>
      let high := rest.takeWhile Char.isDigit
      ((number low, if high.isEmpty then none else some (number high)), rest.drop high.length)
    | rest => ((number low, some (number low)), rest)
  set { r with rest }
  unless ← accept '\x7d' do throw "Unmatched \\\x7b"
  return found

/-- An expression with the repetitions that follow it. -/
def repetitions : (fuel : Nat) → Regex → Read Regex
  | 0, r => return r
  | fuel + 1, r => do
    let s ← get
    match s.rest with
    | '*' :: rest =>
      set { s with rest }
      repetitions fuel (repeated r 0 none)
    | _ =>
      if ← accept '+' then repetitions fuel (repeated r 1 none)
      else if ← accept '?' then repetitions fuel (repeated r 0 (some 1))
      else if ← accept '\x7b' then
        let (low, high) ← bounds
        repetitions fuel (repeated r low high)
      else return r

mutual

/-- Alternatives. -/
def alternatives : (fuel : Nat) → Read Regex
  | 0 => throw "Regular expression too big"
  | fuel + 1 => do
    let first ← sequence fuel true
    if ← accept '|' then return either first (← alternatives fuel) else return first

/-- Parts one after another, up to a sign that ends them. -/
def sequence : (fuel : Nat) → (first : Bool) → Read Regex
  | 0, _ => throw "Regular expression too big"
  | fuel + 1, first => do
    if (← get).rest.isEmpty || (← comes '|') || (← comes ')') then return nothing
    let part ← atom fuel first
    let part ← match part with
      | lineStart => pure part
      | part => repetitions fuel part
    return seq part (← sequence fuel false)

/-- A part without repetitions. -/
def atom : (fuel : Nat) → (first : Bool) → Read Regex
  | 0, _ => throw "Regular expression too big"
  | fuel + 1, first => do
    if ← accept '(' then
      let n := (← get).groups + 1
      modify fun s => { s with groups := n }
      let inside ← alternatives fuel
      unless ← accept ')' do throw "Unmatched ( or \\("
      return group n inside
    let s ← get
    match s.rest with
    | [] => return nothing
    | '.' :: rest =>
      set { s with rest }
      return char .any
    | '[' :: rest =>
      match Marked.set? '^' false (Marked.bare rest) with
      | some (t, rest) =>
        set { s with rest := rest.map Prod.fst }
        return char t
      | none => throw "Unmatched [, [^, [:, [., or [="
    | '^' :: rest =>
      set { s with rest }
      return if first || s.extended then lineStart else char (.literal '^')
    | '$' :: rest =>
      set { s with rest }
      let ends ← do
        let a ← comes '|'
        let b ← comes ')'
        pure (rest.isEmpty || a || b)
      return if ends || s.extended then lineEnd else char (.literal '$')
    | '\\' :: c :: rest =>
      set { s with rest }
      return afterBackslash c
    | ['\\'] => throw "Trailing backslash"
    | c :: rest =>
      set { s with rest }
      return char (.literal c)

end

/-- The expression that a text writes, in one of the notations, or what is wrong with it. -/
def ofChars (extended : Bool) (cs : List Char) : Except String Regex := do
  let (r, s) ← (alternatives (4 * cs.length + 8)).run { rest := cs, extended }
  unless s.rest.isEmpty do throw "Unmatched ) or \\)"
  return r

/-- The expression that is just a text. -/
def ofText (cs : List Char) : Regex :=
  cs.foldr (fun c r => seq (char (.literal c)) r) nothing

end Regex

end ShaderVariants.Script
