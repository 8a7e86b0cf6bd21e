import ShaderVariants.Script.Regex
import ShaderVariants.Script.Utility.Fields

/-!
# Searching and computing

Printing the lines in which an expression is found, and computing with the words of a command line.
-/

namespace ShaderVariants.Script.Utility

/-! ## Searching -/

/-- What is searched for in a line. -/
structure Wanted where
  expressions : List Regex
  folded : Bool
  /-- Only whole words, or whole lines. -/
  words : Bool
  whole : Bool

namespace Wanted

/-- A find that counts. -/
def counts (w : Wanted) (text : List Char) (f : Regex.Find) : Bool :=
  let edge (c : Option Char) := !Regex.Spot.isWord c
  if w.whole then f.start = 0 && f.stop = text.length
  else if w.words then
    edge (if f.start = 0 then none else text[f.start - 1]?) && edge text[f.stop]?
  else true

/-- The first find at a place or behind it that counts. -/
def firstFrom (w : Wanted) (text : List Char) (r : Regex) : (fuel place : Nat) → Option Regex.Find
  | 0, _ => none
  | fuel + 1, place =>
    match Regex.find? w.folded r text place with
    | none => none
    | some f => if w.counts text f then some f
      else if text.length ≤ f.start then none
      else firstFrom w text r fuel (f.start + 1)

/-- The first and longest find of any expression at a place or behind it. -/
def first? (w : Wanted) (text : List Char) (place : Nat) : Option Regex.Find :=
  let finds := w.expressions.filterMap fun r => w.firstFrom text r (text.length + 2) place
  finds.foldl (fun best f => match best with
    | none => some f
    | some b =>
      if f.start < b.start || (f.start = b.start && b.stop < f.stop) then some f else some b) none

/-- All parts of a line that are found. -/
def all (w : Wanted) (text : List Char) : (fuel place : Nat) → List Regex.Find
  | 0, _ => []
  | fuel + 1, place =>
    match w.first? text place with
    | none => []
    | some f =>
      if f.start = f.stop then
        if text.length ≤ f.stop then [] else all w text fuel (f.stop + 1)
      else f :: all w text fuel f.stop

end Wanted

/-- Lines that are chosen, in groups with the lines around them: each line with its number and
whether it is chosen itself. -/
def surrounded (before after : Nat) (chosen : Nat → Bool) (ls : List String) :
    List (Nat × Bool × String) :=
  (ls.zipIdx.filter fun (_, i) =>
    (List.range (before + after + 1)).any fun d =>
      let j := i + before - d
      d ≤ i + before && j < ls.length && chosen j).map fun (l, i) => (i, chosen i, l)

/-- The options of searching. -/
def grepOptions : Known := {
  letters := "EFGPivywxclLqsnHhorRzabIU!", valued := "efmABC>", status := 2
  names := [("extended-regexp", 'E'), ("fixed-strings", 'F'), ("basic-regexp", 'G'),
    ("perl-regexp", 'P'), ("ignore-case", 'i'), ("invert-match", 'v'), ("word-regexp", 'w'),
    ("line-regexp", 'x'), ("count", 'c'), ("files-with-matches", 'l'),
    ("files-without-match", 'L'), ("quiet", 'q'), ("silent", 'q'), ("no-messages", 's'),
    ("line-number", 'n'), ("with-filename", 'H'), ("no-filename", 'h'), ("only-matching", 'o'),
    ("recursive", 'r'), ("null-data", 'z'), ("text", 'a'), ("regexp", 'e'), ("file", 'f'),
    ("max-count", 'm'), ("after-context", 'A'), ("before-context", 'B'), ("context", 'C'),
    ("color", '!'), ("colour", '!'), ("byte-offset", 'b'), ("include", '>')]
  optional := "!" }

/-- The files below a path, if it is a directory. -/
def filesBelow (s : Store) (p : String) : List String :=
  match s.find (Text.assembled p) true with
  | .ok ⟨l, some .directory⟩ =>
    let found := s.nodes.entries.filterMap fun (there, n) =>
      match n with
      | .file .. => (Location.below? l there).map fun names =>
        p ++ (if p.endsWith "/" then "" else "/") ++ Text.bytewise ("/".intercalate names)
      | _ => none
    found.mergeSort fun a b => decide (a ≤ b)
  | _ => [p]

/-- How to call the utility that searches. -/
def grepUsage (tool : String) : Run Unit := do
  Run.complain ("Usage: " ++ tool ++ " [OPTION]... PATTERNS [FILE]...\n")
  advise tool

/-- Print the lines of texts in which something is found. -/
def searchWith (kind : Option Char) : Utility := fun tool args => do
  match grepOptions.parse (args.length + 1) args with
  | .error e =>
    complain tool e.message
    grepUsage tool
    return 2
  | .ok g =>
    let given ← (g.options.filter fun o => o.1 = 'e' || o.1 = 'f').mapM fun (c, s) => do
      if c = 'e' then return .ok (s.splitOn "\n")
      return (← textOf s).map (fun text => (lines text).1) |>.mapError fun e => (s, e)
    match given.mapM id with
    | .error (p, e) =>
      complain tool (p ++ ": " ++ refusal e)
      return 2
    | .ok given =>
      let explicit := g.has 'e' || g.has 'f'
      match if explicit then some given.flatten else (g.operands.head?).map (·.splitOn "\n") with
      | none =>
        grepUsage tool
        return 2
      | some patterns =>
        let operands := if explicit then g.operands else g.operands.tail
        let kind := (g.last? ['E', 'F', 'G', 'P']).or kind
        let read (s : String) : Except String Regex :=
          if kind = some 'F' then .ok (.ofText s.toList)
          else Regex.ofChars (kind = some 'E' || kind = some 'P') s.toList
        match patterns.mapM read with
        | .error e =>
          complain tool e
          return 2
        | .ok expressions =>
          let wanted : Wanted := {
            expressions, folded := g.has 'i' || g.has 'y', words := g.has 'w', whole := g.has 'x' }
          let recursive := g.has 'r' || g.has 'R'
          let store := (← get).store
          let files := if recursive then
              (if operands.isEmpty then filesBelow store "." |>.map (dropText 2)
                else operands.flatMap (filesBelow store))
            else if operands.isEmpty then ["-"] else operands
          let titled := !g.has 'h' && (g.has 'H' || recursive || files.length > 1)
          let amount (c : Char) (other : Nat) : Nat :=
            ((g.value? c).bind natural?).getD other
          let around := amount 'C' 0
          let (before, after) := (amount 'B' around, amount 'A' around)
          let sayLines := ['q', 'l', 'L', 'c'].all (!g.has ·)
          let one (gap : Bool) (p text : String) : Run (Bool × Bool) := do
            let ls := (lines text).1
            let hits := ls.zipIdx.filterMap fun (l, i) =>
              if (wanted.first? l.toList 0).isSome != g.has 'v' then some i else none
            let hits := match (g.value? 'm').bind natural? with
              | some n => hits.take n
              | none => hits
            let name := if p = "-" then "(standard input)" else p
            let title (sign : String) := if titled then name ++ sign else ""
            let number (i : Nat) (sign : String) :=
              if g.has 'n' then toString (i + 1) ++ sign else ""
            Run.print (
              if g.has 'q' then ""
              else if g.has 'l' then if hits.isEmpty then "" else name ++ "\n"
              else if g.has 'L' then if hits.isEmpty then name ++ "\n" else ""
              else if g.has 'c' then title ":" ++ toString hits.length ++ "\n"
              else if g.has 'o' then
                String.join (hits.flatMap fun i =>
                  let l := (ls.getD i "").toList
                  if g.has 'v' then []
                  else (wanted.all l (l.length + 2) 0).map fun f =>
                    title ":" ++ number i ":" ++ String.ofList ((l.take f.stop).drop f.start)
                      ++ "\n")
              else
                let rows := surrounded before after hits.contains ls
                let gapped := rows.zipIdx.map fun ((i, hit, l), k) =>
                  let sign := if hit then ":" else "-"
                  let apart := match (if k = 0 then none else rows[k - 1]?) with
                    | some (j, _) => decide (j + 1 ≠ i)
                    | none => gap
                  (if before + after ≠ 0 && apart then "--\n" else "") ++ title sign
                    ++ number i sign ++ l ++ "\n"
                String.join gapped)
            return (gap || (sayLines && !hits.isEmpty), !hits.isEmpty)
          let wrong (p : String) (e : FileError) : Run Unit := do
            unless g.has 's' do complain tool (p ++ ": " ++ refusal e)
          let ((_, any), status) ← eachText 2 wrong files (false, false)
            (fun (gap, any) p text => do
              let (gap, hit) ← one gap p text
              return ((gap, any || hit), 0))
            fun (_, any) => any && g.has 'q'
          if g.has 'q' && any then return 0
          if status ≠ 0 then return status
          return if any then 0 else 1

/-- Print the lines of texts in which an expression is found. -/
def grep : Utility :=
  searchWith none

/-! ## Computing -/

namespace Computation

/-- Reading words, or what is wrong with them. -/
abbrev Read := StateT (List String) (Except String)

/-- The whole number that a text writes. -/
def integer? (s : String) : Option Int :=
  match s.toList with
  | '-' :: cs => (natural? (String.ofList cs)).map fun n => -(n : Int)
  | _ => (natural? s).map fun n => (n : Int)

/-- The number that a text has to write. -/
def integer (s : String) : Read Int :=
  match integer? s with
  | some n => return n
  | none => throw "non-integer argument"

/-- The text counts as false. -/
def isNull (s : String) : Bool :=
  s.isEmpty || integer? s = some 0

/-- What an expression finds at the start of a text: its group, or the length of the find. -/
def matched (s pattern : String) : Read String := do
  match Regex.ofChars false pattern.toList with
  | .error e => throw e
  | .ok r =>
    let text := s.toList
    let hasGroup := (pattern.splitOn "\\(").length > 1
    match Regex.findAt false text r { rest := text } with
    | none => return if hasGroup then "" else "0"
    | some f =>
      if hasGroup then
        let (start, stop) := (f.groups.lookup 1).getD (0, 0)
        return String.ofList ((text.take stop).drop start)
      else return toString f.stop

/-- The word that comes next, if it is one of some. -/
def accept (words : List String) : Read (Option String) := do
  match ← get with
  | w :: rest =>
    if words.contains w then
      set rest
      return some w
    return none
  | [] => return none

/-- The ranks of operators between values, the loosest first. -/
def ranks : List (List String) :=
  [["|"], ["&"], ["<", "<=", "=", "==", "!=", ">=", ">"], ["+", "-"], ["*", "/", "%"], [":"]]

/-- Two values combined. -/
def combine (sign a b : String) : Read String := do
  let truth (b : Bool) : String := if b then "1" else "0"
  if sign = "|" then return if !isNull a then a else if !isNull b then b else "0"
  else if sign = "&" then return if isNull a || isNull b then "0" else a
  else if sign = ":" then matched a b
  else if sign ∈ ["<", "<=", "=", "==", "!=", ">=", ">"] then
    let order := match integer? a, integer? b with
      | some m, some n => compare m n
      | _, _ => compare a b
    return truth (
      if sign = "<" then order.isLT else if sign = "<=" then order.isLE
      else if sign = ">" then order.isGT else if sign = ">=" then order.isGE
      else if sign = "!=" then order != .eq else order == .eq)
  else
    let m ← integer a
    let n ← integer b
    if sign = "+" then return toString (m + n)
    else if sign = "-" then return toString (m - n)
    else if sign = "*" then return toString (m * n)
    else if n = 0 then throw "division by zero"
    else if sign = "/" then return toString (Int.tdiv m n)
    else return toString (Int.tmod m n)

mutual

/-- A value of operators of the given ranks. -/
def ranked : (fuel : Nat) → (last : String) → List (List String) → Read String
  | 0, _, _ => throw "syntax error"
  | fuel + 1, last, [] => simple fuel last
  | fuel + 1, last, signs :: tighter => do
    let first ← ranked fuel last tighter
    rankedAfter fuel signs tighter first

/-- What follows the first value. -/
def rankedAfter : (fuel : Nat) → (signs : List String) → List (List String) → String → Read String
  | 0, _, _, value => return value
  | fuel + 1, signs, tighter, value => do
    match ← accept signs with
    | none => return value
    | some sign =>
      let next ← ranked fuel sign tighter
      rankedAfter fuel signs tighter (← combine sign value next)

/-- A value without operators: a word, a function of words, or an expression in brackets. -/
def simple : (fuel : Nat) → (last : String) → Read String
  | 0, _ => throw "syntax error"
  | fuel + 1, last => do
    match ← get with
    | [] => throw ("syntax error: missing argument after " ++ cited last)
    | w :: rest =>
      set rest
      if w = "(" then
        let value ← ranked fuel w ranks
        match ← get with
        | ")" :: rest =>
          set rest
          return value
        | other :: _ => throw ("syntax error: expecting ')' instead of " ++ cited other)
        | [] => throw ("syntax error: expecting ')' after " ++ cited value)
      else if w = ")" then throw "syntax error: unexpected ')'"
      else if w = "+" then
        match rest with
        | v :: rest =>
          set rest
          return v
        | [] => throw ("syntax error: missing argument after " ++ cited w)
      else if w = "length" then return toString (← simple fuel w).length
      else if w = "match" then
        let s ← simple fuel w
        matched s (← simple fuel w)
      else if w = "index" then
        let s ← simple fuel w
        let set ← simple fuel w
        return toString ((s.toList.findIdx? fun c => set.contains c).map (· + 1) |>.getD 0)
      else if w = "substr" then
        let s ← simple fuel w
        let start ← simple fuel w
        let size ← simple fuel w
        match integer? start, integer? size with
        | some i, some n =>
          if i < 1 ∨ n < 1 then return ""
          else return String.ofList ((s.toList.drop (i.toNat - 1)).take n.toNat)
        | _, _ => return ""
      else return w

end

/-- The value of words. -/
def ofWords (words : List String) : Except String String := do
  let (value, rest) ← (ranked (20 * words.length + 40) "" ranks).run words
  match rest with
  | [] => return value
  | w :: _ => throw ("syntax error: unexpected argument " ++ cited w)

end Computation

/-- Print the value of words. -/
def expr : Utility := fun tool args => do
  let args := if args.head? = some "--" then args.tail else args
  match args with
  | [] => lacking tool 2
  | args =>
    match Computation.ofWords args with
    | .ok value =>
      Run.print (value ++ "\n")
      return if Computation.isNull value then 1 else 0
    | .error e =>
      complain tool e
      return 2

end ShaderVariants.Script.Utility
