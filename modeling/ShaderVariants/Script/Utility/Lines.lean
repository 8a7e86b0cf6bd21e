import ShaderVariants.Script.Utility.Options

/-!
# Utilities for lines

Filters that choose, count, order and join the lines and characters of texts.
-/

namespace ShaderVariants.Script.Utility

/-- A text in front of which blanks are put up to a width. -/
def rightAligned (width : Nat) (s : String) : String :=
  String.ofList (List.replicate (width - s.length) ' ') ++ s

/-- A text after which blanks are put up to a width. -/
def leftAligned (width : Nat) (s : String) : String :=
  s ++ String.ofList (List.replicate (width - s.length) ' ')

/-! ## Showing texts -/

/-- How characters that do not show are shown. -/
structure Showing where
  ends : Bool := false
  tabs : Bool := false
  controls : Bool := false

/-- A character as it is shown. -/
def Showing.char (v : Showing) (c : Char) : List Char :=
  let low (n : Nat) : List Char :=
    if n < 32 then ['^', Char.ofNat (n + 64)] else if n = 127 then ['^', '?'] else [Char.ofNat n]
  if c = '\t' then if v.tabs then ['^', 'I'] else [c]
  else if !v.controls then [c]
  else if c.toNat < 128 then low c.toNat
  else 'M' :: '-' :: low (c.toNat - 128)

/-- The lines of which only one of several empty ones in a row is left. -/
def squeezed : List String → List String
  | "" :: "" :: rest => squeezed ("" :: rest)
  | l :: rest => l :: squeezed rest
  | [] => []

/-- Lines with numbers in front of them; empty ones may count or not. -/
def numbered (all : Bool) (blank : String) (n : Nat) : List String → List String
  | [] => []
  | l :: rest =>
    if all || !l.isEmpty then
      (rightAligned 6 (toString n) ++ "\t" ++ l) :: numbered all blank (n + 1) rest
    else (blank ++ l) :: numbered all blank n rest

/-- Print texts. -/
def cat : Utility :=
  withOptions {
    letters := "AbeEnstuTv"
    names := [("show-all", 'A'), ("number-nonblank", 'b'), ("show-ends", 'E'), ("number", 'n'),
      ("squeeze-blank", 's'), ("show-tabs", 'T'), ("show-nonprinting", 'v')] } fun tool g => do
    if g.options.all (·.1 = 'u') then
      return ← filtering id tool g.operands
    let (found, status) ← texts tool g.operands
    let text := String.join (found.map Prod.snd)
    let showing : Showing := {
      ends := g.has 'E' || g.has 'A' || g.has 'e', tabs := g.has 'T' || g.has 'A' || g.has 't'
      controls := g.has 'v' || g.has 'A' || g.has 'e' || g.has 't' }
    let (ls, ended) := lines text
    let ls := if g.has 's' then squeezed ls else ls
    let shown := ls.map fun l => String.ofList (l.toList.flatMap showing.char)
    let shown := if g.has 'b' then numbered false "" 1 shown
      else if g.has 'n' then numbered true "" 1 shown else shown
    let ending := if showing.ends then "$\n" else "\n"
    Run.print (ending.intercalate shown ++ if ended && !shown.isEmpty then ending else "")
    return status

/-- The number of lines or characters that are asked for, and a sign in front of it. -/
def amount? (s : String) : Option (Option Char × Nat) := do
  let (sign, cs) := match s.toList with
    | '-' :: cs => (some '-', cs)
    | '+' :: cs => (some '+', cs)
    | cs => (none, cs)
  let digits := cs.takeWhile Char.isDigit
  let n ← natural? (String.ofList digits)
  match String.ofList (cs.drop digits.length) with
  | "" => some (sign, n)
  | "b" => some (sign, n * 512)
  | "k" => some (sign, n * 1024)
  | "K" => some (sign, n * 1024)
  | "kB" => some (sign, n * 1000)
  | "M" => some (sign, n * 1048576)
  | _ => none

/-- Arguments where a number after a hyphen is the number of lines. -/
def withCount : List String → List String
  | arg :: rest =>
    match arg.toList with
    | '-' :: c :: cs => if c.isDigit then "-n" :: String.ofList (c :: cs) :: rest else arg :: rest
    | _ => arg :: rest
  | [] => []

/-- The names of the options of utilities that print a part of a text. -/
def partNames : List (String × Char) :=
  [("bytes", 'c'), ("lines", 'n'), ("quiet", 'q'), ("silent", 'q'), ("verbose", 'v'),
    ("zero-terminated", 'z')]

/-- Print a part of each text, under its name if there are several. -/
def printParts (tool : String) (g : Given) (cut : String → String) : Run Nat := do
  let titled := (g.operands.length > 1 && !g.has 'q') || g.has 'v'
  let (_, status) ← eachText 1 (unopened tool) g.operands "" fun gap name text => do
    let title := if name = "-" then "standard input" else name
    if titled then Run.print (gap ++ "==> " ++ title ++ " <==\n")
    Run.print (cut text)
    return ("\n", 0)
  return status

/-- What is asked for is no amount. -/
def badAmount (tool what s : String) : Run Nat := do
  complain tool ("invalid number of " ++ what ++ ": " ++ cited s)
  return 1

/-- The lines of a text, each with its end. -/
def endedLines (text : String) : List String :=
  let (ls, ended) := lines text
  match ls.reverse with
  | [] => []
  | last :: before => (before.reverse.map (· ++ "\n")) ++ [if ended then last ++ "\n" else last]

/-- Print the starts of texts. -/
def head : Utility := fun tool args =>
  withOptions { letters := "qvz", valued := "cn", names := partNames } (fun tool g => do
    let bytes := g.last? ['c', 'n'] = some 'c'
    let given := if bytes then g.value? 'c' else g.value? 'n'
    match amount? (given.getD "10") with
    | none => badAmount tool (if bytes then "bytes" else "lines") (given.getD "")
    | some (sign, n) =>
      printParts tool g fun text =>
        if bytes then
          let cs := text.toList
          String.ofList (if sign = some '-' then cs.take (cs.length - n) else cs.take n)
        else
          let ls := endedLines text
          String.join (if sign = some '-' then ls.take (ls.length - n) else ls.take n))
    tool (withCount args)

/-- Print the ends of texts. -/
def tail : Utility := fun tool args => do
  let short (arg : String) : Bool :=
    match arg.toList with
    | '-' :: c :: _ => c.isDigit
    | '+' :: c :: _ => c.isDigit
    | _ => false
  let counted : List String := match args with
    | arg :: rest =>
      if short arg && rest.length ≤ 1 then
        "-n" :: (if arg.startsWith "+" then arg else dropText 1 arg) :: rest
      else args
    | [] => []
  match counted.find? fun arg => short arg && arg.startsWith "-" && counted.head? = some arg with
  | some arg =>
    complain tool
      ("option used in invalid context -- " ++ String.ofList ((arg.toList.drop 1).take 1))
    return 1
  | none =>
    withOptions { letters := "fFqvz", valued := "cns", names := ("follow", 'f') :: partNames }
      (fun tool g => do
        let bytes := g.last? ['c', 'n'] = some 'c'
        let given := if bytes then g.value? 'c' else g.value? 'n'
        match amount? (given.getD "10") with
        | none => badAmount tool (if bytes then "bytes" else "lines") (given.getD "")
        | some (sign, n) =>
          if n = 0 && sign ≠ some '+' && !g.has 'f' then return 0
          let status ← printParts tool g fun text =>
            let part {α : Type} (items : List α) : List α :=
              if sign = some '+' then items.drop (n - 1) else items.drop (items.length - n)
            if bytes then String.ofList (part text.toList) else String.join (part (endedLines text))
          if g.has 'f' && status = 0 then Run.wait (Nat.pow 10 30)
          return status)
      tool counted

/-! ## Counting -/

/-- The longest line of a text: a tab ends at the next multiple of eight, and what does not show has
no width. -/
def longest (most here : Nat) : List Char → Nat
  | [] => max most here
  | c :: cs =>
    if c = '\n' ∨ c = '\r' ∨ c = '\x0c' then longest (max most here) 0 cs
    else if c = '\t' then longest most (here + 8 - here % 8) cs
    else longest most (if isVisible c then here + 1 else here) cs

/-- The number of words of a text. A word holds something that shows. -/
def wordCount (inside : Bool) : List Char → Nat
  | [] => if inside then 1 else 0
  | c :: cs =>
    if c = ' ' ∨ ('\t' ≤ c ∧ c ≤ '\r') then (if inside then 1 else 0) + wordCount false cs
    else wordCount (inside || isVisible c) cs

/-- What is counted in a text: lines, words, characters, bytes, and the longest line. -/
def counts (text : String) : List Nat :=
  let cs := text.toList
  [cs.count '\n', wordCount false cs, cs.length, cs.length, longest 0 0 cs]

/-- The counts of two texts together. -/
def countsTogether (a b : List Nat) : List Nat :=
  match a, b with
  | [l, w, m, c, x], [l', w', m', c', x'] => [l + l', w + w', m + m', c + c', max x x']
  | a, _ => a

/-- Count lines, words and characters. -/
def wc : Utility :=
  withOptions {
    letters := "clmLw"
    names := [("bytes", 'c'), ("lines", 'l'), ("chars", 'm'), ("words", 'w'),
      ("max-line-length", 'L')] } fun tool g => do
    let chosen := if g.options.isEmpty then [true, true, false, true, false]
      else ['l', 'w', 'm', 'c', 'L'].map g.has
    let files := if g.operands.isEmpty then ["-"] else g.operands
    let several := files.length > 1
    let store := (← get).store
    let waiting ← do
      match ← Run.channel? 0 with
      | some (_, .file ..) => pure (((← Run.peekInput 0).map String.length))
      | _ => pure none
    let size? (p : String) : Option (Option Nat) :=
      if p = "-" then some waiting
      else match store.find (Text.assembled p) true with
        | .ok ⟨_, some (.file content _)⟩ => some (some (bytesIn content).length)
        | .ok ⟨_, some _⟩ => some none
        | _ => none
    let sizes := files.filterMap size?
    let digits := (toString ((sizes.filterMap id).foldl (· + ·) 0)).length
    let width :=
      if (chosen.filter id).length = 1 && !several then 1
      else if sizes.all Option.isSome then digits else max 7 digits
    let row (ns : List Nat) (name : String) : String :=
      let shown := (chosen.zip ns).filterMap fun (on, n) =>
        if on then some (rightAligned width (toString n)) else none
      let name := if name.contains '\n' then named name else name
      " ".intercalate shown ++ (if name.isEmpty then "" else " " ++ name) ++ "\n"
    let none := [0, 0, 0, 0, 0]
    let (total, status) ← files.foldlM (fun (total, status) p => do
      let name := if g.operands.isEmpty then "" else p
      match ← textOf p with
      | .ok text =>
        let found := counts text
        Run.print (row found name)
        return (countsTogether total found, status)
      | .error e =>
        complain tool ((if p = "-" then "'standard input'" else named p) ++ ": " ++ refusal e)
        if e = .isDirectory then Run.print (row none name)
        return (total, 1)) (none, 0)
    if several then Run.print (row total "total")
    return status

end ShaderVariants.Script.Utility
