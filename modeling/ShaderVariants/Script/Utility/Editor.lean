import ShaderVariants.Script.Regex
import ShaderVariants.Script.Utility.Fields

/-!
# The line editor

An edit script is a list of edits, each for certain lines. The editor takes the lines of a text one
after another, does the edits on each, and prints what becomes of it. A script is first read into
`Edit`s; carrying them out is a function from lines to printed text.
-/

namespace ShaderVariants.Script.Utility

namespace Edit

/-- A line that is meant. -/
inductive Address where
  | line (n : Nat)
  /-- Every so many lines from one on. -/
  | step (first stride : Nat)
  | last
  /-- The lines in which an expression is found: the last one that was used, if none is given. -/
  | found (r : Option Regex) (folded : Bool)
  /-- So many lines after the first one. -/
  | after (n : Nat)
  /-- The next line whose number is a multiple. -/
  | multiple (n : Nat)

/-- A part of what replaces a find. -/
inductive Filling where
  | char (c : Char)
  | group (n : Nat)
  /-- The letters that follow are changed: all to upper or lower case, the next one only, or no
  longer. -/
  | letters (kind : Char)

/-- What an edit does. -/
inductive Act where
  | substitute (r : Option Regex) (folded : Bool) (filling : List Filling) (nth : Nat)
      (all print : Bool) (file : Option String)
  | exchangeChars (old new : List Char)
  | print (first : Bool)
  | delete (first : Bool)
  | append (text : String)
  | insert (text : String)
  | change (text : String)
  | next (join : Bool)
  | hold (join : Bool)
  | fetch (join : Bool)
  | exchange
  | number
  /-- Print the line with escapes for what does not show, cut at a width. -/
  | reveal (width : Nat)
  | nameFile
  | empty
  | quit (status : Nat) (silent : Bool)
  | read (file : String)
  | write (file : String)
  | label (name : String)
  /-- Go on at a label: always, or depending on whether something was replaced. -/
  | jump (condition : Option Bool) (name : String)
  | opening
  | closing

end Edit

/-- Something that is done on certain lines, or on all but these. -/
structure Edit where
  first : Option Edit.Address := none
  last : Option Edit.Address := none
  negated : Bool := false
  act : Edit.Act

namespace Edit

/-! ## Reading edit scripts -/

/-- Reading an edit script: what is left of it, and whether expressions are in the extended
notation. -/
abbrev Read := StateT (List Char) (ReaderT Bool (Except (String × Nat)))

namespace Read

/-- The script is wrong; what is left of it tells where. -/
def fail {α : Type} (message : String) : Read α := do
  throw (message, (← get).length)

/-- The next character. -/
def next : Read (Option Char) := do
  match ← get with
  | c :: cs =>
    set cs
    return some c
  | [] => return none

/-- Pass characters that satisfy a test. -/
def passing (test : Char → Bool) : Read (List Char) := do
  let cs := (← get).takeWhile test
  modify (·.drop cs.length)
  return cs

/-- Pass blanks. -/
def blanks : Read Unit := do
  let _ ← passing fun c => c = ' ' || c = '\t'

/-- The number that comes next. -/
def number : Read Nat := do
  return digitsValue 10 (← passing Char.isDigit)

end Read

open Read

/-- Where a character of an expression stands. -/
inductive Spot where
  | outside
  /-- At the start of a set in brackets, inside it, or in the name of a class. -/
  | start
  | inside
  | className
deriving DecidableEq

/-- Where the next character stands. -/
def Spot.next (expression : Bool) (c : Char) (following : Option Char) : Spot → Spot
  | outside => if expression && c = '[' then start else outside
  | start =>
    if c = '^' then start else if c = '[' && following = some ':' then className else inside
  | inside =>
    if c = ']' then outside else if c = '[' && following = some ':' then className else inside
  | className => if c = ':' && following = some ']' then start else className

/-- The characters up to a delimiter, and what follows it. A backslash takes the meaning of the
delimiter, and inside brackets neither has any where expressions are written. -/
def upTo (delimiter : Char) (expression : Bool) (spot : Spot) :
    List Char → Option (List Char × List Char)
  | [] => none
  | [c] => if c = delimiter && spot = .outside then some ([], []) else none
  | c :: d :: cs =>
    if spot = .outside && c = '\\' then
      (upTo delimiter expression spot cs).map fun (part, rest) =>
        ((if d = delimiter then [d] else ['\\', d]) ++ part, rest)
    else if c = delimiter && spot = .outside then some ([], d :: cs)
    else
      (upTo delimiter expression (spot.next expression c (some d)) (d :: cs)).map
        fun (part, rest) => (c :: part, rest)

/-- The character that is written behind a backslash by a letter or a number, and what follows
it. -/
def escape? : List Char → Option (Char × List Char)
  | [] => none
  | c :: cs =>
    let number (base size : Nat) : Option (Char × List Char) :=
      let digits := (cs.take size).takeWhile fun c => (digitValue? base c).isSome
      if digits.isEmpty then none
      else some (Char.ofNat (digitsValue base digits % 256), cs.drop digits.length)
    if c = 'x' then number 16 2
    else if c = 'o' then number 8 3
    else if c = 'd' then number 10 3
    else match ([('a', '\x07'), ('f', '\x0c'), ('n', '\n'), ('r', '\r'), ('t', '\t'),
        ('v', '\x0b')] : List (Char × Char)).lookup c with
      | some d => some (d, cs)
      | none => none

/-- A text with the characters that are written behind backslashes. -/
def controls : (fuel : Nat) → List Char → List Char
  | 0, cs => cs
  | _, [] => []
  | fuel + 1, '\\' :: c :: cs =>
    match escape? (c :: cs) with
    | some (d, rest) =>
      (if isVisible d && !d.isAlphanum then ['\\', d] else [d]) ++ controls fuel rest
    | none => '\\' :: c :: controls fuel cs
  | fuel + 1, c :: cs => c :: controls fuel cs

/-- The expression that characters write; there is none if there are no characters. -/
def expression (cs : List Char) : Read (Option Regex) := do
  if cs.isEmpty then return none
  match Regex.ofChars (← read) (controls cs.length cs) with
  | .ok r => return some r
  | .error e => fail e

/-- An address, if one comes next. -/
def address : Read (Option Address) := do
  let found (delimiter : Char) : Read (Option Address) := do
    match upTo delimiter true .outside (← get) with
    | none =>
      set ([] : List Char)
      fail "unterminated address regex"
    | some (part, rest) =>
      set rest
      let r ← expression part
      let flags ← passing (· = 'I')
      return some (.found r !flags.isEmpty)
  match ← get with
  | '$' :: cs =>
    set cs
    return some .last
  | '/' :: cs =>
    set cs
    found '/'
  | '\\' :: c :: cs =>
    set cs
    found c
  | '+' :: cs =>
    set cs
    return some (.after (← number))
  | '~' :: cs =>
    set cs
    return some (.multiple (← number))
  | c :: _ =>
    if c.isDigit then
      let n ← number
      match ← get with
      | '~' :: cs =>
        set cs
        return some (.step n (← number))
      | _ => return some (.line n)
    else return none
  | [] => return none

/-- What replaces a find, as it is written. -/
def fillings : (fuel : Nat) → List Char → List Filling
  | 0, _ => []
  | _, [] => []
  | fuel + 1, '\\' :: c :: cs =>
    if c.isDigit then .group (c.toNat - '0'.toNat) :: fillings fuel cs
    else if c = 'U' ∨ c = 'L' ∨ c = 'u' ∨ c = 'l' ∨ c = 'E' then .letters c :: fillings fuel cs
    else match escape? (c :: cs) with
      | some (d, rest) => .char d :: fillings fuel rest
      | none => .char c :: fillings fuel cs
  | fuel + 1, '&' :: cs => .group 0 :: fillings fuel cs
  | fuel + 1, c :: cs => .char c :: fillings fuel cs

/-- The number of groups in an expression. -/
def groupsIn : Regex → Nat
  | .seq a b => groupsIn a + groupsIn b
  | .either a b => groupsIn a + groupsIn b
  | .repeated r _ _ => groupsIn r
  | .group _ r => groupsIn r + 1
  | _ => 0

/-- The rest of the line: the name of a file or a label. -/
def restOfLine : Read String := do
  blanks
  return String.ofList (← passing (· ≠ '\n'))

/-- The rest of the line, which names a file. -/
def fileName : Read String := do
  let name ← restOfLine
  if name.isEmpty then fail "missing filename in r/R/w/W commands"
  return name

/-- The flags of a replacement. -/
structure Flags where
  nth : Nat := 1
  all : Bool := false
  print : Bool := false
  folded : Bool := false
  file : Option String := none

/-- Read flags. -/
def flags (f : Flags) : (fuel : Nat) → Read Flags
  | 0 => return f
  | fuel + 1 => do
    match ← get with
    | c :: cs =>
      if c = 'g' then
        set cs
        if f.all then fail "multiple \x60g' options to \x60s' command"
        flags { f with all := true } fuel
      else if c = 'p' then
        set cs
        if f.print then fail "multiple \x60p' options to \x60s' command"
        flags { f with print := true } fuel
      else if c = 'i' ∨ c = 'I' then
        set cs
        flags { f with folded := true } fuel
      else if c = 'm' ∨ c = 'M' then
        set cs
        flags f fuel
      else if c.isDigit then
        let n ← number
        if n = 0 then fail "number option to \x60s' command may not be zero"
        flags { f with nth := n } fuel
      else if c = 'w' then
        set cs
        return { f with file := some (← fileName) }
      else if c = ';' ∨ c = '\n' ∨ c = '\x7d' ∨ c = '#' ∨ c = ' ' ∨ c = '\t' then return f
      else
        set cs
        fail "unknown option to \x60s'"
    | [] => return f

/-- A replacement, after its letter. -/
def substitution : Read Act := do
  let unterminated {α : Type} : Read α := do
    set ([] : List Char)
    fail "unterminated \x60s' command"
  match ← next with
  | none => unterminated
  | some delimiter =>
    match upTo delimiter true .outside (← get) with
    | none => unterminated
    | some (what, rest) =>
      match upTo delimiter false .outside rest with
      | none => unterminated
      | some (other, rest) =>
        set rest
        let f ← flags {} 20
        let r ← expression what
        let filling := fillings other.length other
        let highest := filling.foldl (fun n p => match p with
          | .group m => max n m
          | _ => n) 0
        if let some r := r then
          if groupsIn r < highest then
            fail ("invalid reference \\" ++ toString highest ++ " on \x60s' command's RHS")
        return .substitute r f.folded filling f.nth f.all f.print f.file

/-- A replacement of single characters, after its letter. -/
def transliteration : Read Act := do
  let unterminated {α : Type} : Read α := do
    set ([] : List Char)
    fail "unterminated \x60y' command"
  let rec plain : List Char → List Char
    | '\\' :: 'n' :: cs => '\n' :: plain cs
    | '\\' :: 't' :: cs => '\t' :: plain cs
    | '\\' :: c :: cs => c :: plain cs
    | c :: cs => c :: plain cs
    | [] => []
  match ← next with
  | none => unterminated
  | some delimiter =>
    match upTo delimiter false .outside (← get) with
    | none => unterminated
    | some (a, rest) =>
      match upTo delimiter false .outside rest with
      | none => unterminated
      | some (b, rest) =>
        set rest
        if (plain a).length ≠ (plain b).length then
          fail "strings for \x60y' command are different lengths"
        return .exchangeChars (plain a) (plain b)

/-- A text up to the end of the line; a backslash takes the meaning of what is behind it, or writes
a character. -/
def textLine : (fuel : Nat) → List Char → List Char × List Char
  | 0, cs => ([], cs)
  | _, [] => ([], [])
  | fuel + 1, '\\' :: c :: cs =>
    let (d, rest) := (escape? (c :: cs)).getD (c, cs)
    let (text, rest) := textLine fuel rest
    (d :: text, rest)
  | fuel + 1, c :: cs =>
    if c = '\n' then ([], '\n' :: cs)
    else
      let (text, rest) := textLine fuel cs
      (c :: text, rest)

/-- The text of an edit that adds lines; none if there is only a backslash. -/
def addedText : Read String := do
  blanks
  let (begun, cs) := match ← get with
    | '\\' :: '\n' :: cs => (true, cs)
    | '\\' :: cs => (true, cs)
    | cs => (false, cs)
  set cs
  if cs.isEmpty && !begun then fail "expected \\ after \x60a', \x60c' or \x60i'"
  let (text, rest) := textLine cs.length cs
  set rest
  return if cs.isEmpty then "" else String.ofList text ++ "\n"

/-- The name of a label. -/
def labelName : Read String := do
  blanks
  return String.ofList (← passing fun c => c ≠ '\n' && c ≠ ';' && c ≠ ' ' && c ≠ '\x7d')

/-- What the letter of an edit asks for. -/
def actOf (c : Char) : Read Act := do
  match c with
  | 's' => substitution
  | 'y' => transliteration
  | 'p' => return .print false
  | 'P' => return .print true
  | 'd' => return .delete false
  | 'D' => return .delete true
  | 'a' => return .append (← addedText)
  | 'i' => return .insert (← addedText)
  | 'c' => return .change (← addedText)
  | 'n' => return .next false
  | 'N' => return .next true
  | 'h' => return .hold false
  | 'H' => return .hold true
  | 'g' => return .fetch false
  | 'G' => return .fetch true
  | 'x' => return .exchange
  | '=' => return .number
  | 'q' =>
    blanks
    return .quit (← number) false
  | 'Q' =>
    blanks
    return .quit (← number) true
  | 'l' =>
    blanks
    let digits ← passing Char.isDigit
    return .reveal (if digits.isEmpty then 70 else digitsValue 10 digits)
  | 'F' => return .nameFile
  | 'z' => return .empty
  | 'r' => return .read (← fileName)
  | 'w' => return .write (← fileName)
  | ':' =>
    blanks
    let name := String.ofList (← passing fun c => c ≠ '\n' && c ≠ ';')
    if name.isEmpty then fail "\":\" lacks a label"
    return .label name
  | 'b' => return .jump none (← labelName)
  | 't' => return .jump (some true) (← labelName)
  | 'T' => return .jump (some false) (← labelName)
  | '\x7b' => return .opening
  | '\x7d' => return .closing
  | c => fail ("unknown command: \x60" ++ String.singleton c ++ "'")

/-- Nothing but a separator may follow an edit. -/
def separator (a : Act) : Read Unit := do
  match a with
  | .opening => pure ()
  | _ =>
    blanks
    match ← get with
    | [] => pure ()
    | c :: cs =>
      if c = ';' ∨ c = '\n' then set cs
      else if c = '\x7d' ∨ c = '#' then pure ()
      else
        set cs
        fail "extra characters after command"

/-- The edits of a script, inside so many opened brackets. -/
def edits : (fuel depth : Nat) → Read (List Edit)
  | 0, _ => return []
  | fuel + 1, depth => do
    let _ ← passing fun c => c = ' ' || c = '\t' || c = '\n' || c = ';'
    match ← get with
    | [] =>
      if depth ≠ 0 then throw ("unmatched \x60\x7b'", 0)
      return []
    | '#' :: _ =>
      let _ ← passing (· ≠ '\n')
      edits fuel depth
    | _ =>
      let first ← address
      blanks
      let last ← match first, ← get with
        | some _, ',' :: cs => do
          set cs
          blanks
          match ← address with
          | some a => pure (some a)
          | none => fail "unexpected \x60,'"
        | _, _ => pure none
      let early : Bool := match first, last with
        | some (.line 0), some (.found ..) => false
        | some (.line 0), _ => true
        | _, _ => false
      if first matches some (.after _) | some (.multiple _) then
        fail "invalid usage of +N or ~N as first address"
      blanks
      let marks ← passing fun c => c = '!' || c = ' '
      if 1 < marks.count '!' then fail "multiple \x60!'s"
      match ← next with
      | none => fail "missing command"
      | some c =>
        if early then fail "invalid usage of line address 0"
        if c = ':' && first.isSome then fail ": doesn't want any addresses"
        if (c = 'q' || c = 'Q') && last.isSome then fail "command only uses one address"
        let a ← actOf c
        let depth ← match a, depth with
          | .opening, _ => pure (depth + 1)
          | .closing, 0 => fail "unexpected \x60\x7d'"
          | .closing, depth + 1 => pure depth
          | _, _ => pure depth
        separator a
        return { first, last, negated := marks.contains '!', act := a } :: (← edits fuel depth)

/-- The edits that a text writes, or what is wrong with it and where. -/
def ofText (extended : Bool) (s : String) : Except (String × Nat) (List Edit) :=
  match ((edits (2 * s.length + 10) 0).run s.toList).run extended with
  | .ok (es, _) => .ok es
  | .error (message, left) =>
    .error (message, if message.startsWith "unmatched" then 0 else s.length - left)

/-! ## Carrying out edits -/

/-- What is printed after a line. -/
inductive Due where
  | text (s : String)
  /-- What a file holds. -/
  | file (p : String)

/-- A line that is to be edited, whether it is ended, and the file that it is from. -/
structure Line where
  text : String
  ended : Bool
  file : String

/-- Where the editor is. -/
structure Editor where
  /-- The line that is worked on, and whether it is ended. -/
  line : List Char := []
  ended : Bool := true
  kept : List Char := []
  number : Nat := 0
  /-- The lines that follow. -/
  rest : List Line
  /-- The ranges of lines that the editor is in, by edit: the number of the last line, if it is
  known. -/
  ranges : List (Nat × Option Nat) := []
  replaced : Bool := false
  latest : Option Regex := none
  printed : String := ""
  /-- The last line that was printed is not ended. -/
  unended : Bool := false
  due : List Due := []
  /-- What was written into files: lines, and whether each is ended. -/
  written : List (String × String × Bool) := []
  status : Option Nat := none
  /-- The name of the file that the line is from. -/
  file : String := "-"

/-- Working with the editor. -/
abbrev Work := StateM Editor

/-- How the work on a line goes on. -/
inductive Course where
  | on
  /-- The next line, and this one is printed or not. -/
  | done (printing : Bool)
  /-- The same line from the first edit on. -/
  | again
  | jump (name : String)
deriving DecidableEq

namespace Work

/-- Print a text. -/
def emit (text : String) (ended : Bool) : Work Unit :=
  modify fun e => { e with
    printed := e.printed ++ (if e.unended then "\n" else "") ++ text ++ (if ended then "\n" else "")
    unended := !ended }

/-- End the last line that was printed. -/
def emitEnd : Work Unit :=
  modify fun e => { e with
    printed := e.printed ++ (if e.unended then "\n" else ""), unended := false }

/-- Print the line. -/
def emitLine (cs : List Char) : Work Unit := do
  emit (String.ofList cs) (← get).ended

/-- Print what is due after the line. -/
def finish (fileText : String → String) : Work Unit := do
  let e ← get
  set { e with due := [] }
  for d in e.due do
    emitEnd
    match d with
    | .text text => unless text.isEmpty do emit (String.ofList text.toList.dropLast) true
    | .file file =>
      let text := fileText file
      unless text.isEmpty do
        let (ls, ended) := lines text
        emit ("\n".intercalate ls) ended

/-- The expression that is meant. -/
def meant (r : Option Regex) : Work Regex := do
  match r with
  | some r =>
    modify fun e => { e with latest := some r }
    return r
  | none => return (← get).latest.getD .nothing

/-- The line is meant by an address. -/
def hits (a : Address) : Work Bool := do
  let e ← get
  match a with
  | .line n => return e.number = n
  | .step first 0 => return e.number = first
  | .step first (stride + 1) => return first ≤ e.number && (e.number - first) % (stride + 1) = 0
  | .last => return e.rest.isEmpty
  | .found r folded => return (Regex.find? folded (← meant r) e.line 0).isSome
  | .after _ => return false
  | .multiple _ => return false

/-- Leave a range of lines. -/
def leave (id : Nat) : Work Unit :=
  modify fun e => { e with ranges := e.ranges.filter (·.1 ≠ id) }

/-- Be in a range of lines. -/
def enter (id : Nat) (stop : Option Nat) : Work Unit := do
  leave id
  modify fun e => { e with ranges := (id, stop) :: e.ranges }

/-- The edit is for the line. -/
def applies (id : Nat) (edit : Edit) : Work Bool := do
  let chosen ← match edit.first, edit.last with
    | none, _ => pure true
    | some a, none => hits a
    | some a, some b => do
      let e ← get
      let here := e.number
      match if a matches .line 0 && here = 1 && (e.ranges.lookup id).isNone then some none
          else e.ranges.lookup id with
      | some (some stop) =>
        if stop ≤ here then leave id
        pure (here ≤ stop)
      | some none =>
        enter id none
        if ← hits b then leave id
        pure true
      | none =>
        if ← hits a then
          match b with
          | .line n => if here < n then enter id (some n)
          | .after n => if 0 < n then enter id (some (here + n))
          | .multiple n => if here % n ≠ 0 then enter id (some (here + n - here % n))
          | .last => unless e.rest.isEmpty do enter id none
          | _ => enter id none
          pure true
        else pure false
  return chosen != edit.negated

/-- The letters of a text changed as is asked for. -/
def lettered (kind : Option Char) (c : Char) : Char :=
  match kind with
  | some 'U' => c.toUpper
  | some 'L' => c.toLower
  | _ => c

/-- What replaces a find in a text. -/
def filled (text : List Char) (f : Regex.Find) (kind one : Option Char) :
    List Filling → List Char
  | [] => []
  | p :: ps =>
    match p with
    | .letters 'E' => filled text f none none ps
    | .letters 'u' => filled text f kind (some 'U') ps
    | .letters 'l' => filled text f kind (some 'L') ps
    | .letters k => filled text f (some k) none ps
    | .char c => lettered (one.or kind) c :: filled text f kind none ps
    | .group n =>
      let (start, stop) := if n = 0 then (f.start, f.stop) else (f.groups.lookup n).getD (0, 0)
      match (text.take stop).drop start with
      | [] => filled text f kind one ps
      | c :: cs =>
        lettered (one.or kind) c :: cs.map (lettered kind) ++ filled text f kind none ps

/-- A text with finds replaced, from a place on. -/
def replaced (text : List Char) (filling : List Filling) (place : Nat) :
    List Regex.Find → List Char
  | [] => text.drop place
  | f :: fs =>
    (text.take f.start).drop place ++ filled text f none none filling
      ++ replaced text filling f.stop fs

/-- A line with escapes for what does not show, cut into pieces below a width. A width of zero or
one is none. -/
def revealed (width : Nat) (cs : List Char) : List Char :=
  let shown (c : Char) : List Char :=
    if c = '\\' then ['\\', '\\'] else if isVisible c then [c] else escapeOf c
  let (text, _) := cs.foldl (fun (text, column) c =>
    let piece := shown c
    if 1 < width && width - 1 < column + piece.length then
      (text ++ '\\' :: '\n' :: piece, piece.length)
    else (text ++ piece, column + piece.length)) (([] : List Char), 0)
  text ++ ['$']

/-- Take the next line, which replaces the one that is worked on or is joined to it. -/
def advance (join : Bool) : Work Unit :=
  modify fun e => match e.rest with
    | l :: rest => { e with
      line := if join then e.line ++ '\n' :: l.text.toList else l.text.toList
      ended := l.ended, file := l.file, rest, number := e.number + 1 }
    | [] => e

/-- Do an edit. -/
def perform (quiet : Bool) (fileText : String → String) (edit : Edit) : Work Course := do
  let e ← get
  match edit.act with
  | .substitute r folded filling nth all print file =>
    let r ← meant r
    let finds := (Regex.findAll folded r e.line (e.line.length + 2) 0 none).drop (nth - 1)
    let finds := if all then finds else finds.take 1
    if finds.isEmpty then return .on
    modify fun e => { e with line := replaced e.line filling 0 finds, replaced := true }
    if print then emitLine (← get).line
    if let some file := file then
      modify fun e => { e with
        written := e.written ++ [(file, String.ofList e.line, e.ended)] }
    return .on
  | .exchangeChars a b =>
    set { e with line := e.line.map fun c => match a.findIdx? (· = c) with
      | some i => b.getD i c
      | none => c }
    return .on
  | .print first =>
    if first then emit (String.ofList (e.line.takeWhile (· ≠ '\n'))) true else emitLine e.line
    return .on
  | .delete false => return .done false
  | .delete true =>
    if e.line.contains '\n' then
      set { e with line := (e.line.dropWhile (· ≠ '\n')).tail }
      return .again
    else return .done false
  | .append text =>
    set { e with due := e.due ++ [Due.text text] }
    return .on
  | .insert text =>
    unless text.isEmpty do emit (String.ofList text.toList.dropLast) true
    return .on
  | .change text =>
    let within := edit.last.isSome && !edit.negated && e.ranges != [] && !e.rest.isEmpty
    unless within do emit (String.ofList text.toList.dropLast) true
    return .done false
  | .next join =>
    if e.rest.isEmpty then return .done true
    if !join && !quiet then emitLine e.line
    finish fileText
    advance join
    return .on
  | .hold join =>
    set { e with kept := if join then e.kept ++ '\n' :: e.line else e.line }
    return .on
  | .fetch join =>
    set { e with line := if join then e.line ++ '\n' :: e.kept else e.kept }
    return .on
  | .exchange =>
    set { e with line := e.kept, kept := e.line }
    return .on
  | .number =>
    emit (toString e.number) true
    return .on
  | .reveal width =>
    emit (String.ofList (revealed width e.line)) true
    return .on
  | .nameFile =>
    emit e.file true
    return .on
  | .empty =>
    set { e with line := [] }
    return .on
  | .quit status silent =>
    set { e with status := some status }
    return .done !silent
  | .read file =>
    set { e with due := e.due ++ [Due.file file] }
    return .on
  | .write file =>
    set { e with written := e.written ++ [(file, String.ofList e.line, e.ended)] }
    return .on
  | .jump condition name =>
    match condition with
    | none => return .jump name
    | some wanted =>
      set { e with replaced := false }
      return if e.replaced = wanted then .jump name else .on
  | _ => return .on

/-- The edits behind the bracket that closes an opened one. -/
def afterBlock (depth : Nat) : List (Nat × Edit) → List (Nat × Edit)
  | [] => []
  | (_, edit) :: rest =>
    match edit.act, depth with
    | .opening, depth => afterBlock (depth + 1) rest
    | .closing, 0 => rest
    | .closing, depth + 1 => afterBlock depth rest
    | _, depth => afterBlock depth rest

/-- The edits behind a label; none if it is the empty one. -/
def afterLabel (name : String) (all : List (Nat × Edit)) : List (Nat × Edit) :=
  if name.isEmpty then []
  else (all.dropWhile fun (_, edit) => match edit.act with
    | .label other => other ≠ name
    | _ => true).tail

/-- Do edits on the line. The answer says whether it is printed, or worked on once more. -/
def run (quiet : Bool) (fileText : String → String) (all : List (Nat × Edit)) :
    (fuel : Nat) → List (Nat × Edit) → Work Course
  | 0, _ => return .done false
  | _, [] => return .done true
  | fuel + 1, (id, edit) :: rest => do
    if ← applies id edit then
      match ← perform quiet fileText edit with
      | .on => run quiet fileText all fuel rest
      | .jump name => run quiet fileText all fuel (afterLabel name all)
      | course => return course
    else match edit.act with
      | .opening => run quiet fileText all fuel (afterBlock 0 rest)
      | _ => run quiet fileText all fuel rest

/-- Work on lines, as long as there are any. `fresh` says that the next line is taken first. -/
def workLines (quiet : Bool) (fileText : String → String) (all : List (Nat × Edit)) :
    (fuel : Nat) → (fresh : Bool) → Work Unit
  | 0, _ => pure ()
  | fuel + 1, fresh => do
    if fresh && (← get).rest.isEmpty then return
    if fresh then advance false
    modify fun e => { e with replaced := false }
    let course ← run quiet fileText all 10000 all
    if course = .done true && !quiet then emitLine (← get).line
    finish fileText
    if (← get).status.isNone then workLines quiet fileText all fuel (course ≠ .again)

end Work

/-- What is printed, and what else comes of it, when edits are done on lines. -/
def carryOut (quiet : Bool) (fileText : String → String) (es : List Edit)
    (ls : List Line) : Editor :=
  let all := es.zipIdx.map fun (e, i) => (i, e)
  (Work.workLines quiet fileText all (20 * ls.length + 1000) true
    { rest := ls : Editor }).2

/-- The number of the part of a script in which a place is, and the place in it. -/
def inPart : List String → (number place : Nat) → Nat × Nat
  | part :: next :: rest, number, place =>
    if place ≤ part.length then (number, place)
    else inPart (next :: rest) (number + 1) (place - (part.length + 1))
  | _, number, place => (number, place)

/-- The files that edits write. -/
def filesIn (es : List Edit) : List String :=
  (es.filterMap fun e => match e.act with
    | .write file => some file
    | .substitute _ _ _ _ _ _ file => file
    | _ => none).eraseDups

/-- An edit means the last expression that was used. -/
def meansLast (e : Edit) : Bool :=
  let empty : Option Address → Bool
    | some (.found none _) => true
    | _ => false
  empty e.first || empty e.last || match e.act with
    | .substitute none .. => true
    | _ => false

/-- An edit has an expression of its own. -/
def hasExpression (e : Edit) : Bool :=
  let given : Option Address → Bool
    | some (.found (some _) _) => true
    | _ => false
  given e.first || given e.last || match e.act with
    | .substitute (some _) .. => true
    | _ => false

/-- The labels that edits jump to, and that are nowhere. -/
def missingLabels (es : List Edit) : List String :=
  let known := es.filterMap fun e => match e.act with
    | .label name => some name
    | _ => none
  es.filterMap fun e => match e.act with
    | .jump _ name => if name.isEmpty || known.contains name then none else some name
    | _ => none

end Edit

/-- Edit lines of texts by a script. -/
def sed : Utility :=
  withOptions {
    letters := "nErsuz", valued := "efl"
    names := [("quiet", 'n'), ("silent", 'n'), ("expression", 'e'), ("file", 'f'),
      ("regexp-extended", 'E'), ("separate", 's'), ("in-place", 'i'), ("null-data", 'z')]
    optional := "i" } fun tool g => do
    let scripts := g.options.filter fun o => o.1 = 'e' || o.1 = 'f'
    let parts ← scripts.mapM fun (c, s) => do
      if c = 'e' then return .ok s
      return (← textOf s).mapError fun e => (s, e)
    match parts.mapM id with
    | .error (p, e) =>
      complain tool ("couldn't open file " ++ p ++ ": " ++ refusal e)
      return 1
    | .ok parts =>
      match if parts.isEmpty then g.operands.head? else some ("\n".intercalate parts) with
      | none =>
        Run.complain
          ("Usage: " ++ tool
            ++ " [OPTION]... \x7bscript-only-if-no-other-script\x7d [input-file]...\n")
        return 1
      | some script =>
        let files := if parts.isEmpty then g.operands.tail else g.operands
        match Edit.ofText (g.has 'E' || g.has 'r') script with
        | .error (message, place) =>
          let (number, place) := Edit.inPart (if parts.isEmpty then [script] else parts) 1 place
          complain tool ("-e expression #" ++ toString number ++ ", char " ++ toString place ++ ": "
            ++ message)
          return 1
        | .ok edits =>
          if edits.any Edit.meansLast && !edits.any Edit.hasExpression then
            complain tool "-e expression #1, char 0: no previous regular expression"
            return 1
          match Edit.missingLabels edits with
          | name :: _ =>
            Run.complain (tool ++ ": can't find label for jump to \x60" ++ name ++ "'\n")
            return 4
          | [] =>
            for p in Edit.filesIn edits do
              unless p = "/dev/stdout" || p = "/dev/stderr" do
                if let some e ← change fun s => s.writeContent (Text.assembled p) (.text "") then
                  complain tool ("couldn't open file " ++ p ++ ": " ++ refusal e)
                  return 4
            let store := (← get).store
            let fileText (p : String) : String :=
              ((store.content (Text.assembled p)).map bytesIn).toOption.getD ""
            let broken := if g.has 'z' then "\x00" else "\n"
            let linesOf (file text : String) : List Edit.Line :=
              let parts := text.splitOn broken
              let whole := parts.dropLast.map fun l => ⟨l, true, file⟩
              match parts.getLast? with
              | some "" => whole
              | some l => whole ++ [⟨l, false, file⟩]
              | none => whole
            let quiet := g.has 'n' || script.startsWith "#n\n"
            let save (written : List (String × String × Bool)) : Run Unit := do
              let named := (written.map Prod.fst).eraseDups
              for p in named do
                let ls := (written.filter (·.1 = p)).map Prod.snd
                let text := rejoined (ls.map Prod.fst) ((ls.getLast?.map Prod.snd).getD true)
                if p = "/dev/stdout" then Run.print text
                else if p = "/dev/stderr" then Run.complain text
                else
                  let _ ← change fun s => s.writeContent (Text.assembled p) (contentOf text)
            let restore (s : String) : String :=
              if g.has 'z' then String.ofList (s.toList.map fun c => if c = '\n' then '\x00' else c)
              else s
            let wrong (p : String) (e : FileError) : Run Nat := do
              match e with
              | .isDirectory =>
                complain tool (if g.has 'i' then "couldn't edit " ++ p ++ ": not a regular file"
                  else "read error on " ++ p ++ ": " ++ refusal e)
                return 4
              | e =>
                complain tool ("can't read " ++ p ++ ": " ++ refusal e)
                return 2
            let files := if files.isEmpty then ["-"] else files
            if g.has 'i' || g.has 's' then
              let (_, written, status, _) ← files.foldlM
                (fun (unended, written, status, halt) p => do
                if halt then return (unended, written, status, halt)
                match ← textOf p with
                | .error e => return (unended, written, max status (← wrong p e), e = .isDirectory)
                | .ok text =>
                  let e := Edit.carryOut quiet fileText edits (linesOf p text)
                  let written := written ++ e.written
                  let status := max status (e.status.getD 0)
                  if g.has 'i' then
                    let kept := (g.value? 'i').getD ""
                    unless kept.isEmpty do
                      let name := if kept.contains '*' then kept.replace "*" p else p ++ kept
                      let _ ← change fun s => s.writeContent (Text.assembled name) (contentOf text)
                    let _ ← change fun s =>
                      s.writeContent (Text.assembled p) (contentOf (restore e.printed))
                    return (false, written, status, e.status.isSome)
                  else
                    Run.print (restore ((if unended && !e.printed.isEmpty then "\n" else "")
                      ++ e.printed))
                    return ((unended && e.printed.isEmpty) || e.unended, written, status,
                      e.status.isSome)) (false, [], 0, false)
              save written
              return status
            else
              let found ← files.mapM fun p => do return (p, ← textOf p)
              let e := Edit.carryOut quiet fileText edits (found.flatMap fun (p, text) =>
                match text with
                | .ok text => linesOf p text
                | .error _ => [])
              let reached := if e.status.isSome then files.takeWhile (· ≠ e.file) else files
              let statuses ← (found.take reached.length).mapM fun (p, text) => do
                match text with
                | .ok _ => return 0
                | .error e => wrong p e
              Run.print (restore e.printed)
              save e.written
              return e.status.getD (statuses.foldl max 0)

/-- Edit lines of texts by a script. The option to edit files in place may have its value only
right behind its letter. -/
def streamEditor : Utility := fun tool args =>
  let rec spelled : List String → List String
    | [] => []
    | "--" :: rest => "--" :: rest
    | arg :: rest =>
      let cs := arg.toList
      let letters := (cs.drop 1).takeWhile fun c => "nErsuz".contains c
      if cs.head? = some '-' && cs.getD 1 '-' ≠ '-' && cs.getD (letters.length + 1) ' ' = 'i' then
        let flags := if letters.isEmpty then [] else ["-" ++ String.ofList letters]
        flags ++ ("--in-place=" ++ String.ofList (cs.drop (letters.length + 2))) :: spelled rest
      else arg :: spelled rest
  sed tool (spelled args)

end ShaderVariants.Script.Utility
