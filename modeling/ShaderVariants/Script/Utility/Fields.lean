import ShaderVariants.Script.Arithmetic
import ShaderVariants.Script.Pattern
import ShaderVariants.Script.Utility.Lines

/-!
# Utilities for characters and fields

Filters that change characters, choose fields of lines, and order lines by their fields.
-/

namespace ShaderVariants.Script.Utility

/-! ## Sets of characters -/

/-- The characters from one to another. -/
def charRange (low high : Char) : List Char :=
  (List.range (high.toNat + 1 - low.toNat)).map fun n => Char.ofNat (low.toNat + n)

/-- The character that stands after a backslash, and what follows it. -/
def escaped : List Char → Char × List Char
  | 'a' :: cs => ('\x07', cs)
  | 'b' :: cs => ('\x08', cs)
  | 'f' :: cs => ('\x0c', cs)
  | 'n' :: cs => ('\n', cs)
  | 'r' :: cs => ('\r', cs)
  | 't' :: cs => ('\t', cs)
  | 'v' :: cs => ('\x0b', cs)
  | c :: cs =>
    let digits := ((c :: cs).take 3).takeWhile fun c => (digitValue? 8 c).isSome
    if digits.isEmpty then (c, cs)
    else (Char.ofNat (digitsValue 8 digits % 256), (c :: cs).drop digits.length)
  | [] => ('\\', [])

/-- The next character of a set, and what follows it. -/
def setChar : List Char → Option (Char × List Char)
  | [] => none
  | '\\' :: cs => some (escaped cs)
  | c :: cs => some (c, cs)

/-- What is wrong with a set: a range whose ends are not in order. -/
def setMistake? : (fuel : Nat) → List Char → Option String
  | 0, _ => none
  | fuel + 1, cs =>
    match Marked.class? (Marked.bare cs) with
    | some (_, rest) => setMistake? fuel (rest.map Prod.fst)
    | none =>
      match setChar cs with
      | none => none
      | some (low, '-' :: rest) =>
        match setChar rest with
        | some (high, rest) =>
          if high < low then
            let shown (c : Char) : String :=
              String.ofList (if isVisible c then [c] else escapeOf c)
            some ("range-endpoints of '" ++ shown low ++ "-" ++ shown high
              ++ "' are in reverse collating sequence order")
          else setMistake? fuel rest
        | none => none
      | some (_, rest) => setMistake? fuel rest

/-- The characters of a set: ranges, classes, and characters that are repeated up to a size. -/
def setChars (size : Nat) : (fuel : Nat) → List Char → List Char
  | 0, _ => []
  | fuel + 1, cs =>
    match Marked.class? (Marked.bare cs) with
    | some (ranges, rest) =>
      ranges.flatMap (fun r => charRange r.1 r.2) ++ setChars size fuel (rest.map Prod.fst)
    | none =>
      match cs with
      | '[' :: c :: '*' :: rest =>
        let digits := rest.takeWhile Char.isDigit
        match rest.drop digits.length with
        | ']' :: rest =>
          let count := if digits.isEmpty then size else digitsValue 10 digits
          List.replicate count c ++ setChars size fuel rest
        | _ => '[' :: setChars size fuel (c :: '*' :: rest)
      | cs =>
        match setChar cs with
        | none => []
        | some (low, '-' :: rest) =>
          match setChar rest with
          | some (high, rest) => charRange low high ++ setChars size fuel rest
          | none => low :: setChars size fuel ['-']
        | some (c, rest) => c :: setChars size fuel rest

/-- A text in which only one of several equal characters of a set in a row is left. -/
def squeezedChars (set : List Char) : List Char → List Char
  | c :: d :: cs =>
    if c = d && set.contains c then squeezedChars set (d :: cs)
    else c :: squeezedChars set (d :: cs)
  | cs => cs

/-- Replace, delete and squeeze characters. -/
def tr : Utility :=
  withOptions {
    letters := "cCdst", leading := true
    names := [("complement", 'c'), ("delete", 'd'), ("squeeze-repeats", 's'),
      ("truncate-set1", 't')] } fun tool g => do
    let delete := g.has 'd'
    let squeeze := g.has 's'
    let set (size : Nat) (s : String) := setChars size (s.length + 1) s.toList
    let chosen (s : String) :=
      if g.has 'c' || g.has 'C' then (charRange '\x00' '\xff').filter (!(set 0 s).contains ·)
      else set 0 s
    let apply (f : List Char → List Char) : Run Nat := do
      Run.print (String.ofList (f ((← Run.readAll 0).getD "").toList))
      return 0
    if let some mistake := (g.operands.take 2).findSome? fun s =>
        setMistake? (s.length + 1) s.toList then
      complain tool mistake
      return 1
    match g.operands with
    | [] => lacking tool 1
    | [a] =>
      let first := chosen a
      if delete && !squeeze then apply fun cs => cs.filter (!first.contains ·)
      else if squeeze && !delete then apply (squeezedChars first)
      else
        complain tool ("missing operand after " ++ cited a)
        Run.complain (if delete then
            "Two strings must be given when both deleting and squeezing repeats.\n"
          else "Two strings must be given when translating.\n")
        advise tool
        return 1
    | [a, b] =>
      let first := chosen a
      let second := set first.length b
      if delete && squeeze then
        apply fun cs => squeezedChars second (cs.filter (!first.contains ·))
      else if delete then
        complain tool ("extra operand " ++ cited b)
        Run.complain "Only one string may be given when deleting without squeezing repeats.\n"
        advise tool
        return 1
      else
        let first := if g.has 't' then first.take second.length else first
        let becomes (c : Char) : Char :=
          match first.reverse.findIdx? (· = c) with
          | some i => second.getD (first.length - 1 - i) (second.getLast?.getD c)
          | none => c
        apply fun cs =>
          let changed := cs.map becomes
          if squeeze then squeezedChars second changed else changed
    | _ :: _ :: c :: _ => extra tool c 1

/-! ## Choosing fields -/

/-- The ranges of a list of places, or the part of it that is none. -/
def ranges (s : String) : Except String (List (Nat × Option Nat)) :=
  ((String.ofList (s.toList.map fun c => if c = ' ' then ',' else c)).splitOn ",").mapM fun part =>
    match part.splitOn "-" with
    | [n] => match natural? n with
      | some n => .ok (n, some n)
      | none => .error part
    | ["", n] => match natural? n with
      | some n => .ok (1, some n)
      | none => .error part
    | [m, ""] => match natural? m with
      | some m => .ok (m, none)
      | none => .error part
    | [m, n] => match natural? m, natural? n with
      | some m, some n => .ok (m, some n)
      | _, _ => .error part
    | _ => .error part

/-- The items of a list at the places in ranges, counted from one, or all others. -/
def chosenItems {α : Type} (places : List (Nat × Option Nat)) (others : Bool) (items : List α) :
    List α :=
  (items.zipIdx.filter fun (_, i) =>
    (places.any fun (low, high) =>
      decide (low ≤ i + 1) && (high.map fun h => decide (i + 1 ≤ h)).getD true) != others).map
    Prod.fst

/-- Print chosen fields or characters of each line. -/
def cut : Utility :=
  withOptions {
    letters := "nsz!", valued := "bcdf>"
    names := [("bytes", 'b'), ("characters", 'c'), ("delimiter", 'd'), ("fields", 'f'),
      ("only-delimited", 's'), ("complement", '!'), ("output-delimiter", '>'),
      ("zero-terminated", 'z')] } fun tool g => do
    let wrong (text : String) : Run Nat := do
      complain tool text
      advise tool
      return 1
    let lists := g.options.filter fun o => o.1 = 'b' || o.1 = 'c' || o.1 = 'f'
    match lists with
    | [] => wrong "you must specify a list of bytes, characters, or fields"
    | [(kind, list)] =>
      let delimiter := (g.value? 'd').getD "\t"
      if delimiter.length ≠ 1 then wrong "the delimiter must be a single character"
      else if kind ≠ 'f' && g.has 'd' then
        wrong "an input delimiter may be specified only when operating on fields"
      else match ranges list with
        | .error part =>
          wrong ("invalid " ++ (if kind = 'f' then "field" else "byte/character position")
            ++ " value " ++ cited part)
        | .ok places =>
          if places.any fun (low, high) => (high.map fun h => decide (h < low)).getD false then
            wrong "invalid decreasing range"
          else
          if places.any (·.1 = 0) || places.any (·.2 = some 0) then
            wrong ((if kind = 'f' then "fields" else "byte/character positions")
              ++ " are numbered from 1")
          else
            let others := g.has '!'
            let between := (g.value? '>').getD delimiter
            let line (l : String) : Option String :=
              if kind = 'f' then
                match l.splitOn delimiter with
                | [_] => if g.has 's' then none else some l
                | parts => some (between.intercalate (chosenItems places others parts))
              else some (String.ofList (chosenItems places others l.toList))
            filtering (fun text => unlines ((lines text).1.filterMap line)) tool g.operands
    | _ => wrong "only one list may be specified"

/-! ## Ordering lines -/

/-- How fields are compared. -/
structure Comparison where
  numeric : Bool := false
  folded : Bool := false
  blanks : Bool := false
  dictionary : Bool := false
  reversed : Bool := false
deriving DecidableEq

/-- A part of a line that is compared: from a field and a character to others. -/
structure SortKey where
  start : Nat × Nat
  stop : Option (Nat × Nat)
  comparison : Comparison

namespace Comparison

/-- The comparison that letters ask for. -/
def ofLetters (cs : List Char) : Comparison := {
  numeric := cs.any fun c => c = 'n' || c = 'g' || c = 'h'
  folded := cs.contains 'f', blanks := cs.contains 'b', dictionary := cs.contains 'd'
  reversed := cs.contains 'r' }

/-- The decimal number that a text starts with: digits, and how many of them are behind the
point. -/
def decimal (cs : List Char) : Int × Nat :=
  let cs := cs.dropWhile fun c => c = ' ' || c = '\t'
  let (negative, cs) := match cs with
    | '-' :: cs => (true, cs)
    | cs => (false, cs)
  let whole := cs.takeWhile Char.isDigit
  let fraction := match cs.drop whole.length with
    | '.' :: rest => rest.takeWhile Char.isDigit
    | _ => []
  let n : Int := digitsValue 10 (whole ++ fraction)
  (if negative then -n else n, fraction.length)

/-- How two texts compare. -/
def compare (c : Comparison) (a b : List Char) : Ordering :=
  let order := if c.numeric then
      let (m, i) := decimal a
      let (n, j) := decimal b
      Ord.compare (m * Int.ofNat (Nat.pow 10 j)) (n * Int.ofNat (Nat.pow 10 i))
    else
      let shown (cs : List Char) :=
        let cs := if c.blanks then cs.dropWhile fun c => c = ' ' || c = '\t' else cs
        let cs := if c.dictionary then cs.filter fun c => c.isAlphanum || c = ' ' else cs
        if c.folded then cs.map Char.toUpper else cs
      Ord.compare (String.ofList (shown a)) (String.ofList (shown b))
  if c.reversed then order.swap else order

end Comparison

namespace SortKey

/-- A place in a key, and the letters after it. -/
def place? (s : String) : Option ((Nat × Nat) × List Char) := do
  let cs := s.toList
  let field := cs.takeWhile Char.isDigit
  let n ← natural? (String.ofList field)
  match cs.drop field.length with
  | '.' :: rest =>
    let digits := rest.takeWhile Char.isDigit
    let m ← natural? (String.ofList digits)
    return ((n, m), rest.drop digits.length)
  | rest => return ((n, 0), rest)

/-- The key that a text writes; without letters of its own it is compared in the usual way. -/
def ofText? (usual : Comparison) (s : String) : Option SortKey := do
  let (first, second) ← match s.splitOn "," with
    | [a] => some (a, none)
    | [a, b] => some (a, some b)
    | _ => none
  let (start, letters) ← place? first
  let (stop, more) ← match second with
    | none => some (none, [])
    | some b => (place? b).map fun (p, cs) => (some p, cs)
  let all := letters ++ more
  guard (start.1 ≠ 0)
  return ⟨start, stop, if all.isEmpty then usual else Comparison.ofLetters all⟩

/-- The fields of a line. Without a separator, blanks belong to the field after them. -/
def fieldsOf (separator : Option Char) (cs : List Char) : List (List Char) :=
  match separator with
  | some c => ((String.ofList cs).splitOn (String.singleton c)).map String.toList
  | none =>
    let rec go (field : List Char) (inside : Bool) : List Char → List (List Char)
      | [] => [field.reverse]
      | c :: cs =>
        let blank := c = ' ' || c = '\t'
        if blank && inside then field.reverse :: go [c] false cs
        else go (c :: field) (!blank) cs
    go [] false cs

/-- The part of a line that a key means. -/
def part (separator : Option Char) (k : SortKey) (cs : List Char) : List Char :=
  let fields := fieldsOf separator cs
  let width := if separator.isSome then 1 else 0
  let offset (n : Nat) := (fields.take n).foldl (fun m f => m + f.length + width) 0
  let start := offset (k.start.1 - 1) + (k.start.2 - 1)
  let stop := match k.stop with
    | none => cs.length
    | some (n, 0) => offset n - (if n < fields.length then width else 0)
    | some (n, m) => offset (n - 1) + m
  (cs.take stop).drop start

end SortKey

/-- The first of lines that are equal to the one before them. -/
def distinct {α : Type} (same : α → α → Bool) : List α → List α
  | a :: b :: rest => if same a b then distinct same (a :: rest) else a :: distinct same (b :: rest)
  | as => as
termination_by as => as.length

/-- Print lines in order. -/
def sort : Utility :=
  withOptions {
    letters := "bcCdfghiMmnrRsuVz", valued := "koStT", status := 2
    names := [("ignore-leading-blanks", 'b'), ("dictionary-order", 'd'), ("ignore-case", 'f'),
      ("general-numeric-sort", 'g'), ("numeric-sort", 'n'), ("reverse", 'r'), ("check", 'c'),
      ("key", 'k'), ("merge", 'm'), ("output", 'o'), ("stable", 's'), ("field-separator", 't'),
      ("unique", 'u'), ("zero-terminated", 'z')] } fun tool g => do
    let usual := Comparison.ofLetters (g.options.map Prod.fst)
    let separator := (g.value? 't').bind fun s => (if s = "\\t" then "\t" else s).toList.head?
    match (g.options.filter (·.1 = 'k')).mapM fun o => SortKey.ofText? usual o.2 with
    | none =>
      complain tool "invalid number at field start"
      return 2
    | some keys =>
      let keys := if keys.isEmpty then [⟨(1, 0), none, usual⟩] else keys
      let compare (a b : String) : Ordering :=
        keys.foldl (fun o k => o.then
          (k.comparison.compare (k.part separator a.toList) (k.part separator b.toList))) .eq
      let whole (a b : String) : Ordering :=
        if g.has 's' || g.has 'u' then compare a b
        else (compare a b).then (if usual.reversed then Ord.compare b a else Ord.compare a b)
      let (found, status) ← textsOr tool 2 (fun p e => match e with
          | .isDirectory => "read failed: " ++ named p ++ ": " ++ refusal e
          | e => "cannot read: " ++ named p ++ ": " ++ refusal e) g.operands
      let ls := found.flatMap fun t => (lines t.2).1
      if let some p := if g.has 'c' || g.has 'C' then g.operands[1]? else none then
        complain tool ("extra operand " ++ cited p ++ " not allowed with -"
          ++ String.singleton (if g.has 'c' then 'c' else 'C'))
        return 2
      if g.has 'c' || g.has 'C' then
        let bad := (ls.zip ls.tail).zipIdx.find? fun ((a, b), _) =>
          whole a b = .gt || (g.has 'u' && compare a b = .eq)
        match bad with
        | none => return 0
        | some ((_, b), i) =>
          let name := (g.operands.head?).getD "-"
          unless g.has 'C' do
            complain tool (name ++ ":" ++ toString (i + 2) ++ ": disorder: " ++ b)
          return 1
      else
        let sorted := ls.mergeSort fun a b => (whole a b).isLE
        let sorted := if g.has 'u' then distinct (fun a b => compare a b = .eq) sorted else sorted
        if status ≠ 0 then return status
        match g.value? 'o' with
        | some p =>
          match ← change fun s =>
              s.writeContent (Text.assembled p) (contentOf (unlines sorted)) with
          | none => return 0
          | some e =>
            complain tool ("open failed: " ++ named p ++ ": " ++ refusal e)
            return 2
        | none =>
          Run.print (unlines sorted)
          return 0

/-- Lines in groups of neighbours that are equal in what counts. -/
def groups (what : String → String) : List String → List (List String)
  | [] => []
  | l :: ls => match groups what ls with
    | (m :: g) :: gs => if what l = what m then (l :: m :: g) :: gs else [l] :: (m :: g) :: gs
    | gs => [l] :: gs

/-- Print lines, those that repeat only once. -/
def uniq : Utility :=
  withOptions {
    letters := "cdDiuz", valued := "fsw"
    names := [("count", 'c'), ("repeated", 'd'), ("ignore-case", 'i'), ("skip-fields", 'f'),
      ("skip-chars", 's'), ("unique", 'u'), ("check-chars", 'w'), ("zero-terminated", 'z')] }
    fun tool g => do
    let skip := ((g.value? 's').bind natural?).getD 0
    let skipFields := ((g.value? 'f').bind natural?).getD 0
    let what (l : String) : String :=
      let cs := ((SortKey.fieldsOf none l.toList).drop skipFields).flatten
      let cs := (if skipFields = 0 then l.toList else cs).drop skip
      let cs := match (g.value? 'w').bind natural? with
        | some n => cs.take n
        | none => cs
      String.ofList (if g.has 'i' then cs.map Char.toLower else cs)
    let result (text : String) : String :=
      let chosen := (groups what (lines text).1).filter fun group =>
        (!g.has 'd' || group.length > 1) && (!g.has 'u' || group.length = 1)
      unlines (chosen.map fun group =>
        (if g.has 'c' then rightAligned 7 (toString group.length) ++ " " else "")
          ++ group.headD "")
    match g.operands with
    | [input, output] =>
      match ← textOf input with
      | .ok text =>
        match ← change fun s =>
            s.writeContent (Text.assembled output) (contentOf (result text)) with
        | none => return 0
        | some e =>
          complain tool (named output ++ ": " ++ refusal e)
          return 1
      | .error e =>
        complain tool (named input ++ ": " ++ refusal e)
        return 1
    | _ :: _ :: c :: _ => extra tool c 1
    | files => filtering result tool files

/-! ## Making and comparing texts -/

/-- A decimal number: digits with a sign, and how many of them are behind the point. -/
def decimal? (s : String) : Option (Int × Nat) := do
  let (negative, cs) := match s.toList with
    | '-' :: cs => (true, cs)
    | '+' :: cs => (false, cs)
    | cs => (false, cs)
  let whole := cs.takeWhile Char.isDigit
  let rest := cs.drop whole.length
  let fraction ← match rest with
    | [] => some []
    | '.' :: fraction => if fraction.all Char.isDigit then some fraction else none
    | _ => none
  guard (!(whole ++ fraction).isEmpty)
  let n : Int := digitsValue 10 (whole ++ fraction)
  return (if negative then -n else n, fraction.length)

/-- A number with digits behind its point, and zeros in front up to a width. -/
def fixedText (places width : Nat) (n : Int) : String :=
  let digits := toString n.natAbs
  let digits := String.ofList (List.replicate (places + 1 - digits.length) '0') ++ digits
  let cut := digits.length - places
  let body := String.ofList (digits.toList.take cut)
    ++ (if places = 0 then "" else "." ++ dropText cut digits)
  let sign := if n < 0 then "-" else ""
  sign ++ String.ofList (List.replicate (width - body.length - sign.length) '0') ++ body

/-- Print numbers in a row. -/
def seq : Utility := fun tool args =>
  let isNumber (s : String) := (decimal? s).isSome
  let args := match args.span fun a => a.startsWith "-" && !isNumber a with
    | (options, rest) =>
      if rest.any fun a => a.startsWith "-" && isNumber a then
        if options.contains "--" then options ++ rest else options ++ "--" :: rest
      else options ++ rest
  withOptions {
    letters := "w", valued := "fs", leading := true
    names := [("equal-width", 'w'), ("format", 'f'), ("separator", 's')] } (fun tool g => do
    match g.operands.find? fun s => !isNumber s with
    | some s =>
      complain tool ("invalid floating point argument: " ++ cited s)
      advise tool
      return 1
    | none =>
      let numbers := g.operands.filterMap decimal?
      let series (first step last : Int × Nat) : Run Nat := do
        let places := max first.2 step.2
        let scale := max places last.2
        let scaled (n : Int × Nat) : Int := n.1 * Int.ofNat (Nat.pow 10 (scale - n.2))
        let (a, d, b) := (scaled first, scaled step, scaled last)
        if d = 0 then
          complain tool ("invalid Zero increment value: " ++ cited (g.operands.getD 1 ""))
          advise tool
          return 1
        let count := if 0 < d then (b - a) / d + 1 else (a - b) / (-d) + 1
        let unit : Int := Int.ofNat (Nat.pow 10 (scale - places))
        let values := (List.range count.toNat).map fun i => (a + d * Int.ofNat i) / unit
        let width := if g.has 'w' then
            (values.map fun n => (fixedText places 0 n).length).foldl max 0
          else 0
        unless values.isEmpty do
          let between := (g.value? 's').getD "\n"
          Run.print (between.intercalate (values.map (fixedText places width)) ++ "\n")
        return 0
      match numbers, g.operands with
      | [], _ => lacking tool 1
      | [last], _ => series (1, 0) (1, 0) last
      | [first, last], _ => series first (1, 0) last
      | [first, step, last], _ => series first step last
      | _, _ :: _ :: _ :: other :: _ => extra tool other 1
      | _, _ => lacking tool 1)
    tool args

/-- Print what there is to read, and write it to files. -/
def tee : Utility :=
  withOptions {
    letters := "aip"
    names := [("append", 'a'), ("ignore-interrupts", 'i')] } fun tool g => do
    let text := (← Run.readAll 0).getD ""
    Run.print text
    worst g.operands fun p => do
      match ← change fun s => do
          let before := if g.has 'a' then ((s.content (Text.assembled p)).map bytesIn).toOption
            else none
          s.writeContent (Text.assembled p) (contentOf (before.getD "" ++ text)) with
      | none => return 0
      | some e =>
        complain tool (named p ++ ": " ++ refusal e)
        return 1

end ShaderVariants.Script.Utility
