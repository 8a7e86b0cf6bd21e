import ShaderVariants.Script.Shell

/-!
# Options of utilities

A utility is given options, which are letters after a hyphen or names after two, and operands. The
options that it knows are listed in a `Known`; what it is given is sorted by `Known.parse`, and
anything else is complained about in the usual words.
-/

namespace ShaderVariants.Script

/-- What a utility does when it is called by a name, and the status that it ends with. -/
abbrev Utility := (tool : String) → (arguments : List String) → Run Nat

/-- The options that a utility knows. -/
structure Known where
  /-- The letters that stand alone. -/
  letters : String := ""
  /-- The letters that need a value. -/
  valued : String := ""
  /-- The names, each with the letter that it stands for. -/
  names : List (String × Char) := []
  /-- The letters whose names may have a value. -/
  optional : String := ""
  /-- Options stand in front of all operands. -/
  leading : Bool := false
  /-- The status in which the utility ends if it is given anything else. -/
  status : Nat := 1

/-- The options and operands that a utility is given. -/
structure Given where
  options : List (Char × String)
  operands : List String
deriving DecidableEq

namespace Given

/-- The option is given. -/
def has (g : Given) (letter : Char) : Bool :=
  g.options.any (·.1 = letter)

/-- The value of an option, the last one if it is given several times. -/
def value? (g : Given) (letter : Char) : Option String :=
  g.options.reverse.lookup letter

/-- The last of some options that is given. -/
def last? (g : Given) (letters : List Char) : Option Char :=
  ((g.options.reverse.find? fun o => o.1 ∈ letters)).map Prod.fst

end Given

/-- What is wrong with the options that a utility is given. -/
inductive Complaint where
  | invalid (letter : Char)
  | unrecognized (arg : String)
  | ambiguous (arg : String)
  | valueMissing (letter : Char)
  | nameValueMissing (name : String)
  | valueUnwanted (name : String)
deriving DecidableEq

namespace Complaint

/-- The complaint in words. -/
def message : Complaint → String
  | invalid c => "invalid option -- '" ++ String.singleton c ++ "'"
  | unrecognized s => "unrecognized option '" ++ s ++ "'"
  | ambiguous s => "option '" ++ s ++ "' is ambiguous"
  | valueMissing c => "option requires an argument -- '" ++ String.singleton c ++ "'"
  | nameValueMissing s => "option '--" ++ s ++ "' requires an argument"
  | valueUnwanted s => "option '--" ++ s ++ "' doesn't allow an argument"

end Complaint

namespace Known

/-- The options of letters after a hyphen, and the arguments that are left. -/
def ofLetters (k : Known) (rest : List String) :
    List Char → Except Complaint (List (Char × String) × List String)
  | [] => .ok ([], rest)
  | c :: cs =>
    if k.valued.contains c then
      match cs, rest with
      | [], [] => .error (.valueMissing c)
      | [], v :: rest => .ok ([(c, v)], rest)
      | cs, rest => .ok ([(c, String.ofList cs)], rest)
    else if k.letters.contains c then
      (ofLetters k rest cs).map fun (more, rest) => ((c, "") :: more, rest)
    else .error (.invalid c)

/-- The option of a name after two hyphens, and the arguments that are left. A name may be cut short
as long as it is clear. -/
def ofName (k : Known) (rest : List String) (arg : String) :
    Except Complaint ((Char × String) × List String) :=
  let cs := arg.toList.drop 2
  let name := String.ofList (cs.takeWhile (· ≠ '='))
  let value := if cs.contains '=' then some (String.ofList (cs.drop (name.length + 1))) else none
  let exact := k.names.filter fun n => n.1 = name
  let found := if exact.isEmpty then k.names.filter fun n => n.1.startsWith name else exact
  match (found.map Prod.snd).eraseDups, found with
  | [letter], (full, _) :: _ =>
    if k.valued.contains letter then
      match value, rest with
      | some v, rest => .ok ((letter, v), rest)
      | none, v :: rest => .ok ((letter, v), rest)
      | none, [] => .error (.nameValueMissing full)
    else if value.isSome && !k.optional.contains letter then .error (.valueUnwanted full)
    else .ok ((letter, value.getD ""), rest)
  | [], _ => .error (.unrecognized arg)
  | _, _ => .error (.ambiguous arg)

/-- The options and operands among arguments. -/
def parse (k : Known) : (fuel : Nat) → List String → Except Complaint Given
  | 0, _ => .ok ⟨[], []⟩
  | _, [] => .ok ⟨[], []⟩
  | fuel + 1, arg :: rest =>
    if arg = "--" then .ok ⟨[], rest⟩
    else match arg.toList with
      | '-' :: '-' :: _ => do
        let (option, rest) ← k.ofName rest arg
        let g ← k.parse fuel rest
        return ⟨option :: g.options, g.operands⟩
      | '-' :: c :: cs => do
        let (options, rest) ← k.ofLetters rest (c :: cs)
        let g ← k.parse fuel rest
        return ⟨options ++ g.options, g.operands⟩
      | _ =>
        if k.leading then .ok ⟨[], arg :: rest⟩
        else do
          let g ← k.parse fuel rest
          return ⟨g.options, arg :: g.operands⟩

end Known

namespace Utility

/-- A message of a utility. -/
def complain (tool text : String) : Run Unit :=
  Run.complain (tool ++ ": " ++ text ++ "\n")

/-- Where to look for help. -/
def advise (tool : String) : Run Unit :=
  Run.complain ("Try '" ++ tool ++ " --help' for more information.\n")

/-- A character that shows. -/
def isVisible (c : Char) : Bool :=
  ' ' ≤ c && c ≤ '~'

/-- The text need not stand in quotes to be understood as it is. -/
def isPlain (s : String) : Bool :=
  let special := " !\"$&'():*;<=>?[\\^\x60|"
  match s.toList with
  | [] => false
  | c :: cs =>
    c ≠ '#' && c ≠ '~' && (c :: cs).all fun c => isVisible c && !special.contains c

/-- The escape of a character that does not show. -/
def escapeOf (c : Char) : List Char :=
  match ([('\x07', 'a'), ('\x08', 'b'), ('\t', 't'), ('\n', 'n'), ('\x0b', 'v'), ('\x0c', 'f'),
      ('\r', 'r')] : List (Char × Char)).lookup c with
  | some letter => ['\\', letter]
  | none =>
    let digits := Nat.toDigits 8 c.toNat
    '\\' :: List.replicate (3 - digits.length) '0' ++ digits

/-- Characters in single quotes, where `escaping` says whether they stand among escapes. -/
def quotedChars (escaping : Bool) : List Char → List Char
  | [] => ['\'']
  | c :: cs =>
    if isVisible c then
      (if escaping then ['\'', '\''] else [])
        ++ (if c = '\'' then ['\'', '\\', '\'', '\''] else [c]) ++ quotedChars false cs
    else
      (if escaping then [] else ['\'', '$', '\'']) ++ escapeOf c ++ quotedChars true cs

/-- A text in quotes: in double ones, if it holds single ones and nothing that means something in
double ones. -/
def quoted (s : String) : String :=
  let simple (c : Char) : Bool := c.isAlphanum || " %+,-./:]_\x7b\x7d#~'".contains c
  if s.contains '\'' && s.toList.all simple then "\"" ++ s ++ "\""
  else String.ofList ('\'' :: quotedChars false s.toList)

/-- A text in quotes as it is cited: with escapes for what does not show, and for the quotes. -/
def cited (s : String) : String :=
  "'" ++ String.ofList (s.toList.flatMap fun c =>
    if c = '\'' ∨ c = '\\' then ['\\', c] else if isVisible c then [c] else escapeOf c) ++ "'"

/-- A text, in quotes where they are needed. -/
def named (s : String) : String :=
  if isPlain s then s else quoted s

/-- A utility of what it is given. -/
def withOptions (k : Known) (use : (tool : String) → Given → Run Nat) : Utility :=
  fun tool args => do
    match k.parse (args.length + 1) args with
    | .ok g => use tool g
    | .error e =>
      complain tool e.message
      advise tool
      return k.status

/-- An operand is missing. -/
def lacking (tool : String) (status : Nat) : Run Nat := do
  complain tool "missing operand"
  advise tool
  return status

/-- An operand is missing after another one. -/
def lackingAfter (tool last : String) (status : Nat) : Run Nat := do
  complain tool ("missing operand after " ++ cited last)
  advise tool
  return status

/-- There is an operand too many. -/
def extra (tool operand : String) (status : Nat) : Run Nat := do
  complain tool ("extra operand " ++ cited operand)
  advise tool
  return status

/-- The worst of the statuses of something done for each of a list. -/
def worst {α : Type} (items : List α) (use : α → Run Nat) : Run Nat := do
  let statuses ← items.mapM use
  return statuses.foldl max 0

/-- A change of the store, or why it is refused. -/
def change (f : Store → Except FileError Store) : Run (Option FileError) := do
  let s ← get
  match f s.store with
  | .ok store =>
    set { s with store }
    return none
  | .error e => return some e

/-- The number that decimal digits write. -/
def natural? (s : String) : Option Nat :=
  if s.isEmpty ∨ !s.toList.all Char.isDigit then none
  else some (s.toList.foldl (fun n c => n * 10 + (c.toNat - '0'.toNat)) 0)

/-- The lines of a text, and whether the last one is ended. -/
def lines (s : String) : List String × Bool :=
  let parts := s.splitOn "\n"
  if parts.getLast? = some "" then (parts.dropLast, true) else (parts, false)

/-- Lines, each ended. -/
def unlines (ls : List String) : String :=
  String.join (ls.map (· ++ "\n"))

/-- Lines with the ends that they had. -/
def rejoined (ls : List String) (ended : Bool) : String :=
  match ls with
  | [] => ""
  | ls => "\n".intercalate ls ++ if ended then "\n" else ""

/-- The text of a file, byte by byte, or of what there is to read if a hyphen stands for it. -/
def textOf (p : String) : Run (Except FileError String) := do
  if p = "-" ∨ p = "/dev/stdin" then
    match ← Run.readAll 0 with
    | some text => return .ok text
    | none => return .error .isDirectory
  return ((← get).store.content (Text.assembled p)).map bytesIn

/-- The texts of files with their names, or what there is to read if there are no files. The status
is `status` if a file cannot be read, of which `wrong` tells. -/
def textsOr (tool : String) (status : Nat) (wrong : (name : String) → FileError → String)
    (files : List String) : Run (List (String × String) × Nat) := do
  let found ← (if files.isEmpty then ["-"] else files).mapM fun p => do
    match ← textOf p with
    | .ok text => return some (p, text)
    | .error e =>
      complain tool (wrong p e)
      return none
  return (found.filterMap id, if found.all Option.isSome then 0 else status)

/-- Do something for each text of files, one after another, or for what there is to read if there
are no files. What is known after one text is handed to the next, unless it is enough. The status is
the worst of all, and `status` for a file that cannot be read, of which `wrong` tells. -/
def eachText {σ : Type} (status : Nat) (wrong : (name : String) → FileError → Run Unit)
    (files : List String) (start : σ) (use : σ → (name text : String) → Run (σ × Nat))
    (enough : σ → Bool := fun _ => false) : Run (σ × Nat) :=
  (if files.isEmpty then ["-"] else files).foldlM (fun (known, worst) p => do
    if enough known then return (known, worst)
    match ← textOf p with
    | .ok text =>
      let (known, ended) ← use known p text
      return (known, max worst ended)
    | .error e =>
      wrong p e
      return (known, max worst status)) (start, 0)

/-- Tell that a file cannot be read. -/
def unreadable (tool p : String) (e : FileError) : Run Unit :=
  complain tool (named p ++ ": " ++ refusal e)

/-- Tell that a file cannot be opened, or that it can, but not be read. -/
def unopened (tool p : String) (e : FileError) : Run Unit :=
  let name := quoted (if p = "-" then "standard input" else p)
  match e with
  | .isDirectory => complain tool ("error reading " ++ name ++ ": " ++ refusal e)
  | e => complain tool ("cannot open " ++ name ++ " for reading: " ++ refusal e)

/-- The same where the file and the refusal are told. -/
def texts (tool : String) (files : List String) : Run (List (String × String) × Nat) :=
  textsOr tool 1 (fun p e => named p ++ ": " ++ refusal e) files

/-- Print what becomes of each text of files. -/
def filtering (f : String → String) (tool : String) (files : List String) : Run Nat := do
  let ((), status) ← eachText 1 (unreadable tool) files () fun () _ text => do
    Run.print (f text)
    return ((), 0)
  return status

end Utility

end ShaderVariants.Script
