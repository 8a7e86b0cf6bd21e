import ShaderVariants.Script.Grammar
import ShaderVariants.Script.Utility.Condition
import ShaderVariants.Script.Utility.Files
import ShaderVariants.Script.Utility.Format

/-!
# Commands of the shell itself

Commands that change the state of the script that they are in: its variables, arguments, options
and descriptors, or where it goes on. Those that run other commands are not among them.
-/

namespace ShaderVariants.Script

/-- A command of the shell: it is given arguments, and gives the status that it ends with. -/
abbrev Builtin := (arguments : List String) → Run Nat

namespace Builtin

/-- The number that an argument has to be. -/
def number (s : String) : Run Nat := do
  match Utility.natural? s with
  | some n => if n ≤ 2147483647 then return n else Run.fail ("Illegal number: " ++ s)
  | none => Run.fail ("Illegal number: " ++ s)

/-- A text in quotes, as it can be read again. -/
def quoted (s : String) : String :=
  "'" ++ String.join (s.toList.map fun c => if c = '\'' then "'\"'\"'" else String.singleton c)
    ++ "'"

/-- A name and a value that an argument sets. -/
def setting (s : String) : String × Option String :=
  let name := String.ofList (s.toList.takeWhile (· ≠ '='))
  if name = s then (s, none) else (name, some (dropText (name.length + 1) s))

/-- A variable has to have a name. -/
def demandName (name : String) : Run Unit := do
  unless isName name do Run.fail (name ++ ": bad variable name")

/-- The letters of options that arguments start with, all among some that are known, and the other
arguments. -/
def letters (known : String) : List String → Run (List Char × List String)
  | [] => return ([], [])
  | "--" :: args => return ([], args)
  | arg :: args => do
    match arg.toList with
    | '-' :: c :: cs =>
      match (c :: cs).find? fun c => !known.contains c with
      | some bad => Run.fail ("Illegal option -" ++ String.singleton bad)
      | none =>
        let (more, rest) ← letters known args
        return (c :: cs ++ more, rest)
    | _ => return ([], arg :: args)

/-! ## Going on elsewhere -/

/-- End the script. -/
def exit : Builtin := fun args => do
  match args with
  | [] =>
    if let some status := (← get).ending then Run.ended status
  | s :: _ => Run.ended ((← number s) % 256)
  throw .exited

/-- Leave a function or a file. -/
def leave : Builtin := fun args => do
  if let s :: _ := args then Run.ended ((← number s) % 256)
  throw .returned

/-- Leave loops, or go on with their next rounds. -/
def jump (stop : Nat → Stop) : Builtin := fun args => do
  let n ← match args with
    | [] => pure 1
    | s :: _ => do
      let n ← number s
      if n = 0 then Run.fail ("Illegal number: " ++ s)
      pure n
  match min n (← get).loops with
  | 0 => return 0
  | n + 1 => do
    Run.ended 0
    throw (stop n)

/-! ## Arguments and options -/

/-- Drop the first arguments. -/
def shift : Builtin := fun args => do
  let n ← match args with
    | [] => pure 1
    | s :: _ => number s
  if (← get).arguments.length < n then Run.fail "can't shift that many"
  modify fun s => { s with arguments := s.arguments.drop n, optionPlace := 0 }
  return 0

/-- The names of options, each with its letter. -/
def optionNames : List (String × Char) := [
  ("errexit", 'e'), ("noglob", 'f'), ("ignoreeof", 'I'), ("interactive", 'i'), ("monitor", 'm'),
  ("noexec", 'n'), ("stdin", 's'), ("xtrace", 'x'), ("verbose", 'v'), ("vi", 'V'), ("emacs", 'E'),
  ("noclobber", 'C'), ("allexport", 'a'), ("notify", 'b'), ("nounset", 'u')]

/-- Set options, and give back the other arguments, if they replace those of the script. -/
def setOptions : List String → Run (Option (List String))
  | [] => return none
  | arg :: args => do
    let rec each (on : Bool) (rest : List String) : List Char → Run (List String)
      | [] => return rest
      | 'o' :: cs => do
        match rest with
        | [] =>
          let s ← get
          Run.print ("Current option settings\n" ++ String.join (optionNames.map fun (name, c) =>
            Utility.leftAligned 16 name ++ (if s.options.contains c then "on" else "off") ++ "\n"))
          each on rest cs
        | name :: rest =>
          match optionNames.lookup name with
          | some c =>
            Run.setOption c on
            each on rest cs
          | none => Run.fail ("Illegal option " ++ (if on then "-" else "+") ++ "o " ++ name)
      | c :: cs => do
        if optionNames.any fun o => o.2 = c then
          Run.setOption c on
          each on rest cs
        else Run.fail ("Illegal option " ++ (if on then "-" else "+") ++ String.singleton c)
    match arg.toList with
    | ['-', '-'] => return some args
    | ['-'] =>
      Run.setOption 'x' false
      Run.setOption 'v' false
      return if args.isEmpty then none else some args
    | '-' :: cs =>
      let takes := cs.contains 'o' && !args.isEmpty
      let _ ← each true args cs
      if takes then
        match args with
        | _ :: rest => setOptions rest
        | [] => return none
      else setOptions args
    | '+' :: cs =>
      let takes := cs.contains 'o' && !args.isEmpty
      let _ ← each false args cs
      if takes then
        match args with
        | _ :: rest => setOptions rest
        | [] => return none
      else setOptions args
    | _ => return some (arg :: args)

/-- Set options and arguments, or print all variables. -/
def set : Builtin := fun args => do
  if args.isEmpty then
    let found := (← get).bindings.entries.filterMap fun (name, v) =>
      v.value.map fun value => (name, value)
    let sorted := found.mergeSort fun a b => decide (a.1 ≤ b.1)
    Run.print (String.join (sorted.map fun (name, value) => name ++ "=" ++ quoted value ++ "\n"))
  else if let some rest ← setOptions args then
    modify fun s => { s with arguments := rest, optionPlace := 0 }
  return 0

/-- The next option among arguments, read from a place in one of them. -/
def getopts : Builtin := fun args => do
  match args with
  | known :: name :: given =>
    let s ← get
    let words := if given.isEmpty then s.arguments else given
    let index := (((← Run.valueOf? "OPTIND").bind Utility.natural?).getD 1)
    let silent := known.startsWith ":"
    let letters := if silent then known.toList.tail else known.toList
    let finish (index place : Nat) (letter : String) (argument : Option String) (status : Nat) :
        Run Nat := do
      match argument with
      | some a => Run.setVariable "OPTARG" a
      | none => Run.unsetVariable "OPTARG"
      Run.setVariable "OPTIND" (toString index)
      Run.setVariable name letter
      modify fun s => { s with optionPlace := place }
      return status
    let old := ← Run.valueOf? "OPTARG"
    let current := if index ≤ 1 ∨ s.optionPlace = 0 then ""
      else dropText s.optionPlace (words.getD (index - 2) "")
    let start : Option (Nat × Nat × List Char) :=
      if !current.isEmpty then some (index, s.optionPlace, current.toList)
      else match (words[index - 1]?).map String.toList with
        | some ['-', '-'] => none
        | some ('-' :: c :: cs) => some (index + 1, 1, c :: cs)
        | _ => none
    match start with
    | none =>
      let index := if current.isEmpty && words[index - 1]? = some "--" then index + 1 else index
      finish index 0 "?" old 1
    | some (_, _, []) => finish index 0 "?" old 1
    | some (index, place, c :: cs) =>
      let place := if cs.isEmpty then 0 else place + 1
      match letters.dropWhile (· ≠ c) with
      | [] =>
        if silent then finish index place "?" (some (String.singleton c)) 0
        else
          Run.complain ("Illegal option -" ++ String.singleton c ++ "\n")
          finish index place "?" none 0
      | _ :: ':' :: _ =>
        if !cs.isEmpty then finish index 0 (String.singleton c) (some (String.ofList cs)) 0
        else match words[index - 1]? with
          | some value => finish (index + 1) 0 (String.singleton c) (some value) 0
          | none =>
            if silent then finish index 0 ":" (some (String.singleton c)) 0
            else
              Run.complain ("No arg for -" ++ String.singleton c ++ " option\n")
              finish index 0 "?" none 0
      | _ => finish index place (String.singleton c) (some "") 0
  | _ => Run.fail "Usage: getopts optstring var [arg...]"

/-! ## Variables -/

/-- Give variables a mark, and values where they are given. -/
def marking (what : String) (has : Variable → Bool) (mark : Variable → Variable) : Builtin :=
  fun args => do
    let (found, rest) ← letters "p" args
    if rest.isEmpty || found.contains 'p' then
      let marked := (← get).bindings.entries.filter fun v => has v.2
      let sorted := marked.mergeSort fun a b => decide (a.1 ≤ b.1)
      Run.print (String.join (sorted.map fun (name, v) =>
        what ++ " " ++ name ++ (match v.value with
          | some value => "=" ++ quoted value
          | none => "") ++ "\n"))
    else
      rest.forM fun arg => do
        let (name, value) := setting arg
        demandName name
        if let some value := value then Run.setVariable name value
        Run.changeVariable name mark
    return 0

/-- Variables of the function. -/
def localize : Builtin := fun args => do
  if (← get).calls = 0 then Run.fail "not in a function"
  args.forM fun arg => do
    let (name, value) := setting arg
    demandName name
    Run.hide name
    if let some value := value then Run.setVariable name value
  return 0

/-- Forget variables or functions. -/
def unset : Builtin := fun args => do
  let (found, names) ← letters "vf" args
  names.forM fun name => do
    if found.contains 'f' then modify fun s => { s with functions := s.functions.erase name }
    else
      demandName name
      Run.unsetVariable name
  return 0

/-- The first field of a line that is read, and what follows it. -/
def firstField (separators : List Char) (cs : Marked) : Marked × Marked :=
  let isSep (c : Char × Bool) : Bool := !c.2 && separators.contains c.1
  let isBlank (c : Char × Bool) : Bool :=
    isSep c && (c.1 = ' ' || c.1 = '\t' || c.1 = '\n')
  let field := cs.takeWhile (!isSep ·)
  let rest := (cs.drop field.length).dropWhile isBlank
  let skipped := (cs.drop field.length).length - rest.length
  match rest with
  | c :: more =>
    if isSep c && (skipped = 0 || !isBlank c) then (field, more.dropWhile isBlank)
    else (field, rest)
  | [] => (field, [])

/-- The texts of variables that a line is read into. The last one has all that is left. -/
def fieldsFor (separators : List Char) : (count : Nat) → Marked → List String
  | 0, _ => []
  | 1, cs =>
    let isBlank (c : Char × Bool) : Bool :=
      !c.2 && separators.contains c.1 && (c.1 = ' ' || c.1 = '\t' || c.1 = '\n')
    let (field, rest) := firstField separators cs
    let whole := (cs.reverse.dropWhile isBlank).reverse
    [String.ofList ((if rest.isEmpty then field else whole).map Prod.fst)]
  | count + 2, cs =>
    let (field, rest) := firstField separators cs
    String.ofList (field.map Prod.fst) :: fieldsFor separators (count + 1) rest

/-- A line of a text, with how many characters it takes, and whether it is ended. Unless it is
`raw`, a backslash guards the next character. -/
def lineOf (raw : Bool) : List Char → Marked × Nat × Bool
  | [] => ([], 0, false)
  | '\\' :: c :: cs =>
    if raw then
      if c = '\n' then ([('\\', false)], 2, true)
      else
        let (line, n, ended) := lineOf raw cs
        (('\\', false) :: (c, false) :: line, n + 2, ended)
    else
      let (line, n, ended) := lineOf raw cs
      (if c = '\n' then line else (c, true) :: line, n + 2, ended)
  | c :: cs =>
    if c = '\n' then ([], 1, true)
    else
      let (line, n, ended) := lineOf raw cs
      ((c, false) :: line, n + 1, ended)

/-- Read a line into variables. -/
def read : Builtin := fun args => do
  let (found, names) ← do
    match args with
    | "-p" :: _ :: rest => letters "r" rest
    | "-rp" :: _ :: rest => pure (['r'], rest)
    | "-r" :: "-p" :: _ :: rest => pure (['r'], rest)
    | args => letters "r" args
  if names.isEmpty then Run.fail "arg count"
  let text := ((← Run.peekInput 0).getD "").toList
  let (line, size, ended) := lineOf (found.contains 'r') text
  Run.passInput 0 size
  let separators ← Run.separators
  let isBlank (c : Char × Bool) : Bool :=
    !c.2 && separators.contains c.1 && (c.1 = ' ' || c.1 = '\t' || c.1 = '\n')
  let values := fieldsFor separators names.length (line.dropWhile isBlank)
  (names.zip values).forM fun (name, value) => do
    demandName name
    Run.setVariable name value
  return if ended then 0 else 1

/-! ## Surroundings -/

/-- Change the working directory. -/
def cd : Builtin := fun args => do
  let (_, rest) ← letters "LP" args
  let old := Text.bytewise (Location.path (← get).store.home)
  let target ← match rest with
    | [] => do pure ((← Run.valueOf? "HOME").getD "")
    | "-" :: _ => do pure ((← Run.valueOf? "OLDPWD").getD old)
    | p :: _ => pure p
  let s ← get
  match if target.isEmpty then .ok ⟨s.store.home, some .directory⟩
      else s.store.find (Utility.path target) true with
  | .ok ⟨l, some .directory⟩ =>
    modify fun s => { s with store := { s.store with home := l } }
    let new := Text.bytewise (Location.path l)
    [("OLDPWD", old), ("PWD", new)].forM fun (name, value) => do
      Run.setVariable name value
      Run.changeVariable name fun v => { v with exported := true }
    if rest.head? = some "-" then Run.print (new ++ "\n")
    return 0
  | _ => Run.fail ("can't cd to " ++ target)

/-- The names of signals and their numbers. -/
def signals : List (String × Nat) := [
  ("EXIT", 0), ("HUP", 1), ("INT", 2), ("QUIT", 3), ("ILL", 4), ("TRAP", 5), ("ABRT", 6),
  ("BUS", 7), ("FPE", 8), ("KILL", 9), ("USR1", 10), ("SEGV", 11), ("USR2", 12), ("PIPE", 13),
  ("ALRM", 14), ("TERM", 15), ("STKFLT", 16), ("CHLD", 17), ("CONT", 18), ("STOP", 19),
  ("TSTP", 20), ("TTIN", 21), ("TTOU", 22)]

/-- The name of the signal that a name or a number means. -/
def signal? (s : String) : Option String :=
  match Utility.natural? s with
  | some n => (signals.find? (·.2 = n)).map Prod.fst
  | none => (signals.find? fun p => p.1 = s || "SIG" ++ p.1 = s).map Prod.fst

/-- Say what is done at the end and on signals. -/
def trap : Builtin := fun args => do
  let args := if args.head? = some "--" then args.tail else args
  match args with
  | [] =>
    let s ← get
    let found := signals.filterMap fun (name, _) =>
      (s.traps.get? name).map fun action => "trap -- " ++ quoted action ++ " " ++ name ++ "\n"
    Run.print (String.join found)
    return 0
  | first :: rest =>
    let (action, names) :=
      if rest.isEmpty || (Utility.natural? first).isSome then (none, first :: rest)
      else (if first = "-" then none else some first, rest)
    Utility.worst names fun s => do
      match signal? s with
      | some name =>
        modify fun shell => { shell with traps := match action with
          | some a => shell.traps.insert name a
          | none => shell.traps.erase name }
        return 0
      | none =>
        Run.complain ("trap: " ++ s ++ ": bad trap\n")
        return 1

/-- Let the jobs that are given, or all, come to their ends. -/
def wait : Builtin := fun args => do
  let waitTill (time : Nat) : Run Unit := do
    Run.wait (time - (← get).elapsed)
  match args with
  | [] =>
    waitTill ((← get).jobs.foldl (fun t j => max t j.2.ending) 0)
    modify fun s => { s with jobs := s.jobs.take 1 }
    return 0
  | args =>
    let statuses ← args.mapM fun s => do
      let jobs := (← get).jobs
      match (Utility.natural? s).bind fun n => jobs.lookup n with
      | some job =>
        waitTill job.ending
        return job.status
      | none => return 127
    return statuses.getLast?.getD 0

/-- A signal comes to the script itself: what is to be done on it stays to be done, and if there is
nothing, it ends the script. -/
def signalled (name : String) : Run Unit := do
  match (← get).traps.get? name with
  | some _ => modify fun s => { s with pending := s.pending ++ [name] }
  | none =>
    unless ["EXIT", "CHLD", "CONT"].contains name do
      modify fun s => { s with
        status := 128 + (signals.lookup name).getD 15, traps := s.traps.erase "EXIT" }
      throw .exited

/-- Send signals to jobs, or to the script itself. -/
def kill : Builtin := fun args => do
  let (name, rest) := match args with
    | "-s" :: s :: rest => (signal? s, rest)
    | arg :: rest =>
      if arg.startsWith "-" && arg.length > 1 then (signal? (dropText 1 arg), rest)
      else (some "TERM", arg :: rest)
    | [] => (none, [])
  match name with
  | none =>
    Run.fail ("Usage: kill [-s sigspec | -signum | -sigspec] [pid | job]... or\n"
      ++ "kill -l [exitstatus]")
  | some name =>
    Utility.worst rest fun s => do
      let state ← get
      let target := Utility.natural? (if s.startsWith "%" then dropText 1 s else s)
      if target = some Shell.process then
        signalled name
        return 0
      match target.bind fun n => (state.jobs.lookup n).map fun job => (n, job) with
      | some (n, job) =>
        if name ≠ "EXIT" && state.elapsed < job.ending then
          let code := 128 + (signals.lookup name).getD 15
          modify fun s => { s with
            jobs := s.jobs.map fun (m, j) => (m, if m = n then ⟨s.elapsed, code⟩ else j) }
        return 0
      | none =>
        Run.warn (if target.isSome then "No such process" else "Illegal number: " ++ s)
        return 1

/-- Other names for commands. -/
def aliasing : Builtin := fun args => do
  let shown (name value : String) : String := name ++ "=" ++ quoted value ++ "\n"
  if args.isEmpty then
    let found := (← get).aliases.entries.mergeSort fun a b => decide (a.1 ≤ b.1)
    Run.print (String.join (found.map fun (name, value) => shown name value))
  Utility.worst args fun arg => do
    match setting arg with
    | (name, some value) =>
      modify fun s => { s with aliases := s.aliases.insert name value }
      return 0
    | (name, none) =>
      match (← get).aliases.get? name with
      | some value =>
        Run.print (shown name value)
        return 0
      | none =>
        Run.complain ("alias: " ++ name ++ " not found\n")
        return 1

/-- Forget other names for commands. -/
def unalias : Builtin := fun args => do
  if args.head? = some "-a" then
    modify fun s => { s with aliases := .empty }
    return 0
  Utility.worst args fun name => do
    if ((← get).aliases.get? name).isNone then
      Run.complain ("unalias: " ++ name ++ " not found\n")
      return 1
    modify fun s => { s with aliases := s.aliases.erase name }
    return 0

/-- The commands of the shell that run no other commands. -/
def named : List (String × Builtin) := [
  (":", fun _ => return 0), ("true", fun _ => return 0), ("false", fun _ => return 1),
  ("exit", exit), ("return", leave), ("break", jump .broke), ("continue", jump .continued),
  ("shift", shift), ("set", set), ("getopts", getopts),
  ("export", marking "export" Variable.exported fun v => { v with exported := true }),
  ("readonly", marking "readonly" Variable.fixed fun v => { v with fixed := true }),
  ("local", localize), ("unset", unset), ("read", read), ("cd", cd), ("chdir", cd),
  ("trap", trap), ("wait", wait), ("kill", kill), ("alias", aliasing), ("unalias", unalias),
  ("echo", Utility.echo "echo"), ("printf", Utility.printf "printf"),
  ("test", Utility.test "test"), ("[", Utility.test "["), ("pwd", Utility.pwd "pwd"),
  ("umask", fun args => do
    if args.isEmpty then Run.print "0022\n"
    return 0),
  ("hash", fun _ => return 0)]

end Builtin

end ShaderVariants.Script
