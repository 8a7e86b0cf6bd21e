import ShaderVariants.Script.Program

/-!
# Running scripts

`run` runs a command, within a time limit if there is one: a program, or a script that is in the
store and whose first line names an interpreter. All time that passes is time that a program waits.
A command whose limit is zero has no time at all and does nothing.

`command` does one command of a script, and hands the commands inside it to a function for such:
`commandAt` closes this circle up to a depth. A script that goes deeper, or that does very many
commands, is taken for one that does not end.
-/

namespace ShaderVariants.Script

/-- How a command inside another one is done. -/
abbrev Again := Command → Run Unit

namespace Execution

/-! ## Texts of scripts -/

/-- Do the commands of a script, line by line. -/
def lines (again : Again) : (fuel : Nat) → Source → Run Unit
  | 0, _ => pure ()
  | fuel + 1, source => do
    let s ← get
    match Grammar.unit.run { source with
      documents := s.documents, aliases := s.aliases.entries } with
    | .error e =>
      modify fun s => { s with line := e.line }
      Run.fail e.message
    | .ok (none, _) => pure ()
    | .ok (some commands, rest) =>
      modify fun s => { s with documents := rest.documents }
      unless commands.isEmpty do again (Grammar.together commands)
      lines again fuel rest

/-- Do the commands of a text. -/
def text (again : Again) (s : String) : Run Unit :=
  lines again (s.length + 2) { rest := s.toList }

/-- Do what is to be done at the end of a script, however a part of it stops. -/
def concluded (again : Again) (body : Run Unit) : Run Unit := do
  let stop ← Run.caught body
  if stop = some .killed then throw .killed
  match (← get).traps.get? "EXIT" with
  | none => pure ()
  | some action =>
    let status := (← get).status
    modify fun s => { s with
      traps := s.traps.erase "EXIT", loops := 0, tested := false, command := none
      ending := some status }
    match ← Run.caught (text again action) with
    | some .killed => throw .killed
    | some .exited => pure ()
    | _ => Run.ended status

/-- A part of a script that changes nothing around it, in a frame of redirections. -/
def subshell (again : Again) (frame : Run Unit → Run Unit) (body : Run Unit) : Run Unit :=
  Run.isolated do
    modify fun s => { s with traps := .empty, ending := none }
    frame (concluded again body)

/-- What a script inside a word prints. -/
def output (again : Again) (commands : List Command) : Run String := do
  let before := (← get).status
  let printed ← Run.collected (concluded again do
    modify fun s => { s with traps := .empty, ending := none, tested := false }
    again (Grammar.together commands))
  modify fun s => { s with inner := s.status, status := before }
  return printed

/-! ## Redirections -/

/-- Why a file cannot be opened or made, in words. -/
def refusalFor (missing : String) : FileError → String
  | .notFound => missing
  | .notDirectory => missing
  | e => refusal e

/-- The channel of a file, or the one that a path in the directory of devices stands for. -/
def openFile (direction : Direction) (p : String) : Run Nat := do
  let existing (descriptor : Nat) : Run (Option Nat) := do
    return (← get).descriptors.get? descriptor
  let standard ← match p with
    | "/dev/stdin" => existing 0
    | "/dev/stdout" => existing 1
    | "/dev/stderr" => existing 2
    | "/dev/fd/0" => existing 0
    | "/dev/fd/1" => existing 1
    | "/dev/fd/2" => existing 2
    | _ => pure none
  if let some id := standard then return id
  let s ← get
  let found := s.store.find (pathOf p) true
  let cannotMake (e : FileError) : Run Nat :=
    Run.fail ("cannot create " ++ p ++ ": " ++ refusalFor "Directory nonexistent" e)
  let make (empty append : Bool) : Run Nat := do
    let old : Content := match s.store.content (pathOf p) with
      | .ok c => if empty then .text "" else c
      | .error _ => .text ""
    match s.store.writeContent (pathOf p) old with
    | .error e => cannotMake e
    | .ok store =>
      modify fun s => { s with store }
      match store.find (pathOf p) true with
      | .ok place => Run.newChannel (.file place.location 0 append)
      | .error e => cannotMake e
  match direction with
  | .input =>
    let cannotOpen (e : FileError) : Run Nat :=
      Run.fail ("cannot open " ++ p ++ ": " ++ refusalFor "No such file" e)
    match found with
    | .ok ⟨l, some _⟩ => Run.newChannel (.file l 0 false)
    | .ok ⟨_, none⟩ => cannotOpen .notFound
    | .error e => cannotOpen e
  | .output clobber =>
    match found with
    | .ok ⟨_, some (.file ..)⟩ =>
      if !clobber && s.options.contains 'C' then cannotMake .alreadyExists else make true false
    | _ => make true false
  | .append => make false true
  | _ => make false false

/-- What a descriptor is to lead to. -/
inductive Aim where
  | file (direction : Direction) (path : String)
  | document (id : Nat)
  /-- What another descriptor leads to, or nothing. -/
  | descriptor (other : Option Nat)

/-- What a redirection aims at. -/
def aim (again : Again) : Redirect → Run (Nat × Aim)
  | .mk descriptor direction target => do
    match direction with
    | .document id => return (descriptor, .document id)
    | .join =>
      let name ← Word.text (output again) target
      match name.toList with
      | ['-'] => return (descriptor, .descriptor none)
      | [c] =>
        if c.isDigit then return (descriptor, .descriptor (some (c.toNat - '0'.toNat)))
      | _ => pure ()
      modify fun s => { s with line := s.line + 1 }
      Run.fail "Syntax error: Bad fd number"
    | direction => return (descriptor, .file direction (← Word.text (output again) target))

/-- Have a descriptor lead to what is aimed at. -/
def redirect (again : Again) (descriptor : Nat) : Aim → Run Unit
  | .document id => do
    let w := ((← get).documents[id]?).getD []
    let text ← Word.documentText (output again) w
    Run.direct descriptor (← Run.newChannel (.source text))
  | .descriptor none =>
    modify fun s => { s with descriptors := s.descriptors.erase descriptor }
  | .descriptor (some n) => do
    match (← get).descriptors.get? n with
    | some id => Run.direct descriptor id
    | none => Run.fail (toString n ++ ": Bad file descriptor")
  | .file direction p => do Run.direct descriptor (← openFile direction p)

/-- Redirect descriptors from here on. -/
def redirectAll (again : Again) (rs : List Redirect) : Run Unit := do
  let aims ← rs.mapM (aim again)
  aims.forM fun (descriptor, a) => redirect again descriptor a

/-- A part with redirections, and whether they are possible. -/
def redirected (again : Again) (rs : List Redirect) (body : Run Unit) : Run Bool := do
  let before := (← get).descriptors
  let restore : Run Unit := modify fun s => { s with descriptors := before }
  let aims ← rs.mapM (aim again)
  match ← Run.caught (aims.forM fun (descriptor, a) => redirect again descriptor a) with
  | some .failed =>
    restore
    Run.ended 2
    return false
  | some e => throw e
  | none =>
    Run.ensuring body restore
    return true

/-! ## Programs -/

/-- The variables of a program that is started. -/
def startVariables (s : Shell) : Table String Variable :=
  .ofList (s.environment.map fun (name, value) => (name, { value := some value, exported := true }))

/-- The directories of programs. -/
def programPath : Run String := do
  return (← Run.valueOf? "PATH").getD Program.usualPath

/-- Run an interpreter of scripts. -/
def shell (again : Again) (tool : String) (arguments : List String) : Run Unit :=
  Run.isolated do
    modify fun s => { s with
      name := tool, arguments := [], bindings := startVariables s, functions := .empty
      aliases := .empty, traps := .empty, options := [], status := 0, line := 0, command := none
      tested := false, loops := 0, calls := 0, hidden := [], jobs := [], optionPlace := 0
      ending := none }
    Run.changeVariable "IFS" fun _ => { value := some " \t\n" }
    Run.changeVariable "OPTIND" fun _ => { value := some "1" }
    let home := Text.bytewise (Location.path (← get).store.home)
    Run.changeVariable "PWD" fun v => { v with value := some home }
    let rec options (inline : Bool) : List String → Run (Bool × List String)
      | [] => return (inline, [])
      | arg :: rest => do
        match arg.toList with
        | ['-', '-'] => return (inline, rest)
        | ['-'] => return (inline, rest)
        | sign :: c :: cs =>
          if sign = '-' || sign = '+' then
            let letters := (c :: cs).filter fun c => c ≠ 'c' && c ≠ 'l'
            let takes := letters.contains 'o' && !rest.isEmpty
            let given := String.ofList (sign :: letters)
            unless letters.isEmpty do
              let _ ← Builtin.setOptions (given :: if takes then rest.take 1 else [])
            let inline := inline || (sign = '-' && (c :: cs).contains 'c')
            if takes then
              match rest with
              | _ :: rest => options inline rest
              | [] => return (inline, [])
            else options inline rest
          else return (inline, arg :: rest)
        | _ => return (inline, arg :: rest)
    concluded again do
      let (inline, rest) ← options false arguments
      if inline then
        match rest with
        | [] => Run.fail "-c requires an argument"
        | source :: rest =>
          modify fun s => { s with name := rest.headD tool, arguments := rest.tail }
          text again source
      else match rest with
        | p :: rest =>
          if (← Run.option 's') then
            modify fun s => { s with arguments := p :: rest }
            text again ((← Run.readAll 0).getD "")
          else match (← get).store.content (pathOf p) with
            | .ok content =>
              modify fun s => { s with name := p, arguments := rest }
              text again (bytesIn content)
            | .error e =>
              Run.fail ("cannot open " ++ p ++ ": " ++ refusalFor "No such file" e)
        | [] => text again ((← Run.readAll 0).getD "")

/-- Run a program that was found. -/
abbrev Runner := (name tool : String) → (arguments : List String) → Run Unit

/-- Run a command from another program, which says it if that is not possible. -/
def onBehalf (again : Again) (runner : Runner) (complaint : (cannot : Bool) → String → String)
    (program : String) (arguments : List String) : Run Unit := do
  let s ← get
  match Launch.ofCommand s.store (← programPath) program arguments with
  | .program name tool args => runner name tool args
  | .plain p args => shell again "sh" (p :: args)
  | .missing =>
    Run.complain (complaint false (refusal .notFound) ++ "\n")
    Run.ended 127
  | .denied =>
    Run.complain (complaint true (refusal .denied) ++ "\n")
    Run.ended 126
  | .refused e =>
    Run.complain (complaint true (refusal e) ++ "\n")
    Run.ended 126

/-- Run a command with other variables, or print the variables. -/
def environment (again : Again) (runner : Runner) (tool : String) (args : List String) :
    Run Unit := do
  let known : Known := {
    letters := "i0v", valued := "uCS", leading := true, status := 125
    names := [("ignore-environment", 'i'), ("unset", 'u'), ("chdir", 'C'), ("split-string", 'S'),
      ("null", '0')] }
  match known.parse (args.length + 1) args with
  | .error e =>
    Utility.complain tool e.message
    Utility.advise tool
    Run.ended 125
  | .ok g =>
    let split := (g.value? 'S').map fun s => (s.splitOn " ").filter (· ≠ "")
    let operands := split.getD [] ++ g.operands
    let (clear, operands) := match operands with
      | "-" :: rest => (true, rest)
      | operands => (g.has 'i', operands)
    let settings := operands.takeWhile (·.contains '=')
    let rest := operands.drop settings.length
    Run.isolated do
      modify fun s => { s with bindings := if clear then .empty else startVariables s }
      (g.options.filter (·.1 = 'u')).forM fun o =>
        modify fun s => { s with bindings := s.bindings.erase o.2 }
      settings.forM fun arg => do
        let (name, value) := Builtin.setting arg
        Run.changeVariable name fun _ => { value := some (value.getD ""), exported := true }
      match rest with
      | [] =>
        let s ← get
        Run.print (String.join (s.environment.map fun (name, value) =>
          name ++ "=" ++ value ++ if g.has '0' then "\x00" else "\n"))
        Run.ended 0
      | program :: args =>
        onBehalf again runner
          (fun _ why => tool ++ ": " ++ Utility.quoted program ++ ": " ++ why) program args

/-- The words of a text: blanks separate them, except where quotes or a backslash stand. -/
def quotedWords (word : Option (List Char)) : (quote : Option Char) → List Char → List String
  | _, [] => (word.map fun w => String.ofList w.reverse).toList
  | some q, c :: cs =>
    if c = q then quotedWords (some (word.getD [])) none cs
    else quotedWords (some (c :: word.getD [])) (some q) cs
  | none, '\\' :: c :: cs => quotedWords (some (c :: word.getD [])) none cs
  | none, c :: cs =>
    if c = ' ' ∨ c = '\t' ∨ c = '\n' then
      (word.map fun w => String.ofList w.reverse).toList ++ quotedWords none none cs
    else if c = '\'' ∨ c = '"' then quotedWords (some (word.getD [])) (some c) cs
    else quotedWords (some (c :: word.getD [])) none cs

/-- Items in lists of at most a size. -/
def chunks {α : Type} (size : Nat) : (fuel : Nat) → List α → List (List α)
  | 0, _ => []
  | _, [] => []
  | fuel + 1, items => items.take size :: chunks size fuel (items.drop size)

/-- Run a command with the words that there are to read. -/
def withWords (again : Again) (runner : Runner) (tool : String) (args : List String) :
    Run Unit := do
  let known : Known := {
    letters := "0rtpx", valued := "nIdLPsEa", leading := true
    names := [("null", '0'), ("no-run-if-empty", 'r'), ("max-args", 'n'), ("replace", 'I'),
      ("delimiter", 'd'), ("max-lines", 'L'), ("max-procs", 'P'), ("verbose", 't')] }
  match known.parse (args.length + 1) args with
  | .error e =>
    Utility.complain tool e.message
    Utility.advise tool
    Run.ended 1
  | .ok g =>
    let input := (← Run.readAll 0).getD ""
    let cut (separator : String) : List String :=
      let parts := input.splitOn separator
      if parts.getLast? = some "" then parts.dropLast else parts
    let trimmed (s : String) : String :=
      String.ofList (s.toList.dropWhile fun c => c = ' ' || c = '\t')
    let command := if g.operands.isEmpty then ["echo"] else g.operands
    let items :=
      if g.has '0' then cut "\x00"
      else match g.value? 'd', g.value? 'I' with
        | some d, _ => cut (String.ofList (delimiterOf d))
        | none, some _ => ((cut "\n").map trimmed).filter (· ≠ "")
        | none, none => quotedWords none none input.toList
    let rows := ((Utility.lines input).1.map fun l => quotedWords none none l.toList).filter
      (!·.isEmpty)
    let batches : List (List String) := match g.value? 'I' with
      | some mark => items.map fun item => command.map fun w => w.replace mark item
      | none =>
        let sized := match (g.value? 'n').bind Utility.natural?,
            (g.value? 'L').bind Utility.natural? with
          | some (n + 1), _ => chunks (n + 1) (items.length + 1) items
          | _, some (n + 1) => (chunks (n + 1) (rows.length + 1) rows).map List.flatten
          | _, _ => [items]
        let sized := if items.isEmpty then (if g.has 'r' then [] else [[]]) else sized
        sized.map (command ++ ·)
    let status ← batches.foldlM (fun status batch => do
      if status = 127 ∨ status = 126 ∨ status = 124 then return status
      match batch with
      | [] => return status
      | program :: args =>
        if g.has 't' then Run.complain (" ".intercalate batch ++ "\n")
        Run.reading "" (onBehalf again runner
          (fun _ why => tool ++ ": " ++ program ++ ": " ++ why) program args)
        let ended := (← get).status
        if ended = 0 then return status
        else if ended = 127 ∨ ended = 126 then return ended
        else if ended = 255 then return 124
        else return 123) 0
    Run.ended status
where
  /-- The characters that escapes in a delimiter write. -/
  delimiterOf (s : String) : List Char :=
    (Utility.Escapes.ofText { zero := true } s).1

/-- Run a program. Programs that run other programs do so by `runner`. -/
def programWith (again : Again) (runner : Runner) : Runner := fun name tool args => do
  if Program.shells.contains name then shell again tool args
  else if name = "env" then environment again runner tool args
  else if name = "xargs" then withWords again runner tool args
  else match Program.utilities.lookup name with
    | some use =>
      modify fun s => { s with lost := false }
      Run.ended (← use tool args)
      if (← get).lost then
        Utility.complain tool "write error: Bad file descriptor"
        modify fun s => { s with lost := false, status := 1 }
    | none => Run.ended 127

/-- Run a program; programs run others up to a depth. -/
def program (again : Again) : (depth : Nat) → Runner
  | 0 => fun _ _ _ => throw .killed
  | depth + 1 => programWith again (program again depth)

/-- Run a program that a script names. -/
def external (again : Again) (path name : String) (args : List String) : Run Unit := do
  match Launch.ofCommand (← get).store path name args with
  | .program n tool args => program again 20 n tool args
  | .plain p args => shell again p (p :: args)
  | .missing =>
    Run.warn (name ++ ": " ++ if name.isEmpty then "Permission denied" else "not found")
    Run.ended 127
  | .denied =>
    Run.warn (name ++ ": Permission denied")
    Run.ended 126
  | .refused e =>
    Run.warn (name ++ ": " ++ refusal e)
    Run.ended 126

/-! ## Commands of the shell that do others -/

/-- How deep functions may be nested. -/
def maxCalls : Nat :=
  1000

/-- Functions are nested too deep. -/
def tooDeep : Run Unit :=
  Run.fail ("Maximum function recursion depth (" ++ toString maxCalls ++ ") reached")

/-- Do a function. -/
def function (again : Again) (body : Command) (args : List String) : Run Unit := do
  let before ← get
  if maxCalls ≤ before.calls then tooDeep
  Run.framed do
    modify fun s => { s with
      arguments := args, loops := 0, calls := s.calls + 1, optionPlace := 0 }
    let stop ← Run.caught (again body)
    modify fun s => { s with
      arguments := before.arguments, loops := before.loops, calls := before.calls
      optionPlace := before.optionPlace }
    unless stop = some .returned do Run.rethrow stop

/-- A part in which messages say the name of a command. -/
def naming (name : String) (body : Run Unit) : Run Unit := do
  let before := (← get).command
  modify fun s => { s with command := some name }
  Run.ensuring body (modify fun s => { s with command := before })

/-- Do the commands of a file. -/
def sourced (again : Again) (args : List String) : Run Unit := do
  match args with
  | [] => Run.ended 0
  | p :: _ =>
    let s ← get
    let dirs := (← programPath).splitOn ":"
    let candidates := if p.contains '/' then [p]
      else dirs.map fun dir => if dir.isEmpty then p else dir ++ "/" ++ p
    let found := candidates.findSome? fun q => ((s.store.content (pathOf q)).toOption).map (q, ·)
    match found with
    | some (q, content) =>
      let stop ← Run.caught (naming q (Run.testing false (do
        Run.ended 0
        text again (bytesIn content))))
      unless stop = some .returned do Run.rethrow stop
    | none =>
      if p.contains '/' then
        let e := match s.store.content (pathOf p) with
          | .error e => e
          | .ok _ => .notFound
        Run.fail ("cannot open " ++ p ++ ": " ++ refusalFor "No such file" e)
      else Run.fail (p ++ ": not found")

/-- What a name stands for, as it is said in words or by itself. -/
def described (inWords : Bool) (name : String) : Run Bool := do
  let s ← get
  let say (words plain : String) : Run Bool := do
    Run.print ((if inWords then name ++ " " ++ words else plain) ++ "\n")
    return true
  if Keyword.all.contains name then say "is a shell keyword" name
  else match s.aliases.get? name with
    | some value =>
      say ("is an alias for " ++ value) ("alias " ++ name ++ "=" ++ Builtin.quoted value)
    | none =>
      if (s.functions.get? name).isSome then say "is a shell function" name
      else if Grammar.special.contains name then say "is a special shell builtin" name
      else if name = "command" || name = "type" || (Builtin.named.lookup name).isSome then
        say "is a shell builtin" name
      else match Executable.find s.store (← programPath) name with
        | (p, .utility _) => say ("is " ++ p) p
        | (p, .text _) => say ("is " ++ p) p
        | _ =>
          if inWords then Run.print (name ++ ": not found\n")
          return false

/-- The commands of the shell that do other commands. -/
def leaders : List String :=
  [".", "eval", "exec", "command", "type"]

/-- Do a command of the shell. -/
def builtin (again : Again) (name : String) (args : List String) : Run Unit := do
  if name = "." then sourced again args
  else if name = "eval" then
    Run.ended 0
    text again (" ".intercalate args)
  else if name = "exec" then
    match if args.head? = some "--" then args.tail else args with
    | [] => Run.ended 0
    | program :: args =>
      external again (← programPath) program args
      modify fun s => { s with traps := s.traps.erase "EXIT" }
      throw .exited
  else if name = "type" then
    let statuses ← args.mapM fun n => described true n
    Run.ended (if statuses.all id then 0 else 127)
  else match Builtin.named.lookup name with
    | some use => Run.ended (← use args)
    | none => Run.ended 127

/-- The name is one of a command of the shell. -/
def isBuiltin (name : String) : Bool :=
  leaders.contains name || (Builtin.named.lookup name).isSome

/-- Do a command of the shell under its name. If something is wrong with it, the script goes on,
unless `strict` holds. -/
def named (again : Again) (strict : Bool) (name : String) (args : List String) : Run Unit := do
  modify fun s => { s with lost := false }
  match ← Run.caught (naming name do
    builtin again name args
    if (← get).lost then
      Run.warn (name ++ ": I/O error")
      modify fun s => { s with lost := false, status := 1 }) with
  | some .failed => if strict then throw .failed else pure ()
  | stop => Run.rethrow stop

/-- Do a command, but no function. -/
def plainly (again : Again) : List String → Run Unit
  | [] => Run.ended 0
  | "-p" :: rest => plainly again rest
  | "--" :: rest => plainly again rest
  | "-v" :: names => do
    match names with
    | [] => Run.ended 0
    | n :: _ => Run.ended (if ← described false n then 0 else 127)
  | "-V" :: names => do
    let statuses ← names.mapM fun n => described true n
    Run.ended (if statuses.all id then 0 else 127)
  | "command" :: rest => plainly again rest
  | name :: args => do
    if isBuiltin name then named again false name args
    else external again (← programPath) name args

/-! ## Commands -/

/-- Do what is to be done on the signals that have come. -/
def attended (again : Again) : Run Unit := do
  let s ← get
  unless s.pending.isEmpty do
    set { s with pending := [] }
    s.pending.forM fun name => do
      text again ((s.traps.get? name).getD "")
      Run.ended s.status

/-- A command that has failed ends the script, if that is asked for and its end is not looked at. -/
def checked : Run Unit := do
  let s ← get
  if s.status ≠ 0 && !s.tested && s.options.contains 'e' then throw .exited

/-- Set variables. -/
def setAll (again : Again) (settings : List (String × Word)) : Run (List (String × String)) :=
  settings.mapM fun (name, w) => do
    let value ← Word.settingText (output again) w
    Run.setVariable name value
    return (name, value)

/-- Set variables for a command, and have programs know them. -/
def setFor (again : Again) (settings : List (String × Word)) : Run (List (String × String)) := do
  settings.forM fun (name, _) => Run.hide name
  let values ← setAll again settings
  values.forM fun (name, _) => Run.changeVariable name fun v => { v with exported := true }
  return values

/-- Say what command is done, on the descriptor that messages went to before. -/
def traced (before : Table Nat Nat) (values : List (String × String)) (fields : List String) :
    Run Unit := do
  if ← Run.option 'x' then
    let now := (← get).descriptors
    modify fun s => { s with descriptors := before }
    let words := values.map (fun (name, value) => name ++ "=" ++ value) ++ fields
    Run.complain ((← Run.valueOf? "PS4").getD "+ " ++ " ".intercalate words ++ "\n")
    modify fun s => { s with descriptors := now }

/-- Do a simple command. -/
def simple (again : Again) (line : Nat) (settings : List (String × Word)) (words : List Word)
    (rs : List Redirect) : Run Unit := do
  Run.step
  modify fun s => { s with line, inner := 0 }
  let declares := match words.head?.bind Word.bare? with
    | some name => ["export", "readonly", "local"].contains name
    | none => false
  let fields ← (words.mapM fun w => do
    if declares then
      match Word.setting? w with
      | some (name, value) =>
        return [name ++ "=" ++ (← Word.settingText (output again) value)]
      | none => Word.fields (output again) w
    else Word.fields (output again) w)
  let before := (← get).descriptors
  match fields.flatten with
  | [] =>
    let _ ← redirected again rs do
      let values ← setAll again settings
      traced before values []
      modify fun s => { s with status := s.inner }
  | name :: args =>
    let s ← get
    if name = "exec" && args.isEmpty then
      redirectAll again rs
      let values ← setAll again settings
      traced before values [name]
      Run.ended 0
    else if Grammar.special.contains name then
      let fine ← redirected again rs do
        let values ← setAll again settings
        traced before values (name :: args)
        named again true name args
      unless fine do throw .failed
    else
      let _ ← redirected again rs (Run.framed do
        let values ← setFor again settings
        traced before values (name :: args)
        match s.functions.get? name with
        | some body => function again body args
        | none =>
          if name = "command" then
            match args with
            | "exec" :: _ => named again false "exec" args.tail
            | _ => plainly again args
          else if isBuiltin name then named again false name args
          else external again (← programPath) name args)
  attended again
  checked

/-- Do commands of which each reads what the one before it prints. -/
def pipe (again : Again) (input : Option String) : List Command → Run Unit
  | [] => pure ()
  | [c] =>
    match input with
    | some text => subshell again (Run.reading text) (again c)
    | none => subshell again id (again c)
  | c :: next :: rest => do
    let body := match input with
      | some text => Run.reading text (again c)
      | none => again c
    let printed ← Run.collected (concluded again do
      modify fun s => { s with traps := .empty, ending := none }
      body)
    pipe again (some printed) (next :: rest)

/-- Start a command that goes on by itself. -/
def start (again : Again) (c : Command) : Run Unit := do
  let before ← get
  modify fun s => { s with limit := none }
  let stop ← Run.caught (Run.isolated (Run.reading "" (do
    modify fun s => { s with traps := .empty, ending := none, tested := false }
    concluded again (again c))))
  modify fun s => { s with
    limit := before.limit, elapsed := before.elapsed, status := 0
    jobs := (5000 + before.jobs.length,
      ⟨if stop.isSome then Utility.forever else s.elapsed, s.status⟩) :: before.jobs }

/-- Do the body of a loop, and say whether there may be another round. -/
def round (body : Run Unit) : Run Bool := do
  match ← Run.caught body with
  | none => return true
  | some (.continued 0) => return true
  | some (.continued (n + 1)) => throw (.continued n)
  | some (.broke 0) => return false
  | some (.broke (n + 1)) => throw (.broke n)
  | some e => throw e

/-- A loop, whose commands can leave it. -/
def looping (body : Run Unit) : Run Unit := do
  modify fun s => { s with loops := s.loops + 1 }
  Run.ensuring body (modify fun s => { s with loops := s.loops - 1 })

/-- How many rounds a loop may have. -/
def maxRounds : Nat :=
  1000000

/-- Do a command. -/
def command (again : Again) : Command → Run Unit
  | .simple line settings words rs => simple again line settings words rs
  | .pipe stages => do
    pipe again none stages
    checked
  | .background c => start again c
  | .follow onSuccess first next => do
    Run.testing true (again first)
    if decide ((← get).status = 0) = onSuccess then again next
  | .negate c => do
    Run.testing true (again c)
    Run.ended (if (← get).status = 0 then 1 else 0)
  | .inTurn commands => do
    if commands.isEmpty then Run.ended 0
    commands.forM again
  | .subshell line body rs => do
    modify fun s => { s with line }
    let frame (part : Run Unit) : Run Unit := do
      unless ← redirected again rs part do throw .failed
    subshell again frame (again body)
    checked
  | .redirected line body rs => do
    modify fun s => { s with line }
    let _ ← redirected again rs (again body)
  | .cond condition thenBody elseBody => do
    Run.testing true (again condition)
    if (← get).status = 0 then again thenBody else again elseBody
  | .loop untilTrue condition body => looping do
    let status ← Run.rounds (fun status => do
      Run.step
      let going ← round do
        Run.testing true (again condition)
      if !going then return (status, false)
      if decide ((← get).status = 0) = untilTrue then return (status, false)
      let going ← round (again body)
      return ((← get).status, going)) maxRounds 0
    Run.ended status
  | .forEach line name words body => do
    modify fun s => { s with line }
    let items ← match words with
      | some words => do pure ((← words.mapM (Word.fields (output again))).flatten)
      | none => do pure (← get).arguments
    if items.isEmpty then Run.ended 0
    looping do
      let _ ← Run.rounds (fun (items : List String) => do
        match items with
        | [] => return ([], false)
        | item :: rest =>
          Run.step
          Run.setVariable name item
          let going ← round (again body)
          return (rest, going)) maxRounds items
  | .choice line subject arms => do
    modify fun s => { s with line }
    let value ← Word.text (output again) subject
    let chosen ← arms.findM? fun (patterns, _) => patterns.anyM fun w => do
      return Glob.matchAll (← Word.pattern (output again) w) value.toList
    match chosen with
    | some (_, .inTurn []) => Run.ended 0
    | some (_, body) => again body
    | none => Run.ended 0
  | .define _ name body => do
    modify fun s => { s with functions := s.functions.insert name body, status := 0 }

/-- Do a command inside at most so many others. -/
def commandAt : (depth : Nat) → Again
  | 0 => fun _ => tooDeep
  | depth + 1 => fun c => do
    unless ← Run.option 'n' do command (commandAt depth) c

/-- How deep commands may be nested when they are done. -/
def maxDepth : Nat :=
  1500

/-- How many commands a script may do before it is taken for one that does not end. -/
def maxSteps : Nat :=
  200000

/-- The variables that every program is started with. -/
def usualVariables : List (String × String) :=
  [("HOME", "/root"), ("PATH", Program.usualPath), ("RUST_LOG", "off")]

/-- The state in which a command starts. -/
def initial (limit : Option Duration) (tool : String) (s : Store) : Shell := {
  store := s, name := tool, limit := limit.map Duration.nanoseconds, steps := maxSteps
  channels := #[.source "", .results, .messages]
  descriptors := .ofList [(0, 0), (1, 1), (2, 2)]
  bindings := .ofList (usualVariables.map fun (name, value) =>
    (name, { value := some value, exported := true })) }

end Execution

/-- A command is given up at its limit. -/
def timedOut (limit : Option Duration) (c : ToolCommand) : ToolError :=
  .timeout c.program (limit.getD ⟨0⟩)

/-- Run a command on a store, for less than a limit if there is one. -/
def run (limit : Option Duration) (c : ToolCommand) (s : Store) : ToolRun :=
  let notStarted : ToolRun := ⟨.error (.spawn c.shown.program), s, {}⟩
  let tool := Text.bytewise c.program
  let arguments := c.arguments.map Text.bytewise
  if !c.isSound then notStarted
  else match Launch.ofCommand s Program.usualPath tool arguments with
    | .program name called args =>
      if limit = some ⟨0⟩ then ⟨.error (timedOut limit c), s, {}⟩
      else
        let body := Execution.program (Execution.commandAt Execution.maxDepth) 20 name called args
        let finish (t : Shell) (result : Except ToolError Unit) : ToolRun :=
          ⟨result, { t.store with home := s.home },
            ⟨Text.assembled t.printed.out, Text.assembled t.printed.err⟩⟩
        match body (Execution.initial limit tool s) with
        | .error .killed t => finish t (.error (timedOut limit c))
        | .error _ t => finish t (.error (.failed c.program t.status))
        | .ok _ t =>
          finish t (if t.status = 0 then .ok () else .error (.failed c.program t.status))
    | _ => notStarted

/-- The launcher that runs a command for less than a limit. -/
def launch : Launcher where
  run limit c s := run (some limit) c s

end ShaderVariants.Script
