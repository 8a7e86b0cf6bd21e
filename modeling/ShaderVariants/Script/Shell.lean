import ShaderVariants.Script.Syntax
import ShaderVariants.Text.Bytes
import ShaderVariants.Tool

/-!
# The state of a running script

A running script has variables, arguments and options, the store that it works on, what it has
printed, and the time that has passed. What it prints and reads goes through descriptors, each of
which leads to a channel: a file, a pipe, or the console. It may stop early (`Stop`): because it
ends itself, because something is wrong, because it is stopped at its time limit, or in the middle
of a loop or a function.
-/

namespace ShaderVariants.Script

/-- A variable. -/
structure Variable where
  value : Option String := none
  /-- Programs that are started have the variable too. -/
  exported : Bool := false
  fixed : Bool := false
deriving DecidableEq

/-- What a descriptor leads to. -/
inductive Channel where
  | results
  | messages
  /-- A file, from a position on, or at its end. -/
  | file (l : Location) (position : Nat) (append : Bool)
  /-- A text that is there to be read. -/
  | source (rest : String)
  /-- Printed text that is collected. -/
  | collector (text : String)
deriving DecidableEq

/-- A part of a script that goes on by itself: when and how it ends. -/
structure Job where
  ending : Nat
  status : Nat
deriving DecidableEq

/-- What a running script knows and has done. -/
structure Shell where
  store : Store
  /-- The name that the script was started by. -/
  name : String
  arguments : List String := []
  bindings : Table String Variable := .empty
  functions : Table String Command := .empty
  aliases : Table String String := .empty
  /-- What is done at the end and on signals. -/
  traps : Table String String := .empty
  /-- The signals that have come and that something is still to be done on. -/
  pending : List String := []
  /-- The letters of the options that are on. -/
  options : List Char := []
  /-- How the last command ended. -/
  status : Nat := 0
  /-- How the last script inside a word ended. -/
  inner : Nat := 0
  /-- The line of the command that runs. -/
  line : Nat := 0
  /-- The name of the command that runs, if messages say it. -/
  command : Option String := none
  /-- Texts that stand below their commands. -/
  documents : Array (List Part) := #[]
  channels : Array Channel := #[]
  descriptors : Table Nat Nat := .empty
  printed : Console := {}
  /-- Something that was printed for results has gone nowhere. -/
  lost : Bool := false
  /-- The nanoseconds that have passed. -/
  elapsed : Nat := 0
  limit : Option Nat := none
  /-- How many commands may still run. -/
  steps : Nat := 0
  /-- The end of a command is looked at, so that its failing does not end the script. -/
  tested : Bool := false
  /-- How many loops the command is in. -/
  loops : Nat := 0
  /-- How many functions the command is in. -/
  calls : Nat := 0
  /-- How the script ends, while something is done at its end. -/
  ending : Option Nat := none
  /-- The variables that functions hide, innermost function first. -/
  hidden : List (List (String × Option Variable)) := []
  jobs : List (Nat × Job) := []
  /-- Where the letters of options are read next: an argument and a place in it. -/
  optionPlace : Nat := 0

/-- Why a script stops before its last command. -/
inductive Stop where
  | exited
  /-- Something is wrong with a command. -/
  | failed
  /-- It was stopped at its limit, or it would not end. -/
  | killed
  /-- So many loops are left, or their next rounds begun. -/
  | broke (loops : Nat)
  | continued (loops : Nat)
  /-- A function or a file is left. -/
  | returned
deriving DecidableEq

/-- A part of running a script. -/
abbrev Run := EStateM Stop Shell

/-- The content of a file that is given byte by byte. -/
def contentOf (s : String) : Content :=
  if s.toList.all (·.toNat < 128) then .text s else .ofBytes (Text.bytesOf s)

/-- A content byte by byte. -/
def bytesIn : Content → String
  | .text s => Text.bytewise s
  | .binary bytes => String.ofList (bytes.map fun b => Char.ofNat b.toNat)

/-- A refusal in words. -/
def refusal : FileError → String
  | .notFound => "No such file or directory"
  | .isDirectory => "Is a directory"
  | .notDirectory => "Not a directory"
  | .alreadyExists => "File exists"
  | .notText => "Invalid argument"
  | .tooManyLinks => "Too many levels of symbolic links"
  | .nameTooLong => "File name too long"
  | .badPath => "Invalid argument"
  | .notEmpty => "Directory not empty"
  | .denied => "Permission denied"

/-- A text without its first `n` characters. -/
def dropText (n : Nat) (s : String) : String :=
  String.ofList (s.toList.drop n)

namespace Run

/-! ## Channels -/

/-- The channel that a descriptor leads to, and its number. -/
def channel? (descriptor : Nat) : Run (Option (Nat × Channel)) := do
  let s ← get
  return (s.descriptors.get? descriptor).bind fun id => s.channels[id]?.map fun c => (id, c)

/-- Another channel in the place of one. -/
def setChannel (id : Nat) (c : Channel) : Run Unit :=
  modify fun s => { s with channels := s.channels.setIfInBounds id c }

/-- A new channel. -/
def newChannel (c : Channel) : Run Nat := do
  let s ← get
  set { s with channels := s.channels.push c }
  return s.channels.size

/-- A descriptor leads to a channel. -/
def direct (descriptor id : Nat) : Run Unit :=
  modify fun s => { s with descriptors := s.descriptors.insert descriptor id }

/-- What a file holds, byte by byte. -/
def fileText (l : Location) : Run String := do
  match (← get).store.node? l with
  | some (.file content _) => return bytesIn content
  | _ => return ""

/-- Put a text into a file at a place. -/
def writeAt (l : Location) (position : Nat) (text : String) : Run Unit := do
  let s ← get
  match s.store.node? l with
  | some (.file content executable) =>
    let old := bytesIn content
    let size := old.length
    let new :=
      if position = size then old ++ text
      else
        let start := old.toList.take position
        let gap := List.replicate (position - size) '\x00'
        String.ofList (start ++ gap ++ text.toList ++ old.toList.drop (position + text.length))
    set { s with store := s.store.put l (.file (contentOf new) executable) }
  | _ => pure ()

/-- Print a text on a descriptor, and say whether that is possible. -/
def write (descriptor : Nat) (text : String) : Run Bool := do
  match ← channel? descriptor with
  | none => return text.isEmpty
  | some (id, c) =>
    match c with
    | .results => modify fun s => { s with printed := s.printed.append { out := text } }
    | .messages => modify fun s => { s with printed := s.printed.append { err := text } }
    | .collector t => setChannel id (.collector (t ++ text))
    | .file l position append =>
      let size := (← fileText l).length
      let position := if append then size else position
      unless text.isEmpty do writeAt l position text
      setChannel id (.file l (position + text.length) append)
    | .source _ => return text.isEmpty
    return true

/-- Print for results. -/
def print (text : String) : Run Unit := do
  unless ← write 1 text do modify fun s => { s with lost := true }

/-- Print for messages. -/
def complain (text : String) : Run Unit := do
  let _ ← write 2 text

/-- All that a descriptor has to read, without passing it; nothing if that cannot be read. -/
def peekInput (descriptor : Nat) : Run (Option String) := do
  match ← channel? descriptor with
  | some (_, .source rest) => return some rest
  | some (_, .file l position _) =>
    match (← get).store.node? l with
    | some .directory => return none
    | _ => return some (dropText position (← fileText l))
  | some _ => return some ""
  | none => return none

/-- Pass characters that were read. -/
def passInput (descriptor count : Nat) : Run Unit := do
  match ← channel? descriptor with
  | some (id, .source rest) => setChannel id (.source (dropText count rest))
  | some (id, .file l position append) => setChannel id (.file l (position + count) append)
  | _ => pure ()

/-- All that a descriptor has to read. -/
def readAll (descriptor : Nat) : Run (Option String) := do
  let text ← peekInput descriptor
  passInput descriptor (text.getD "").length
  return text

/-! ## Messages and ends -/

/-- A message of the script itself. -/
def warn (text : String) : Run Unit := do
  let s ← get
  let who := match s.command with
    | some name => name ++ ": "
    | none => ""
  complain (s.name ++ ": " ++ toString s.line ++ ": " ++ who ++ text ++ "\n")

/-- Something is wrong with the command. -/
def fail {α : Type} (text : String) : Run α := do
  warn text
  modify fun s => { s with status := 2 }
  throw .failed

/-- The last command ended in a given way. -/
def ended (status : Nat) : Run Unit :=
  modify fun s => { s with status }

/-- How a part stops, if it does before its end. -/
def caught (body : Run Unit) : Run (Option Stop) :=
  tryCatch (do body; return none) fun e => return some e

/-- Go on as a part stopped. -/
def rethrow (stop : Option Stop) : Run Unit :=
  match stop with
  | some e => throw e
  | none => pure ()

/-- A part, and something that is done after it, however it stops. -/
def ensuring (body after : Run Unit) : Run Unit := do
  let stop ← caught body
  after
  rethrow stop

/-- Time passes, and a script that has used up its limit is stopped. -/
def wait (nanoseconds : Nat) : Run Unit := do
  let s ← get
  let elapsed := s.elapsed + nanoseconds
  set { s with elapsed }
  match s.limit with
  | some limit => if limit ≤ elapsed then throw .killed
  | none => pure ()

/-- A command runs. A script that has run very many of them is taken for one that does not end. -/
def step : Run Unit := do
  let s ← get
  match s.steps with
  | 0 => throw .killed
  | steps + 1 => set { s with steps }

/-- Rounds of a loop, each with what the last one left, as long as they say that there is another
one. -/
def rounds {σ : Type} (round : σ → Run (σ × Bool)) : (fuel : Nat) → σ → Run σ
  | 0, _ => throw .killed
  | fuel + 1, a => do
    match ← round a with
    | (a, true) => rounds round fuel a
    | (a, false) => return a

/-! ## Surroundings -/

/-- A part in surroundings of its own: what it changes in them is forgotten. Of its stops, only
being killed is felt outside. -/
def isolated (body : Run Unit) : Run Unit := do
  let before ← get
  let stop ← caught body
  modify fun s => { before with
    store := { s.store with home := before.store.home }, status := s.status
    documents := s.documents, channels := s.channels, printed := s.printed, elapsed := s.elapsed
    steps := s.steps }
  if stop = some .killed then throw .killed

/-- A part whose end is looked at. -/
def testing (tested : Bool) (body : Run Unit) : Run Unit := do
  let before := (← get).tested
  modify fun s => { s with tested }
  ensuring body (modify fun s => { s with tested := before })

/-- A part with descriptors of its own. -/
def redirecting (body : Run Unit) : Run Unit := do
  let before := (← get).descriptors
  ensuring body (modify fun s => { s with descriptors := before })

/-- What a part prints for results, in surroundings of its own. -/
def collected (body : Run Unit) : Run String := do
  let id ← newChannel (.collector "")
  isolated do
    direct 1 id
    body
  match (← get).channels[id]? with
  | some (.collector text) => return text
  | _ => return ""

/-- A part that has a text to read. -/
def reading (text : String) (body : Run Unit) : Run Unit := do
  let id ← newChannel (.source text)
  redirecting do
    direct 0 id
    body

/-! ## Variables -/

/-- The option of a letter is on. -/
def option (letter : Char) : Run Bool := do
  return (← get).options.contains letter

/-- Put an option on or off. -/
def setOption (letter : Char) (on : Bool) : Run Unit :=
  modify fun s => { s with
    options := s.options.filter (· ≠ letter) ++ if on then [letter] else [] }

/-- The value of a variable. -/
def valueOf? (name : String) : Run (Option String) := do
  return ((← get).bindings.get? name).bind Variable.value

/-- Change a variable. -/
def changeVariable (name : String) (change : Variable → Variable) : Run Unit :=
  modify fun s => { s with
    bindings := s.bindings.insert name (change ((s.bindings.get? name).getD {})) }

/-- Set a variable, unless its value is fixed. -/
def setVariable (name value : String) : Run Unit := do
  if (((← get).bindings.get? name).map Variable.fixed).getD false then
    fail (name ++ ": is read only")
  let all ← option 'a'
  changeVariable name fun v => { v with value := some value, exported := v.exported || all }
  if name = "OPTIND" then modify fun s => { s with optionPlace := 0 }

/-- Forget a variable, unless its value is fixed. -/
def unsetVariable (name : String) : Run Unit := do
  if (((← get).bindings.get? name).map Variable.fixed).getD false then
    fail (name ++ ": is read only")
  modify fun s => { s with bindings := s.bindings.erase name }

/-- A variable is restored at the end of the innermost function. -/
def hide (name : String) : Run Unit :=
  modify fun s => { s with
    hidden := match s.hidden with
      | frame :: frames => ((name, s.bindings.get? name) :: frame) :: frames
      | [] => [] }

/-- A part at whose end the variables that it hides are restored. -/
def framed (body : Run Unit) : Run Unit := do
  modify fun s => { s with hidden := [] :: s.hidden }
  ensuring body (modify fun s => { s with
    hidden := s.hidden.tail
    bindings := ((s.hidden.head?).getD []).foldl (fun t (name, old) => match old with
      | some v => t.insert name v
      | none => t.erase name) s.bindings })

/-- Where the values of variables are cut. -/
def separators : Run (List Char) := do
  return (((← valueOf? "IFS").getD " \t\n").toList)

/-- What stands between the arguments where they are one text. -/
def joint : Run String := do
  match ← valueOf? "IFS" with
  | none => return " "
  | some s => return String.ofList (s.toList.take 1)

end Run

namespace Shell

/-- The letters of all options, in the order in which they are told. -/
def optionLetters : List Char :=
  ['u', 'b', 'a', 'C', 'E', 'V', 'v', 'x', 's', 'n', 'm', 'i', 'I', 'f', 'e']

/-- The number of the script as a process. -/
def process : Nat :=
  4711

/-- The parameters that are no variables. -/
def parameter? (s : Shell) (name : String) : Option (Option String) :=
  if name = "#" then some (some (toString s.arguments.length))
  else if name = "?" then some (some (toString s.status))
  else if name = "$" then some (some (toString process))
  else if name = "-" then some (some (String.ofList (optionLetters.filter s.options.contains)))
  else if name = "!" then some ((s.jobs.head?).map fun j => toString j.1)
  else if name = "0" then some (some s.name)
  else if (name.toList.head?.map Char.isDigit).getD false then
    some (name.toNat?.bind fun n => s.arguments[n - 1]?)
  else none

/-- The variables that programs are started with. -/
def environment (s : Shell) : List (String × String) :=
  s.bindings.entries.filterMap fun (name, v) =>
    if v.exported then v.value.map fun value => (name, value) else none

end Shell

end ShaderVariants.Script
