import ShaderVariants.Checked
import ShaderVariants.Tool

/-!
# What a command line asks for

A command line names one source and may give each setting once. `Request.ofArguments` reads it from
the first argument on and stops at the first thing that is wrong, or that asks for a text instead of
a build.

The value of a setting is a part of the same argument or the next argument; an argument that starts
with a hyphen, other than the hyphen alone, is never a value. After two hyphens only the source may
follow.
-/

namespace ShaderVariants.CommandLine

/-- A setting that has a value. -/
inductive Setting where
  | jobs
  | limit
  | compiler
  | reflector
  | config
  | tables
deriving DecidableEq

namespace Setting

/-- The settings by name. -/
def named : List (String × Setting) := [
  ("jobs", jobs), ("timeout-secs", limit), ("compiler", compiler), ("reflector", reflector),
  ("macro-spec", config), ("tables", tables)]

/-- The settings by letter. -/
def lettered : List (Char × Setting) :=
  [('j', jobs), ('t', limit), ('m', config)]

end Setting

/-- What is wrong with a command line. -/
inductive UsageError where
  /-- No setting has this name, or a source was given before. -/
  | unexpected (argument : String)
  /-- It was given before. -/
  | repeated (argument : String)
  | missingValue (argument : String)
  | badValue (argument value : String)
  | missingSource
deriving DecidableEq

namespace UsageError

/-- The error in words. -/
def message : UsageError → String
  | unexpected a => "unexpected argument '" ++ a ++ "' found"
  | repeated a => "the argument '" ++ a ++ "' cannot be used multiple times"
  | missingValue a => "a value is required for '" ++ a ++ "' but none was supplied"
  | badValue a v => "invalid value '" ++ v ++ "' for '" ++ a ++ "'"
  | missingSource => "the path of the shader source is missing"

end UsageError

/-- What has been given so far (`Args`). -/
structure Given where
  source : Option Path := none
  jobs : Option Nat := none
  seconds : Option Nat := none
  compiler : Option Path := none
  reflector : Option Path := none
  config : Option Path := none
  tables : Option Path := none
  keepReports : Bool := false
deriving DecidableEq

/-- The number below `2 ^ 64` that decimal digits write, perhaps after a plus. -/
def number? (s : String) : Option Nat :=
  let digits := match s.toList with
    | '+' :: cs => cs
    | cs => cs
  if digits ≠ [] ∧ digits.all Char.isDigit then
    let n := digits.foldl (fun n c => n * 10 + (c.toNat - '0'.toNat)) 0
    if n < Checked.limit64 then some n else none
  else none

/-- The path that a text is. The empty text is none. -/
def path? (s : String) : Option Path :=
  if s.isEmpty then none else some s

/-- A value for what the argument `name` sets, unless it has one. -/
def once {α : Type} (name : String) (before : Option α) (read : String → Option α)
    (value : String) : Except UsageError α :=
  match read value, before with
  | none, _ => .error (.badValue name value)
  | some _, some _ => .error (.repeated name)
  | some a, none => .ok a

namespace Given

/-- A setting with its value, which the argument `name` has. -/
def set (g : Given) (setting : Setting) (name value : String) : Except UsageError Given :=
  match setting with
  | .jobs => do return { g with jobs := ← once name g.jobs number? value }
  | .limit => do return { g with seconds := ← once name g.seconds number? value }
  | .compiler => do return { g with compiler := ← once name g.compiler path? value }
  | .reflector => do return { g with reflector := ← once name g.reflector path? value }
  | .config => do return { g with config := ← once name g.config path? value }
  | .tables => do return { g with tables := ← once name g.tables path? value }

/-- Reports are to be kept, unless that was said before. -/
def keep (g : Given) (name : String) : Except UsageError Given :=
  if g.keepReports then .error (.repeated name) else .ok { g with keepReports := true }

/-- An argument that is no setting: the source, unless it was given before. -/
def setSource (g : Given) (argument : String) : Except UsageError Given :=
  match g.source with
  | some _ => .error (.unexpected argument)
  | none => do return { g with source := ← once "source" none path? argument }

end Given

/-- What an argument is. -/
inductive Argument where
  | setting (setting : Setting) (name : String) (value : Option String)
  | keepReports (name : String)
  | help
  | version
  /-- Only the source may follow. -/
  | divider
  | other (text : String)
  | unknown (text : String)
deriving DecidableEq

namespace Argument

/-- A name and what follows the first equals sign, if there is one. -/
def assignment (cs : List Char) : String × Option String :=
  let name := String.ofList (cs.takeWhile (· ≠ '='))
  match cs.dropWhile (· ≠ '=') with
  | [] => (name, none)
  | _ :: value => (name, some (String.ofList value))

/-- An argument of two hyphens and a name. -/
def ofName (text : String) (cs : List Char) : Argument :=
  let (name, value) := assignment cs
  match Setting.named.lookup name, value with
  | some s, value => setting s ("--" ++ name) value
  | none, some _ => unknown text
  | none, none =>
    if name = "keep-raw" then keepReports text
    else if name = "help" then help
    else if name = "version" then version
    else unknown text

/-- An argument of a hyphen and a letter, with the value behind the letter if anything is there. -/
def ofLetter (text : String) (letter : Char) (cs : List Char) : Argument :=
  match Setting.lettered.lookup letter with
  | some s =>
    let value := match cs with
      | '=' :: value => some (String.ofList value)
      | [] => none
      | value => some (String.ofList value)
    setting s ("-" ++ String.singleton letter) value
  | none =>
    if letter = 'h' then help
    else if letter = 'V' then version
    else unknown text

/-- What a text is as an argument. -/
def ofText (text : String) : Argument :=
  match text.toList with
  | ['-', '-'] => divider
  | '-' :: '-' :: cs => ofName text cs
  | '-' :: c :: cs => ofLetter text c cs
  | _ => other text

end Argument

/-- What a command line asks for. -/
inductive Request where
  | build (given : Given) (source : Path)
  | help
  | version
deriving DecidableEq

namespace Request

/-- What is asked for when every argument is read. -/
def ofGiven (g : Given) : Except UsageError Request :=
  match g.source with
  | some source => .ok (.build g source)
  | none => .error .missingSource

/-- Read the arguments after `given`. -/
def read (given : Given) : List String → Except UsageError Request
  | [] => ofGiven given
  | text :: rest =>
    match Argument.ofText text with
    | .setting s name (some value) => do read (← given.set s name value) rest
    | .setting s name none =>
      match rest with
      | [] => .error (.missingValue name)
      | value :: rest =>
        match Argument.ofText value with
        | .other value => do read (← given.set s name value) rest
        | _ => .error (.missingValue name)
    | .keepReports name => do read (← given.keep name) rest
    | .help => .ok .help
    | .version => .ok .version
    | .divider => do ofGiven (← rest.foldlM Given.setSource given)
    | .other text => do read (← given.setSource text) rest
    | .unknown text => .error (.unexpected text)

/-- What arguments ask for. -/
def ofArguments (arguments : List String) : Except UsageError Request :=
  read {} arguments

end Request

end ShaderVariants.CommandLine
