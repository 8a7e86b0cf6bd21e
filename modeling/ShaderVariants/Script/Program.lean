import ShaderVariants.Script.Builtin
import ShaderVariants.Script.Expansion
import ShaderVariants.Script.Utility.Clock
import ShaderVariants.Script.Utility.Editor
import ShaderVariants.Script.Utility.Search

/-!
# Programs

A command names a program: by a path, or by a name that is looked for in the directories of
programs. What it stands for is a `Launch`: a utility with its arguments, or a text without a known
form, or nothing that can run. A text whose first line names an interpreter stands for that program,
which is given the text.
-/

namespace ShaderVariants.Script

namespace Program

/-- The utilities by name. -/
def utilities : List (String × Utility) := Utility.all ++ [
  ("echo", Utility.plainEcho), ("printf", Utility.printfProgram), ("test", Utility.testProgram),
  ("[", Utility.testProgram), ("pwd", Utility.pwd), ("cat", Utility.cat), ("head", Utility.head),
  ("tail", Utility.tail), ("wc", Utility.wc), ("tr", Utility.tr), ("cut", Utility.cut),
  ("sort", Utility.sort), ("uniq", Utility.uniq), ("seq", Utility.seq), ("tee", Utility.tee),
  ("sed", Utility.streamEditor), ("grep", Utility.grep), ("egrep", Utility.searchWith (some 'E')),
  ("fgrep", Utility.searchWith (some 'F')), ("expr", Utility.expr),
  ("basename", Utility.basename), ("dirname", Utility.dirname), ("cp", Utility.cp),
  ("mv", Utility.mv), ("rm", Utility.rm), ("rmdir", Utility.rmdir), ("mkdir", Utility.mkdir),
  ("touch", Utility.touch), ("ln", Utility.ln), ("chmod", Utility.chmod), ("ls", Utility.ls),
  ("readlink", Utility.readlink)]

/-- The interpreters of scripts. -/
def shells : List String :=
  ["sh", "dash", "bash"]

/-- The programs that run other programs. -/
def runners : List String :=
  ["env", "xargs"]

/-- A program of that name is in the directories of programs. -/
def isKnown (name : String) : Bool :=
  shells.contains name || runners.contains name || utilities.any (·.1 = name)

/-- The directories of programs, where nothing else is said. -/
def usualPath : String :=
  "/usr/local/sbin:/usr/local/bin:/usr/sbin:/usr/bin:/sbin:/bin"

end Program

/-- What is at the path of a program. -/
inductive Executable where
  | utility (name : String)
  | text (content : String)
  | denied
  | missing
  | refused (e : FileError)

namespace Executable

/-- What is at a path. -/
def at? (s : Store) (p : String) : Executable :=
  let known (name : String) : Executable := if Program.isKnown name then utility name else missing
  match s.find (pathOf p) true with
  | .ok ⟨_, some (.file content true)⟩ => text (bytesIn content)
  | .ok ⟨_, some _⟩ => denied
  | .ok ⟨["bin", name], none⟩ => known name
  | .ok ⟨["usr", "bin", name], none⟩ => known name
  | .ok ⟨_, none⟩ => missing
  | .error .notFound => missing
  | .error .notDirectory => missing
  | .error e => refused e

/-- The path of the program of a name, and what is there. -/
def search (s : Store) (name : String) : (dirs : List String) → String × Executable
  | [] => (name, missing)
  | dir :: dirs =>
    let p := if dir.isEmpty then name else dir ++ "/" ++ name
    match at? s p with
    | utility n => (p, utility n)
    | text content => (p, text content)
    | denied => match search s name dirs with
      | (_, missing) => if s.isDirectory (pathOf p) then (p, missing) else (p, denied)
      | found => found
    | _ => search s name dirs

/-- The path of a program that is named by a path or by a name, and what is there. -/
def find (s : Store) (path program : String) : String × Executable :=
  if program.contains '/' then (program, at? s program)
  else if program.isEmpty then (program, missing)
  else search s program (path.splitOn ":")

end Executable

/-- What a command stands for. -/
inductive Launch where
  /-- A program of a name, called as `tool`. -/
  | program (name tool : String) (arguments : List String)
  /-- A text that names no interpreter. -/
  | plain (path : String) (arguments : List String)
  | missing
  | denied
  | refused (e : FileError)

namespace Launch

/-- The interpreter that the first line of a text names, and what it is given first. -/
def interpreter? (text : String) : Option (String × Option String) :=
  let isBlank (c : Char) : Bool := c = ' ' || c = '\t'
  match text.toList with
  | '#' :: '!' :: cs =>
    let line := (cs.takeWhile (· ≠ '\n')).dropWhile isBlank
    let line := (line.reverse.dropWhile isBlank).reverse
    let name := line.takeWhile (!isBlank ·)
    let rest := (line.drop name.length).dropWhile isBlank
    if name.isEmpty then none
    else some (String.ofList name, if rest.isEmpty then none else some (String.ofList rest))
  | _ => none

/-- What is to be launched for a program and its arguments. Interpreters may be texts themselves, up
to a depth. -/
def ofExecutable (s : Store) (tool path : String) (arguments : List String) :
    (depth : Nat) → Executable → Launch
  | _, .utility name => program name tool arguments
  | _, .denied => denied
  | _, .missing => missing
  | _, .refused e => refused e
  | 0, .text _ => refused .tooManyLinks
  | depth + 1, .text content =>
    match interpreter? content with
    | some (name, option) =>
      ofExecutable s name name (option.toList ++ path :: arguments) depth (Executable.at? s name)
    | none => plain path arguments

/-- What is to be launched for a command. -/
def ofCommand (s : Store) (path program : String) (arguments : List String) : Launch :=
  let (found, executable) := Executable.find s path program
  ofExecutable s program found arguments 5 executable

end Launch

end ShaderVariants.Script
