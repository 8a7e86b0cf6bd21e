import ShaderVariants.Duration
import ShaderVariants.Store

/-!
# External tools

Variants are compiled and reflected by external tools. Running a tool may change the store and print
something, and it ends well or in a `ToolError`. A `Toolchain` is what the two tools do; the tools
of `Toolchain.ofPrograms` are programs that are run with arguments in a fixed order.
-/

namespace ShaderVariants

/-- How running a tool went wrong (`ToolchainError`). -/
inductive ToolError where
  /-- It was stopped because it ran for longer than the limit. -/
  | timeout (tool : String) (limit : Duration)
  /-- It could not be started. -/
  | spawn (tool : String)
  /-- Its end could not be waited for. -/
  | wait (tool : String)
  /-- It ended with a status that is not zero. -/
  | failed (tool : String) (status : Int)
deriving DecidableEq

namespace ToolError

/-- The error in words. -/
def message : ToolError → String
  | timeout tool limit =>
    "`" ++ tool ++ "` did not finish within " ++ limit.text ++ " and was killed"
  | spawn tool => "`" ++ tool ++ "` could not be started"
  | wait tool => "`" ++ tool ++ "` could not be waited on"
  | failed tool status => "`" ++ tool ++ "` failed with exit status: " ++ toString status

/-- The tool was stopped at its limit (`is_timeout`). -/
def isTimeout : ToolError → Bool
  | timeout .. => true
  | _ => false

end ToolError

/-- What was printed, for the results and for messages. -/
structure Console where
  out : String := ""
  err : String := ""
deriving DecidableEq

namespace Console

/-- What was printed first and what was printed then. -/
def append (first next : Console) : Console :=
  ⟨first.out ++ next.out, first.err ++ next.err⟩

end Console

/-- What running a tool came to. -/
structure ToolRun where
  result : Except ToolError Unit
  store : Store
  printed : Console

/-- A use of a tool, with all its arguments. -/
inductive ToolCall where
  | compile (source : Path) (defines : List String) (output : Path)
  | reflect (binary output : Path)
deriving DecidableEq

/-- A compiler and a reflector (`Toolchain`). -/
structure Toolchain where
  /-- Compile `source`, with macros defined, to a binary at `output`. -/
  compile : (source : Path) → (defines : List String) → (output : Path) → Store → ToolRun
  /-- Write a report on the binary to `output`. -/
  reflect : (binary output : Path) → Store → ToolRun

/-- What the tool of a call comes to. -/
def Toolchain.run (tools : Toolchain) : ToolCall → Store → ToolRun
  | .compile source defines output => tools.compile source defines output
  | .reflect binary output => tools.reflect binary output

/-- A program and its arguments. -/
structure ToolCommand where
  program : Path
  arguments : List String
deriving DecidableEq

namespace ToolCommand

/-- The text is handed to a program as it is: it does not hold the character that ends a text for
the system. -/
def isPassable (text : String) : Bool :=
  !Path.holdsNul text

/-- The program and every argument can be handed over, so that the command can be started. -/
def isSound (c : ToolCommand) : Bool :=
  (c.program :: c.arguments).all isPassable

/-- The command as it is shown: a word takes the place of each text that cannot be handed over. -/
def shown (c : ToolCommand) : ToolCommand :=
  let word (text : String) := if isPassable text then text else "<string-with-nul>"
  ⟨word c.program, c.arguments.map word⟩

end ToolCommand

/-- Which programs are the tools, and how long each may run (`ToolchainOptions`). -/
structure ToolOptions where
  compiler : Path := "glslangValidator"
  reflector : Path := "spirv-cross"
  limit : Duration := .ofSeconds 1000
deriving DecidableEq

namespace ToolOptions

/-- The command that compiles `source` (`compile_command`). -/
def compileCommand (o : ToolOptions) (source : Path) (defines : List String) (output : Path) :
    ToolCommand :=
  ⟨o.compiler, ["-V", source] ++ defines.map ("-D" ++ ·) ++ ["-o", output]⟩

/-- The command that reflects a binary (`reflect_command`). -/
def reflectCommand (o : ToolOptions) (binary output : Path) : ToolCommand :=
  ⟨o.reflector, [binary, "--reflect", "--output", output]⟩

end ToolOptions

/-- What the system does for a command. What `run_with_timeout` comes to is for it to say: the clock
and the processes are not modelled. -/
structure Launcher where
  /-- Run a command for at most a limit. -/
  run : Duration → ToolCommand → Store → ToolRun
  /-- Whether so many workers can be started. -/
  workers : Nat → Bool := fun _ => true

/-- The toolchain of two programs (`ExternalToolchain`). -/
def Toolchain.ofPrograms (launch : Launcher) (o : ToolOptions) : Toolchain where
  compile source defines output := launch.run o.limit (o.compileCommand source defines output)
  reflect binary output := launch.run o.limit (o.reflectCommand binary output)

end ShaderVariants
