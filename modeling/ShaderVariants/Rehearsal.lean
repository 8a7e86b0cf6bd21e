import ShaderVariants.Json.Printer
import ShaderVariants.Tool

/-!
# Rehearsing a build

A build can be tried out without tools: a `Plan` says, by the file name of the binary, what each use
of a tool writes and how it ends. Unless the plan says otherwise, compiling writes the names of the
defined macros, and reflecting writes a report with one input for each word of the binary.
-/

namespace ShaderVariants

/-- What a planned tool does. -/
structure PlannedRun where
  /-- The text to write, in the place of the usual one. -/
  text : Option String := none
  /-- The usual text is written if no other is given. -/
  usual : Bool := true
  result : Except ToolError Unit := .ok ()

/-- What the tools of a rehearsal do. -/
structure Plan where
  compile : Table String PlannedRun
  reflect : Table String PlannedRun
  /-- The types of inputs by name, and the type of the others. -/
  types : Table String String
  otherType : String := "vec4"
  /-- The stage of every entry point. -/
  mode : String := "frag"

namespace Plan

/-- The last name of a path. -/
def fileName (p : Path) : String :=
  (Path.names p).getLast?.getD ""

/-- A character between words. -/
def isBlank (c : Char) : Bool :=
  c = ' ' || c = '\t' || c = '\n' || c = '\x0c' || c = '\r'

/-- The words of a text. -/
def words (text : String) : List String :=
  (go text.toList).filter (· ≠ [])|>.map String.ofList
where
  /-- The runs of characters between blanks, empty ones too. -/
  go : List Char → List (List Char)
    | [] => [[]]
    | c :: cs =>
      if isBlank c then [] :: go cs
      else match go cs with
        | [] => [[c]]
        | w :: ws => (c :: w) :: ws

open Json (Value)

/-- The input of a word at a place in the binary. -/
def input (plan : Plan) (word : String) (place : Nat) : Value :=
  .ofMembers [
    ("location", .atom (.ok (.number (.integer place)))),
    ("name", .ofText word),
    ("type", .ofText ((plan.types.get? word).getD plan.otherType))]

/-- The usual report on a binary. -/
def report (plan : Plan) (binary : String) : String :=
  String.ofList <| Value.print <| .ofMembers [
    ("entryPoints",
      .ofElements [.ofMembers [("mode", .ofText plan.mode), ("name", .ofText "main")]]),
    ("inputs", .ofElements ((words binary).zipIdx.map fun (word, place) => plan.input word place)),
    ("outputs", .ofElements [])]

/-- A planned use of a tool. A text that cannot be written is not written. -/
def perform (run : PlannedRun) (usual : String) (output : Path) (s : Store) : ToolRun :=
  let text := run.text.or (if run.usual then some usual else none)
  let stored := match text with
    | none => s
    | some text => (s.write output text).toOption.getD s
  { result := run.result, store := stored, printed := {} }

/-- The tools of a rehearsal. -/
def toolchain (plan : Plan) : Toolchain where
  compile _ defines output s :=
    perform ((plan.compile.get? (fileName output)).getD {}) (" ".intercalate defines) output s
  reflect binary output s :=
    perform ((plan.reflect.get? (fileName binary)).getD {})
      (plan.report ((s.read binary).toOption.getD "")) output s

end Plan

end ShaderVariants
