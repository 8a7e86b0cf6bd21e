import ShaderVariants.CommandLine.Request
import ShaderVariants.CommandLine.Summary

/-!
# The command

`run` does what a command line asks for: it builds every variant of a source with two programs and
prints a summary. The status that it ends with is zero exactly when every variant was built.
-/

namespace ShaderVariants.CommandLine

/-- Why nothing was built. -/
inductive CommandError where
  | noJobs
  | tables (e : BundleError)
  | bake (e : BuildError)
deriving DecidableEq

namespace CommandError

/-- The error in words. -/
def message : CommandError → String
  | noJobs => "--jobs must be at least 1"
  | tables e => e.message
  | bake e => e.message

end CommandError

/-- What running a command came to. -/
structure Ending where
  status : Nat
  printed : Console
  store : Store

namespace Given

/-- The tools that are asked for. Those that are not named are the usual ones. -/
def toolOptions (g : Given) : ToolOptions :=
  let usual : ToolOptions := {}
  { compiler := g.compiler.getD usual.compiler, reflector := g.reflector.getD usual.reflector,
    limit := (g.seconds.map Duration.ofSeconds).getD usual.limit }

/-- The build that is asked for, with tables that are loaded. -/
def baker (g : Given) (launch : Launcher) (tables : Tables) : Baker :=
  { toolchain := .ofPrograms launch g.toolOptions, tables, jobs := g.jobs.getD 1,
    workers := launch.workers, config := g.config, keepReports := g.keepReports }

/-- The tables that are asked for. -/
def loadTables (g : Given) (s : Store) : Except BundleError Tables :=
  match g.tables with
  | some p => Tables.load s p
  | none => .ok .standard

/-- What is wrong before anything is built, or the build. -/
def prepare (g : Given) (launch : Launcher) (s : Store) : Except CommandError Baker :=
  if g.jobs = some 0 then .error .noJobs
  else match g.loadTables s with
    | .error e => .error (.tables e)
    | .ok tables => .ok (g.baker launch tables)

end Given

namespace Ending

/-- Nothing was built. -/
def ofError (e : CommandError) (printed : Console) (s : Store) : Ending :=
  ⟨1, printed.append { err := "Error: " ++ e.message ++ "\n" }, s⟩

/-- The summary of a build follows what the tools have printed. -/
def ofReport (r : BakeReport) (w : World) : Ending :=
  ⟨if r.isSuccess then 0 else 1, w.printed.append r.summary, w.store⟩

/-- A size overflowed. -/
def ofOverflow (w : World) : Ending :=
  ⟨101, w.printed.append { err := "a size does not fit its width\n" }, w.store⟩

/-- A text was asked for. -/
def ofText (text : String) (s : Store) : Ending :=
  ⟨0, { out := text }, s⟩

/-- The command line was wrong. -/
def ofUsageError (e : UsageError) (s : Store) : Ending :=
  ⟨2, { err := "error: " ++ e.message ++ "\n" }, s⟩

end Ending

/-- Build what is asked for. -/
def build (launch : Launcher) (g : Given) (source : Path) (s : Store) : Ending :=
  match g.prepare launch s with
  | .error e => .ofError e {} s
  | .ok baker =>
    match baker.build s source with
    | (w, .ok report) => .ofReport report w
    | (w, .error (.fault e)) => .ofError (.bake e) w.printed w.store
    | (w, .error .overflow) => .ofOverflow w

/-- How the command is used. -/
def helpText : String :=
  BakeReport.unlines [
    "Compile every variant of a shader and make the resource table of each.",
    "",
    "Usage: shader-variants [OPTIONS] <SHADER>",
    "",
    "  -j, --jobs <N>            variants to build at the same time (1)",
    "  -t, --timeout-secs <N>    seconds that a tool may run (1000)",
    "      --compiler <PATH>     the compiler (glslangValidator)",
    "      --reflector <PATH>    the reflector (spirv-cross)",
    "  -m, --macro-spec <PATH>   the configuration, if not the one next to the source",
    "      --tables <PATH>       additional entries of the tables",
    "      --keep-raw            keep the reports of the reflector",
    "  -h, --help                print this text",
    "  -V, --version             print the version"]

/-- Do what a command line asks for (`main`). -/
def run (launch : Launcher) (arguments : List String) (s : Store) : Ending :=
  match Request.ofArguments arguments with
  | .error e => .ofUsageError e s
  | .ok .help => .ofText helpText s
  | .ok .version => .ofText (BakeReport.unlines ["shader-variants 0.1.0"]) s
  | .ok (.build g source) => build launch g source s

end ShaderVariants.CommandLine
