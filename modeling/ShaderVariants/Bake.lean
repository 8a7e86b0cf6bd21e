import ShaderVariants.Config.File
import ShaderVariants.Layout
import ShaderVariants.Resource.File
import ShaderVariants.Tool

/-!
# Building all variants of a shader

`Baker.build` finds the source and its configuration, makes the output directories, starts the
workers if more than one variant may be under way at a time, and builds every variant in the order
of enumeration. What stops the build before the workers is a `BakeError`; what goes wrong in a
variant is a `VariantError` in the outcome of the variant and leaves the others alone. The exception
is a push constant block whose size overflows: it stops everything. `Baker.bake` is the same build
where the workers are at hand.

A variant is built in steps (`Workshop.step`): compile, reflect, make the resource table, remove the
report. A tool that was stopped at its time limit leaves a missing or an old file behind; the next
step works with what is there, and the variant does not count as built.
-/

namespace ShaderVariants

/-- Why a variant could not be built. -/
inductive VariantError where
  | config (e : ConfigError)
  | tool (e : ToolError)
  | bundle (e : BundleError)
deriving DecidableEq

namespace VariantError

/-- The error in words. -/
def message : VariantError → String
  | config _ => "macro configuration error"
  | tool _ => "shader toolchain error"
  | bundle _ => "reflection normalization error"

end VariantError

/-- Why a build could not be opened. -/
inductive BakeError where
  | sourceNotFound (path : Path) (e : FileError)
  | config (e : ConfigFileError)
  /-- An output directory could not be made. -/
  | outputDir (path : Path) (e : FileError)
deriving DecidableEq

namespace BakeError

/-- The error in words. -/
def message : BakeError → String
  | sourceNotFound _ _ => "the shader source could not be found"
  | config _ => "macro configuration error"
  | outputDir _ _ => "the output directory could not be created"

end BakeError

/-- Why no variant could be built: the build was not opened, or has no workers
(`ThreadPoolError`). -/
inductive BuildError where
  | opening (e : BakeError)
  /-- The workers could not be started. -/
  | workers
deriving DecidableEq

namespace BuildError

/-- The error in words. -/
def message : BuildError → String
  | opening e => e.message
  | workers => "the worker pool could not be created"

end BuildError

/-- What a build has done so far: the files, what the tools have printed, and how they were used. -/
structure World where
  store : Store
  printed : Console := {}
  calls : List ToolCall := []

namespace World

/-- How a use of a tool ends, and the world after it. The call that is recorded is the one that is
run. -/
def use (w : World) (tools : Toolchain) (call : ToolCall) : Except ToolError Unit × World :=
  let run := tools.run call w.store
  (run.result,
    { store := run.store, printed := w.printed.append run.printed, calls := w.calls ++ [call] })

end World

/-! ## One variant -/

/-- What all variants of a build share. -/
structure Workshop where
  toolchain : Toolchain
  tables : Tables
  /-- Reports are kept when the resource tables are made. -/
  keepReports : Bool
  layout : Layout

/-- What is to be done next for a variant. -/
inductive Phase where
  | compile
  | reflect
  | normalize
  /-- Remove the report; the resource table has this many rows. -/
  | tidy (rows : Nat)
  | done (result : Except VariantError Nat)

namespace Phase

/-- How many steps are left at most. -/
def left : Phase → Nat
  | compile => 4
  | reflect => 3
  | normalize => 2
  | tidy _ => 1
  | done _ => 0

/-- The result, when nothing is left to do. -/
def result? : Phase → Option (Except VariantError Nat)
  | done result => some result
  | _ => none

/-- Without a result there is something left to do. -/
theorem left_ne_zero {phase : Phase} (h : phase.result? = none) : phase.left ≠ 0 := by
  cases phase <;> simp_all [result?, left]

end Phase

/-- How far a variant is, and the tools that were stopped at their limit so far. -/
structure Progress where
  phase : Phase
  timeouts : List ToolError

namespace Progress

/-- Nothing is done yet. -/
def initial : Progress :=
  ⟨.compile, []⟩

/-- The progress after a tool (`continue_after_timeout`): on to the next phase, also after a
timeout, but not after any other error. -/
def afterTool (p : Progress) (result : Except ToolError Unit) (next : Phase) : Progress :=
  match result with
  | .ok () => { p with phase := next }
  | .error e =>
    if e.isTimeout then ⟨next, p.timeouts ++ [e]⟩ else { p with phase := .done (.error (.tool e)) }

end Progress

namespace Workshop

/-- The use of the compiler for a variant. -/
def compileCall (shop : Workshop) (key : VariantKey) (defines : List String) : ToolCall :=
  .compile shop.layout.source defines (shop.layout.binary key)

/-- The use of the reflector for a variant. -/
def reflectCall (shop : Workshop) (key : VariantKey) : ToolCall :=
  .reflect (shop.layout.binary key) (shop.layout.report key)

/-- The resource table of a variant from its report. -/
def normalized (shop : Workshop) (key : VariantKey) (w : World) :
    Except (Halt BundleError) (ResourceBundle × Store) :=
  Report.normalizeFile w.store (shop.layout.report key) (shop.layout.resources key) shop.tables

/-- The store without the report of a variant, unless reports are kept. A report that cannot be
removed stays, and that is not counted as an error. -/
def tidied (shop : Workshop) (key : VariantKey) (s : Store) : Store :=
  if shop.keepReports then s
  else match s.remove (shop.layout.report key) with
    | .ok s => s
    | .error _ => s

/-- The next step for a variant: `build_variant` is compile, reflect, `normalize_file` and the
removal of the report, one after the other. -/
def step (shop : Workshop) (key : VariantKey) (defines : List String) (p : Progress) (w : World) :
    Except Overflow (Progress × World) :=
  match p.phase with
  | .compile =>
    let (result, w) := w.use shop.toolchain (shop.compileCall key defines)
    .ok (p.afterTool result .reflect, w)
  | .reflect =>
    let (result, w) := w.use shop.toolchain (shop.reflectCall key)
    .ok (p.afterTool result .normalize, w)
  | .normalize =>
    match shop.normalized key w with
    | .ok (bundle, store) =>
      .ok (⟨.tidy bundle.resources.length, p.timeouts⟩, { w with store })
    | .error (.fault e) => .ok (⟨.done (.error (.bundle e)), p.timeouts⟩, w)
    | .error .overflow => .error ⟨⟩
  | .tidy rows => .ok (⟨.done (.ok rows), p.timeouts⟩, { w with store := shop.tidied key w.store })
  | .done _ => .ok (p, w)

/-- After a tool there is less left to do. -/
theorem left_afterTool_lt {p : Progress} {result : Except ToolError Unit} {next : Phase} {n : Nat}
    (h : next.left < n) : (p.afterTool result next).phase.left < n := by
  unfold Progress.afterTool
  split
  · exact h
  · split
    · exact h
    · exact Nat.lt_of_le_of_lt (Nat.zero_le _) h

/-- After a step there is less left to do, unless nothing was. -/
theorem left_lt_of_step {shop : Workshop} {key : VariantKey} {defines : List String}
    {p q : Progress} {w v : World} (h : shop.step key defines p w = .ok (q, v))
    (hp : p.phase.left ≠ 0) : q.phase.left < p.phase.left := by
  unfold step at h
  split at h
  · rename_i hc
    cases h
    rw [hc]
    exact left_afterTool_lt (by decide)
  · rename_i hc
    cases h
    rw [hc]
    exact left_afterTool_lt (by decide)
  · rename_i hc
    rw [hc]
    split at h <;> cases h <;> simp [Phase.left]
  · rename_i hc
    cases h
    rw [hc]
    simp [Phase.left]
  · rename_i hc
    simp [hc, Phase.left] at hp

end Workshop

/-- What became of a variant (`VariantOutcome`). -/
structure Outcome where
  key : VariantKey
  defines : List String
  binary : Path
  resources : Path
  /-- The number of rows of the resource table, or what went wrong. -/
  result : Except VariantError Nat
  /-- The tools that were stopped at their limit. -/
  timeouts : List ToolError

namespace Outcome

/-- The variant was built (`is_success`), with nothing wrong and no tool stopped. -/
def isSuccess (o : Outcome) : Bool :=
  o.result.isOk && o.timeouts.isEmpty

end Outcome

namespace Workshop

/-- The end of the steps for a variant (`build_variant`). -/
def finish (shop : Workshop) (key : VariantKey) (defines : List String) (p : Progress) (w : World) :
    World × Except Overflow (Except VariantError Nat × List ToolError) :=
  match _hp : p.phase.result? with
  | some result => (w, .ok (result, p.timeouts))
  | none =>
    match _h : shop.step key defines p w with
    | .ok (q, v) => finish shop key defines q v
    | .error e => (w, .error e)
termination_by p.phase.left
decreasing_by exact left_lt_of_step _h (Phase.left_ne_zero _hp)

/-- The outcome of building the variant of a key (`bake_variant`). -/
def variant (shop : Workshop) (config : MacroConfig) (key : VariantKey) (w : World) :
    World × Except Overflow Outcome :=
  let outcome defines result timeouts : Outcome :=
    { key, defines, binary := shop.layout.binary key, resources := shop.layout.resources key,
      result, timeouts }
  match config.defines key with
  | .error e => (w, .ok (outcome [] (.error (.config e)) []))
  | .ok defines =>
    let (w, ended) := shop.finish key defines .initial w
    (w, ended.map fun (result, timeouts) => outcome defines result timeouts)

/-- The outcomes of building variants one after another. -/
def variants (shop : Workshop) (config : MacroConfig) :
    List VariantKey → World → World × Except Overflow (List Outcome)
  | [], w => (w, .ok [])
  | key :: keys, w =>
    match shop.variant config key w with
    | (w, .error e) => (w, .error e)
    | (w, .ok outcome) =>
      let (w, rest) := shop.variants config keys w
      (w, rest.map (outcome :: ·))

end Workshop

/-! ## All variants -/

/-- What became of the variants of a source (`BakeReport`), in the order of enumeration. -/
structure BakeReport where
  source : Path
  variants : List Outcome

namespace BakeReport

/-- Every variant was built (`is_success`). -/
def isSuccess (r : BakeReport) : Bool :=
  r.variants.all Outcome.isSuccess

/-- The outcomes of the variants that were not built (`failures`). -/
def failures (r : BakeReport) : List Outcome :=
  r.variants.filter fun o => !o.isSuccess

/-- How many variants were not built (`failure_count`). -/
def failureCount (r : BakeReport) : Nat :=
  r.failures.length

end BakeReport

/-- Everything that a build depends on beside the source and the files (`ShaderBaker` with its
`BakeOptions`). -/
structure Baker where
  toolchain : Toolchain
  tables : Tables := .standard
  /-- How many variants may be under way at a time. If it is more than one, as many workers are
  started. -/
  jobs : Nat := 1
  /-- Whether so many workers can be started. -/
  workers : Nat → Bool := fun _ => true
  /-- The configuration to use instead of the one next to the source. -/
  config : Option Path := none
  keepReports : Bool := false

namespace Baker

/-- What is known before the first variant is built. -/
structure Setup where
  layout : Layout
  config : MacroConfig

/-- The source and its configuration, before anything is changed. -/
def setup (b : Baker) (s : Store) (source : Path) : Except BakeError Setup := do
  let found ← (s.canonical source).mapError (.sourceNotFound source)
  let config ← (MacroConfig.load s (b.config.getD (Layout.defaultConfig found))).mapError .config
  return ⟨⟨found⟩, config⟩

/-- The store in which a path leads to a directory, and whether that could be had. -/
def makeOutputDir (s : Store) (p : Path) : Except BakeError Store :=
  (s.ensureDir p).mapError (.outputDir p)

/-- The store with both output directories, or with those made before one could not be
(`create_dirs`). -/
def makeOutputDirs (s : Store) (layout : Layout) : Store × Except BakeError Unit :=
  match makeOutputDir s layout.binaryDir with
  | .error e => (s, .error e)
  | .ok s =>
    match makeOutputDir s layout.resourceDir with
    | .error e => (s, .error e)
    | .ok s => (s, .ok ())

/-- The workshop for the variants of a source. -/
def workshop (b : Baker) (layout : Layout) : Workshop :=
  { toolchain := b.toolchain, tables := b.tables, keepReports := b.keepReports, layout }

/-- All that comes before the variants and their workers: the source, its configuration, and the
output directories in the store. -/
def ready (b : Baker) (s : Store) (source : Path) : Store × Except BakeError Setup :=
  match b.setup s source with
  | .error e => (s, .error e)
  | .ok setup =>
    let (s, made) := makeOutputDirs s setup.layout
    (s, made.map fun () => setup)

/-- The report on the variants, which are built one after another. -/
def bakeVariants (b : Baker) (setup : Setup) (s : Store) : World × Except Overflow BakeReport :=
  let (w, outcomes) :=
    (b.workshop setup.layout).variants setup.config setup.config.enumerate { store := s }
  (w, outcomes.map (BakeReport.mk setup.layout.source))

/-- The workers that the build asks for can be started. One variant at a time needs none. -/
def isStaffed (b : Baker) : Bool :=
  b.jobs ≤ 1 || b.workers b.jobs

/-- Building every variant of a source (`bake`). -/
def build (b : Baker) (s : Store) (source : Path) : World × Except (Halt BuildError) BakeReport :=
  match b.ready s source with
  | (s, .error e) => ({ store := s }, .error (.fault (.opening e)))
  | (s, .ok setup) =>
    if b.isStaffed then
      let (w, report) := b.bakeVariants setup s
      (w, Halt.ofChecked report)
    else ({ store := s }, .error (.fault .workers))

/-- Building every variant of a source where the workers are at hand: `bake` with one job, or with a
pool that was created. -/
def bake (b : Baker) (s : Store) (source : Path) : World × Except (Halt BakeError) BakeReport :=
  match b.ready s source with
  | (s, .error e) => ({ store := s }, .error (.fault e))
  | (s, .ok setup) =>
    let (w, report) := b.bakeVariants setup s
    (w, Halt.ofChecked report)

end Baker

end ShaderVariants
