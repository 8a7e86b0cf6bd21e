import ShaderVariants.CommandLine
import ShaderVariants.Proofs.Bake.Smooth
import ShaderVariants.Proofs.Config.Acceptance
import ShaderVariants.Proofs.Bake.Variant
import ShaderVariants.Proofs.Tables.Layers

/-!
# What a command comes to

A command that builds ends with the status zero exactly if all goes well: there is a job at least,
the tables are loaded (`Given.Loads`), the build that is asked for (`Given.Asks`) opens and has its
workers, and every step of every variant goes well. When the build completes, the summary says how
many of how many variants were built, and tells of each variant that was not, in the order of
enumeration, what went wrong (`Told`). Both hold for every launcher and every store
(`CommandLine.run_outcome`), and for a build that has several variants under way at a time in every
order of their steps.

Not every command line asks for a build: a wrong one ends with the status two, and one that asks for
a text with the status zero (`CommandLine.run_status_apart`).
-/

namespace ShaderVariants

/-- What is told about variants, in entries: nothing of one that was built; of any other, each tool
that was stopped at its limit, and then the error if there is one. -/
inductive Told : List Outcome → List String → Prop where
  | nil : Told [] []
  | built {o : Outcome} {outcomes : List Outcome} {entries : List String} {rows : ℕ}
      (hresult : o.result = .ok rows) (htimeouts : o.timeouts = []) (h : Told outcomes entries) :
      Told (o :: outcomes) entries
  | stopped {o : Outcome} {outcomes : List Outcome} {entries : List String} {rows : ℕ}
      (hresult : o.result = .ok rows) (htimeouts : o.timeouts ≠ []) (h : Told outcomes entries) :
      Told (o :: outcomes) (o.timeouts.map (fun t => o.title ++ ": " ++ t.message) ++ entries)
  | failed {o : Outcome} {outcomes : List Outcome} {entries : List String} {e : VariantError}
      (hresult : o.result = .error e) (h : Told outcomes entries) :
      Told (o :: outcomes) (o.timeouts.map (fun t => o.title ++ ": " ++ t.message) ++
        (o.title ++ ": " ++ e.message) :: entries)

namespace Outcome

variable {o : Outcome}

/-- Without an error there is a line for each tool that was stopped. -/
theorem lines_of_ok {rows : ℕ} (h : o.result = .ok rows) :
    o.lines = o.timeouts.map fun t => o.title ++ ": " ++ t.message := by
  simp [lines, complaints, h]

/-- With an error there is one more line for it. -/
theorem lines_of_error {e : VariantError} (h : o.result = .error e) :
    o.lines = o.timeouts.map (fun t => o.title ++ ": " ++ t.message) ++
      [o.title ++ ": " ++ e.message] := by
  simp [lines, complaints, h]

end Outcome

/-- The lines about the variants that were not built are what is told. -/
theorem told_lines (outcomes : List Outcome) :
    Told outcomes ((outcomes.filter fun o => !o.isSuccess).flatMap Outcome.lines) := by
  induction outcomes with
  | nil => exact .nil
  | cons o outcomes ih =>
    cases hresult : o.result with
    | ok rows =>
      by_cases htimeouts : o.timeouts = []
      · have hsuccess : o.isSuccess = true := by
          simp [Outcome.isSuccess, hresult, htimeouts, Except.isOk, Except.toBool]
        rw [List.filter_cons_of_neg (by simp [hsuccess])]
        exact .built hresult htimeouts ih
      · have hfailure : o.isSuccess = false := by
          simp [Outcome.isSuccess, htimeouts]
        rw [List.filter_cons_of_pos (by simp [hfailure]), List.flatMap_cons,
          Outcome.lines_of_ok hresult]
        exact .stopped hresult htimeouts ih
    | error e =>
      have hfailure : o.isSuccess = false := by
        simp [Outcome.isSuccess, hresult, Except.isOk, Except.toBool]
      rw [List.filter_cons_of_pos (by simp [hfailure]), List.flatMap_cons,
        Outcome.lines_of_error hresult, List.append_assoc]
      exact .failed hresult ih

namespace CommandLine

open Baker (Completes)
open Workshop (inTurn opened)

variable {launch : Launcher} {g : Given} {b : Baker} {s : Store} {source : Path}
  {o : Baker.Opening} {order : List VariantKey} {w : World} {report : BakeReport}

/-- The ending of a command sums up a report on the variants of a configuration. -/
structure SumsUp (config : MacroConfig) (report : BakeReport) (w : World) (ending : Ending) :
    Prop where
  /-- There is an outcome for each variant, in the order of enumeration. -/
  keys : report.variants.map Outcome.key = config.enumerate
  /-- After all that the tools have printed comes how many of how many variants were built. -/
  out : ending.printed.out = w.printed.out ++ (report.source ++ ": " ++
    toString (report.variants.countP Outcome.isSuccess) ++ " of " ++
    toString (config.groups.map MacroGroup.variantCount).prod ++ " variants built\n")
  /-- What was built is what is left of all without the failures. -/
  count : report.failureCount ≤ report.variants.length ∧
    report.variants.length - report.failureCount = report.variants.countP Outcome.isSuccess
  /-- All were built exactly if the status is zero. -/
  all : report.variants.countP Outcome.isSuccess =
      (config.groups.map MacroGroup.variantCount).prod ↔ ending.status = 0
  /-- What went wrong is told after all messages that the tools have printed. -/
  err : ∃ entries, Told report.variants entries ∧
    ending.printed.err = w.printed.err ++ BakeReport.unlines entries

/-- The tables that are asked for: those of a file if one is given, and else the standard ones. -/
inductive Given.Loads (g : Given) (s : Store) : Tables → Prop where
  | standard (hnone : g.tables = none) : Loads g s .standard
  | file {p : Path} {tables : Tables} (hsome : g.tables = some p)
      (hload : Tables.load s p = .ok tables) : Loads g s tables

/-- The build is the one that is asked for, with tables: each of its parts is as given, or as usual
if it is not given. -/
structure Given.Asks (g : Given) (launch : Launcher) (tables : Tables) (b : Baker) : Prop where
  compile : ∀ source defines output s, b.toolchain.compile source defines output s =
    launch.run (.ofSeconds (g.seconds.getD 1000))
      ⟨g.compiler.getD "glslangValidator",
        ["-V", source] ++ defines.map ("-D" ++ ·) ++ ["-o", output]⟩ s
  reflect : ∀ binary output s, b.toolchain.reflect binary output s =
    launch.run (.ofSeconds (g.seconds.getD 1000))
      ⟨g.reflector.getD "spirv-cross", [binary, "--reflect", "--output", output]⟩ s
  tables : b.tables = tables
  jobs : b.jobs = g.jobs.getD 1
  workers : b.workers = launch.workers
  config : b.config = g.config
  keepReports : b.keepReports = g.keepReports

/-- The tables are loaded from the file that is given, if one is. -/
theorem loadTables_eq_ok_iff {tables : Tables} :
    g.loadTables s = .ok tables ↔ g.Loads s tables := by
  unfold Given.loadTables
  constructor
  · intro h
    split at h
    · exact .file ‹_› h
    · cases h
      exact .standard ‹_›
  · rintro (hnone | ⟨hsome, hload⟩)
    · rw [hnone]
    · rw [hsome]
      exact hload

/-- The limit is a thousand seconds if none is given. -/
theorem limit_toolOptions : g.toolOptions.limit = .ofSeconds (g.seconds.getD 1000) := by
  unfold Given.toolOptions
  cases g.seconds <;> rfl

/-- There is one build that is asked for with tables. -/
theorem asks_iff {tables : Tables} : g.Asks launch tables b ↔ b = g.baker launch tables := by
  constructor
  · rintro ⟨hcompile, hreflect, rfl, hjobs, hworkers, hconfig, hkeep⟩
    obtain ⟨⟨compile, reflect⟩, tables, jobs, workers, config, keepReports⟩ := b
    dsimp only at hcompile hreflect hjobs hworkers hconfig hkeep
    subst hjobs hworkers hconfig hkeep
    have htoolchain : (⟨compile, reflect⟩ : Toolchain) = .ofPrograms launch g.toolOptions := by
      rw [Toolchain.ofPrograms, limit_toolOptions, Toolchain.mk.injEq]
      exact ⟨funext fun _ => funext fun _ => funext fun _ => funext fun _ => hcompile _ _ _ _,
        funext fun _ => funext fun _ => funext fun _ => hreflect _ _ _⟩
    rw [htoolchain, Given.baker]
  · rintro rfl
    refine ⟨fun source defines output s => ?_, fun binary output s => ?_, rfl, rfl, rfl, rfl, rfl⟩
    · show launch.run g.toolOptions.limit _ s = _
      rw [limit_toolOptions]
      rfl
    · show launch.run g.toolOptions.limit _ s = _
      rw [limit_toolOptions]
      rfl

/-- A command that is to build starts the build that is asked for if there is a job and the tables
are loaded. -/
theorem prepare_eq_ok_iff :
    g.prepare launch s = .ok b ↔
      0 < g.jobs.getD 1 ∧ ∃ tables, g.Loads s tables ∧ g.Asks launch tables b := by
  have hjobs : 0 < g.jobs.getD 1 ↔ g.jobs ≠ some 0 := by
    cases g.jobs with
    | none => simp
    | some n => simp [Nat.pos_iff_ne_zero]
  simp only [← loadTables_eq_ok_iff, asks_iff]
  rw [hjobs, Given.prepare]
  split
  · simp [*]
  · rename_i hsome
    cases g.loadTables s with
    | error e => simp
    | ok tables => simp [hsome, eq_comm]

/-- A command whose build completes ends in the summary of it. -/
theorem build_of_build (hprepare : g.prepare launch s = .ok b)
    (hbuild : b.build s source = (w, .ok report)) :
    build launch g source s = .ofReport report w := by
  unfold build
  rw [hprepare]
  dsimp only
  rw [hbuild]

/-- A command that builds ends with the status zero if it comes to a build that builds all. -/
theorem build_status_iff :
    (build launch g source s).status = 0 ↔
      ∃ b w report, g.prepare launch s = .ok b ∧ b.build s source = (w, .ok report) ∧
        report.isSuccess = true := by
  unfold build
  cases g.prepare launch s with
  | error e => simp [Ending.ofError]
  | ok b =>
    cases hbuild : b.build s source with
    | mk w result =>
      cases result with
      | error halt =>
        cases halt with
        | overflow => simp [hbuild, Ending.ofOverflow]
        | fault e => simp [hbuild, Ending.ofError]
      | ok report => simp [hbuild, Ending.ofReport]

/-- A command that builds ends with the status zero if there is a job, the tables are loaded, the
build opens and has its workers, and all steps go well. -/
theorem build_status_iff_smooth :
    (build launch g source s).status = 0 ↔
      ∃ tables b o, 0 < g.jobs.getD 1 ∧ g.Loads s tables ∧ g.Asks launch tables b ∧
        b.opening s source = .ok o ∧ (1 < b.jobs → launch.workers b.jobs = true) ∧
        o.Smooth (inTurn o.config.enumerate) := by
  -- The workers that the build asks for are those of the launcher.
  have hstaffed : ∀ {b : Baker} {tables : Tables}, g.Asks launch tables b →
      (b.isStaffed = true ↔ (1 < b.jobs → launch.workers b.jobs = true)) := by
    intro b tables hasks
    rw [← hasks.workers, Baker.isStaffed, Bool.or_eq_true, decide_eq_true_eq, ← not_lt,
      ← imp_iff_not_or]
  rw [build_status_iff]
  constructor
  · rintro ⟨b, w, report, hprepare, hbuild, hsuccess⟩
    obtain ⟨hjobs, tables, htables, hasks⟩ := prepare_eq_ok_iff.1 hprepare
    obtain ⟨o, hopening, -⟩ := Baker.opening_of_bake (Baker.build_eq_ok_iff.1 hbuild).2
    obtain ⟨hworkers, hsmooth⟩ :=
      (Baker.build_isSuccess_iff hopening).1 ⟨w, report, hbuild, hsuccess⟩
    exact ⟨tables, b, o, hjobs, htables, hasks, hopening, (hstaffed hasks).1 hworkers, hsmooth⟩
  · rintro ⟨tables, b, o, hjobs, htables, hasks, hopening, hworkers, hsmooth⟩
    obtain ⟨w, report, hbuild, hsuccess⟩ :=
      (Baker.build_isSuccess_iff hopening).2 ⟨(hstaffed hasks).2 hworkers, hsmooth⟩
    exact ⟨b, w, report, prepare_eq_ok_iff.2 ⟨hjobs, tables, htables, hasks⟩, hbuild, hsuccess⟩

/-- The number of variants is the product of the numbers of choices. -/
theorem length_variants (h : b.Completes s source o order w report) :
    report.variants.length = (o.config.groups.map MacroGroup.variantCount).prod := by
  rw [← List.length_map Outcome.key, h.keys, MacroConfig.length_enumerate, MacroConfig.variantCount,
    variantProduct_eq_prod]

/-- The status of a summary is zero if all variants were built. -/
theorem status_ofReport_iff : (Ending.ofReport report w).status = 0 ↔ report.isSuccess = true := by
  simp [Ending.ofReport]

/-- The ending of a command whose build completes sums up the report. -/
theorem sumsUp_of_completes (h : b.Completes s source o order w report) :
    SumsUp o.config report w (.ofReport report w) where
  keys := h.keys
  out := by
    have hline : BakeReport.unlines [report.headline] = report.headline ++ "\n" := by
      simp [BakeReport.unlines]
    have hsummary : (Ending.ofReport report w).printed.out =
        w.printed.out ++ BakeReport.unlines [report.headline] := rfl
    have hend : " variants built\n" = " variants built" ++ "\n" := rfl
    rw [hsummary, hline, BakeReport.headline, length_variants h, BakeReport.builtCount, hend]
    simp only [String.append_assoc]
  count := by
    have hcount := report.builtCount_add_failureCount
    unfold BakeReport.builtCount at hcount
    omega
  all := by
    rw [status_ofReport_iff, ← length_variants h, List.countP_eq_length, BakeReport.isSuccess,
      List.all_eq_true]
  err := ⟨_, told_lines report.variants, rfl⟩

/-- **The status is zero exactly if all goes well, and a build that completes is summed up.**

A command line that asks for a text ends with the status zero. Any other does exactly if it asks for
a build, there is a job at least, the tables are loaded, the build opens, its workers can be started
if it is to have more than one job, and every step of every variant goes well. If a build of it
completes, in whatever order of the steps, the status is zero exactly if all steps in this order go
well, a variant counts as built exactly if its own do, and the ending sums up the report. -/
theorem run_outcome (launch : Launcher) (arguments : List String) (s : Store) :
    ((run launch arguments s).status = 0 ↔
      Request.ofArguments arguments = .ok .help ∨ Request.ofArguments arguments = .ok .version ∨
      ∃ g source tables b o, Request.ofArguments arguments = .ok (.build g source) ∧
        0 < g.jobs.getD 1 ∧ g.Loads s tables ∧ g.Asks launch tables b ∧
        b.opening s source = .ok o ∧ (1 < b.jobs → launch.workers b.jobs = true) ∧
        o.Smooth (inTurn o.config.enumerate)) ∧
    ∀ {g source tables b o order w report},
      Request.ofArguments arguments = .ok (.build g source) → 0 < g.jobs.getD 1 →
      g.Loads s tables → g.Asks launch tables b → b.Completes s source o order w report →
      (b.build s source = (w, .ok report) → run launch arguments s = .ofReport report w) ∧
      ((Ending.ofReport report w).status = 0 ↔ o.Smooth order) ∧
      (∀ out ∈ report.variants, out.isSuccess = true ↔
        o.shop.Smooth o.config out.key order (opened o.config o.world)) ∧
      SumsUp o.config report w (.ofReport report w) := by
  constructor
  · unfold run
    cases hrequest : Request.ofArguments arguments with
    | error e => simp [Ending.ofUsageError]
    | ok request =>
      cases request with
      | help => simp [Ending.ofText]
      | version => simp [Ending.ofText]
      | build g source =>
        dsimp only
        rw [build_status_iff_smooth]
        simp
  · intro g source tables b o order w report hrequest hjobs htables hasks hcompletes
    refine ⟨fun hbuild => ?_, status_ofReport_iff.trans hcompletes.report_isSuccess_iff,
      fun out hout => hcompletes.isSuccess_iff hout, sumsUp_of_completes hcompletes⟩
    rw [run, hrequest]
    exact build_of_build (prepare_eq_ok_iff.2 ⟨hjobs, tables, htables, hasks⟩) hbuild

/-! ### Tools that leave everything as it is -/

/-- A launcher whose tools do nothing and end well, but for a mishap where the macro is defined. -/
def idle (mishap : Option ToolError) (workers : Bool) : Launcher where
  run _ command s :=
    { result := match mishap with
        | some e => if "-DX" ∈ command.arguments then .error e else .ok ()
        | none => .ok ()
      store := s
      printed := {} }
  workers _ := workers

/-- What is given for a build with more tables that keeps the reports. -/
def computing : Given :=
  { source := some "x.frag", tables := some "t.json", keepReports := true }

/-- The standard tables, to which the compute stage was added. -/
def computeTables : Tables :=
  Tables.standard.extend Tables.adding.tables

/-- The workshop of that build with such tools. -/
def idleShop (mishap : Option ToolError) : Workshop :=
  (computing.baker (idle mishap true) computeTables).workshop ⟨"/x.frag"⟩

/-- A report of the compute stage with no entries. -/
def computeReport : Json.Value :=
  .ofMembers [
    ("entryPoints", .ofElements [.ofMembers [("name", .ofText "main"), ("mode", .ofText "comp")]]),
    ("outputs", .ofElements [])]

/-- The text of that report. -/
def computeText : String :=
  String.ofList computeReport.print

/-- With the added tables the report has a resource table with no rows. -/
theorem bundleOfText_computeText : Report.bundleOfText computeText computeTables = .ok ⟨[]⟩ := by
  have hpoint : (Json.Value.ofMembers [("name", .ofText "main"), ("mode", .ofText "comp")]).Whole :=
    .object (List.forall_mem_cons.2 ⟨.text _, List.forall_mem_singleton.2 (.text _)⟩)
  have hwhole : computeReport.Whole :=
    .object (List.forall_mem_cons.2 ⟨.array (List.forall_mem_singleton.2 hpoint),
      List.forall_mem_singleton.2 (.array fun _ h => absurd h List.not_mem_nil)⟩)
  rw [Report.bundleOfText, Report.ofText, computeText, Json.Document.read_print _ hwhole]
  rfl

/-- A workplace with the tables and a report for each of the variants. -/
def reported : Store :=
  Baker.workplace [(["t.json"], .file (.text Tables.adding.text) false),
    (["x.frag.res2", "0.raw.json"], .file (.text computeText) false),
    (["x.frag.res2", "1.raw.json"], .file (.text computeText) false)]

/-- The tables are loaded from their file. -/
theorem load_computing : Tables.load reported "t.json" = .ok computeTables := by
  have hread : reported.read "t.json" = .ok Tables.adding.text :=
    Store.read_of_find_file (Store.find_of_within 2 (by simp [Path.holdsNul]) rfl (by decide) rfl)
  have htext : Tables.ofText Tables.adding.text = .ok computeTables :=
    Tables.ofText_eq_ok_iff.2 ⟨Tables.adding, Tables.adding.describes_text, rfl⟩
  rw [Tables.load, hread]
  show (Tables.ofText Tables.adding.text).mapError BundleError.unread = _
  rw [htext]
  rfl

/-- The tools end well but for the mishap of the compiler where the macro is defined. -/
theorem tools_idle (mishap : Option ToolError) (w : World) :
    ((idleShop mishap).compiled Baker.off [] w).result = .ok () ∧
      ((idleShop mishap).compiled Baker.on ["X"] w).result =
        (match mishap with
        | some e => .error e
        | none => .ok ()) ∧
      ∀ key ∈ [Baker.off, Baker.on], ∀ defines,
        ((idleShop mishap).reflectedNext key defines w).result = .ok () := by
  -- The mishap befalls a command with the macro, and only one of the four commands has it.
  have hoff : "-DX" ∉ ["-V", "/x.frag", "-o", Layout.binary ⟨"/x.frag"⟩ Baker.off] := by decide
  have hon : "-DX" ∈ ["-V", "/x.frag", "-DX", "-o", Layout.binary ⟨"/x.frag"⟩ Baker.on] := by decide
  have hreflect : ∀ key ∈ [Baker.off, Baker.on], "-DX" ∉ [Layout.binary ⟨"/x.frag"⟩ key,
      "--reflect", "--output", Layout.report ⟨"/x.frag"⟩ key] := by
    decide
  cases mishap with
  | none => exact ⟨rfl, rfl, fun _ _ _ => rfl⟩
  | some e =>
    have hfailed : (if "-DX" ∈ ["-V", "/x.frag", "-DX", "-o", Layout.binary ⟨"/x.frag"⟩ Baker.on]
        then Except.error e else .ok ()) = .error e := if_pos hon
    exact ⟨if_neg hoff, hfailed, fun key hkey _ => if_neg (hreflect key hkey)⟩

/-- Where the report is read and the compiler did not fail, a resource table without rows is put
where there is none. -/
theorem finish_idle {mishap : Option ToolError} {key : VariantKey} {defines : List String}
    {l : Location} {raw table : Path} (hkey : key ∈ [Baker.off, Baker.on])
    (hcompile : ((idleShop mishap).compiled key defines w).goesOn = true)
    (hraw : (idleShop mishap).layout.report key = raw)
    (htable : (idleShop mishap).layout.resources key = table)
    (hslash : Path.endsInSlash table = false) (hread : w.store.read raw = .ok computeText)
    (hfind : w.store.find table true = .ok ⟨l, none⟩) :
    ∃ v, (idleShop mishap).finish key defines .initial w =
        (v, .ok (.ok 0, ((idleShop mishap).compiled key defines w).errors)) ∧
      v.store = w.store.put l (.file (.text (ResourceBundle.text ⟨[]⟩)) false) ∧
      v.printed = w.printed := by
  have hreflect := (tools_idle mishap w).2.2 key hkey defines
  obtain ⟨hgoes, hnone⟩ := ToolRun.result_eq_ok_iff.1 hreflect
  have hmade : (idleShop mishap).normalized key ((idleShop mishap).afterReflect key defines w) =
      .ok (⟨[]⟩, w.store.put l (.file (.text (ResourceBundle.text ⟨[]⟩)) false)) := by
    rw [Workshop.normalized, hraw, htable]
    exact Report.normalizeFile_of_find hread bundleOfText_computeText hslash hfind rfl
  have hfinish := Workshop.finish_of_made ⟨hcompile, hgoes⟩ hmade
  rw [hnone, List.append_nil] at hfinish
  refine ⟨_, hfinish, rfl, ?_⟩
  show (w.printed.append {}).append {} = w.printed
  simp [Console.append]

/-- What the variant with the macro comes to. -/
def mishapResult : Option ToolError → Except VariantError ℕ × List ToolError
  | none => (.ok 0, [])
  | some e => if e.isTimeout then (.ok 0, [e]) else (.error (.tool e), [])

/-- The report on both variants. -/
def idleReport (mishap : Option ToolError) : BakeReport :=
  ⟨"/x.frag", [(idleShop mishap).outcome Baker.switch Baker.off (.ok 0) [],
    (idleShop mishap).outcome Baker.switch Baker.on (mishapResult mishap).1
      (mishapResult mishap).2]⟩

/-- The variant with the macro comes to its result after the other one. -/
theorem finish_on_idle (mishap : Option ToolError)
    (hread : w.store.read "/x.frag.res2/1.raw.json" = .ok computeText)
    (hfind : w.store.find "/x.frag.res2/1.json" true = .ok ⟨["x.frag.res2", "1.json"], none⟩) :
    ∃ v, (idleShop mishap).finish Baker.on ["X"] .initial w = (v, .ok (mishapResult mishap)) ∧
      v.printed = w.printed := by
  have hpaths : Layout.report ⟨"/x.frag"⟩ Baker.on = "/x.frag.res2/1.raw.json" ∧
      Layout.resources ⟨"/x.frag"⟩ Baker.on = "/x.frag.res2/1.json" := by
    decide
  have hcompiled := (tools_idle mishap w).2.1
  have hmade (hgoes : ((idleShop mishap).compiled Baker.on ["X"] w).goesOn = true) :=
    finish_idle (by simp) hgoes hpaths.1 hpaths.2 (by decide) hread hfind
  cases mishap with
  | none =>
    obtain ⟨hgoes, hnone⟩ := ToolRun.result_eq_ok_iff.1 hcompiled
    obtain ⟨v, hfinish, -, hprinted⟩ := hmade hgoes
    rw [hnone] at hfinish
    exact ⟨v, hfinish, hprinted⟩
  | some e =>
    cases hlimit : e.isTimeout with
    | true =>
      have hgoes : ((idleShop (some e)).compiled Baker.on ["X"] w).goesOn = true := by
        rw [ToolRun.goesOn, hcompiled]
        exact hlimit
      obtain ⟨v, hfinish, -, hprinted⟩ := hmade hgoes
      rw [ToolRun.errors_of_result hcompiled] at hfinish
      refine ⟨v, ?_, hprinted⟩
      rw [hfinish, mishapResult, if_pos hlimit]
    | false =>
      -- A compiler that failed is the last tool of the variant.
      refine ⟨(idleShop (some e)).afterCompile Baker.on ["X"] w, ?_, ?_⟩
      · rw [Progress.initial, Workshop.finish_of_step rfl (Workshop.step_compile _),
          Progress.afterTool_of_failed hcompiled hlimit, Workshop.finish_of_result rfl,
          mishapResult, if_neg (by rw [hlimit]; decide)]
      · show w.printed.append {} = w.printed
        simp [Console.append]

/-- The build in the workplace completes with that report, if it has its workers. -/
theorem completes_idle (mishap : Option ToolError) :
    ∃ w, (computing.baker (idle mishap true) computeTables).build reported "x.frag" =
        (w, .ok (idleReport mishap)) ∧
      Completes (computing.baker (idle mishap true) computeTables) reported "x.frag"
        ⟨idleShop mishap, Baker.switch, { store := reported }⟩
        (inTurn Baker.switch.enumerate) w (idleReport mishap) ∧
      w.printed = {} := by
  have hopening : (computing.baker (idle mishap true) computeTables).opening reported "x.frag" =
      .ok ⟨idleShop mishap, Baker.switch, { store := reported }⟩ :=
    Baker.opening_within rfl rfl rfl (fun _ => rfl) fun _ => rfl
  have hnul : ∀ p ∈ ["/x.frag.res2/0.raw.json", "/x.frag.res2/0.json", "/x.frag.res2/1.raw.json",
      "/x.frag.res2/1.json"], Path.holdsNul p = false := by
    simp [Path.holdsNul]
  obtain ⟨hgoes, hnone⟩ :=
    ToolRun.result_eq_ok_iff.1 (tools_idle mishap { store := reported }).1
  obtain ⟨v, hoff, hstore, hprinted⟩ := finish_idle (by simp) hgoes Workshop.paths_off.2.1
    Workshop.paths_off.2.2 (by decide)
    (Store.read_of_find_file (Store.find_of_within 3 (hnul _ (by simp)) rfl (by decide) rfl))
    (Store.find_of_within 3 (hnul _ (by simp)) rfl (by decide) rfl)
  rw [hnone] at hoff
  obtain ⟨w, hon, hprinted'⟩ := @finish_on_idle v mishap
    (by
      rw [hstore]
      exact Store.read_of_find_file
        (Store.find_of_within 3 (hnul _ (by simp)) rfl (by decide) rfl))
    (by
      rw [hstore]
      exact Store.find_of_within 3 (hnul _ (by simp)) rfl (by decide) rfl)
  have hvariants : (idleShop mishap).variants Baker.switch Baker.switch.enumerate
      { store := reported } = (w, .ok _) :=
    Workshop.variants_cons hoff (Workshop.variants_cons hon rfl)
  have hbuild : (computing.baker (idle mishap true) computeTables).build reported "x.frag" =
      (w, .ok (idleReport mishap)) := by
    rw [Baker.build_of_staffed rfl, Baker.bake_eq hopening, hvariants]
    rfl
  exact ⟨w, hbuild, .inTurn hopening hbuild, hprinted'.trans hprinted⟩

/-- What is given on the command line of that build. -/
def computingArguments : List String :=
  ["x.frag", "--keep-raw", "--tables", "t.json"]

/-- The command line asks for the build. -/
theorem ofArguments_computing :
    Request.ofArguments computingArguments = .ok (.build computing "x.frag") := by
  rfl

/-- Both variants are built if the tools end well. If the compiler fails or is stopped at its limit
where the macro is defined, only the other one is, and that is told. Without the two workers that
are asked for, nothing is built. -/
theorem run_outcome_idle :
    ((run (idle none true) computingArguments reported).status = 0 ∧
      (run (idle none true) computingArguments reported).printed =
        ⟨"/x.frag: 2 of 2 variants built\n", ""⟩) ∧
    ((run (idle (some (.failed "c" 1)) true) computingArguments reported).status ≠ 0 ∧
      (run (idle (some (.failed "c" 1)) true) computingArguments reported).printed =
        ⟨"/x.frag: 1 of 2 variants built\n", "1 [X]: shader toolchain error\n"⟩) ∧
    ((run (idle (some (.timeout "c" (.ofSeconds 1))) true) computingArguments reported).status ≠ 0 ∧
      (run (idle (some (.timeout "c" (.ofSeconds 1))) true) computingArguments reported).printed =
        ⟨"/x.frag: 1 of 2 variants built\n",
          "1 [X]: `c` did not finish within 1s and was killed\n"⟩) ∧
    (run (idle none false) (computingArguments ++ ["--jobs", "2"]) reported).status ≠ 0 := by
  have hproduct : (Baker.switch.groups.map MacroGroup.variantCount).prod = 2 := by
    decide
  -- Whatever the mishap, the build completes, so that the status and the summary are its report's.
  have hrun (mishap : Option ToolError) :
      ((run (idle mishap true) computingArguments reported).status = 0 ↔
        (idleReport mishap).variants.countP Outcome.isSuccess = 2) ∧
        (run (idle mishap true) computingArguments reported).printed =
          (idleReport mishap).summary := by
    obtain ⟨w, hbuild, hcompletes, hprinted⟩ := completes_idle mishap
    obtain ⟨hending, -, -, hsums⟩ :=
      (run_outcome (idle mishap true) computingArguments reported).2 ofArguments_computing
        (by decide) (.file rfl load_computing) (asks_iff.2 rfl) hcompletes
    rw [hending hbuild, ← hsums.all, hproduct]
    refine ⟨Iff.rfl, ?_⟩
    show w.printed.append _ = _
    rw [hprinted]
    simp [Console.append]
  refine ⟨⟨(hrun none).1.2 rfl, (hrun none).2.trans ?_⟩,
    ⟨(hrun _).1.not.2 (by decide), (hrun _).2.trans ?_⟩,
    ⟨(hrun _).1.not.2 (by decide), (hrun _).2.trans ?_⟩, fun hzero => ?_⟩
  · decide
  · decide
  · decide
  · -- The status could be zero only with the two workers that are asked for.
    rcases (run_outcome _ _ _).1.1 hzero with hhelp | hversion | hbuild
    · cases hhelp
    · cases hversion
    · obtain ⟨g, source, tables, b, o, hrequest, -, -, hasks, -, hworkers, -⟩ := hbuild
      obtain rfl : g = { computing with jobs := some 2 } := by
        have hjobs : Request.ofArguments (computingArguments ++ ["--jobs", "2"]) =
            .ok (.build { computing with jobs := some 2 } "x.frag") := rfl
        cases hjobs.symm.trans hrequest
        rfl
      cases hworkers (by rw [hasks.jobs]; decide)

/-- **More than the steps decides about the status.** For a build that opens and whose steps all go
well, the status is zero, but not if a setting is given twice, and not if the workers cannot be
started. A command that asks for the version ends with the status zero and leaves everything as it
is. -/
theorem run_status_apart :
    (∃ o, (computing.baker (idle none true) computeTables).opening reported "x.frag" = .ok o ∧
      o.Smooth (inTurn o.config.enumerate)) ∧
    (run (idle none true) computingArguments reported).status = 0 ∧
    (run (idle none true) (computingArguments ++ ["-j", "1", "-j", "1"]) reported).status = 2 ∧
    (run (idle none false) (computingArguments ++ ["-j", "2"]) reported).status = 1 ∧
    run (idle none true) ["--version"] reported =
      ⟨0, { out := "shader-variants 0.1.0\n" }, reported⟩ := by
  obtain ⟨w, hbuild, hcompletes, -⟩ := completes_idle none
  have hsuccess : (idleReport none).isSuccess = true := by decide
  have hopening (g : Given) (hconfig : g.config = none) (workers : Bool) :
      (g.baker (idle none workers) computeTables).opening reported "x.frag" =
        .ok ⟨(g.baker (idle none workers) computeTables).workshop ⟨"/x.frag"⟩, Baker.switch,
          { store := reported }⟩ :=
    Baker.opening_within hconfig rfl rfl (fun _ => rfl) fun _ => rfl
  have hprepare (jobs : Option ℕ) (hjobs : 0 < jobs.getD 1) (workers : Bool) :
      Given.prepare { computing with jobs } (idle none workers) reported =
        .ok (Given.baker { computing with jobs } (idle none workers) computeTables) :=
    prepare_eq_ok_iff.2 ⟨hjobs, computeTables, .file rfl load_computing, asks_iff.2 rfl⟩
  have hrefused : (Given.baker { computing with jobs := some 2 } (idle none false)
      computeTables).isStaffed = false := rfl
  refine ⟨⟨_, hopening computing rfl true, hcompletes.report_isSuccess_iff.1 hsuccess⟩, ?_, rfl, ?_,
    rfl⟩
  · rw [run, ofArguments_computing]
    exact build_status_iff.2 ⟨_, w, _, hprepare none (by decide) true, hbuild, hsuccess⟩
  · have hrequest : Request.ofArguments (computingArguments ++ ["-j", "2"]) =
        .ok (.build { computing with jobs := some 2 } "x.frag") := rfl
    rw [run, hrequest]
    dsimp only
    rw [build, hprepare (some 2) (by decide) false]
    dsimp only
    rw [Baker.build_of_refused (hopening _ rfl false) hrefused]
    rfl

end CommandLine

end ShaderVariants
