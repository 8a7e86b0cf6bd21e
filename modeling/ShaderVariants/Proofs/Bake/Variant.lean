import ShaderVariants.Proofs.Bake.Course
import ShaderVariants.Proofs.Bake.Files
import ShaderVariants.Proofs.Bake.Interleaving
import ShaderVariants.Proofs.Config.Lookup

/-!
# What becomes of a variant

For tools that write nothing but their output (`Toolchain.Confined`), `Course` says everything that
comes of building one variant: the tools that are used, the phases that are passed, the result, the
timeouts, and what is in the resource table and the report afterwards. Every variant takes such a
course unless a push constant block is too large (`variant_course`).

Without links the files of a variant are three different ones. Where a link leads two of them
together, or the resource table is a device, changing one file may change another or be without
effect (`variant_course_linked`), so `Course` says what is in the resource table only where no link
does (`WritesApart`, `RemovesApart`). A report that is to be removed stays where it is fixed.
-/

namespace ShaderVariants

open Store

namespace Workshop

variable {shop : Workshop} {key : VariantKey} {defines : List String} {s : Store} {w w' : World}
  {result : Except VariantError ℕ} {timeouts : List ToolError}

/-! ## What the tools come to -/

/-- The errors of the tools that are used for a variant, in order. -/
def toolErrors (shop : Workshop) (key : VariantKey) (defines : List String) (w : World) :
    List ToolError :=
  (shop.compiled key defines w).errors ++
    if (shop.compiled key defines w).goesOn then (shop.reflectedNext key defines w).errors else []

/-- The world after the tools that are used for a variant. -/
def afterTools (shop : Workshop) (key : VariantKey) (defines : List String) (w : World) : World :=
  if (shop.compiled key defines w).goesOn then shop.afterReflect key defines w
  else shop.afterCompile key defines w

/-- If the resource table is to be made, the reflector is the last tool. -/
theorem afterTools_of_normalizes (h : shop.Normalizes key defines w) :
    shop.afterTools key defines w = shop.afterReflect key defines w :=
  if_pos h.1

/-- The error is none of a tool that was stopped at its limit. -/
def isFailure (e : ToolError) : Bool :=
  !e.isTimeout

/-- A compiler that failed is the only tool that is used. -/
theorem toolErrors_of_compileFailed {e : ToolError}
    (h : (shop.compiled key defines w).result = .error e) (hlimit : e.isTimeout = false) :
    shop.toolErrors key defines w = [] ++ [e] := by
  rw [toolErrors, ToolRun.goesOn_eq_false_iff.2 ⟨e, h, hlimit⟩, ToolRun.errors_of_result h]
  rfl

/-- A reflector that failed is the second tool that is used. -/
theorem toolErrors_of_reflectFailed {e : ToolError}
    (hcompile : (shop.compiled key defines w).goesOn = true)
    (h : (shop.reflectedNext key defines w).result = .error e) :
    shop.toolErrors key defines w = (shop.compiled key defines w).errors ++ [e] := by
  rw [toolErrors, if_pos hcompile, ToolRun.errors_of_result h]

/-- If the resource table is to be made, both tools were used. -/
theorem toolErrors_of_normalizes (h : shop.Normalizes key defines w) :
    shop.toolErrors key defines w =
      (shop.compiled key defines w).errors ++ (shop.reflectedNext key defines w).errors := by
  rw [toolErrors, if_pos h.1]

/-- If the resource table is to be made, no tool failed. -/
theorem isTimeout_of_normalizes (h : shop.Normalizes key defines w) :
    ∀ e ∈ shop.toolErrors key defines w, e.isTimeout = true := by
  intro e he
  rw [toolErrors_of_normalizes h] at he
  rcases List.mem_append.1 he with he | he
  · exact ToolRun.isTimeout_of_goesOn h.1 e he
  · exact ToolRun.isTimeout_of_goesOn h.2 e he

/-- There is no failure among errors of tools that were stopped at their limits. -/
theorem find?_isFailure_eq_none {errors : List ToolError}
    (h : ∀ e ∈ errors, e.isTimeout = true) : errors.find? isFailure = none := by
  rw [List.find?_eq_none]
  intro e he
  simp [isFailure, h e he]

/-- The error of a tool that failed is the first failure after errors of tools that were stopped. -/
theorem find?_isFailure_eq_some {before : List ToolError} {e : ToolError}
    (hbefore : ∀ e' ∈ before, e'.isTimeout = true) (he : e.isTimeout = false) :
    (before ++ [e]).find? isFailure = some e := by
  rw [List.find?_append, find?_isFailure_eq_none hbefore]
  simp [isFailure, he]

/-- The error of a tool that failed is no timeout. -/
theorem filter_isTimeout_append {before : List ToolError} {e : ToolError}
    (hbefore : ∀ e' ∈ before, e'.isTimeout = true) (he : e.isTimeout = false) :
    (before ++ [e]).filter ToolError.isTimeout = before := by
  rw [List.filter_append, List.filter_eq_self.2 hbefore]
  simp [he]

namespace Ending

variable (h : Ending shop key defines w (w', .ok (result, timeouts)))
include h

/-- The timeouts are the errors of the tools that were stopped at their limits. -/
theorem timeouts_eq :
    timeouts = (shop.toolErrors key defines w).filter ToolError.isTimeout := by
  cases h with
  | compileFailed hcompile hlimit =>
    rw [toolErrors_of_compileFailed hcompile hlimit, filter_isTimeout_append (by simp) hlimit]
  | reflectFailed hcompile hreflect hlimit =>
    rw [toolErrors_of_reflectFailed hcompile hreflect,
      filter_isTimeout_append (ToolRun.isTimeout_of_goesOn hcompile) hlimit]
  | refused htools _ =>
    rw [List.filter_eq_self.2 (isTimeout_of_normalizes htools), toolErrors_of_normalizes htools]
  | made htools _ =>
    rw [List.filter_eq_self.2 (isTimeout_of_normalizes htools), toolErrors_of_normalizes htools]

/-- The first failure of a tool is the result. Without one the result is what comes of the
report. -/
theorem result_eq :
    match (shop.toolErrors key defines w).find? isFailure with
    | some e => result = .error (.tool e)
    | none => Halt.ofExcept result =
        ((shop.normalized key (shop.afterReflect key defines w)).map
          fun made => made.1.resources.length).mapError (Halt.map .bundle) := by
  cases h with
  | compileFailed hcompile hlimit =>
    rw [toolErrors_of_compileFailed hcompile hlimit, find?_isFailure_eq_some (by simp) hlimit]
  | reflectFailed hcompile hreflect hlimit =>
    rw [toolErrors_of_reflectFailed hcompile hreflect,
      find?_isFailure_eq_some (ToolRun.isTimeout_of_goesOn hcompile) hlimit]
  | refused htools hrefused =>
    rw [find?_isFailure_eq_none (isTimeout_of_normalizes htools), hrefused]
    rfl
  | made htools hmade =>
    rw [find?_isFailure_eq_none (isTimeout_of_normalizes htools), hmade]
    rfl

/-- A variant is built if both tools ended well and the resource table was made. -/
theorem isSuccess_iff :
    (result.isOk && timeouts.isEmpty) = true ↔
      (shop.compiled key defines w).result = .ok () ∧
        (shop.reflectedNext key defines w).result = .ok () ∧
        (shop.normalized key (shop.afterReflect key defines w)).isOk = true := by
  rw [ToolRun.result_eq_ok_iff, ToolRun.result_eq_ok_iff, Bool.and_eq_true, List.isEmpty_iff]
  cases h with
  | @compileFailed e hcompile hlimit =>
    have hgoes := ToolRun.goesOn_eq_false_iff.2 ⟨e, hcompile, hlimit⟩
    simp [hgoes, Except.isOk, Except.toBool]
  | @reflectFailed e hcompile hreflect hlimit =>
    have hgoes := ToolRun.goesOn_eq_false_iff.2 ⟨e, hreflect, hlimit⟩
    simp [hgoes, Except.isOk, Except.toBool]
  | refused htools hrefused => simp [hrefused, Except.isOk, Except.toBool]
  | made htools hmade => simp [hmade, htools.1, htools.2, Except.isOk, Except.toBool]

/-- A variant with an error leaves what the tools left. -/
theorem store_of_error {e : VariantError} (hresult : result = .error e) :
    w'.store = (shop.afterTools key defines w).store := by
  unfold afterTools
  cases h with
  | compileFailed hcompile hlimit =>
    rw [ToolRun.goesOn_eq_false_iff.2 ⟨_, hcompile, hlimit⟩]
    rfl
  | reflectFailed hcompile _ _ => rw [if_pos hcompile]
  | refused htools _ => rw [if_pos htools.1]
  | made _ _ => cases hresult

/-- A variant without an error has a resource table, which was stored before the report was
removed. -/
theorem store_of_ok {n : ℕ} (hresult : result = .ok n) :
    shop.Normalizes key defines w ∧ ∃ bundle stored,
      shop.normalized key (shop.afterReflect key defines w) = .ok (bundle, stored) ∧
        bundle.resources.length = n ∧ w'.store = shop.tidied key stored := by
  cases h with
  | made htools hmade =>
    cases hresult
    exact ⟨htools, _, _, hmade, rfl, rfl⟩
  | compileFailed | reflectFailed | refused => cases hresult

end Ending

/-! ## The course of a variant -/

/-- The tools that are used for a variant keep all directories and links, and what is not on the
ways of their outputs. -/
theorem kept_of_tools (htools : shop.toolchain.Confined) {A : Set Location}
    (hwrites : ∀ p ∈ [shop.layout.binary key, shop.layout.report key],
      ∀ l ∈ w.store.Writes p, l ∉ A) :
    Framed Set.univ (shop.afterTools key defines w).store w.store ∧
      Agree A (shop.afterTools key defines w).store w.store := by
  have hcompile := kept_of_run (htools.compile shop.layout.source defines _ _)
    (Layout.endsInSlash_of_mem_artifacts Layout.binary_mem_artifacts) (Framed.refl _ _)
    (Agree.refl _ _) (hwrites _ List.mem_cons_self)
  have hreflect := kept_of_run (htools.reflect (shop.layout.binary key) _ _)
    (Layout.endsInSlash_of_mem_artifacts Layout.report_mem_artifacts) hcompile.1 hcompile.2
    (hwrites _ (List.mem_cons_of_mem _ List.mem_cons_self))
  unfold afterTools
  split
  · exact hreflect
  · exact hcompile

/-- What comes of building a variant: its outcome, the uses of the tools, the phases that are passed
and the files, from the world before to the world after. -/
structure Course (shop : Workshop) (key : VariantKey) (defines : List String) (w w' : World)
    (o : Outcome) : Prop where
  /-- The compiler is used once, and then the reflector unless the compiler failed. -/
  calls : w'.calls = w.calls ++ shop.compileCall key defines ::
    if (shop.compiled key defines w).goesOn then [shop.reflectCall key] else []
  reflects : shop.Runs key defines w .reflect ↔ (shop.compiled key defines w).goesOn = true
  normalizes : shop.Runs key defines w .normalize ↔ shop.Runs key defines w .reflect ∧
    (shop.reflectedNext key defines w).goesOn = true
  /-- The outcome is what the last phase ends in. -/
  ends : shop.Passes key defines w ⟨.done o.result, o.timeouts⟩ w'
  timeouts : o.timeouts = (shop.toolErrors key defines w).filter ToolError.isTimeout
  /-- The first failure of a tool is the result. -/
  failed : ∀ e, o.result = .error (.tool e) ↔
    (shop.toolErrors key defines w).find? isFailure = some e
  /-- Without a failure of a tool, the result is what comes of the report. -/
  normalized : (shop.toolErrors key defines w).find? isFailure = none →
    Halt.ofExcept o.result =
      ((shop.normalized key (shop.afterReflect key defines w)).map
        fun made => made.1.resources.length).mapError (Halt.map .bundle)
  success : o.isSuccess = true ↔
    (shop.compiled key defines w).result = .ok () ∧
      (shop.reflectedNext key defines w).result = .ok () ∧
      (shop.normalized key (shop.afterReflect key defines w)).isOk = true
  /-- With an error, no file changes after the tools. -/
  untouched : ∀ e, o.result = .error e → w'.store = (shop.afterTools key defines w).store
  /-- With an error, the file of the resource table is as it was before. -/
  tableKept : shop.WritesApart w.store key → ∀ e, o.result = .error e →
    w'.store.content (shop.layout.resources key) = w.store.content (shop.layout.resources key)
  /-- Without an error, the file of the resource table holds the table that was made. -/
  tableWritten : (shop.keepReports = false → shop.RemovesApart w.store key) →
    (∀ l, w.store.find (shop.layout.resources key) true ≠ .ok ⟨l, some .device⟩) →
    ∀ n, o.result = .ok n → ∃ bundle stored,
      shop.normalized key (shop.afterReflect key defines w) = .ok (bundle, stored) ∧
        w'.store.content (shop.layout.resources key) = .ok (.text bundle.text) ∧
        ResourceBundle.load w'.store (shop.layout.resources key) = .ok bundle ∧
        bundle.resources.length = n
  /-- The report that the tools left is removed exactly if there is no error, reports are not kept
  and this one can be removed from where it is. -/
  removed : ((∃ content, (shop.afterTools key defines w).store.content (shop.layout.report key) =
        .ok content) ∧ w'.store.content (shop.layout.report key) = .error .notFound) ↔
      o.result.isOk = true ∧ shop.keepReports = false ∧ ¬w.store.Fixed (shop.layout.report key)

namespace Ending

variable (h : Ending shop key defines w (w', .ok (result, timeouts)))
include h

/-- The result is the error of a tool exactly if it is the first failure of a tool. -/
theorem result_eq_tool_iff (e : ToolError) :
    result = .error (.tool e) ↔ (shop.toolErrors key defines w).find? isFailure = some e := by
  have hresult := h.result_eq
  cases hfind : (shop.toolErrors key defines w).find? isFailure with
  | some e' =>
    rw [hfind] at hresult
    simp only at hresult
    simp [hresult]
  | none =>
    rw [hfind] at hresult
    -- What comes of the report is no error of a tool.
    simp only [reduceCtorEq, iff_false]
    rintro rfl
    cases hnormalized : shop.normalized key (shop.afterReflect key defines w) with
    | ok made =>
      rw [hnormalized] at hresult
      cases hresult
    | error halt =>
      rw [hnormalized] at hresult
      cases halt <;> cases hresult

/-- With an error, the resource table is as it was before. -/
theorem table_of_error (htools : shop.toolchain.Confined)
    (hapart : shop.WritesApart w.store key) {e : VariantError} (hresult : result = .error e) :
    w'.store.content (shop.layout.resources key) =
      w.store.content (shop.layout.resources key) := by
  have hkept : Framed Set.univ (shop.afterTools key defines w).store w.store ∧
      Agree (w.store.Sees (shop.layout.resources key)) (shop.afterTools key defines w).store
        w.store :=
    kept_of_tools htools fun p hp l hl =>
      notMem_sees_resources hp (.inl hl) fun hlink => hapart p hp hlink l hl
  rw [h.store_of_error hresult]
  exact (content_congr hkept.2.symm).symm

/-- Without an error, the resource table is there and can be loaded. -/
theorem table_of_ok (htools : shop.toolchain.Confined)
    (hapart : shop.keepReports = false → shop.RemovesApart w.store key)
    (hdevice : ∀ l, w.store.find (shop.layout.resources key) true ≠ .ok ⟨l, some .device⟩) {n : ℕ}
    (hresult : result = .ok n) :
    ∃ bundle stored, shop.normalized key (shop.afterReflect key defines w) = .ok (bundle, stored) ∧
      w'.store.content (shop.layout.resources key) = .ok (.text bundle.text) ∧
      bundle.resources.length = n := by
  obtain ⟨hnormalizes, bundle, stored, hmade, hrows, hstore⟩ := h.store_of_ok hresult
  refine ⟨bundle, stored, hmade, ?_, hrows⟩
  have hframe : Framed Set.univ (shop.afterTools key defines w).store w.store :=
    (kept_of_tools htools fun _ _ l _ => Set.notMem_empty l).1
  rw [afterTools_of_normalizes hnormalizes] at hframe
  obtain ⟨⟨content, hread⟩, e, he, rfl⟩ := writing_of_normalized hmade
  have hframe' := (framed_of_writing he).trans hframe
  have hsees := hframe'.symm.mono (Set.subset_univ (w.store.Sees (shop.layout.resources key)))
  have hwritten := content_of_writing he fun l hl => hdevice l
    (find_device_congr (hframe.symm.mono (Set.subset_univ _)) hl)
  obtain ⟨content', hread'⟩ := exists_content_of_writing he hread
  rw [hstore]
  rcases tidied_cases hread' with ⟨-, htidied⟩ | ⟨hkeep, -, e', he', htidied⟩
  · rw [htidied, hwritten]
  · -- The report is removed from where it was, and that is not on the way of the table.
    have haway : ∀ l ∈ e'.target, l ∉ w.store.Sees (shop.layout.resources key) := by
      intro l hl
      have hremoves := mem_removes_of_removing he' hl
      rw [removes_congr (hframe'.symm.mono (Set.subset_univ _))] at hremoves
      exact notMem_sees_resources (by simp) (.inr hremoves) fun hlink =>
        hapart hkeep hlink l hremoves
    rw [← sees_congr hsees] at haway
    rw [htidied, ← hwritten]
    exact (content_congr (Edit.agree_on_self haway).symm).symm

/-- The report that the tools left is removed exactly if there is no error, reports are not kept and
this one is not fixed where it is. -/
theorem removed_iff (htools : shop.toolchain.Confined) :
    ((∃ content, (shop.afterTools key defines w).store.content (shop.layout.report key) =
        .ok content) ∧ w'.store.content (shop.layout.report key) = .error .notFound) ↔
      result.isOk = true ∧ shop.keepReports = false ∧
        ¬w.store.Fixed (shop.layout.report key) := by
  cases hresult : result with
  | error e =>
    rw [h.store_of_error hresult]
    constructor
    · rintro ⟨⟨content, hread⟩, hgone⟩
      rw [hread] at hgone
      cases hgone
    · rintro ⟨hok, -⟩
      cases hok
  | ok n =>
    obtain ⟨hnormalizes, bundle, stored, hmade, -, hstore⟩ := h.store_of_ok hresult
    obtain ⟨⟨content, hread⟩, e, he, rfl⟩ := writing_of_normalized hmade
    obtain ⟨content', hread'⟩ := exists_content_of_writing he hread
    -- The tools and the table change files only, and these do not fix a report or set it free.
    have hframe : Framed Set.univ (shop.afterTools key defines w).store w.store :=
      (kept_of_tools htools fun _ _ l _ => Set.notMem_empty l).1
    rw [afterTools_of_normalizes hnormalizes] at hframe
    have hfixed := fixed_congr (p := shop.layout.report key)
      (((framed_of_writing he).trans hframe).symm.mono (Set.subset_univ _))
    rw [hstore, afterTools_of_normalizes hnormalizes, ← hfixed]
    rcases tidied_cases hread' with ⟨hstays, htidied⟩ | ⟨hkeep, hfree, e', he', htidied⟩
    · rw [htidied, hread']
      constructor
      · rintro ⟨-, hgone⟩
        cases hgone
      · rintro ⟨-, hkeep, hfree⟩
        rcases hstays with hkept | hfixed
        · rw [hkept] at hkeep
          cases hkeep
        · exact absurd hfixed hfree
    · rw [htidied, content_of_removing he']
      exact ⟨fun _ => ⟨rfl, hkeep, hfree⟩, fun _ => ⟨⟨content, hread⟩, rfl⟩⟩

/-- A variant whose steps end takes its course. -/
theorem course (htools : shop.toolchain.Confined) {binary resources : Path}
    (hpasses : Passes shop key defines w ⟨.done result, timeouts⟩ w') :
    Course shop key defines w w' ⟨key, defines, binary, resources, result, timeouts⟩ where
  calls := h.calls
  reflects := runs_reflect_iff
  normalizes := by rw [runs_normalize_iff, runs_reflect_iff, Normalizes]
  ends := hpasses
  timeouts := h.timeouts_eq
  failed := h.result_eq_tool_iff
  normalized := by
    intro hnone
    have hresult := h.result_eq
    rw [hnone] at hresult
    exact hresult
  success := h.isSuccess_iff
  untouched _ := h.store_of_error
  tableKept hapart _ := h.table_of_error htools hapart
  tableWritten := by
    intro hapart hdevice n hresult
    obtain ⟨bundle, stored, hmade, hcontent, hrows⟩ := h.table_of_ok htools hapart hdevice hresult
    exact ⟨bundle, stored, hmade, hcontent, ResourceBundle.load_of_content hcontent, hrows⟩
  removed := h.removed_iff htools

end Ending

/-- A variant comes to what its steps end in. -/
theorem variant_of_finish {config : MacroConfig} (hdefines : config.defines key = .ok defines)
    (hfinish : shop.finish key defines .initial w = (w', .ok (result, timeouts))) :
    shop.variant config key w =
      (w', .ok ⟨key, defines, shop.layout.binary key, shop.layout.resources key, result,
        timeouts⟩) := by
  rw [variant, hdefines]
  dsimp only
  rw [hfinish]
  rfl

/-- **Every variant takes its course**, whatever the files are and whatever the tools come to,
unless the report that its resource table is to be made from has a push constant block that is too
large. -/
theorem variant_course (htools : shop.toolchain.Confined) {config : MacroConfig}
    (hkey : key ∈ config.enumerate) (w : World)
    (hfits : ∀ defines, config.defines key = .ok defines → ¬shop.Stops key defines w) :
    ∃ defines w' o, config.defines key = .ok defines ∧
      shop.variant config key w = (w', .ok o) ∧ shop.Course key defines w w' o := by
  have hdefines := MacroConfig.defines_of_mem_enumerate hkey
  generalize MacroConfig.selectedIn config.groups key.values = defines at hdefines
  cases hfinish : shop.finish key defines .initial w with
  | mk w' ended =>
    have hending := finish_ending shop key defines w
    rw [hfinish] at hending
    cases ended with
    | error e =>
      have hstops : shop.Stops key defines w :=
        finish_eq_overflow_iff.1 ⟨e, congrArg Prod.snd hfinish⟩
      exact absurd hstops (hfits defines hdefines)
    | ok ended =>
      obtain ⟨result, timeouts⟩ := ended
      exact ⟨defines, w', _, hdefines, variant_of_finish hdefines hfinish,
        hending.course htools (passes_of_finish .start hfinish)⟩

/-! ## Rehearsed courses -/

/-- A workshop in which the reflector writes a text and ends in a result. -/
def rehearsal (keepReports : Bool) (text : String) (result : Except ToolError Unit) : Workshop where
  toolchain := Plan.toolchain
    { compile := .empty
      reflect := .ofList [("0.spv", { text := some text, result })]
      types := .empty }
  tables := .standard
  keepReports
  layout := ⟨"/x.frag"⟩

/-- An entry point of the fragment stage. -/
def mainPoint : Json.Value :=
  .ofMembers [("name", .ofText "main"), ("mode", .ofText "frag")]

/-- The entry point is a whole value. -/
theorem whole_mainPoint : mainPoint.Whole :=
  .object (List.forall_mem_cons.2 ⟨.text _, List.forall_mem_singleton.2 (.text _)⟩)

/-- A report with no entries. -/
def blankReport : Json.Value :=
  .ofMembers [("entryPoints", .ofElements [mainPoint]), ("outputs", .ofElements [])]

/-- The text of that report. -/
def blankText : String :=
  String.ofList blankReport.print

/-- The report has a resource table with no rows. -/
theorem bundleOfText_blankText : Report.bundleOfText blankText .standard = .ok ⟨[]⟩ := by
  have hwhole : blankReport.Whole :=
    .object (List.forall_mem_cons.2 ⟨.array (List.forall_mem_singleton.2 whole_mainPoint),
      List.forall_mem_singleton.2 (.array nofun)⟩)
  rw [Report.bundleOfText, Report.ofText, blankText, Json.Document.read_print _ hwhole]
  rfl

/-- Where the files of the variant are. -/
theorem paths_off :
    Layout.binary ⟨"/x.frag"⟩ Baker.off = "/x.frag.bin2/0.spv" ∧
      Layout.report ⟨"/x.frag"⟩ Baker.off = "/x.frag.res2/0.raw.json" ∧
      Layout.resources ⟨"/x.frag"⟩ Baker.off = "/x.frag.res2/0.json" := by
  decide

/-- No macro is defined for the variant. -/
theorem defines_off : Baker.switch.defines Baker.off = .ok [] :=
  rfl

variable {keep : Bool} {text : String} {toolResult : Except ToolError Unit}

/-- The compiler of a rehearsal writes the macros, of which there are none. -/
theorem compiled_rehearsal :
    (rehearsal keep text toolResult).compiled Baker.off [] w =
      ⟨.ok (), Baker.written "/x.frag.bin2/0.spv" "" w.store, {}⟩ := by
  unfold compiled compileCall rehearsal Plan.toolchain Toolchain.run
  dsimp only
  rw [paths_off.1]
  rfl

/-- The reflector of a rehearsal writes the text. -/
theorem reflected_rehearsal :
    (rehearsal keep text toolResult).reflected Baker.off w =
      ⟨toolResult, Baker.written "/x.frag.res2/0.raw.json" text w.store, {}⟩ := by
  have hname : Plan.fileName "/x.frag.bin2/0.spv" = "0.spv" := by decide
  unfold reflected reflectCall rehearsal Plan.toolchain Toolchain.run
  dsimp only
  rw [paths_off.1, paths_off.2.1, hname]
  rfl

/-- The tools of a rehearsal leave both files where their paths lead. -/
theorem store_rehearsal {binary report : Location} {node : Option Node}
    (hbinary : s.find "/x.frag.bin2/0.spv" true = .ok ⟨binary, none⟩)
    (hreport : (s.put binary (.file (.text "") false)).find "/x.frag.res2/0.raw.json" true =
      .ok ⟨report, node⟩)
    (hnode : node = none ∨ ∃ content, node = some (.file content false)) :
    ((rehearsal keep text toolResult).afterReflect Baker.off [] { store := s }).store =
      (s.put binary (.file (.text "") false)).put report (.file (.text text) false) := by
  have hslash : Path.endsInSlash "/x.frag.bin2/0.spv" = false ∧
      Path.endsInSlash "/x.frag.res2/0.raw.json" = false := by
    decide
  rw [store_afterReflect, reflectedNext, reflected_rehearsal, store_afterCompile,
    compiled_rehearsal]
  rw [Baker.written_eq hslash.1 hbinary (.inl rfl), Baker.written_eq hslash.2 hreport hnode]

/-- Where the text is that of the report without entries, the rehearsal makes its table. -/
theorem normalized_rehearsal {binary report table : Location} {node : Option Node} {t : Store}
    {e : Edit} (hbinary : s.find "/x.frag.bin2/0.spv" true = .ok ⟨binary, none⟩)
    (hreport : (s.put binary (.file (.text "") false)).find "/x.frag.res2/0.raw.json" true =
      .ok ⟨report, none⟩)
    (ht : t = (s.put binary (.file (.text "") false)).put report (.file (.text blankText) false))
    (hread : t.find "/x.frag.res2/0.raw.json" true =
      .ok ⟨report, some (.file (.text blankText) false)⟩)
    (htable : t.find "/x.frag.res2/0.json" true = .ok ⟨table, node⟩)
    (hedit : writeEdit (.text (ResourceBundle.text ⟨[]⟩)) ⟨table, node⟩ = .ok e) :
    (rehearsal keep blankText toolResult).normalized Baker.off
      ((rehearsal keep blankText toolResult).afterReflect Baker.off [] { store := s }) =
        .ok (⟨[]⟩, e.on t) := by
  have hstore : ((rehearsal keep blankText toolResult).afterReflect Baker.off []
      { store := s }).store = t :=
    ht ▸ store_rehearsal hbinary hreport (.inl rfl)
  have hslash : Path.endsInSlash "/x.frag.res2/0.json" = false := by decide
  rw [normalized, hstore]
  unfold rehearsal
  dsimp only
  rw [paths_off.2.1, paths_off.2.2]
  exact Report.normalizeFile_of_find (read_of_find_file hread) bundleOfText_blankText hslash htable
    hedit

/-- Both tools of a rehearsal that ends well go on. -/
theorem normalizes_rehearsal : (rehearsal keep text (.ok ())).Normalizes Baker.off [] w := by
  rw [Normalizes, compiled_rehearsal, reflectedNext, reflected_rehearsal]
  exact ⟨rfl, rfl⟩

/-- The tools of a rehearsal write nothing but their outputs. -/
theorem confined_rehearsal : (rehearsal keep text toolResult).toolchain.Confined :=
  (Plan.toolchain_deterministic _).confined

/-- The paths of the variant's files can be followed. -/
theorem holdsNul_off :
    ∀ p ∈ ["/x.frag.bin2/0.spv", "/x.frag.res2/0.raw.json", "/x.frag.res2/0.json"],
      Path.holdsNul p = false := by
  simp [Path.holdsNul]

/-- In a workplace without links, the variant is built and its resource table can be loaded. -/
theorem variant_course_rehearsed :
    ∃ w' o, (rehearsal false blankText (.ok ())).variant Baker.switch Baker.off
        { store := Baker.workplace [] } = (w', .ok o) ∧
      (rehearsal false blankText (.ok ())).Course Baker.off [] { store := Baker.workplace [] } w'
        o ∧
      o.result = .ok 0 ∧
      ResourceBundle.load w'.store "/x.frag.res2/0.json" = .ok ⟨[]⟩ := by
  let s := Baker.workplace []
  let shop := rehearsal false blankText (.ok ())
  let t := (s.put ["x.frag.bin2", "0.spv"] (.file (.text "") false)).put
    ["x.frag.res2", "0.raw.json"] (.file (.text blankText) false)
  have htable : t.find "/x.frag.res2/0.json" true = .ok ⟨["x.frag.res2", "0.json"], none⟩ :=
    find_of_within 3 (holdsNul_off _ (by simp)) rfl (by decide) rfl
  have hmade : shop.normalized Baker.off (shop.afterReflect Baker.off [] { store := s }) =
      .ok (⟨[]⟩, _) :=
    normalized_rehearsal (find_of_within 3 (holdsNul_off _ (by simp)) rfl (by decide) rfl)
      (find_of_within 3 (holdsNul_off _ (by simp)) rfl (by decide) rfl) rfl
      (find_of_within 3 (holdsNul_off _ (by simp)) rfl (by decide) rfl) htable rfl
  obtain ⟨defines, w', o, hdefines', hvariant, hcourse⟩ :=
    variant_course confined_rehearsal (show Baker.off ∈ Baker.switch.enumerate by decide)
      { store := s } fun defines hdefines' hstops => by
        cases defines_off.symm.trans hdefines'
        exact not_stops_of_made hmade hstops
  cases defines_off.symm.trans hdefines'
  have hnone : (shop.toolErrors Baker.off [] { store := s }).find? isFailure = none :=
    find?_isFailure_eq_none (isTimeout_of_normalizes normalizes_rehearsal)
  have hresult : o.result = .ok 0 := by
    have hnormalized := hcourse.normalized hnone
    rw [hmade] at hnormalized
    exact Sequence.ofExcept_eq_ok_iff.1 hnormalized
  have hdevice : ∀ l, s.find (shop.layout.resources Baker.off) true ≠ .ok ⟨l, some .device⟩ := by
    have hfind : s.find "/x.frag.res2/0.json" true = .ok ⟨["x.frag.res2", "0.json"], none⟩ :=
      find_of_within 3 (holdsNul_off _ (by simp)) rfl (by decide) rfl
    intro l hl
    rw [show shop.layout.resources Baker.off = _ from paths_off.2.2, hfind] at hl
    cases hl
  obtain ⟨bundle, stored, hmade', -, hload, -⟩ := hcourse.tableWritten
    (fun _ hlink => absurd hlink
      (not_or.2 ⟨Baker.not_linked_workplace _, Baker.not_linked_workplace _⟩))
    hdevice 0 hresult
  cases hmade.symm.trans hmade'
  exact ⟨w', o, hvariant, hcourse, hresult, paths_off.2.2 ▸ hload⟩

/-- The variant of a rehearsal is built, with tools that write nothing but their outputs and a
report that fits. -/
structure Rehearsed (shop : Workshop) (s : Store) (w' : World) (o : Outcome) : Prop where
  enumerated : Baker.off ∈ Baker.switch.enumerate
  confined : shop.toolchain.Confined
  fits : ¬shop.Stops Baker.off [] { store := s }
  built : shop.variant Baker.switch Baker.off { store := s } = (w', .ok o)

/-- Where the resource table of a rehearsal is made, the variant is built. -/
theorem rehearsed_of_made {stored : Store}
    (hmade : (rehearsal keep text (.ok ())).normalized Baker.off
      ((rehearsal keep text (.ok ())).afterReflect Baker.off [] { store := s }) =
        .ok (⟨[]⟩, stored)) :
    ∃ w' o, Rehearsed (rehearsal keep text (.ok ())) s w' o ∧ o.result = .ok 0 ∧
      w'.store = (rehearsal keep text (.ok ())).tidied Baker.off stored :=
  ⟨_, _, ⟨by decide, confined_rehearsal, not_stops_of_made hmade,
    variant_of_finish defines_off (finish_of_made normalizes_rehearsal hmade)⟩, rfl, rfl⟩

/-- Where reports are not kept, the report of the variant is removed if it can be. -/
theorem tidied_rehearsal {edit : Except FileError Edit}
    (h : s.removing "/x.frag.res2/0.raw.json" = edit) :
    (rehearsal false text toolResult).tidied Baker.off s = (edit.toOption.map (·.on s)).getD s := by
  rw [tidied, show (rehearsal false text toolResult).layout.report Baker.off = _ from paths_off.2.1,
    remove_eq, h]
  cases edit <;> rfl

/-- Where the report is a link to the resource table, a reflector that fails writes over the table
of before. -/
theorem exists_table_overwritten :
    ∃ s w' o e, Rehearsed (rehearsal true "" (.error (.failed "spirv-cross" 1))) s w' o ∧
      o.result = .error e ∧
      w'.store.content "/x.frag.res2/0.json" ≠ s.content "/x.frag.res2/0.json" := by
  let s := Baker.workplace [(["x.frag.res2", "0.raw.json"], .link "0.json"),
    (["x.frag.res2", "0.json"], .file (.text "old") false)]
  let shop := rehearsal true "" (.error (.failed "spirv-cross" 1))
  have hstore : (shop.afterReflect Baker.off [] { store := s }).store =
      (s.put ["x.frag.bin2", "0.spv"] (.file (.text "") false)).put ["x.frag.res2", "0.json"]
        (.file (.text "") false) :=
    store_rehearsal (find_of_within 3 (holdsNul_off _ (by simp)) rfl (by decide) rfl)
      (find_of_within 4 (holdsNul_off _ (by simp)) rfl (by decide) rfl) (.inr ⟨_, rfl⟩)
  have hcompile : (shop.compiled Baker.off [] { store := s }).goesOn = true := by
    rw [compiled_rehearsal]
    rfl
  have hreflect : (shop.reflectedNext Baker.off [] { store := s }).result =
      .error (.failed "spirv-cross" 1) := by
    rw [reflectedNext, reflected_rehearsal]
  have hold : s.content "/x.frag.res2/0.json" = .ok (.text "old") :=
    content_of_find_file (find_of_within 3 (holdsNul_off _ (by simp)) rfl (by decide) rfl)
  have hnew : (shop.afterReflect Baker.off [] { store := s }).store.content
      "/x.frag.res2/0.json" = .ok (.text "") := by
    rw [hstore]
    exact content_of_find_file (find_of_within 3 (holdsNul_off _ (by simp)) rfl (by decide) rfl)
  have hfits : ¬shop.Stops Baker.off [] { store := s } := by
    rintro ⟨⟨-, hgoes⟩, -⟩
    rw [ToolRun.goesOn_eq_false_iff.2 ⟨_, hreflect, rfl⟩] at hgoes
    cases hgoes
  refine ⟨s, _, _, _, ⟨by decide, confined_rehearsal, hfits,
    variant_of_finish defines_off (finish_of_reflectFailed hcompile hreflect rfl)⟩, rfl, ?_⟩
  rw [hnew, hold]
  decide

/-- Where the resource table is a link to the report, it is removed with the report. -/
theorem exists_table_removed :
    ∃ s w' o, Rehearsed (rehearsal false blankText (.ok ())) s w' o ∧ o.result = .ok 0 ∧
      w'.store.content "/x.frag.res2/0.json" = .error .notFound := by
  let s := Baker.workplace [(["x.frag.res2", "0.json"], .link "0.raw.json")]
  let shop := rehearsal false blankText (.ok ())
  let t := (s.put ["x.frag.bin2", "0.spv"] (.file (.text "") false)).put
    ["x.frag.res2", "0.raw.json"] (.file (.text blankText) false)
  let u := t.put ["x.frag.res2", "0.raw.json"]
    (.file (.text (ResourceBundle.text ⟨[]⟩)) false)
  have htable : t.find "/x.frag.res2/0.json" true = .ok ⟨["x.frag.res2", "0.raw.json"],
      some (.file (.text blankText) false)⟩ :=
    find_of_within 4 (holdsNul_off _ (by simp)) rfl (by decide) rfl
  have hmade : shop.normalized Baker.off (shop.afterReflect Baker.off [] { store := s }) =
      .ok (⟨[]⟩, u) :=
    normalized_rehearsal (find_of_within 3 (holdsNul_off _ (by simp)) rfl (by decide) rfl)
      (find_of_within 3 (holdsNul_off _ (by simp)) rfl (by decide) rfl) rfl
      (find_of_within 3 (holdsNul_off _ (by simp)) rfl (by decide) rfl) htable rfl
  have hremoving : u.removing "/x.frag.res2/0.raw.json" =
      .ok (.clear ["x.frag.res2", "0.raw.json"]) := by
    have hfind : u.find "/x.frag.res2/0.raw.json" false = .ok ⟨["x.frag.res2", "0.raw.json"],
        some (.file (.text (ResourceBundle.text ⟨[]⟩)) false)⟩ :=
      find_of_within 3 (holdsNul_off _ (by simp)) rfl (by decide) rfl
    rw [removing, hfind]
    rfl
  have htidied : shop.tidied Baker.off u = u.clear ["x.frag.res2", "0.raw.json"] :=
    tidied_rehearsal hremoving
  have hgone : (u.clear ["x.frag.res2", "0.raw.json"]).find "/x.frag.res2/0.json" true =
      .ok ⟨["x.frag.res2", "0.raw.json"], none⟩ :=
    find_of_within 4 (holdsNul_off _ (by simp)) rfl (by decide) rfl
  obtain ⟨w', o, hrehearsed, hresult, hleft⟩ := rehearsed_of_made hmade
  refine ⟨s, w', o, hrehearsed, hresult, ?_⟩
  rw [hleft, htidied, Store.content, hgone]
  rfl

/-- Where the resource table is a link to a device, it cannot be loaded. -/
theorem exists_table_unread :
    ∃ s w' o, Rehearsed (rehearsal true blankText (.ok ())) s w' o ∧ o.result = .ok 0 ∧
      ∀ bundle, ResourceBundle.load w'.store "/x.frag.res2/0.json" ≠ .ok bundle := by
  let s := Baker.workplace [(["x.frag.res2", "0.json"], .link "/dev/null"),
    (["dev"], .directory), (["dev", "null"], .device)]
  let shop := rehearsal true blankText (.ok ())
  let t := (s.put ["x.frag.bin2", "0.spv"] (.file (.text "") false)).put
    ["x.frag.res2", "0.raw.json"] (.file (.text blankText) false)
  have htable : t.find "/x.frag.res2/0.json" true = .ok ⟨["dev", "null"], some .device⟩ :=
    find_of_within 5 (holdsNul_off _ (by simp)) rfl (by decide) rfl
  have hmade : shop.normalized Baker.off (shop.afterReflect Baker.off [] { store := s }) =
      .ok (⟨[]⟩, t) :=
    normalized_rehearsal (find_of_within 3 (holdsNul_off _ (by simp)) rfl (by decide) rfl)
      (find_of_within 3 (holdsNul_off _ (by simp)) rfl (by decide) rfl) rfl
      (find_of_within 3 (holdsNul_off _ (by simp)) rfl (by decide) rfl) htable rfl
  obtain ⟨w', o, hrehearsed, hresult, hleft⟩ := rehearsed_of_made hmade
  refine ⟨s, w', o, hrehearsed, hresult, fun bundle hload => ?_⟩
  rw [hleft, show shop.tidied Baker.off t = t from rfl, ResourceBundle.load_of_find_device htable]
    at hload
  cases hload

/-- Where nothing can be removed from the directory of the report, it stays. -/
theorem exists_report_left :
    ∃ s w' o, Rehearsed (rehearsal false blankText (.ok ())) s w' o ∧ o.result = .ok 0 ∧
      w'.store.content "/x.frag.res2/0.raw.json" = .ok (.text blankText) := by
  let s : Store := { Baker.workplace [] with growing := [["x.frag.res2"]] }
  let shop := rehearsal false blankText (.ok ())
  let t := (s.put ["x.frag.bin2", "0.spv"] (.file (.text "") false)).put
    ["x.frag.res2", "0.raw.json"] (.file (.text blankText) false)
  let u := t.put ["x.frag.res2", "0.json"] (.file (.text (ResourceBundle.text ⟨[]⟩)) false)
  have htable : t.find "/x.frag.res2/0.json" true = .ok ⟨["x.frag.res2", "0.json"], none⟩ :=
    find_of_within 3 (holdsNul_off _ (by simp)) rfl (by decide) rfl
  have hmade : shop.normalized Baker.off (shop.afterReflect Baker.off [] { store := s }) =
      .ok (⟨[]⟩, u) :=
    normalized_rehearsal (find_of_within 3 (holdsNul_off _ (by simp)) rfl (by decide) rfl)
      (find_of_within 3 (holdsNul_off _ (by simp)) rfl (by decide) rfl) rfl
      (find_of_within 3 (holdsNul_off _ (by simp)) rfl (by decide) rfl) htable rfl
  have hremoving : u.removing "/x.frag.res2/0.raw.json" = .error .denied := by
    have hfind : u.find "/x.frag.res2/0.raw.json" false = .ok ⟨["x.frag.res2", "0.raw.json"],
        some (.file (.text blankText) false)⟩ :=
      find_of_within 3 (holdsNul_off _ (by simp)) rfl (by decide) rfl
    rw [removing, hfind]
    rfl
  have htidied : shop.tidied Baker.off u = u := tidied_rehearsal hremoving
  obtain ⟨w', o, hrehearsed, hresult, hleft⟩ := rehearsed_of_made hmade
  refine ⟨s, w', o, hrehearsed, hresult, ?_⟩
  rw [hleft, htidied]
  exact content_of_find_file (find_of_within 3 (holdsNul_off _ (by simp)) rfl (by decide) rfl)

/-- **Links, devices and directories that only grow can change the course.** A variant with an error
can change its resource table, where the report is a link to it. A variant without an error can be
left with no table that can be loaded, where the table is a link to the report, which is removed, or
to a device. And it can be left with its report, where nothing can be removed. -/
theorem variant_course_linked :
    (∃ s w' o e, Rehearsed (rehearsal true "" (.error (.failed "spirv-cross" 1))) s w' o ∧
      o.result = .error e ∧
      w'.store.content "/x.frag.res2/0.json" ≠ s.content "/x.frag.res2/0.json") ∧
    (∃ s w' o, Rehearsed (rehearsal false blankText (.ok ())) s w' o ∧ o.result = .ok 0 ∧
      w'.store.content "/x.frag.res2/0.json" = .error .notFound) ∧
    (∃ s w' o, Rehearsed (rehearsal true blankText (.ok ())) s w' o ∧ o.result = .ok 0 ∧
      ∀ bundle, ResourceBundle.load w'.store "/x.frag.res2/0.json" ≠ .ok bundle) ∧
    ∃ s w' o, Rehearsed (rehearsal false blankText (.ok ())) s w' o ∧ o.result = .ok 0 ∧
      w'.store.content "/x.frag.res2/0.raw.json" = .ok (.text blankText) :=
  ⟨exists_table_overwritten, exists_table_removed, exists_table_unread, exists_report_left⟩

end Workshop

end ShaderVariants
