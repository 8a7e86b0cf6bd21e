import ShaderVariants.Proofs.Bake.Steps
import ShaderVariants.Proofs.Report.Overflow

/-!
# The course of one variant

The steps of a variant are straight: the compiler, the reflector unless the compiler failed, the
resource table unless the reflector failed, where a tool that was stopped at its limit has not
failed. So they end in one of five ways (`Ending`), and every phase that they pass (`Passes`) is
passed in one world (`milestone_of_passes`).
-/

namespace ShaderVariants

namespace ToolRun

/-- The next step is taken after the tool: it ended well, or was stopped at its limit. -/
def goesOn (run : ToolRun) : Bool :=
  match run.result with
  | .ok () => true
  | .error e => e.isTimeout

/-- The error in which the tool ended, if it did. -/
def errors (run : ToolRun) : List ToolError :=
  match run.result with
  | .ok () => []
  | .error e => [e]

variable {run : ToolRun} {e : ToolError}

/-- A tool after which no step is taken ended in an error, and was not stopped at its limit. -/
theorem goesOn_eq_false_iff :
    run.goesOn = false ↔ ∃ e, run.result = .error e ∧ e.isTimeout = false := by
  unfold goesOn
  cases run.result with
  | ok u => simp
  | error e => simp

/-- An error is the one in which the tool ended. -/
theorem errors_of_result (h : run.result = .error e) : run.errors = [e] := by
  rw [errors, h]

/-- If a step is taken after the tool, only its limit can have stopped it. -/
theorem isTimeout_of_goesOn (h : run.goesOn = true) : ∀ e ∈ run.errors, e.isTimeout = true := by
  unfold goesOn at h
  unfold errors
  cases hresult : run.result with
  | ok u => nofun
  | error e =>
    rw [hresult] at h
    intro e' he'
    rw [List.mem_singleton.1 he']
    exact h

/-- A tool ended well if a step is taken after it and it has no error. -/
theorem result_eq_ok_iff : run.result = .ok () ↔ run.goesOn = true ∧ run.errors = [] := by
  unfold goesOn errors
  cases run.result with
  | ok u => simp
  | error e => simp

end ToolRun

namespace Progress

variable {p : Progress} {run : ToolRun} {next : Phase} {e : ToolError}

/-- After a tool that ended well or was stopped at its limit comes the next phase. -/
theorem afterTool_of_goesOn (h : run.goesOn = true) :
    p.afterTool run.result next = ⟨next, p.timeouts ++ run.errors⟩ := by
  unfold ToolRun.goesOn at h
  unfold afterTool ToolRun.errors
  cases hresult : run.result with
  | ok u => simp
  | error e =>
    rw [hresult] at h
    exact if_pos h

/-- After a tool that failed nothing comes. -/
theorem afterTool_of_failed (h : run.result = .error e) (hlimit : e.isTimeout = false) :
    p.afterTool run.result next = ⟨.done (.error (.tool e)), p.timeouts⟩ := by
  unfold afterTool
  rw [h]
  exact if_neg (by rw [hlimit]; decide)

end Progress

namespace Workshop

variable {shop : Workshop} {key : VariantKey} {defines : List String} {p : Progress} {v w : World}

/-! ## The ends of the steps -/

/-- The world after the use of the compiler for a variant. -/
def afterCompile (shop : Workshop) (key : VariantKey) (defines : List String) (w : World) : World :=
  (w.use shop.toolchain (shop.compileCall key defines)).2

/-- What the reflector does for a variant, after the compiler. -/
def reflectedNext (shop : Workshop) (key : VariantKey) (defines : List String) (w : World) :
    ToolRun :=
  shop.reflected key (shop.afterCompile key defines w)

/-- The world after the use of the compiler and then of the reflector for a variant. -/
def afterReflect (shop : Workshop) (key : VariantKey) (defines : List String) (w : World) : World :=
  ((shop.afterCompile key defines w).use shop.toolchain (shop.reflectCall key)).2

/-- The compiler leaves the store that it comes to. -/
theorem store_afterCompile :
    (shop.afterCompile key defines w).store = (shop.compiled key defines w).store :=
  rfl

/-- The reflector leaves the store that it comes to. -/
theorem store_afterReflect :
    (shop.afterReflect key defines w).store = (shop.reflectedNext key defines w).store :=
  rfl

/-- No tool failed for a variant, so that its resource table is made. -/
def Normalizes (shop : Workshop) (key : VariantKey) (defines : List String) (w : World) : Prop :=
  (shop.compiled key defines w).goesOn = true ∧ (shop.reflectedNext key defines w).goesOn = true

/-- The ways in which the steps of a variant end: the world they leave, and the result and the
timeouts if there is no overflow. -/
inductive Ending (shop : Workshop) (key : VariantKey) (defines : List String) (w : World) :
    World × Except Overflow (Except VariantError ℕ × List ToolError) → Prop where
  | compileFailed {e : ToolError} (hcompile : (shop.compiled key defines w).result = .error e)
      (hlimit : e.isTimeout = false) :
      Ending shop key defines w (shop.afterCompile key defines w, .ok (.error (.tool e), []))
  | reflectFailed {e : ToolError} (hcompile : (shop.compiled key defines w).goesOn = true)
      (hreflect : (shop.reflectedNext key defines w).result = .error e)
      (hlimit : e.isTimeout = false) :
      Ending shop key defines w
        (shop.afterReflect key defines w,
          .ok (.error (.tool e), (shop.compiled key defines w).errors))
  | overflow (htools : shop.Normalizes key defines w)
      (h : shop.normalized key (shop.afterReflect key defines w) = .error .overflow) :
      Ending shop key defines w (shop.afterReflect key defines w, .error ⟨⟩)
  | refused {e : BundleError} (htools : shop.Normalizes key defines w)
      (h : shop.normalized key (shop.afterReflect key defines w) = .error (.fault e)) :
      Ending shop key defines w
        (shop.afterReflect key defines w,
          .ok (.error (.bundle e), (shop.compiled key defines w).errors ++
            (shop.reflectedNext key defines w).errors))
  | made {bundle : ResourceBundle} {stored : Store} (htools : shop.Normalizes key defines w)
      (h : shop.normalized key (shop.afterReflect key defines w) = .ok (bundle, stored)) :
      Ending shop key defines w
        ({ shop.afterReflect key defines w with store := shop.tidied key stored },
          .ok (.ok bundle.resources.length, (shop.compiled key defines w).errors ++
            (shop.reflectedNext key defines w).errors))

/-- A first step is the use of the compiler. -/
theorem step_compile (timeouts : List ToolError) :
    shop.step key defines ⟨.compile, timeouts⟩ w =
      .ok ((⟨.compile, timeouts⟩ : Progress).afterTool (shop.compiled key defines w).result
        .reflect, shop.afterCompile key defines w) :=
  rfl

/-- A second step is the use of the reflector. -/
theorem step_reflect (timeouts : List ToolError) :
    shop.step key defines ⟨.reflect, timeouts⟩ (shop.afterCompile key defines w) =
      .ok ((⟨.reflect, timeouts⟩ : Progress).afterTool (shop.reflectedNext key defines w).result
        .normalize, shop.afterReflect key defines w) :=
  rfl

/-- A third step overflows if making the resource table does. -/
theorem step_normalize_of_overflow {timeouts : List ToolError}
    (h : shop.normalized key v = .error .overflow) :
    shop.step key defines ⟨.normalize, timeouts⟩ v = .error ⟨⟩ := by
  simp only [step, h]

/-- A third step is the last if there is no resource table. -/
theorem step_normalize_of_fault {timeouts : List ToolError} {e : BundleError}
    (h : shop.normalized key v = .error (.fault e)) :
    shop.step key defines ⟨.normalize, timeouts⟩ v =
      .ok (⟨.done (.error (.bundle e)), timeouts⟩, v) := by
  simp only [step, h]

/-- A third step stores the resource table if there is one. -/
theorem step_normalize_of_ok {timeouts : List ToolError} {bundle : ResourceBundle} {stored : Store}
    (h : shop.normalized key v = .ok (bundle, stored)) :
    shop.step key defines ⟨.normalize, timeouts⟩ v =
      .ok (⟨.tidy bundle.resources.length, timeouts⟩, { v with store := stored }) := by
  simp only [step, h]

/-- A variant whose reflector failed ends with its error. -/
theorem finish_of_reflectFailed {e : ToolError}
    (hcompile : (shop.compiled key defines w).goesOn = true)
    (hreflect : (shop.reflectedNext key defines w).result = .error e)
    (hlimit : e.isTimeout = false) :
    shop.finish key defines .initial w =
      (shop.afterReflect key defines w,
        .ok (.error (.tool e), (shop.compiled key defines w).errors)) := by
  rw [Progress.initial, finish_of_step rfl (step_compile _), Progress.afterTool_of_goesOn hcompile,
    finish_of_step rfl (step_reflect _), Progress.afterTool_of_failed hreflect hlimit,
    finish_of_result rfl]
  rfl

/-- After two tools that ended well or were stopped at their limits, the resource table is to be
made. -/
theorem finish_of_normalizes (htools : shop.Normalizes key defines w) :
    shop.finish key defines .initial w =
      shop.finish key defines
        ⟨.normalize, (shop.compiled key defines w).errors ++
          (shop.reflectedNext key defines w).errors⟩
        (shop.afterReflect key defines w) := by
  rw [Progress.initial, finish_of_step rfl (step_compile _), Progress.afterTool_of_goesOn htools.1,
    finish_of_step rfl (step_reflect _), Progress.afterTool_of_goesOn htools.2]
  rfl

/-- A variant whose resource table is made ends with it. -/
theorem finish_of_made (htools : shop.Normalizes key defines w) {bundle : ResourceBundle}
    {stored : Store}
    (h : shop.normalized key (shop.afterReflect key defines w) = .ok (bundle, stored)) :
    shop.finish key defines .initial w =
      ({ shop.afterReflect key defines w with store := shop.tidied key stored },
        .ok (.ok bundle.resources.length, (shop.compiled key defines w).errors ++
          (shop.reflectedNext key defines w).errors)) := by
  rw [finish_of_normalizes htools, finish_of_step rfl (step_normalize_of_ok h),
    finish_of_step rfl rfl, finish_of_result rfl]

/-- The steps of a variant end in one of the five ways. -/
theorem finish_ending (shop : Workshop) (key : VariantKey) (defines : List String) (w : World) :
    Ending shop key defines w (shop.finish key defines .initial w) := by
  cases hcompile : (shop.compiled key defines w).goesOn with
  | false =>
    obtain ⟨e, he, hlimit⟩ := ToolRun.goesOn_eq_false_iff.1 hcompile
    rw [Progress.initial, finish_of_step rfl (step_compile _),
      Progress.afterTool_of_failed he hlimit, finish_of_result rfl]
    exact .compileFailed he hlimit
  | true =>
    cases hreflect : (shop.reflectedNext key defines w).goesOn with
    | false =>
      obtain ⟨e, he, hlimit⟩ := ToolRun.goesOn_eq_false_iff.1 hreflect
      rw [finish_of_reflectFailed hcompile he hlimit]
      exact .reflectFailed hcompile he hlimit
    | true =>
      have htools : shop.Normalizes key defines w := ⟨hcompile, hreflect⟩
      cases hmade : shop.normalized key (shop.afterReflect key defines w) with
      | ok made =>
        obtain ⟨bundle, stored⟩ := made
        rw [finish_of_made htools hmade]
        exact .made htools hmade
      | error halt =>
        rw [finish_of_normalizes htools]
        cases halt with
        | overflow =>
          rw [finish_of_overflow rfl (step_normalize_of_overflow hmade)]
          exact .overflow htools hmade
        | fault e =>
          rw [finish_of_step rfl (step_normalize_of_fault hmade), finish_of_result rfl]
          exact .refused htools hmade

/-- The compiler is used, and then the reflector unless the compiler failed. -/
theorem Ending.calls {w' : World} {ended : Except Overflow (Except VariantError ℕ × List ToolError)}
    (h : Ending shop key defines w (w', ended)) :
    w'.calls = w.calls ++ shop.compileCall key defines ::
      if (shop.compiled key defines w).goesOn then [shop.reflectCall key] else [] := by
  cases h with
  | compileFailed hcompile hlimit =>
    rw [if_neg (by rw [ToolRun.goesOn_eq_false_iff.2 ⟨_, hcompile, hlimit⟩]; decide)]
    rfl
  | reflectFailed hcompile _ _ =>
    rw [if_pos hcompile]
    exact List.append_assoc _ _ _
  | overflow htools _ =>
    rw [if_pos htools.1]
    exact List.append_assoc _ _ _
  | refused htools _ =>
    rw [if_pos htools.1]
    exact List.append_assoc _ _ _
  | made htools _ =>
    rw [if_pos htools.1]
    exact List.append_assoc _ _ _

/-! ## Overflow -/

/-- The report that the resource table of a variant is made from is in order up to a push constant
block that is too large. -/
def Overflows (shop : Workshop) (key : VariantKey) (w : World) : Prop :=
  ∃ text report, w.store.read (shop.layout.report key) = .ok text ∧
    Report.ofText text = .ok report ∧ report.Overflows shop.tables

/-- Making the resource table of a variant overflows exactly when its report does. -/
theorem normalized_eq_overflow_iff :
    shop.normalized key w = .error .overflow ↔ shop.Overflows key w := by
  unfold normalized Report.normalizeFile Overflows
  rw [Sequence.bind_eq_error_iff, or_iff_right Sequence.ofExcept_ne_overflow]
  simp only [Sequence.ofExcept_eq_ok_iff, Sequence.mapError_eq_ok_iff, Sequence.bind_eq_error_iff,
    exists_and_left, Report.bundleOfText_eq_overflow_iff]
  refine exists_congr fun text => and_congr_right fun _ => or_iff_left ?_
  -- What is left after the table is made is to store it, which has no numbers in it.
  rintro ⟨bundle, -, hstore | ⟨stored, -, hpure⟩⟩
  · exact Sequence.ofExcept_ne_overflow hstore
  · cases hpure

/-- A variant comes to the making of its resource table, from a report that overflows. -/
def Stops (shop : Workshop) (key : VariantKey) (defines : List String) (w : World) : Prop :=
  shop.Normalizes key defines w ∧ shop.Overflows key (shop.afterReflect key defines w)

/-- A variant whose resource table is made does not stop. -/
theorem not_stops_of_made {bundle : ResourceBundle} {stored : Store}
    (hmade : shop.normalized key (shop.afterReflect key defines w) = .ok (bundle, stored)) :
    ¬shop.Stops key defines w := by
  rw [Stops, ← normalized_eq_overflow_iff, hmade]
  rintro ⟨-, h⟩
  cases h

/-- The steps of a variant overflow exactly when it comes to a report that overflows. -/
theorem finish_eq_overflow_iff :
    (∃ e, (shop.finish key defines .initial w).2 = .error e) ↔ shop.Stops key defines w := by
  rw [Stops, ← normalized_eq_overflow_iff]
  constructor
  · rintro ⟨e, h⟩
    generalize hfinish : shop.finish key defines .initial w = ended at h
    cases hfinish ▸ finish_ending shop key defines w with
    | overflow htools hnormalized => exact ⟨htools, hnormalized⟩
    | compileFailed | reflectFailed | refused | made => cases h
  · rintro ⟨htools, hnormalized⟩
    rw [finish_of_normalizes htools,
      finish_of_overflow rfl (step_normalize_of_overflow hnormalized)]
    exact ⟨_, rfl⟩

/-! ## The phases that are passed -/

/-- What a variant and the world pass through, from the first step on. -/
inductive Passes (shop : Workshop) (key : VariantKey) (defines : List String) (w : World) :
    Progress → World → Prop where
  | start : Passes shop key defines w .initial w
  | next {p q : Progress} {u v : World} (h : Passes shop key defines w p u)
      (hleft : p.phase.result? = none) (hstep : shop.step key defines p u = .ok (q, v)) :
      Passes shop key defines w q v

/-- What is known where a phase is passed: the tools that went before, and the world. -/
def Milestone (shop : Workshop) (key : VariantKey) (defines : List String) (w v : World) :
    Phase → Prop
  | .compile => v = w
  | .reflect => (shop.compiled key defines w).goesOn = true ∧ v = shop.afterCompile key defines w
  | .normalize => shop.Normalizes key defines w ∧ v = shop.afterReflect key defines w
  | .tidy _ => True
  | .done _ => True

/-- A phase is passed where its milestone is. -/
theorem milestone_of_passes (h : Passes shop key defines w p v) :
    shop.Milestone key defines w v p.phase := by
  induction h with
  | start => rfl
  | @next p q u v _ hleft hstep ih =>
    obtain ⟨phase, timeouts⟩ := p
    cases phase with
    | compile =>
      obtain rfl : u = w := ih
      rw [step_compile] at hstep
      cases hgoes : (shop.compiled key defines u).goesOn with
      | false =>
        obtain ⟨e, he, hlimit⟩ := ToolRun.goesOn_eq_false_iff.1 hgoes
        rw [Progress.afterTool_of_failed he hlimit] at hstep
        cases hstep
        trivial
      | true =>
        rw [Progress.afterTool_of_goesOn hgoes] at hstep
        cases hstep
        exact ⟨hgoes, rfl⟩
    | reflect =>
      obtain ⟨hcompile, rfl⟩ : _ ∧ u = _ := ih
      rw [step_reflect] at hstep
      cases hgoes : (shop.reflectedNext key defines w).goesOn with
      | false =>
        obtain ⟨e, he, hlimit⟩ := ToolRun.goesOn_eq_false_iff.1 hgoes
        rw [Progress.afterTool_of_failed he hlimit] at hstep
        cases hstep
        trivial
      | true =>
        rw [Progress.afterTool_of_goesOn hgoes] at hstep
        cases hstep
        exact ⟨⟨hcompile, hgoes⟩, rfl⟩
    | normalize =>
      simp only [step] at hstep
      split at hstep <;> cases hstep <;> trivial
    | tidy rows =>
      cases hstep
      trivial
    | done result => cases hleft

/-- The reflector is reached after a compiler that ended well or was stopped at its limit. -/
theorem passes_reflect (h : (shop.compiled key defines w).goesOn = true) :
    Passes shop key defines w ⟨.reflect, (shop.compiled key defines w).errors⟩
      (shop.afterCompile key defines w) := by
  refine Passes.start.next rfl ?_
  rw [Progress.initial, step_compile, Progress.afterTool_of_goesOn h]
  rfl

/-- The making of the resource table is reached after two tools that ended well or were stopped at
their limits. -/
theorem passes_normalize (h : shop.Normalizes key defines w) :
    Passes shop key defines w
      ⟨.normalize, (shop.compiled key defines w).errors ++
        (shop.reflectedNext key defines w).errors⟩
      (shop.afterReflect key defines w) := by
  refine (passes_reflect h.1).next rfl ?_
  rw [step_reflect, Progress.afterTool_of_goesOn h.2]

/-- A phase is passed for a variant. -/
def Runs (shop : Workshop) (key : VariantKey) (defines : List String) (w : World) (phase : Phase) :
    Prop :=
  ∃ timeouts v, Passes shop key defines w ⟨phase, timeouts⟩ v

/-- The reflector is used exactly if the compiler ended well or was stopped at its limit. -/
theorem runs_reflect_iff :
    shop.Runs key defines w .reflect ↔ (shop.compiled key defines w).goesOn = true := by
  constructor
  · rintro ⟨timeouts, v, hpasses⟩
    exact (milestone_of_passes hpasses).1
  · intro h
    exact ⟨_, _, passes_reflect h⟩

/-- The resource table is to be made exactly if both tools ended well or were stopped at their
limits. -/
theorem runs_normalize_iff :
    shop.Runs key defines w .normalize ↔ shop.Normalizes key defines w := by
  constructor
  · rintro ⟨timeouts, v, hpasses⟩
    exact (milestone_of_passes hpasses).1
  · intro h
    exact ⟨_, _, passes_normalize h⟩

/-- The steps pass on to what they end in. -/
theorem passes_of_finish {u : World} {result : Except VariantError ℕ} {timeouts : List ToolError}
    (h : Passes shop key defines w p u)
    (hfinish : shop.finish key defines p u = (v, .ok (result, timeouts))) :
    Passes shop key defines w ⟨.done result, timeouts⟩ v := by
  -- Each step leaves fewer, so the steps that are left carry the induction.
  induction hleft : p.phase.left using Nat.strong_induction_on generalizing p u with
  | _ n ih =>
    cases hresult : p.phase.result? with
    | some result' =>
      rw [finish_of_result hresult] at hfinish
      cases hfinish
      obtain ⟨phase, timeouts⟩ := p
      cases phase <;> cases hresult
      exact h
    | none =>
      cases hstep : shop.step key defines p u with
      | error e =>
        rw [finish_of_overflow hresult hstep] at hfinish
        cases hfinish
      | ok made =>
        obtain ⟨q, u'⟩ := made
        rw [finish_of_step hresult hstep] at hfinish
        have hlt := left_lt_of_step hstep (Phase.left_ne_zero hresult)
        exact ih _ (hleft ▸ hlt) (h.next hresult hstep) hfinish rfl

end Workshop

end ShaderVariants
