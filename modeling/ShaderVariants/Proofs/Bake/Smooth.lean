import ShaderVariants.Proofs.Bake.Account

/-!
# Steps that go well

A variant is built exactly if every step that it takes goes well (`Workshop.GoesWell`): the compiler
and the reflector end well and within their limit, and the resource table is made. A step that does
not go well leaves a mark, a timeout or an error, which no later step removes
(`Workshop.clean_iff_of_step`); so what a variant has come to tells whether all went well
(`Workshop.clean_iff_of_work`), in whatever order the steps of the variants come.

Building the variants one after another is such an order, in which every variant has four turns
before the next one has any (`Workshop.variants_inTurn_iff`).
-/

namespace ShaderVariants

open Sequence

namespace Progress

/-- Nothing went wrong so far: no tool was stopped at its limit, and there is no error. -/
def Clean (p : Progress) : Prop :=
  p.timeouts = [] ∧ ∀ e, p.phase.result? ≠ some (.error e)

variable {p : Progress}

/-- Before there is a result, only a timeout can have gone wrong. -/
theorem clean_iff_of_result (h : p.phase.result? = none) : p.Clean ↔ p.timeouts = [] := by
  simp [Clean, h]

/-- After a tool nothing went wrong if nothing did before, and the tool ended well. -/
theorem clean_afterTool_iff {result : Except ToolError Unit} {next : Phase}
    (hp : p.phase.result? = none) (hnext : next.result? = none) :
    (p.afterTool result next).Clean ↔ p.Clean ∧ result = .ok () := by
  rw [clean_iff_of_result hp]
  cases result with
  | ok u =>
    have hafter : p.afterTool (.ok u) next = { p with phase := next } := rfl
    rw [hafter, clean_iff_of_result hnext]
    simp
  | error e =>
    unfold afterTool
    dsimp only
    split
    · rw [clean_iff_of_result hnext]
      simp
    · simp [Clean, Phase.result?]

end Progress

namespace Workshop

variable {shop : Workshop} {config : MacroConfig} {key other : VariantKey}
  {keys order : List VariantKey} {defines : List String} {p q : Progress} {v w : World}
  {floor reached : Floor}

/-- The next step of a variant goes well: a tool ends well and within its limit, or the report is
read, has a resource table, and that can be written. -/
def GoesWell (shop : Workshop) (key : VariantKey) (defines : List String) (phase : Phase)
    (w : World) : Prop :=
  match phase with
  | .compile => (shop.toolchain.compile shop.layout.source defines (shop.layout.binary key)
      w.store).result = .ok ()
  | .reflect => (shop.toolchain.reflect (shop.layout.binary key) (shop.layout.report key)
      w.store).result = .ok ()
  | .normalize => ∃ text bundle stored, w.store.read (shop.layout.report key) = .ok text ∧
      Report.bundleOfText text shop.tables = .ok bundle ∧
      w.store.write (shop.layout.resources key) bundle.text = .ok stored
  | .tidy _ | .done _ => True

/-- Every step of a variant in an order goes well. -/
def Smooth (shop : Workshop) (config : MacroConfig) (key : VariantKey) (order : List VariantKey)
    (floor : Floor) : Prop :=
  ∀ before after reached, order = before ++ key :: after →
    shop.work config before floor = .ok reached →
    shop.GoesWell key (begun config key).1 (reached.progress key).phase reached.world

/-! ## One step -/

/-- The third step goes well exactly if the resource table is made. -/
theorem goesWell_normalize_iff :
    shop.GoesWell key defines .normalize w ↔ ∃ made, shop.normalized key w = .ok made := by
  simp only [GoesWell, Prod.exists, normalized, Report.normalizeFile_eq_ok_iff]
  constructor
  · rintro ⟨text, bundle, stored, h⟩
    exact ⟨bundle, stored, text, h⟩
  · rintro ⟨bundle, stored, text, h⟩
    exact ⟨text, bundle, stored, h⟩

/-- After a step nothing went wrong with the variant if nothing did before, and the step goes
well. -/
theorem clean_iff_of_step (h : shop.step key defines p w = .ok (q, v)) :
    q.Clean ↔ p.Clean ∧ shop.GoesWell key defines p.phase w := by
  obtain ⟨phase, timeouts⟩ := p
  cases phase with
  | compile =>
    cases h
    exact Progress.clean_afterTool_iff rfl rfl
  | reflect =>
    cases h
    exact Progress.clean_afterTool_iff rfl rfl
  | normalize =>
    simp only [step] at h
    split at h
    · rename_i made hmade
      cases h
      simp [Progress.Clean, Phase.result?, goesWell_normalize_iff, hmade]
    · rename_i e hmade
      cases h
      simp [Progress.Clean, Phase.result?, goesWell_normalize_iff, hmade]
    · cases h
  | tidy rows =>
    cases h
    simp [Progress.Clean, Phase.result?, GoesWell]
  | done result =>
    cases h
    simp [GoesWell]

/-! ## In any order -/

/-- The steps of a variant in an order go well if the first does, in case it is one of the variant,
and the others do after it. -/
theorem smooth_cons_iff :
    shop.Smooth config key (other :: order) floor ↔
      (other = key →
        shop.GoesWell key (begun config key).1 (floor.progress key).phase floor.world) ∧
      ∀ next, shop.advance config floor other = .ok next →
        shop.Smooth config key order next := by
  constructor
  · intro h
    refine ⟨?_, fun next hnext before after reached hsplit hwork => ?_⟩
    · rintro rfl
      exact h [] order floor rfl rfl
    · refine h (other :: before) after reached (by rw [hsplit, List.cons_append]) ?_
      rw [work, List.foldlM_cons, hnext, ok_bind]
      exact hwork
  · rintro ⟨hfirst, hrest⟩ before after reached hsplit hwork
    cases before with
    | nil =>
      obtain ⟨rfl, -⟩ := List.cons.inj hsplit
      cases hwork
      exact hfirst rfl
    | cons first before =>
      obtain ⟨rfl, rfl⟩ := List.cons.inj hsplit
      rw [work, List.foldlM_cons] at hwork
      obtain ⟨next, hnext, hwork⟩ := bind_eq_ok_iff.1 hwork
      exact hrest next hnext before after reached rfl hwork

/-- **After steps in an order nothing went wrong with a variant if nothing did before, and every
step of the variant goes well.** -/
theorem clean_iff_of_work (h : shop.work config order floor = .ok reached) :
    (reached.progress key).Clean ↔
      (floor.progress key).Clean ∧ shop.Smooth config key order floor := by
  induction order generalizing floor with
  | nil =>
    cases h
    refine (and_iff_left ?_).symm
    intro before after reached hsplit
    exact absurd hsplit.symm (List.append_ne_nil_of_right_ne_nil _ (List.cons_ne_nil _ _))
  | cons other order ih =>
    rw [work, List.foldlM_cons] at h
    obtain ⟨next, hnext, hrest⟩ := bind_eq_ok_iff.1 h
    obtain ⟨hstep, hothers⟩ := advance_eq_ok hnext
    have hsmooth : (∀ next, shop.advance config floor other = .ok next →
        shop.Smooth config key order next) ↔ shop.Smooth config key order next := by
      rw [hnext]
      simp
    rw [ih hrest, smooth_cons_iff, hsmooth, ← and_assoc]
    refine and_congr_left fun _ => ?_
    by_cases heq : other = key
    · subst heq
      simpa using clean_iff_of_step hstep
    · rw [hothers key (Ne.symm heq)]
      simp [heq]

/-- Steps that go well do not overflow. -/
theorem exists_work_of_smooth (h : ∀ key ∈ order, shop.Smooth config key order floor) :
    ∃ reached, shop.work config order floor = .ok reached := by
  cases hwork : shop.work config order floor with
  | ok reached => exact ⟨reached, rfl⟩
  | error e =>
    obtain ⟨before, key, after, reached, timeouts, rfl, hbefore, hphase, hlarge⟩ :=
      work_eq_error_iff.1 hwork
    have hgoes := h key (by simp) before after reached rfl hbefore
    rw [hphase] at hgoes
    obtain ⟨made, hmade⟩ := goesWell_normalize_iff.1 hgoes
    cases hmade.symm.trans (normalized_eq_overflow_iff.2 hlarge)

/-- A variant that is done was built if nothing went wrong. -/
theorem isSuccess_iff_clean {o : Outcome} (h : shop.outcome? config floor key = some o) :
    o.isSuccess = true ↔ (floor.progress key).Clean := by
  obtain ⟨result, hresult, rfl⟩ := Option.map_eq_some_iff.1 h
  rw [Progress.Clean, hresult, Outcome.isSuccess, outcome]
  cases result with
  | ok rows => simp [Except.isOk, Except.toBool]
  | error e => simp [Except.isOk, Except.toBool]

/-- Before the first step nothing went wrong with a variant of the configuration. -/
theorem clean_opened (hkey : key ∈ config.enumerate) : ((opened config w).progress key).Clean := by
  have hbegun : (begun config key).2 = .initial := by
    rw [begun, MacroConfig.defines_of_mem_enumerate hkey]
  show (begun config key).2.Clean
  rw [hbegun]
  exact ⟨rfl, fun e h => by cases h⟩

/-! ## One after another -/

/-- Every variant has four turns, which is as many as it has steps. -/
def inTurn (keys : List VariantKey) : List VariantKey :=
  keys.flatMap (List.replicate 4)

/-- Steps in an order are those before a place and then those after it. -/
theorem work_append (first rest : List VariantKey) :
    shop.work config (first ++ rest) floor =
      shop.work config first floor >>= shop.work config rest :=
  List.foldlM_append

/-- The work when a variant is done, with a result and timeouts, in a world. -/
def finished (floor : Floor) (key : VariantKey)
    (ended : Except VariantError ℕ × List ToolError) (w : World) : Floor :=
  ⟨Function.update floor.progress key ⟨.done ended.1, ended.2⟩, w⟩

/-- The variant is done then. -/
theorem progress_finished {ended : Except VariantError ℕ × List ToolError} :
    (finished floor key ended w).progress key = ⟨.done ended.1, ended.2⟩ :=
  Function.update_self ..

/-- All others are where they were. -/
theorem progress_finished_of_ne {ended : Except VariantError ℕ × List ToolError}
    (h : other ≠ key) : (finished floor key ended w).progress other = floor.progress other :=
  Function.update_of_ne h ..

/-- As many turns of a variant as it has steps left are those steps. -/
theorem work_replicate {n : ℕ} (hn : (floor.progress key).phase.left ≤ n) :
    shop.work config (List.replicate n key) floor =
      (shop.finish key (begun config key).1 (floor.progress key) floor.world).2.map fun ended =>
        finished floor key ended
          (shop.finish key (begun config key).1 (floor.progress key) floor.world).1 := by
  induction n generalizing floor with
  | zero =>
    obtain ⟨progress, w⟩ := floor
    obtain ⟨result, hphase⟩ : ∃ result, (progress key).phase = .done result := by
      cases hphase : (progress key).phase with
      | done result => exact ⟨result, rfl⟩
      | compile | reflect | normalize | tidy =>
        rw [hphase] at hn
        cases hn
    have hsame : (⟨.done result, (progress key).timeouts⟩ : Progress) = progress key := by
      rw [← hphase]
    rw [finish_of_result (by rw [hphase]; rfl)]
    simp only [Except.map, finished, hsame, Function.update_eq_self]
    rfl
  | succ n ih =>
    rw [List.replicate_succ, work, List.foldlM_cons, advance]
    cases hstep : shop.step key (begun config key).1 (floor.progress key) floor.world with
    | error e =>
      have hresult : (floor.progress key).phase.result? = none := by
        cases hresult : (floor.progress key).phase.result? with
        | none => rfl
        | some result => cases hstep.symm.trans (step_of_result hresult)
      rw [finish_of_overflow hresult hstep]
      rfl
    | ok made =>
      obtain ⟨q, v⟩ := made
      -- A step that leaves nothing to do any more is one of those that are left.
      have hfinish : shop.finish key (begun config key).1 (floor.progress key) floor.world =
          shop.finish key (begun config key).1 q v := by
        cases hresult : (floor.progress key).phase.result? with
        | none => exact finish_of_step hresult hstep
        | some result =>
          cases hstep.symm.trans (step_of_result hresult)
          rfl
      have hleft : q.phase.left ≤ n := by
        have := left_le_of_step hstep
        omega
      have hrest := @ih ⟨Function.update floor.progress key q, v⟩
        (by simpa only [Function.update_self] using hleft)
      simp only [finished, Function.update_self, Function.update_idem] at hrest
      rw [hfinish]
      exact hrest

/-- Steps of other variants leave what a variant has come to. -/
theorem progress_of_work (hkey : key ∉ order) (h : shop.work config order floor = .ok reached) :
    reached.progress key = floor.progress key := by
  induction order generalizing floor with
  | nil =>
    cases h
    rfl
  | cons other order ih =>
    rw [List.mem_cons, not_or] at hkey
    rw [work, List.foldlM_cons] at h
    obtain ⟨next, hnext, hrest⟩ := bind_eq_ok_iff.1 h
    rw [ih hkey.2 hrest, (advance_eq_ok hnext).2 key hkey.1]

/-- Only the variants of a list have turns when they are built one after another. -/
theorem mem_inTurn_iff : key ∈ inTurn keys ↔ key ∈ keys := by
  simp [inTurn]

/-- Each of the variants has its four turns. -/
theorem le_count_inTurn (hkey : key ∈ keys) : 4 ≤ (inTurn keys).count key := by
  obtain ⟨before, after, rfl⟩ := List.append_of_mem hkey
  rw [inTurn, List.flatMap_append, List.flatMap_cons, List.count_append, List.count_append,
    List.count_replicate_self]
  omega

/-- The turns of the first variant are all its steps, and then come the turns of the others. -/
theorem work_inTurn_cons (hbegun : floor.progress key = (begun config key).2) :
    shop.work config (inTurn (key :: keys)) floor =
      (shop.solo config floor.world key).2 >>= fun ended =>
        shop.work config (inTurn keys)
          (finished floor key ended (shop.solo config floor.world key).1) := by
  have hleft : (floor.progress key).phase.left ≤ 4 := by
    cases (floor.progress key).phase <;> simp [Phase.left]
  rw [inTurn, List.flatMap_cons, work_append, work_replicate hleft, hbegun, ← solo]
  cases (shop.solo config floor.world key).2 <;> rfl

/-- Variants that were not begun come to outcomes one after another exactly if their steps in turn
do not overflow, and then to the same. -/
theorem variants_eq_ok_iff (hnodup : keys.Nodup)
    (hbegun : ∀ key ∈ keys, floor.progress key = (begun config key).2) {w' : World}
    {outcomes : List Outcome} :
    shop.variants config keys floor.world = (w', .ok outcomes) ↔
      ∃ reached, shop.work config (inTurn keys) floor = .ok reached ∧ reached.world = w' ∧
        List.Forall₂ (fun key out => shop.outcome? config reached key = some out) keys
          outcomes := by
  induction keys generalizing floor outcomes with
  | nil =>
    rw [variants]
    simp [inTurn, work, pure, Except.pure, eq_comm]
  | cons key keys ih =>
    obtain ⟨hkey, hnodup⟩ := List.nodup_cons.1 hnodup
    rw [List.forall_mem_cons] at hbegun
    rw [variants_cons_eq_ok_iff, variant_eq, work_inTurn_cons hbegun.1, ← solo]
    cases shop.solo config floor.world key with
    | mk w₁ ended =>
      cases ended with
      | error e => simp [Except.map]
      | ok ended =>
        have hothers : ∀ other ∈ keys,
            (finished floor key ended w₁).progress other = (begun config other).2 := by
          intro other hother
          have hne : other ≠ key := fun heq => hkey (heq ▸ hother)
          rw [progress_finished_of_ne hne, hbegun.2 other hother]
        -- The others leave what the variant has come to.
        have houtcome : ∀ reached,
            shop.work config (inTurn keys) (finished floor key ended w₁) = .ok reached →
            shop.outcome? config reached key =
              some (shop.outcome config key ended.1 ended.2) := by
          intro reached hwork
          rw [outcome?, progress_of_work (mt mem_inTurn_iff.1 hkey) hwork, progress_finished]
          rfl
        constructor
        · rintro ⟨v, o, rest, hfirst, hvariants, rfl⟩
          cases hfirst
          obtain ⟨reached, hwork, hworld, hall⟩ := (ih hnodup hothers).1 hvariants
          exact ⟨reached, hwork, hworld, .cons (houtcome reached hwork) hall⟩
        · rintro ⟨reached, hwork, hworld, hall⟩
          cases hall with
          | cons hfirst hall =>
            obtain rfl := Option.some.inj ((houtcome reached hwork).symm.trans hfirst)
            exact ⟨w₁, _, _, rfl, (ih hnodup hothers).2 ⟨reached, hwork, hworld, hall⟩, rfl⟩

/-- **Building variants one after another is going through their steps in turn**: it comes to
outcomes exactly if the steps do not overflow, and then to the same. -/
theorem variants_inTurn_iff (hnodup : keys.Nodup) {w' : World} {outcomes : List Outcome} :
    shop.variants config keys w = (w', .ok outcomes) ↔
      ∃ floor, shop.work config (inTurn keys) (opened config w) = .ok floor ∧ floor.world = w' ∧
        List.Forall₂ (fun key out => shop.outcome? config floor key = some out) keys outcomes :=
  @variants_eq_ok_iff shop config keys (opened config w) hnodup (fun _ _ => rfl) w' outcomes

/-- When nothing is left to do, the outcomes are those of the variants. -/
theorem forall₂_outcomes_of_done (hdone : floor.Done keys) :
    List.Forall₂ (fun key out => shop.outcome? config floor key = some out) keys
      (keys.filterMap (shop.outcome? config floor)) := by
  induction keys with
  | nil => exact .nil
  | cons key keys ih =>
    have hkey := hdone key List.mem_cons_self
    obtain ⟨result, hresult⟩ := Option.ne_none_iff_exists'.1 hkey
    have houtcome : shop.outcome? config floor key =
        some (shop.outcome config key result (floor.progress key).timeouts) := by
      rw [outcome?, hresult]
      rfl
    rw [List.filterMap_cons_some houtcome]
    exact .cons houtcome (ih fun k hk => hdone k (List.mem_cons_of_mem _ hk))

/-- The outcome of a variant has its key. -/
theorem key_of_outcome? {o : Outcome} (h : shop.outcome? config floor key = some o) :
    o.key = key := by
  obtain ⟨result, -, rfl⟩ := Option.map_eq_some_iff.1 h
  rfl

end Workshop

namespace Baker

open Workshop

/-- The steps of all variants go well in an order. -/
def Opening.Smooth (o : Opening) (order : List VariantKey) : Prop :=
  ∀ key ∈ o.config.enumerate, o.shop.Smooth o.config key order (opened o.config o.world)

/-- A build that has opened may complete with the steps of its variants in an order, in a world that
it leaves and with a report: one variant after another, or, if more than one may be under way at a
time and the workers can be started, in any order after which nothing is left to do. -/
inductive Completes (b : Baker) (s : Store) (source : Path) (o : Opening) :
    List VariantKey → World → BakeReport → Prop where
  | inTurn {w : World} {report : BakeReport} (hopening : b.opening s source = .ok o)
      (hbuild : b.build s source = (w, .ok report)) :
      Completes b s source o (inTurn o.config.enumerate) w report
  | inOrder {order : List VariantKey} {floor : Floor} (hjobs : 1 < b.jobs)
      (hworkers : b.workers b.jobs = true) (hopening : b.opening s source = .ok o)
      (horder : ∀ key ∈ order, key ∈ o.config.enumerate)
      (hwork : o.shop.work o.config order (opened o.config o.world) = .ok floor)
      (hdone : floor.Done o.config.enumerate) :
      Completes b s source o order floor.world
        ⟨o.shop.layout.source, o.config.enumerate.filterMap (o.shop.outcome? o.config floor)⟩

variable {b : Baker} {s : Store} {source : Path} {o : Opening} {order : List VariantKey} {w : World}
  {report : BakeReport}

/-- The outcomes that are reported are those of the enumerated variants, when the steps in the order
were taken. -/
theorem Completes.exists_floor (h : b.Completes s source o order w report) :
    ∃ floor, o.shop.work o.config order (opened o.config o.world) = .ok floor ∧
      List.Forall₂ (fun key out => o.shop.outcome? o.config floor key = some out)
        o.config.enumerate report.variants := by
  cases h with
  | inTurn hopening hbuild =>
    obtain ⟨floor, hwork, -, houtcomes⟩ := (variants_inTurn_iff (MacroConfig.enumerate_nodup _)).1
      (variants_of_bake hopening (build_eq_ok_iff.1 hbuild).2)
    exact ⟨floor, hwork, houtcomes⟩
  | inOrder _ _ _ _ hwork hdone => exact ⟨_, hwork, forall₂_outcomes_of_done hdone⟩

/-- The report has one outcome for each variant, in the order of enumeration. -/
theorem Completes.keys (h : b.Completes s source o order w report) :
    report.variants.map Outcome.key = o.config.enumerate := by
  obtain ⟨floor, -, houtcomes⟩ := h.exists_floor
  have hkeys : List.Forall₂ (fun key out => key = out.key) o.config.enumerate report.variants :=
    houtcomes.imp fun key out hout => (key_of_outcome? hout).symm
  rw [← List.forall₂_map_right_iff, List.forall₂_eq_eq_eq] at hkeys
  exact hkeys.symm

/-- A variant was built exactly if its steps went well. -/
theorem Completes.isSuccess_iff (h : b.Completes s source o order w report) {out : Outcome}
    (hout : out ∈ report.variants) :
    out.isSuccess = true ↔ o.shop.Smooth o.config out.key order (opened o.config o.world) := by
  obtain ⟨floor, hwork, houtcomes⟩ := h.exists_floor
  obtain ⟨key, hkey, houtcome⟩ := exists_of_forall₂ houtcomes hout
  rw [isSuccess_iff_clean houtcome, clean_iff_of_work hwork, key_of_outcome? houtcome]
  exact and_iff_right (clean_opened hkey)

/-- All variants were built exactly if all steps went well. -/
theorem Completes.report_isSuccess_iff (h : b.Completes s source o order w report) :
    report.isSuccess = true ↔ o.Smooth order := by
  rw [BakeReport.isSuccess, List.all_eq_true, Opening.Smooth, ← h.keys, List.forall_mem_map]
  exact forall₂_congr fun out hout => h.isSuccess_iff hout

/-- **A build in which one variant comes after another builds all exactly if it has its workers and
all steps go well.** -/
theorem build_isSuccess_iff (hopening : b.opening s source = .ok o) :
    (∃ w report, b.build s source = (w, .ok report) ∧ report.isSuccess = true) ↔
      b.isStaffed = true ∧ o.Smooth (inTurn o.config.enumerate) := by
  constructor
  · rintro ⟨w, report, hbuild, hsuccess⟩
    exact ⟨(build_eq_ok_iff.1 hbuild).1,
      (Completes.inTurn hopening hbuild).report_isSuccess_iff.1 hsuccess⟩
  · rintro ⟨hstaffed, hsmooth⟩
    obtain ⟨floor, hwork⟩ := exists_work_of_smooth fun key hkey =>
      hsmooth key (mem_inTurn_iff.1 hkey)
    have hdone : floor.Done o.config.enumerate := fun key hkey =>
      (done_of_work (MacroConfig.defines_of_mem_enumerate hkey) (le_count_inTurn hkey) hwork).1
    have hvariants := (variants_inTurn_iff (MacroConfig.enumerate_nodup _)).2
      ⟨floor, hwork, rfl, forall₂_outcomes_of_done hdone⟩
    have hbake : b.bake s source = (floor.world, .ok ⟨o.shop.layout.source,
        o.config.enumerate.filterMap (o.shop.outcome? o.config floor)⟩) := by
      rw [bake_eq hopening, hvariants]
      rfl
    have hbuild := build_eq_ok_iff.2 ⟨hstaffed, hbake⟩
    exact ⟨_, _, hbuild, (Completes.inTurn hopening hbuild).report_isSuccess_iff.2 hsmooth⟩

end Baker

end ShaderVariants
