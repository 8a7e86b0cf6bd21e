import ShaderVariants.Proofs.Bake.Variant

/-!
# What stops a build

A build that has opened and has its workers reports every variant, each after it was attempted,
whatever comes of the others, with one exception: a report with a push constant block that is too
large stops everything, and then nothing is reported (`bake_isolated`). The same holds in every
order of the steps in which each variant has its turn often enough.
-/

namespace ShaderVariants

open Store

namespace Workshop

variable {shop : Workshop} {config : MacroConfig} {key : VariantKey} {keys order : List VariantKey}
  {defines : List String} {p q : Progress} {v w : World} {floor reached : Floor}

/-- There is one outcome for each key, in order, and each variant was attempted: the compiler was
used for it. -/
structure Complete (shop : Workshop) (config : MacroConfig) (keys : List VariantKey)
    (calls : List ToolCall) (outcomes : List Outcome) : Prop where
  reported : outcomes.map Outcome.key = keys
  attempted : ∀ key ∈ keys, ∃ defines, config.defines key = .ok defines ∧
    shop.compileCall key defines ∈ calls

/-! ## One after another -/

/-- One of the variants stops in its turn, in the world that those before it leave. -/
def StopsInTurn (shop : Workshop) (config : MacroConfig) (keys : List VariantKey) (w : World) :
    Prop :=
  ∃ before key after defines v outcomes, keys = before ++ key :: after ∧
    config.defines key = .ok defines ∧ shop.variants config before w = (v, .ok outcomes) ∧
    shop.Stops key defines v

/-- A variant either stops, or it has an outcome and was attempted. -/
theorem variant_cases (shop : Workshop) (w : World) (h : config.defines key = .ok defines) :
    (∃ v e, shop.variant config key w = (v, .error e) ∧ shop.Stops key defines w) ∨
      ∃ v o, shop.variant config key w = (v, .ok o) ∧ ¬shop.Stops key defines w ∧ o.key = key ∧
        shop.compileCall key defines ∈ v.calls ∧ w.calls ⊆ v.calls := by
  have hending := finish_ending shop key defines w
  cases hfinish : shop.finish key defines .initial w with
  | mk v ended =>
    rw [hfinish] at hending
    cases ended with
    | error e =>
      have hvariant : shop.variant config key w = (v, .error e) := by
        rw [variant, h]
        dsimp only
        rw [hfinish]
        rfl
      exact .inl ⟨v, e, hvariant, finish_eq_overflow_iff.1 ⟨e, congrArg Prod.snd hfinish⟩⟩
    | ok ended =>
      obtain ⟨result, timeouts⟩ := ended
      refine .inr ⟨v, _, variant_of_finish h hfinish, fun hstops => ?_, rfl, ?_, ?_⟩
      · obtain ⟨e, he⟩ := finish_eq_overflow_iff.2 hstops
        rw [hfinish] at he
        cases he
      · rw [hending.calls]
        simp
      · rw [hending.calls]
        exact List.subset_append_left _ _

/-- Variants stop in their turns if the first does, or one of the others after it. -/
theorem stopsInTurn_cons_iff (h : config.defines key = .ok defines) :
    shop.StopsInTurn config (key :: keys) w ↔
      shop.Stops key defines w ∨
        ∃ v o, shop.variant config key w = (v, .ok o) ∧ shop.StopsInTurn config keys v := by
  constructor
  · rintro ⟨before, key', after, defines', v, outcomes, hsplit, hdefines, hbefore, hstops⟩
    cases before with
    | nil =>
      cases hsplit
      cases hbefore
      cases h.symm.trans hdefines
      exact .inl hstops
    | cons first before =>
      cases hsplit
      obtain ⟨u, o, rest, hfirst, hrest, -⟩ := variants_cons_eq_ok_iff.1 hbefore
      exact .inr ⟨u, o, hfirst, before, key', after, defines', v, rest, rfl, hdefines, hrest,
        hstops⟩
  · rintro (hstops | ⟨v, o, hfirst, before, key', after, defines', u, rest, rfl, hdefines, hrest,
      hstops⟩)
    · exact ⟨[], key, keys, defines, w, [], rfl, h, rfl, hstops⟩
    · exact ⟨key :: before, key', after, defines', u, o :: rest, rfl, hdefines,
        variants_cons_eq_ok_iff.2 ⟨v, o, rest, hfirst, hrest, rfl⟩, hstops⟩

/-- Building variants one after another stops exactly if one of them stops in its turn. Else all
have their outcomes. -/
theorem variants_cases (shop : Workshop) (config : MacroConfig) (keys : List VariantKey) (w : World)
    (hkeys : ∀ key ∈ keys, ∃ defines, config.defines key = .ok defines) :
    (∃ v e, shop.variants config keys w = (v, .error e) ∧ shop.StopsInTurn config keys w) ∨
      ∃ v outcomes, shop.variants config keys w = (v, .ok outcomes) ∧
        ¬shop.StopsInTurn config keys w ∧ shop.Complete config keys v.calls outcomes ∧
        w.calls ⊆ v.calls := by
  induction keys generalizing w with
  | nil =>
    refine .inr ⟨w, [], rfl, ?_, ⟨rfl, nofun⟩, fun _ h => h⟩
    rintro ⟨before, key, after, -, -, -, h, -⟩
    exact absurd h.symm (List.append_ne_nil_of_right_ne_nil _ (List.cons_ne_nil _ _))
  | cons key keys ih =>
    obtain ⟨defines, hdefines⟩ := hkeys key List.mem_cons_self
    rw [stopsInTurn_cons_iff hdefines, variants]
    -- The first stops, or it has its outcome and the others start from the world that it leaves.
    rcases variant_cases shop w hdefines with
      ⟨v, e, hvariant, hstops⟩ | ⟨v, o, hvariant, hgoes, hkey, hcall, hcalls⟩
    · rw [hvariant]
      exact .inl ⟨v, e, rfl, .inl hstops⟩
    · rw [hvariant]
      dsimp only
      rcases ih v fun k hk => hkeys k (List.mem_cons_of_mem _ hk) with
        ⟨u, e, hrest, hstops⟩ | ⟨u, rest, hrest, hgoes', hcomplete, hcalls'⟩
      · rw [hrest]
        exact .inl ⟨u, e, rfl, .inr ⟨v, o, rfl, hstops⟩⟩
      · rw [hrest]
        refine .inr ⟨u, o :: rest, rfl, ?_, ⟨?_, ?_⟩, List.Subset.trans hcalls hcalls'⟩
        · rintro (hstops | ⟨v', o', hvariant', hstops⟩)
          · exact hgoes hstops
          · cases hvariant'
            exact hgoes' hstops
        · rw [List.map_cons, hkey, hcomplete.reported]
        · intro k hk
          rcases List.mem_cons.1 hk with rfl | hk
          · exact ⟨defines, hdefines, hcalls' hcall⟩
          · exact hcomplete.attempted k hk

/-! ## In any order -/

/-- One of the variants stops when its turn comes in an order of steps. -/
def StopsInOrder (shop : Workshop) (config : MacroConfig) (order : List VariantKey)
    (floor : Floor) : Prop :=
  ∃ before key after reached timeouts, order = before ++ key :: after ∧
    shop.work config before floor = .ok reached ∧
    reached.progress key = ⟨.normalize, timeouts⟩ ∧ shop.Overflows key reached.world

/-- A step overflows exactly if a resource table is to be made from a report that overflows. -/
theorem step_eq_error_iff {e : Overflow} :
    shop.step key defines p w = .error e ↔
      (∃ timeouts, p = ⟨.normalize, timeouts⟩) ∧ shop.Overflows key w := by
  rw [← normalized_eq_overflow_iff]
  obtain ⟨phase, timeouts⟩ := p
  cases phase with
  | normalize =>
    cases hmade : shop.normalized key w with
    | ok made => simp [step, hmade]
    | error halt => cases halt <;> simp [step, hmade]
  | compile | reflect | tidy | done => simp [step]

/-- An order of steps overflows exactly if one of the variants stops in it. -/
theorem work_eq_error_iff {e : Overflow} :
    shop.work config order floor = .error e ↔ shop.StopsInOrder config order floor := by
  rw [work, Sequence.foldlM_eq_error_iff]
  constructor
  · rintro ⟨before, key, after, reached, rfl, hbefore, hfails⟩
    obtain ⟨⟨timeouts, hphase⟩, hlarge⟩ := step_eq_error_iff.1 (Sequence.map_eq_error_iff.1 hfails)
    exact ⟨before, key, after, reached, timeouts, rfl, hbefore, hphase, hlarge⟩
  · rintro ⟨before, key, after, reached, timeouts, rfl, hbefore, hphase, hlarge⟩
    exact ⟨before, key, after, reached, rfl, hbefore,
      Sequence.map_eq_error_iff.2 (step_eq_error_iff.2 ⟨⟨timeouts, hphase⟩, hlarge⟩)⟩

/-- The uses of the tools are kept in a step, and a first step is one more. -/
theorem calls_of_step (h : shop.step key defines p w = .ok (q, v)) :
    w.calls ⊆ v.calls ∧ (p.phase = .compile → shop.compileCall key defines ∈ v.calls) := by
  obtain ⟨phase, timeouts⟩ := p
  cases phase with
  | compile =>
    cases h
    exact ⟨List.subset_append_left _ _, fun _ => by simp⟩
  | reflect =>
    cases h
    exact ⟨List.subset_append_left _ _, fun hphase => by cases hphase⟩
  | normalize =>
    simp only [step] at h
    split at h <;> cases h <;> exact ⟨fun _ hcall => hcall, fun hphase => by cases hphase⟩
  | tidy rows =>
    cases h
    exact ⟨fun _ hcall => hcall, fun hphase => by cases hphase⟩
  | done result =>
    cases h
    exact ⟨fun _ hcall => hcall, fun hphase => by cases hphase⟩

/-- There is one step less left after a step. -/
theorem left_le_of_step (h : shop.step key defines p w = .ok (q, v)) :
    q.phase.left ≤ p.phase.left - 1 := by
  by_cases hleft : p.phase.left = 0
  · obtain ⟨phase, timeouts⟩ := p
    cases phase <;> simp only [Phase.left, OfNat.ofNat_ne_zero, one_ne_zero] at hleft
    cases h
    exact Nat.zero_le _
  · have hlt := left_lt_of_step h hleft
    omega

/-- A variant was attempted, or it is before its first step. -/
def Attempts (shop : Workshop) (config : MacroConfig) (key : VariantKey) (floor : Floor) : Prop :=
  (floor.progress key).phase = .compile ∨
    shop.compileCall key (begun config key).1 ∈ floor.world.calls

/-- A step of any variant leaves a variant attempted, or before its first step. -/
theorem attempts_of_advance {other : VariantKey} (h : shop.Attempts config key floor)
    (hadvance : shop.advance config floor other = .ok reached) :
    shop.Attempts config key reached := by
  obtain ⟨hstep, hothers⟩ := advance_eq_ok hadvance
  obtain ⟨hcalls, hfirst⟩ := calls_of_step hstep
  rcases h with hphase | hcall
  · -- A variant before its first step stays there until its own turn, which is that step.
    by_cases heq : key = other
    · subst heq
      exact .inr (hfirst hphase)
    · exact .inl (by rw [hothers key heq, hphase])
  · exact .inr (hcalls hcall)

/-- Steps leave a variant attempted, or before its first step; and there is one step less left for
each of its turns. -/
theorem work_eq_ok (hattempts : shop.Attempts config key floor)
    (h : shop.work config order floor = .ok reached) :
    shop.Attempts config key reached ∧
      (reached.progress key).phase.left ≤ (floor.progress key).phase.left - order.count key := by
  induction order generalizing floor with
  | nil =>
    cases h
    exact ⟨hattempts, le_refl _⟩
  | cons other order ih =>
    rw [work, List.foldlM_cons] at h
    obtain ⟨floor', hadvance, hrest⟩ := Sequence.bind_eq_ok_iff.1 h
    obtain ⟨hreached, hleft⟩ := ih (attempts_of_advance hattempts hadvance) hrest
    refine ⟨hreached, hleft.trans ?_⟩
    obtain ⟨hstep, hothers⟩ := advance_eq_ok hadvance
    -- Only a turn of the variant itself counts, and only that takes one of its steps.
    by_cases heq : other = key
    · subst heq
      have hless := left_le_of_step hstep
      rw [List.count_cons_self]
      omega
    · rw [hothers key (Ne.symm heq), List.count_cons_of_ne heq]

/-- A variant that has had its turn four times is done, and it was attempted. -/
theorem done_of_work (hdefines : config.defines key = .ok defines) (hturns : 4 ≤ order.count key)
    (h : shop.work config order (opened config w) = .ok floor) :
    (floor.progress key).phase.result? ≠ none ∧
      shop.compileCall key defines ∈ floor.world.calls := by
  have hbegun : begun config key = (defines, .initial) := by
    rw [begun, hdefines]
  have hopened : ((opened config w).progress key).phase = .compile :=
    congrArg (fun b => b.2.phase) hbegun
  obtain ⟨hattempts, hleft⟩ := work_eq_ok (.inl hopened) h
  rw [hopened, Phase.left] at hleft
  have hzero : (floor.progress key).phase.left = 0 := by omega
  refine ⟨fun hnone => Phase.left_ne_zero hnone hzero, ?_⟩
  rw [Attempts, hbegun] at hattempts
  rcases hattempts with hphase | hcall
  · rw [hphase] at hzero
    cases hzero
  · exact hcall

/-- When nothing is left to do there is an outcome for each variant. -/
theorem map_outcomes_of_done {β : Type} (hdone : floor.Done keys) (f : Outcome → β)
    (g : VariantKey → β)
    (hfg : ∀ key result timeouts, f (shop.outcome config key result timeouts) = g key) :
    (keys.filterMap (shop.outcome? config floor)).map f = keys.map g := by
  have hkey : ∀ key ∈ keys, (shop.outcome? config floor key).map f = some (g key) := by
    intro key hkey
    obtain ⟨result, hresult⟩ := Option.ne_none_iff_exists'.1 (hdone key hkey)
    rw [outcome?, hresult]
    exact congrArg some (hfg key _ _)
  rw [List.map_filterMap]
  calc keys.filterMap (fun key => (shop.outcome? config floor key).map f)
      = keys.filterMap (some ∘ g) := List.filterMap_congr hkey
    _ = keys.map g := by rw [List.filterMap_eq_map]

/-- When each variant has had its turn four times, all are done and have their outcomes. -/
theorem complete_of_work (hkeys : ∀ key ∈ keys, ∃ defines, config.defines key = .ok defines)
    (hturns : ∀ key ∈ keys, 4 ≤ order.count key)
    (h : shop.work config order (opened config w) = .ok floor) :
    floor.Done keys ∧
      shop.Complete config keys floor.world.calls
        (keys.filterMap (shop.outcome? config floor)) := by
  have hdone : floor.Done keys := by
    intro key hkey
    obtain ⟨defines, hdefines⟩ := hkeys key hkey
    exact (done_of_work hdefines (hturns key hkey) h).1
  refine ⟨hdone, ?_, ?_⟩
  · rw [map_outcomes_of_done hdone Outcome.key id fun _ _ _ => rfl, List.map_id]
  · intro key hkey
    obtain ⟨defines, hdefines⟩ := hkeys key hkey
    exact ⟨defines, hdefines, (done_of_work hdefines (hturns key hkey) h).2⟩

end Workshop

namespace Baker

open Workshop

variable {b : Baker} {s : Store} {source : Path} {o : Opening}

/-- **Only a push constant block that is too large stops a build that has opened and has its
workers.** If more than one variant may be under way and the workers cannot be started, no variant
is built. Else, if a variant comes to a report with such a block in its turn, the build overflows
and reports nothing. Else it reports one outcome for each variant, whatever comes of the tools and
whatever their reports hold, and each variant was attempted. The same holds of every order of the
steps in which each variant has its turn four times. -/
theorem bake_isolated (hopening : b.opening s source = .ok o) :
    (1 < b.jobs ∧ b.workers b.jobs = false →
      b.build s source = (o.world, .error (.fault .workers))) ∧
    (b.jobs ≤ 1 ∨ b.workers b.jobs = true →
      ((∃ w, b.build s source = (w, .error .overflow)) ↔
        o.shop.StopsInTurn o.config o.config.enumerate o.world) ∧
      (¬o.shop.StopsInTurn o.config o.config.enumerate o.world →
        ∃ w report, b.build s source = (w, .ok report) ∧
          o.shop.Complete o.config o.config.enumerate w.calls report.variants)) ∧
    ∀ order, (∀ key ∈ o.config.enumerate, 4 ≤ order.count key) →
      (o.shop.work o.config order (opened o.config o.world) = .error ⟨⟩ ↔
        o.shop.StopsInOrder o.config order (opened o.config o.world)) ∧
      (¬o.shop.StopsInOrder o.config order (opened o.config o.world) →
        ∃ floor, o.shop.work o.config order (opened o.config o.world) = .ok floor ∧
          floor.Done o.config.enumerate ∧
          o.shop.Complete o.config o.config.enumerate floor.world.calls
            (o.config.enumerate.filterMap (o.shop.outcome? o.config floor))) := by
  have hkeys : ∀ key ∈ o.config.enumerate, ∃ defines, o.config.defines key = .ok defines :=
    fun key hkey => ⟨_, MacroConfig.defines_of_mem_enumerate hkey⟩
  refine ⟨fun hrefused => build_of_refused hopening (isStaffed_eq_false_iff.2 hrefused),
    fun hstaffed => ?_, fun order hturns => ⟨work_eq_error_iff, fun hgoes => ?_⟩⟩
  · have hstaffed' : b.isStaffed = true := by simpa [isStaffed] using hstaffed
    rw [build_of_staffed hstaffed', bake_eq hopening]
    rcases variants_cases o.shop o.config o.config.enumerate o.world hkeys with
      ⟨v, e, hvariants, hstops⟩ | ⟨v, outcomes, hvariants, hgoes, hcomplete, -⟩
    · rw [hvariants]
      exact ⟨⟨fun _ => hstops, fun _ => ⟨v, rfl⟩⟩, fun hgoes => absurd hstops hgoes⟩
    · rw [hvariants]
      refine ⟨⟨?_, fun hstops => absurd hstops hgoes⟩, fun _ => ⟨v, _, rfl, hcomplete⟩⟩
      rintro ⟨w, h⟩
      cases h
  · cases hwork : o.shop.work o.config order (opened o.config o.world) with
    | error e => exact absurd (work_eq_error_iff.1 hwork) hgoes
    | ok floor =>
      obtain ⟨hdone, hcomplete⟩ := complete_of_work hkeys hturns hwork
      exact ⟨floor, rfl, hdone, hcomplete⟩

/-- In a workplace, the build in which no binary can be reflected reports both variants. Without the
two workers that it may ask for it reports none. -/
theorem bake_isolated_stumbling :
    (∃ w report, stumbling.build (workplace []) "x.frag" = (w, .ok report) ∧
      stumblingShop.Complete switch switch.enumerate w.calls report.variants) ∧
    Baker.build { stumbling with jobs := 2, workers := fun _ => false } (workplace []) "x.frag" =
      ({ store := workplace [] }, .error (.fault .workers)) := by
  have hopening : stumbling.opening (workplace []) "x.frag" =
      .ok ⟨stumblingShop, switch, { store := workplace [] }⟩ := opening_workplace rfl
  have hgoes : ¬stumblingShop.StopsInTurn switch switch.enumerate { store := workplace [] } := by
    obtain ⟨w, outcomes, hvariants, -⟩ := variants_stumbling { store := workplace [] }
    rcases variants_cases stumblingShop switch switch.enumerate { store := workplace [] }
      fun key hkey => ⟨_, MacroConfig.defines_of_mem_enumerate hkey⟩ with
      ⟨v, e, hstopped, -⟩ | ⟨v, outcomes', -, hgoes, -, -⟩
    · rw [hvariants] at hstopped
      cases hstopped
    · exact hgoes
  exact ⟨((bake_isolated hopening).2.1 (.inl (by decide))).2 hgoes,
    (bake_isolated (opening_workplace rfl)).1 ⟨by decide, rfl⟩⟩

/-- A report with a push constant block that ends where no word can say. -/
def largeReport : Json.Value :=
  .ofMembers [("entryPoints", .ofElements [mainPoint]), ("outputs", .ofElements []),
    ("types", .ofMembers [("T", .ofMembers [("members",
      .ofElements [.ofMembers [("type", .ofText "vec4"), ("offset", .word 4294967290)]])])]),
    ("push_constants", .ofElements [.ofMembers [("name", .ofText "p"), ("type", .ofText "T")]])]

/-- The text of that report. -/
def largeText : String :=
  String.ofList largeReport.print

/-- Making the resource table of the report overflows. -/
theorem bundleOfText_largeText : Report.bundleOfText largeText .standard = .error .overflow := by
  have hmember : (Json.Value.ofMembers [("type", .ofText "vec4"),
      ("offset", .word 4294967290)]).Whole :=
    .object (List.forall_mem_cons.2
      ⟨.text _, List.forall_mem_singleton.2 (Json.Value.whole_word _)⟩)
  have htype : (Json.Value.ofMembers [("members",
      .ofElements [.ofMembers [("type", .ofText "vec4"), ("offset", .word 4294967290)]])]).Whole :=
    .object (List.forall_mem_singleton.2 (.array (List.forall_mem_singleton.2 hmember)))
  have hblock : (Json.Value.ofMembers [("name", .ofText "p"), ("type", .ofText "T")]).Whole :=
    .object (List.forall_mem_cons.2 ⟨.text _, List.forall_mem_singleton.2 (.text _)⟩)
  have hwhole : largeReport.Whole :=
    .object (List.forall_mem_cons.2 ⟨.array (List.forall_mem_singleton.2 whole_mainPoint),
      List.forall_mem_cons.2 ⟨.array nofun,
        List.forall_mem_cons.2 ⟨.object (List.forall_mem_singleton.2 htype),
          List.forall_mem_singleton.2 (.array (List.forall_mem_singleton.2 hblock))⟩⟩⟩)
  rw [Report.bundleOfText, Report.ofText, largeText, Json.Document.read_print _ hwhole]
  rfl

/-- A build in which the first variant comes to that report. -/
def overreaching : Baker where
  toolchain := (rehearsal true largeText (.ok ())).toolchain
  keepReports := true

/-- **One report can stop the others.** The report of the first variant stops the build before the
second is attempted, and nothing is reported. -/
theorem bake_overreaching :
    ∃ w, overreaching.opening (workplace []) "x.frag" =
        .ok ⟨overreaching.workshop ⟨"/x.frag"⟩, switch, { store := workplace [] }⟩ ∧
      overreaching.build (workplace []) "x.frag" = (w, .error .overflow) ∧
      on ∈ switch.enumerate ∧
      ∀ defines, (overreaching.workshop ⟨"/x.frag"⟩).compileCall on defines ∉ w.calls := by
  let s := workplace []
  let shop := rehearsal true largeText (.ok ())
  have hopening : overreaching.opening s "x.frag" = .ok ⟨shop, switch, { store := s }⟩ :=
    opening_workplace rfl
  let t := (s.put ["x.frag.bin2", "0.spv"] (.file (.text "") false)).put
    ["x.frag.res2", "0.raw.json"] (.file (.text largeText) false)
  have hstore : (shop.afterReflect off [] { store := s }).store = t :=
    store_rehearsal (find_of_within 3 (holdsNul_off _ (by simp)) rfl (by decide) rfl)
      (find_of_within 3 (holdsNul_off _ (by simp)) rfl (by decide) rfl) (.inl rfl)
  have hread : t.read "/x.frag.res2/0.raw.json" = .ok largeText :=
    read_of_find_file (find_of_within 3 (holdsNul_off _ (by simp)) rfl (by decide) rfl)
  have hlarge : shop.normalized off (shop.afterReflect off [] { store := s }) =
      .error .overflow := by
    obtain ⟨report, hreport⟩ := Report.bundleOfText_eq_overflow_iff.1 bundleOfText_largeText
    refine normalized_eq_overflow_iff.2 ⟨largeText, report, ?_, hreport⟩
    rw [hstore, show shop.layout.report off = _ from paths_off.2.1, hread]
  have hfinish : shop.finish off [] .initial { store := s } =
      (shop.afterReflect off [] { store := s }, .error ⟨⟩) := by
    rw [finish_of_normalizes normalizes_rehearsal,
      finish_of_overflow rfl (step_normalize_of_overflow hlarge)]
  have hvariants : shop.variants switch switch.enumerate { store := s } =
      (shop.afterReflect off [] { store := s }, .error ⟨⟩) := by
    show shop.variants switch [off, on] { store := s } = _
    rw [variants, variant, defines_off]
    dsimp only
    rw [hfinish]
    rfl
  refine ⟨shop.afterReflect off [] { store := s }, hopening, ?_, by decide, fun defines hcall => ?_⟩
  · rw [build_of_staffed rfl, bake_eq hopening, hvariants]
    rfl
  · -- Only the tools for the first variant were used.
    have hcalls : (shop.afterReflect off [] { store := s }).calls =
        [shop.compileCall off [], shop.reflectCall off] := rfl
    rw [hcalls] at hcall
    have hpaths : shop.layout.binary on ≠ shop.layout.binary off := by decide
    rcases List.mem_cons.1 hcall with heq | hcall
    · exact hpaths (ToolCall.compile.inj heq).2.2
    · cases List.mem_singleton.1 hcall

end Baker

end ShaderVariants
