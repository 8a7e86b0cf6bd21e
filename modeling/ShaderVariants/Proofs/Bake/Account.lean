import ShaderVariants.Proofs.Bake.Isolation
import ShaderVariants.Proofs.Bake.Provenance
import ShaderVariants.Proofs.Layout.Collisions

/-!
# What a report accounts for

A build that reports has compiled every variant of the configuration exactly once, and says of each
what its macros are and where its files are (`Account`). No variant turns out to be none of the
configuration, since what is enumerated can be decoded. This depends on nothing that the tools do,
and it holds one after another as well as in any order of the steps (`bake_accounted`): a step uses
the compiler exactly if it is the first of its variant, and leaves the variant past that
(`compiles_of_step`).
-/

namespace ShaderVariants

open Store

/-- The use is one of the compiler. -/
def ToolCall.isCompile : ToolCall → Bool
  | compile _ _ _ => true
  | reflect _ _ => false

/-- The uses of the compiler so far. -/
def World.compiles (w : World) : List ToolCall :=
  w.calls.filter ToolCall.isCompile

namespace Phase

/-- The compiler is still to be used. -/
def isCompile : Phase → Bool
  | compile => true
  | _ => false

/-- The variant is one of the configuration, as far as is known. -/
def Decoded (phase : Phase) : Prop :=
  ∀ e, phase ≠ done (.error (.config e))

end Phase

namespace Outcome

/-- The use of the compiler that an outcome speaks of. -/
def compileCall (layout : Layout) (o : Outcome) : ToolCall :=
  .compile layout.source o.defines o.binary

/-- The outcome is that of a variant of the configuration, with its macros and its files. -/
structure Describes (layout : Layout) (config : MacroConfig) (o : Outcome) : Prop where
  defines : config.defines o.key = .ok o.defines
  binary : o.binary = layout.binary o.key
  resources : o.resources = layout.resources o.key
  decoded : ∀ e, o.result ≠ .error (.config e)

end Outcome

/-- The outcomes are those of the enumerated variants in their order, and the compiler was used
exactly once for each, with its macros and for its binary. -/
structure Account (layout : Layout) (config : MacroConfig) (calls : List ToolCall)
    (outcomes : List Outcome) : Prop where
  keys : outcomes.map Outcome.key = config.enumerate
  describes : ∀ o ∈ outcomes, o.Describes layout config
  compiled : (calls.filter ToolCall.isCompile).Perm (outcomes.map (Outcome.compileCall layout))
  once : (calls.filter ToolCall.isCompile).Nodup

namespace Workshop

variable {shop : Workshop} {config : MacroConfig} {key : VariantKey} {keys order : List VariantKey}
  {defines : List String} {p q : Progress} {v w w' : World} {floor reached : Floor}
  {outcomes : List Outcome}

/-- Variants of different keys are compiled by different uses of the compiler, since their binaries
are different files. -/
theorem nodup_compileCalls (hnodup : (outcomes.map Outcome.key).Nodup)
    (h : ∀ o ∈ outcomes, o.Describes shop.layout config) :
    (outcomes.map (Outcome.compileCall shop.layout)).Nodup := by
  rw [List.Nodup, List.pairwise_map] at hnodup ⊢
  refine hnodup.imp_of_mem fun {o o'} ho ho' hne heq => hne ?_
  have hbinary : shop.layout.binary o.key = shop.layout.binary o'.key := by
    rw [← (h o ho).binary, ← (h o' ho').binary]
    exact (ToolCall.compile.inj heq).2.2
  have hcomponents : Path.components (ArtifactKind.binary.path shop.layout o.key) =
      Path.components (ArtifactKind.binary.path shop.layout o'.key) :=
    congrArg Path.components hbinary
  exact (Layout.eq_of_components_artifact hcomponents).2

/-- The outcomes of all enumerated variants account for the build if the uses of the compiler are
theirs. -/
theorem account_of_perm (hkeys : outcomes.map Outcome.key = config.enumerate)
    (hdescribes : ∀ o ∈ outcomes, o.Describes shop.layout config)
    (hcompiled : w.compiles.Perm (outcomes.map (Outcome.compileCall shop.layout))) :
    Account shop.layout config w.calls outcomes where
  keys := hkeys
  describes := hdescribes
  compiled := hcompiled
  once := by
    have hnodup : (outcomes.map Outcome.key).Nodup := hkeys ▸ MacroConfig.enumerate_nodup config
    exact hcompiled.nodup_iff.2 (nodup_compileCalls hnodup hdescribes)

/-! ## One after another -/

/-- Whatever the steps of a variant end in, the compiler was used once. -/
theorem Ending.compiles {ended : Except Overflow (Except VariantError ℕ × List ToolError)}
    (h : Ending shop key defines w (w', ended)) :
    w'.compiles = w.compiles ++ [shop.compileCall key defines] := by
  rw [World.compiles, h.calls, List.filter_append, World.compiles]
  split <;> rfl

/-- The steps of a variant do not end in what a key is refused for that is none of the
configuration. -/
theorem Ending.ne_config {result : Except VariantError ℕ} {timeouts : List ToolError}
    (h : Ending shop key defines w (w', .ok (result, timeouts))) (e : ConfigError) :
    result ≠ .error (.config e) := by
  cases h <;> nofun

/-- A variant of the configuration is described by its outcome, and was compiled once. -/
theorem variant_accounted (hdefines : config.defines key = .ok defines) {o : Outcome}
    (h : shop.variant config key w = (w', .ok o)) :
    o.key = key ∧ o.Describes shop.layout config ∧
      w'.compiles = w.compiles ++ [o.compileCall shop.layout] := by
  have hending := finish_ending shop key defines w
  cases hfinish : shop.finish key defines .initial w with
  | mk u ended =>
    rw [hfinish] at hending
    rw [variant, hdefines] at h
    dsimp only at h
    rw [hfinish] at h
    cases ended with
    | error e => cases h
    | ok ended =>
      cases h
      exact ⟨rfl, ⟨hdefines, rfl, rfl, hending.ne_config⟩, hending.compiles⟩

/-- Variants of the configuration are described by their outcomes, and were compiled in turn. -/
theorem variants_accounted (hkeys : ∀ key ∈ keys, ∃ defines, config.defines key = .ok defines)
    (h : shop.variants config keys w = (w', .ok outcomes)) :
    outcomes.map Outcome.key = keys ∧ (∀ o ∈ outcomes, o.Describes shop.layout config) ∧
      w'.compiles = w.compiles ++ outcomes.map (Outcome.compileCall shop.layout) := by
  induction keys generalizing w outcomes with
  | nil =>
    cases h
    exact ⟨rfl, nofun, (List.append_nil _).symm⟩
  | cons key keys ih =>
    obtain ⟨defines, hdefines⟩ := hkeys key List.mem_cons_self
    obtain ⟨v, o, rest, hfirst, hrest, rfl⟩ := variants_cons_eq_ok_iff.1 h
    obtain ⟨hkey, hdescribes, hcompiles⟩ := variant_accounted hdefines hfirst
    obtain ⟨hkeys', hdescribes', hcompiles'⟩ :=
      ih (fun k hk => hkeys k (List.mem_cons_of_mem _ hk)) hrest
    refine ⟨by rw [List.map_cons, hkey, hkeys'], List.forall_mem_cons.2 ⟨hdescribes, hdescribes'⟩,
      ?_⟩
    rw [hcompiles', hcompiles, List.append_assoc, List.map_cons, List.singleton_append]

/-! ## In any order -/

/-- After a tool the compiler is not to be used, unless the next phase says so. -/
theorem isCompile_afterTool {result : Except ToolError Unit} {next : Phase}
    (hnext : next.isCompile = false) : (p.afterTool result next).phase.isCompile = false := by
  unfold Progress.afterTool
  split
  · exact hnext
  · split
    · exact hnext
    · rfl

/-- A step uses the compiler exactly if it is the first of its variant, and after it the compiler is
not to be used any more. -/
theorem compiles_of_step (h : shop.step key defines p w = .ok (q, v)) :
    v.compiles = w.compiles ++ (if p.phase.isCompile then [shop.compileCall key defines] else []) ∧
      q.phase.isCompile = false := by
  obtain ⟨phase, timeouts⟩ := p
  unfold World.compiles
  cases phase with
  | compile =>
    cases h
    exact ⟨List.filter_append _ _, isCompile_afterTool rfl⟩
  | reflect =>
    cases h
    exact ⟨List.filter_append _ _, isCompile_afterTool rfl⟩
  | normalize =>
    simp only [step] at h
    split at h <;> cases h <;> exact ⟨(List.append_nil _).symm, rfl⟩
  | tidy rows =>
    cases h
    exact ⟨(List.append_nil _).symm, rfl⟩
  | done result =>
    cases h
    exact ⟨(List.append_nil _).symm, rfl⟩

/-- After a tool a variant is one of the configuration. -/
theorem decoded_afterTool {result : Except ToolError Unit} {next : Phase} (hnext : next.Decoded) :
    (p.afterTool result next).phase.Decoded := by
  unfold Progress.afterTool
  split
  · exact hnext
  · split
    · exact hnext
    · intro e he
      cases he

/-- No step finds that a variant is none of the configuration. -/
theorem decoded_of_step (h : shop.step key defines p w = .ok (q, v)) (hp : p.phase.Decoded) :
    q.phase.Decoded := by
  obtain ⟨phase, timeouts⟩ := p
  cases phase with
  | compile =>
    cases h
    exact decoded_afterTool fun e he => by cases he
  | reflect =>
    cases h
    exact decoded_afterTool fun e he => by cases he
  | normalize =>
    simp only [step] at h
    split at h <;> cases h <;> exact fun e he => by cases he
  | tidy rows =>
    cases h
    exact fun e he => by cases he
  | done result =>
    cases h
    exact hp

/-- The variants of a list for which the compiler was used. -/
def compiledKeys (keys : List VariantKey) (floor : Floor) : List VariantKey :=
  keys.filter fun key => !(floor.progress key).phase.isCompile

/-- The state of the work, as far as it can be accounted for: the compiler was used once for each
variant that is past that, and every variant is one of the configuration. -/
structure Accounted (shop : Workshop) (config : MacroConfig) (keys : List VariantKey)
    (floor : Floor) : Prop where
  compiled : floor.world.compiles.Perm
    ((compiledKeys keys floor).map fun key => shop.compileCall key (begun config key).1)
  decoded : ∀ key ∈ keys, (floor.progress key).phase.Decoded

/-- Before the first step there is nothing to account for. -/
theorem opened_accounted (hkeys : ∀ key ∈ keys, ∃ defines, config.defines key = .ok defines)
    (hcalls : w.calls = []) : shop.Accounted config keys (opened config w) := by
  have hphase : ∀ key ∈ keys, ((opened config w).progress key).phase = .compile := by
    intro key hkey
    obtain ⟨defines, hdefines⟩ := hkeys key hkey
    show (begun config key).2.phase = .compile
    rw [begun, hdefines]
    rfl
  have hnone : compiledKeys keys (opened config w) = [] :=
    List.filter_eq_nil_iff.2 fun key hkey => by simp [hphase key hkey, Phase.isCompile]
  constructor
  · rw [hnone, World.compiles, opened, hcalls]
    exact List.Perm.refl _
  · intro key hkey
    rw [hphase key hkey]
    exact fun e he => by cases he

/-- A variant that goes past the compiler comes to those for which it was used. -/
theorem compiledKeys_perm_cons (hnodup : keys.Nodup) (hkey : key ∈ keys)
    (hfirst : (floor.progress key).phase.isCompile = true)
    (hpast : (reached.progress key).phase.isCompile = false)
    (hothers : ∀ other, other ≠ key → reached.progress other = floor.progress other) :
    (compiledKeys keys reached).Perm (key :: compiledKeys keys floor) := by
  have hnew : key ∉ compiledKeys keys floor := by
    simp [compiledKeys, hfirst]
  refine (List.perm_ext_iff_of_nodup (hnodup.filter _)
    (List.nodup_cons.2 ⟨hnew, hnodup.filter _⟩)).2 fun other => ?_
  by_cases heq : other = key
  · subst heq
    simp [hkey, hpast]
  · simp [compiledKeys, hothers other heq, heq]

/-- A step that is not the first of its variant leaves those for which the compiler was used. -/
theorem compiledKeys_congr (hfirst : (floor.progress key).phase.isCompile = false)
    (hpast : (reached.progress key).phase.isCompile = false)
    (hothers : ∀ other, other ≠ key → reached.progress other = floor.progress other) :
    compiledKeys keys reached = compiledKeys keys floor := by
  refine List.filter_congr fun other _ => ?_
  by_cases heq : other = key
  · rw [heq, hfirst, hpast]
  · rw [hothers other heq]

/-- The next step of a variant keeps what is accounted for. -/
theorem advance_accounted (hnodup : keys.Nodup) (hkey : key ∈ keys)
    (h : shop.Accounted config keys floor)
    (hadvance : shop.advance config floor key = .ok reached) :
    shop.Accounted config keys reached := by
  obtain ⟨hstep, hothers⟩ := advance_eq_ok hadvance
  obtain ⟨hcompiles, hpast⟩ := compiles_of_step hstep
  constructor
  · -- The variant is past the compiler now, and was before unless this was its first step.
    rw [hcompiles]
    cases hfirst : (floor.progress key).phase.isCompile with
    | true =>
      have hmore := (compiledKeys_perm_cons hnodup hkey hfirst hpast hothers).map
        fun key => shop.compileCall key (begun config key).1
      exact (List.perm_append_singleton _ _).trans ((h.compiled.cons _).trans hmore.symm)
    | false =>
      rw [compiledKeys_congr hfirst hpast hothers, if_neg (by decide), List.append_nil]
      exact h.compiled
  · intro other hother
    by_cases heq : other = key
    · subst heq
      exact decoded_of_step hstep (h.decoded other hother)
    · rw [hothers other heq]
      exact h.decoded other hother

/-- Steps of variants in an order keep what is accounted for. -/
theorem work_accounted (hnodup : keys.Nodup) (horder : ∀ key ∈ order, key ∈ keys)
    (h : shop.Accounted config keys floor) (hwork : shop.work config order floor = .ok reached) :
    shop.Accounted config keys reached := by
  induction order generalizing floor with
  | nil =>
    cases hwork
    exact h
  | cons key order ih =>
    rw [work, List.foldlM_cons] at hwork
    obtain ⟨floor', hadvance, hrest⟩ := Sequence.bind_eq_ok_iff.1 hwork
    exact ih (fun k hk => horder k (List.mem_cons_of_mem _ hk))
      (advance_accounted hnodup (horder key List.mem_cons_self) h hadvance) hrest

/-- When nothing is left to do, every variant was compiled. -/
theorem compiledKeys_of_done (hdone : floor.Done keys) : compiledKeys keys floor = keys := by
  refine List.filter_eq_self.2 fun key hkey => ?_
  have hresult := hdone key hkey
  cases hphase : (floor.progress key).phase with
  | compile =>
    rw [hphase] at hresult
    exact absurd rfl hresult
  | reflect | normalize | tidy | done => rfl

/-- When nothing is left to do, the outcomes account for the work. -/
theorem Accounted.account (h : shop.Accounted config config.enumerate floor)
    (hdone : floor.Done config.enumerate) :
    Account shop.layout config floor.world.calls
      (config.enumerate.filterMap (shop.outcome? config floor)) := by
  refine account_of_perm ?_ ?_ ?_
  · rw [map_outcomes_of_done hdone Outcome.key id fun _ _ _ => rfl, List.map_id]
  · intro o ho
    obtain ⟨key, hkey, ho⟩ := List.mem_filterMap.1 ho
    obtain ⟨result, hresult, rfl⟩ := Option.map_eq_some_iff.1 ho
    have hdefines := MacroConfig.defines_of_mem_enumerate hkey
    refine ⟨?_, rfl, rfl, fun e he => ?_⟩
    · show config.defines key = .ok (begun config key).1
      rw [begun, hdefines]
    · have hdecoded := h.decoded key hkey e
      cases hphase : (floor.progress key).phase with
      | done result' =>
        rw [hphase] at hresult hdecoded
        cases hresult
        exact hdecoded (congrArg Phase.done he)
      | compile | reflect | normalize | tidy =>
        rw [hphase] at hresult
        cases hresult
  · have hcompiled := h.compiled
    rw [compiledKeys_of_done hdone] at hcompiled
    rw [map_outcomes_of_done hdone (Outcome.compileCall shop.layout)
      (fun key => shop.compileCall key (begun config key).1) fun _ _ _ => rfl]
    exact hcompiled

end Workshop

namespace Baker

open Workshop

/-- A build may come to a report in the world that it leaves: one variant after another, or, if more
than one may be under way at a time, by steps in some order after which nothing is left to do. -/
inductive Reports (b : Baker) (s : Store) (source : Path) : World → BakeReport → Prop where
  | inTurn {w : World} {report : BakeReport} (hbake : b.bake s source = (w, .ok report)) :
      Reports b s source w report
  | inOrder {o : Opening} {order : List VariantKey} {floor : Floor} (hjobs : 1 < b.jobs)
      (hopening : b.opening s source = .ok o) (horder : ∀ key ∈ order, key ∈ o.config.enumerate)
      (hwork : o.shop.work o.config order (opened o.config o.world) = .ok floor)
      (hdone : floor.Done o.config.enumerate) :
      Reports b s source floor.world
        ⟨o.shop.layout.source, o.config.enumerate.filterMap (o.shop.outcome? o.config floor)⟩

variable {b : Baker} {s : Store} {source : Path} {o : Opening} {w : World} {report : BakeReport}

/-- A build that opens has found its source and read its configuration. -/
theorem config_of_opening (h : b.opening s source = .ok o) :
    s.canonical source = .ok o.shop.layout.source ∧
      MacroConfig.load s (b.config.getD (Layout.defaultConfig o.shop.layout.source)) =
        .ok o.config ∧
      o.world.calls = [] := by
  obtain ⟨setup, t, hsetup, -, rfl⟩ := opening_eq_ok h
  obtain ⟨found, hfound, hsetup⟩ := Sequence.bind_eq_ok_iff.1 hsetup
  obtain ⟨config, hconfig, hsetup⟩ := Sequence.bind_eq_ok_iff.1 hsetup
  cases hsetup
  rw [Sequence.mapError_eq_ok_iff] at hfound hconfig
  exact ⟨hfound, hconfig, rfl⟩

/-- A build that reports has opened. -/
theorem opening_of_bake (h : b.bake s source = (w, .ok report)) :
    ∃ o, b.opening s source = .ok o ∧ report.source = o.shop.layout.source := by
  cases hopening : b.opening s source with
  | error e =>
    obtain ⟨t, hbake, -⟩ := bake_of_error hopening
    cases h.symm.trans hbake
  | ok o =>
    refine ⟨o, rfl, ?_⟩
    rw [bake_eq hopening] at h
    obtain ⟨outcomes, -, rfl⟩ := Sequence.map_eq_ok_iff.1 (congrArg Prod.snd h)
    rfl

/-- **A report accounts for the whole build**, whatever the tools are and however many variants are
under way at a time. It has one outcome for each variant of the configuration, in the order of
enumeration, with the macros and the files of that variant; the compiler was used exactly once for
each, with those macros and for that binary; and no variant was refused as none of the
configuration. -/
theorem bake_accounted (h : b.Reports s source w report) :
    ∃ config, s.canonical source = .ok report.source ∧
      MacroConfig.load s (b.config.getD (Layout.defaultConfig report.source)) = .ok config ∧
      Account ⟨report.source⟩ config w.calls report.variants := by
  cases h with
  | inTurn hbake =>
    obtain ⟨o, hopening, hsource⟩ := opening_of_bake hbake
    obtain ⟨hfound, hconfig, hcalls⟩ := config_of_opening hopening
    obtain ⟨hreported, hdescribes, hcompiles⟩ :=
      variants_accounted (fun key hkey => ⟨_, MacroConfig.defines_of_mem_enumerate hkey⟩)
        (variants_of_bake hopening hbake)
    refine ⟨o.config, hsource ▸ hfound, hsource ▸ hconfig, ?_⟩
    rw [hsource]
    refine account_of_perm hreported hdescribes ?_
    rw [hcompiles, World.compiles, hcalls]
    exact List.Perm.refl _
  | inOrder hjobs hopening horder hwork hdone =>
    obtain ⟨hfound, hconfig, hcalls⟩ := config_of_opening hopening
    have haccounted := work_accounted (MacroConfig.enumerate_nodup _) horder
      (opened_accounted (fun key hkey => ⟨_, MacroConfig.defines_of_mem_enumerate hkey⟩) hcalls)
      hwork
    exact ⟨_, hfound, hconfig, haccounted.account hdone⟩

/-- In a workplace, the build in which no binary can be reflected accounts for both variants, one
after another and with two of them under way at a time. -/
theorem bake_accounted_stumbling :
    ∃ w w' report report', stumbling.Reports (workplace []) "x.frag" w report ∧
      Baker.Reports { stumbling with jobs := 2 } (workplace []) "x.frag" w' report' ∧
      (∃ config, Account ⟨report.source⟩ config w.calls report.variants) ∧
      ∃ config, Account ⟨report'.source⟩ config w'.calls report'.variants := by
  have hopening : stumbling.opening (workplace []) "x.frag" =
      .ok ⟨stumblingShop, switch, { store := workplace [] }⟩ := opening_workplace rfl
  obtain ⟨w, outcomes, hvariants, -⟩ := variants_stumbling { store := workplace [] }
  have hbake : stumbling.bake (workplace []) "x.frag" = (w, .ok ⟨"/x.frag", outcomes⟩) := by
    rw [bake_eq hopening, hvariants]
    rfl
  obtain ⟨floor, hwork, hdone, -⟩ := work_stumbling { store := workplace [] }
  have hparallel : Baker.Reports { stumbling with jobs := 2 } (workplace []) "x.frag" floor.world
      ⟨"/x.frag", switch.enumerate.filterMap (stumblingShop.outcome? switch floor)⟩ :=
    .inOrder (by decide) (opening_workplace rfl)
      (show ∀ key ∈ [on, off, on, off], key ∈ switch.enumerate by decide) hwork hdone
  obtain ⟨config, -, -, haccount⟩ := bake_accounted (.inTurn hbake)
  obtain ⟨config', -, -, haccount'⟩ := bake_accounted hparallel
  exact ⟨w, floor.world, _, _, .inTurn hbake, hparallel, ⟨config, haccount⟩, config', haccount'⟩

end Baker

end ShaderVariants
