import ShaderVariants.Proofs.Bake.Isolation
import ShaderVariants.Proofs.Bake.Leftovers

/-!
# Building over what was left

The output directories are never cleared, so a build may find files of an earlier one. They make no
difference to a variant whose tools end well, if the tools are deterministic and write when they end
well: two builds that begin with the same source and configuration, and with any other files, come
to the same outcome and leave the same files for it. The same holds of a build and another one over
what the first has left (`bake_reproduced`).

Links can make a difference. They may lead a file of one variant to that of another one, which is
not built anew, or through a file that may be there or not, which decides about the reason of a
refusal; and a link is removed in the place of a report (`bake_reproduced_linked`).
-/

namespace ShaderVariants

open Store

namespace Workshop

variable {shop : Workshop} {config : MacroConfig} {key : VariantKey} {keys : List VariantKey}
  {s t : Store} {u v v' w w' : World} {outcomes outcomes' : List Outcome} {o : Outcome}

/-! ## Variants in stores that differ in files -/

/-- Stores with one frame are changed alike by way of a path. -/
theorem changes_congr (h : Framed Set.univ s t) (key : VariantKey) (p : Path) :
    shop.Changes t key p = shop.Changes s key p := by
  unfold Changes
  rw [writes_congr (h.mono (Set.subset_univ _)), removes_congr (h.mono (Set.subset_univ _))]

/-- Stores with one frame are altered alike for a variant, and read alike. -/
theorem alters_reads_congr (h : Framed Set.univ s t) (key : VariantKey) :
    shop.Alters t key = shop.Alters s key ∧ shop.Reads t key = shop.Reads s key := by
  have hsees : ∀ p, t.Sees p = s.Sees p := fun p => sees_congr (h.mono (Set.subset_univ _))
  unfold Alters Reads
  simp only [changes_congr h, hsees, and_self]

/-- Variants that are apart in a store are apart in stores that differ in files. -/
theorem Apart.congr (h : shop.Apart s keys) (hframe : Framed Set.univ s t) :
    shop.Apart t keys := by
  intro key hkey other hother hne l hl
  rw [(alters_reads_congr hframe key).1] at hl
  rw [(alters_reads_congr hframe other).2]
  exact h key hkey other hother hne l hl

/-! ## What comes of one of several variants -/

/-- What a build of several variants comes to for one of them: what it comes to alone. -/
structure Alone (shop : Workshop) (config : MacroConfig) (key : VariantKey)
    (defines : List String) (v u v' : World) (o : Outcome) : Prop where
  known : config.defines key = .ok defines
  ending : Ending shop key defines v (u, .ok (o.result, o.timeouts))
  outcome : o = ⟨key, defines, shop.layout.binary key, shop.layout.resources key, o.result,
    o.timeouts⟩
  left : ∀ q ∈ shop.layout.artifacts key, v'.store.content q = u.store.content q

/-- What a variant comes to alone is what comes of it if what it reads of its files stays. -/
theorem alone_of_solo (htools : shop.toolchain.Confined) {defines : List String}
    (hdefines : config.defines key = .ok defines)
    (hkept : Agree (shop.Reads v.store key) (shop.solo config v key).1.store v'.store)
    (ho : ((shop.solo config v key).2.map fun ended =>
      shop.outcome config key ended.1 ended.2) = .ok o) :
    ∃ u, shop.Alone config key defines v u v' o := by
  have hbegun : begun config key = (defines, .initial) := by
    rw [begun, hdefines]
  have hending := finish_ending shop key defines v
  have hsees := finish_sees htools key defines v
  rw [solo, hbegun] at ho hkept
  generalize shop.finish key defines .initial v = ended at ho hkept hending hsees
  obtain ⟨u, ended⟩ := ended
  obtain ⟨⟨result, timeouts⟩, rfl, rfl⟩ := Sequence.map_eq_ok_iff.1 ho
  refine ⟨u, hdefines, hending, ?_, fun q hq => ?_⟩
  · rw [Workshop.outcome, hbegun]
  · -- The ways of the variant's files are among those of the beginning, where nothing changed.
    have hways : u.store.Sees q ⊆ shop.Reads v.store key :=
      fun l hl => ⟨q, List.mem_cons_of_mem _ hq, hsees q hl⟩
    exact (content_congr (hkept.mono hways)).symm

/-- Each of several variants that are apart comes to what it comes to alone, and these are all
outcomes. -/
theorem alone_of_variants (htools : shop.toolchain.Deterministic)
    (hkeys : ∀ key ∈ keys, ∃ defines, config.defines key = .ok defines) (hnodup : keys.Nodup)
    (hapart : shop.Apart v.store keys)
    (h : shop.variants config keys v = (v', .ok outcomes)) :
    (∀ key ∈ keys, ∃ o ∈ outcomes, ∃ defines u, shop.Alone config key defines v u v' o) ∧
      ∀ o ∈ outcomes, ∃ key ∈ keys, ∃ defines u, shop.Alone config key defines v u v' o := by
  obtain ⟨houtcomes, hreads, -⟩ :=
    variants_solo htools hnodup hapart (fun key _ => Agree.refl _ _) h
  constructor
  · intro key hkey
    obtain ⟨defines, hdefines⟩ := hkeys key hkey
    have hmem := List.mem_map_of_mem (f := fun key => (shop.solo config v key).2.map fun ended =>
      shop.outcome config key ended.1 ended.2) hkey
    rw [houtcomes] at hmem
    obtain ⟨o, ho, hsolo⟩ := List.mem_map.1 hmem
    exact ⟨o, ho, defines, alone_of_solo htools.confined hdefines (hreads key hkey) hsolo.symm⟩
  · intro o ho
    have hmem := List.mem_map_of_mem (f := (Except.ok : Outcome → Except Overflow Outcome)) ho
    rw [← houtcomes] at hmem
    obtain ⟨key, hkey, hsolo⟩ := List.mem_map.1 hmem
    obtain ⟨defines, hdefines⟩ := hkeys key hkey
    exact ⟨key, hkey, defines, alone_of_solo htools.confined hdefines (hreads key hkey) hsolo⟩

/-! ## Two builds -/

/-- Another build has come to an outcome as well, and has left the same files for the variant: its
binary, its report if there is one, and its resource table if there is no error. -/
structure Reproduced (shop : Workshop) (s t : Store) (outcomes : List Outcome) (o : Outcome) :
    Prop where
  outcome : o ∈ outcomes
  binary : (s.content o.binary).toOption = (t.content o.binary).toOption
  report : (s.content (shop.layout.report o.key)).toOption =
    (t.content (shop.layout.report o.key)).toOption
  resources : o.result.isOk = true →
    (s.content o.resources).toOption = (t.content o.resources).toOption

section

variable (htools : shop.toolchain.Faithful)
  (hkeys : ∀ key ∈ keys, ∃ defines, config.defines key = .ok defines) (hnodup : keys.Nodup)
  (hapart : shop.Apart v.store keys)
  (hdiffers : shop.DiffersInFiles v.store w.store)
  (hv : shop.variants config keys v = (v', .ok outcomes))
include htools hkeys hnodup hapart hdiffers hv

/-- Building variants where only files are others reproduces those whose tools end well. -/
theorem variants_reproduced (hresource : v.store.isDirectory shop.layout.resourceDir = true)
    (hw : shop.variants config keys w = (w', .ok outcomes')) (ho : o ∈ outcomes)
    (hended : o.ToolsEndedWell) (hlead : shop.LinksLead v.store o.key) :
    shop.Reproduced v'.store w'.store outcomes' o := by
  obtain ⟨-, halone⟩ := alone_of_variants htools.deterministic hkeys hnodup hapart hv
  obtain ⟨key, hkey, defines, u, hv⟩ := halone o ho
  obtain ⟨halone', -⟩ := alone_of_variants htools.deterministic hkeys hnodup
    (hapart.congr hdiffers.frame) hw
  obtain ⟨o', ho', defines', u', hw⟩ := halone' key hkey
  obtain rfl := Except.ok.inj (hv.known.symm.trans hw.known)
  -- Each build comes to what the variant comes to alone, so one variant is compared in two worlds.
  rw [hv.outcome] at hlead
  obtain ⟨hresult, htimeouts, A, hlevel, hbinary, hreport, hresources⟩ :=
    hv.ending.level hw.ending htools hdiffers hresource hlead hended.1 hended.2
  have hsame : o = o' := by
    rw [hv.outcome, hw.outcome, hresult, htimeouts]
  have hcontent : ∀ q ∈ shop.layout.artifacts key, u.store.Writes q ⊆ A →
      (v'.store.content q).toOption = (w'.store.content q).toOption := by
    intro q hq hwrites
    rw [hv.left q hq, hw.left q hq]
    exact hlevel.content_eq hwrites
  rw [hv.outcome] at hsame ⊢
  exact ⟨hsame ▸ ho', hcontent _ (by simp) hbinary, hcontent _ (by simp) hreport,
    fun hok => hcontent _ (by simp) (hresources hok)⟩

/-- If no tool was stopped at its limit, building the variants where only files are others does not
overflow. -/
theorem exists_variants (hnone : ∀ o ∈ outcomes, o.timeouts = []) :
    ∃ w' outcomes', shop.variants config keys w = (w', .ok outcomes') := by
  rcases variants_cases shop config keys w hkeys with
    ⟨x, e, hstopped, before, key, after, defines, y, built, rfl, hdefines, hbefore, hstops⟩ |
    ⟨w', outcomes', hw, -⟩
  · exfalso
    have hkey : key ∈ before ++ key :: after := by simp
    obtain ⟨halone, -⟩ := alone_of_variants htools.deterministic hkeys hnodup hapart hv
    obtain ⟨o, ho, defines', u, hv⟩ := halone key hkey
    obtain rfl := Except.ok.inj (hdefines.symm.trans hv.known)
    refine hv.ending.not_stops htools hdiffers (hnone o ho) ?_
    -- What stops a variant in its turn would stop it if it were the first.
    have hapart' : shop.Apart w.store (key :: before) :=
      (hapart.congr hdiffers.frame).subset (by simp)
    obtain ⟨hnodup', hnodup'', hdisjoint⟩ := List.nodup_append.1 hnodup
    have hnot : key ∉ before := fun hmem => hdisjoint key hmem key List.mem_cons_self rfl
    obtain ⟨-, -, hrest⟩ := variants_solo htools.deterministic hnodup' hapart'.tail
      (fun key _ => Agree.refl _ _) hbefore
    have halike := finish_alike htools.deterministic
      (hrest.mono (reads_subset_compl hapart' hnot)).symm defines .initial
      fun _ => Framed.refl _ _
    rw [← finish_eq_overflow_iff] at hstops ⊢
    rwa [halike.1]
  · exact ⟨w', outcomes', hw⟩

end

end Workshop

namespace Baker

open Workshop

variable {b : Baker} {s t : Store} {source : Path} {o o' : Opening} {w : World}
  {report : BakeReport}

/-! ## Two openings -/

/-- The variants are the same, and they begin in stores that differ in files. -/
structure Opening.DiffersInFiles (o o' : Opening) : Prop where
  shop : o'.shop = o.shop
  config : o'.config = o.config
  stores : o.shop.DiffersInFiles o.world.store o'.world.store

/-- Builds of one source and one configuration, from stores that differ in files, open so. -/
theorem differsInFiles_of_framed {content : Content} (h : Framed Set.univ s t)
    (hopening : b.opening s source = .ok o) (hopening' : b.opening t source = .ok o')
    (hsetup : b.setup t source = b.setup s source)
    (hs : s.content o.shop.layout.source = .ok content)
    (ht : t.content o.shop.layout.source = .ok content) : o.DiffersInFiles o' := by
  obtain ⟨setup, u, hfound, hmade, rfl⟩ := opening_eq_ok hopening
  obtain ⟨setup', u', hfound', hmade', rfl⟩ := opening_eq_ok hopening'
  obtain rfl := Except.ok.inj (hfound.symm.trans (hsetup.symm.trans hfound'))
  obtain ⟨s₁, hbinary, hresource⟩ := makeOutputDirs_eq_ok_iff.1 hmade
  obtain ⟨t₁, hbinary', hresource'⟩ := makeOutputDirs_eq_ok_iff.1 hmade'
  -- A directory is made in both stores or in none, since only files are others.
  have hslash₁ : Path.endsInSlash setup.layout.binaryDir = false := Layout.endsInSlash_binaryDir
  have hslash₂ : Path.endsInSlash setup.layout.resourceDir = false :=
    Layout.endsInSlash_resourceDir
  refine ⟨rfl, rfl,
    (h.ensureDir hslash₁ hbinary hbinary').ensureDir hslash₂ hresource hresource', ?_⟩
  rw [content_of_ensureDir hslash₂ hresource (content_of_ensureDir hslash₁ hbinary hs),
    content_of_ensureDir hslash₂ hresource' (content_of_ensureDir hslash₁ hbinary' ht)]

/-- A build over what a build has left opens where that opened. -/
theorem opening_again (hopening : b.opening s source = .ok o)
    (h : o.shop.DiffersInFiles o.world.store t)
    (hsetup : b.setup t source = b.setup s source) :
    ∃ o', b.opening t source = .ok o' ∧ o.DiffersInFiles o' := by
  obtain ⟨hbinary, hresource⟩ := isDirectory_of_opening hopening
  obtain ⟨setup, u, hfound, -, rfl⟩ := opening_eq_ok hopening
  -- The directories are there from the first build, so nothing is made.
  have hmade : makeOutputDirs t setup.layout = (t, .ok ()) :=
    makeOutputDirs_eq_ok_iff.2
      ⟨t, ensureDir_of_isDirectory Layout.endsInSlash_binaryDir (h.frame.isDirectory hbinary),
        ensureDir_of_isDirectory Layout.endsInSlash_resourceDir (h.frame.isDirectory hresource)⟩
  exact ⟨⟨b.workshop setup.layout, setup.config, { store := t }⟩,
    opening_of_setup (hsetup.trans hfound) hmade, rfl, rfl, h⟩

/-! ## Two builds -/

/-- A build from another store comes to the same for every variant whose tools ended well, if its
links lead to places. If no tool was stopped at its limit, it reports as well. -/
structure Repeats (b : Baker) (source : Path) (o : Opening) (w : World) (report : BakeReport)
    (t : Store) : Prop where
  reports : (∀ out ∈ report.variants, out.timeouts = []) →
    ∃ w' report', b.bake t source = (w', .ok report')
  variants : ∀ w' report', b.bake t source = (w', .ok report') → ∀ out ∈ report.variants,
    out.ToolsEndedWell → o.shop.LinksLead o.world.store out.key →
      o.shop.Reproduced w.store w'.store report'.variants out

/-- A build that opens with the same source and other files comes to the same. -/
theorem repeats_of_differsInFiles (htools : b.toolchain.Faithful)
    (hopening : b.opening s source = .ok o) (hbake : b.bake s source = (w, .ok report))
    (hlinks : o.shop.LinksApart o.world.store o.config.enumerate)
    (hopening' : b.opening t source = .ok o') (h : o.DiffersInFiles o') :
    b.Repeats source o w report t := by
  have hshop : o.shop.toolchain = b.toolchain := by
    obtain ⟨setup, t, -, -, rfl⟩ := opening_eq_ok hopening
    rfl
  obtain ⟨hbinary, hresource⟩ := isDirectory_of_opening hopening
  have hapart := apart_of_linksApart hbinary hresource hlinks
  have hkeys : ∀ key ∈ o.config.enumerate, ∃ defines, o.config.defines key = .ok defines :=
    fun key hkey => ⟨_, MacroConfig.defines_of_mem_enumerate hkey⟩
  have hvariants := variants_of_bake hopening hbake
  constructor
  · intro hnone
    obtain ⟨w', outcomes', hvariants'⟩ := exists_variants (hshop ▸ htools) hkeys
      o.config.enumerate_nodup hapart h.stores hvariants hnone
    refine ⟨w', ⟨o.shop.layout.source, outcomes'⟩, ?_⟩
    rw [bake_eq hopening', h.shop, h.config, hvariants']
    rfl
  · intro w' report' hbake' out hout
    have hvariants' := variants_of_bake hopening' hbake'
    rw [h.shop, h.config] at hvariants'
    exact variants_reproduced (hshop ▸ htools) hkeys o.config.enumerate_nodup hapart h.stores
      hvariants hresource hvariants' hout

/-- **What was left makes no difference to a variant whose tools end well.** Suppose that the tools
are faithful and that links do not bring two variants together. Then a build with the same source
and configuration, and with any other files, comes to the same outcome for the variant and leaves
the same files for it. So does a build over what this one has left, if no report that is to be
removed is a link. -/
theorem bake_reproduced (htools : b.toolchain.Faithful)
    (hopening : b.opening s source = .ok o) (hbake : b.bake s source = (w, .ok report))
    (hlinks : o.shop.LinksApart o.world.store o.config.enumerate) :
    (∀ t o', b.opening t source = .ok o' → o.DiffersInFiles o' →
      b.Repeats source o w report t) ∧
    (o.shop.LinksStay o.world.store o.config.enumerate →
      b.setup w.store source = b.setup s source →
      (o.world.store.content o.shop.layout.source).toOption =
        (w.store.content o.shop.layout.source).toOption →
      b.Repeats source o w report w.store) := by
  refine ⟨fun t o' => repeats_of_differsInFiles htools hopening hbake hlinks,
    fun hstay hsetup hsource => ?_⟩
  have hshop : o.shop.toolchain = b.toolchain := by
    obtain ⟨setup, t, -, -, rfl⟩ := opening_eq_ok hopening
    rfl
  have hframe : Framed Set.univ w.store o.world.store := by
    -- The first build keeps the links, so that the second one differs from it in files only.
    have hframe := variants_framed (hshop ▸ htools.deterministic.confined) hstay
      (Framed.refl Set.univ o.world.store) o.config
    rwa [variants_of_bake hopening hbake] at hframe
  obtain ⟨o', hopening', hdiffers⟩ := opening_again hopening ⟨hframe.symm, hsource⟩ hsetup
  exact repeats_of_differsInFiles htools hopening hbake hlinks hopening' hdiffers

/-! ## Rehearsed builds -/

/-- The variant without the macro has a report with no entries. What the tools do for the other one
is given. -/
def halfPlan (compiling reflecting : PlannedRun) : Plan where
  compile := .ofList [("1.spv", compiling)]
  reflect := .ofList [("0.spv", { text := some blankText }), ("1.spv", reflecting)]
  types := .empty

/-- A build to that plan. -/
def rehearsed (compiling reflecting : PlannedRun) : Baker where
  toolchain := (halfPlan compiling reflecting).toolchain

/-- The workshop of that build. -/
def rehearsedShop (compiling reflecting : PlannedRun) : Workshop :=
  (rehearsed compiling reflecting).workshop ⟨"/x.frag"⟩

/-- A tool that fails and writes nothing. -/
def failing : PlannedRun :=
  { usual := false, result := .error (.failed "spirv-cross" 1) }

variable {compiling reflecting : PlannedRun} {s₁ s₂ s₃ : Store}

/-- The tools of the build are faithful if those for the other variant write when they end well. -/
theorem faithful_rehearsed (hcompiling : compiling.Delivers) (hreflecting : reflecting.Delivers) :
    (rehearsed compiling reflecting).toolchain.Faithful := by
  have husual : ({} : PlannedRun).Delivers := fun _ => .inr rfl
  have hblank : ({ text := some blankText } : PlannedRun).Delivers :=
    fun _ => .inl (Option.some_ne_none _)
  refine Plan.toolchain_faithful _ (fun name => ?_) fun name => ?_
  · simp only [halfPlan, Table.ofList, Table.get?_insertAll, List.reverse_cons, List.reverse_nil,
      List.nil_append, Table.lookup]
    split
    · exact hcompiling
    · exact husual
  · simp only [halfPlan, Table.ofList, Table.get?_insertAll, List.reverse_cons, List.reverse_nil,
      List.nil_append, List.cons_append, Table.lookup]
    split
    · exact hreflecting
    · split
      · exact hblank
      · exact husual

/-- The tools are faithful if the reflector fails for the other variant. -/
theorem faithful_failing : (rehearsed {} failing).toolchain.Faithful :=
  faithful_rehearsed (fun _ => .inr rfl) nofun

/-- The build opens where the source, the configuration and the directories are. -/
theorem opening_rehearsed
    (hsource : s.walkWithin true 2 maxLinks (s.start "x.frag") (Path.names "x.frag") =
      some (.ok ⟨["x.frag"], some (.file (.text "") false)⟩))
    (hconfig : s.walkWithin true 2 maxLinks (s.start "/x.macro.json")
        (Path.names "/x.macro.json") = some (.ok ⟨["x.macro.json"],
      some (.file (.text (String.ofList switchValue.print)) false)⟩))
    (hbinary : ∀ follow, s.walkWithin follow 2 maxLinks (s.start "/x.frag.bin2")
      (Path.names "/x.frag.bin2") = some (.ok ⟨["x.frag.bin2"], some .directory⟩))
    (hresource : ∀ follow, s.walkWithin follow 2 maxLinks (s.start "/x.frag.res2")
      (Path.names "/x.frag.res2") = some (.ok ⟨["x.frag.res2"], some .directory⟩)) :
    (rehearsed compiling reflecting).opening s "x.frag" =
      .ok ⟨rehearsedShop compiling reflecting, switch, { store := s }⟩ :=
  opening_within rfl hsource hconfig hbinary hresource

/-- The compiler writes the macros of the variant without the macro, of which there are none. -/
theorem compiled_rehearsed (w : World) :
    (rehearsedShop compiling reflecting).compiled off [] w =
      ⟨.ok (), written "/x.frag.bin2/0.spv" "" w.store, {}⟩ := by
  have hname : Plan.fileName "/x.frag.bin2/0.spv" = "0.spv" := by decide
  unfold compiled compileCall rehearsedShop rehearsed halfPlan workshop Plan.toolchain Toolchain.run
  dsimp only
  rw [paths_off.1, hname]
  rfl

/-- The reflector writes the report with no entries for the variant without the macro. -/
theorem reflected_rehearsed (w : World) :
    (rehearsedShop compiling reflecting).reflected off w =
      ⟨.ok (), written "/x.frag.res2/0.raw.json" blankText w.store, {}⟩ := by
  have hname : Plan.fileName "/x.frag.bin2/0.spv" = "0.spv" := by decide
  unfold reflected reflectCall rehearsedShop rehearsed halfPlan workshop Plan.toolchain
    Toolchain.run
  dsimp only
  rw [paths_off.1, paths_off.2.1, hname]
  rfl

/-- Both tools end well for the variant without the macro. -/
theorem tools_off (w : World) :
    ((rehearsedShop compiling reflecting).compiled off [] w).result = .ok () ∧
      ((rehearsedShop compiling reflecting).reflectedNext off [] w).result = .ok () := by
  rw [reflectedNext, compiled_rehearsed, reflected_rehearsed]
  exact ⟨rfl, rfl⟩

/-- The resource table of the variant without the macro has no entries. -/
theorem normalized_off
    (htools : written "/x.frag.res2/0.raw.json" blankText (written "/x.frag.bin2/0.spv" "" s) = s₁)
    (hread : s₁.read "/x.frag.res2/0.raw.json" = .ok blankText) :
    (rehearsedShop compiling reflecting).normalized off
        ((rehearsedShop compiling reflecting).afterReflect off [] { store := s }) = (do
      let stored ← Halt.ofExcept (ResourceBundle.save ⟨[]⟩ s₁ "/x.frag.res2/0.json")
      return (⟨[]⟩, stored)) := by
  have hstore : ((rehearsedShop compiling reflecting).afterReflect off []
      { store := s }).store = s₁ := by
    rw [store_afterReflect, reflectedNext, reflected_rehearsed, store_afterCompile,
      compiled_rehearsed]
    exact htools
  rw [normalized, hstore]
  unfold rehearsedShop workshop rehearsed
  dsimp only
  rw [paths_off.2.1, paths_off.2.2]
  exact Report.normalizeFile_of_bundle hread bundleOfText_blankText

/-- The variant without the macro comes to what comes of writing its resource table. -/
theorem finish_off
    (htools : written "/x.frag.res2/0.raw.json" blankText (written "/x.frag.bin2/0.spv" "" s) = s₁)
    (hread : s₁.read "/x.frag.res2/0.raw.json" = .ok blankText) :
    (∀ s₂, s₁.write "/x.frag.res2/0.json" (ResourceBundle.text ⟨[]⟩) = .ok s₂ →
      ∃ w, (rehearsedShop compiling reflecting).finish off [] .initial { store := s } =
          (w, .ok (.ok 0, [])) ∧
        w.store = (rehearsedShop compiling reflecting).tidied off s₂) ∧
    ∀ x, s₁.write "/x.frag.res2/0.json" (ResourceBundle.text ⟨[]⟩) = .error x →
      ∃ w, (rehearsedShop compiling reflecting).finish off [] .initial { store := s } =
        (w, .ok (.error (.bundle (.file "/x.frag.res2/0.json" x)), [])) := by
  obtain ⟨hcompile, hreflect⟩ := @tools_off compiling reflecting { store := s }
  obtain ⟨hgoes, herrors⟩ := ToolRun.result_eq_ok_iff.1 hcompile
  obtain ⟨hgoes', herrors'⟩ := ToolRun.result_eq_ok_iff.1 hreflect
  have hnormalized := @normalized_off s compiling reflecting s₁ htools hread
  constructor
  · intro s₂ hwrite
    rw [ResourceBundle.save, hwrite] at hnormalized
    have hfinish := finish_of_made ⟨hgoes, hgoes'⟩ hnormalized
    rw [herrors, herrors'] at hfinish
    exact ⟨_, hfinish, rfl⟩
  · intro x hwrite
    rw [ResourceBundle.save, hwrite] at hnormalized
    have hfinish := finish_of_normalizes ⟨hgoes, hgoes'⟩
    rw [herrors, herrors', finish_of_step rfl (step_normalize_of_fault hnormalized)] at hfinish
    exact ⟨_, hfinish.trans (finish_of_result rfl)⟩

/-- The other variant fails in the reflector and leaves its binary. -/
theorem finish_on_failing (w : World) :
    ∃ w', (rehearsedShop {} failing).finish on ["X"] .initial w =
        (w', .ok (.error (.tool (.failed "spirv-cross" 1)), [])) ∧
      w'.store = written "/x.frag.bin2/1.spv" "X" w.store :=
  ⟨_, finish_of_reflect_failed rfl rfl, rfl⟩

/-- The build reports what its two variants come to. -/
theorem bake_of_finish {w₁ w₂ : World} {ended ended' : Except VariantError ℕ × List ToolError}
    (hopening : (rehearsed compiling reflecting).opening s "x.frag" =
      .ok ⟨rehearsedShop compiling reflecting, switch, { store := s }⟩)
    (hoff : (rehearsedShop compiling reflecting).finish off [] .initial { store := s } =
      (w₁, .ok ended))
    (hon : (rehearsedShop compiling reflecting).finish on ["X"] .initial w₁ = (w₂, .ok ended')) :
    (rehearsed compiling reflecting).bake s "x.frag" =
      (w₂, .ok ⟨"/x.frag", [
        (rehearsedShop compiling reflecting).outcome switch off ended.1 ended.2,
        (rehearsedShop compiling reflecting).outcome switch on ended'.1 ended'.2]⟩) := by
  have hvariants : (rehearsedShop compiling reflecting).variants switch switch.enumerate
      { store := s } = (w₂, .ok _) := variants_cons hoff (variants_cons hon rfl)
  rw [bake_eq hopening, hvariants]
  rfl

/-- The report of the variant without the macro is removed from where it is. -/
theorem tidied_rehearsed {l : Location} {node : Node} (hdir : node ≠ .directory)
    (hfree : s.isFixed l = false)
    (h : s.find "/x.frag.res2/0.raw.json" false = .ok ⟨l, some node⟩) :
    (rehearsedShop compiling reflecting).tidied off s = s.clear l := by
  have hremoving : s.removing "/x.frag.res2/0.raw.json" = .ok (.clear l) :=
    removing_eq_ok_iff.2 ⟨l, node, h, hdir, hfree, rfl⟩
  rw [tidied, show (rehearsedShop compiling reflecting).layout.report off = _ from paths_off.2.1,
    remove_eq, hremoving]
  rfl

/-- The paths of the files of both variants lead where their ways do. -/
theorem find_rehearsed {follow : Bool} {p : Path} {result : Except FileError Place}
    (hp : p ∈ ["/x.frag", "/x.frag.bin2/0.spv", "/x.frag.bin2/1.spv", "/x.frag.res2/0.raw.json",
      "/x.frag.res2/1.raw.json", "/x.frag.res2/0.json"])
    (h : s.walkWithin follow 6 maxLinks (s.start p) (Path.names p) = some result) :
    s.find p follow = result := by
  have hnul : Path.holdsNul p = false := by
    simp only [List.mem_cons, List.not_mem_nil, or_false] at hp
    rcases hp with rfl | rfl | rfl | rfl | rfl | rfl <;> simp [Path.holdsNul]
  have hsize : p.isEmpty = false ∧ p.utf8ByteSize ≤ Path.maxSize := by
    simp only [List.mem_cons, List.not_mem_nil, or_false] at hp
    rcases hp with rfl | rfl | rfl | rfl | rfl | rfl <;> decide
  exact find_of_within 6 hnul hsize.1 hsize.2 h

/-- The outcome of the variant without the macro where it is built. -/
def builtOutcome : Outcome :=
  (rehearsedShop {} failing).outcome switch off (.ok 0) []

/-- The outcome of the other variant where its reflector fails. -/
def failedOutcome : Outcome :=
  (rehearsedShop {} failing).outcome switch on (.error (.tool (.failed "spirv-cross" 1))) []

/-- A text cannot be written to a path that is refused. -/
theorem write_of_refused {p : Path} {text : String} {x : FileError}
    (hp : Path.endsInSlash p = false) (h : s.find p true = .error x) :
    s.write p text = .error x := by
  rw [write, writeContent_eq hp, writing, h]
  rfl

/-- Where its files can be written, the variant without the macro is built. -/
theorem finish_off_written {l : Location} {node : Node}
    (hbinary : written "/x.frag.bin2/0.spv" "" s = s₁)
    (hreport : written "/x.frag.res2/0.raw.json" blankText s₁ = s₂)
    (hread : s₂.read "/x.frag.res2/0.raw.json" = .ok blankText)
    (htable : s₂.write "/x.frag.res2/0.json" (ResourceBundle.text ⟨[]⟩) = .ok s₃)
    (hremove : s₃.find "/x.frag.res2/0.raw.json" false = .ok ⟨l, some node⟩)
    (hdir : node ≠ .directory) (hfree : s₃.isFixed l = false) :
    ∃ w, (rehearsedShop compiling reflecting).finish off [] .initial { store := s } =
        (w, .ok (.ok 0, [])) ∧ w.store = s₃.clear l := by
  subst hbinary
  obtain ⟨w, hoff, hstore⟩ := (finish_off hreport hread).1 s₃ htable
  rw [tidied_rehearsed hdir hfree hremove] at hstore
  exact ⟨w, hoff, hstore⟩

/-- The workplace after that. -/
def worked : Store :=
  (((((workplace []).put ["x.frag.bin2", "0.spv"] (.file (.text "") false)).put
    ["x.frag.res2", "0.raw.json"] (.file (.text blankText) false)).put
    ["x.frag.res2", "0.json"] (.file (.text (ResourceBundle.text ⟨[]⟩)) false)).clear
    ["x.frag.res2", "0.raw.json"]).put ["x.frag.bin2", "1.spv"] (.file (.text "X") false)

/-- A workplace in which an earlier build has left other files. -/
def littered : Store :=
  (((workplace []).put ["x.frag.bin2", "0.spv"] (.file (.text "old") true)).put
    ["x.frag.res2", "0.raw.json"] (.file (.text "old") false)).put
    ["x.frag.res2", "0.json"] (.file (.text "old") false)

/-- In a workplace the variant without the macro is built and the other one fails. -/
theorem bake_workplace :
    ∃ w, (rehearsed {} failing).bake (workplace []) "x.frag" =
        (w, .ok ⟨"/x.frag", [builtOutcome, failedOutcome]⟩) ∧ w.store = worked := by
  let s₁ := (workplace []).put ["x.frag.bin2", "0.spv"] (.file (.text "") false)
  let s₂ := s₁.put ["x.frag.res2", "0.raw.json"] (.file (.text blankText) false)
  let s₃ := s₂.put ["x.frag.res2", "0.json"] (.file (.text (ResourceBundle.text ⟨[]⟩)) false)
  have hbinary : written "/x.frag.bin2/0.spv" "" (workplace []) = s₁ :=
    written_eq (by decide) (find_rehearsed (by simp) rfl) (.inl rfl)
  have hreport : written "/x.frag.res2/0.raw.json" blankText s₁ = s₂ :=
    written_eq (by decide) (find_rehearsed (by simp) rfl) (.inl rfl)
  have hplace : s₂.find "/x.frag.res2/0.json" true = .ok ⟨["x.frag.res2", "0.json"], none⟩ :=
    find_rehearsed (by simp) rfl
  have htable : s₂.write "/x.frag.res2/0.json" (ResourceBundle.text ⟨[]⟩) = .ok s₃ :=
    write_of_find (by decide) hplace rfl
  have hremove : s₃.find "/x.frag.res2/0.raw.json" false =
      .ok ⟨["x.frag.res2", "0.raw.json"], some (.file (.text blankText) false)⟩ :=
    find_rehearsed (by simp) rfl
  have hother : written "/x.frag.bin2/1.spv" "X" (s₃.clear ["x.frag.res2", "0.raw.json"]) =
      worked :=
    written_eq (by decide) (find_rehearsed (by simp) rfl) (.inl rfl)
  obtain ⟨w, hoff, hstore⟩ := finish_off_written hbinary hreport
    (read_of_find_file (find_rehearsed (by simp) rfl)) htable hremove (by simp) rfl
  obtain ⟨w', hon, hstore'⟩ := finish_on_failing w
  exact ⟨w', bake_of_finish (opening_workplace rfl) hoff hon, by rw [hstore', hstore, hother]⟩

/-- The files that an earlier build has left keep directories, links and devices. -/
theorem framed_littered : Framed Set.univ (workplace []) littered := by
  refine ((framed_put (by simp) rfl false).trans
    ((framed_put (by simp) rfl false).trans (framed_put (by simp) rfl true))).symm

/-- Over what was left, and over what it has left itself, the build comes to the same for the
variant without the macro. -/
theorem bake_reproduced_littered :
    ∃ w w' w'' report report' report'',
      (rehearsed {} failing).bake (workplace []) "x.frag" = (w, .ok report) ∧
      (rehearsed {} failing).bake littered "x.frag" = (w', .ok report') ∧
      (rehearsed {} failing).bake w.store "x.frag" = (w'', .ok report'') ∧
      builtOutcome ∈ report.variants ∧ builtOutcome.isSuccess = true ∧
      (rehearsedShop {} failing).Reproduced w.store w'.store report'.variants builtOutcome ∧
      (rehearsedShop {} failing).Reproduced w.store w''.store report''.variants builtOutcome := by
  have hopening : (rehearsed {} failing).opening (workplace []) "x.frag" =
      .ok ⟨rehearsedShop {} failing, switch, { store := workplace [] }⟩ := opening_workplace rfl
  have hopening' : (rehearsed {} failing).opening littered "x.frag" =
      .ok ⟨rehearsedShop {} failing, switch, { store := littered }⟩ :=
    opening_rehearsed rfl rfl (fun _ => rfl) fun _ => rfl
  obtain ⟨w, hbake, hstore⟩ := bake_workplace
  have hopening'' : (rehearsed {} failing).opening w.store "x.frag" =
      .ok ⟨rehearsedShop {} failing, switch, { store := w.store }⟩ :=
    hstore ▸ opening_rehearsed rfl rfl (fun _ => rfl) fun _ => rfl
  have hsource : (workplace []).content "/x.frag" = .ok (.text "") ∧
      littered.content "/x.frag" = .ok (.text "") ∧ w.store.content "/x.frag" = .ok (.text "") := by
    rw [hstore]
    exact ⟨content_of_find_file (find_rehearsed (by simp) rfl),
      content_of_find_file (find_rehearsed (by simp) rfl),
      content_of_find_file (find_rehearsed (by simp) rfl)⟩
  have hsetup := setup_of_opening hopening
  obtain ⟨hother, hagain⟩ := bake_reproduced faithful_failing hopening hbake
    (linksApart_of_not_linked not_linked_workplace)
  have hlittered := hother littered _ hopening'
    (differsInFiles_of_framed framed_littered hopening hopening'
      ((setup_of_opening hopening').trans hsetup.symm) hsource.1 hsource.2.1)
  have hworked := hagain
    (fun _ key _ l hl hlink => not_linked_workplace _ ⟨l, (node_of_mem_removes hl).1, hlink⟩)
    ((setup_of_opening hopening'').trans hsetup.symm)
    (congrArg Except.toOption (hsource.1.trans hsource.2.2.symm))
  have hnone : ∀ out ∈ [builtOutcome, failedOutcome], out.timeouts = [] := by
    simp [builtOutcome, failedOutcome, Workshop.outcome]
  have hlead : (rehearsedShop {} failing).LinksLead (workplace []) builtOutcome.key :=
    fun p _ hlink => absurd hlink (not_linked_workplace p)
  have hended : builtOutcome.ToolsEndedWell := ⟨rfl, nofun⟩
  obtain ⟨w', report', hbake'⟩ := hlittered.reports hnone
  obtain ⟨w'', report'', hbake''⟩ := hworked.reports hnone
  exact ⟨w, w', w'', _, report', report'', hbake, hbake', hbake'', List.mem_cons_self, rfl,
    hlittered.variants w' report' hbake' _ List.mem_cons_self hended hlead,
    hworked.variants w'' report'' hbake'' _ List.mem_cons_self hended hlead⟩

/-! ## Links -/

/-- Two builds of one source with one configuration. -/
structure TwoBuilds (b : Baker) (s t : Store) (w w' : World) (report report' : BakeReport) :
    Prop where
  faithful : b.toolchain.Faithful
  setup : b.setup t "x.frag" = b.setup s "x.frag"
  source : t.content "/x.frag" = s.content "/x.frag"
  first : b.bake s "x.frag" = (w, .ok report)
  second : b.bake t "x.frag" = (w', .ok report')

/-- Where the way of a resource table goes through a file that may be there or not, the reason why
the table cannot be written depends on what was left. -/
theorem exists_reason_differs :
    ∃ s t w w' report report' out, Framed Set.univ s t ∧
      TwoBuilds (rehearsed {} failing) s t w w' report report' ∧
      out ∈ report.variants ∧ out.ToolsEndedWell ∧ out ∉ report'.variants := by
  let s := workplace [(["x.frag.res2", "0.json"], .link "old/bar")]
  let t := s.put ["x.frag.res2", "old"] (.file (.text "old") false)
  let s₁ := s.put ["x.frag.bin2", "0.spv"] (.file (.text "") false)
  let t₁ := t.put ["x.frag.bin2", "0.spv"] (.file (.text "") false)
  let s₂ := s₁.put ["x.frag.res2", "0.raw.json"] (.file (.text blankText) false)
  let t₂ := t₁.put ["x.frag.res2", "0.raw.json"] (.file (.text blankText) false)
  have hopening : (rehearsed {} failing).opening s "x.frag" =
      .ok ⟨rehearsedShop {} failing, switch, { store := s }⟩ :=
    opening_rehearsed rfl rfl (fun _ => rfl) fun _ => rfl
  have hopening' : (rehearsed {} failing).opening t "x.frag" =
      .ok ⟨rehearsedShop {} failing, switch, { store := t }⟩ :=
    opening_rehearsed rfl rfl (fun _ => rfl) fun _ => rfl
  have hbinary : written "/x.frag.bin2/0.spv" "" s = s₁ ∧
      written "/x.frag.bin2/0.spv" "" t = t₁ :=
    ⟨written_eq (by decide) (find_rehearsed (by simp) rfl) (.inl rfl),
      written_eq (by decide) (find_rehearsed (by simp) rfl) (.inl rfl)⟩
  have hreport : written "/x.frag.res2/0.raw.json" blankText s₁ = s₂ ∧
      written "/x.frag.res2/0.raw.json" blankText t₁ = t₂ :=
    ⟨written_eq (by decide) (find_rehearsed (by simp) rfl) (.inl rfl),
      written_eq (by decide) (find_rehearsed (by simp) rfl) (.inl rfl)⟩
  -- The link leads below a name at which there is nothing, or a file.
  have hwrite : s₂.write "/x.frag.res2/0.json" (ResourceBundle.text ⟨[]⟩) = .error .notFound ∧
      t₂.write "/x.frag.res2/0.json" (ResourceBundle.text ⟨[]⟩) = .error .notDirectory :=
    ⟨write_of_refused (by decide) (find_rehearsed (by simp) rfl),
      write_of_refused (by decide) (find_rehearsed (by simp) rfl)⟩
  have hsource : s.content "/x.frag" = .ok (.text "") ∧ t.content "/x.frag" = .ok (.text "") :=
    ⟨content_of_find_file (find_rehearsed (by simp) rfl),
      content_of_find_file (find_rehearsed (by simp) rfl)⟩
  rw [← hbinary.1, ← hbinary.2] at hreport
  obtain ⟨w₁, hoff⟩ := (finish_off hreport.1 (read_of_find_file
    (find_rehearsed (by simp) rfl))).2 _ hwrite.1
  obtain ⟨w₁', hoff'⟩ := (finish_off hreport.2 (read_of_find_file
    (find_rehearsed (by simp) rfl))).2 _ hwrite.2
  obtain ⟨w₂, hon, -⟩ := finish_on_failing w₁
  obtain ⟨w₂', hon', -⟩ := finish_on_failing w₁'
  refine ⟨s, t, w₂, w₂', _, _, _, (framed_put (by simp) rfl false).symm,
    ⟨faithful_failing, (setup_of_opening hopening').trans (setup_of_opening hopening).symm,
      hsource.2.trans hsource.1.symm, bake_of_finish hopening hoff hon,
      bake_of_finish hopening' hoff' hon'⟩, List.mem_cons_self, ⟨rfl, nofun⟩, fun hmem => ?_⟩
  rcases List.mem_cons.1 hmem with heq | hmem
  · exact absurd (congrArg Outcome.result heq) (by decide)
  · exact absurd (congrArg Outcome.key (List.mem_singleton.1 hmem)) (by decide)

/-- A compiler that is stopped at its limit and writes nothing. -/
def stopped : PlannedRun :=
  { usual := false, result := .error (.timeout "glslangValidator" (.ofSeconds 1)) }

/-- A reflector that fails after it has written a report. -/
def failingLate : PlannedRun :=
  { result := .error (.failed "spirv-cross" 1) }

/-- After a compiler that is stopped, the other variant has a report on the binary that was left. -/
theorem finish_on_stopped {left text : String} (w : World)
    (hleft : w.store.read "/x.frag.bin2/1.spv" = .ok left)
    (htext : (halfPlan stopped failingLate).report left = text) :
    ∃ w', (rehearsedShop stopped failingLate).finish on ["X"] .initial w =
        (w', .ok (.error (.tool (.failed "spirv-cross" 1)),
          [.timeout "glslangValidator" (.ofSeconds 1)])) ∧
      w'.store = written "/x.frag.res2/1.raw.json" text w.store := by
  refine ⟨_, finish_of_reflectFailed rfl rfl rfl, ?_⟩
  show written "/x.frag.res2/1.raw.json" ((halfPlan stopped failingLate).report
    ((w.store.read "/x.frag.bin2/1.spv").toOption.getD "")) w.store = _
  rw [hleft, ← htext]
  rfl

/-- A workplace in which the binary of one variant is a link to the report of the other one, and a
binary is left for that. -/
def diverted (left : String) : Store :=
  (workplace [(["x.frag.bin2", "0.spv"], .link "../x.frag.res2/1.raw.json")]).put
    ["x.frag.bin2", "1.spv"] (.file (.text left) false)

/-- In that workplace the build opens. -/
theorem opening_diverted (left : String) :
    (rehearsed stopped failingLate).opening (diverted left) "x.frag" =
      .ok ⟨rehearsedShop stopped failingLate, switch, { store := diverted left }⟩ :=
  opening_rehearsed rfl rfl (fun _ => rfl) fun _ => rfl

/-- If the other variant is not built anew, the binary of the first is in the end the report on the
binary that was left. -/
theorem bake_diverted (left : String) :
    ∃ w, (rehearsed stopped failingLate).bake (diverted left) "x.frag" =
        (w, .ok ⟨"/x.frag", [
          (rehearsedShop stopped failingLate).outcome switch off (.ok 0) [],
          (rehearsedShop stopped failingLate).outcome switch on
            (.error (.tool (.failed "spirv-cross" 1)))
            [.timeout "glslangValidator" (.ofSeconds 1)]]⟩) ∧
      w.store.content "/x.frag.bin2/0.spv" =
        .ok (.text ((halfPlan stopped failingLate).report left)) := by
  obtain ⟨text, htext⟩ : ∃ text, (halfPlan stopped failingLate).report left = text := ⟨_, rfl⟩
  rw [htext]
  let s₁ := (diverted left).put ["x.frag.res2", "1.raw.json"] (.file (.text "") false)
  let s₂ := s₁.put ["x.frag.res2", "0.raw.json"] (.file (.text blankText) false)
  let s₃ := s₂.put ["x.frag.res2", "0.json"] (.file (.text (ResourceBundle.text ⟨[]⟩)) false)
  let s₄ := (s₃.clear ["x.frag.res2", "0.raw.json"]).put ["x.frag.res2", "1.raw.json"]
    (.file (.text text) false)
  have hbinary : written "/x.frag.bin2/0.spv" "" (diverted left) = s₁ :=
    written_eq (by decide) (find_rehearsed (by simp) rfl) (.inl rfl)
  have hreport : written "/x.frag.res2/0.raw.json" blankText s₁ = s₂ :=
    written_eq (by decide) (find_rehearsed (by simp) rfl) (.inl rfl)
  have hplace : s₂.find "/x.frag.res2/0.json" true = .ok ⟨["x.frag.res2", "0.json"], none⟩ :=
    find_rehearsed (by simp) rfl
  have htable : s₂.write "/x.frag.res2/0.json" (ResourceBundle.text ⟨[]⟩) = .ok s₃ :=
    write_of_find (by decide) hplace rfl
  have hremove : s₃.find "/x.frag.res2/0.raw.json" false =
      .ok ⟨["x.frag.res2", "0.raw.json"], some (.file (.text blankText) false)⟩ :=
    find_rehearsed (by simp) rfl
  have hleft : (s₃.clear ["x.frag.res2", "0.raw.json"]).read "/x.frag.bin2/1.spv" = .ok left :=
    read_of_find_file (find_rehearsed (by simp) rfl)
  have hother : written "/x.frag.res2/1.raw.json" text
      (s₃.clear ["x.frag.res2", "0.raw.json"]) = s₄ :=
    written_eq (by decide) (find_rehearsed (by simp) rfl) (.inr ⟨_, rfl⟩)
  obtain ⟨w, hoff, hstore⟩ := finish_off_written hbinary hreport
    (read_of_find_file (find_rehearsed (by simp) rfl)) htable hremove (by simp) rfl
  rw [← hstore] at hleft hother
  obtain ⟨w', hon, hstore'⟩ := finish_on_stopped w hleft htext
  refine ⟨w', bake_of_finish (opening_diverted left) hoff hon, ?_⟩
  -- The binary is read by way of the link, where the other variant has its report by now.
  rw [hstore', hother]
  exact content_of_find_file (find_rehearsed (by simp) rfl)

/-- Where the binary of a variant is a link to the report of another one that is not built anew, it
depends on what was left for that one. -/
theorem exists_binary_differs :
    ∃ s t w w' report report' out, Framed Set.univ s t ∧
      TwoBuilds (rehearsed stopped failingLate) s t w w' report report' ∧
      out ∈ report.variants ∧ out ∈ report'.variants ∧ out.isSuccess = true ∧
      (w.store.content out.binary).toOption ≠ (w'.store.content out.binary).toOption := by
  obtain ⟨w, hbake, hbinary⟩ := bake_diverted ""
  obtain ⟨w', hbake', hbinary'⟩ := bake_diverted "Y"
  have hsource : ∀ left, (diverted left).content "/x.frag" = .ok (.text "") :=
    fun left => content_of_find_file (find_rehearsed (by simp) rfl)
  have hframe : ∀ left, Framed Set.univ (diverted left)
      (workplace [(["x.frag.bin2", "0.spv"], .link "../x.frag.res2/1.raw.json")]) :=
    fun left => framed_put (by simp) rfl false
  have hreports : (halfPlan stopped failingLate).report "" ≠
      (halfPlan stopped failingLate).report "Y" := by
    decide
  refine ⟨diverted "", diverted "Y", w, w', _, _, _, (hframe "").trans (hframe "Y").symm,
    ⟨faithful_rehearsed nofun nofun,
      (setup_of_opening (opening_diverted "Y")).trans (setup_of_opening (opening_diverted "")).symm,
      (hsource "Y").trans (hsource "").symm, hbake, hbake'⟩,
    List.mem_cons_self, List.mem_cons_self, rfl, ?_⟩
  rw [show ((rehearsedShop stopped failingLate).outcome switch off (.ok 0) []).binary =
    "/x.frag.bin2/0.spv" from paths_off.1, hbinary, hbinary']
  simp [Except.toOption, hreports]

/-- A workplace in which the report of a variant is a link to its binary. -/
def bound : Store :=
  workplace [(["x.frag.res2", "0.raw.json"], .link "../x.frag.bin2/0.spv")]

/-- That workplace after a build: the link was removed with the report, and the binary holds what
was written by way of the link. -/
def unbound : Store :=
  workplace [(["x.frag.bin2", "0.spv"], .file (.text blankText) false),
    (["x.frag.res2", "0.json"], .file (.text (ResourceBundle.text ⟨[]⟩)) false),
    (["x.frag.bin2", "1.spv"], .file (.text "X") false)]

/-- In that workplace the build opens, before and after. -/
theorem opening_bound :
    (rehearsed {} failing).opening bound "x.frag" =
        .ok ⟨rehearsedShop {} failing, switch, { store := bound }⟩ ∧
      (rehearsed {} failing).opening unbound "x.frag" =
        .ok ⟨rehearsedShop {} failing, switch, { store := unbound }⟩ :=
  ⟨opening_rehearsed rfl rfl (fun _ => rfl) fun _ => rfl,
    opening_rehearsed rfl rfl (fun _ => rfl) fun _ => rfl⟩

/-- The first build writes the report over the binary and removes the link. -/
theorem bake_bound :
    ∃ w, (rehearsed {} failing).bake bound "x.frag" =
        (w, .ok ⟨"/x.frag", [builtOutcome, failedOutcome]⟩) ∧ w.store = unbound := by
  let s₁ := bound.put ["x.frag.bin2", "0.spv"] (.file (.text "") false)
  let s₂ := s₁.put ["x.frag.bin2", "0.spv"] (.file (.text blankText) false)
  let s₃ := s₂.put ["x.frag.res2", "0.json"] (.file (.text (ResourceBundle.text ⟨[]⟩)) false)
  have hbinary : written "/x.frag.bin2/0.spv" "" bound = s₁ :=
    written_eq (by decide) (find_rehearsed (by simp) rfl) (.inl rfl)
  have hreport : written "/x.frag.res2/0.raw.json" blankText s₁ = s₂ :=
    written_eq (by decide) (find_rehearsed (by simp) rfl) (.inr ⟨_, rfl⟩)
  have hplace : s₂.find "/x.frag.res2/0.json" true = .ok ⟨["x.frag.res2", "0.json"], none⟩ :=
    find_rehearsed (by simp) rfl
  have htable : s₂.write "/x.frag.res2/0.json" (ResourceBundle.text ⟨[]⟩) = .ok s₃ :=
    write_of_find (by decide) hplace rfl
  have hremove : s₃.find "/x.frag.res2/0.raw.json" false =
      .ok ⟨["x.frag.res2", "0.raw.json"], some (.link "../x.frag.bin2/0.spv")⟩ :=
    find_rehearsed (by simp) rfl
  have hother : written "/x.frag.bin2/1.spv" "X" (s₃.clear ["x.frag.res2", "0.raw.json"]) =
      unbound :=
    written_eq (by decide) (find_rehearsed (by simp) rfl) (.inl rfl)
  obtain ⟨w, hoff, hstore⟩ := finish_off_written hbinary hreport
    (read_of_find_file (find_rehearsed (by simp) rfl)) htable hremove (by simp) rfl
  obtain ⟨w', hon, hstore'⟩ := finish_on_failing w
  exact ⟨w', bake_of_finish opening_bound.1 hoff hon, by rw [hstore', hstore, hother]⟩

/-- The second build leaves the binary that the compiler writes. -/
theorem bake_unbound :
    ∃ w, (rehearsed {} failing).bake unbound "x.frag" =
        (w, .ok ⟨"/x.frag", [builtOutcome, failedOutcome]⟩) ∧
      w.store.content "/x.frag.bin2/0.spv" = .ok (.text "") := by
  let s₁ := unbound.put ["x.frag.bin2", "0.spv"] (.file (.text "") false)
  let s₂ := s₁.put ["x.frag.res2", "0.raw.json"] (.file (.text blankText) false)
  let s₃ := s₂.put ["x.frag.res2", "0.json"] (.file (.text (ResourceBundle.text ⟨[]⟩)) false)
  let s₄ := (s₃.clear ["x.frag.res2", "0.raw.json"]).put ["x.frag.bin2", "1.spv"]
    (.file (.text "X") false)
  have hbinary : written "/x.frag.bin2/0.spv" "" unbound = s₁ :=
    written_eq (by decide) (find_rehearsed (by simp) rfl) (.inr ⟨.text blankText, rfl⟩)
  have hreport : written "/x.frag.res2/0.raw.json" blankText s₁ = s₂ :=
    written_eq (by decide) (find_rehearsed (by simp) rfl) (.inl rfl)
  have hplace : s₂.find "/x.frag.res2/0.json" true = .ok ⟨["x.frag.res2", "0.json"],
      some (.file (.text (ResourceBundle.text ⟨[]⟩)) false)⟩ :=
    find_rehearsed (by simp) rfl
  have htable : s₂.write "/x.frag.res2/0.json" (ResourceBundle.text ⟨[]⟩) = .ok s₃ :=
    write_of_find (by decide) hplace rfl
  have hremove : s₃.find "/x.frag.res2/0.raw.json" false =
      .ok ⟨["x.frag.res2", "0.raw.json"], some (.file (.text blankText) false)⟩ :=
    find_rehearsed (by simp) rfl
  have hother : written "/x.frag.bin2/1.spv" "X" (s₃.clear ["x.frag.res2", "0.raw.json"]) = s₄ :=
    written_eq (by decide) (find_rehearsed (by simp) rfl) (.inr ⟨.text "X", rfl⟩)
  obtain ⟨w, hoff, hstore⟩ := finish_off_written hbinary hreport
    (read_of_find_file (find_rehearsed (by simp) rfl)) htable hremove (by simp) rfl
  obtain ⟨w', hon, hstore'⟩ := finish_on_failing w
  refine ⟨w', bake_of_finish opening_bound.2 hoff hon, ?_⟩
  rw [hstore', hstore, hother]
  exact content_of_find_file (find_rehearsed (by simp) rfl)

/-- Where the report of a variant is a link to its binary, a build over what the first has left does
not leave the same binary. -/
theorem exists_binary_differs_again :
    ∃ s w w' report report' out,
      TwoBuilds (rehearsed {} failing) s w.store w w' report report' ∧
      out ∈ report.variants ∧ out ∈ report'.variants ∧ out.isSuccess = true ∧
      (w.store.content out.binary).toOption ≠ (w'.store.content out.binary).toOption := by
  obtain ⟨w, hbake, hstore⟩ := bake_bound
  obtain ⟨w', hbake', hbinary'⟩ := bake_unbound
  have hsource : bound.content "/x.frag" = .ok (.text "") ∧
      unbound.content "/x.frag" = .ok (.text "") :=
    ⟨content_of_find_file (find_rehearsed (by simp) rfl),
      content_of_find_file (find_rehearsed (by simp) rfl)⟩
  have hbinary : unbound.content "/x.frag.bin2/0.spv" = .ok (.text blankText) :=
    content_of_find_file (find_rehearsed (by simp) rfl)
  have hblank : blankText ≠ "" := fun h =>
    Report.bundleOfText_empty .standard ⟨[]⟩ (h ▸ bundleOfText_blankText)
  rw [← hstore] at hbake' hsource hbinary
  have hopening : (rehearsed {} failing).opening w.store "x.frag" = _ := hstore ▸ opening_bound.2
  refine ⟨bound, w, w', _, _, builtOutcome,
    ⟨faithful_failing, (setup_of_opening hopening).trans (setup_of_opening opening_bound.1).symm,
      hsource.2.trans hsource.1.symm, hbake, hbake'⟩,
    List.mem_cons_self, List.mem_cons_self, rfl, ?_⟩
  rw [show builtOutcome.binary = "/x.frag.bin2/0.spv" from paths_off.1, hbinary, hbinary']
  simp [Except.toOption, hblank]

/-- **Links can let through what was left.** The reason why a resource table cannot be written, and
what is in the binary in the end, can depend on files of an earlier build: if the way of the table
goes through such a file, or if the binary is a link to a file of another variant. And a build over
what a first one has left can leave another binary, if the report was a link. -/
theorem bake_reproduced_linked :
    (∃ s t w w' report report' out, Framed Set.univ s t ∧
      TwoBuilds (rehearsed {} failing) s t w w' report report' ∧
      out ∈ report.variants ∧ out.ToolsEndedWell ∧ out ∉ report'.variants) ∧
    (∃ s t w w' report report' out, Framed Set.univ s t ∧
      TwoBuilds (rehearsed stopped failingLate) s t w w' report report' ∧
      out ∈ report.variants ∧ out ∈ report'.variants ∧ out.isSuccess = true ∧
      (w.store.content out.binary).toOption ≠ (w'.store.content out.binary).toOption) ∧
    ∃ s w w' report report' out,
      TwoBuilds (rehearsed {} failing) s w.store w w' report report' ∧
      out ∈ report.variants ∧ out ∈ report'.variants ∧ out.isSuccess = true ∧
      (w.store.content out.binary).toOption ≠ (w'.store.content out.binary).toOption :=
  ⟨exists_reason_differs, exists_binary_differs, exists_binary_differs_again⟩

end Baker

end ShaderVariants
