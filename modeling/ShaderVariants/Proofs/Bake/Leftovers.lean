import ShaderVariants.Proofs.Bake.Provenance
import ShaderVariants.Proofs.Store.Level
import ShaderVariants.Proofs.Store.Thinned

/-!
# What was left for a variant

If the tools are deterministic and write when they end well (`Toolchain.Faithful`), every file of a
variant whose tools end well is written before it is read. So worlds that differ in files only
(`DiffersInFiles`) come to the same for it, and are level in the end where its files are
(`Ending.level`). A path through links may be refused for different reasons, so the links on the
ways of its files are to lead to places (`LinksLead`).

The steps of a variant make no new ways (`finish_sees`), and they keep all directories and links but
the report that is removed (`finish_clears`).
-/

namespace ShaderVariants

open Store

/-! ## Faithful tools -/

/-- If the tool ends well, it has written its output. -/
def ToolEffect.Delivers (effect : ToolEffect) : Prop :=
  effect.result = .ok () → effect.written ≠ none

/-- Every use of a tool is settled by its arguments and the content of its input, writes nothing but
its output, and writes it if it ends well. -/
structure Toolchain.Faithful (tools : Toolchain) : Prop where
  compile : ∀ source defines output, ∃ effect : Option Content → ToolEffect,
    (∀ input, (effect input).Delivers) ∧ ∀ s,
      tools.compile source defines output s = (effect (s.content source).toOption).run output s
  reflect : ∀ binary output, ∃ effect : Option Content → ToolEffect,
    (∀ input, (effect input).Delivers) ∧ ∀ s,
      tools.reflect binary output s = (effect (s.content binary).toOption).run output s

/-- Faithful tools are deterministic. -/
theorem Toolchain.Faithful.deterministic {tools : Toolchain} (h : tools.Faithful) :
    tools.Deterministic where
  compile source defines output := by
    obtain ⟨effect, -, heffect⟩ := h.compile source defines output
    exact ⟨effect, heffect⟩
  reflect binary output := by
    obtain ⟨effect, -, heffect⟩ := h.reflect binary output
    exact ⟨effect, heffect⟩

/-- If the planned tool ends well, it has written a text. -/
def PlannedRun.Delivers (run : PlannedRun) : Prop :=
  run.result = .ok () → run.text ≠ none ∨ run.usual = true

/-- What a planned tool comes to has been written if it ends well. -/
theorem PlannedRun.delivers_effect {run : PlannedRun} (h : run.Delivers) (usual : String) :
    (run.effect usual).Delivers := by
  intro hresult
  unfold effect
  cases htext : run.text with
  | some text => simp
  | none =>
    rw [(h hresult).resolve_left (absurd htext)]
    simp

/-- The tools of a rehearsal are faithful if the plan lets every tool write that ends well. -/
theorem Plan.toolchain_faithful (plan : Plan)
    (hcompile : ∀ name, ((plan.compile.get? name).getD {}).Delivers)
    (hreflect : ∀ name, ((plan.reflect.get? name).getD {}).Delivers) :
    plan.toolchain.Faithful where
  compile source defines output := by
    let run := (plan.compile.get? (fileName output)).getD {}
    exact ⟨fun _ => run.effect (" ".intercalate defines),
      fun _ => PlannedRun.delivers_effect (hcompile _) _, fun s => perform_eq run _ output s⟩
  reflect binary output := by
    let run := (plan.reflect.get? (fileName binary)).getD {}
    refine ⟨fun input => run.effect (plan.report (inputText input)),
      fun _ => PlannedRun.delivers_effect (hreflect _) _, fun s => ?_⟩
    dsimp only
    rw [← read_getD]
    exact perform_eq run _ output s

/-- A tool that writes the same to level stores makes them level where its output is. -/
theorem ToolEffect.level_stored {effect : ToolEffect} {output : Path} {A : Set Location}
    {s t : Store} (h : Level A s t) (houtput : Path.endsInSlash output = false)
    (hwritten : effect.written ≠ none) :
    Level (A ∪ s.Writes output) (effect.stored output s) (effect.stored output t) := by
  obtain ⟨content, hcontent⟩ := Option.ne_none_iff_exists'.1 hwritten
  unfold stored
  rw [hcontent]
  dsimp only
  rw [writeContent_eq houtput, writeContent_eq houtput]
  rcases h.writing output content with ⟨x, y, hs, ht, hnone, -⟩ | ⟨e, e', hs, ht, hlevel⟩
  · rw [hs, ht, hnone, Set.union_empty]
    exact h
  · rw [hs, ht]
    exact hlevel

namespace Outcome

/-- Both tools ended well for the variant. -/
def ToolsEndedWell (o : Outcome) : Prop :=
  o.timeouts = [] ∧ ∀ e, o.result ≠ .error (.tool e)

end Outcome

namespace Workshop

variable {shop : Workshop} {key : VariantKey} {keys : List VariantKey}
  {defines : List String} {s t : Store} {v v' w w' : World} {p : Path} {A : Set Location}
  {result : Except VariantError ℕ} {timeouts : List ToolError}

/-! ## Refused paths -/

/-- Where a link is on the way of the report or the resource table of a variant, the path leads to a
place. Of the report this is so whenever it can be written. -/
def LinksLead (shop : Workshop) (s : Store) (key : VariantKey) : Prop :=
  ∀ p ∈ [shop.layout.report key, shop.layout.resources key], s.Linked p →
    ∃ place, s.find p true = .ok place

section

variable (hresource : s.isDirectory shop.layout.resourceDir = true)
  (hlead : shop.LinksLead s key) (hp : p ∈ [shop.layout.report key, shop.layout.resources key])
include hresource hlead hp

/-- A path that is refused is refused for the same reason where only files are others. -/
theorem LinksLead.find_error (hframe : Framed Set.univ s t) {x : FileError}
    (h : s.find p true = .error x) : t.find p true = .error x := by
  by_cases hlink : s.Linked p
  · obtain ⟨place, hplace⟩ := hlead p hp hlink
    cases hplace.symm.trans h
  · obtain ⟨there, hthere⟩ := isDirectory_iff.1 hresource
    rw [find_eq_walk hthere, Layout.resourceDir] at hthere
    have hname : ∃ e, Layout.IsExtension e ∧
        p = Path.join (shop.layout.source ++ ".res2") (key.artifactName e) := by
      simp only [List.mem_cons, List.not_mem_nil, or_false] at hp
      rcases hp with rfl | rfl
      · exact ⟨"raw.json", .inr (.inl rfl), rfl⟩
      · exact ⟨"json", .inr (.inr rfl), rfl⟩
    obtain ⟨e, he, rfl⟩ := hname
    rw [← @Layout.start_artifact shop.layout key s ".res2" e (.inr rfl) he] at hthere
    exact Store.find_error_congr hframe hlink (Layout.names_artifact (.inr rfl) he) hthere h

/-- Stores that differ in files only refuse a path for one reason. -/
theorem LinksLead.find_error_congr {u : Store} (hframe : Framed Set.univ s t)
    (hframe' : Framed Set.univ s u) {x : FileError} (h : t.find p true = .error x) :
    u.find p true = .error x := by
  have hout : outline (s.find p true) = outline (t.find p true) :=
    outline_find_congr (hframe.mono (Set.subset_univ _))
  rw [h] at hout
  cases hfind : s.find p true with
  | ok place =>
    rw [hfind] at hout
    cases hout
  | error y =>
    obtain rfl : y = x :=
      Except.error.inj ((hlead.find_error hresource hp hframe hfind).symm.trans h)
    exact hlead.find_error hresource hp hframe' hfind

end

/-! ## One variant in two worlds -/

/-- The stores have the same directories, links and devices, and the same source; all other files
may differ. -/
structure DiffersInFiles (shop : Workshop) (s t : Store) : Prop where
  frame : Framed Set.univ s t
  source : (s.content shop.layout.source).toOption = (t.content shop.layout.source).toOption

/-- A tool comes to the same result in stores with the same input. -/
theorem result_of_tool {tool : Store → ToolRun} {input output : Path}
    (htool : ∃ effect : Option Content → ToolEffect, (∀ input, (effect input).Delivers) ∧ ∀ s,
      tool s = (effect (s.content input).toOption).run output s)
    (hinput : (s.content input).toOption = (t.content input).toOption) :
    (tool t).result = (tool s).result := by
  obtain ⟨effect, -, heffect⟩ := htool
  rw [heffect, heffect, hinput]
  rfl

/-- A tool that ends well in one store ends well in another one with the same input, and makes the
stores level where its output is. -/
theorem level_of_tool {tool : Store → ToolRun} {input output : Path}
    (htool : ∃ effect : Option Content → ToolEffect, (∀ input, (effect input).Delivers) ∧ ∀ s,
      tool s = (effect (s.content input).toOption).run output s)
    (houtput : Path.endsInSlash output = false) (h : Level A s t)
    (hinput : (s.content input).toOption = (t.content input).toOption)
    (hresult : (tool s).result = .ok ()) :
    (tool t).result = .ok () ∧ Framed Set.univ (tool s).store s ∧
      Level (A ∪ s.Writes output) (tool s).store (tool t).store := by
  obtain ⟨effect, hdelivers, heffect⟩ := htool
  have hs := heffect s
  have ht := heffect t
  rw [← hinput] at ht
  -- One input is one effect, which writes the output since it ends well.
  have hwritten := hdelivers (s.content input).toOption
  generalize effect (s.content input).toOption = effect at hs ht hwritten
  obtain ⟨e, hstored, -, -, hframe⟩ := effect.exists_edit houtput (Agree.refl _ s)
  rw [← hstored] at hframe
  rw [hs] at hresult
  rw [hs, ht]
  exact ⟨hresult, hframe, ToolEffect.level_stored h houtput (hwritten hresult)⟩

/-- A compiler that ends well in one world ends well in another one that differs in files, and makes
the worlds level where the binary is. -/
theorem level_of_compile (htools : shop.toolchain.Faithful)
    (h : shop.DiffersInFiles v.store w.store)
    (hcompile : (shop.compiled key defines v).result = .ok ()) :
    (shop.compiled key defines w).result = .ok () ∧
      Framed Set.univ (shop.afterCompile key defines v).store v.store ∧
      Level (v.store.Writes (shop.layout.binary key)) (shop.afterCompile key defines v).store
        (shop.afterCompile key defines w).store ∧
      ((shop.afterCompile key defines v).store.content (shop.layout.binary key)).toOption =
        ((shop.afterCompile key defines w).store.content (shop.layout.binary key)).toOption := by
  have hlevel : Level ∅ v.store w.store := ⟨h.frame, nofun⟩
  obtain ⟨hcompile', hframe, hlevel⟩ := level_of_tool (htools.compile _ _ _)
    (Layout.endsInSlash_of_mem_artifacts Layout.binary_mem_artifacts) hlevel h.source hcompile
  rw [Set.empty_union] at hlevel
  exact ⟨hcompile', hframe, hlevel,
    hlevel.content_eq (writes_congr (hframe.symm.mono (Set.subset_univ _))).le⟩

/-- Tools that end well in one world end well in another one that differs in files, and make the
worlds level where the binary and the report are. -/
theorem level_of_tools (htools : shop.toolchain.Faithful)
    (h : shop.DiffersInFiles v.store w.store)
    (hcompile : (shop.compiled key defines v).result = .ok ())
    (hreflect : (shop.reflectedNext key defines v).result = .ok ()) :
    (shop.compiled key defines w).result = .ok () ∧
      (shop.reflectedNext key defines w).result = .ok () ∧
      Framed Set.univ (shop.afterReflect key defines v).store v.store ∧
      Level (v.store.Writes (shop.layout.binary key) ∪ v.store.Writes (shop.layout.report key))
        (shop.afterReflect key defines v).store (shop.afterReflect key defines w).store := by
  obtain ⟨hcompile', hframe, hlevel, hbinary⟩ := level_of_compile htools h hcompile
  obtain ⟨hreflect', hframe', hlevel'⟩ := level_of_tool (htools.reflect _ _)
    (Layout.endsInSlash_of_mem_artifacts Layout.report_mem_artifacts) hlevel hbinary hreflect
  have hreport : (shop.afterCompile key defines v).store.Writes (shop.layout.report key) =
      v.store.Writes (shop.layout.report key) :=
    writes_congr (hframe.symm.mono (Set.subset_univ _))
  exact ⟨hcompile', hreflect', hframe'.trans hframe, hreport ▸ hlevel'⟩

/-- The resource table is made alike in worlds that are level where the report is, if they refuse
paths alike. -/
theorem normalized_level (h : Level A v.store w.store)
    (hreport : v.store.Writes (shop.layout.report key) ⊆ A)
    (herror : ∀ p ∈ [shop.layout.report key, shop.layout.resources key], ∀ x,
      v.store.find p true = .error x → w.store.find p true = .error x) :
    (∃ halt, shop.normalized key v = .error halt ∧ shop.normalized key w = .error halt) ∨
      ∃ bundle stored stored', shop.normalized key v = .ok (bundle, stored) ∧
        shop.normalized key w = .ok (bundle, stored') ∧
        Level (A ∪ v.store.Writes (shop.layout.resources key)) stored stored' := by
  have hread : v.store.read (shop.layout.report key) = w.store.read (shop.layout.report key) := by
    rw [Store.read, Store.read,
      h.content_eq_of_error hreport (herror _ List.mem_cons_self)]
  have hslash : Path.endsInSlash (shop.layout.resources key) = false :=
    Layout.endsInSlash_of_mem_artifacts Layout.resources_mem_artifacts
  -- One report is read in both worlds, so they can differ only from the writing on.
  unfold normalized Report.normalizeFile
  rw [← hread]
  cases v.store.read (shop.layout.report key) with
  | error e => exact .inl ⟨_, rfl, rfl⟩
  | ok text =>
    simp only [Except.mapError, Halt.ofExcept, Sequence.ok_bind]
    cases Report.bundleOfText text shop.tables with
    | error halt => exact .inl ⟨_, rfl, rfl⟩
    | ok bundle =>
      simp only [Sequence.ok_bind, ResourceBundle.save, write]
      rw [writeContent_eq hslash, writeContent_eq hslash]
      rcases h.writing (shop.layout.resources key) (.text bundle.text) with
        ⟨x, y, hv, hw, -, hsame⟩ | ⟨e, e', hv, hw, hlevel⟩
      · obtain rfl : x = y := by
          rcases hsame with heq | ⟨hx, hy⟩
          · exact heq
          · exact Except.error.inj ((herror _ (by simp) x hx).symm.trans hy)
        rw [hv, hw]
        exact .inl ⟨_, rfl, rfl⟩
      · rw [hv, hw]
        exact .inr ⟨bundle, _, _, rfl, rfl, hlevel⟩

/-- A report that can be read in level stores is removed alike, or stays. -/
theorem tidied_level (h : Level A s t)
    (hs : ∃ content, s.content (shop.layout.report key) = .ok content)
    (ht : ∃ content, t.content (shop.layout.report key) = .ok content) :
    shop.tidied key s = s ∧ shop.tidied key t = t ∨
      ∃ l, shop.tidied key s = s.clear l ∧ shop.tidied key t = t.clear l ∧
        Level (A ∪ {l}) (s.clear l) (t.clear l) := by
  obtain ⟨content, hs⟩ := hs
  obtain ⟨content', ht⟩ := ht
  have hfixed := fixed_congr (p := shop.layout.report key) (h.frame.mono (Set.subset_univ _))
  -- Whether reports are kept is settled for the build, and whether this one is fixed for both
  -- stores, so both go one way.
  rcases tidied_cases hs with ⟨hstays, hs'⟩ | ⟨hkeep, hfree, e, he, hs'⟩
  · rcases tidied_cases ht with ⟨-, ht'⟩ | ⟨hkeep, hfree, -⟩
    · exact .inl ⟨hs', ht'⟩
    · rw [hfixed] at hfree
      simp [hkeep, hfree] at hstays
  · rcases tidied_cases ht with ⟨hstays, -⟩ | ⟨-, -, e', he', ht'⟩
    · rw [hfixed] at hstays
      simp [hkeep, hfree] at hstays
    · obtain ⟨l, rfl, rfl, hlevel⟩ := h.removing he he'
      exact .inr ⟨l, hs', ht', hlevel⟩

/-- Resource tables that were made alike leave the worlds level, where a file is when it was made,
when the report is removed or kept. -/
theorem level_of_made {bundle : ResourceBundle} {stored stored' : Store}
    (hv : shop.normalized key v = .ok (bundle, stored))
    (hw : shop.normalized key w = .ok (bundle, stored')) (h : Level A stored stored') :
    ∃ B, Level B (shop.tidied key stored) (shop.tidied key stored') ∧
      ∀ p, v.store.Writes p ⊆ A → (shop.tidied key stored).Writes p ⊆ B := by
  obtain ⟨⟨content, hread⟩, e, he, rfl⟩ := writing_of_normalized hv
  obtain ⟨⟨content', hread'⟩, e', he', rfl⟩ := writing_of_normalized hw
  have hwrites : ∀ p, (e.on v.store).Writes p = v.store.Writes p :=
    fun p => writes_congr ((framed_of_writing he).symm.mono (Set.subset_univ _))
  rcases tidied_level h (exists_content_of_writing he hread)
    (exists_content_of_writing he' hread') with ⟨hs, ht⟩ | ⟨l, hs, ht, hlevel⟩
  · rw [hs, ht]
    exact ⟨A, h, fun p hp => (hwrites p).le.trans hp⟩
  · rw [hs, ht]
    exact ⟨_, hlevel, fun p hp => (thinned_clear _ l).writes_subset.trans
      (Set.union_subset_union_left _ ((hwrites p).le.trans hp))⟩

/-- Both tools ended well if no error of a tool is reported. -/
theorem Ending.tools_of_endedWell
    (h : Ending shop key defines w (w', .ok (result, timeouts))) (htimeouts : timeouts = [])
    (hresult : ∀ e, result ≠ .error (.tool e)) :
    (shop.compiled key defines w).result = .ok () ∧
      (shop.reflectedNext key defines w).result = .ok () := by
  rw [ToolRun.result_eq_ok_iff, ToolRun.result_eq_ok_iff]
  cases h with
  | compileFailed => exact absurd rfl (hresult _)
  | reflectFailed => exact absurd rfl (hresult _)
  | refused htools =>
    obtain ⟨herrors, herrors'⟩ := List.append_eq_nil_iff.1 htimeouts
    exact ⟨⟨htools.1, herrors⟩, htools.2, herrors'⟩
  | made htools =>
    obtain ⟨herrors, herrors'⟩ := List.append_eq_nil_iff.1 htimeouts
    exact ⟨⟨htools.1, herrors⟩, htools.2, herrors'⟩

/-- After two tools that ended well nothing has timed out, and what is left is to make the resource
table: it is refused, or it is made. -/
theorem Ending.cases_of_tools (h : Ending shop key defines w (w', .ok (result, timeouts)))
    (hcompile : (shop.compiled key defines w).result = .ok ())
    (hreflect : (shop.reflectedNext key defines w).result = .ok ()) :
    timeouts = [] ∧
      ((∃ e, shop.normalized key (shop.afterReflect key defines w) = .error (.fault e) ∧
        result = .error (.bundle e) ∧ w'.store = (shop.afterReflect key defines w).store) ∨
      ∃ bundle stored,
        shop.normalized key (shop.afterReflect key defines w) = .ok (bundle, stored) ∧
        result = .ok bundle.resources.length ∧ w'.store = shop.tidied key stored) := by
  obtain ⟨-, herrors⟩ := ToolRun.result_eq_ok_iff.1 hcompile
  obtain ⟨-, herrors'⟩ := ToolRun.result_eq_ok_iff.1 hreflect
  cases h with
  | compileFailed hfailed => cases hcompile.symm.trans hfailed
  | reflectFailed _ hfailed => cases hreflect.symm.trans hfailed
  | refused _ hrefused =>
    rw [herrors, herrors']
    exact ⟨rfl, .inl ⟨_, hrefused, rfl, rfl⟩⟩
  | made _ hmade =>
    rw [herrors, herrors']
    exact ⟨rfl, .inr ⟨_, _, hmade, rfl, rfl⟩⟩

/-- After tools that ended well, the resource table is made or refused alike in worlds that differ
in files, which are level then where the files of the variant are. -/
theorem normalized_of_tools (htools : shop.toolchain.Faithful)
    (h : shop.DiffersInFiles v.store w.store)
    (hresource : v.store.isDirectory shop.layout.resourceDir = true)
    (hlead : shop.LinksLead v.store key)
    (hcompile : (shop.compiled key defines v).result = .ok ())
    (hreflect : (shop.reflectedNext key defines v).result = .ok ()) :
    ∃ A, (shop.afterReflect key defines v).store.Writes (shop.layout.binary key) ⊆ A ∧
      (shop.afterReflect key defines v).store.Writes (shop.layout.report key) ⊆ A ∧
      Level A (shop.afterReflect key defines v).store (shop.afterReflect key defines w).store ∧
      ((∃ halt, shop.normalized key (shop.afterReflect key defines v) = .error halt ∧
          shop.normalized key (shop.afterReflect key defines w) = .error halt) ∨
        ∃ bundle stored stored',
          shop.normalized key (shop.afterReflect key defines v) = .ok (bundle, stored) ∧
          shop.normalized key (shop.afterReflect key defines w) = .ok (bundle, stored') ∧
          Level (A ∪ (shop.afterReflect key defines v).store.Writes (shop.layout.resources key))
            stored stored') := by
  obtain ⟨-, -, hframe, hlevel⟩ := level_of_tools htools h hcompile hreflect
  -- The tools leave directories and links, so the files are where they were.
  have hwrites : ∀ p, (shop.afterReflect key defines v).store.Writes p = v.store.Writes p :=
    fun p => writes_congr (hframe.symm.mono (Set.subset_univ _))
  have hreport := (hwrites (shop.layout.report key)).le.trans
    (Set.subset_union_right (s := v.store.Writes (shop.layout.binary key)))
  exact ⟨_, (hwrites _).le.trans Set.subset_union_left, hreport, hlevel,
    normalized_level hlevel hreport fun p hp _ =>
      hlead.find_error_congr hresource hp hframe.symm (hframe.symm.trans hlevel.frame)⟩

/-- **A variant whose tools end well comes to the same in worlds that differ in files.** The worlds
are level in the end where its binary and its report are, and its resource table if there is one. -/
theorem Ending.level {result' : Except VariantError ℕ} {timeouts' : List ToolError}
    (hv : Ending shop key defines v (v', .ok (result, timeouts)))
    (hw : Ending shop key defines w (w', .ok (result', timeouts')))
    (htools : shop.toolchain.Faithful) (h : shop.DiffersInFiles v.store w.store)
    (hresource : v.store.isDirectory shop.layout.resourceDir = true)
    (hlead : shop.LinksLead v.store key) (htimeouts : timeouts = [])
    (hresult : ∀ e, result ≠ .error (.tool e)) :
    result' = result ∧ timeouts' = timeouts ∧ ∃ A, Level A v'.store w'.store ∧
      v'.store.Writes (shop.layout.binary key) ⊆ A ∧
      v'.store.Writes (shop.layout.report key) ⊆ A ∧
      (result.isOk = true → v'.store.Writes (shop.layout.resources key) ⊆ A) := by
  obtain ⟨hcompile, hreflect⟩ := hv.tools_of_endedWell htimeouts hresult
  obtain ⟨hcompile', hreflect', -⟩ := level_of_tools htools h hcompile hreflect
  obtain ⟨hnone, hvcases⟩ := hv.cases_of_tools hcompile hreflect
  obtain ⟨hnone', hwcases⟩ := hw.cases_of_tools hcompile' hreflect'
  rw [hnone, hnone']
  -- The resource table is made in both worlds or in neither, so the endings are of one kind.
  obtain ⟨A, hbinary, hreport, hlevel, ⟨halt, hvmade, hwmade⟩ |
    ⟨bundle, stored, stored', hvmade, hwmade, hlevel'⟩⟩ :=
    normalized_of_tools htools h hresource hlead hcompile hreflect
  · obtain ⟨x, hx, rfl, hvstore⟩ := hvcases.resolve_right
      fun ⟨bundle, stored, hok, _⟩ => by cases hvmade.symm.trans hok
    obtain ⟨y, hy, rfl, hwstore⟩ := hwcases.resolve_right
      fun ⟨bundle, stored, hok, _⟩ => by cases hwmade.symm.trans hok
    obtain rfl := Except.error.inj (hvmade.symm.trans hx)
    cases hwmade.symm.trans hy
    rw [hvstore, hwstore]
    exact ⟨rfl, rfl, A, hlevel, hbinary, hreport, nofun⟩
  · obtain ⟨bundle₁, stored₁, hok, rfl, hvstore⟩ := hvcases.resolve_left
      fun ⟨x, hx, _⟩ => by cases hvmade.symm.trans hx
    obtain ⟨bundle₂, stored₂, hok', rfl, hwstore⟩ := hwcases.resolve_left
      fun ⟨x, hx, _⟩ => by cases hwmade.symm.trans hx
    cases hvmade.symm.trans hok
    cases hwmade.symm.trans hok'
    rw [hvstore, hwstore]
    obtain ⟨B, hlevel, hsub⟩ := level_of_made hvmade hwmade hlevel'
    exact ⟨rfl, rfl, B, hlevel, hsub _ (hbinary.trans Set.subset_union_left),
      hsub _ (hreport.trans Set.subset_union_left), fun _ => hsub _ Set.subset_union_right⟩

/-- If a variant ends in one world with no tool stopped at its limit, it does not overflow in a
world that differs in files. -/
theorem Ending.not_stops (hv : Ending shop key defines v (v', .ok (result, timeouts)))
    (htools : shop.toolchain.Faithful) (h : shop.DiffersInFiles v.store w.store)
    (htimeouts : timeouts = []) : ¬shop.Stops key defines w := by
  rintro ⟨⟨hgoes, hgoes'⟩, hoverflows⟩
  by_cases hresult : ∃ e, result = .error (.tool e)
  · -- A tool that failed fails in the other world as well.
    obtain ⟨e, rfl⟩ := hresult
    cases hv with
    | compileFailed hcompile hlimit =>
      have hcompile' : (shop.compiled key defines w).result = .error e :=
        (result_of_tool (htools.compile _ _ _) h.source).trans hcompile
      rw [ToolRun.goesOn_eq_false_iff.2 ⟨e, hcompile', hlimit⟩] at hgoes
      cases hgoes
    | reflectFailed hcompile hreflect hlimit =>
      obtain ⟨-, -, -, hbinary⟩ :=
        level_of_compile htools h (ToolRun.result_eq_ok_iff.2 ⟨hcompile, htimeouts⟩)
      have hreflect' : (shop.reflectedNext key defines w).result = .error e :=
        (result_of_tool (htools.reflect _ _) hbinary).trans hreflect
      rw [ToolRun.goesOn_eq_false_iff.2 ⟨e, hreflect', hlimit⟩] at hgoes'
      cases hgoes'
  · obtain ⟨hcompile, hreflect⟩ :=
      hv.tools_of_endedWell htimeouts fun e he => hresult ⟨e, he⟩
    obtain ⟨-, -, hframe, hlevel⟩ := level_of_tools htools h hcompile hreflect
    obtain ⟨text, report, hread, hreport⟩ := hoverflows
    -- The report is the one of the first world, where it does not overflow.
    have hwrites : (shop.afterReflect key defines v).store.Writes (shop.layout.report key) =
        v.store.Writes (shop.layout.report key) :=
      writes_congr (hframe.symm.mono (Set.subset_univ _))
    have hread' := hlevel.read_eq_ok (hwrites.le.trans Set.subset_union_right) hread
    have hoverflows := normalized_eq_overflow_iff.2 ⟨text, report, hread', hreport⟩
    obtain ⟨-, ⟨x, hx, -⟩ | ⟨_, _, hok, -⟩⟩ := hv.cases_of_tools hcompile hreflect
    · cases hoverflows.symm.trans hx
    · cases hoverflows.symm.trans hok

/-! ## What is removed -/

/-- No report that is to be removed is a link. -/
def LinksStay (shop : Workshop) (s : Store) (keys : List VariantKey) : Prop :=
  shop.keepReports = false → ∀ key ∈ keys, ∀ l ∈ s.Removes (shop.layout.report key), ¬s.IsLink l

/-- Stores with one frame have the same reports to be removed. -/
theorem LinksStay.congr (h : shop.LinksStay s keys) (hframe : Framed Set.univ t s)
    (hkey : key ∈ keys) : shop.LinksStay t [key] := by
  rintro hkeep other hother l hl ⟨target, hlink⟩
  obtain rfl := List.mem_singleton.1 hother
  rw [← removes_congr (hframe.mono (Set.subset_univ _))] at hl
  have hlasting := hframe.2 l (Set.mem_univ _)
  rw [hlink] at hlasting
  exact h hkeep other hkey l hl ⟨target, lasting_eq_some hlasting.symm⟩

/-- A report that a resource table is made of is a file or a link: a device has no text. -/
theorem file_or_link_of_made {bundle : ResourceBundle} {stored : Store} {l : Location}
    (hmade : shop.normalized key w = .ok (bundle, stored))
    (hl : l ∈ w.store.Removes (shop.layout.report key)) :
    lasting (w.store.node? l) = none ∨ w.store.IsLink l := by
  obtain ⟨text, htext, hbundle⟩ := (Report.normalizeFile_eq_ok hmade).1
  obtain ⟨node, hout, hdir⟩ := hl
  obtain ⟨-, hfind, hlasting⟩ := find_of_outline hout hdir
  rcases hnode : w.store.node? l with _ | _ | _ | target | _
  · exact .inl rfl
  · exact .inl rfl
  · rw [hnode] at hlasting
    exact absurd hlasting.symm hdir
  · exact .inr ⟨target, hnode⟩
  · rw [hnode] at hfind
    have hread := content_of_find_device (find_true_of_find_false hfind nofun)
    cases hread.symm.trans htext
    exact absurd hbundle (Report.bundleOfText_empty _ _)

/-- The steps of a variant keep all directories, links and devices, and then at most the report is
removed, which is a file or a link. -/
theorem finish_clears (htools : shop.toolchain.Confined) (key : VariantKey)
    (defines : List String) (w : World) :
    ∃ u, Framed Set.univ u w.store ∧
      ((shop.finish key defines .initial w).1.store = u ∨
        shop.keepReports = false ∧ ∃ l ∈ w.store.Removes (shop.layout.report key),
          (lasting (w.store.node? l) = none ∨ w.store.IsLink l) ∧
          (shop.finish key defines .initial w).1.store = u.clear l) := by
  have hframe : Framed Set.univ (shop.afterTools key defines w).store w.store :=
    (kept_of_tools htools fun _ _ l _ => Set.notMem_empty l).1
  have hending := finish_ending shop key defines w
  generalize shop.finish key defines .initial w = ended at hending
  obtain ⟨w', ended⟩ := ended
  rcases hending.store_cases with hstore | ⟨bundle, stored, hnormalizes, hmade, hstore⟩
  · exact ⟨_, hframe, .inl hstore⟩
  rw [afterTools_of_normalizes hnormalizes] at hframe
  obtain ⟨e, e', he, rfl, htidied, he'⟩ := edits_of_normalized hmade
  have hwritten := framed_of_writing (A := Set.univ) he
  refine ⟨_, hwritten.trans hframe, ?_⟩
  rw [hstore, htidied]
  rcases he' with rfl | ⟨hkeep, he'⟩
  · exact .inl rfl
  obtain ⟨l, node, -, -, -, rfl⟩ := removing_eq_ok_iff.1 he'
  -- The report is removed from where it was before the tools and the writing of the table.
  have hremoves := mem_removes_of_removing he' rfl
  rw [removes_congr (hwritten.symm.mono (Set.subset_univ _))] at hremoves
  have hnode := file_or_link_of_made hmade hremoves
  rw [removes_congr (hframe.symm.mono (Set.subset_univ _))] at hremoves
  refine .inr ⟨hkeep, _, hremoves, ?_, rfl⟩
  rcases hnode with hnone | ⟨target, hlink⟩
  · exact .inl ((hframe.2 _ (Set.mem_univ _)).symm.trans hnone)
  · have hlasting := hframe.2 l (Set.mem_univ _)
    rw [hlink] at hlasting
    exact .inr ⟨target, lasting_eq_some hlasting.symm⟩

/-- The steps of a variant make no new ways. -/
theorem finish_sees (htools : shop.toolchain.Confined) (key : VariantKey)
    (defines : List String) (w : World) (p : Path) :
    (shop.finish key defines .initial w).1.store.Sees p ⊆ w.store.Sees p := by
  have hwithin := (keeps_within htools [key] w.store).finish List.mem_cons_self defines .initial
    (Within.refl shop [key] w.store)
  exact hwithin.thinned.sees_subset

/-- Where no report that is to be removed is a link, the steps of a variant keep all directories,
links and devices. -/
theorem finish_framed (htools : shop.toolchain.Confined) (hstay : shop.LinksStay w.store [key])
    (defines : List String) :
    Framed Set.univ (shop.finish key defines .initial w).1.store w.store := by
  obtain ⟨u, hframe, hstore | ⟨hkeep, l, hl, hnode, hstore⟩⟩ :=
    finish_clears htools key defines w
  · rwa [hstore]
  · have hnone := hnode.resolve_right (hstay hkeep key List.mem_cons_self l hl)
    rw [← hframe.2 l (Set.mem_univ _)] at hnone
    rw [hstore]
    exact (framed_clear hnone).trans hframe

/-- Where no report that is to be removed is a link, variants that are built one after another keep
all directories, links and devices. -/
theorem variants_framed (htools : shop.toolchain.Confined) (hstay : shop.LinksStay s keys)
    (h : Framed Set.univ w.store s) (config : MacroConfig) :
    Framed Set.univ (shop.variants config keys w).1.store s := by
  induction keys generalizing w with
  | nil => exact h
  | cons key keys ih =>
    have hfirst : Framed Set.univ (shop.variant config key w).1.store s := by
      rw [variant_eq, begun]
      cases config.defines key with
      | error e =>
        rw [finish_of_result rfl]
        exact h
      | ok defines =>
        exact (finish_framed htools (hstay.congr h List.mem_cons_self) defines).trans h
    rw [variants]
    generalize shop.variant config key w = built at hfirst
    obtain ⟨w₁, outcome⟩ := built
    cases outcome with
    | error e => exact hfirst
    | ok outcome =>
      exact ih (fun hkeep other hother => hstay hkeep other (List.mem_cons_of_mem _ hother)) hfirst

end Workshop

end ShaderVariants
