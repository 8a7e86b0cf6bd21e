import ShaderVariants.Proofs.Bake.Turns

/-!
# Where the files of a variant come from

Whether a variant counts as built depends on what its tools say, not on what they write. So a binary
is there after the build exactly if the compiler wrote it or one was there before, and the resource
table is made of the text that the reflector wrote, or, if it wrote none, of the report that was
there before (`bake_provenance`).
-/

namespace ShaderVariants

open Store

namespace ToolRun

/-- The tool wrote a content to its output. -/
def Wrote (run : ToolRun) (output : Path) (s : Store) (content : Content) : Prop :=
  s.writeContent output content = .ok run.store

variable {run : ToolRun} {output : Path} {s : Store}
  (hrun : ∃ effect : ToolEffect, run = effect.run output s)
  (houtput : Path.endsInSlash output = false)

section

include hrun houtput

/-- A tool that writes nothing but its output wrote to it, or it left all files as they were. -/
theorem wrote_or_kept :
    (∃ content e, s.writing output content = .ok e ∧ run.store = e.on s ∧
      run.Wrote output s content) ∨ run.store = s := by
  obtain ⟨effect, rfl⟩ := hrun
  unfold Wrote ToolEffect.run ToolEffect.stored
  cases effect.written with
  | none => exact .inr rfl
  | some content =>
    dsimp only
    rw [writeContent_eq houtput]
    cases hwriting : s.writing output content with
    | error e => exact .inr rfl
    | ok e => exact .inl ⟨content, e, hwriting, rfl, by rw [writeContent_eq houtput, hwriting]; rfl⟩

/-- The output is there exactly if the tool wrote it or it was there before. -/
theorem exists_content_iff :
    (∃ content, run.store.content output = .ok content) ↔
      (∃ content, run.Wrote output s content) ∨ ∃ content, s.content output = .ok content := by
  constructor
  · intro h
    rcases wrote_or_kept hrun houtput with ⟨content, e, -, -, hwrote⟩ | hkept
    · exact .inl ⟨content, hwrote⟩
    · exact .inr (by rwa [← hkept])
  · rintro (⟨content, hwrote⟩ | ⟨content, hread⟩)
    · rw [Wrote, writeContent_eq houtput] at hwrote
      obtain ⟨e, he, hstore⟩ := Sequence.map_eq_ok_iff.1 hwrote
      rw [← hstore]
      exact exists_content_of_written he
    · rcases wrote_or_kept hrun houtput with ⟨content', e, he, hstore, -⟩ | hkept
      · rw [hstore]
        exact exists_content_of_writing he hread
      · exact ⟨content, by rw [hkept, hread]⟩

/-- What the output holds was written by the tool, or it was there before a tool that left all files
as they were. -/
theorem wrote_of_content {content : Content} (h : run.store.content output = .ok content) :
    run.Wrote output s content ∨ run.store = s ∧ s.content output = .ok content := by
  rcases wrote_or_kept hrun houtput with ⟨content', e, he, hstore, hwrote⟩ | hkept
  · by_cases hdevice : ∃ l, s.find output true = .ok ⟨l, some .device⟩
    · -- A device swallows what is written.
      obtain ⟨l, hfind⟩ := hdevice
      rw [writing, hfind, Sequence.ok_bind] at he
      cases he
      exact .inr ⟨hstore, by rw [← h, hstore]; rfl⟩
    · rw [hstore, content_of_writing he fun l hfind => hdevice ⟨l, hfind⟩] at h
      cases h
      exact .inl hwrote
  · exact .inr ⟨hkept, by rw [← h, hkept]⟩

end

end ToolRun

namespace Workshop

variable {shop : Workshop} {config : MacroConfig} {key : VariantKey} {keys : List VariantKey}
  {defines : List String} {s : Store} {v v' w : World} {o : Outcome} {p q : Path} {l : Location}

/-! ## Files that are apart -/

/-- No links bring two variants together or two files of one variant: where a link is on the way of
one of the files, the two ways do not meet at a location that is changed by way of the first. -/
structure FilesApart (shop : Workshop) (s : Store) (keys : List VariantKey) : Prop where
  variants : shop.LinksApart s keys
  files : ∀ key ∈ keys, ∀ p ∈ shop.layout.artifacts key, ∀ q ∈ shop.layout.artifacts key, p ≠ q →
    s.Linked p ∨ s.Linked q → ∀ l ∈ shop.Changes s key p, l ∉ s.Sees q

/-- What is changed by way of one file of a variant is not on the way of another. -/
theorem FilesApart.notMem_sees (h : shop.FilesApart s keys) (hkey : key ∈ keys)
    (hp : p ∈ shop.layout.artifacts key) (hq : q ∈ shop.layout.artifacts key) (hne : p ≠ q)
    (hl : l ∈ shop.Changes s key p) : l ∉ s.Sees q := by
  -- The assumption covers the ways with links, the names of the files the others.
  by_cases hlink : s.Linked p ∨ s.Linked q
  · exact h.files key hkey p hp q hq hne hlink l hl
  · rw [not_or] at hlink
    have hchanged : l ∈ s.Writes p ∨ l ∈ s.Removes p := by
      rcases hl with hl | ⟨-, -, hl⟩
      · exact .inl hl
      · exact .inr hl
    obtain ⟨follow, place, hfind, rfl, hdir⟩ := exists_find_of_mem_changed hchanged
    exact Layout.notMem_sees_of_find hp hq hne hlink.1 hlink.2 hfind hdir

/-- Without links no files are brought together. -/
theorem filesApart_of_not_linked (h : ∀ p, ¬s.Linked p) : shop.FilesApart s keys where
  variants := linksApart_of_not_linked h
  files _ _ p _ q _ _ hlink := absurd hlink (not_or.2 ⟨h p, h q⟩)

/-! ## The files of a variant -/

/-- Where the files of a variant come from that counts as built: from its tools, which were used in
one world, or from the files of before, and they are left in another world. -/
structure Provenance (shop : Workshop) (key : VariantKey) (defines : List String) (s : Store)
    (v w : World) (o : Outcome) : Prop where
  /-- Both tools ended well. -/
  tools : (shop.compiled key defines v).result = .ok () ∧
    (shop.reflectedNext key defines v).result = .ok ()
  /-- The binary is there exactly if the compiler wrote it or one was there before. -/
  binary : (∃ content, w.store.content o.binary = .ok content) ↔
    (∃ content, (shop.compiled key defines v).Wrote o.binary v.store content) ∨
      ∃ content, s.content o.binary = .ok content
  /-- The resource table is made of a text that the reflector wrote, or of the report that was there
  before a reflector that wrote nothing. -/
  table : ∃ text bundle, Report.bundleOfText text shop.tables = .ok bundle ∧
    o.result = .ok bundle.resources.length ∧
    ((∀ l, s.find o.resources true ≠ .ok ⟨l, some .device⟩) →
      w.store.content o.resources = .ok (.text bundle.text)) ∧
    ((shop.reflectedNext key defines v).Wrote (shop.layout.report key)
        (shop.afterCompile key defines v).store (.text text) ∨
      (shop.reflectedNext key defines v).store = (shop.afterCompile key defines v).store ∧
        s.content (shop.layout.report key) = .ok (.text text))

/-! ## How one file is left while another is changed -/

section

variable {t : Store} {e : Edit} (h : shop.FilesApart s keys) (hkey : key ∈ keys)
  (hp : p ∈ shop.layout.artifacts key) (hq : q ∈ shop.layout.artifacts key) (hne : p ≠ q)
  (hframe : Framed (shop.Reads s key) s t)
include h hkey hp hq hne hframe

/-- A change by way of one file of a variant leaves another file where it was, with what it held. -/
theorem FilesApart.kept_of_edit (htarget : ∀ l ∈ e.target, l ∈ shop.Changes s key p) :
    Framed (s.Sees q) s (e.on t) ∧ (e.on t).content q = t.content q := by
  have haway : ∀ l ∈ e.target, l ∉ s.Sees q :=
    fun l hl => h.notMem_sees hkey hp hq hne (htarget l hl)
  have hsees : Framed (s.Sees q) s t := hframe.mono fun _ hl => ⟨q, List.mem_cons_of_mem _ hq, hl⟩
  exact ⟨hsees.trans (Edit.agree_on_self haway).symm.framed, content_on_of_notMem hsees haway⟩

/-- A tool that writes one file of a variant leaves another file where it was, with what it held. -/
theorem FilesApart.kept_of_run {run : ToolRun}
    (hrun : ∃ effect : ToolEffect, run = effect.run p t) :
    Framed (shop.Reads s key) s run.store ∧ run.store.content q = t.content q := by
  obtain ⟨effect, rfl⟩ := hrun
  obtain ⟨e, hstored, -, htarget, hkept⟩ :=
    effect.exists_edit (Layout.endsInSlash_of_mem_artifacts hp) (Agree.refl _ t)
  have hsees : Framed (s.Sees p) s t := hframe.mono fun _ hl => ⟨p, List.mem_cons_of_mem _ hp, hl⟩
  rw [writes_congr hsees] at htarget
  show Framed _ s (effect.stored p t) ∧ (effect.stored p t).content q = _
  rw [hstored]
  exact ⟨hframe.trans (hkept.symm.mono (Set.subset_univ _)),
    (h.kept_of_edit hkey hp hq hne hframe fun l hl => .inl (htarget l hl)).2⟩

end

/-! ## The files of a variant that counts as built -/

/-- Making the resource table leaves the binary, and the table is in its file in the end. -/
theorem FilesApart.kept_of_made (hfiles : shop.FilesApart s keys) (hkey : key ∈ keys)
    (hframe : Framed (shop.Reads s key) s w.store) {bundle : ResourceBundle} {stored : Store}
    (hmade : shop.normalized key w = .ok (bundle, stored)) :
    (Framed (s.Sees (shop.layout.binary key)) s (shop.tidied key stored) ∧
      (shop.tidied key stored).content (shop.layout.binary key) =
        w.store.content (shop.layout.binary key)) ∧
    Framed (s.Sees (shop.layout.resources key)) s (shop.tidied key stored) ∧
      ((∀ l, s.find (shop.layout.resources key) true ≠ .ok ⟨l, some .device⟩) →
        (shop.tidied key stored).content (shop.layout.resources key) =
          .ok (.text bundle.text)) := by
  have hbinary : shop.layout.binary key ∈ shop.layout.artifacts key := by simp
  have hreport : shop.layout.report key ∈ shop.layout.artifacts key := by simp
  have hresources : shop.layout.resources key ∈ shop.layout.artifacts key := by simp
  have hne : shop.layout.report key ≠ shop.layout.binary key := Layout.binary_ne_report.symm
  have hne₁ : shop.layout.resources key ≠ shop.layout.binary key :=
    (Layout.ne_resources (by simp)).symm
  have hne₂ : shop.layout.report key ≠ shop.layout.resources key := Layout.ne_resources (by simp)
  obtain ⟨e, e', he, rfl, htidied, he'⟩ := edits_of_normalized hmade
  have hframe' : Framed (shop.Reads s key) s (e.on w.store) :=
    hframe.trans (framed_of_writing he).symm
  -- The table is written first and the report removed after it, each by way of its own path.
  have htable : ∀ l ∈ e.target, l ∈ shop.Changes s key (shop.layout.resources key) := by
    intro l hl
    have hwrites := mem_writes_of_writing he hl
    rw [writes_congr (framed_sees hframe (List.mem_cons_of_mem _ hresources))] at hwrites
    exact .inl hwrites
  have hremoved : ∀ l ∈ e'.target, l ∈ shop.Changes s key (shop.layout.report key) := by
    intro l hl
    rcases he' with rfl | ⟨hkeep, he'⟩
    · cases hl
    · have hremoves := mem_removes_of_removing he' hl
      rw [removes_congr (hframe'.mono fun _ hl => ⟨_, List.mem_cons_of_mem _ hreport, hl⟩)]
        at hremoves
      exact .inr ⟨rfl, hkeep, hremoves⟩
  obtain ⟨hframe₁, hbinary₁⟩ :=
    hfiles.kept_of_edit hkey hreport hbinary hne hframe' hremoved
  obtain ⟨hframe₂, hresources₂⟩ :=
    hfiles.kept_of_edit hkey hreport hresources hne₂ hframe' hremoved
  rw [htidied]
  refine ⟨⟨hframe₁, ?_⟩, hframe₂, fun hdevice => ?_⟩
  · rw [hbinary₁, (hfiles.kept_of_edit hkey hresources hbinary hne₁ hframe htable).2]
  · rw [hresources₂]
    exact content_of_writing he fun l hl => hdevice l
      (find_device_congr (framed_sees hframe (List.mem_cons_of_mem _ hresources)) hl)

/-- The compiler leaves the report and the reflector leaves the binary. -/
theorem FilesApart.kept_of_tools (hfiles : shop.FilesApart s keys) (hkey : key ∈ keys)
    (hframe : Framed (shop.Reads s key) s v.store) (htools : shop.toolchain.Confined)
    (defines : List String) :
    Framed (shop.Reads s key) s (shop.afterReflect key defines v).store ∧
      (shop.afterCompile key defines v).store.content (shop.layout.report key) =
        v.store.content (shop.layout.report key) ∧
      (shop.afterReflect key defines v).store.content (shop.layout.binary key) =
        (shop.afterCompile key defines v).store.content (shop.layout.binary key) := by
  have hne : shop.layout.binary key ≠ shop.layout.report key := Layout.binary_ne_report
  obtain ⟨hframe₁, hreport⟩ := hfiles.kept_of_run hkey (by simp) (by simp) hne hframe
    (htools.compile shop.layout.source defines (shop.layout.binary key) v.store)
  obtain ⟨hframe₂, hbinary⟩ := hfiles.kept_of_run hkey (by simp) (by simp) hne.symm hframe₁
    (htools.reflect (shop.layout.binary key) (shop.layout.report key)
      (shop.afterCompile key defines v).store)
  exact ⟨hframe₂, hreport, hbinary⟩

/-- A variant that counts as built has its files from its tools or from before. -/
theorem Ending.provenance {result : Except VariantError ℕ} {timeouts : List ToolError}
    (hending : Ending shop key defines v (v', .ok (result, timeouts)))
    (hsuccess : (result.isOk && timeouts.isEmpty) = true) (htools : shop.toolchain.Confined)
    (hfiles : shop.FilesApart s keys) (hkey : key ∈ keys)
    (hbefore : Agree (shop.Reads s key) v.store s)
    (hafter : Agree (shop.Reads s key) w.store v'.store) :
    shop.Provenance key defines s v w
      ⟨key, defines, shop.layout.binary key, shop.layout.resources key, result, timeouts⟩ := by
  have hbinary : shop.layout.binary key ∈ shop.layout.artifacts key := by simp
  have hreport : shop.layout.report key ∈ shop.layout.artifacts key := by simp
  have hbegun : ∀ q ∈ shop.layout.artifacts key, v.store.content q = s.content q := by
    intro q hq
    exact (content_congr (hbefore.symm.mono fun _ hl => ⟨q, List.mem_cons_of_mem _ hq, hl⟩)).symm
  obtain ⟨n, rfl⟩ : ∃ n, result = .ok n := by
    cases result with
    | error e => cases hsuccess
    | ok n => exact ⟨n, rfl⟩
  obtain ⟨-, bundle, stored, hmade, rfl, hstore⟩ := hending.store_of_ok rfl
  obtain ⟨text, htext, hbundle⟩ := (Report.normalizeFile_eq_ok hmade).1
  have hcompile : ∃ effect : ToolEffect, shop.compiled key defines v =
      effect.run (shop.layout.binary key) v.store := htools.compile _ _ _ _
  have hreflect : ∃ effect : ToolEffect, shop.reflectedNext key defines v =
      effect.run (shop.layout.report key) (shop.afterCompile key defines v).store :=
    htools.reflect _ _ _
  obtain ⟨hframe, hreport₁, hbinary₁⟩ :=
    hfiles.kept_of_tools hkey hbefore.symm.framed htools defines
  obtain ⟨⟨hframe₁, hbinary₂⟩, hframe₂, htable⟩ := hfiles.kept_of_made hkey hframe hmade
  rw [← hstore] at hframe₁ hbinary₂ hframe₂ htable
  -- What the variant leaves is left to the end.
  have hleft : ∀ q ∈ shop.layout.artifacts key, Framed (s.Sees q) s v'.store →
      w.store.content q = v'.store.content q := by
    intro q hq hframe
    refine (content_congr ?_).symm
    rw [sees_congr hframe]
    exact hafter.symm.mono fun _ hl => ⟨q, List.mem_cons_of_mem _ hq, hl⟩
  have hcompiled : w.store.content (shop.layout.binary key) =
      (shop.compiled key defines v).store.content (shop.layout.binary key) :=
    calc w.store.content (shop.layout.binary key)
      _ = v'.store.content (shop.layout.binary key) := hleft _ hbinary hframe₁
      _ = (shop.afterReflect key defines v).store.content (shop.layout.binary key) := hbinary₂
      _ = (shop.compiled key defines v).store.content (shop.layout.binary key) := hbinary₁
  have hreported : (shop.afterCompile key defines v).store.content (shop.layout.report key) =
      s.content (shop.layout.report key) := hreport₁.trans (hbegun _ hreport)
  obtain ⟨hok, hok', -⟩ := hending.isSuccess_iff.1 hsuccess
  refine ⟨⟨hok, hok'⟩, ?_, text, bundle, hbundle, rfl, fun hdevice => ?_, ?_⟩
  · dsimp only
    rw [hcompiled, ← hbegun _ hbinary]
    exact ToolRun.exists_content_iff hcompile (Layout.endsInSlash_of_mem_artifacts hbinary)
  · rw [hleft _ (by simp) hframe₂]
    exact htable hdevice
  · rw [← hreported]
    exact ToolRun.wrote_of_content hreflect (Layout.endsInSlash_of_mem_artifacts hreport) htext

/-- A variant whose macros are known is built by its steps. -/
theorem finish_of_variant (hdefines : config.defines key = .ok defines)
    (h : shop.variant config key w = (w', .ok o)) :
    shop.finish key defines .initial w = (w', .ok (o.result, o.timeouts)) ∧
      o = ⟨key, defines, shop.layout.binary key, shop.layout.resources key, o.result,
        o.timeouts⟩ := by
  rw [variant, hdefines] at h
  dsimp only at h
  obtain ⟨hworld, hended⟩ := Prod.mk.inj h
  obtain ⟨⟨result, timeouts⟩, hfinish, rfl⟩ := Sequence.map_eq_ok_iff.1 hended
  exact ⟨Prod.ext hworld hfinish, rfl⟩

end Workshop

namespace Baker

open Workshop

variable {b : Baker} {s : Store} {source : Path} {o : Opening}

/-- The outcomes of a build that reports are those of its variants. -/
theorem variants_of_bake {w : World} {report : BakeReport} (hopening : b.opening s source = .ok o)
    (hbake : b.bake s source = (w, .ok report)) :
    o.shop.variants o.config o.config.enumerate o.world = (w, .ok report.variants) := by
  rw [bake_eq hopening] at hbake
  obtain ⟨hworld, hreport⟩ := Prod.mk.inj hbake
  obtain ⟨outcomes, houtcomes, rfl⟩ := Sequence.map_eq_ok_iff.1 hreport
  cases hvariants : (o.shop.variants o.config o.config.enumerate o.world).2 with
  | error e =>
    rw [hvariants] at houtcomes
    cases houtcomes
  | ok outcomes' =>
    rw [hvariants] at houtcomes
    cases houtcomes
    exact Prod.ext hworld hvariants

/-- **The files of a variant that counts as built come from its tools or from before.** The binary
is there after the build exactly if the compiler wrote it or one was there before. The resource
table is made of the text that the reflector wrote; or the reflector wrote nothing, and the table is
made of the report that was there before. -/
theorem bake_provenance {w : World} {report : BakeReport} (htools : b.toolchain.Confined)
    (hopening : b.opening s source = .ok o) (hbake : b.bake s source = (w, .ok report))
    (hfiles : o.shop.FilesApart o.world.store o.config.enumerate) {out : Outcome}
    (hout : out ∈ report.variants) (hsuccess : out.isSuccess = true) :
    ∃ defines v v', o.config.defines out.key = .ok defines ∧
      o.shop.Turn o.config o.config.enumerate o.world w out.key v v' out ∧
      o.shop.Provenance out.key defines o.world.store v w out := by
  have hshop : o.shop.toolchain = b.toolchain := by
    obtain ⟨setup, t, -, -, rfl⟩ := opening_eq_ok hopening
    rfl
  obtain ⟨hbinary, hresource⟩ := isDirectory_of_opening hopening
  obtain ⟨v, v', hturn⟩ := exists_turn (variants_of_bake hopening hbake) hout
  have hkey : out.key ∈ o.config.enumerate := by
    obtain ⟨before, after, -, -, hkeys, -, -⟩ := hturn.around
    rw [hkeys]
    exact List.mem_append_right _ List.mem_cons_self
  obtain ⟨hbefore, hafter⟩ := turn_kept (hshop ▸ htools) o.config.enumerate_nodup
    (apart_of_linksApart hbinary hresource hfiles.variants) hturn
  have hdefines := MacroConfig.defines_of_mem_enumerate hkey
  generalize MacroConfig.selectedIn o.config.groups out.key.values = defines at hdefines
  obtain ⟨hfinish, hform⟩ := finish_of_variant hdefines hturn.built
  have hending := finish_ending o.shop out.key defines v
  rw [hfinish] at hending
  refine ⟨defines, v, v', hdefines, hturn, ?_⟩
  rw [hform]
  exact hending.provenance hsuccess (hshop ▸ htools) hfiles hkey hbefore hafter

/-! ## A build of nothing -/

/-- A build whose tools write nothing for the variant without the macro and end well. The binary of
the other variant cannot be reflected. -/
def idle : Baker where
  toolchain := Plan.toolchain
    { compile := .ofList [("0.spv", { usual := false })]
      reflect := .ofList [("0.spv", { usual := false }),
        ("1.spv", { usual := false, result := .error (.failed "spirv-cross" 1) })]
      types := .empty }
  keepReports := true

/-- The workshop of that build. -/
def idleShop : Workshop :=
  idle.workshop ⟨"/x.frag"⟩

/-- A workplace in which an earlier build has left a report. -/
def leftover : Store :=
  workplace [(["x.frag.res2", "0.raw.json"], .file (.text blankText) false)]

/-- There are no links in that workplace. -/
theorem not_linked_leftover (p : Path) : ¬leftover.Linked p :=
  not_linked (by simp) p

/-- The build opens in that workplace. -/
theorem opening_idle : idle.opening leftover "x.frag" =
    .ok ⟨idleShop, switch, { store := leftover }⟩ :=
  opening_within rfl rfl rfl (fun _ => rfl) fun _ => rfl

/-- The resource table of the variant without the macro is made of the report that was left. -/
theorem normalized_idle :
    idleShop.normalized off (idleShop.afterReflect off [] { store := leftover }) =
      .ok (⟨[]⟩, leftover.put ["x.frag.res2", "0.json"]
        (.file (.text (ResourceBundle.text ⟨[]⟩)) false)) := by
  have hread : leftover.read "/x.frag.res2/0.raw.json" = .ok blankText :=
    read_of_find_file (find_of_within 3 (holdsNul_off _ (by simp)) rfl (by decide) rfl)
  have htable : leftover.find "/x.frag.res2/0.json" true =
      .ok ⟨["x.frag.res2", "0.json"], none⟩ :=
    find_of_within 3 (holdsNul_off _ (by simp)) rfl (by decide) rfl
  rw [normalized, show (idleShop.afterReflect off [] { store := leftover }).store = leftover from
    rfl, show idleShop.layout.report off = _ from paths_off.2.1,
    show idleShop.layout.resources off = _ from paths_off.2.2]
  exact Report.normalizeFile_of_find hread bundleOfText_blankText (by decide) htable rfl

/-- The variant without the macro counts as built, and its binary is not there. -/
theorem variants_idle :
    ∃ w outcomes out, idleShop.variants switch switch.enumerate { store := leftover } =
        (w, .ok outcomes) ∧ out ∈ outcomes ∧ out.key = off ∧ out.isSuccess = true ∧
      out.binary = "/x.frag.bin2/0.spv" ∧ out.resources = "/x.frag.res2/0.json" ∧
      w.store.content "/x.frag.bin2/0.spv" = .error .notFound ∧
      w.store.content "/x.frag.res2/0.json" = .ok (.text (ResourceBundle.text ⟨[]⟩)) := by
  let s := leftover.put ["x.frag.res2", "0.json"] (.file (.text (ResourceBundle.text ⟨[]⟩)) false)
  have hoff : idleShop.finish off [] .initial { store := leftover } = (_, .ok (.ok 0, [])) :=
    finish_of_made ⟨rfl, rfl⟩ normalized_idle
  have hon : ∃ w, idleShop.finish on ["X"] .initial
        { idleShop.afterReflect off [] { store := leftover } with store := s } = (w, .ok _) ∧
      w.store = written "/x.frag.bin2/1.spv" "X" s :=
    ⟨_, finish_of_reflect_failed rfl rfl, rfl⟩
  obtain ⟨w, hon, hstore⟩ := hon
  have hnul : Path.holdsNul "/x.frag.bin2/1.spv" = false := by simp [Path.holdsNul]
  have hwritten : written "/x.frag.bin2/1.spv" "X" s =
      s.put ["x.frag.bin2", "1.spv"] (.file (.text "X") false) :=
    written_eq (by decide) (find_of_within 3 hnul rfl (by decide) rfl) (.inl rfl)
  refine ⟨w, _, _, variants_cons hoff (variants_cons hon rfl), List.mem_cons_self, rfl, rfl,
    paths_off.1, paths_off.2.2, ?_, ?_⟩
  · have hbinary : (s.put ["x.frag.bin2", "1.spv"] (.file (.text "X") false)).find
        "/x.frag.bin2/0.spv" true = .ok ⟨["x.frag.bin2", "0.spv"], none⟩ :=
      find_of_within 3 (holdsNul_off _ (by simp)) rfl (by decide) rfl
    rw [hstore, hwritten, content, hbinary]
    rfl
  · rw [hstore, hwritten]
    exact content_of_find_file (find_of_within 3 (holdsNul_off _ (by simp)) rfl (by decide) rfl)

/-- The files of the variant are there as they were before, or made of those. -/
theorem bake_provenance_idle :
    ∃ w report out v v', idle.bake leftover "x.frag" = (w, .ok report) ∧ out ∈ report.variants ∧
      out.isSuccess = true ∧ switch.defines out.key = .ok [] ∧
      idleShop.Turn switch switch.enumerate { store := leftover } w out.key v v' out ∧
      idleShop.Provenance out.key [] leftover v w out := by
  obtain ⟨w, outcomes, out, hvariants, hout, hkey, hsuccess, -⟩ := variants_idle
  have hbake : idle.bake leftover "x.frag" = (w, .ok ⟨"/x.frag", outcomes⟩) := by
    rw [bake_eq opening_idle, hvariants]
    rfl
  obtain ⟨defines, v, v', hdefines, hturn, hprovenance⟩ :=
    bake_provenance (Plan.toolchain_deterministic _).confined opening_idle hbake
      (filesApart_of_not_linked not_linked_leftover) hout hsuccess
  dsimp only at hdefines hturn hprovenance
  obtain rfl : defines = [] := by
    rw [hkey, defines_off] at hdefines
    exact (Except.ok.inj hdefines).symm
  exact ⟨w, _, out, v, v', hbake, hout, hsuccess, hdefines, hturn, hprovenance⟩

/-- **A variant can count as built without its files.** Both tools end well and write nothing: the
binary is not there after the build, and the resource table is made of a report that was there
before it. -/
theorem bake_unbuilt :
    ∃ w report out, idle.toolchain.Deterministic ∧
      idle.opening leftover "x.frag" = .ok ⟨idleShop, switch, { store := leftover }⟩ ∧
      idle.bake leftover "x.frag" = (w, .ok report) ∧ out ∈ report.variants ∧
      out.key = off ∧ out.isSuccess = true ∧
      w.store.content out.binary = .error .notFound ∧
      (∀ u, (idleShop.compiled off [] u).store = u.store ∧
        (idleShop.reflected off u).store = u.store) ∧
      leftover.content (idleShop.layout.report off) = .ok (.text blankText) ∧
      Report.bundleOfText blankText idleShop.tables = .ok ⟨[]⟩ ∧
      w.store.content out.resources = .ok (.text (ResourceBundle.text ⟨[]⟩)) := by
  obtain ⟨w, outcomes, out, hvariants, hout, hkey, hsuccess, hbinary, hresources, hgone, htable⟩ :=
    variants_idle
  have hbake : idle.bake leftover "x.frag" = (w, .ok ⟨"/x.frag", outcomes⟩) := by
    rw [bake_eq opening_idle, hvariants]
    rfl
  have hreport : leftover.content "/x.frag.res2/0.raw.json" = .ok (.text blankText) :=
    content_of_find_file (find_of_within 3 (holdsNul_off _ (by simp)) rfl (by decide) rfl)
  refine ⟨w, _, out, Plan.toolchain_deterministic _, opening_idle, hbake, hout, hkey, hsuccess, ?_,
    fun u => ⟨rfl, rfl⟩, paths_off.2.1 ▸ hreport, bundleOfText_blankText, ?_⟩
  · rw [hbinary, hgone]
  · rw [hresources, htable]

end Baker

end ShaderVariants
