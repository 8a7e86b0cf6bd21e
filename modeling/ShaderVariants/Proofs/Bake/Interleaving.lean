import ShaderVariants.Proofs.Bake.Schedule
import ShaderVariants.Proofs.Config.Enumeration
import ShaderVariants.Proofs.Json.Printing
import ShaderVariants.Proofs.Rehearsal

/-!
# Building several variants at a time

With deterministic tools, building the variants of a source comes to the same outcomes and the same
files in every order of their steps (`bake_interleaved`). The file names of different variants are
different and every file has one name, so only links could lead two variants to one file, and it is
assumed that none does (`Workshop.LinksApart`). Where links do, the order decides
(`bake_interleaved_linked`).

With its workers, a build comes to what it would with workers at hand (`build_of_staffed`); without
them, no variant is built (`build_of_refused`).
-/

namespace ShaderVariants

open Store

namespace Workshop

/-- Where a link is on the way of a file of one variant, or of what another variant uses, the two
ways do not meet at a location that is changed by way of the first. -/
def LinksApart (shop : Workshop) (s : Store) (keys : List VariantKey) : Prop :=
  ∀ key ∈ keys, ∀ other ∈ keys, key ≠ other →
    ∀ p ∈ shop.layout.artifacts key, ∀ q ∈ shop.layout.source :: shop.layout.artifacts other,
      s.Linked p ∨ s.Linked q → ∀ l ∈ shop.Changes s key p, l ∉ s.Sees q

/-- Variants are apart when no links bring them together and the output directories are there. -/
theorem apart_of_linksApart {shop : Workshop} {s : Store} {keys : List VariantKey}
    (hbinary : s.isDirectory shop.layout.binaryDir = true)
    (hresource : s.isDirectory shop.layout.resourceDir = true) (h : shop.LinksApart s keys) :
    shop.Apart s keys := by
  rintro key hkey other hother hne l ⟨p, hp, hl⟩ ⟨q, hq, hmem⟩
  -- The assumption covers the ways with links, the names of the files the others.
  by_cases hlink : s.Linked p ∨ s.Linked q
  · exact h key hkey other hother hne p hp q hq hlink l hl hmem
  · rw [not_or] at hlink
    obtain ⟨hsees, hdir⟩ := node_of_mem_changes hl
    exact Layout.notMem_sees_of_artifacts hbinary hresource hp hlink.1 hsees hdir hne hq hlink.2
      hmem

/-- Without links no variants are brought together. -/
theorem linksApart_of_not_linked {shop : Workshop} {s : Store} {keys : List VariantKey}
    (h : ∀ p, ¬s.Linked p) : shop.LinksApart s keys :=
  fun _ _ _ _ _ p _ q _ hlink => absurd hlink (not_or.2 ⟨h p, h q⟩)

end Workshop

namespace Baker

/-- What the steps of the variants begin with: the workshop, the configuration, and the world in
which the output directories are there. -/
structure Opening where
  shop : Workshop
  config : MacroConfig
  world : World

/-- The part of a build before the first step of a variant. -/
def opening (b : Baker) (s : Store) (source : Path) : Except BakeError Opening := do
  let setup ← b.setup s source
  let (s, made) := makeOutputDirs s setup.layout
  made
  return ⟨b.workshop setup.layout, setup.config, { store := s }⟩

variable {b : Baker} {s : Store} {source : Path} {o : Opening}

/-- The parts of an opening. -/
theorem opening_eq_ok (h : b.opening s source = .ok o) :
    ∃ setup t, b.setup s source = .ok setup ∧ makeOutputDirs s setup.layout = (t, .ok ()) ∧
      o = ⟨b.workshop setup.layout, setup.config, { store := t }⟩ := by
  obtain ⟨setup, hsetup, h⟩ := Sequence.bind_eq_ok_iff.1 h
  cases hmade : makeOutputDirs s setup.layout with
  | mk t made =>
    rw [hmade] at h
    cases made with
    | error e => cases h
    | ok made =>
      cases h
      exact ⟨setup, t, hsetup, hmade, rfl⟩

/-- A build that opens has found the source and its configuration. -/
theorem setup_of_opening (h : b.opening s source = .ok o) :
    b.setup s source = .ok ⟨o.shop.layout, o.config⟩ := by
  obtain ⟨setup, t, hsetup, -, rfl⟩ := opening_eq_ok h
  exact hsetup

/-- A build opens when it has found the source and its configuration and the output directories are
had. -/
theorem opening_of_setup {setup : Setup} {t : Store} (hsetup : b.setup s source = .ok setup)
    (hmade : makeOutputDirs s setup.layout = (t, .ok ())) :
    b.opening s source = .ok ⟨b.workshop setup.layout, setup.config, { store := t }⟩ := by
  rw [opening, hsetup, Sequence.ok_bind]
  dsimp only
  rw [hmade]
  rfl

/-- Without its source and configuration a build has nothing ready. -/
theorem ready_of_error {e : BakeError} (h : b.setup s source = .error e) :
    b.ready s source = (s, .error e) := by
  rw [ready, h]

/-- With its source and configuration a build is ready if the output directories are had. -/
theorem ready_of_setup {setup : Setup} {t : Store} {made : Except BakeError Unit}
    (hsetup : b.setup s source = .ok setup) (hmade : makeOutputDirs s setup.layout = (t, made)) :
    b.ready s source = (t, made.map fun () => setup) := by
  rw [ready, hsetup]
  dsimp only
  rw [hmade]

/-- Building is building the variants one after another, after the opening. -/
theorem bake_eq (h : b.opening s source = .ok o) :
    b.bake s source =
      ((o.shop.variants o.config o.config.enumerate o.world).1,
        (Halt.ofChecked (o.shop.variants o.config o.config.enumerate o.world).2).map
          (BakeReport.mk o.shop.layout.source)) := by
  obtain ⟨setup, t, hsetup, hmade, rfl⟩ := opening_eq_ok h
  rw [bake, ready_of_setup hsetup hmade]
  show ((b.bakeVariants setup t).1, Halt.ofChecked (b.bakeVariants setup t).2) = _
  unfold bakeVariants
  dsimp only
  cases ((b.workshop setup.layout).variants setup.config setup.config.enumerate
    { store := t }).2 <;> rfl

/-- A build that does not open builds no variant. Nothing has changed then, or output directories
were to be made. -/
theorem bake_of_error {e : BakeError} (h : b.opening s source = .error e) :
    ∃ t, b.bake s source = ({ store := t }, .error (.fault e)) ∧
      (t = s ∨ ∃ setup, b.setup s source = .ok setup ∧
        makeOutputDirs s setup.layout = (t, .error e)) := by
  unfold opening at h
  cases hsetup : b.setup s source with
  | error e' =>
    rw [hsetup] at h
    cases h
    rw [bake, ready_of_error hsetup]
    exact ⟨s, rfl, .inl rfl⟩
  | ok setup =>
    rw [hsetup, Sequence.ok_bind] at h
    cases hmade : makeOutputDirs s setup.layout with
    | mk t made =>
      dsimp only at h
      rw [hmade] at h
      rw [bake, ready_of_setup hsetup hmade]
      cases made with
      | ok made => cases h
      | error e' =>
        cases h
        exact ⟨t, rfl, .inr ⟨setup, rfl, hmade⟩⟩

/-- Workers that are asked for can be missing only where more than one variant may be under way. -/
theorem isStaffed_eq_false_iff : b.isStaffed = false ↔ 1 < b.jobs ∧ b.workers b.jobs = false := by
  simp [isStaffed]

/-- Building is the same with workers that were started and with workers that are at hand. -/
theorem build_of_staffed (h : b.isStaffed = true) :
    b.build s source =
      ((b.bake s source).1, (b.bake s source).2.mapError (Halt.map .opening)) := by
  unfold build bake
  obtain ⟨t, made⟩ := b.ready s source
  cases made with
  | error e => rfl
  | ok setup =>
    dsimp only
    rw [if_pos h]
    cases (b.bakeVariants setup t).2 <;> rfl

/-- A build whose workers cannot be started uses no tool. -/
theorem build_of_refused (hopening : b.opening s source = .ok o) (h : b.isStaffed = false) :
    b.build s source = (o.world, .error (.fault .workers)) := by
  obtain ⟨setup, t, hsetup, hmade, rfl⟩ := opening_eq_ok hopening
  rw [build, ready_of_setup hsetup hmade]
  show (if b.isStaffed = true then _ else _) = _
  rw [if_neg (by rw [h]; decide)]

/-- A build that reports has its workers, and reports what it would with workers at hand. -/
theorem build_eq_ok_iff {w : World} {report : BakeReport} :
    b.build s source = (w, .ok report) ↔
      b.isStaffed = true ∧ b.bake s source = (w, .ok report) := by
  cases hstaffed : b.isStaffed with
  | true =>
    rw [build_of_staffed hstaffed]
    obtain ⟨w', result⟩ := b.bake s source
    cases result <;> simp [Except.mapError]
  | false =>
    unfold build
    obtain ⟨t, made⟩ := b.ready s source
    cases made <;> simp [hstaffed]

/-- Both output directories are had when one is had after the other. -/
theorem makeOutputDirs_eq_ok_iff {layout : Layout} {t : Store} :
    makeOutputDirs s layout = (t, .ok ()) ↔
      ∃ s₁, s.ensureDir layout.binaryDir = .ok s₁ ∧ s₁.ensureDir layout.resourceDir = .ok t := by
  unfold makeOutputDirs makeOutputDir
  cases s.ensureDir layout.binaryDir with
  | error e => simp [Except.mapError]
  | ok s₁ =>
    simp only [Except.mapError, Except.ok.injEq, exists_eq_left']
    cases s₁.ensureDir layout.resourceDir with
    | error e => simp
    | ok s₂ => simp

/-- After the opening the output directories are there. -/
theorem isDirectory_of_opening (h : b.opening s source = .ok o) :
    o.world.store.isDirectory o.shop.layout.binaryDir = true ∧
      o.world.store.isDirectory o.shop.layout.resourceDir = true := by
  obtain ⟨setup, t, -, hmade, rfl⟩ := opening_eq_ok h
  obtain ⟨s₁, hbinary, hresource⟩ := makeOutputDirs_eq_ok_iff.1 hmade
  exact ⟨isDirectory_mono Layout.endsInSlash_resourceDir hresource
      (isDirectory_of_ensureDir Layout.endsInSlash_binaryDir hbinary),
    isDirectory_of_ensureDir Layout.endsInSlash_resourceDir hresource⟩

/-- **The order of the steps of different variants does not matter.** Suppose that the tools are
deterministic, that building the variants one after another does not overflow, and that links do not
bring two variants together. Then no order of the steps of the variants overflows, and when nothing
is left to do, the outcomes in the order of enumeration and the files are those of building the
variants one after another. -/
theorem bake_interleaved {w : World} {report : BakeReport} (htools : b.toolchain.Deterministic)
    (hopening : b.opening s source = .ok o) (hbake : b.bake s source = (w, .ok report))
    (hlinks : o.shop.LinksApart o.world.store o.config.enumerate) {order : List VariantKey}
    (horder : ∀ key ∈ order, key ∈ o.config.enumerate) :
    ∃ floor, o.shop.work o.config order (Workshop.opened o.config o.world) = .ok floor ∧
      (floor.Done o.config.enumerate →
        o.config.enumerate.map (o.shop.outcome? o.config floor) = report.variants.map some ∧
          Same floor.world.store w.store) := by
  obtain ⟨hbinary, hresource⟩ := isDirectory_of_opening hopening
  have hapart := Workshop.apart_of_linksApart hbinary hresource hlinks
  have hshop : o.shop.toolchain = b.toolchain := by
    obtain ⟨setup, t, -, -, rfl⟩ := opening_eq_ok hopening
    rfl
  -- A report is there only if no variant overflowed, and then every variant has an outcome.
  rw [bake_eq hopening] at hbake
  cases hvariants : o.shop.variants o.config o.config.enumerate o.world with
  | mk w' outcomes =>
    rw [hvariants] at hbake
    cases outcomes with
    | error e => cases hbake
    | ok outcomes =>
      cases hbake
      exact Workshop.work_agrees (hshop ▸ htools) o.config.enumerate_nodup hapart horder hvariants

/-! ## Two variants -/

/-- One macro that is on or off. -/
def switch : MacroConfig where
  groups := [⟨"A", .independent, ["X"]⟩]
  valid := by
    intro g hg
    rw [List.mem_singleton.1 hg]
    exact ⟨by decide, by decide⟩
  countable := by decide

/-- The document of the macro. -/
def switchValue : Json.Value :=
  .ofMembers [("all", .ofElements [.ofText "A"]),
    ("A", .ofMembers [("macros", .ofElements [.ofText "X"]), ("type", .word 0)])]

/-- The variant without the macro. -/
def off : VariantKey :=
  ⟨[0]⟩

/-- The variant with the macro. -/
def on : VariantKey :=
  ⟨[1]⟩

/-- A source, its configuration, and empty output directories, beside some nodes. -/
def workplace (nodes : List (Location × Node)) : Store :=
  { home := []
    nodes := .ofList ([
      (["x.frag"], .file (.text "") false),
      (["x.macro.json"], .file (.text (String.ofList switchValue.print)) false),
      (["x.frag.bin2"], .directory), (["x.frag.res2"], .directory)] ++ nodes) }

/-- There are no links in a workplace that has no other nodes. -/
theorem not_linked_workplace (p : Path) : ¬(workplace []).Linked p :=
  not_linked (by simp) p

/-- A build in which no binary can be reflected. -/
def stumbling : Baker where
  toolchain := Plan.toolchain
    { compile := .empty
      reflect := .ofList (["0.spv", "1.spv"].map fun binary =>
        (binary, { usual := false, result := .error (.failed "spirv-cross" 1) }))
      types := .empty }

/-- The workshop of that build. -/
def stumblingShop : Workshop :=
  stumbling.workshop ⟨"/x.frag"⟩

/-- The document of the macro is read as its configuration. -/
theorem ofText_switchValue :
    MacroConfig.ofText (String.ofList switchValue.print) = .ok switch := by
  have hmacros : (Json.Value.ofElements [.ofText "X"]).Whole := by
    refine .array fun v hv => ?_
    rw [List.mem_singleton.1 hv]
    exact .text _
  have hwhole : switchValue.Whole := by
    refine .object fun m hm => ?_
    simp only [List.mem_cons, List.not_mem_nil, or_false] at hm
    rcases hm with rfl | rfl
    · refine .array fun v hv => ?_
      rw [List.mem_singleton.1 hv]
      exact .text _
    · refine .object fun m hm => ?_
      simp only [List.mem_cons, List.not_mem_nil, or_false] at hm
      rcases hm with rfl | rfl
      · exact hmacros
      · exact .count (by decide)
  rw [MacroConfig.ofText, Json.Document.read_print _ hwhole]
  rfl

/-- A build has the source and the configuration of the macro where they are found. -/
theorem setup_switch {b : Baker} {s : Store} (hdefault : b.config = none)
    (hsource : s.find "x.frag" true = .ok ⟨["x.frag"], some (.file (.text "") false)⟩)
    (hconfig : s.find "/x.macro.json" true =
      .ok ⟨["x.macro.json"], some (.file (.text (String.ofList switchValue.print)) false)⟩) :
    b.setup s "x.frag" = .ok ⟨⟨"/x.frag"⟩, switch⟩ := by
  have hcanonical : s.canonical "x.frag" = .ok "/x.frag" := by
    rw [canonical, hsource]
    rfl
  -- The configuration is looked for beside the source, under its name.
  have hload : MacroConfig.load s "/x.macro.json" = .ok switch := by
    rw [MacroConfig.load, Store.read, content, hconfig]
    show (MacroConfig.ofText (String.ofList switchValue.print)).mapError ConfigFileError.text = _
    rw [ofText_switchValue]
    rfl
  rw [setup, hcanonical, hdefault]
  show (do
    let config ← (MacroConfig.load s "/x.macro.json").mapError BakeError.config
    return (⟨⟨"/x.frag"⟩, config⟩ : Setup)) = _
  rw [hload]
  rfl

/-- A build with the configuration of the macro opens where the source, the configuration and the
directories are found. -/
theorem opening_switch {b : Baker} {s : Store} (hdefault : b.config = none)
    (hsource : s.find "x.frag" true = .ok ⟨["x.frag"], some (.file (.text "") false)⟩)
    (hconfig : s.find "/x.macro.json" true =
      .ok ⟨["x.macro.json"], some (.file (.text (String.ofList switchValue.print)) false)⟩)
    (hbinary : ∀ follow, s.find "/x.frag.bin2" follow = .ok ⟨["x.frag.bin2"], some .directory⟩)
    (hresource : ∀ follow, s.find "/x.frag.res2" follow =
      .ok ⟨["x.frag.res2"], some .directory⟩) :
    b.opening s "x.frag" = .ok ⟨b.workshop ⟨"/x.frag"⟩, switch, { store := s }⟩ := by
  have hdirs : makeOutputDirs s ⟨"/x.frag"⟩ = (s, .ok ()) :=
    makeOutputDirs_eq_ok_iff.2 ⟨s, ensureDir_of_find (by decide) hbinary,
      ensureDir_of_find (by decide) hresource⟩
  exact opening_of_setup (setup_switch hdefault hsource hconfig) hdirs

/-- A build with the configuration of the macro opens where the source, the configuration and the
directories are found within two turns. -/
theorem opening_within {b : Baker} {s : Store} (hdefault : b.config = none)
    (hsource : s.walkWithin true 2 maxLinks (s.start "x.frag") (Path.names "x.frag") =
      some (.ok ⟨["x.frag"], some (.file (.text "") false)⟩))
    (hconfig : s.walkWithin true 2 maxLinks (s.start "/x.macro.json")
        (Path.names "/x.macro.json") = some (.ok ⟨["x.macro.json"],
      some (.file (.text (String.ofList switchValue.print)) false)⟩))
    (hbinary : ∀ follow, s.walkWithin follow 2 maxLinks (s.start "/x.frag.bin2")
      (Path.names "/x.frag.bin2") = some (.ok ⟨["x.frag.bin2"], some .directory⟩))
    (hresource : ∀ follow, s.walkWithin follow 2 maxLinks (s.start "/x.frag.res2")
      (Path.names "/x.frag.res2") = some (.ok ⟨["x.frag.res2"], some .directory⟩)) :
    b.opening s "x.frag" = .ok ⟨b.workshop ⟨"/x.frag"⟩, switch, { store := s }⟩ := by
  have hnul : ∀ p ∈ ["x.frag", "/x.macro.json", "/x.frag.bin2", "/x.frag.res2"],
      Path.holdsNul p = false := by
    simp [Path.holdsNul]
  exact opening_switch hdefault (find_of_within 2 (hnul _ (by simp)) rfl (by decide) hsource)
    (find_of_within 2 (hnul _ (by simp)) rfl (by decide) hconfig)
    (fun follow => find_of_within 2 (hnul _ (by simp)) rfl (by decide) (hbinary follow))
    fun follow => find_of_within 2 (hnul _ (by simp)) rfl (by decide) (hresource follow)

/-- A build with the configuration of the macro opens in a workplace. -/
theorem opening_workplace {b : Baker} (hdefault : b.config = none) :
    b.opening (workplace []) "x.frag" =
      .ok ⟨b.workshop ⟨"/x.frag"⟩, switch, { store := workplace [] }⟩ :=
  opening_within hdefault rfl rfl (fun _ => rfl) fun _ => rfl

/-- The store in which a text was written to a path, if it could be. -/
def written (p : Path) (text : String) (s : Store) : Store :=
  (s.write p text).toOption.getD s

/-- A text is written at the location that its path leads to. -/
theorem written_eq {p : Path} {text : String} {l : Location} {node : Option Node}
    (hp : Path.endsInSlash p = false) (hfind : s.find p true = .ok ⟨l, node⟩)
    (hnode : node = none ∨ ∃ content, node = some (.file content false)) :
    written p text s = s.put l (.file (.text text) false) := by
  rw [written]
  rcases hnode with rfl | ⟨content, rfl⟩
  · rw [write_of_find hp hfind rfl]
    rfl
  · rw [write_of_find hp hfind rfl]
    rfl

/-- One after another, the variant without the macro is built first. -/
theorem variants_stumbling (w : World) :
    ∃ w' outcomes, stumblingShop.variants switch switch.enumerate w = (w', .ok outcomes) ∧
      w'.store = written "/x.frag.bin2/1.spv" "X" (written "/x.frag.bin2/0.spv" "" w.store) := by
  have hoff : ∃ w₁, stumblingShop.finish off [] .initial w = (w₁, .ok _) ∧
      w₁.store = written "/x.frag.bin2/0.spv" "" w.store :=
    ⟨_, Workshop.finish_of_reflect_failed rfl rfl, rfl⟩
  obtain ⟨w₁, hoff, hstore₁⟩ := hoff
  have hon : ∃ w₂, stumblingShop.finish on ["X"] .initial w₁ = (w₂, .ok _) ∧
      w₂.store = written "/x.frag.bin2/1.spv" "X" w₁.store :=
    ⟨_, Workshop.finish_of_reflect_failed rfl rfl, rfl⟩
  obtain ⟨w₂, hon, hstore₂⟩ := hon
  exact ⟨w₂, _, Workshop.variants_cons hoff (Workshop.variants_cons hon rfl),
    by rw [hstore₂, hstore₁]⟩

/-- In turns, the variant with the macro may be compiled first. -/
theorem work_stumbling (w : World) :
    ∃ floor, stumblingShop.work switch [on, off, on, off] (Workshop.opened switch w) = .ok floor ∧
      floor.Done switch.enumerate ∧
      floor.world.store =
        written "/x.frag.bin2/0.spv" "" (written "/x.frag.bin2/1.spv" "X" w.store) := by
  refine ⟨_, rfl, fun key hkey => ?_, rfl⟩
  rcases List.mem_cons.1 (show key ∈ [off, on] from hkey) with rfl | hkey
  · exact Option.some_ne_none _
  · rw [List.mem_singleton.1 hkey]
    exact Option.some_ne_none _

/-- Without links the build comes to the same in turns as one after another. -/
theorem bake_interleaved_unlinked :
    ∃ w report floor, stumbling.bake (workplace []) "x.frag" = (w, .ok report) ∧
      stumblingShop.work switch [on, off, on, off]
        (Workshop.opened switch { store := workplace [] }) = .ok floor ∧
      floor.Done switch.enumerate ∧
      switch.enumerate.map (stumblingShop.outcome? switch floor) = report.variants.map some ∧
      Same floor.world.store w.store := by
  have hopening : stumbling.opening (workplace []) "x.frag" =
      .ok ⟨stumblingShop, switch, { store := workplace [] }⟩ := opening_workplace rfl
  obtain ⟨w, outcomes, hvariants, -⟩ := variants_stumbling { store := workplace [] }
  have hbake : stumbling.bake (workplace []) "x.frag" = (w, .ok ⟨"/x.frag", outcomes⟩) := by
    rw [bake_eq hopening, hvariants]
    rfl
  have hlinks : stumblingShop.LinksApart (workplace []) switch.enumerate :=
    Workshop.linksApart_of_not_linked not_linked_workplace
  obtain ⟨floor, hwork, hdone, -⟩ := work_stumbling { store := workplace [] }
  obtain ⟨floor', hwork', hsame⟩ := bake_interleaved (Plan.toolchain_deterministic _) hopening
    hbake hlinks (show ∀ key ∈ [on, off, on, off], key ∈ switch.enumerate by decide)
  -- The order is one and the same, so what it comes to is.
  obtain rfl : floor = floor' := Except.ok.inj (hwork.symm.trans hwork')
  exact ⟨w, _, floor, hbake, hwork, hdone, hsame hdone⟩

/-- **Links can make the order matter.** Where the binary of one variant is a link to that of the
other, the binary that is compiled last is left, and that is not always the one that is left when
the variants are built one after another. -/
theorem bake_interleaved_linked :
    ∃ s w report floor, stumbling.toolchain.Deterministic ∧
      stumbling.opening s "x.frag" = .ok ⟨stumblingShop, switch, { store := s }⟩ ∧
      stumbling.bake s "x.frag" = (w, .ok report) ∧
      (∀ key ∈ [on, off, on, off], key ∈ switch.enumerate) ∧
      stumblingShop.work switch [on, off, on, off] (Workshop.opened switch { store := s }) =
        .ok floor ∧
      floor.Done switch.enumerate ∧ ¬Same floor.world.store w.store := by
  have hnul : ∀ p ∈ ["x.frag", "/x.macro.json", "/x.frag.bin2", "/x.frag.res2",
      "/x.frag.bin2/0.spv", "/x.frag.bin2/1.spv"], Path.holdsNul p = false := by
    simp [Path.holdsNul]
  let s := workplace [(["x.frag.bin2", "0.spv"], .link "1.spv")]
  let target : Location := ["x.frag.bin2", "1.spv"]
  have hopening : stumbling.opening s "x.frag" = .ok ⟨stumblingShop, switch, { store := s }⟩ :=
    opening_switch rfl (find_of_within 2 (hnul _ (by simp)) rfl (by decide) rfl)
      (find_of_within 2 (hnul _ (by simp)) rfl (by decide) rfl)
      (fun _ => find_of_within 2 (hnul _ (by simp)) rfl (by decide) rfl)
      (fun _ => find_of_within 2 (hnul _ (by simp)) rfl (by decide) rfl)
  obtain ⟨w, outcomes, hvariants, hstore⟩ := variants_stumbling { store := s }
  have hbake : stumbling.bake s "x.frag" = (w, .ok ⟨"/x.frag", outcomes⟩) := by
    rw [bake_eq hopening, hvariants]
    rfl
  obtain ⟨floor, hwork, hdone, hfloor⟩ := work_stumbling { store := s }
  refine ⟨s, w, _, floor, Plan.toolchain_deterministic _, hopening, hbake, by decide, hwork, hdone,
    fun hsame => ?_⟩
  have hlast := hsame.2 target
  rw [hstore, hfloor] at hlast
  -- Both binaries lead to one location, and each is written there over the other.
  have hoff : written "/x.frag.bin2/0.spv" "" s = s.put target (.file (.text "") false) :=
    written_eq (by decide) (find_of_within 4 (hnul _ (by simp)) rfl (by decide) rfl) (.inl rfl)
  have hon : written "/x.frag.bin2/1.spv" "X" s = s.put target (.file (.text "X") false) :=
    written_eq (by decide) (find_of_within 3 (hnul _ (by simp)) rfl (by decide) rfl) (.inl rfl)
  have hoff' : written "/x.frag.bin2/0.spv" "" (s.put target (.file (.text "X") false)) =
      (s.put target (.file (.text "X") false)).put target (.file (.text "") false) :=
    written_eq (by decide) (find_of_within 4 (hnul _ (by simp)) rfl (by decide) rfl)
      (.inr ⟨_, rfl⟩)
  have hon' : written "/x.frag.bin2/1.spv" "X" (s.put target (.file (.text "") false)) =
      (s.put target (.file (.text "") false)).put target (.file (.text "X") false) :=
    written_eq (by decide) (find_of_within 3 (hnul _ (by simp)) rfl (by decide) rfl)
      (.inr ⟨_, rfl⟩)
  have htarget : target ≠ [] := List.cons_ne_nil _ _
  rw [hoff, hon, hoff', hon', node?_put htarget, if_pos rfl, node?_put htarget,
    if_pos rfl] at hlast
  exact absurd hlast (by decide)

end Baker

end ShaderVariants
