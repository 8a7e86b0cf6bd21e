import ShaderVariants.Proofs.Bake.Interleaving

/-!
# Builds that are refused

A build is refused before its first variant when its source is not found, when its configuration is
not read, or when an output directory cannot be made. These are tried in this order, and the first
to fail is what the build is refused for (`Refusal`). Up to then an output directory is all that was
made, and only after the source and the configuration were there; no tool was used, and with any
other tools the same would have happened (`bake_refused`).
-/

namespace ShaderVariants

open Store

namespace Store

variable {s t : Store} {p : Path}

/-- The second store is the first one with new directories where nothing was. -/
structure Extends (s t : Store) : Prop where
  ground : t.toGround = s.toGround
  node : ∀ l, t.node? l = s.node? l ∨ s.node? l = none ∧ t.node? l = some .directory

/-- A store extends itself. -/
theorem Extends.refl (s : Store) : Extends s s :=
  ⟨rfl, fun _ => .inl rfl⟩

/-- Making sure of a directory extends a store. -/
theorem extends_of_ensureDir (hp : Path.endsInSlash p = false) (h : s.ensureDir p = .ok t) :
    Extends s t := by
  rcases ensureDir_cases hp h with ⟨rfl, -⟩ | ⟨l, hfind, rfl⟩
  · exact Extends.refl t
  · obtain ⟨-, hroot, hnone⟩ := find_place hfind (by simp)
    refine ⟨rfl, fun l' => ?_⟩
    rw [node?_put hroot]
    by_cases heq : l = l'
    · subst heq
      exact .inr ⟨hnone, if_pos rfl⟩
    · exact .inl (if_neg heq)

/-- An extension has the files that the store has, and no others. -/
theorem Extends.file_iff (h : Extends s t) {l : Location} {content : Content} {x : Bool} :
    t.node? l = some (.file content x) ↔ s.node? l = some (.file content x) := by
  rcases h.node l with hsame | ⟨hnone, hnew⟩
  · rw [hsame]
  · simp [hnone, hnew]

end Store

namespace Baker

variable {b : Baker} {s t : Store} {source : Path} {setup : Setup} {w : World} {e : BakeError}

/-- What a build is refused for, and the files then: its source is not found; else its configuration
is not read; else the first or the second output directory cannot be made. -/
inductive Refusal (b : Baker) (s : Store) (source : Path) : BakeError → Store → Prop where
  | source {e : FileError} (hsource : s.canonical source = .error e) :
      Refusal b s source (.sourceNotFound source e) s
  | config {found : Path} {e : ConfigFileError} (hsource : s.canonical source = .ok found)
      (hconfig : MacroConfig.load s (b.config.getD (Layout.defaultConfig found)) = .error e) :
      Refusal b s source (.config e) s
  | binaryDir {found : Path} {config : MacroConfig} {e : FileError}
      (hsource : s.canonical source = .ok found)
      (hconfig : MacroConfig.load s (b.config.getD (Layout.defaultConfig found)) = .ok config)
      (hbinary : s.ensureDir (Layout.mk found).binaryDir = .error e) :
      Refusal b s source (.outputDir (Layout.mk found).binaryDir e) s
  | resourceDir {found : Path} {config : MacroConfig} {t : Store} {e : FileError}
      (hsource : s.canonical source = .ok found)
      (hconfig : MacroConfig.load s (b.config.getD (Layout.defaultConfig found)) = .ok config)
      (hbinary : s.ensureDir (Layout.mk found).binaryDir = .ok t)
      (hresource : t.ensureDir (Layout.mk found).resourceDir = .error e) :
      Refusal b s source (.outputDir (Layout.mk found).resourceDir e) t

/-- The source and the configuration are had when one is had after the other. -/
theorem setup_eq_ok_iff :
    b.setup s source = .ok setup ↔
      s.canonical source = .ok setup.layout.source ∧
        MacroConfig.load s (b.config.getD (Layout.defaultConfig setup.layout.source)) =
          .ok setup.config := by
  obtain ⟨⟨found⟩, config⟩ := setup
  unfold Baker.setup
  cases s.canonical source with
  | error e => simp [Except.mapError]
  | ok found' =>
    simp only [Except.mapError, Sequence.ok_bind, Except.ok.injEq]
    cases hload : MacroConfig.load s (b.config.getD (Layout.defaultConfig found')) with
    | error e =>
      constructor
      · intro h
        cases h
      · rintro ⟨rfl, h⟩
        cases hload.symm.trans h
    | ok config' =>
      constructor
      · intro h
        cases h
        exact ⟨rfl, hload⟩
      · rintro ⟨rfl, h⟩
        cases hload.symm.trans h
        rfl

/-- What is missing is the source, or else the configuration. -/
theorem setup_eq_error_iff :
    b.setup s source = .error e ↔
      (∃ e', s.canonical source = .error e' ∧ e = .sourceNotFound source e') ∨
      ∃ found e', s.canonical source = .ok found ∧
        MacroConfig.load s (b.config.getD (Layout.defaultConfig found)) = .error e' ∧
        e = .config e' := by
  unfold Baker.setup
  cases s.canonical source with
  | error e' => simp [Except.mapError, eq_comm]
  | ok found =>
    simp only [Except.mapError, Sequence.ok_bind, reduceCtorEq, false_and, exists_false, false_or,
      Except.ok.injEq, exists_and_left, exists_eq_left']
    cases MacroConfig.load s (b.config.getD (Layout.defaultConfig found)) with
    | error e' => simp [eq_comm]
    | ok config => simp [pure, Except.pure]

/-- The first output directory cannot be made, or else the second. -/
theorem makeOutputDirs_eq_error_iff {layout : Layout} :
    makeOutputDirs s layout = (t, .error e) ↔
      (∃ e', s.ensureDir layout.binaryDir = .error e' ∧ t = s ∧
        e = .outputDir layout.binaryDir e') ∨
      ∃ e', s.ensureDir layout.binaryDir = .ok t ∧ t.ensureDir layout.resourceDir = .error e' ∧
        e = .outputDir layout.resourceDir e' := by
  unfold makeOutputDirs makeOutputDir
  cases s.ensureDir layout.binaryDir with
  | error e' => simp [Except.mapError, eq_comm]
  | ok s₁ =>
    simp only [Except.mapError, reduceCtorEq, false_and, exists_false, false_or, Except.ok.injEq]
    cases hresource : s₁.ensureDir layout.resourceDir with
    | error e' =>
      constructor
      · intro h
        cases h
        exact ⟨e', rfl, hresource, rfl⟩
      · rintro ⟨e'', rfl, h, rfl⟩
        cases hresource.symm.trans h
        rfl
    | ok s₂ =>
      constructor
      · intro h
        cases h
      · rintro ⟨e'', rfl, h, -⟩
        cases hresource.symm.trans h

/-- A build is refused when its source or configuration is not had, or else an output directory
cannot be made. -/
theorem refusal_iff :
    b.Refusal s source e t ↔ (b.setup s source = .error e ∧ t = s) ∨
      ∃ setup, b.setup s source = .ok setup ∧
        makeOutputDirs s setup.layout = (t, .error e) := by
  constructor
  · intro h
    cases h with
    | source hsource => exact .inl ⟨setup_eq_error_iff.2 (.inl ⟨_, hsource, rfl⟩), rfl⟩
    | config hsource hconfig =>
      exact .inl ⟨setup_eq_error_iff.2 (.inr ⟨_, _, hsource, hconfig, rfl⟩), rfl⟩
    | @binaryDir found config _ hsource hconfig hbinary =>
      exact .inr ⟨⟨⟨found⟩, config⟩, setup_eq_ok_iff.2 ⟨hsource, hconfig⟩,
        makeOutputDirs_eq_error_iff.2 (.inl ⟨_, hbinary, rfl, rfl⟩)⟩
    | @resourceDir found config _ _ hsource hconfig hbinary hresource =>
      exact .inr ⟨⟨⟨found⟩, config⟩, setup_eq_ok_iff.2 ⟨hsource, hconfig⟩,
        makeOutputDirs_eq_error_iff.2 (.inr ⟨_, hbinary, hresource, rfl⟩)⟩
  · rintro (⟨hsetup, rfl⟩ | ⟨⟨layout, config⟩, hsetup, hmade⟩)
    · rcases setup_eq_error_iff.1 hsetup with
        ⟨e', hsource, rfl⟩ | ⟨found, e', hsource, hconfig, rfl⟩
      · exact .source hsource
      · exact .config hsource hconfig
    · obtain ⟨hsource, hconfig⟩ := setup_eq_ok_iff.1 hsetup
      rcases makeOutputDirs_eq_error_iff.1 hmade with
        ⟨e', hbinary, rfl, rfl⟩ | ⟨e', hbinary, hresource, rfl⟩
      · exact .binaryDir hsource hconfig hbinary
      · exact .resourceDir hsource hconfig hbinary hresource

/-- A build that is not refused does not end with a fault. -/
theorem ne_fault_of_opening {o : Opening} (h : b.opening s source = .ok o) :
    b.bake s source ≠ (w, .error (.fault e)) := by
  rw [bake_eq h]
  intro hbake
  have hended := congrArg Prod.snd hbake
  cases houtcomes : (o.shop.variants o.config o.config.enumerate o.world).2 with
  | ok outcomes =>
    rw [houtcomes] at hended
    cases hended
  | error overflow =>
    rw [houtcomes] at hended
    cases hended

/-- A build ends with a fault exactly if it is refused, and then nothing was printed and no tool
used. -/
theorem bake_eq_fault_iff :
    b.bake s source = (w, .error (.fault e)) ↔
      w.calls = [] ∧ w.printed = {} ∧ b.Refusal s source e w.store := by
  obtain ⟨t, printed, calls⟩ := w
  rw [refusal_iff]
  cases hsetup : b.setup s source with
  | error e' =>
    rw [bake, ready_of_error hsetup]
    constructor
    · intro h
      cases h
      exact ⟨rfl, rfl, .inl ⟨rfl, rfl⟩⟩
    · rintro ⟨rfl, rfl, ⟨h, rfl⟩ | ⟨setup, h, -⟩⟩
      · cases h
        rfl
      · cases h
  | ok setup =>
    cases hmade : makeOutputDirs s setup.layout with
    | mk t' made =>
      cases made with
      | error e' =>
        rw [bake, ready_of_setup hsetup hmade]
        constructor
        · intro h
          cases h
          exact ⟨rfl, rfl, .inr ⟨setup, rfl, hmade⟩⟩
        · rintro ⟨rfl, rfl, ⟨h, -⟩ | ⟨setup', h, hmade'⟩⟩
          · cases h
          · cases h
            cases hmade.symm.trans hmade'
            rfl
      | ok made =>
        refine iff_of_false (ne_fault_of_opening (opening_of_setup hsetup hmade)) ?_
        rintro ⟨-, -, ⟨h, -⟩ | ⟨setup', h, hmade'⟩⟩
        · cases h
        · cases h
          cases hmade.symm.trans hmade'

/-- What is made up to a refusal are directories. -/
theorem Refusal.extends (h : b.Refusal s source e t) : Extends s t := by
  cases h with
  | source | config | binaryDir => exact Extends.refl s
  | resourceDir _ _ hbinary => exact extends_of_ensureDir Layout.endsInSlash_binaryDir hbinary

/-- Nothing is made unless an output directory was to be. -/
theorem Refusal.eq_or_outputDir (h : b.Refusal s source e t) :
    t = s ∨ ∃ p e', e = .outputDir p e' := by
  cases h with
  | source | config => exact .inl rfl
  | binaryDir | resourceDir => exact .inr ⟨_, _, rfl⟩

/-- A refusal depends on the files, the source and the path of the configuration. -/
theorem Refusal.of_config_eq {b' : Baker} (h : b.Refusal s source e t)
    (hconfig : b'.config = b.config) : b'.Refusal s source e t := by
  cases h with
  | source hsource => exact .source hsource
  | config hsource hread => exact .config hsource (hconfig ▸ hread)
  | binaryDir hsource hread hbinary => exact .binaryDir hsource (hconfig ▸ hread) hbinary
  | resourceDir hsource hread hbinary hresource =>
    exact .resourceDir hsource (hconfig ▸ hread) hbinary hresource

/-- **A refused build has done nothing** but make directories. A build ends with a fault exactly if
its source is not found, else its configuration is not read, else an output directory cannot be made
(`Refusal`). Then no tool was used, and nothing printed; no file was made, changed or removed, and
no node but directories where nothing was; and unless an output directory could not be made, the
store is what it was. Whatever the tools and the tables are, however many variants may be under way
at a time and whether or not reports are kept, it is refused for the same and leaves the same. -/
theorem bake_refused :
    (b.bake s source = (w, .error (.fault e)) ↔
      w.calls = [] ∧ w.printed = {} ∧ b.Refusal s source e w.store) ∧
    (b.bake s source = (w, .error (.fault e)) →
      Extends s w.store ∧
      (∀ l content x, w.store.node? l = some (.file content x) ↔
        s.node? l = some (.file content x)) ∧
      (w.store = s ∨ ∃ p e', e = .outputDir p e') ∧
      ∀ b' : Baker, b'.config = b.config → b'.bake s source = (w, .error (.fault e))) := by
  refine ⟨bake_eq_fault_iff, fun h => ?_⟩
  obtain ⟨hcalls, hprinted, hrefusal⟩ := bake_eq_fault_iff.1 h
  exact ⟨hrefusal.extends, fun _ _ _ => hrefusal.extends.file_iff, hrefusal.eq_or_outputDir,
    fun b' hconfig => bake_eq_fault_iff.2 ⟨hcalls, hprinted, hrefusal.of_config_eq hconfig⟩⟩

/-- A source and the configuration of one macro beside it, and a file where the directory of the
resource tables would be. -/
def blocked : Store :=
  { home := []
    nodes := .ofList [
      (["x.frag"], .file (.text "") false),
      (["x.macro.json"], .file (.text (String.ofList switchValue.print)) false),
      (["x.frag.res2"], .file (.text "") false)] }

/-- There the first output directory is made, and the second is not. -/
theorem refusal_blocked :
    stumbling.Refusal blocked "x.frag" (.outputDir "/x.frag.res2" .alreadyExists)
      (blocked.put ["x.frag.bin2"] .directory) := by
  have hnul : ∀ p ∈ ["x.frag", "/x.macro.json", "/x.frag.bin2", "/x.frag.res2"],
      Path.holdsNul p = false := by
    simp [Path.holdsNul]
  have hsetup : stumbling.setup blocked "x.frag" = .ok ⟨⟨"/x.frag"⟩, switch⟩ :=
    setup_switch rfl (find_of_within 2 (hnul _ (by simp)) rfl (by decide) rfl)
      (find_of_within 2 (hnul _ (by simp)) rfl (by decide) rfl)
  have hfree : blocked.find "/x.frag.bin2" false = .ok ⟨["x.frag.bin2"], none⟩ :=
    find_of_within 2 (hnul _ (by simp)) rfl (by decide) rfl
  have htaken : ∀ follow, (blocked.put ["x.frag.bin2"] .directory).find "/x.frag.res2" follow =
      .ok ⟨["x.frag.res2"], some (.file (.text "") false)⟩ :=
    fun _ => find_of_within 2 (hnul _ (by simp)) rfl (by decide) rfl
  have hresource : (blocked.put ["x.frag.bin2"] .directory).ensureDir "/x.frag.res2" =
      .error .alreadyExists := by
    rw [ensureDir_of_find_some (by decide) htaken, if_neg (by simp)]
  obtain ⟨hsource, hread⟩ := setup_eq_ok_iff.1 hsetup
  exact .resourceDir hsource hread (ensureDir_of_find_none (by decide) hfree) hresource

/-- A build of that source is refused after one directory was made. -/
theorem bake_refused_blocked :
    ∃ w, stumbling.bake blocked "x.frag" =
        (w, .error (.fault (.outputDir "/x.frag.res2" .alreadyExists))) ∧
      blocked.node? ["x.frag.bin2"] = none ∧
      w.store.node? ["x.frag.bin2"] = some .directory ∧ Extends blocked w.store := by
  let w : World := { store := blocked.put ["x.frag.bin2"] .directory }
  have hbake := bake_refused (w := w) |>.1.2 ⟨rfl, rfl, refusal_blocked⟩
  exact ⟨w, hbake, rfl, rfl, (bake_refused.2 hbake).1⟩

end Baker

end ShaderVariants
