import ShaderVariants.Proofs.Bake.Account

/-!
# The names by which the files of a variant are found

Whoever looks for the files of a variant has the text of its key, in which points separate the
values; the files are named with a point after each value. The two come to the same name for every
key that has a value, and the keys of a configuration have a value for each of its groups. So the
files of a build are named by the texts of the keys (`named_by_text`), unless the configuration has
no groups: then the text of the only key is empty, and its files are named by their extensions
alone.
-/

namespace ShaderVariants

open Store

namespace MacroConfig

/-- The keys of a configuration have values if it has groups. -/
theorem values_eq_nil_iff {config : MacroConfig} {key : VariantKey} (h : key ∈ config.enumerate) :
    key.values = [] ↔ config.groups = [] := by
  have hlength : config.groups.length = key.values.length := (mem_enumerate_iff.1 h).length_eq
  rw [← List.length_eq_zero_iff, ← List.length_eq_zero_iff, hlength]

end MacroConfig

namespace ArtifactKind

/-- The file of a variant stands beside the source, in a directory of its kind, and is named by the
text of the key. -/
theorem path_eq_text (kind : ArtifactKind) (layout : Layout) {key : VariantKey}
    (h : key.values ≠ []) :
    kind.path layout key =
      layout.source ++ kind.suffix ++ "/" ++ (key.text ++ "." ++ kind.extension) := by
  obtain ⟨hne, hslash⟩ := @Layout.directory_ne_empty layout _ kind.isSuffix
  rw [kind.path_eq, Path.join_eq hne hslash (Layout.notMem_artifactName kind.isExtension),
    VariantKey.artifactName, VariantKey.stem_eq_text h]

end ArtifactKind

namespace Baker

open Workshop

variable {b : Baker} {s : Store} {source : Path} {w : World} {report : BakeReport}

/-- The outcomes that a build reports are those of the enumerated variants, each of which was
compiled. -/
theorem describes_of_reports (h : b.Reports s source w report) :
    ∃ o, b.opening s source = .ok o ∧ report.source = o.shop.layout.source ∧
      report.variants.map Outcome.key = o.config.enumerate ∧
      ∀ out ∈ report.variants,
        out.Describes o.shop.layout o.config ∧ out.compileCall o.shop.layout ∈ w.calls := by
  have hdefines (config : MacroConfig) :
      ∀ key ∈ config.enumerate, ∃ defines, config.defines key = .ok defines :=
    fun key hkey => ⟨_, MacroConfig.defines_of_mem_enumerate hkey⟩
  cases h with
  | inTurn hbake =>
    obtain ⟨o, hopening, hsource⟩ := opening_of_bake hbake
    obtain ⟨hkeys, hdescribes, hcompiles⟩ :=
      variants_accounted (hdefines o.config) (variants_of_bake hopening hbake)
    refine ⟨o, hopening, hsource, hkeys, fun out hout => ⟨hdescribes out hout, ?_⟩⟩
    have hcall : out.compileCall o.shop.layout ∈ w.compiles := by
      rw [hcompiles]
      exact List.mem_append_right _ (List.mem_map_of_mem hout)
    exact List.mem_of_mem_filter hcall
  | inOrder hjobs hopening horder hwork hdone =>
    obtain ⟨-, -, hcalls⟩ := config_of_opening hopening
    have haccount := (work_accounted (MacroConfig.enumerate_nodup _) horder
      (opened_accounted (hdefines _) hcalls) hwork).account hdone
    exact ⟨_, hopening, rfl, haccount.keys, fun out hout =>
      ⟨haccount.describes out hout,
        List.mem_of_mem_filter (haccount.compiled.mem_iff.2 (List.mem_map_of_mem hout))⟩⟩

/-- **The files of a variant are named by the text of its key.** For every configuration with
groups, the name of a variant's file is the text of its key, a point and the extension, and a build
with the configuration compiles each variant into `<key>.spv` and makes the table `<key>.json` of
it. Without groups the only key has no text, and its files are named by their extensions. -/
theorem named_by_text (config : MacroConfig) :
    (∀ key ∈ config.enumerate, ∀ extension,
      (config.groups ≠ [] → key.artifactName extension = key.text ++ "." ++ extension) ∧
      (config.groups = [] → key.text = "" ∧ key.artifactName extension = extension)) ∧
    ∀ {b : Baker} {s : Store} {source : Path} {w : World} {report : BakeReport},
      b.Reports s source w report →
      MacroConfig.load s (b.config.getD (Layout.defaultConfig report.source)) = .ok config →
      config.groups ≠ [] →
      report.variants.map Outcome.key = config.enumerate ∧
      ∀ out ∈ report.variants,
        out.binary = report.source ++ ".bin2" ++ "/" ++ (out.key.text ++ "." ++ "spv") ∧
        out.resources = report.source ++ ".res2" ++ "/" ++ (out.key.text ++ "." ++ "json") ∧
        .compile report.source out.defines out.binary ∈ w.calls := by
  constructor
  · intro key hkey extension
    constructor
    · intro hgroups
      have hvalues : key.values ≠ [] := mt (MacroConfig.values_eq_nil_iff hkey).1 hgroups
      rw [VariantKey.artifactName, VariantKey.stem_eq_text hvalues]
    · intro hgroups
      obtain ⟨values⟩ := key
      obtain rfl : values = [] := (MacroConfig.values_eq_nil_iff hkey).2 hgroups
      exact ⟨String.intercalate_nil, String.empty_append⟩
  · intro b s source w report hreports hload hgroups
    obtain ⟨o, hopening, hsource, hkeys, houtcomes⟩ := describes_of_reports hreports
    obtain ⟨-, hload', -⟩ := config_of_opening hopening
    rw [hsource, hload'] at hload
    obtain rfl : o.config = config := Except.ok.inj hload
    refine ⟨hkeys, fun out hout => ?_⟩
    obtain ⟨hdescribes, hcall⟩ := houtcomes out hout
    have hkey : out.key ∈ o.config.enumerate := hkeys ▸ List.mem_map_of_mem hout
    have hvalues : out.key.values ≠ [] := mt (MacroConfig.values_eq_nil_iff hkey).1 hgroups
    rw [hsource]
    exact ⟨hdescribes.binary.trans (ArtifactKind.binary.path_eq_text o.shop.layout hvalues),
      hdescribes.resources.trans (ArtifactKind.resources.path_eq_text o.shop.layout hvalues), hcall⟩

/-- In a workplace, the files of the macro's two variants are named by the texts of their keys. -/
theorem named_by_text_stumbling :
    (∀ extension, on.artifactName extension = on.text ++ "." ++ extension) ∧
    ∃ w report, stumbling.Reports (workplace []) "x.frag" w report ∧
      report.variants.map Outcome.key = [off, on] ∧
      ∀ out ∈ report.variants,
        out.binary = report.source ++ ".bin2" ++ "/" ++ (out.key.text ++ "." ++ "spv") := by
  have hgroups : switch.groups ≠ [] := List.cons_ne_nil _ _
  obtain ⟨hnames, hfiles⟩ := named_by_text switch
  refine ⟨fun extension => (hnames on (by decide) extension).1 hgroups, ?_⟩
  have hopening : stumbling.opening (workplace []) "x.frag" =
      .ok ⟨stumblingShop, switch, { store := workplace [] }⟩ := opening_workplace rfl
  obtain ⟨w, outcomes, hvariants, -⟩ := variants_stumbling { store := workplace [] }
  have hreports : stumbling.Reports (workplace []) "x.frag" w ⟨"/x.frag", outcomes⟩ := by
    refine .inTurn ?_
    rw [bake_eq hopening, hvariants]
    rfl
  obtain ⟨hkeys, houtcomes⟩ := hfiles hreports (config_of_opening hopening).2.1 hgroups
  exact ⟨w, _, hreports, hkeys, fun out hout => (houtcomes out hout).1⟩

/-- Without groups there is a variant all the same, and the text of its key and a point are not what
the names of its files begin with. -/
theorem named_by_extension :
    ∃ config, MacroConfig.ofGroups [] = .ok config ∧ ⟨[]⟩ ∈ config.enumerate ∧
      (⟨[]⟩ : VariantKey).text = "" ∧ (⟨[]⟩ : VariantKey).artifactName "json" = "json" ∧
      (⟨[]⟩ : VariantKey).artifactName "json" ≠ (⟨[]⟩ : VariantKey).text ++ "." ++ "json" :=
  ⟨⟨[], nofun, by decide⟩, rfl, List.mem_singleton_self _, by decide, by decide, by decide⟩

end Baker

end ShaderVariants
