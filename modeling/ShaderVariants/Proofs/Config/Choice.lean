import ShaderVariants.Proofs.Config.Homes
import ShaderVariants.Proofs.Config.Inverse

/-!
# The variant of a set of macros

If no two groups declare the same macro, a set of macros makes a choice when every exclusive group
with macros has exactly one of its macros in the set (`Chooses`). The key of the set is then a
variant, and the only one that decodes to the declared macros of the set; if the set makes no
choice, its key is no variant (`encode_mem_enumerate_iff_chooses`).
-/

namespace ShaderVariants.MacroConfig

variable {config : MacroConfig} {active : List String}

/-- Every exclusive group with macros has exactly one of its macros in the set. -/
def Chooses (config : MacroConfig) (active : List String) : Prop :=
  ∀ g ∈ config.groups, g.kind = .exclusive → g.macros ≠ [] →
    ∃! name, name ∈ g.macros ∧ name ∈ active

/-- The key decodes to the declared macros of the set. -/
def DecodesTo (config : MacroConfig) (key : VariantKey) (active : List String) : Prop :=
  ∃ names, config.defines key = .ok names ∧
    ∀ name, name ∈ names ↔ config.Declares name ∧ name ∈ active

/-- The key of a set decodes to the declared macros of the set. -/
theorem decodesTo_encode (config : MacroConfig) (active : List String) :
    config.DecodesTo (config.encode active) active :=
  ⟨_, defines_encode config active,
    fun _ => (mem_selectedIn_valuesOf_iff config.valid).trans and_comm⟩

/-- A macro of a group is turned on there whenever it is active, if no later group declares it. -/
theorem turnsOn_iff {before later : List MacroGroup} {g : MacroGroup} {name : String}
    (hdisjoint : (before ++ g :: later).Pairwise fun g h => g.macros.Disjoint h.macros)
    (hname : name ∈ g.macros) : turnsOn active later name ↔ name ∈ active := by
  have hlater : ∀ h ∈ later, g.macros.Disjoint h.macros :=
    (List.pairwise_cons.1 (List.pairwise_append.1 hdisjoint).2.1).1
  exact and_iff_left fun h hh hmem => hlater h hh hname hmem

/-- A set is encoded as a variant exactly when it makes a choice. -/
theorem encode_mem_iff_chooses
    (hdisjoint : config.groups.Pairwise fun g h => g.macros.Disjoint h.macros) :
    config.encode active ∈ config.enumerate ↔ config.Chooses active := by
  have hgroup : ∀ {before g later}, config.groups = before ++ g :: later →
      ((∃! name, name ∈ g.macros ∧ turnsOn active later name) ↔
        ∃! name, name ∈ g.macros ∧ name ∈ active) := by
    intro before g later hsplit
    refine existsUnique_congr fun name => and_congr_right fun hname => ?_
    exact turnsOn_iff (hsplit ▸ hdisjoint) hname
  rw [encode_mem_enumerate_iff]
  constructor
  · intro h g hg hkind hne
    obtain ⟨before, later, hsplit⟩ := List.append_of_mem hg
    exact (hgroup hsplit).1 (h before g later hsplit hkind hne)
  · intro h before g later hsplit hkind hne
    exact (hgroup hsplit).2 (h g (by simp [hsplit]) hkind hne)

/-- Only the key of the set decodes to its declared macros. -/
theorem eq_encode_of_decodesTo
    (hdisjoint : config.groups.Pairwise fun g h => g.macros.Disjoint h.macros) {key : VariantKey}
    (h : config.DecodesTo key active) : key = config.encode active := by
  obtain ⟨names, hnames, hmem⟩ := h
  obtain ⟨hrange, rfl⟩ := defines_eq_ok_iff.1 hnames
  have hvalues : valuesOf active config.groups = key.values := by
    refine valuesOf_selectedIn config.valid hdisjoint hrange fun g hg name hname => ?_
    rw [hmem]
    exact (and_iff_right ⟨g, hg, hname⟩).symm
  rw [encode, hvalues]

/-- **A set of macros is encoded as a variant exactly when it chooses one macro of every exclusive
group with macros**, provided that no two groups declare the same macro. Its key is then the only
variant that decodes to the declared macros of the set. -/
theorem encode_mem_enumerate_iff_chooses (config : MacroConfig)
    (hdisjoint : config.groups.Pairwise fun g h => g.macros.Disjoint h.macros)
    (active : List String) :
    (config.encode active ∈ config.enumerate ↔ config.Chooses active) ∧
      (config.encode active ∈ config.enumerate → ∀ key,
        key ∈ config.enumerate ∧ config.DecodesTo key active ↔ key = config.encode active) := by
  refine ⟨encode_mem_iff_chooses hdisjoint, fun hvariant key => ⟨?_, ?_⟩⟩
  · rintro ⟨-, hkey⟩
    exact eq_encode_of_decodesTo hdisjoint hkey
  · rintro rfl
    exact ⟨hvariant, decodesTo_encode config active⟩

/-- A switch and an exclusive group of three macros, and no macro in both. -/
def switchAndQuality : MacroConfig where
  groups := [⟨"S", .independent, ["FOG"]⟩, ⟨"Q", .exclusive, ["LOW", "MID", "HIGH"]⟩]
  valid := by simp [MacroGroup.Valid, MacroGroup.size, MacroGroup.maxSize]
  countable := by decide

/-- One quality, named twice beside an unknown macro, is a choice, and its key is a variant that no
other one shares its macros with; two qualities are none. -/
theorem encode_mem_enumerate_iff_chooses_quality :
    (switchAndQuality.groups.Pairwise fun g h => g.macros.Disjoint h.macros) ∧
      switchAndQuality.encode ["MID", "NONE", "FOG", "MID"] = ⟨[1, 2]⟩ ∧
      switchAndQuality.Chooses ["MID", "NONE", "FOG", "MID"] ∧
      (∀ key, key ∈ switchAndQuality.enumerate ∧
        switchAndQuality.DecodesTo key ["MID", "NONE", "FOG", "MID"] ↔ key = ⟨[1, 2]⟩) ∧
      ¬switchAndQuality.Chooses ["MID", "HIGH"] := by
  have hdisjoint : switchAndQuality.groups.Pairwise fun g h => g.macros.Disjoint h.macros := by
    simp [switchAndQuality, List.Disjoint]
  have hkey : switchAndQuality.encode ["MID", "NONE", "FOG", "MID"] = ⟨[1, 2]⟩ := by decide
  have hvariant : (⟨[1, 2]⟩ : VariantKey) ∈ switchAndQuality.enumerate := by decide
  have hone := encode_mem_enumerate_iff_chooses switchAndQuality hdisjoint
    ["MID", "NONE", "FOG", "MID"]
  have htwo := encode_mem_enumerate_iff_chooses switchAndQuality hdisjoint ["MID", "HIGH"]
  rw [hkey] at hone
  refine ⟨hdisjoint, hkey, hone.1.1 hvariant, hone.2 hvariant, fun h => ?_⟩
  have hnot : switchAndQuality.encode ["MID", "HIGH"] ∉ switchAndQuality.enumerate := by decide
  exact hnot (htwo.1.2 h)

end ShaderVariants.MacroConfig
