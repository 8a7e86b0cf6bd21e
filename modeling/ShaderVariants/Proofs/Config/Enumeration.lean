import Mathlib.Data.List.Forall2
import ShaderVariants.Config
import ShaderVariants.Proofs.Group.Choices

/-!
# All variants, each once and in order

A key is a variant of a configuration when it has one value per group and each group admits its
value (`MacroConfig.IsVariant`). `enumerate` lists exactly the variants (`mem_enumerate_iff`), in
increasing order (`enumerate_sorted`) and hence each once, and as many as `variantCount` counts
(`length_enumerate`); `enumerate_spec` puts these together.

`selections` goes from group to group, and so do the proofs: each fact about the selections of some
groups comes from the same fact about the later ones and from the choices of the first.
-/

namespace ShaderVariants.MacroConfig

/-- The key has one value per group, which the group admits. -/
def IsVariant (config : MacroConfig) (key : VariantKey) : Prop :=
  List.Forall₂ MacroGroup.Admits config.groups key.values

/-- The selections of valid groups are the lists with an admitted value for each. -/
theorem mem_selections_iff {groups : List MacroGroup} (hvalid : ∀ g ∈ groups, g.Valid)
    {values : List UInt32} :
    values ∈ selections groups ↔ List.Forall₂ MacroGroup.Admits groups values := by
  induction groups generalizing values with
  | nil => simp [selections]
  | cons g gs ih =>
    have hg : g.Valid := hvalid g List.mem_cons_self
    have hgs : ∀ g ∈ gs, g.Valid := fun h hh => hvalid h (List.mem_cons_of_mem g hh)
    simp only [selections, List.mem_flatMap, List.mem_map, List.forall₂_cons_left_iff,
      MacroGroup.mem_choices_iff hg, ih hgs]
    constructor
    · rintro ⟨value, hvalue, rest, hrest, rfl⟩
      exact ⟨value, rest, hvalue, hrest, rfl⟩
    · rintro ⟨value, rest, hvalue, hrest, rfl⟩
      exact ⟨value, hvalue, rest, hrest, rfl⟩

/-- The selections of valid groups stand in lexicographic order: those with a smaller first value
come first, and those with the same first value are ordered by their rest. -/
theorem selections_sorted {groups : List MacroGroup} (hvalid : ∀ g ∈ groups, g.Valid) :
    (selections groups).Pairwise (· < ·) := by
  induction groups with
  | nil => exact List.pairwise_singleton _ _
  | cons g gs ih =>
    have hrest := ih fun h hh => hvalid h (List.mem_cons_of_mem g hh)
    rw [selections, List.pairwise_flatMap]
    -- Within one first value the rest decides, and between two the first values do.
    constructor
    · intro value _
      rw [List.pairwise_map]
      exact hrest.imp fun hlt => List.cons_lt_cons_iff.2 (.inr ⟨rfl, hlt⟩)
    · refine (MacroGroup.choices_sorted (hvalid g List.mem_cons_self)).imp ?_
      intro first second hlt x hx y hy
      obtain ⟨_, _, rfl⟩ := List.mem_map.1 hx
      obtain ⟨_, _, rfl⟩ := List.mem_map.1 hy
      exact List.cons_lt_cons_iff.2 (.inl hlt)

/-- There are as many selections as the product of the groups' counts says. -/
theorem length_selections (groups : List MacroGroup) :
    (selections groups).length = variantProduct groups := by
  induction groups with
  | nil => rfl
  | cons g gs ih =>
    rw [selections, variantProduct, List.length_flatMap, ← ih, ← MacroGroup.length_choices]
    simp [List.map_const']

/-- The keys that are listed are the variants. -/
theorem mem_enumerate_iff {config : MacroConfig} {key : VariantKey} :
    key ∈ config.enumerate ↔ config.IsVariant key := by
  unfold enumerate IsVariant
  rw [List.mem_map]
  constructor
  · rintro ⟨values, hvalues, rfl⟩
    exact (mem_selections_iff config.valid).1 hvalues
  · intro h
    exact ⟨key.values, (mem_selections_iff config.valid).2 h, rfl⟩

/-- The keys are listed in increasing order. -/
theorem enumerate_sorted (config : MacroConfig) : config.enumerate.Pairwise (· < ·) := by
  rw [enumerate, List.pairwise_map]
  exact selections_sorted config.valid

/-- No key is listed twice. -/
theorem enumerate_nodup (config : MacroConfig) : config.enumerate.Nodup := by
  refine config.enumerate_sorted.imp fun {a b} hlt heq => ?_
  subst heq
  exact List.lt_irrefl a.values hlt

/-- As many keys are listed as are counted. -/
theorem length_enumerate (config : MacroConfig) :
    config.enumerate.length = config.variantCount := by
  rw [enumerate, List.length_map, length_selections, variantCount]

/-- `enumerate` lists exactly the variants, each once, in increasing order with the first group
varying slowest, and `variantCount` is their number. -/
theorem enumerate_spec (config : MacroConfig) :
    (∀ key, key ∈ config.enumerate ↔ config.IsVariant key) ∧ config.enumerate.Nodup ∧
      config.enumerate.Pairwise (· < ·) ∧ config.enumerate.length = config.variantCount :=
  ⟨fun _ => mem_enumerate_iff, config.enumerate_nodup, config.enumerate_sorted,
    config.length_enumerate⟩

end ShaderVariants.MacroConfig
