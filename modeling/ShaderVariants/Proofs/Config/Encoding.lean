import ShaderVariants.Proofs.Config.Decoding

/-!
# Encoding a set of macros

`encode` turns on each active macro in the last group that declares it. The key is in range, so it
decodes (`defines_encode`), and to the active macros that some group declares
(`mem_selectedIn_valuesOf_iff`). It is a variant exactly when every exclusive group with macros has
exactly one active macro that no later group declares (`encode_mem_enumerate_iff`).
-/

namespace ShaderVariants.MacroConfig

/-- The macros of a group that the active ones turn on there: no later group declares them. -/
def turnsOn (active : List String) (later : List MacroGroup) (name : String) : Prop :=
  name ∈ active ∧ ∀ g ∈ later, name ∉ g.macros

/-- The encoded values are in range. -/
theorem inRange_valuesOf {groups : List MacroGroup} (hvalid : ∀ g ∈ groups, g.Valid)
    (active : List String) : InRange groups (valuesOf active groups) := by
  induction groups with
  | nil => exact .nil
  | cons g gs ih =>
    exact .cons (MacroGroup.mask_lt (hvalid g List.mem_cons_self) _)
      (ih fun h hh => hvalid h (List.mem_cons_of_mem g hh))

/-- The encoded values select the active macros that some group declares. -/
theorem mem_selectedIn_valuesOf_iff {groups : List MacroGroup} (hvalid : ∀ g ∈ groups, g.Valid)
    {active : List String} {name : String} :
    name ∈ selectedIn groups (valuesOf active groups) ↔
      name ∈ active ∧ ∃ g ∈ groups, name ∈ g.macros := by
  induction groups with
  | nil => simp [selectedIn]
  | cons g gs ih =>
    have hrest := ih fun h hh => hvalid h (List.mem_cons_of_mem g hh)
    rw [valuesOf, selectedIn_cons, List.mem_append, hrest,
      MacroGroup.mem_selected_mask_iff (hvalid g List.mem_cons_self), decide_eq_true_eq]
    constructor
    · rintro (⟨hmem, hactive, -⟩ | ⟨hactive, h, hh, hmem⟩)
      · exact ⟨hactive, g, List.mem_cons_self, hmem⟩
      · exact ⟨hactive, h, List.mem_cons_of_mem g hh, hmem⟩
    · rintro ⟨hactive, h, hh, hmem⟩
      -- The macro belongs to `g` unless a later group declares it too.
      by_cases hlater : ∃ h ∈ gs, name ∈ h.macros
      · exact .inr ⟨hactive, hlater⟩
      · have hnot : ∀ h ∈ gs, name ∉ h.macros := fun h hh hmem => hlater ⟨h, hh, hmem⟩
        rcases List.mem_cons.1 hh with rfl | hgs
        · exact .inl ⟨hmem, hactive, hnot⟩
        · exact absurd hmem (hnot h hgs)

/-- The encoded values are admitted when every exclusive group with macros has exactly one that is
turned on there. -/
theorem admits_valuesOf_iff {groups : List MacroGroup} (hvalid : ∀ g ∈ groups, g.Valid)
    {active : List String} :
    List.Forall₂ MacroGroup.Admits groups (valuesOf active groups) ↔
      ∀ before g later, groups = before ++ g :: later → g.kind = .exclusive → g.macros ≠ [] →
        ∃! name, name ∈ g.macros ∧ turnsOn active later name := by
  induction groups with
  | nil => simp [valuesOf]
  | cons g gs ih =>
    have hrest := ih fun h hh => hvalid h (List.mem_cons_of_mem g hh)
    rw [valuesOf, List.forall₂_cons, hrest,
      MacroGroup.admits_mask_iff (hvalid g List.mem_cons_self)]
    simp only [decide_eq_true_eq]
    constructor
    -- The list is split at its first group, or among the later ones.
    · rintro ⟨hhead, htail⟩ before h later heq
      rcases List.cons_eq_append_iff.1 heq with ⟨rfl, hfirst⟩ | ⟨between, rfl, hsplit⟩
      · cases hfirst
        exact hhead
      · exact htail between h later hsplit
    · intro h
      exact ⟨h [] g gs rfl, fun before k later heq =>
        h (g :: before) k later (congrArg (g :: ·) heq)⟩

/-- The key of a set of macros decodes. -/
theorem defines_encode (config : MacroConfig) (active : List String) :
    config.defines (config.encode active)
      = .ok (selectedIn config.groups (valuesOf active config.groups)) :=
  defines_eq (inRange_valuesOf config.valid active)

/-- The key of a set of macros is a variant when every exclusive group with macros has exactly one
that is turned on there. -/
theorem encode_mem_enumerate_iff {config : MacroConfig} {active : List String} :
    config.encode active ∈ config.enumerate ↔
      ∀ before g later, config.groups = before ++ g :: later → g.kind = .exclusive →
        g.macros ≠ [] → ∃! name, name ∈ g.macros ∧ turnsOn active later name :=
  mem_enumerate_iff.trans (admits_valuesOf_iff config.valid)

end ShaderVariants.MacroConfig
