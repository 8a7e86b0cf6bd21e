import ShaderVariants.Proofs.Config.Encoding

/-!
# Encoding as the inverse of decoding

Encoding turns a macro on in the last group that declares it, so it gives back every key that
decodes exactly when no two groups declare the same macro (`encode_defines_iff_disjoint`). The keys
in question are all that decode, the variants and others.

If groups share a macro, the key that turns it on in the earlier of them, and nothing else, is not
given back.
-/

namespace ShaderVariants.MacroConfig

/-- The values of the later groups do not depend on the groups before them. -/
theorem drop_valuesOf (active : List String) (before later : List MacroGroup) :
    (valuesOf active (before ++ later)).drop before.length = valuesOf active later := by
  induction before with
  | nil => rfl
  | cons g before ih => exact ih

/-- Encoding gives back values in range if no two of the groups declare the same macro. -/
theorem valuesOf_selectedIn {groups : List MacroGroup} (hvalid : ∀ g ∈ groups, g.Valid)
    (hdisjoint : groups.Pairwise fun g h => g.macros.Disjoint h.macros) {values : List UInt32}
    (hrange : InRange groups values) {active : List String}
    (hactive : ∀ g ∈ groups, ∀ name ∈ g.macros,
      (name ∈ active ↔ name ∈ selectedIn groups values)) :
    valuesOf active groups = values := by
  induction hrange with
  | nil => rfl
  | @cons g value gs values hvalue hrange ih =>
    obtain ⟨hfirst, hrest⟩ := List.pairwise_cons.1 hdisjoint
    have hgs : ∀ h ∈ gs, h.Valid := fun h hh => hvalid h (List.mem_cons_of_mem g hh)
    -- A macro of the first group is on there, and one of a later group is on later.
    have hhead : ∀ name ∈ g.macros, (name ∈ active ↔ name ∈ g.selected value) := by
      intro name hname
      rw [hactive g List.mem_cons_self name hname, selectedIn_cons, List.mem_append]
      refine or_iff_left fun hlater => ?_
      obtain ⟨h, hh, hmem⟩ := exists_group_of_mem_selectedIn hlater
      exact hfirst h hh hname hmem
    have htail : ∀ h ∈ gs, ∀ name ∈ h.macros, (name ∈ active ↔ name ∈ selectedIn gs values) := by
      intro h hh name hname
      rw [hactive h (List.mem_cons_of_mem g hh) name hname, selectedIn_cons, List.mem_append]
      exact or_iff_right fun hmem =>
        hfirst h hh (MacroGroup.mem_macros_of_mem_selected hmem) hname
    rw [valuesOf, ih hgs hrest htail]
    congr 1
    refine MacroGroup.mask_eq_of_selected (hvalid g List.mem_cons_self) hvalue fun name hname => ?_
    rw [decide_eq_true_eq, hhead name hname]
    exact and_iff_left fun h hh => hfirst h hh hname

/-- The key that turns on one macro of a group and nothing else is not given back if a later group
declares the macro. -/
theorem exists_encode_defines_ne {config : MacroConfig} {before later : List MacroGroup}
    {g h : MacroGroup} (hsplit : config.groups = before ++ g :: later) (hh : h ∈ later)
    {name : String} (hname : name ∈ g.macros) (hshared : name ∈ h.macros) :
    ∃ key names, config.defines key = .ok names ∧ config.encode names ≠ key := by
  have hg : g.Valid := config.valid g (by simp [hsplit])
  obtain ⟨value, hvalue, hselected⟩ := hg.exists_admits_only hname
  let zeros (groups : List MacroGroup) : List UInt32 := groups.map fun _ => 0
  have hzeros : ∀ groups, InRange groups (zeros groups) := by
    intro groups
    exact List.forall₂_map_right_iff.2 (List.forall₂_same.2 fun g _ => Nat.two_pow_pos g.size)
  have hrange : InRange config.groups (zeros before ++ value :: zeros later) := by
    rw [hsplit]
    exact List.rel_append (hzeros before) (.cons hvalue.lt (hzeros later))
  refine ⟨⟨zeros before ++ value :: zeros later⟩, _, defines_eq hrange, fun heq => ?_⟩
  -- Encoding leaves the macro off in this group, where the key has it on.
  have hvalues := congrArg (fun key => key.values.drop before.length) heq
  simp only [encode, hsplit, drop_valuesOf, valuesOf] at hvalues
  rw [show before.length = (zeros before).length from (List.length_map _).symm,
    List.drop_left] at hvalues
  have hmask := (List.cons.inj hvalues).1
  have hon : name ∈ g.selected value := (hselected name).2 rfl
  rw [← hmask, MacroGroup.mem_selected_mask_iff hg, decide_eq_true_eq] at hon
  exact hon.2.2 h hh hshared

/-- **Encoding undoes decoding, for every key that decodes, exactly when no two groups declare the
same macro.** -/
theorem encode_defines_iff_disjoint (config : MacroConfig) :
    (∀ key names, config.defines key = .ok names → config.encode names = key) ↔
      config.groups.Pairwise fun g h => g.macros.Disjoint h.macros := by
  constructor
  · intro hinverse
    rw [List.pairwise_iff_getElem]
    intro i j hi hj hij name hname hshared
    have hsplit : config.groups =
        config.groups.take i ++ config.groups[i] :: config.groups.drop (i + 1) := by
      rw [← List.drop_eq_getElem_cons hi, List.take_append_drop]
    have hlater : config.groups[j] ∈ config.groups.drop (i + 1) :=
      List.mem_drop_iff_getElem.2 ⟨j - (i + 1), by omega, by congr 1; omega⟩
    obtain ⟨key, names, hnames, hne⟩ := exists_encode_defines_ne hsplit hlater hname hshared
    exact hne (hinverse key names hnames)
  · intro hdisjoint key names hnames
    obtain ⟨hrange, rfl⟩ := defines_eq_ok_iff.1 hnames
    rw [encode, valuesOf_selectedIn config.valid hdisjoint hrange fun _ _ _ _ => Iff.rfl]

end ShaderVariants.MacroConfig
