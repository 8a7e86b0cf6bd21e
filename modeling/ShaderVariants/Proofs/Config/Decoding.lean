import Mathlib.Data.List.Forall2
import ShaderVariants.Proofs.Config.Enumeration
import ShaderVariants.Proofs.Group.Bits

/-!
# Decoding a key

A key whose values set no bits past the macros of their groups (`InRange`) decodes to the macros at
its set bits, group by group, and no other key decodes (`defines_eq_ok_iff`). Every variant is such
a key.
-/

namespace ShaderVariants.MacroConfig

/-- There is one value per group, and it sets no bit past the macros of the group. -/
def InRange (groups : List MacroGroup) (values : List UInt32) : Prop :=
  List.Forall₂ (fun g value => value.toNat < 2 ^ g.size) groups values

/-- The macros at the set bits of the values, group by group. -/
def selectedIn (groups : List MacroGroup) (values : List UInt32) : List String :=
  (List.zipWith MacroGroup.selected groups values).flatten

/-- Values in range decode to the macros at their set bits. -/
theorem activeIn_eq {groups : List MacroGroup} {values : List UInt32} (h : InRange groups values) :
    activeIn groups values = .ok (selectedIn groups values) := by
  induction h with
  | nil => rfl
  | cons hvalue _ ih =>
    rw [activeIn, MacroGroup.activeMacros_eq hvalue, ih]
    rfl

/-- A key in range decodes to the macros at its set bits. -/
theorem defines_eq {config : MacroConfig} {key : VariantKey}
    (h : InRange config.groups key.values) :
    config.defines key = .ok (selectedIn config.groups key.values) := by
  have hlength : key.length = config.groups.length := h.length_eq.symm
  rw [defines, if_neg (not_not_intro hlength), activeIn_eq h]

/-- Values that decode one by one are in range. -/
theorem inRange_of_activeIn {groups : List MacroGroup} {values : List UInt32} {names : List String}
    (hlength : values.length = groups.length) (h : activeIn groups values = .ok names) :
    InRange groups values := by
  induction groups generalizing values names with
  | nil =>
    rw [List.length_eq_zero_iff.1 hlength]
    exact .nil
  | cons g gs ih =>
    obtain ⟨value, rest, rfl⟩ := List.exists_cons_of_length_eq_add_one hlength
    rw [activeIn] at h
    obtain ⟨active, hactive, h⟩ := Sequence.bind_eq_ok_iff.1 h
    obtain ⟨later, hlater, -⟩ := Sequence.bind_eq_ok_iff.1 h
    exact .cons (MacroGroup.lt_of_activeMacros hactive) (ih (Nat.succ.inj hlength) hlater)

/-- A key decodes exactly when it is in range, and then to the macros at its set bits. -/
theorem defines_eq_ok_iff {config : MacroConfig} {key : VariantKey} {names : List String} :
    config.defines key = .ok names ↔
      InRange config.groups key.values ∧ names = selectedIn config.groups key.values := by
  constructor
  · intro h
    have hrange : InRange config.groups key.values := by
      unfold defines at h
      split at h
      · cases h
      · rename_i hlength
        exact inRange_of_activeIn (not_not.1 hlength) h
    exact ⟨hrange, Except.ok.inj (h.symm.trans (defines_eq hrange))⟩
  · rintro ⟨hrange, rfl⟩
    exact defines_eq hrange

/-- A variant is in range. -/
theorem IsVariant.inRange {config : MacroConfig} {key : VariantKey} (h : config.IsVariant key) :
    InRange config.groups key.values :=
  List.Forall₂.imp (fun _ _ => MacroGroup.Admits.lt) h

/-- Decoding goes part by part. -/
theorem selectedIn_append {before groups : List MacroGroup} {first values : List UInt32}
    (h : before.length = first.length) :
    selectedIn (before ++ groups) (first ++ values)
      = selectedIn before first ++ selectedIn groups values := by
  rw [selectedIn, List.zipWith_append h, List.flatten_append]
  rfl

/-- What the first group selects, and what the later ones do. -/
theorem selectedIn_cons (g : MacroGroup) (groups : List MacroGroup) (value : UInt32)
    (values : List UInt32) :
    selectedIn (g :: groups) (value :: values) = g.selected value ++ selectedIn groups values := rfl

/-- Only macros of the groups are selected. -/
theorem exists_group_of_mem_selectedIn {groups : List MacroGroup} {values : List UInt32}
    {name : String} (h : name ∈ selectedIn groups values) : ∃ g ∈ groups, name ∈ g.macros := by
  obtain ⟨names, hnames, hname⟩ := List.mem_flatten.1 h
  obtain ⟨i, hi, rfl⟩ := List.mem_iff_getElem.1 hnames
  rw [List.getElem_zipWith] at hname
  exact ⟨_, List.getElem_mem _, MacroGroup.mem_macros_of_mem_selected hname⟩

end ShaderVariants.MacroConfig
