import ShaderVariants.Config
import ShaderVariants.Proofs.Group.Draining

/-!
# Keys that decode, and what is wrong with the others

A key decodes when it has one value per group and no value sets a bit past the macros of its group.
What it decodes to is put together group by group, each part being the macros at the set bits in
ascending order. A key that does not decode has one fault (`KeyFault`), which is what is reported:
its length, and only in a key of the right length the first value with a bit past the macros, with
the lowest such bit (`defines_outcome`).

Decoding is one pass over the groups with their values (`activeIn_eq_mapM`), so its results and its
faults come from those of a single group.
-/

namespace ShaderVariants.MacroConfig

variable {groups : List MacroGroup} {values : List UInt32} {names : List String} {e : ConfigError}

/-- What is wrong with the values of a key. -/
inductive KeyFault (groups : List MacroGroup) (values : List UInt32) : ConfigError → Prop where
  | keyLength (hlength : values.length ≠ groups.length) :
      KeyFault groups values (.keyLength groups.length values.length)
  | bitOutOfRange {before after : List (MacroGroup × UInt32)} {g : MacroGroup} {value : UInt32}
      {bit : ℕ} (hlength : values.length = groups.length)
      (hsplit : groups.zip values = before ++ (g, value) :: after)
      (hbefore : ∀ entry ∈ before, entry.2.toNat < 2 ^ entry.1.macros.length)
      (hbit : g.LowestPast value bit) :
      KeyFault groups values (.bitOutOfRange g.name bit g.macros.length)

/-- Decoding is one pass over the groups with their values. -/
theorem activeIn_eq_mapM (groups : List MacroGroup) (values : List UInt32) :
    activeIn groups values =
      ((groups.zip values).mapM fun entry : MacroGroup × UInt32 =>
        entry.1.activeMacros entry.2).map List.flatten := by
  induction groups generalizing values with
  | nil => cases values <;> rfl
  | cons g gs ih =>
    cases values with
    | nil => rfl
    | cons value values =>
      rw [activeIn, ih, List.zip_cons_cons, List.mapM_cons]
      cases g.activeMacros value with
      | error e => rfl
      | ok active =>
        rw [Sequence.ok_bind, Sequence.ok_bind]
        cases (gs.zip values).mapM
          fun entry : MacroGroup × UInt32 => entry.1.activeMacros entry.2 <;> rfl

/-- Values decode to the parts of their groups, one after another. -/
theorem activeIn_eq_ok_iff :
    activeIn groups values = .ok names ↔
      ∃ parts, List.Forall₂ (fun entry part => entry.1.Lists entry.2 part) (groups.zip values)
        parts ∧ names = parts.flatten := by
  simp only [activeIn_eq_mapM, Sequence.map_eq_ok_iff, Sequence.mapM_eq_ok_iff,
    MacroGroup.activeMacros_eq_ok_iff, eq_comm (a := names)]

/-- Values decode when none sets a bit past the macros of its group. -/
theorem exists_activeIn_iff :
    (∃ names, activeIn groups values = .ok names) ↔
      ∀ entry ∈ groups.zip values, entry.2.toNat < 2 ^ entry.1.macros.length := by
  rw [activeIn_eq_mapM, Sequence.exists_map_iff, Sequence.exists_mapM_iff]
  exact forall₂_congr fun entry _ => MacroGroup.exists_activeMacros_iff

/-- Values that do not decode are reported by the first of them with a bit past the macros. -/
theorem activeIn_eq_error_iff (hlength : values.length = groups.length) :
    activeIn groups values = .error e ↔ KeyFault groups values e := by
  simp only [activeIn_eq_mapM, Sequence.map_eq_error_iff, Sequence.mapM_eq_error_iff,
    MacroGroup.exists_activeMacros_iff, MacroGroup.activeMacros_eq_error_iff]
  constructor
  · rintro ⟨before, ⟨g, value⟩, after, hsplit, hbefore, bit, hbit, rfl⟩
    exact .bitOutOfRange hlength hsplit hbefore hbit
  · intro h
    cases h with
    | keyLength hne => exact absurd hlength hne
    | bitOutOfRange _ hsplit hbefore hbit => exact ⟨_, _, _, hsplit, hbefore, _, hbit, rfl⟩

/-- **A key decodes exactly when it has one value per group and each value is below two to the
number of macros of its group**, and then to the macros at the set bits, group by group and in
ascending order of the bits, each once for its bit. Otherwise its length is reported if it is wrong,
else the first group whose value sets a bit past the macros, with the lowest such bit. The macros of
a group are also those found by taking the lowest bit off the value until none is left. -/
theorem defines_outcome (config : MacroConfig) (key : VariantKey) :
    ((∃ names, config.defines key = .ok names) ↔
      key.values.length = config.groups.length ∧
        ∀ entry ∈ config.groups.zip key.values, entry.2.toNat < 2 ^ entry.1.macros.length) ∧
    (∀ names, config.defines key = .ok names ↔
      key.values.length = config.groups.length ∧
        ∃ parts, List.Forall₂ (fun entry part => entry.1.Lists entry.2 part)
          (config.groups.zip key.values) parts ∧ names = parts.flatten) ∧
    (∀ e, config.defines key = .error e ↔ KeyFault config.groups key.values e) ∧
    ∀ (g : MacroGroup) (value : UInt32), g.activeMacros value = g.drain value [] := by
  have hdrain (g : MacroGroup) (value : UInt32) : g.activeMacros value = g.drain value [] := by
    rw [MacroGroup.drain_eq]
    cases g.activeMacros value <;> rfl
  by_cases hlength : key.values.length = config.groups.length
  · have hdefines : config.defines key = activeIn config.groups key.values :=
      if_neg (not_not_intro hlength)
    simp only [hdefines, hlength, true_and]
    exact ⟨exists_activeIn_iff, fun _ => activeIn_eq_ok_iff,
      fun _ => activeIn_eq_error_iff hlength, hdrain⟩
  · have hdefines : config.defines key =
        .error (.keyLength config.groups.length key.values.length) := if_pos hlength
    simp only [hdefines, hlength, false_and, reduceCtorEq, exists_false, implies_true,
      true_and]
    refine ⟨fun e => ⟨?_, ?_⟩, hdrain⟩
    · rintro ⟨⟩
      exact .keyLength hlength
    · intro h
      cases h with
      | keyLength => rfl
      | bitOutOfRange heq => exact absurd heq hlength

end ShaderVariants.MacroConfig
