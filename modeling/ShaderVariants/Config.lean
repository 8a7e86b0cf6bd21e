import ShaderVariants.Group
import ShaderVariants.Key

/-!
# Macro configurations

A configuration is a list of groups whose variants can all be enumerated: every group is valid and
the number of variants is a 64-bit count. `MacroConfig.ofGroups` accepts exactly such lists and
otherwise reports the first group that stands in the way.

`enumerate` lists the keys of all variants, `defines` decodes a key to the macros it turns on, and
`encode` finds the key of the variant for a set of macros. A macro that several groups declare
belongs to the last of them.
-/

namespace ShaderVariants

/-- The number of ways to choose a value in every group. -/
def variantProduct : List MacroGroup → Nat
  | [] => 1
  | g :: gs => g.variantCount * variantProduct gs

/-- The groups of a shader's macros in the order of a key's values. -/
structure MacroConfig where
  groups : List MacroGroup
  /-- Every group is valid. -/
  valid : ∀ g ∈ groups, g.Valid
  /-- The variants can be counted. -/
  countable : variantProduct groups < Checked.limit64

namespace MacroConfig

/-- The number of variants of `product` earlier choices continued by the groups, unless a group is
invalid or the number outgrows a 64-bit count: the loop of `new` from a group on. -/
def accept (product : Nat) : List MacroGroup → Except ConfigError Nat
  | [] => .ok product
  | g :: gs =>
    match g.fault? with
    | some e => .error e
    | none =>
      if product * g.variantCount < Checked.limit64 then accept (product * g.variantCount) gs
      else .error .tooManyVariants

/-- What is accepted from a countable start is valid and countable, and is counted. -/
theorem valid_of_accept {product count : Nat} {groups : List MacroGroup}
    (hp : product < Checked.limit64) (h : accept product groups = .ok count) :
    (∀ g ∈ groups, g.Valid) ∧ product * variantProduct groups = count ∧
      count < Checked.limit64 := by
  induction groups generalizing product with
  | nil =>
    cases h
    simpa [variantProduct] using hp
  | cons g gs ih =>
    unfold accept at h
    split at h
    · cases h
    · rename_i hg
      split at h
      · rename_i hlt
        obtain ⟨hv, hc, hb⟩ := ih hlt h
        refine ⟨?_, ?_, hb⟩
        · simpa [MacroGroup.fault?_eq_none_iff.1 hg] using hv
        · rw [← hc, variantProduct, Nat.mul_assoc]
      · cases h

/-- The configuration of a list of groups (`new`), or what is wrong with the first group at which
the list cannot be accepted. -/
def ofGroups (groups : List MacroGroup) : Except ConfigError MacroConfig :=
  match h : accept 1 groups with
  | .ok _ =>
    have hv := valid_of_accept (by decide) h
    .ok ⟨groups, hv.1, by omega⟩
  | .error e => .error e

/-- The number of variants (`variant_count`). -/
def variantCount (config : MacroConfig) : Nat :=
  variantProduct config.groups

/-- One value of each group, in every way, the first group varying slowest (`enumerate_groups`). -/
def selections : List MacroGroup → List (List UInt32)
  | [] => [[]]
  | g :: gs => g.choices.flatMap fun value => (selections gs).map (value :: ·)

/-- The keys of all variants (`enumerate`). -/
def enumerate (config : MacroConfig) : List VariantKey :=
  (selections config.groups).map VariantKey.mk

/-- The macros that a list of values turns on, group by group. -/
def activeIn : List MacroGroup → List UInt32 → Except ConfigError (List String)
  | g :: gs, value :: values => do
    let active ← g.activeMacros value
    let rest ← activeIn gs values
    return active ++ rest
  | _, _ => .ok []

/-- The macros to define for the variant of a key (`defines`), in group order. -/
def defines (config : MacroConfig) (key : VariantKey) : Except ConfigError (List String) :=
  if key.length ≠ config.groups.length then
    .error (.keyLength config.groups.length key.length)
  else activeIn config.groups key.values

/-- One value per group: the bits of the active macros of the group that no later group declares. -/
def valuesOf (active : List String) : List MacroGroup → List UInt32
  | [] => []
  | g :: gs =>
    g.mask (fun name => name ∈ active ∧ ∀ later ∈ gs, name ∉ later.macros)
      :: valuesOf active gs

/-- The key of the variant for a set of active macros (`encode`). Names that no group declares have
no bit. -/
def encode (config : MacroConfig) (active : List String) : VariantKey :=
  ⟨valuesOf active config.groups⟩

end MacroConfig

end ShaderVariants
