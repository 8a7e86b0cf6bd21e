import Mathlib.Algebra.BigOperators.Group.List.Basic
import ShaderVariants.Config
import ShaderVariants.Proofs.Sequence

/-!
# Which groups make a configuration

Groups make a configuration when each of them is valid and the product of their counts is a 64-bit
count. `accept` looks at one group after another and multiplies as it goes, so what it reports is
the first obstacle (`accept_eq_error_iff`): a group with something wrong in itself, or one whose
count takes the product too far. Every count is at least one, so a product that is small enough in
the end was so all along, and the number of variants is counted without overflow
(`checkedProduct_groups`).
-/

namespace ShaderVariants

namespace Checked

/-- The product of two counts. -/
def mul64 (a b : ℕ) : Except Overflow ℕ :=
  if a * b < limit64 then .ok (a * b) else .error ⟨⟩

/-- A product that fits is the product of the numbers. -/
theorem mul64_of_lt {a b : ℕ} (h : a * b < limit64) : mul64 a b = .ok (a * b) :=
  if_pos h

/-- A power that fits is the power of two. -/
theorem pow64_of_lt {n : ℕ} (h : n < 64) : pow64 n = .ok (2 ^ n) :=
  if_pos h

end Checked

namespace MacroGroup

variable {g : MacroGroup} {names : List String} {name : String}

/-! ## Repeats -/

/-- The first name that repeats one before it, or one that was seen before all. -/
theorem go_eq_some_iff {seen : List String} :
    firstRepeat.go seen names = some name ↔
      ∃ before after, names = before ++ name :: after ∧ before.Nodup ∧
        (∀ n ∈ before, n ∉ seen) ∧ (name ∈ before ∨ name ∈ seen) := by
  induction names generalizing seen with
  | nil => simp [firstRepeat.go]
  | cons n rest ih =>
    rw [firstRepeat.go]
    split
    · rename_i hseen
      constructor
      · intro h
        cases h
        exact ⟨[], rest, rfl, List.nodup_nil, List.forall_mem_nil _, .inr hseen⟩
      · rintro ⟨before, after, hsplit, -, hfresh, -⟩
        -- A name that was seen is no part of what comes before the repeat.
        cases before with
        | nil =>
          cases hsplit
          rfl
        | cons m before =>
          cases hsplit
          exact absurd hseen (hfresh _ List.mem_cons_self)
    · rename_i hseen
      rw [ih]
      constructor
      · rintro ⟨before, after, rfl, hnodup, hfresh, hrepeat⟩
        refine ⟨n :: before, after, rfl, List.nodup_cons.2 ⟨fun hn => ?_, hnodup⟩, ?_, ?_⟩
        · exact hfresh n hn List.mem_cons_self
        · exact List.forall_mem_cons.2
            ⟨hseen, fun m hm hms => hfresh m hm (List.mem_cons_of_mem n hms)⟩
        · simpa [List.mem_cons, or_assoc, or_left_comm] using hrepeat
      · rintro ⟨before, after, hsplit, hnodup, hfresh, hrepeat⟩
        cases before with
        | nil =>
          cases hsplit
          exact absurd hrepeat (not_or.2 ⟨List.not_mem_nil, hseen⟩)
        | cons m before =>
          cases hsplit
          rw [List.nodup_cons] at hnodup
          refine ⟨before, after, rfl, hnodup.2, fun m hm hms => ?_, ?_⟩
          · rcases List.mem_cons.1 hms with rfl | hms
            · exact hnodup.1 hm
            · exact hfresh m (List.mem_cons_of_mem _ hm) hms
          · simpa [List.mem_cons, or_assoc, or_left_comm] using hrepeat

/-- The first repeat of a list is the first name equal to an earlier one. -/
theorem firstRepeat_eq_some_iff :
    firstRepeat names = some name ↔
      ∃ before after, names = before ++ name :: after ∧ before.Nodup ∧ name ∈ before := by
  simp [firstRepeat, go_eq_some_iff]

/-! ## Counts -/

/-- A group has at least one choice. -/
theorem variantCount_pos (g : MacroGroup) : 0 < g.variantCount := by
  unfold variantCount
  split
  · exact Nat.two_pow_pos _
  · exact Nat.lt_of_lt_of_le Nat.one_pos (Nat.le_max_right _ _)

/-- The choices of a valid group are counted without overflow. -/
theorem Valid.checkedCount_eq (h : g.Valid) : g.checkedCount = .ok g.variantCount := by
  have hsize : g.size < 64 := Nat.lt_of_le_of_lt h.1 (by decide)
  unfold checkedCount variantCount
  cases g.kind with
  | independent => exact Checked.pow64_of_lt hsize
  | exclusive => rfl

/-! ## Obstacles -/

/-- What stands in the way of a group that follows groups with `product` variants: too many macros,
else the first macro that is declared a second time, else too many variants. -/
inductive Obstacle (product : ℕ) (g : MacroGroup) : ConfigError → Prop where
  | tooLarge (hsize : 31 < g.macros.length) :
      Obstacle product g (.groupTooLarge g.name g.macros.length)
  | duplicate {before after : List String} {name : String} (hsize : g.macros.length ≤ 31)
      (hmacros : g.macros = before ++ name :: after) (hnodup : before.Nodup)
      (hrepeat : name ∈ before) : Obstacle product g (.duplicateMacro g.name name)
  | tooMany (hsize : g.macros.length ≤ 31) (hnodup : g.macros.Nodup)
      (hcount : 2 ^ 64 ≤ product * g.variantCount) : Obstacle product g .tooManyVariants

/-- The fault of a group is what stands in its way in itself. -/
theorem fault?_eq_some_iff {e : ConfigError} :
    g.fault? = some e ↔
      31 < g.macros.length ∧ e = .groupTooLarge g.name g.macros.length ∨
      g.macros.length ≤ 31 ∧ ∃ before name after, g.macros = before ++ name :: after ∧
        before.Nodup ∧ name ∈ before ∧ e = .duplicateMacro g.name name := by
  unfold fault? maxSize size
  split
  · rename_i hlarge
    constructor
    · intro h
      cases h
      exact .inl ⟨hlarge, rfl⟩
    · rintro (⟨-, rfl⟩ | ⟨hsize, -⟩)
      · rfl
      · omega
  · rename_i hsize
    rw [Option.map_eq_some_iff]
    constructor
    · rintro ⟨name, hname, rfl⟩
      obtain ⟨before, after, hmacros, hnodup, hmem⟩ := firstRepeat_eq_some_iff.1 hname
      exact .inr ⟨by omega, before, name, after, hmacros, hnodup, hmem, rfl⟩
    · rintro (⟨hlarge, -⟩ | ⟨-, before, name, after, hmacros, hnodup, hmem, rfl⟩)
      · exact absurd hlarge hsize
      · exact ⟨name, firstRepeat_eq_some_iff.2 ⟨before, after, hmacros, hnodup, hmem⟩, rfl⟩

/-- An obstacle is a fault of the group, or the group has none and its count goes too far. -/
theorem obstacle_iff {product : ℕ} {e : ConfigError} :
    g.Obstacle product e ↔
      g.fault? = some e ∨
        g.Valid ∧ Checked.limit64 ≤ product * g.variantCount ∧ e = .tooManyVariants := by
  rw [fault?_eq_some_iff]
  constructor
  · intro h
    cases h with
    | tooLarge hsize => exact .inl (.inl ⟨hsize, rfl⟩)
    | duplicate hsize hmacros hnodup hrepeat =>
      exact .inl (.inr ⟨hsize, _, _, _, hmacros, hnodup, hrepeat, rfl⟩)
    | tooMany hsize hnodup hcount => exact .inr ⟨⟨hsize, hnodup⟩, hcount, rfl⟩
  · rintro ((⟨hsize, rfl⟩ | ⟨hsize, _, _, _, hmacros, hnodup, hrepeat, rfl⟩) |
      ⟨hvalid, hcount, rfl⟩)
    · exact .tooLarge hsize
    · exact .duplicate hsize hmacros hnodup hrepeat
    · exact .tooMany hvalid.1 hvalid.2 hcount

end MacroGroup

/-- The number of variants of some groups is the product of their counts. -/
theorem variantProduct_eq_prod (groups : List MacroGroup) :
    variantProduct groups = (groups.map MacroGroup.variantCount).prod := by
  induction groups with
  | nil => rfl
  | cons g gs ih => rw [variantProduct, ih, List.map_cons, List.prod_cons]

/-- Some groups have at least one variant. -/
theorem variantProduct_pos (groups : List MacroGroup) : 0 < variantProduct groups := by
  induction groups with
  | nil => exact Nat.one_pos
  | cons g gs ih => exact Nat.mul_pos g.variantCount_pos ih

namespace MacroConfig

variable {groups : List MacroGroup} {product : ℕ} {e : ConfigError}

/-! ## Acceptance -/

/-- A product is small enough if it is after more groups. -/
theorem mul_variantCount_lt {g : MacroGroup} {gs : List MacroGroup}
    (h : product * variantProduct (g :: gs) < Checked.limit64) :
    product * g.variantCount < Checked.limit64 := by
  refine Nat.lt_of_le_of_lt ?_ h
  rw [variantProduct, ← Nat.mul_assoc]
  exact Nat.le_mul_of_pos_right _ (variantProduct_pos gs)

/-- Valid groups whose product stays small enough are accepted. -/
theorem accept_eq_ok (hvalid : ∀ g ∈ groups, g.Valid)
    (hcount : product * variantProduct groups < Checked.limit64) :
    accept product groups = .ok (product * variantProduct groups) := by
  induction groups generalizing product with
  | nil => rw [accept, variantProduct, Nat.mul_one]
  | cons g gs ih =>
    have hg : g.fault? = none := MacroGroup.fault?_eq_none_iff.2 (hvalid g List.mem_cons_self)
    have hgs : ∀ g ∈ gs, g.Valid := fun h hh => hvalid h (List.mem_cons_of_mem g hh)
    have hlt : product * g.variantCount < Checked.limit64 := mul_variantCount_lt hcount
    rw [variantProduct, ← Nat.mul_assoc] at hcount ⊢
    rw [accept, hg]
    dsimp only
    rw [if_pos hlt]
    exact ih hgs hcount

/-- A group either stands in the way, or is valid and leaves room for the groups after it. -/
theorem accept_cons_eq_error_iff {g : MacroGroup} {gs : List MacroGroup} :
    accept product (g :: gs) = .error e ↔
      g.Obstacle product e ∨
        g.Valid ∧ product * g.variantCount < Checked.limit64 ∧
          accept (product * g.variantCount) gs = .error e := by
  rw [MacroGroup.obstacle_iff, ← MacroGroup.fault?_eq_none_iff, accept]
  cases g.fault? with
  | some e' => simp
  | none =>
    dsimp only
    split
    · rename_i hlt
      simp [hlt, Nat.not_le.2 hlt]
    · rename_i hlarge
      simp [hlarge, Nat.not_lt.1 hlarge, eq_comm]

/-- What is reported is the first obstacle: the groups before it are valid, and their product is
small enough. -/
theorem accept_eq_error_iff (hp : product < Checked.limit64) :
    accept product groups = .error e ↔
      ∃ before g after, groups = before ++ g :: after ∧ (∀ h ∈ before, h.Valid) ∧
        product * variantProduct before < Checked.limit64 ∧
        g.Obstacle (product * variantProduct before) e := by
  induction groups generalizing product with
  | nil => simp [accept]
  | cons g gs ih =>
    rw [accept_cons_eq_error_iff]
    constructor
    · rintro (hobstacle | ⟨hvalid, hlt, hrest⟩)
      · rw [← Nat.mul_one product] at hp hobstacle
        exact ⟨[], g, gs, rfl, List.forall_mem_nil _, hp, hobstacle⟩
      · obtain ⟨before, g', after, rfl, hbefore, hcount, hobstacle⟩ := (ih hlt).1 hrest
        rw [Nat.mul_assoc] at hcount hobstacle
        exact ⟨g :: before, g', after, rfl, List.forall_mem_cons.2 ⟨hvalid, hbefore⟩, hcount,
          hobstacle⟩
    · rintro ⟨before, g', after, hsplit, hbefore, hcount, hobstacle⟩
      cases before with
      | nil =>
        cases hsplit
        rw [variantProduct, Nat.mul_one] at hobstacle
        exact .inl hobstacle
      | cons g'' before =>
        cases hsplit
        obtain ⟨hvalid, hbefore⟩ := List.forall_mem_cons.1 hbefore
        have hlt : product * g.variantCount < Checked.limit64 := mul_variantCount_lt hcount
        rw [variantProduct, ← Nat.mul_assoc] at hcount hobstacle
        exact .inr ⟨hvalid, hlt, (ih hlt).2 ⟨before, g', after, rfl, hbefore, hcount, hobstacle⟩⟩

/-- A list of groups makes the configuration of these groups or none. -/
theorem ofGroups_eq_ok_iff {config : MacroConfig} :
    ofGroups groups = .ok config ↔ config.groups = groups := by
  unfold ofGroups
  split
  · rw [Except.ok.injEq]
    constructor
    · rintro rfl
      rfl
    · rintro rfl
      rfl
  · rename_i e haccept
    constructor
    · intro h
      cases h
    · rintro rfl
      have hcount : 1 * variantProduct config.groups < Checked.limit64 := by
        rw [Nat.one_mul]
        exact config.countable
      cases haccept.symm.trans (accept_eq_ok config.valid hcount)

/-- The groups that make no configuration are those that are not accepted. -/
theorem ofGroups_eq_error_iff : ofGroups groups = .error e ↔ accept 1 groups = .error e := by
  unfold ofGroups
  split
  · rename_i haccept
    constructor
    · intro h
      cases h
    · intro h
      cases haccept.symm.trans h
  · rename_i haccept
    rw [haccept, Except.error.injEq, Except.error.injEq]

/-! ## Counting variants -/

/-- The product of the groups' counts in 64-bit arithmetic, from the first group on. -/
def checkedProduct (groups : List MacroGroup) : Except Overflow ℕ :=
  groups.foldlM (fun count g => do Checked.mul64 count (← g.checkedCount)) 1

/-- The product of valid groups is taken without overflow if it is small enough in the end. -/
theorem foldlM_mul64 (hvalid : ∀ g ∈ groups, g.Valid)
    (hcount : product * variantProduct groups < Checked.limit64) :
    groups.foldlM (fun count g => do Checked.mul64 count (← g.checkedCount)) product =
      .ok (product * variantProduct groups) := by
  induction groups generalizing product with
  | nil => rw [List.foldlM_nil, variantProduct, Nat.mul_one]; rfl
  | cons g gs ih =>
    have hgs : ∀ g ∈ gs, g.Valid := fun h hh => hvalid h (List.mem_cons_of_mem g hh)
    have hlt : product * g.variantCount < Checked.limit64 := mul_variantCount_lt hcount
    rw [List.foldlM_cons, (hvalid g List.mem_cons_self).checkedCount_eq, Sequence.ok_bind,
      Checked.mul64_of_lt hlt, Sequence.ok_bind]
    rw [variantProduct, ← Nat.mul_assoc] at hcount ⊢
    exact ih hgs hcount

/-- The variants of a configuration are counted without overflow. -/
theorem checkedProduct_groups (config : MacroConfig) :
    checkedProduct config.groups = .ok config.variantCount := by
  have hcount : 1 * variantProduct config.groups < Checked.limit64 := by
    rw [Nat.one_mul]
    exact config.countable
  rw [checkedProduct, foldlM_mul64 config.valid hcount, Nat.one_mul, variantCount]

/-- **Groups make a configuration exactly when each is valid and their variants can be counted.**
Otherwise the first group that stands in the way is reported, with what is wrong with it: its size,
else the first macro that it declares again, else that it brings the number of variants to `2 ^ 64`.
The number of variants of a configuration is the product of the counts of its groups, and is counted
without overflow. -/
theorem ofGroups_spec (groups : List MacroGroup) :
    ((∃ config, ofGroups groups = .ok config) ↔
      (∀ g ∈ groups, g.macros.length ≤ 31 ∧ g.macros.Nodup) ∧
        (groups.map MacroGroup.variantCount).prod < 2 ^ 64) ∧
    (∀ e, ofGroups groups = .error e ↔
      ∃ before g after, groups = before ++ g :: after ∧
        (∀ h ∈ before, h.macros.length ≤ 31 ∧ h.macros.Nodup) ∧
        (before.map MacroGroup.variantCount).prod < 2 ^ 64 ∧
        g.Obstacle (before.map MacroGroup.variantCount).prod e) ∧
    ∀ config, ofGroups groups = .ok config ↔
      config.groups = groups ∧
        config.variantCount = (groups.map MacroGroup.variantCount).prod ∧
        checkedProduct groups = .ok config.variantCount := by
  refine ⟨?_, fun e => ?_, fun config => ?_⟩
  · constructor
    · rintro ⟨config, hconfig⟩
      obtain rfl := ofGroups_eq_ok_iff.1 hconfig
      exact ⟨config.valid, variantProduct_eq_prod _ ▸ config.countable⟩
    · rintro ⟨hvalid, hcount⟩
      exact ⟨⟨groups, hvalid, variantProduct_eq_prod _ ▸ hcount⟩, ofGroups_eq_ok_iff.2 rfl⟩
  · rw [ofGroups_eq_error_iff, accept_eq_error_iff (by decide)]
    simp only [Nat.one_mul, variantProduct_eq_prod]
    exact Iff.rfl
  · rw [ofGroups_eq_ok_iff]
    constructor
    · rintro rfl
      exact ⟨rfl, variantProduct_eq_prod _, checkedProduct_groups config⟩
    · exact fun h => h.1

end MacroConfig

end ShaderVariants
