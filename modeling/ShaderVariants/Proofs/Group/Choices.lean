import ShaderVariants.Group
import ShaderVariants.Proofs.Sequence
import ShaderVariants.Proofs.Word

/-!
# The choices of a group

`Admits` says which values a group can have in a key, by its kind and size. `choices` lists exactly
these values (`mem_choices_iff`), in increasing order (`choices_sorted`), and as many as are counted
(`length_choices`). In checked arithmetic the same list comes out (`checkedValues_toList`), so for a
group of at most `maxSize` macros nothing on the way to it overflows.
-/

namespace ShaderVariants.MacroGroup

/-- The values that a group can have in a key: any subset of an independent group, one macro of an
exclusive group, and nothing of a group without macros. -/
def Admits (g : MacroGroup) (value : UInt32) : Prop :=
  match g.kind with
  | .independent => value.toNat < 2 ^ g.size
  | .exclusive => if g.size = 0 then value = 0 else ∃ bit < g.size, value.toNat = 2 ^ bit

/-- A valid group has fewer macros than a word has bits. -/
theorem Valid.size_lt {g : MacroGroup} (h : g.Valid) : g.size < 32 :=
  Nat.lt_succ_of_le h.1

/-- The numbers below a power of two of at most 31, as words and back. -/
theorem toNat_ofNat_of_lt_two_pow {n v : ℕ} (hn : n < 32) (hv : v < 2 ^ n) :
    (UInt32.ofNat v).toNat = v :=
  UInt32.toNat_ofNat_of_lt' (Nat.lt_trans hv (Nat.pow_lt_pow_right (by decide) hn))

/-- The choices are the admitted values. -/
theorem mem_choices_iff {g : MacroGroup} (hg : g.Valid) {value : UInt32} :
    value ∈ g.choices ↔ g.Admits value := by
  have hsize := hg.size_lt
  unfold choices Admits
  cases g.kind with
  | independent =>
    -- The numbers below the bound fit a word, so none of them wraps around.
    simp only [List.mem_map, List.mem_range, Nat.pow_eq]
    constructor
    · rintro ⟨v, hv, rfl⟩
      rwa [toNat_ofNat_of_lt_two_pow hsize hv]
    · intro hv
      exact ⟨value.toNat, hv, UInt32.ofNat_toNat⟩
  | exclusive =>
    dsimp only
    split
    · simp
    · simp only [List.mem_map, List.mem_range]
      constructor
      · rintro ⟨bit, hbit, rfl⟩
        exact ⟨bit, hbit, Word.toNat_shiftLeft_one (Nat.lt_trans hbit hsize)⟩
      · rintro ⟨bit, hbit, hv⟩
        refine ⟨bit, hbit, UInt32.toNat_inj.1 ?_⟩
        rw [hv, Word.toNat_shiftLeft_one (Nat.lt_trans hbit hsize)]

/-- Numbers that grow with their place stay in order as words. -/
theorem sorted_map_range {n : ℕ} {f : ℕ → UInt32} {p : ℕ → ℕ} (hf : ∀ i < n, (f i).toNat = p i)
    (hp : ∀ i j, i < j → p i < p j) : ((List.range n).map f).Pairwise (· < ·) := by
  rw [List.pairwise_map]
  refine List.Pairwise.imp_of_mem ?_ List.pairwise_lt_range
  intro i j hi hj hij
  rw [UInt32.lt_iff_toNat_lt, hf i (List.mem_range.1 hi), hf j (List.mem_range.1 hj)]
  exact hp i j hij

/-- The choices stand in increasing order, each once. -/
theorem choices_sorted {g : MacroGroup} (hg : g.Valid) : g.choices.Pairwise (· < ·) := by
  have hsize := hg.size_lt
  unfold choices
  cases g.kind with
  | independent =>
    exact sorted_map_range (fun _ hv => toNat_ofNat_of_lt_two_pow hsize hv) fun _ _ => id
  | exclusive =>
    dsimp only
    split
    · exact List.pairwise_singleton _ _
    · exact sorted_map_range
        (fun _ hbit => Word.toNat_shiftLeft_one (Nat.lt_trans hbit hsize))
        fun _ _ => Nat.pow_lt_pow_right (by decide)

/-- There are as many choices as are counted. -/
theorem length_choices (g : MacroGroup) : g.choices.length = g.variantCount := by
  unfold choices variantCount
  cases g.kind with
  | independent => simp
  | exclusive =>
    dsimp only
    split
    · simp_all
    · rw [List.length_map, List.length_range]
      omega

/-- The number of macros is a word unless it is too large for one. -/
theorem toNat_sizeWord {g : MacroGroup} (h : g.size < 2 ^ 32) : g.sizeWord.toNat = g.size :=
  UInt32.toNat_ofNat_of_lt' h

/-- Nothing overflows while the values of a valid group are listed, and the list is that of its
choices. -/
theorem checkedValues_toList {g : MacroGroup} (hg : g.Valid) :
    g.checkedValues.bind GroupValues.toList = .ok g.choices := by
  have hsize := hg.size_lt
  unfold checkedValues choices
  rw [toNat_sizeWord (Nat.lt_trans hsize (by decide))]
  dsimp only
  cases g.kind with
  | independent =>
    simp only [Checked.bit32, if_pos hsize, Except.map, Except.bind,
      Word.toNat_shiftLeft_one hsize, Nat.pow_eq]
    exact Sequence.mapM_eq_ok fun _ _ => rfl
  | exclusive =>
    by_cases h : g.size = 0
    · simp only [h, if_true, Except.bind]
      rfl
    · simp only [h, if_false, Except.bind]
      refine Sequence.mapM_eq_ok fun bit hbit => ?_
      exact if_pos (Nat.lt_trans (List.mem_range.1 hbit) hsize)

end ShaderVariants.MacroGroup
