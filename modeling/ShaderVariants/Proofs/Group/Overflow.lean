import ShaderVariants.Proofs.Group.Draining

/-!
# Where the arithmetic of a group overflows

A group of any size has three widths to keep to: the number of its choices is a 64-bit count, the
bound of an independent group's values is a 32-bit word, and so is each value of an exclusive group,
which is made when it is asked for. `Boundary` says where each of them ends, and
`boundary_of_size_lt` that every group is bounded so whose macros are counted by a word. It is not
assumed that the macros are different, nor that they are few enough for a configuration.

Values are compared as numbers: those of an independent group are the numbers below its bound, those
of an exclusive group the powers of two, as far as a word has bits (`mapM_bit32`).

Decoding a value takes a difference of words for each of its bits (`checkedDrain`). That overflows
for no group and no value.
-/

namespace ShaderVariants

namespace Checked

/-- A power does not fit from the 64th on. -/
theorem pow64_eq_error_iff {n : ℕ} : pow64 n = .error ⟨⟩ ↔ 64 ≤ n := by
  unfold pow64
  split
  · simp only [reduceCtorEq, false_iff]
    omega
  · simp only [true_iff]
    omega

/-- A bit of a word is a power of two, and there are 32 of them. -/
theorem map_bit32 (n : ℕ) :
    (bit32 n).map UInt32.toNat = if n < 32 then .ok (2 ^ n) else .error ⟨⟩ := by
  unfold bit32
  split
  · rename_i h
    rw [Except.map, Word.toNat_shiftLeft_one h]
  · rfl

/-- The first bits of a word are the first powers of two. No list of them goes past the last. -/
theorem mapM_bit32 (n : ℕ) :
    ((List.range n).mapM bit32).map (List.map UInt32.toNat) =
      if n ≤ 32 then .ok ((List.range n).map (2 ^ ·)) else .error ⟨⟩ := by
  split
  · rename_i hn
    have hbit : ∀ i ∈ List.range n, i < 32 :=
      fun i hi => Nat.lt_of_lt_of_le (List.mem_range.1 hi) hn
    have hlist : (List.range n).mapM bit32 =
        .ok ((List.range n).map fun i => (1 : UInt32) <<< UInt32.ofNat i) :=
      Sequence.mapM_eq_ok fun i hi => if_pos (hbit i hi)
    rw [hlist, Except.map, List.map_map]
    exact congrArg Except.ok
      (List.map_congr_left fun i hi => Word.toNat_shiftLeft_one (hbit i hi))
  · rename_i hn
    cases hlist : (List.range n).mapM bit32 with
    | error e => rfl
    | ok items =>
      -- The list would have an item for the bit after the last.
      obtain ⟨item, hitem⟩ := Sequence.exists_of_mapM hlist (List.mem_range.2 (Nat.not_le.1 hn))
      cases hitem

/-- The difference of two words. -/
def sub32 (a b : UInt32) : Except Overflow UInt32 :=
  if b ≤ a then .ok (a - b) else .error ⟨⟩

/-- A word other than zero has a predecessor. -/
theorem sub32_one {value : UInt32} (h : value ≠ 0) : sub32 value 1 = .ok (value - 1) := by
  have hpos : value.toNat ≠ 0 := fun hzero => h (UInt32.toNat_inj.1 hzero)
  have hone : (1 : UInt32) ≤ value := UInt32.le_iff_toNat_le.2 (Nat.one_le_iff_ne_zero.2 hpos)
  exact if_pos hone

end Checked

namespace GroupValues

/-- The numbers below a bound that is a word are listed as they are. -/
theorem map_toList_below {bound : ℕ} (h : bound ≤ 2 ^ 32) :
    (below bound).toList.map (List.map UInt32.toNat) = .ok (List.range bound) := by
  have hlist : (below bound).toList = .ok ((List.range bound).map UInt32.ofNat) :=
    Sequence.mapM_eq_ok fun _ _ => rfl
  have hnumber : ∀ i ∈ List.range bound, (UInt32.ofNat i).toNat = i :=
    fun i hi => UInt32.toNat_ofNat_of_lt' (Nat.lt_of_lt_of_le (List.mem_range.1 hi) h)
  rw [hlist, Except.map, List.map_map]
  exact congrArg Except.ok ((List.map_congr_left hnumber).trans (List.map_id _))

/-- The words with one bit are listed as far as there are such words. -/
theorem map_toList_singleBits (n : ℕ) :
    (singleBits n).toList.map (List.map UInt32.toNat) =
      if n ≤ 32 then .ok ((List.range n).map (2 ^ ·)) else .error ⟨⟩ :=
  Checked.mapM_bit32 n

/-- The first of the words with one bit are made without those after them. -/
theorem map_window_singleBits {n take : ℕ} (h : take ≤ n) :
    ((singleBits n).window 0 take).map (List.map UInt32.toNat) =
      if take ≤ 32 then .ok ((List.range take).map (2 ^ ·)) else .error ⟨⟩ := by
  unfold window
  split
  · rename_i hzero
    subst hzero
    rfl
  · have hpositions : (singleBits n).positions 0 take = List.range take := by
      rw [positions, size, Nat.sub_zero, Nat.min_eq_left h, List.range_eq_range']
    rw [hpositions]
    simp only [Nat.zero_min, List.range_zero]
    exact Checked.mapM_bit32 take

end GroupValues

namespace MacroGroup

variable {g : MacroGroup}

/-- The values of an independent group are the numbers below a bound, if the bound is a word. -/
theorem checkedValues_of_independent (hsize : g.size < 2 ^ 32) (hkind : g.kind = .independent) :
    g.checkedValues = if g.size < 32 then .ok (.below (2 ^ g.size)) else .error ⟨⟩ := by
  rw [checkedValues, hkind, toNat_sizeWord hsize]
  dsimp only
  unfold Checked.bit32
  split
  · rename_i h
    rw [Except.map, Word.toNat_shiftLeft_one h]
  · rfl

/-- The values of an exclusive group are the words with one bit, or zero if it has no macros. -/
theorem checkedValues_of_exclusive (hsize : g.size < 2 ^ 32) (hkind : g.kind = .exclusive) :
    g.checkedValues = .ok (if g.size = 0 then .below 1 else .singleBits g.size) := by
  rw [checkedValues, hkind, toNat_sizeWord hsize]

/-- The numbers that the values of a group stand for, as far as there are enough words. -/
theorem map_checkedValues (hsize : g.size < 2 ^ 32) :
    (g.checkedValues.bind GroupValues.toList).map (List.map UInt32.toNat) =
      match g.kind with
      | .independent => if g.size < 32 then .ok (List.range (2 ^ g.size)) else .error ⟨⟩
      | .exclusive =>
        if g.size = 0 then .ok [0]
        else if g.size ≤ 32 then .ok ((List.range g.size).map (2 ^ ·)) else .error ⟨⟩ := by
  cases hkind : g.kind with
  | independent =>
    rw [checkedValues_of_independent hsize hkind]
    dsimp only
    split
    · rename_i h
      exact GroupValues.map_toList_below (Nat.pow_le_pow_right (by decide) h.le)
    · rfl
  | exclusive =>
    rw [checkedValues_of_exclusive hsize hkind]
    dsimp only
    split
    · rfl
    · exact GroupValues.map_toList_singleBits g.size

/-- Values that stand for ascending numbers without bits past the macros are ascending, and each of
them decodes. -/
theorem decodes_of_map_toNat {items : List UInt32} {numbers : List ℕ}
    (h : items.map UInt32.toNat = numbers) (hsorted : numbers.Pairwise (· < ·))
    (hbits : ∀ n ∈ numbers, n < 2 ^ g.macros.length) :
    items.Pairwise (· < ·) ∧ ∀ value ∈ items, ∃ names, g.activeMacros value = .ok names := by
  subst h
  rw [List.pairwise_map] at hsorted
  exact ⟨hsorted.imp UInt32.lt_iff_toNat_lt.2,
    fun value hvalue => exists_activeMacros_iff.2 (hbits _ (List.mem_map_of_mem hvalue))⟩

/-- Where the arithmetic of a group overflows, and what it comes to before. -/
structure Boundary (g : MacroGroup) : Prop where
  /-- The number of choices is too large for 64 independent macros or more. -/
  count : g.checkedCount = .error ⟨⟩ ↔ g.kind = .independent ∧ 64 ≤ g.macros.length
  /-- The bound of the values is too large for 32 independent macros or more. -/
  values : g.checkedValues = .error ⟨⟩ ↔ g.kind = .independent ∧ 32 ≤ g.macros.length
  /-- The items of an exclusive group are made one by one. Up to the 32nd they are the powers of
  two, and none after it can be made. -/
  items : g.kind = .exclusive → g.macros ≠ [] →
    ∃ values, g.checkedValues = .ok values ∧ values.size = g.macros.length ∧
      (∀ i < g.macros.length, (values.get i).map UInt32.toNat =
        if i < 32 then .ok (2 ^ i) else .error ⟨⟩) ∧
      ∀ take ≤ g.macros.length, (values.window 0 take).map (List.map UInt32.toNat) =
        if take ≤ 32 then .ok ((List.range take).map (2 ^ ·)) else .error ⟨⟩
  /-- The values come to an end if there are enough words. -/
  ends : (∃ items, g.checkedValues.bind GroupValues.toList = .ok items) ↔
    (g.kind = .independent → g.macros.length < 32) ∧
      (g.kind = .exclusive → g.macros.length ≤ 32)
  /-- Values that come to an end are ascending, as many as are counted, and each decodes. -/
  listed : ∀ items, g.checkedValues.bind GroupValues.toList = .ok items →
    items.Pairwise (· < ·) ∧ g.checkedCount = .ok items.length ∧
      ∀ value ∈ items, ∃ names, g.activeMacros value = .ok names

/-- The items of an exclusive group are its bits. -/
theorem exclusive_items (hsize : g.size < 2 ^ 32) (hkind : g.kind = .exclusive)
    (hne : g.macros ≠ []) :
    ∃ values, g.checkedValues = .ok values ∧ values.size = g.macros.length ∧
      (∀ i < g.macros.length, (values.get i).map UInt32.toNat =
        if i < 32 then .ok (2 ^ i) else .error ⟨⟩) ∧
      ∀ take ≤ g.macros.length, (values.window 0 take).map (List.map UInt32.toNat) =
        if take ≤ 32 then .ok ((List.range take).map (2 ^ ·)) else .error ⟨⟩ := by
  have hzero : g.size ≠ 0 := fun h => hne (List.length_eq_zero_iff.1 h)
  refine ⟨.singleBits g.size, ?_, rfl, fun i _ => Checked.map_bit32 i,
    fun take htake => GroupValues.map_window_singleBits htake⟩
  rw [checkedValues_of_exclusive hsize hkind, if_neg hzero]

/-- Values that come to an end are ascending, as many as are counted, and each decodes. -/
theorem listed_of_toList (hsize : g.size < 2 ^ 32) {items : List UInt32}
    (h : g.checkedValues.bind GroupValues.toList = .ok items) :
    items.Pairwise (· < ·) ∧ g.checkedCount = .ok items.length ∧
      ∀ value ∈ items, ∃ names, g.activeMacros value = .ok names := by
  have hnumbers := map_checkedValues hsize
  rw [h] at hnumbers
  have hlength : (items.map UInt32.toNat).length = items.length := List.length_map _
  rw [checkedCount, ← hlength]
  cases hkind : g.kind with
  | independent =>
    rw [hkind] at hnumbers
    dsimp only at hnumbers ⊢
    split at hnumbers
    · rename_i hlt
      have hitems := Except.ok.inj hnumbers
      obtain ⟨hsorted, hdecodes⟩ := decodes_of_map_toNat (g := g) hitems List.pairwise_lt_range
        fun n hn => List.mem_range.1 hn
      rw [hitems, List.length_range]
      exact ⟨hsorted, if_pos (Nat.lt_trans hlt (by decide)), hdecodes⟩
    · cases hnumbers
  | exclusive =>
    rw [hkind] at hnumbers
    dsimp only at hnumbers ⊢
    split at hnumbers
    · rename_i hzero
      have hitems := Except.ok.inj hnumbers
      obtain ⟨hsorted, hdecodes⟩ := decodes_of_map_toNat (g := g) hitems
        (List.pairwise_singleton _ _) fun n hn => by
          rw [List.mem_singleton.1 hn]
          exact Nat.two_pow_pos _
      rw [hitems, hzero]
      exact ⟨hsorted, rfl, hdecodes⟩
    · rename_i hzero
      split at hnumbers
      · have hitems := Except.ok.inj hnumbers
        obtain ⟨hsorted, hdecodes⟩ := decodes_of_map_toNat (g := g) hitems
          (List.pairwise_map.2 (List.pairwise_lt_range.imp
            fun hlt => Nat.pow_lt_pow_right (by decide) hlt)) fun n hn => by
          obtain ⟨bit, hbit, rfl⟩ := List.mem_map.1 hn
          exact Nat.pow_lt_pow_right (by decide) (List.mem_range.1 hbit)
        rw [hitems, List.length_map, List.length_range, Nat.max_eq_left (Nat.pos_of_ne_zero hzero)]
        exact ⟨hsorted, rfl, hdecodes⟩
      · cases hnumbers

/-- A group is bounded as described if its macros are counted by a word. -/
theorem boundary_of_size_lt (hsize : g.size < 2 ^ 32) : g.Boundary where
  count := by
    rw [checkedCount]
    cases g.kind with
    | independent => simpa [size] using @Checked.pow64_eq_error_iff g.size
    | exclusive => simp
  values := by
    cases hkind : g.kind with
    | independent =>
      rw [checkedValues_of_independent hsize hkind, ← Nat.not_lt]
      split <;> simp_all [size]
    | exclusive =>
      rw [checkedValues_of_exclusive hsize hkind]
      simp
  items := exclusive_items hsize
  ends := by
    rw [← Sequence.exists_map_iff (f := List.map UInt32.toNat), map_checkedValues hsize]
    cases g.kind with
    | independent =>
      dsimp only
      split <;> simp_all [size]
    | exclusive =>
      dsimp only
      split
      · simp_all [size]
      · split <;> simp_all [size]
  listed := fun _ => listed_of_toList hsize

/-! ## Decoding -/

/-- The macros of a value whose bits are taken off one after another, as `drain` lists them, where
the lowest bit is cleared with a difference of words. -/
def checkedDrain (g : MacroGroup) (value : UInt32) (active : List String) :
    Except (Halt ConfigError) (List String) :=
  if _hvalue : value = 0 then .ok active
  else
    match g.macroAt (Word.lowestBit value) with
    | .error e => .error (.fault e)
    | .ok name =>
      match _hbelow : Checked.sub32 value 1 with
      | .error _ => .error .overflow
      | .ok below => g.checkedDrain (value &&& below) (active ++ [name])
termination_by value.toNat
decreasing_by
  rw [Checked.sub32_one _hvalue] at _hbelow
  cases _hbelow
  exact Word.clearLowest_lt _hvalue

/-- The difference does not overflow, since it is taken only while bits are left. -/
theorem checkedDrain_eq (g : MacroGroup) (value : UInt32) (active : List String) :
    g.checkedDrain value active = Halt.ofExcept (g.drain value active) := by
  fun_induction checkedDrain g value active with
  | case1 active => rw [drain, if_pos rfl, Halt.ofExcept]
  | case2 value active hvalue e hname =>
    rw [drain, if_neg hvalue, hname, Sequence.error_bind, Halt.ofExcept]
  | case3 value active hvalue name hname e hbelow =>
    cases (Checked.sub32_one hvalue).symm.trans hbelow
  | case4 value active hvalue name hname below hbelow ih =>
    cases (Checked.sub32_one hvalue).symm.trans hbelow
    rw [ih, drain.eq_def g value, if_neg hvalue, hname, Sequence.ok_bind, Word.clearLowest]

end MacroGroup

end ShaderVariants
