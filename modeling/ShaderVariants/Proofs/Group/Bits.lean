import ShaderVariants.Proofs.Group.Choices

/-!
# Macros as bits

A value of a group stands for the macros at its set bits (`selected`), and decoding a value that
sets no other bits gives them (`activeMacros_eq`). The mask of a property sets the bits of the
macros that have it (`testBit_mask_iff`), so decoding undoes it (`mem_selected_mask_iff`), and it is
one of the group's choices unless the group is exclusive and not exactly one macro has the property
(`admits_mask_iff`).
-/

namespace ShaderVariants.MacroGroup

/-- The macros at the set bits of a value, in ascending order of the bits. -/
def selected (g : MacroGroup) (value : UInt32) : List String :=
  (setBits value).filterMap (g.macros[·]?)

/-- `setBits` lists the positions at which a word has a bit. -/
theorem mem_setBits_iff {value : UInt32} {bit : ℕ} :
    bit ∈ setBits value ↔ value.toNat.testBit bit = true := by
  rw [setBits, List.mem_filter, List.mem_range]
  constructor
  · exact fun h => h.2
  · intro h
    refine ⟨?_, h⟩
    by_contra hbit
    rw [Word.testBit_eq_false (Nat.le_of_not_lt hbit)] at h
    cases h

/-- A macro is selected when its bit is set. -/
theorem mem_selected_iff {g : MacroGroup} {value : UInt32} {name : String} :
    name ∈ g.selected value ↔
      ∃ bit, g.macros[bit]? = some name ∧ value.toNat.testBit bit = true := by
  simp only [selected, List.mem_filterMap, mem_setBits_iff]
  exact exists_congr fun bit => And.comm

/-- Only macros of the group are selected. -/
theorem mem_macros_of_mem_selected {g : MacroGroup} {value : UInt32} {name : String}
    (h : name ∈ g.selected value) : name ∈ g.macros := by
  obtain ⟨bit, hname, _⟩ := mem_selected_iff.1 h
  exact List.mem_of_getElem? hname

/-- Bits of macros decode one by one. -/
theorem mapM_macroAt {g : MacroGroup} {bits : List ℕ} (h : ∀ bit ∈ bits, bit < g.size) :
    bits.mapM g.macroAt = .ok (bits.filterMap (g.macros[·]?)) := by
  induction bits with
  | nil => rfl
  | cons bit bits ih =>
    have hbit : bit < g.macros.length := h bit List.mem_cons_self
    have hname : g.macros[bit]? = some g.macros[bit] := List.getElem?_eq_getElem hbit
    have hrest := ih fun b hb => h b (List.mem_cons_of_mem bit hb)
    rw [List.mapM_cons, hrest, macroAt, hname, List.filterMap_cons_some hname]
    rfl

/-- A value without bits past the macros decodes to the selected ones. -/
theorem activeMacros_eq {g : MacroGroup} {value : UInt32} (h : value.toNat < 2 ^ g.size) :
    g.activeMacros value = .ok (g.selected value) :=
  mapM_macroAt fun bit hbit => Word.lt_two_pow_iff.1 h bit (mem_setBits_iff.1 hbit)

/-- A value that decodes sets no bit past the macros, since such a bit stands for none. -/
theorem lt_of_activeMacros {g : MacroGroup} {value : UInt32} {names : List String}
    (h : g.activeMacros value = .ok names) : value.toNat < 2 ^ g.size := by
  rw [Word.lt_two_pow_iff]
  intro bit hbit
  obtain ⟨name, hname⟩ := Sequence.exists_of_mapM h (mem_setBits_iff.2 hbit)
  unfold macroAt at hname
  split at hname
  · rename_i hmem
    exact (List.getElem?_eq_some_iff.1 hmem).1
  · cases hname

/-- The bits of words put together are the bits of each. -/
theorem testBit_foldr_or {entries : List (String × ℕ)} (h : ∀ entry ∈ entries, entry.2 < 32)
    (j : ℕ) :
    (entries.foldr (fun entry value => (1 : UInt32) <<< UInt32.ofNat entry.2 ||| value)
        0).toNat.testBit j = true ↔ ∃ entry ∈ entries, entry.2 = j := by
  induction entries with
  | nil => simp
  | cons entry entries ih =>
    have hentry := h entry List.mem_cons_self
    have hrest := ih fun e he => h e (List.mem_cons_of_mem entry he)
    rw [List.foldr_cons, UInt32.toNat_or, Nat.testBit_or, Bool.or_eq_true, hrest,
      Word.testBit_shiftLeft_one hentry]
    simp

/-- The bits of a mask are the places of the macros with the property. -/
theorem testBit_mask_iff {g : MacroGroup} (hg : g.Valid) {p : String → Bool} {j : ℕ} :
    (g.mask p).toNat.testBit j = true ↔ ∃ name, g.macros[j]? = some name ∧ p name = true := by
  -- All places are below 32, so every macro has a bit.
  have hplace : ∀ entry ∈ g.macros.zipIdx.filter fun entry => p entry.1, entry.2 < 32 := by
    intro entry hentry
    have hmem := List.mem_zipIdx_iff_getElem?.1 (List.mem_of_mem_filter hentry)
    obtain ⟨hlt, _⟩ := List.getElem?_eq_some_iff.1 hmem
    exact Nat.lt_trans hlt hg.size_lt
  rw [mask, testBit_foldr_or hplace]
  constructor
  · rintro ⟨entry, hentry, rfl⟩
    obtain ⟨hmem, hp⟩ := List.mem_filter.1 hentry
    exact ⟨entry.1, List.mem_zipIdx_iff_getElem?.1 hmem, hp⟩
  · rintro ⟨name, hname, hp⟩
    exact ⟨(name, j), List.mem_filter.2 ⟨List.mem_zipIdx_iff_getElem?.2 hname, hp⟩, rfl⟩

/-- A mask sets no bit past the macros. -/
theorem mask_lt {g : MacroGroup} (hg : g.Valid) (p : String → Bool) :
    (g.mask p).toNat < 2 ^ g.size := by
  rw [Word.lt_two_pow_iff]
  intro j hj
  obtain ⟨name, hname, _⟩ := (testBit_mask_iff hg).1 hj
  exact (List.getElem?_eq_some_iff.1 hname).1

/-- The mask of a property that no macro has is zero. -/
theorem mask_eq_zero {g : MacroGroup} {p : String → Bool} (h : ∀ name ∈ g.macros, p name = false) :
    g.mask p = 0 := by
  have hnone : (g.macros.zipIdx.filter fun entry => p entry.1) = [] := by
    rw [List.filter_eq_nil_iff]
    intro entry hentry hp
    rw [h entry.1 (List.mem_of_getElem? (List.mem_zipIdx_iff_getElem?.1 hentry))] at hp
    cases hp
  rw [mask, hnone, List.foldr_nil]

/-- A mask selects the macros with the property. -/
theorem mem_selected_mask_iff {g : MacroGroup} (hg : g.Valid) {p : String → Bool} {name : String} :
    name ∈ g.selected (g.mask p) ↔ name ∈ g.macros ∧ p name = true := by
  rw [mem_selected_iff]
  constructor
  · rintro ⟨bit, hname, hbit⟩
    obtain ⟨other, hother, hp⟩ := (testBit_mask_iff hg).1 hbit
    cases hname.symm.trans hother
    exact ⟨List.mem_of_getElem? hname, hp⟩
  · rintro ⟨hmem, hp⟩
    obtain ⟨bit, hname⟩ := List.mem_iff_getElem?.1 hmem
    exact ⟨bit, hname, (testBit_mask_iff hg).2 ⟨name, hname, hp⟩⟩

/-- An admitted value sets no bit past the macros. -/
theorem Admits.lt {g : MacroGroup} {value : UInt32} (h : g.Admits value) :
    value.toNat < 2 ^ g.size := by
  unfold Admits at h
  split at h
  · exact h
  · split at h
    · rw [h]
      exact Nat.two_pow_pos _
    · obtain ⟨bit, hbit, hvalue⟩ := h
      rw [hvalue]
      exact Nat.pow_lt_pow_right (by decide) hbit

/-- Distinct macros have distinct bits. -/
theorem Valid.bit_inj {g : MacroGroup} (hg : g.Valid) {i j : ℕ} {name : String}
    (hi : g.macros[i]? = some name) (hj : g.macros[j]? = some name) : i = j := by
  obtain ⟨hlt, _⟩ := List.getElem?_eq_some_iff.1 hi
  exact (List.getElem?_inj hlt hg.2).1 (hi.trans hj.symm)

/-- A mask is a value without bits past the macros when the property is that of being selected. -/
theorem mask_eq_of_selected {g : MacroGroup} (hg : g.Valid) {value : UInt32}
    (hvalue : value.toNat < 2 ^ g.size) {p : String → Bool}
    (hp : ∀ name ∈ g.macros, p name = true ↔ name ∈ g.selected value) : g.mask p = value := by
  refine UInt32.toNat_inj.1 (Nat.eq_of_testBit_eq fun j => ?_)
  rw [Bool.eq_iff_iff, testBit_mask_iff hg]
  constructor
  · rintro ⟨name, hname, hon⟩
    -- The macro at this bit is selected by a bit of its own, which is this one.
    obtain ⟨bit, hbit, hset⟩ := mem_selected_iff.1 ((hp name (List.mem_of_getElem? hname)).1 hon)
    rwa [hg.bit_inj hname hbit]
  · intro hset
    have hj : j < g.macros.length := Word.lt_two_pow_iff.1 hvalue j hset
    have hname : g.macros[j]? = some g.macros[j] := List.getElem?_eq_getElem hj
    exact ⟨_, hname, (hp _ (List.getElem_mem hj)).2 (mem_selected_iff.2 ⟨j, hname, hset⟩)⟩

/-- A value with the bit of one macro selects that macro. -/
theorem mem_selected_two_pow_iff {g : MacroGroup} {value : UInt32} {bit : ℕ}
    (h : value.toNat = 2 ^ bit) {name : String} :
    name ∈ g.selected value ↔ g.macros[bit]? = some name := by
  rw [mem_selected_iff, h]
  constructor
  · rintro ⟨j, hname, hj⟩
    rw [Nat.testBit_two_pow, decide_eq_true_eq] at hj
    rwa [hj]
  · intro hname
    exact ⟨bit, hname, by rw [Nat.testBit_two_pow, decide_eq_true_eq]⟩

/-- Every macro of a group is the only one on at some choice. -/
theorem Valid.exists_admits_only {g : MacroGroup} (hg : g.Valid) {name : String}
    (h : name ∈ g.macros) :
    ∃ value, g.Admits value ∧ ∀ other, other ∈ g.selected value ↔ other = name := by
  obtain ⟨bit, hname⟩ := List.mem_iff_getElem?.1 h
  have hbit : bit < g.size := (List.getElem?_eq_some_iff.1 hname).1
  have hvalue := Word.toNat_shiftLeft_one (Nat.lt_trans hbit hg.size_lt)
  refine ⟨1 <<< UInt32.ofNat bit, ?_, fun other => ?_⟩
  · unfold Admits
    cases g.kind with
    | independent =>
      rw [hvalue]
      exact Nat.pow_lt_pow_right (by decide) hbit
    | exclusive =>
      dsimp only
      rw [if_neg (Nat.ne_zero_of_lt hbit)]
      exact ⟨bit, hbit, hvalue⟩
  · rw [mem_selected_two_pow_iff hvalue, hname, Option.some.injEq, eq_comm]

/-- A mask is a single bit exactly when the macro of that bit is the only one with the property. -/
theorem mask_eq_two_pow_iff {g : MacroGroup} (hg : g.Valid) {p : String → Bool} {bit : ℕ}
    {name : String} (hname : g.macros[bit]? = some name) :
    (g.mask p).toNat = 2 ^ bit ↔
      p name = true ∧ ∀ other ∈ g.macros, p other = true → other = name := by
  constructor
  · intro h
    -- The mask selects the macros with the property, and its only bit selects one macro.
    have hselected : ∀ other, other ∈ g.macros ∧ p other = true ↔ g.macros[bit]? = some other :=
      fun other => (mem_selected_mask_iff hg).symm.trans (mem_selected_two_pow_iff h)
    refine ⟨((hselected name).2 hname).2, fun other hother hp => ?_⟩
    have := (hselected other).1 ⟨hother, hp⟩
    exact Option.some.inj (this.symm.trans hname)
  · rintro ⟨hp, honly⟩
    apply Nat.eq_of_testBit_eq
    intro j
    rw [Nat.testBit_two_pow, Bool.eq_iff_iff, testBit_mask_iff hg, decide_eq_true_eq]
    constructor
    · rintro ⟨other, hother, hpo⟩
      rw [honly other (List.mem_of_getElem? hother) hpo] at hother
      exact hg.bit_inj hname hother
    · rintro rfl
      exact ⟨name, hname, hp⟩

/-- A mask is a choice of the group, unless the group is exclusive and its macros with the property
are none or several. -/
theorem admits_mask_iff {g : MacroGroup} (hg : g.Valid) {p : String → Bool} :
    g.Admits (g.mask p) ↔
      (g.kind = .exclusive → g.macros ≠ [] → ∃! name, name ∈ g.macros ∧ p name = true) := by
  unfold Admits
  cases g.kind with
  | independent => simp [mask_lt hg p]
  | exclusive =>
    dsimp only
    by_cases hempty : g.macros = []
    · simp [hempty, size, mask]
    · have hsize : g.size ≠ 0 := fun h => hempty (List.length_eq_zero_iff.1 h)
      simp only [hsize, if_false, ne_eq, hempty, not_false_eq_true, forall_const]
      constructor
      · rintro ⟨bit, hbit, hmask⟩
        have hname : g.macros[bit]? = some g.macros[bit] := List.getElem?_eq_getElem hbit
        obtain ⟨hp, honly⟩ := (mask_eq_two_pow_iff hg hname).1 hmask
        exact ⟨g.macros[bit], ⟨List.getElem_mem hbit, hp⟩, fun other ho => honly other ho.1 ho.2⟩
      · rintro ⟨name, ⟨hmem, hp⟩, honly⟩
        obtain ⟨bit, hname⟩ := List.mem_iff_getElem?.1 hmem
        have hbit : bit < g.size := (List.getElem?_eq_some_iff.1 hname).1
        exact ⟨bit, hbit, (mask_eq_two_pow_iff hg hname).2
          ⟨hp, fun other ho hpo => honly other ⟨ho, hpo⟩⟩⟩

end ShaderVariants.MacroGroup
