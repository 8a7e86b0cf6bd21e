import ShaderVariants.Proofs.Config.Encoding

/-!
# The home of a macro

A macro may be declared by several groups; its home is its place in the last of them (`Home`). The
key of a set of macros decodes to the macros of the set that are declared, each once and in the
order of their homes, so it depends on these alone, and the key of two sets together is the bitwise
or of their keys (`defines_encode_homes`).

Within one group, decoding a mask gives back the macros that it was made of, in their order
(`selected_mask`). The statements about a configuration go on from there, group by group.
-/

namespace ShaderVariants

namespace MacroGroup

variable {g : MacroGroup} {p q : String → Bool}

/-- The members at the first places of a list are its first members. -/
theorem filterMap_getElem?_range {α : Type} (as : List α) (n : ℕ) :
    (List.range n).filterMap (as[·]?) = as.take n := by
  induction n with
  | zero => simp
  | succ n ih =>
    rw [List.range_succ, List.filterMap_append, ih, List.take_add_one]
    cases hn : as[n]? <;> simp [hn]

/-- A mask selects the macros with the property, in their order. -/
theorem selected_mask (hg : g.Valid) (p : String → Bool) :
    g.selected (g.mask p) = g.macros.filter p := by
  have hbit : ∀ bit, (if (g.mask p).toNat.testBit bit then g.macros[bit]? else none)
      = g.macros[bit]?.filter p := by
    intro bit
    cases hname : g.macros[bit]? with
    | none => simp
    | some name =>
      have hset : (g.mask p).toNat.testBit bit = p name := by
        rw [Bool.eq_iff_iff, testBit_mask_iff hg, hname]
        simp
      rw [hset, Option.filter_some]
  have htake : g.macros.take 32 = g.macros := List.take_of_length_le hg.size_lt.le
  calc g.selected (g.mask p)
      = (List.range 32).filterMap fun bit => g.macros[bit]?.filter p := by
        rw [selected, setBits, List.filterMap_filter]
        exact List.filterMap_congr fun bit _ => hbit bit
    _ = ((List.range 32).filterMap (g.macros[·]?)).filter p := by
        rw [List.filter_filterMap]
    _ = g.macros.filter p := by rw [filterMap_getElem?_range, htake]

/-- The mask of one property or another is the bitwise or of their masks. -/
theorem mask_or (hg : g.Valid) (p q : String → Bool) :
    g.mask (fun name => p name || q name) = g.mask p ||| g.mask q := by
  refine UInt32.toNat_inj.1 (Nat.eq_of_testBit_eq fun j => ?_)
  rw [UInt32.toNat_or, Nat.testBit_or, Bool.eq_iff_iff, Bool.or_eq_true, testBit_mask_iff hg,
    testBit_mask_iff hg, testBit_mask_iff hg]
  simp only [Bool.or_eq_true, and_or_left, exists_or]

/-- A mask depends on the property of the macros of the group alone. -/
theorem mask_congr (h : ∀ name ∈ g.macros, p name = q name) : g.mask p = g.mask q := by
  unfold mask
  rw [List.filter_congr fun entry hentry =>
    h entry.1 (List.mem_of_getElem? (List.mem_zipIdx_iff_getElem?.1 hentry))]

end MacroGroup

namespace MacroConfig

variable {groups : List MacroGroup} {active other : List String} {name : String}

/-- Some group declares the macro. -/
def Declares (config : MacroConfig) (name : String) : Prop :=
  ∃ g ∈ config.groups, name ∈ g.macros

/-- The macro stands at the bit in the group at the position, and no later group declares it. -/
def Home (groups : List MacroGroup) (name : String) (position bit : ℕ) : Prop :=
  ∃ g, groups[position]? = some g ∧ g.macros[bit]? = some name ∧
    ∀ later ∈ groups.drop (position + 1), name ∉ later.macros

/-- The home of one macro comes before that of another: in an earlier group, or at a lower bit of
the same group. -/
def Precedes (groups : List MacroGroup) (first second : String) : Prop :=
  ∃ i j bit bit', Home groups first i bit ∧ Home groups second j bit' ∧
    (i < j ∨ i = j ∧ bit < bit')

/-- A home in the later groups is a home one position on. -/
theorem home_cons_succ_iff {g : MacroGroup} {position bit : ℕ} :
    Home (g :: groups) name (position + 1) bit ↔ Home groups name position bit := by
  unfold Home
  rw [List.getElem?_cons_succ, List.drop_succ_cons]

/-- A macro that some group declares has a home. -/
theorem exists_home (h : ∃ g ∈ groups, name ∈ g.macros) :
    ∃ position bit, Home groups name position bit := by
  induction groups with
  | nil => simp at h
  | cons g gs ih =>
    by_cases hlater : ∃ h ∈ gs, name ∈ h.macros
    · obtain ⟨position, bit, hhome⟩ := ih hlater
      exact ⟨position + 1, bit, home_cons_succ_iff.2 hhome⟩
    · obtain ⟨k, hk, hname⟩ := h
      rcases List.mem_cons.1 hk with rfl | hk
      · obtain ⟨bit, hbit⟩ := List.mem_iff_getElem?.1 hname
        exact ⟨0, bit, k, rfl, hbit, fun later hl hmem => hlater ⟨later, hl, hmem⟩⟩
      · exact absurd ⟨k, hk, hname⟩ hlater

/-- The macros that are on at the key of a set: group by group, those of the set that no later group
declares. -/
theorem selectedIn_valuesOf_cons {g : MacroGroup} (hg : g.Valid) (active : List String)
    (gs : List MacroGroup) :
    selectedIn (g :: gs) (valuesOf active (g :: gs)) =
      g.macros.filter (fun name => name ∈ active ∧ ∀ later ∈ gs, name ∉ later.macros) ++
        selectedIn gs (valuesOf active gs) := by
  rw [valuesOf, selectedIn_cons, MacroGroup.selected_mask hg]

/-- The macros that are on at the key of a set stand in the order of their homes. -/
theorem pairwise_selectedIn_valuesOf (hvalid : ∀ g ∈ groups, g.Valid) (active : List String) :
    (selectedIn groups (valuesOf active groups)).Pairwise (Precedes groups) := by
  induction groups with
  | nil => exact .nil
  | cons g gs ih =>
    have hg := hvalid g List.mem_cons_self
    have hgs : ∀ h ∈ gs, h.Valid := fun h hh => hvalid h (List.mem_cons_of_mem g hh)
    -- A macro of the group that no later one declares has its home there, at its bit.
    have hhome : ∀ {name bit}, g.macros[bit]? = some name → (∀ later ∈ gs, name ∉ later.macros) →
        Home (g :: gs) name 0 bit := fun hbit hlater => ⟨g, rfl, hbit, hlater⟩
    rw [selectedIn_valuesOf_cons hg, List.pairwise_append]
    refine ⟨?_, (ih hgs).imp ?_, ?_⟩
    · rw [List.pairwise_filter, List.pairwise_iff_getElem]
      intro i j hi hj hij hfirst hsecond
      rw [decide_eq_true_eq] at hfirst hsecond
      exact ⟨0, 0, i, j, hhome (List.getElem?_eq_getElem hi) hfirst.2,
        hhome (List.getElem?_eq_getElem hj) hsecond.2, .inr ⟨rfl, hij⟩⟩
    · rintro first second ⟨i, j, bit, bit', hi, hj, hlt⟩
      exact ⟨i + 1, j + 1, bit, bit', home_cons_succ_iff.2 hi, home_cons_succ_iff.2 hj, by omega⟩
    · intro first hfirst second hsecond
      rw [List.mem_filter, decide_eq_true_eq] at hfirst
      obtain ⟨bit, hbit⟩ := List.mem_iff_getElem?.1 hfirst.1
      obtain ⟨j, bit', hj⟩ := exists_home ((mem_selectedIn_valuesOf_iff hgs).1 hsecond).2
      exact ⟨0, j + 1, bit, bit', hhome hbit hfirst.2.2, home_cons_succ_iff.2 hj,
        .inl (Nat.succ_pos j)⟩

/-- No macro is on twice at the key of a set. -/
theorem nodup_selectedIn_valuesOf (hvalid : ∀ g ∈ groups, g.Valid) (active : List String) :
    (selectedIn groups (valuesOf active groups)).Nodup := by
  induction groups with
  | nil => exact .nil
  | cons g gs ih =>
    have hg := hvalid g List.mem_cons_self
    rw [selectedIn_valuesOf_cons hg, List.nodup_append]
    refine ⟨hg.2.filter _, ih fun h hh => hvalid h (List.mem_cons_of_mem g hh), ?_⟩
    -- What is on in this group is declared by no later one.
    rintro name hname other hother rfl
    rw [List.mem_filter, decide_eq_true_eq] at hname
    obtain ⟨h, hh, hmem⟩ := exists_group_of_mem_selectedIn hother
    exact hname.2.2 h hh hmem

/-- The values of two sets together are the bitwise or of their values. -/
theorem valuesOf_append (hvalid : ∀ g ∈ groups, g.Valid) (active other : List String) :
    valuesOf (active ++ other) groups =
      List.zipWith (· ||| ·) (valuesOf active groups) (valuesOf other groups) := by
  induction groups with
  | nil => rfl
  | cons g gs ih =>
    rw [valuesOf, valuesOf, valuesOf, List.zipWith_cons_cons,
      ih fun h hh => hvalid h (List.mem_cons_of_mem g hh),
      ← MacroGroup.mask_or (hvalid g List.mem_cons_self)]
    congr 2
    funext name
    simp only [List.mem_append, or_and_right, Bool.decide_or]

/-- Sets with the same macros of the groups have the same values. -/
theorem valuesOf_congr
    (h : ∀ g ∈ groups, ∀ name ∈ g.macros, (name ∈ active ↔ name ∈ other)) :
    valuesOf active groups = valuesOf other groups := by
  induction groups with
  | nil => rfl
  | cons g gs ih =>
    rw [valuesOf, valuesOf, ih fun k hk => h k (List.mem_cons_of_mem g hk)]
    congr 1
    refine MacroGroup.mask_congr fun name hname => ?_
    rw [decide_eq_decide, h g List.mem_cons_self name hname]

/-- Sets with the same declared macros have the same key. -/
theorem encode_congr {config : MacroConfig}
    (h : ∀ name, config.Declares name → (name ∈ active ↔ name ∈ other)) :
    config.encode active = config.encode other := by
  rw [encode, encode, valuesOf_congr fun g hg name hname => h name ⟨g, hg, hname⟩]

/-- **The key of a set of macros decodes to those of them that are declared**, each once, in the
order of their homes. Hence two sets have one key exactly when they have the same declared macros,
and the key of two sets together is the bitwise or of their keys. -/
theorem defines_encode_homes (config : MacroConfig) (active : List String) :
    (∃ names, config.defines (config.encode active) = .ok names ∧ names.Nodup ∧
      (∀ name, name ∈ names ↔ config.Declares name ∧ name ∈ active) ∧
      names.Pairwise (Precedes config.groups)) ∧
    (∀ other, config.encode active = config.encode other ↔
      ∀ name, config.Declares name → (name ∈ active ↔ name ∈ other)) ∧
    ∀ other, (config.encode (active ++ other)).values =
      List.zipWith (· ||| ·) (config.encode active).values (config.encode other).values := by
  have hmem : ∀ active name, name ∈ selectedIn config.groups (valuesOf active config.groups) ↔
      config.Declares name ∧ name ∈ active :=
    fun active name => (mem_selectedIn_valuesOf_iff config.valid).trans and_comm
  refine ⟨⟨_, defines_encode config active, nodup_selectedIn_valuesOf config.valid active,
    hmem active, pairwise_selectedIn_valuesOf config.valid active⟩, fun other => ⟨?_, encode_congr⟩,
    valuesOf_append config.valid active⟩
  -- One key decodes to one list, which holds the declared macros of both sets.
  intro heq name hname
  have hvalues : valuesOf active config.groups = valuesOf other config.groups :=
    congrArg VariantKey.values heq
  have hsame := hmem active name
  rw [hvalues, hmem other name] at hsame
  simpa only [hname, true_and] using hsame.symm

end MacroConfig

end ShaderVariants
