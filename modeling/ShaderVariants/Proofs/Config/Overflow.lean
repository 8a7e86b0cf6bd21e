import ShaderVariants.Proofs.Config.Acceptance
import ShaderVariants.Proofs.Config.Homes
import ShaderVariants.Proofs.Group.Overflow
import ShaderVariants.Proofs.Table

/-!
# No arithmetic of a configuration overflows

A configuration counts, lists, decodes and encodes with words and counts of bounded width. Here each
of these is written with every operation that could overflow in it: listing goes from group to group
and makes a value when it comes to it (`checkedEnumerate`), decoding takes the bits of the values
off (`checkedDefines`), and encoding sets one bit for each active macro, at the place that an index
of all macros has for it (`checkedEncode`). None of them overflows, and each comes to what it comes
to in exact arithmetic (`arithmetic_fits`). The groups of a configuration are far from where the
arithmetic of a group ends (`MacroGroup.Boundary`).
-/

namespace ShaderVariants

namespace Sequence

variable {ε α β σ : Type}

/-- Going on with each result is going on with the list of results. -/
theorem foldlM_of_mapM {f : α → Except ε β} {g : σ → β → Except ε σ} {as : List α} {bs : List β}
    (h : as.mapM f = .ok bs) (s : σ) :
    (as.foldlM (fun s a => do g s (← f a)) s) = bs.foldlM g s := by
  induction mapM_eq_ok_iff.1 h generalizing s with
  | nil => rfl
  | @cons a b as bs hb hrest ih =>
    rw [List.foldlM_cons, hb, ok_bind, List.foldlM_cons]
    congr 1
    funext t
    exact ih (mapM_eq_ok_iff.2 hrest) t

/-- Steps that each add to a list add all that they add. -/
theorem foldlM_append {f : List β → α → Except ε (List β)} {more : α → List β} {as : List α}
    (h : ∀ out, ∀ a ∈ as, f out a = .ok (out ++ more a)) (out : List β) :
    as.foldlM f out = .ok (out ++ as.flatMap more) := by
  induction as generalizing out with
  | nil => exact congrArg Except.ok (List.append_nil out).symm
  | cons a as ih =>
    rw [List.foldlM_cons, h out a List.mem_cons_self, ok_bind,
      ih (fun out b hb => h out b (List.mem_cons_of_mem a hb)), List.append_assoc,
      List.flatMap_cons]

end Sequence

namespace MacroConfig

variable {groups : List MacroGroup} {active : List String} {name : String} {position bit : ℕ}

/-! ## Listing -/

/-- The keys that begin with the current values, after those that were listed before. -/
def enumerateGroups : List MacroGroup → List UInt32 → List VariantKey →
    Except Overflow (List VariantKey)
  | [], current, out => .ok (out ++ [⟨current⟩])
  | g :: gs, current, out => do
    let values ← g.checkedValues
    (List.range values.size).foldlM
      (fun out i => do enumerateGroups gs (current ++ [← values.get i]) out) out

/-- The keys of all variants, listed as the values of the groups are made. -/
def checkedEnumerate (config : MacroConfig) : Except Overflow (List VariantKey) :=
  enumerateGroups config.groups [] []

/-- The keys that begin with the current values go on with the selections of the groups. -/
theorem enumerateGroups_eq (hvalid : ∀ g ∈ groups, g.Valid) (current : List UInt32)
    (out : List VariantKey) :
    enumerateGroups groups current out =
      .ok (out ++ (selections groups).map fun values => ⟨current ++ values⟩) := by
  induction groups generalizing current out with
  | nil => rw [enumerateGroups, selections, List.map_singleton, List.append_nil]
  | cons g gs ih =>
    have hgs : ∀ g ∈ gs, g.Valid := fun h hh => hvalid h (List.mem_cons_of_mem g hh)
    -- The values are made one by one, and together they are the choices of the group.
    obtain ⟨values, hvalues, hlist⟩ :=
      Sequence.bind_eq_ok_iff.1 (MacroGroup.checkedValues_toList (hvalid g List.mem_cons_self))
    rw [enumerateGroups, hvalues, Sequence.ok_bind,
      Sequence.foldlM_of_mapM (g := fun out value => enumerateGroups gs (current ++ [value]) out)
        hlist,
      Sequence.foldlM_append fun out value _ => ih hgs (current ++ [value]) out]
    simp only [selections, List.map_flatMap, List.map_map, Function.comp_def, List.append_assoc,
      List.singleton_append]

/-- Listing the variants does not overflow. -/
theorem checkedEnumerate_eq (config : MacroConfig) :
    config.checkedEnumerate = .ok config.enumerate := by
  rw [checkedEnumerate, enumerateGroups_eq config.valid, List.nil_append, enumerate]
  rfl

/-! ## Decoding -/

/-- The macros to define for the variant of a key, group by group. -/
def checkedDefines (config : MacroConfig) (key : VariantKey) :
    Except (Halt ConfigError) (List String) :=
  if key.length ≠ config.groups.length then
    .error (.fault (.keyLength config.groups.length key.length))
  else (config.groups.zip key.values).foldlM (fun defines entry => do
    return defines ++ (← entry.1.checkedDrain entry.2 [])) []

/-- The macros of the groups come after those that were found before. -/
theorem foldlM_checkedDrain (groups : List MacroGroup) (values : List UInt32)
    (defines : List String) :
    ((groups.zip values).foldlM (fun defines entry => do
      return defines ++ (← entry.1.checkedDrain entry.2 [])) defines) =
        Halt.ofExcept ((activeIn groups values).map (defines ++ ·)) := by
  induction groups generalizing values defines with
  | nil => exact congrArg Except.ok (List.append_nil defines).symm
  | cons g gs ih =>
    cases values with
    | nil => exact congrArg Except.ok (List.append_nil defines).symm
    | cons value values =>
      rw [List.zip_cons_cons, List.foldlM_cons, MacroGroup.checkedDrain_eq, MacroGroup.drain_eq,
        activeIn]
      cases g.activeMacros value with
      | error e => rfl
      | ok found =>
        rw [Sequence.ok_bind]
        show (gs.zip values).foldlM _ (defines ++ ([] ++ found)) = _
        rw [ih, List.nil_append]
        cases activeIn gs values with
        | error e => rfl
        | ok rest => exact congrArg Except.ok (List.append_assoc _ _ _)

/-- Decoding a key does not overflow, whether the key decodes or not. -/
theorem checkedDefines_eq (config : MacroConfig) (key : VariantKey) :
    config.checkedDefines key = Halt.ofExcept (config.defines key) := by
  unfold checkedDefines defines
  split
  · rfl
  · rw [foldlM_checkedDrain]
    cases activeIn config.groups key.values <;> rfl

/-! ## Encoding -/

/-- The places of the macros of groups, of which the first is at a position. -/
def bindings (position : ℕ) : List MacroGroup → List (String × ℕ × ℕ)
  | [] => []
  | g :: gs =>
    (g.macros.zipIdx.map fun entry => (entry.1, position, entry.2)) ++ bindings (position + 1) gs

/-- The index of the macros of groups. The last place of a macro is the one that is found. -/
def index (groups : List MacroGroup) : Table String (ℕ × ℕ) :=
  .ofList (bindings 0 groups)

/-- The values in which the bit of a macro is set, at the place that the index has for it. -/
def setBit (index : Table String (ℕ × ℕ)) (values : List UInt32) (name : String) :
    Except Overflow (List UInt32) :=
  match index.get? name with
  | none => .ok values
  | some (position, bit) => do
    let mask ← Checked.bit32 bit
    return values.modify position (· ||| mask)

/-- The key of the variant for a set of active macros, one macro after another. -/
def checkedEncode (config : MacroConfig) (active : List String) : Except Overflow VariantKey := do
  let values ← active.foldlM (setBit (index config.groups))
    (List.replicate config.groups.length 0)
  return ⟨values⟩

/-- Only macros of the groups have places. -/
theorem exists_group_of_mem_bindings {binding : String × ℕ × ℕ}
    (h : binding ∈ bindings position groups) : ∃ g ∈ groups, binding.1 ∈ g.macros := by
  induction groups generalizing position with
  | nil => cases h
  | cons g gs ih =>
    rcases List.mem_append.1 h with h | h
    · obtain ⟨entry, hentry, rfl⟩ := List.mem_map.1 h
      exact ⟨g, List.mem_cons_self,
        List.mem_of_getElem? (List.mem_zipIdx_iff_getElem?.1 hentry)⟩
    · obtain ⟨k, hk, hname⟩ := ih h
      exact ⟨k, List.mem_cons_of_mem g hk, hname⟩

/-- A macro that no group declares is not found. -/
theorem lookup_bindings_eq_none (h : ∀ g ∈ groups, name ∉ g.macros) :
    Table.lookup name (bindings position groups).reverse = none := by
  refine Table.lookup_eq_none fun binding hbinding heq => ?_
  obtain ⟨g, hg, hname⟩ := exists_group_of_mem_bindings (List.mem_reverse.1 hbinding)
  exact h g hg (heq ▸ hname)

/-- What is found of a macro is its home. -/
theorem lookup_bindings_of_home (hvalid : ∀ g ∈ groups, g.Valid) {i : ℕ}
    (h : Home groups name i bit) :
    Table.lookup name (bindings position groups).reverse = some (position + i, bit) := by
  induction groups generalizing position i with
  | nil =>
    obtain ⟨g, hg, -⟩ := h
    cases hg
  | cons g gs ih =>
    rw [bindings, List.reverse_append, Table.lookup_append]
    cases i with
    | zero =>
      obtain ⟨g', hg, hname, hlater⟩ := h
      cases hg
      have hnone : ∀ later ∈ gs, name ∉ later.macros := hlater
      have hnodup : ((g.macros.zipIdx.map fun entry =>
          (entry.1, position, entry.2)).map Prod.fst).Nodup := by
        rw [List.map_map]
        exact (List.zipIdx_map_fst 0 g.macros).symm ▸ (hvalid g List.mem_cons_self).2
      -- No later group declares the macro, and this one declares it once.
      rw [lookup_bindings_eq_none hnone, Option.none_or, Table.lookup_reverse hnodup]
      exact Table.lookup_of_mem hnodup
        (List.mem_map.2 ⟨(name, bit), List.mem_zipIdx_iff_getElem?.2 hname, rfl⟩)
    | succ i =>
      rw [ih (fun k hk => hvalid k (List.mem_cons_of_mem g hk)) (home_cons_succ_iff.1 h),
        Option.some_or, Nat.add_assoc, Nat.add_comm 1 i]

/-- A macro that no group declares changes no value. -/
theorem zipWith_or_of_not_mem {values : List UInt32} (h : ∀ g ∈ groups, name ∉ g.macros)
    (hlength : values.length = groups.length) :
    List.zipWith (· ||| ·) values (valuesOf [name] groups) = values := by
  induction groups generalizing values with
  | nil => rw [List.length_eq_zero_iff.1 hlength, valuesOf, List.zipWith_nil_left]
  | cons g gs ih =>
    obtain ⟨value, values, rfl⟩ := List.exists_cons_of_length_eq_add_one hlength
    have hzero : g.mask (fun other => other ∈ [name] ∧ ∀ later ∈ gs, other ∉ later.macros) = 0 := by
      refine MacroGroup.mask_eq_zero fun other hother => ?_
      rw [decide_eq_false_iff_not, List.mem_singleton]
      rintro ⟨rfl, -⟩
      exact h g List.mem_cons_self hother
    rw [valuesOf, List.zipWith_cons_cons, hzero, UInt32.or_zero,
      ih (fun k hk => h k (List.mem_cons_of_mem g hk)) (Nat.succ.inj hlength)]

/-- A macro sets its bit in the value of its home, and no other. -/
theorem zipWith_or_of_home (hvalid : ∀ g ∈ groups, g.Valid) {values : List UInt32} {i : ℕ}
    (h : Home groups name i bit) (hlength : values.length = groups.length) :
    List.zipWith (· ||| ·) values (valuesOf [name] groups) =
      values.modify i (· ||| 1 <<< UInt32.ofNat bit) := by
  induction groups generalizing values i with
  | nil =>
    obtain ⟨g, hg, -⟩ := h
    cases hg
  | cons g gs ih =>
    obtain ⟨value, values, rfl⟩ := List.exists_cons_of_length_eq_add_one hlength
    have hg := hvalid g List.mem_cons_self
    have hgs : ∀ k ∈ gs, k.Valid := fun k hk => hvalid k (List.mem_cons_of_mem g hk)
    rw [valuesOf, List.zipWith_cons_cons]
    cases i with
    | zero =>
      obtain ⟨g', hg', hname, hlater⟩ := h
      cases hg'
      have hnone : ∀ later ∈ gs, name ∉ later.macros := hlater
      have hbit : bit < 32 :=
        Nat.lt_trans (List.getElem?_eq_some_iff.1 hname).1 hg.size_lt
      -- The macro is the only one of the group that is active.
      have hmask : g.mask (fun other => other ∈ [name] ∧ ∀ later ∈ gs, other ∉ later.macros) =
          1 <<< UInt32.ofNat bit := by
        refine UInt32.toNat_inj.1 ?_
        rw [Word.toNat_shiftLeft_one hbit, MacroGroup.mask_eq_two_pow_iff hg hname]
        simp only [decide_eq_true_eq, List.mem_singleton]
        exact ⟨⟨trivial, hnone⟩, fun other _ hother => hother.1⟩
      rw [hmask, zipWith_or_of_not_mem hnone (Nat.succ.inj hlength), List.modify_zero_cons]
    | succ i =>
      have hhome : Home gs name i bit := home_cons_succ_iff.1 h
      -- A later group declares the macro, so it is not active in this one.
      have hzero : g.mask (fun other => other ∈ [name] ∧ ∀ later ∈ gs, other ∉ later.macros) =
          0 := by
        obtain ⟨k, hk, hname, -⟩ := hhome
        refine MacroGroup.mask_eq_zero fun other _ => ?_
        rw [decide_eq_false_iff_not, List.mem_singleton]
        rintro ⟨rfl, hlater⟩
        exact hlater k (List.mem_of_getElem? hk) (List.mem_of_getElem? hname)
      rw [hzero, UInt32.or_zero, ih hgs hhome (Nat.succ.inj hlength), List.modify_succ_cons]

/-- Without active macros no bits are set. -/
theorem valuesOf_nil (groups : List MacroGroup) :
    valuesOf [] groups = List.replicate groups.length 0 := by
  induction groups with
  | nil => rfl
  | cons g gs ih =>
    rw [valuesOf, ih, MacroGroup.mask_eq_zero fun _ _ => by simp, List.length_cons,
      List.replicate_succ]

/-- There is one value for each group. -/
theorem length_valuesOf (active : List String) (groups : List MacroGroup) :
    (valuesOf active groups).length = groups.length := by
  induction groups with
  | nil => rfl
  | cons g gs ih => rw [valuesOf, List.length_cons, ih, List.length_cons]

/-- One more macro is active after its bit is set. -/
theorem setBit_valuesOf (hvalid : ∀ g ∈ groups, g.Valid) (active : List String) (name : String) :
    setBit (index groups) (valuesOf active groups) name =
      .ok (valuesOf (active ++ [name]) groups) := by
  have hlength := length_valuesOf active groups
  rw [valuesOf_append hvalid, setBit, index, Table.get?_ofList]
  by_cases hdeclared : ∃ g ∈ groups, name ∈ g.macros
  · obtain ⟨i, bit, hhome⟩ := exists_home hdeclared
    have hbit : bit < 32 := by
      obtain ⟨g, hg, hname, -⟩ := hhome
      exact Nat.lt_trans (List.getElem?_eq_some_iff.1 hname).1
        (hvalid g (List.mem_of_getElem? hg)).size_lt
    rw [lookup_bindings_of_home hvalid hhome, zipWith_or_of_home hvalid hhome hlength, Nat.zero_add]
    dsimp only
    rw [Checked.bit32, if_pos hbit, Sequence.ok_bind]
    rfl
  · have hnone : ∀ g ∈ groups, name ∉ g.macros := fun g hg hname => hdeclared ⟨g, hg, hname⟩
    rw [lookup_bindings_eq_none hnone, zipWith_or_of_not_mem hnone hlength]

/-- More macros are active after their bits are set. -/
theorem foldlM_setBit (hvalid : ∀ g ∈ groups, g.Valid) (before active : List String) :
    active.foldlM (setBit (index groups)) (valuesOf before groups) =
      .ok (valuesOf (before ++ active) groups) := by
  induction active generalizing before with
  | nil => rw [List.append_nil]; rfl
  | cons name active ih =>
    rw [List.foldlM_cons, setBit_valuesOf hvalid, Sequence.ok_bind, ih, List.append_assoc,
      List.singleton_append]

/-- Encoding does not overflow. -/
theorem checkedEncode_eq (config : MacroConfig) (active : List String) :
    config.checkedEncode active = .ok (config.encode active) := by
  rw [checkedEncode, ← valuesOf_nil, foldlM_setBit config.valid, List.nil_append,
    Sequence.ok_bind, encode]
  rfl

/-! ## All of them -/

/-- **The arithmetic of a group ends where it is said to, and that of a configuration never does.**
A group whose macros are counted by a word overflows exactly where its kind and its size say, and
what it lists without overflow is ascending, complete and decodes. A configuration has no such
group: its variants are counted, listed, decoded and encoded without overflow. -/
theorem arithmetic_fits :
    (∀ g : MacroGroup, g.macros.length < 2 ^ 32 → g.Boundary) ∧
    ∀ config : MacroConfig,
      (∀ g ∈ config.groups, g.checkedCount = .ok g.variantCount ∧
        g.checkedValues.bind GroupValues.toList = .ok g.choices) ∧
      checkedProduct config.groups = .ok config.variantCount ∧
      config.checkedEnumerate = .ok config.enumerate ∧
      (∀ key, config.checkedDefines key = Halt.ofExcept (config.defines key)) ∧
      ∀ active, config.checkedEncode active = .ok (config.encode active) :=
  ⟨fun _ => MacroGroup.boundary_of_size_lt, fun config =>
    ⟨fun g hg => ⟨(config.valid g hg).checkedCount_eq,
        MacroGroup.checkedValues_toList (config.valid g hg)⟩,
      checkedProduct_groups config, checkedEnumerate_eq config, checkedDefines_eq config,
      checkedEncode_eq config⟩⟩

/-- An exclusive group with one macro more than a word has bits: the item after the last bit cannot
be made, and the values come to no end. -/
theorem arithmetic_fits_past_word :
    (List.replicate 33 "X").length < 2 ^ 32 ∧
      ∃ values, (⟨"A", .exclusive, List.replicate 33 "X"⟩ : MacroGroup).checkedValues =
          .ok values ∧
        (values.get 31).map UInt32.toNat = .ok (2 ^ 31) ∧
        (values.get 32).map UInt32.toNat = .error ⟨⟩ := by
  have hsize : (List.replicate 33 "X").length < 2 ^ 32 := by decide
  obtain ⟨values, hvalues, -, hget, -⟩ :=
    (arithmetic_fits.1 ⟨"A", .exclusive, List.replicate 33 "X"⟩ hsize).items rfl (by decide)
  exact ⟨hsize, values, hvalues, hget 31 (by decide), hget 32 (by decide)⟩

end MacroConfig

end ShaderVariants
