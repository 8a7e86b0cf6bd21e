import ShaderVariants.Proofs.Config.Encoding

/-!
# Looking a variant up by its macros

The macros of a variant are looked up by encoding them (`Found`). Whether a variant is found depends
on macros that several groups declare, since such a macro is turned on in the last of them only.
`found_iff_exclusiveUnshared` says when every variant is found: an exclusive group shares no macro
with a later group, and with an earlier one only if it has no other macro. A group that is listed
twice can break this (`not_found_of_exclusive_listed_twice`).

The key that a lookup ends at always has the macros that were looked up, also when it is the key of
no variant.

For the necessity, groups other than those that share the macro are at rest: an independent group
has nothing on and an exclusive group its first macro. The first exclusive group that shares a macro
with a later one then has no macro turned on, because no group before it shares its macros.
-/

namespace ShaderVariants

namespace MacroGroup

/-- The first choice of a group: nothing is on, or the first macro of an exclusive group. -/
def resting (g : MacroGroup) : UInt32 :=
  match g.kind with
  | .independent => 0
  | .exclusive => if g.size = 0 then 0 else 1

/-- A group at rest is at one of its choices. -/
theorem admits_resting (g : MacroGroup) : g.Admits g.resting := by
  unfold Admits resting
  cases g.kind with
  | independent => exact Nat.two_pow_pos g.size
  | exclusive =>
    dsimp only
    split
    · rfl
    · rename_i h
      exact ⟨0, Nat.pos_of_ne_zero h, rfl⟩

/-- Only an exclusive group has a macro on at rest. -/
theorem kind_of_mem_selected_resting {g : MacroGroup} {name : String}
    (h : name ∈ g.selected g.resting) : g.kind = .exclusive := by
  cases hkind : g.kind with
  | independent =>
    obtain ⟨bit, _, hbit⟩ := mem_selected_iff.1 h
    simp [resting, hkind] at hbit
  | exclusive => rfl

/-- A group of several macros has one beside any given one. -/
theorem Valid.exists_mem_ne {g : MacroGroup} (hg : g.Valid) (h : 1 < g.size) (name : String) :
    ∃ other ∈ g.macros, other ≠ name := by
  have hlength : 1 < g.macros.length := h
  have hpos : 0 < g.macros.length := Nat.zero_lt_of_lt h
  have hfirst : g.macros[0]? = some g.macros[0] := List.getElem?_eq_getElem hpos
  have hsecond : g.macros[1]? = some g.macros[1] := List.getElem?_eq_getElem hlength
  by_cases heq : g.macros[0] = name
  · refine ⟨g.macros[1], List.getElem_mem h, fun heq' => ?_⟩
    rw [heq] at hfirst
    rw [heq'] at hsecond
    exact Nat.zero_ne_one (hg.bit_inj hfirst hsecond)
  · exact ⟨g.macros[0], List.getElem_mem hpos, heq⟩

end MacroGroup

namespace MacroConfig

/-- Looking up the macros of a key ends at a variant, and the variant has the same macros. -/
def Found (config : MacroConfig) (key : VariantKey) : Prop :=
  ∃ names found, config.defines key = .ok names ∧ config.encode names ∈ config.enumerate ∧
    config.defines (config.encode names) = .ok found ∧ ∀ name, name ∈ found ↔ name ∈ names

/-- No exclusive group shares a macro with a later group, nor with an earlier one unless it has no
other macro. -/
def ExclusiveUnshared (config : MacroConfig) : Prop :=
  ∀ before g later, config.groups = before ++ g :: later → g.kind = .exclusive →
    (∀ name ∈ g.macros, ∀ h ∈ later, name ∉ h.macros) ∧
      (1 < g.size → ∀ name ∈ g.macros, ∀ h ∈ before, name ∉ h.macros)

/-- What holds of values group by group holds of the value of each group and around it. -/
theorem exists_value_at {R : MacroGroup → UInt32 → Prop} {before : List MacroGroup}
    {g : MacroGroup} {later : List MacroGroup} {values : List UInt32}
    (h : List.Forall₂ R (before ++ g :: later) values) :
    ∃ first value rest, values = first ++ value :: rest ∧ List.Forall₂ R before first ∧
      R g value ∧ List.Forall₂ R later rest := by
  induction before generalizing values with
  | nil =>
    obtain ⟨value, rest, hvalue, hrest, rfl⟩ := List.forall₂_cons_left_iff.1 h
    exact ⟨[], value, rest, rfl, .nil, hvalue, hrest⟩
  | cons k before ih =>
    obtain ⟨head, tail, hhead, htail, rfl⟩ := List.forall₂_cons_left_iff.1 h
    obtain ⟨first, value, rest, rfl, hfirst, hvalue, hrest⟩ := ih htail
    exact ⟨head :: first, value, rest, rfl, .cons hhead hfirst, hvalue, hrest⟩

/-- A macro that is on comes from the group at a place, or from one before or after it. -/
theorem mem_selectedIn_at_iff {before later : List MacroGroup} {g : MacroGroup}
    {first rest : List UInt32} {value : UInt32} (h : before.length = first.length) {name : String} :
    name ∈ selectedIn (before ++ g :: later) (first ++ value :: rest) ↔
      name ∈ selectedIn before first ∨ name ∈ g.selected value ∨ name ∈ selectedIn later rest := by
  rw [selectedIn_append h, selectedIn_cons, List.mem_append, List.mem_append]

/-- Groups at rest are at choices of theirs. -/
theorem admits_map_resting (groups : List MacroGroup) :
    List.Forall₂ MacroGroup.Admits groups (groups.map MacroGroup.resting) :=
  List.forall₂_map_right_iff.2 (List.forall₂_same.2 fun g _ => g.admits_resting)

/-- A macro that is on at rest belongs to an exclusive group. -/
theorem exists_exclusive_of_mem_resting {groups : List MacroGroup} {name : String}
    (h : name ∈ selectedIn groups (groups.map MacroGroup.resting)) :
    ∃ g ∈ groups, g.kind = .exclusive ∧ name ∈ g.macros := by
  induction groups with
  | nil => cases h
  | cons g gs ih =>
    rw [List.map_cons, selectedIn_cons, List.mem_append] at h
    rcases h with h | h
    · exact ⟨g, List.mem_cons_self, MacroGroup.kind_of_mem_selected_resting h,
        MacroGroup.mem_macros_of_mem_selected h⟩
    · obtain ⟨k, hk, hkind, hname⟩ := ih h
      exact ⟨k, List.mem_cons_of_mem g hk, hkind, hname⟩

/-- A variant decodes to the macros at its set bits. -/
theorem defines_of_mem_enumerate {config : MacroConfig} {key : VariantKey}
    (h : key ∈ config.enumerate) :
    config.defines key = .ok (selectedIn config.groups key.values) :=
  defines_eq (mem_enumerate_iff.1 h).inRange

/-- The macros of a variant are found again at the key that they encode to. -/
theorem defines_encode_defines {config : MacroConfig} {key : VariantKey}
    (h : key ∈ config.enumerate) :
    ∃ names found, config.defines key = .ok names ∧
      config.defines (config.encode names) = .ok found ∧ ∀ name, name ∈ found ↔ name ∈ names := by
  refine ⟨_, _, defines_of_mem_enumerate h, defines_encode config _, fun name => ?_⟩
  rw [mem_selectedIn_valuesOf_iff config.valid]
  exact and_iff_left_of_imp exists_group_of_mem_selectedIn

/-- A variant is found when its macros encode to a variant. -/
theorem found_iff {config : MacroConfig} {key : VariantKey} (h : key ∈ config.enumerate) :
    config.Found key ↔
      config.encode (selectedIn config.groups key.values) ∈ config.enumerate := by
  obtain ⟨names, found, hnames, hfound, hsame⟩ := defines_encode_defines h
  obtain rfl : names = selectedIn config.groups key.values :=
    Except.ok.inj (hnames.symm.trans (defines_of_mem_enumerate h))
  constructor
  · rintro ⟨names, _, hnames', hmem, _⟩
    cases hnames.symm.trans hnames'
    exact hmem
  · exact fun hmem => ⟨_, found, hnames, hmem, hfound, hsame⟩

/-- If a variant is found, each exclusive group with macros has exactly one macro that the variant
turns on there. -/
theorem Found.existsUnique {config : MacroConfig} {values : List UInt32}
    (hfound : config.Found ⟨values⟩)
    (hvalues : List.Forall₂ MacroGroup.Admits config.groups values)
    {before later : List MacroGroup} {g : MacroGroup}
    (hsplit : config.groups = before ++ g :: later) (hkind : g.kind = .exclusive) {name : String}
    (hname : name ∈ g.macros) :
    ∃! name, name ∈ g.macros ∧ turnsOn (selectedIn config.groups values) later name := by
  have hmem : VariantKey.mk values ∈ config.enumerate := mem_enumerate_iff.2 hvalues
  exact encode_mem_enumerate_iff.1 ((found_iff hmem).1 hfound) before g later hsplit hkind
    (List.ne_nil_of_mem hname)

/-- If every variant is found, no exclusive group shares a macro with a later group. The induction
is on the number of groups before it: they share no macro with it, so at rest they turn none of its
macros on. -/
theorem not_mem_later_of_found {config : MacroConfig}
    (hfound : ∀ key ∈ config.enumerate, config.Found key) (n : ℕ) :
    ∀ before g later, before.length = n → config.groups = before ++ g :: later →
      g.kind = .exclusive → ∀ name ∈ g.macros, ∀ h ∈ later, name ∉ h.macros := by
  induction n using Nat.strong_induction_on with
  | _ n ih =>
    intro before g later hlength hsplit hkind name hname h hh hshared
    have hg : g.Valid := config.valid g (by simp [hsplit])
    -- With all other groups at rest, only the shared macro is on in this one.
    obtain ⟨value, hadmits, hselected⟩ := hg.exists_admits_only hname
    let values := before.map MacroGroup.resting ++ value :: later.map MacroGroup.resting
    have hvalues : List.Forall₂ MacroGroup.Admits config.groups values := by
      rw [hsplit]
      exact List.rel_append (admits_map_resting before) (.cons hadmits (admits_map_resting later))
    obtain ⟨other, ⟨hother, hon, hnot⟩, -⟩ :=
      (hfound ⟨values⟩ (mem_enumerate_iff.2 hvalues)).existsUnique hvalues hsplit hkind hname
    rw [hsplit, mem_selectedIn_at_iff (by simp)] at hon
    rcases hon with hon | hon | hon
    · -- An earlier group that has a macro on at rest is exclusive, and shares one with this group.
      obtain ⟨k, hk, hkindk, hotherk⟩ := exists_exclusive_of_mem_resting hon
      obtain ⟨outer, inner, rfl⟩ := List.append_of_mem hk
      have hshort : outer.length < n := by simp at hlength; omega
      refine ih outer.length hshort outer k (inner ++ g :: later) rfl (by simp [hsplit]) hkindk
        other hotherk g (by simp) hother
    · rw [(hselected other).1 hon] at hnot
      exact hnot h hh hshared
    · obtain ⟨k, hk, hotherk⟩ := exists_group_of_mem_selectedIn hon
      exact hnot k hk hotherk

/-- If every variant is found, an exclusive group with several macros shares none with an earlier
group: the shared macro can be on there and another one here, and both are then turned on here. -/
theorem not_mem_before_of_found {config : MacroConfig}
    (hfound : ∀ key ∈ config.enumerate, config.Found key) {before later : List MacroGroup}
    {g : MacroGroup} (hsplit : config.groups = before ++ g :: later) (hkind : g.kind = .exclusive)
    (hsize : 1 < g.size) {name : String} (hname : name ∈ g.macros) {h : MacroGroup}
    (hh : h ∈ before) : name ∉ h.macros := by
  intro hshared
  have hg : g.Valid := config.valid g (by simp [hsplit])
  obtain ⟨outer, inner, rfl⟩ := List.append_of_mem hh
  have hunshared := not_mem_later_of_found hfound _ _ g later rfl hsplit hkind
  obtain ⟨other, hother, hne⟩ := hg.exists_mem_ne hsize name
  obtain ⟨value, hvalue, hselected⟩ :=
    (config.valid h (by simp [hsplit])).exists_admits_only hshared
  obtain ⟨value', hvalue', hselected'⟩ := hg.exists_admits_only hother
  let values := (outer.map MacroGroup.resting ++ value :: inner.map MacroGroup.resting)
    ++ value' :: later.map MacroGroup.resting
  have hvalues : List.Forall₂ MacroGroup.Admits config.groups values := by
    rw [hsplit]
    exact List.rel_append
      (List.rel_append (admits_map_resting outer) (.cons hvalue (admits_map_resting inner)))
      (.cons hvalue' (admits_map_resting later))
  obtain ⟨only, -, honly⟩ :=
    (hfound ⟨values⟩ (mem_enumerate_iff.2 hvalues)).existsUnique hvalues hsplit hkind hname
  -- Two macros of one group are on, so encoding sets two bits there.
  have hon : ∀ n, n = name ∨ n = other → n ∈ selectedIn config.groups values := by
    intro n hn
    rw [hsplit, mem_selectedIn_at_iff (by simp), mem_selectedIn_at_iff (by simp)]
    rcases hn with rfl | rfl
    · exact .inl (.inr (.inl ((hselected _).2 rfl)))
    · exact .inr (.inl ((hselected' _).2 rfl))
  have h1 := honly name ⟨hname, hon name (.inl rfl), hunshared name hname⟩
  have h2 := honly other ⟨hother, hon other (.inr rfl), hunshared other hother⟩
  exact hne (h2.trans h1.symm)

/-- If no exclusive group shares macros, a variant turns exactly one macro of each exclusive group
on there: that of its value. -/
theorem existsUnique_of_exclusiveUnshared {config : MacroConfig} (h : config.ExclusiveUnshared)
    {values : List UInt32} (hvalues : List.Forall₂ MacroGroup.Admits config.groups values)
    {before later : List MacroGroup} {g : MacroGroup}
    (hsplit : config.groups = before ++ g :: later) (hkind : g.kind = .exclusive)
    (hne : g.macros ≠ []) :
    ∃! name, name ∈ g.macros ∧ turnsOn (selectedIn config.groups values) later name := by
  obtain ⟨hlater, hbefore⟩ := h before g later hsplit hkind
  have hg : g.Valid := config.valid g (by simp [hsplit])
  rw [hsplit] at hvalues ⊢
  obtain ⟨first, value, rest, rfl, hfirst, hvalue, -⟩ := exists_value_at hvalues
  have hsize : g.size ≠ 0 := fun h => hne (List.length_eq_zero_iff.1 h)
  simp only [MacroGroup.Admits, hkind, if_neg hsize] at hvalue
  obtain ⟨bit, hbit, hpow⟩ := hvalue
  have hname : g.macros[bit]? = some g.macros[bit] := List.getElem?_eq_getElem hbit
  have hmem : g.macros[bit] ∈ g.macros := List.getElem_mem hbit
  -- Its value turns the macro on, and no later group takes it away.
  refine ⟨g.macros[bit], ⟨hmem, ?_, hlater _ hmem⟩, ?_⟩
  · rw [mem_selectedIn_at_iff hfirst.length_eq]
    exact .inr (.inl ((MacroGroup.mem_selected_two_pow_iff hpow).2 hname))
  · rintro other ⟨hother, hon, hnot⟩
    rw [mem_selectedIn_at_iff hfirst.length_eq] at hon
    rcases hon with hon | hon | hon
    · -- An earlier group can only share the macro of a group that has no other.
      obtain ⟨k, hk, hotherk⟩ := exists_group_of_mem_selectedIn hon
      have hsize : ¬1 < g.size := fun hsize => hbefore hsize other hother k hk hotherk
      obtain ⟨i, hi⟩ := List.mem_iff_getElem?.1 hother
      have hi' : i < g.size := (List.getElem?_eq_some_iff.1 hi).1
      have hsame : i = bit := by omega
      exact Option.some.inj (hi.symm.trans (hsame ▸ hname))
    · have := (MacroGroup.mem_selected_two_pow_iff hpow).1 hon
      exact Option.some.inj (this.symm.trans hname)
    · obtain ⟨k, hk, hotherk⟩ := exists_group_of_mem_selectedIn hon
      exact absurd hotherk (hnot k hk)

/-- Every variant is found by its macros exactly when no exclusive group shares a macro with a later
group, nor with an earlier one unless it has no other macro. In any configuration, the key at which
a lookup ends has the macros that were looked up. -/
theorem found_iff_exclusiveUnshared (config : MacroConfig) :
    ((∀ key ∈ config.enumerate, config.Found key) ↔ config.ExclusiveUnshared) ∧
      ∀ key ∈ config.enumerate, ∃ names found, config.defines key = .ok names ∧
        config.defines (config.encode names) = .ok found ∧
        ∀ name, name ∈ found ↔ name ∈ names := by
  refine ⟨⟨?_, ?_⟩, fun key h => defines_encode_defines h⟩
  · intro hfound before g later hsplit hkind
    refine ⟨not_mem_later_of_found hfound _ before g later rfl hsplit hkind, ?_⟩
    intro hsize name hname h hh
    exact not_mem_before_of_found hfound hsplit hkind hsize hname hh
  · intro h key hkey
    rw [found_iff hkey, encode_mem_enumerate_iff]
    intro before g later hsplit hkind hne
    exact existsUnique_of_exclusiveUnshared h (mem_enumerate_iff.1 hkey) hsplit hkind hne

/-- A configuration that lists an exclusive group of one macro twice. -/
def listedTwice : MacroConfig where
  groups := [⟨"A", .exclusive, ["X"]⟩, ⟨"A", .exclusive, ["X"]⟩]
  valid := by simp [MacroGroup.Valid, MacroGroup.size, MacroGroup.maxSize]
  countable := by decide

/-- A group may be listed twice, but its variants are then not found: the only variant turns the
macro on in both groups, and a lookup turns it on in the second alone, which is no variant. -/
theorem not_found_of_exclusive_listed_twice :
    MacroConfig.ofGroups listedTwice.groups = .ok listedTwice ∧
      listedTwice.enumerate = [⟨[1, 1]⟩] ∧ listedTwice.defines ⟨[1, 1]⟩ = .ok ["X", "X"] ∧
      listedTwice.encode ["X", "X"] = ⟨[0, 1]⟩ ∧
      ¬∀ key ∈ listedTwice.enumerate, listedTwice.Found key := by
  refine ⟨rfl, by decide, by decide, by decide, fun h => ?_⟩
  have hmem : (⟨[1, 1]⟩ : VariantKey) ∈ listedTwice.enumerate := by decide
  have henc := (found_iff hmem).1 (h _ hmem)
  revert henc
  decide

end MacroConfig

end ShaderVariants
