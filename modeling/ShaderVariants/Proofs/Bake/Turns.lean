import ShaderVariants.Proofs.Bake.Edits
import ShaderVariants.Proofs.Bake.Variant

/-!
# The turn of a variant

Variants that are built one after another have their turns one after another: each begins in the
world that those before it leave (`exists_turn`). Tools that write nothing but their output leave
everything but the files of the variant as it is (`variant_kept`). So if no variant alters what
another one reads, a variant finds what it reads as it was before the first turn, and leaves it to
the end as it is after its own (`turn_kept`).
-/

namespace ShaderVariants

open Store

namespace Workshop

variable {shop : Workshop} {config : MacroConfig} {key : VariantKey}
  {keys before after : List VariantKey} {defines : List String} {s : Store} {v w w' : World}

/-! ## What a variant leaves as it is -/

/-- The steps of a variant leave what its tools left, or the resource table was made after that. -/
theorem Ending.store_cases {ended : Except Overflow (Except VariantError ℕ × List ToolError)}
    (h : Ending shop key defines w (w', ended)) :
    w'.store = (shop.afterTools key defines w).store ∨
      ∃ bundle stored, shop.Normalizes key defines w ∧
        shop.normalized key (shop.afterReflect key defines w) = .ok (bundle, stored) ∧
        w'.store = shop.tidied key stored := by
  unfold afterTools
  cases h with
  | compileFailed hcompile hlimit =>
    rw [ToolRun.goesOn_eq_false_iff.2 ⟨_, hcompile, hlimit⟩]
    exact .inl rfl
  | reflectFailed hcompile _ _ => exact .inl (by rw [if_pos hcompile])
  | overflow htools _ => exact .inl (by rw [if_pos htools.1])
  | refused htools _ => exact .inl (by rw [if_pos htools.1])
  | made htools hmade => exact .inr ⟨_, _, htools, hmade, rfl⟩

/-- A resource table is made by one edit, at the table, and its report is then removed by another or
kept. -/
theorem edits_of_normalized {bundle : ResourceBundle} {stored : Store}
    (h : shop.normalized key w = .ok (bundle, stored)) :
    ∃ e e' : Edit, w.store.writing (shop.layout.resources key) (.text bundle.text) = .ok e ∧
      stored = e.on w.store ∧ shop.tidied key stored = e'.on stored ∧
      (e' = .keep ∨ shop.keepReports = false ∧
        stored.removing (shop.layout.report key) = .ok e') := by
  obtain ⟨⟨content, hread⟩, e, he, rfl⟩ := writing_of_normalized h
  obtain ⟨content', hread'⟩ := exists_content_of_writing he hread
  rcases tidied_cases hread' with ⟨-, htidied⟩ | ⟨hkeep, -, e', he', htidied⟩
  · exact ⟨e, .keep, he, rfl, htidied, .inl rfl⟩
  · exact ⟨e, e', he, rfl, htidied, .inr ⟨hkeep, he'⟩⟩

/-- Stores with one frame where the variants read have the same things altered for them. -/
theorem altered_congr {t : Store} (h : ∀ key ∈ keys, Framed (shop.Reads s key) s t) :
    shop.altered t keys = shop.altered s keys := by
  have hchanges : ∀ key ∈ keys, ∀ p ∈ shop.layout.artifacts key,
      shop.Changes t key p = shop.Changes s key p := by
    intro key hkey p hp
    have hsees : Framed (s.Sees p) s t :=
      (h key hkey).mono fun l hl => ⟨p, List.mem_cons_of_mem _ hp, hl⟩
    rw [Changes, writes_congr hsees, removes_congr hsees, Changes]
  ext l
  refine exists_congr fun key => and_congr_right fun hkey => ?_
  refine exists_congr fun p => and_congr_right fun hp => ?_
  rw [hchanges key hkey p hp]

/-- What is altered for one variant in a list is altered for it. -/
theorem altered_singleton : shop.altered s [key] = shop.Alters s key := by
  ext l
  simp [altered]

/-- Building the variant of a key leaves everything but what is altered for it. -/
theorem variant_kept (htools : shop.toolchain.Confined)
    (hframe : Framed (shop.Reads s key) s w.store) (config : MacroConfig) :
    Agree (shop.Alters s key)ᶜ (shop.variant config key w).1.store w.store := by
  have hframe' : ∀ other ∈ [key], Framed (shop.Reads s other) s w.store := by
    intro other hother
    rwa [List.mem_singleton.1 hother]
  rw [← altered_singleton, ← altered_congr hframe']
  exact ((keeps_within htools [key] w.store).variant List.mem_cons_self config
    (Within.refl _ _ _)).agree

/-- Building variants leaves everything but what is altered for them. -/
theorem variants_kept (htools : shop.toolchain.Confined) (config : MacroConfig)
    (hframe : ∀ key ∈ keys, Framed (shop.Reads s key) s w.store) :
    Agree (shop.altered s keys)ᶜ (shop.variants config keys w).1.store w.store := by
  rw [← altered_congr hframe]
  exact ((keeps_within htools keys w.store).variants (fun _ hkey => hkey) config
    (Within.refl _ _ _)).agree

/-! ## Variants that are apart -/

/-- Variants of a list that are apart are apart in a part of the list. -/
theorem Apart.subset {keys' : List VariantKey} (h : shop.Apart s keys) (hsub : keys' ⊆ keys) :
    shop.Apart s keys' :=
  fun _ hkey _ hother => h _ (hsub hkey) _ (hsub hother)

/-! ## Turns -/

/-- The turn of a variant among those of a list: it begins in one world and ends in another. -/
structure Turn (shop : Workshop) (config : MacroConfig) (keys : List VariantKey) (w w' : World)
    (key : VariantKey) (v v' : World) (o : Outcome) : Prop where
  around : ∃ before after built rest, keys = before ++ key :: after ∧
    shop.variants config before w = (v, .ok built) ∧
    shop.variants config after v' = (w', .ok rest)
  built : shop.variant config key v = (v', .ok o)

/-- An outcome is that of the key. -/
theorem key_of_variant {o : Outcome} (h : shop.variant config key w = (w', .ok o)) :
    o.key = key := by
  rw [variant_eq] at h
  obtain ⟨ended, -, rfl⟩ := Sequence.map_eq_ok_iff.1 (congrArg Prod.snd h)
  rfl

/-- Every outcome comes of a turn. -/
theorem exists_turn {outcomes : List Outcome}
    (h : shop.variants config keys w = (w', .ok outcomes)) {o : Outcome} (ho : o ∈ outcomes) :
    ∃ v v', shop.Turn config keys w w' o.key v v' o := by
  induction keys generalizing w outcomes with
  | nil =>
    cases h
    cases ho
  | cons key keys ih =>
    obtain ⟨w₁, first, rest, hfirst, hrest, rfl⟩ := variants_cons_eq_ok_iff.1 h
    rcases List.mem_cons.1 ho with rfl | ho
    · obtain rfl := key_of_variant hfirst
      exact ⟨w, w₁, ⟨[], keys, [], rest, rfl, rfl, hrest⟩, hfirst⟩
    · obtain ⟨v, v', ⟨before, after, built, last, rfl, hbefore, hafter⟩, hbuilt⟩ := ih hrest ho
      exact ⟨v, v', ⟨key :: before, after, first :: built, last, rfl,
        variants_cons_eq_ok_iff.2 ⟨w₁, first, built, hfirst, hbefore, rfl⟩, hafter⟩, hbuilt⟩

/-- A variant that is apart from the others finds what it reads as it was before the first turn, and
what it reads stays as it leaves it. -/
theorem turn_kept (htools : shop.toolchain.Confined) (hnodup : keys.Nodup)
    (hapart : shop.Apart w.store keys) {o : Outcome}
    (h : shop.Turn config keys w w' key v v' o) :
    Agree (shop.Reads w.store key) v.store w.store ∧
      Agree (shop.Reads w.store key) w'.store v'.store := by
  obtain ⟨⟨before, after, built, rest, rfl, hbefore, hafter⟩, hbuilt⟩ := h
  obtain ⟨-, hnodup', hdisjoint⟩ := List.nodup_append.1 hnodup
  obtain ⟨hkey, -⟩ := List.nodup_cons.1 hnodup'
  have hkey' : key ∉ before := fun hmem => hdisjoint key hmem key List.mem_cons_self rfl
  have hapart₁ : shop.Apart w.store (key :: before) := hapart.subset (by simp)
  have hapart₂ : shop.Apart w.store (key :: after) := hapart.subset (by simp)
  have hstart : ∀ other ∈ before, Framed (shop.Reads w.store other) w.store w.store :=
    fun _ _ => Framed.refl _ _
  have hfirst := variants_kept htools config hstart
  rw [hbefore] at hfirst
  have hreads := hfirst.mono (reads_subset_compl hapart₁ hkey')
  refine ⟨hreads, ?_⟩
  -- Nothing that is altered so far is on the way of a later variant.
  have hown := variant_kept htools hreads.symm.framed config
  rw [hbuilt] at hown
  have hlater : ∀ other ∈ after, Framed (shop.Reads w.store other) w.store v'.store := by
    intro other hother
    have hother' : other ∉ before := fun hmem =>
      hdisjoint other hmem other (List.mem_cons_of_mem _ hother) rfl
    have hne : key ≠ other := fun heq => hkey (heq ▸ hother)
    have hsub : shop.Reads w.store other ⊆ (shop.Alters w.store key)ᶜ := fun l hl halter =>
      hapart₂ key List.mem_cons_self other (List.mem_cons_of_mem _ hother) hne l halter hl
    have hapart' : shop.Apart w.store (other :: before) := hapart.subset (by
      intro k hk
      rcases List.mem_cons.1 hk with rfl | hk
      · simp [hother]
      · simp [hk])
    have hsub' := hfirst.mono (reads_subset_compl hapart' hother')
    exact (hsub'.symm.trans (hown.mono hsub).symm).framed
  have hlast := variants_kept htools config hlater
  rw [hafter] at hlast
  exact hlast.mono (reads_subset_compl hapart₂ hkey)

end Workshop

end ShaderVariants
