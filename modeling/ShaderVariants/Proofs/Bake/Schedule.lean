import Mathlib.Logic.Function.Basic
import ShaderVariants.Proofs.Bake.Steps

/-!
# Orders of the steps of many variants

When several variants are under way at a time, their steps come in some order: a list that says
whose step is next. The work on all variants (`Workshop.work`) keeps what has become of each, and
the world that they share.

If no variant alters what another one reads (`Workshop.Apart`), each goes through its steps as if it
were alone (`Workshop.solo`), in every order as well as one after another; so all orders come to the
same outcomes and the same files (`Workshop.work_agrees`).
-/

namespace ShaderVariants

open Store

/-- What has become of the variants so far, and the world that they share. -/
structure Floor where
  progress : VariantKey → Progress
  world : World

/-- Nothing is left to do for the variants of a list. -/
def Floor.Done (keys : List VariantKey) (floor : Floor) : Prop :=
  ∀ key ∈ keys, (floor.progress key).phase.result? ≠ none

namespace Workshop

/-- The macros of a variant and its first phase. A key that is none of the configuration is done
before it begins. -/
def begun (config : MacroConfig) (key : VariantKey) : List String × Progress :=
  match config.defines key with
  | .error e => ([], ⟨.done (.error (.config e)), []⟩)
  | .ok defines => (defines, .initial)

/-- The outcome of a variant that is done. -/
def outcome (shop : Workshop) (config : MacroConfig) (key : VariantKey)
    (result : Except VariantError Nat) (timeouts : List ToolError) : Outcome :=
  { key, defines := (begun config key).1, binary := shop.layout.binary key,
    resources := shop.layout.resources key, result, timeouts }

/-- The work before the first step. -/
def opened (config : MacroConfig) (w : World) : Floor :=
  ⟨fun key => (begun config key).2, w⟩

/-- The work after the next step of a variant. -/
def advance (shop : Workshop) (config : MacroConfig) (floor : Floor) (key : VariantKey) :
    Except Overflow Floor :=
  (shop.step key (begun config key).1 (floor.progress key) floor.world).map fun (q, w) =>
    ⟨Function.update floor.progress key q, w⟩

/-- The work after steps of the variants in an order. -/
def work (shop : Workshop) (config : MacroConfig) (order : List VariantKey) (floor : Floor) :
    Except Overflow Floor :=
  order.foldlM (shop.advance config) floor

/-- The outcome of a variant, when it is done. -/
def outcome? (shop : Workshop) (config : MacroConfig) (floor : Floor) (key : VariantKey) :
    Option Outcome :=
  (floor.progress key).phase.result?.map fun result =>
    shop.outcome config key result (floor.progress key).timeouts

/-- No variant alters what another one reads. -/
def Apart (shop : Workshop) (s : Store) (keys : List VariantKey) : Prop :=
  ∀ key ∈ keys, ∀ other ∈ keys, key ≠ other → ∀ l ∈ shop.Alters s key, l ∉ shop.Reads s other

/-- What comes of a variant that is alone. -/
def solo (shop : Workshop) (config : MacroConfig) (v : World) (key : VariantKey) :
    World × Except Overflow (Except VariantError Nat × List ToolError) :=
  shop.finish key (begun config key).1 (begun config key).2 v

variable {shop : Workshop} {config : MacroConfig} {keys order : List VariantKey}
  {key other : VariantKey} {v w : World} {floor reached : Floor}

/-- What is altered for the variants of a list. -/
def altered (shop : Workshop) (s : Store) (keys : List VariantKey) : Set Location :=
  {l | ∃ key ∈ keys, l ∈ shop.Alters s key}

/-- What a step of one variant does for each. -/
theorem advance_eq_ok (h : shop.advance config floor key = .ok reached) :
    shop.step key (begun config key).1 (floor.progress key) floor.world =
        .ok (reached.progress key, reached.world) ∧
      ∀ other, other ≠ key → reached.progress other = floor.progress other := by
  obtain ⟨⟨q, v⟩, hstep, rfl⟩ := Sequence.map_eq_ok_iff.1 h
  refine ⟨?_, fun other hne => Function.update_of_ne hne _ _⟩
  rw [hstep]
  simp only [Function.update_self]

/-! ## One after another -/

/-- Building a variant is going through its steps. -/
theorem variant_eq (shop : Workshop) (config : MacroConfig) (key : VariantKey) (w : World) :
    shop.variant config key w =
      ((shop.finish key (begun config key).1 (begun config key).2 w).1,
        (shop.finish key (begun config key).1 (begun config key).2 w).2.map fun ended =>
          shop.outcome config key ended.1 ended.2) := by
  unfold variant outcome begun
  cases config.defines key with
  | error e =>
    dsimp only
    rw [finish_of_result rfl]
    rfl
  | ok defines => rfl

/-- Building variants is going through the steps of one, and then building the others. -/
theorem variants_cons {ended : Except VariantError ℕ × List ToolError} {w₁ w₂ : World}
    {rest : List Outcome}
    (hfinish : shop.finish key (begun config key).1 (begun config key).2 w = (w₁, .ok ended))
    (hrest : shop.variants config keys w₁ = (w₂, .ok rest)) :
    shop.variants config (key :: keys) w =
      (w₂, .ok (shop.outcome config key ended.1 ended.2 :: rest)) := by
  rw [variants, variant_eq, hfinish]
  dsimp only [Except.map]
  rw [hrest]

/-- The outcomes of variants are that of the first, and those of the others after it. -/
theorem variants_cons_eq_ok_iff {w' : World} {outcomes : List Outcome} :
    shop.variants config (key :: keys) w = (w', .ok outcomes) ↔
      ∃ v o rest, shop.variant config key w = (v, .ok o) ∧
        shop.variants config keys v = (w', .ok rest) ∧ outcomes = o :: rest := by
  rw [variants]
  cases hfirst : shop.variant config key w with
  | mk v first =>
    cases first with
    | error e => simp
    | ok o =>
      dsimp only
      cases hrest : shop.variants config keys v with
      | mk u rest =>
        constructor
        · intro h
          obtain ⟨rfl, hrest'⟩ := Prod.mk.inj h
          obtain ⟨rest, rfl, rfl⟩ := Sequence.map_eq_ok_iff.1 hrest'
          exact ⟨v, o, rest, rfl, hrest, rfl⟩
        · rintro ⟨v', o', rest', heq, hrest', rfl⟩
          cases heq
          cases hrest.symm.trans hrest'
          rfl

/-- Variants that are apart are apart from fewer others. -/
theorem Apart.tail {s : Store} (h : shop.Apart s (key :: keys)) : shop.Apart s keys :=
  fun a ha b hb => h a (List.mem_cons_of_mem _ ha) b (List.mem_cons_of_mem _ hb)

/-- A variant reads nothing that is altered for the others. -/
theorem reads_subset_compl {s : Store} (hapart : shop.Apart s (key :: keys)) (hkey : key ∉ keys) :
    shop.Reads s key ⊆ (shop.altered s keys)ᶜ := by
  rintro l hl ⟨other, hother, halters⟩
  have hne : other ≠ key := by
    rintro rfl
    exact hkey hother
  exact hapart other (List.mem_cons_of_mem _ hother) key List.mem_cons_self hne l halters hl

/-- Variants that are built one after another each come out as if they were alone. -/
theorem variants_solo (htools : shop.toolchain.Deterministic) (hnodup : keys.Nodup)
    (hapart : shop.Apart v.store keys)
    (hagree : ∀ key ∈ keys, Agree (shop.Reads v.store key) v.store w.store) {w' : World}
    {outcomes : List Outcome} (h : shop.variants config keys w = (w', .ok outcomes)) :
    (keys.map fun key => (shop.solo config v key).2.map fun ended =>
        shop.outcome config key ended.1 ended.2) = outcomes.map .ok ∧
      (∀ key ∈ keys, Agree (shop.Reads v.store key) (shop.solo config v key).1.store w'.store) ∧
      Agree (shop.altered v.store keys)ᶜ w'.store w.store := by
  induction keys generalizing w outcomes with
  | nil =>
    cases h
    exact ⟨rfl, nofun, Agree.refl _ _⟩
  | cons key keys ih =>
    obtain ⟨hkey, hnodup⟩ := List.nodup_cons.1 hnodup
    obtain ⟨hresult, hreads, halters⟩ :=
      finish_alike htools (hagree key List.mem_cons_self) (begun config key).1
        (begun config key).2 fun _ => Framed.refl _ _
    rw [variants, variant_eq] at h
    generalize hfinish : shop.finish key (begun config key).1 (begun config key).2 w = finished
      at h hresult hreads halters
    obtain ⟨w₁, ended⟩ := finished
    cases ended with
    | error e => cases h
    | ok ended =>
      generalize hrest : shop.variants config keys w₁ = built at h
      obtain ⟨w₂, rest⟩ := built
      simp only [Except.map, hrest] at h
      cases rest with
      | error e => cases h
      | ok rest =>
        cases h
        -- What was altered for this variant is nowhere that a later one reads.
        have hothers : ∀ other ∈ keys, Agree (shop.Reads v.store other) v.store w₁.store := by
          intro other hother
          have hsub : shop.Reads v.store other ⊆ (shop.Alters v.store key)ᶜ := fun l hl halter =>
            hapart key List.mem_cons_self other (List.mem_cons_of_mem _ hother)
              (fun heq => hkey (heq ▸ hother)) l halter hl
          exact (hagree other (List.mem_cons_of_mem _ hother)).trans (halters.mono hsub).symm
        obtain ⟨houtcomes, hothers', hrest'⟩ := ih hnodup hapart.tail hothers hrest
        refine ⟨?_, ?_, ?_⟩
        · rw [List.map_cons, List.map_cons, houtcomes]
          congr 1
          rw [solo, hresult]
          rfl
        · intro other hother
          rcases List.mem_cons.1 hother with rfl | hother
          · exact hreads.trans (hrest'.mono (reads_subset_compl hapart hkey)).symm
          · exact hothers' other hother
        · have hsub : (shop.altered v.store (key :: keys))ᶜ ⊆ (shop.altered v.store keys)ᶜ :=
            fun l hl ⟨other, hother, halter⟩ => hl ⟨other, List.mem_cons_of_mem _ hother, halter⟩
          have hsub' : (shop.altered v.store (key :: keys))ᶜ ⊆ (shop.Alters v.store key)ᶜ :=
            fun l hl halter => hl ⟨key, List.mem_cons_self, halter⟩
          exact (hrest'.mono hsub).trans (halters.mono hsub')

/-! ## In any order -/

/-- The state of the work while the variants of a list are under way: what is left to do for a
variant comes to what comes of it alone, in a world that agrees with the shared one where the
variant reads; and only what the variants alter has changed. -/
structure Underway (shop : Workshop) (config : MacroConfig) (keys : List VariantKey) (v : World)
    (floor : Floor) : Prop where
  alone : ∀ key ∈ keys, ∃ u : World,
    shop.finish key (begun config key).1 (floor.progress key) u = shop.solo config v key ∧
      Agree (shop.Reads v.store key) u.store floor.world.store ∧
      ((floor.progress key).phase.result? = none →
        Framed (shop.Reads v.store key) v.store u.store)
  rest : Agree (shop.altered v.store keys)ᶜ floor.world.store v.store

/-- The work is under way before the first step. -/
theorem opened_underway : shop.Underway config keys v (opened config v) :=
  ⟨fun _ _ => ⟨v, rfl, Agree.refl _ _, fun _ => Framed.refl _ _⟩, Agree.refl _ _⟩

/-- Nothing is done in a step of a variant that is done. -/
theorem step_of_result {p : Progress} {defines : List String} {result : Except VariantError ℕ}
    (h : p.phase.result? = some result) : shop.step key defines p w = .ok (p, w) := by
  obtain ⟨phase, timeouts⟩ := p
  cases phase <;> cases h
  rfl

/-- A step of a variant that does not overflow alone does not overflow, and leaves the work under
way. -/
theorem advance_underway (htools : shop.toolchain.Deterministic)
    (hapart : shop.Apart v.store keys) (hkey : key ∈ keys)
    (hsolo : (shop.solo config v key).2.isOk = true) (h : shop.Underway config keys v floor) :
    ∃ floor', shop.advance config floor key = .ok floor' ∧ shop.Underway config keys v floor' := by
  obtain ⟨u, hfinish, hagree, hframe⟩ := h.alone key hkey
  cases hresult : (floor.progress key).phase.result? with
  | some result =>
    refine ⟨floor, ?_, h⟩
    rw [advance, step_of_result hresult]
    simp only [Except.map, Function.update_eq_self]
  | none =>
    have hstep := step_alike (hframe hresult) hagree htools (begun config key).1
      (floor.progress key)
    generalize hu : shop.step key (begun config key).1 (floor.progress key) u = u' at hstep
    generalize hw : shop.step key (begun config key).1 (floor.progress key) floor.world = w'
      at hstep
    cases hstep with
    | overflow e =>
      -- The variant would overflow alone as well.
      rw [← hfinish, finish_of_overflow hresult hu] at hsolo
      cases hsolo
    | edit e q hve hwe htarget hkept =>
      rename_i u' w'
      refine ⟨_, by rw [advance, hw]; rfl, ?_, ?_⟩
      · intro other hother
        by_cases heq : other = key
        · -- The variant makes the same step in its own world.
          subst heq
          refine ⟨u', ?_, ?_, ?_⟩
          · simp only [Function.update_self]
            rw [← finish_of_step hresult hu, hfinish]
          · rw [hve]
            simp only [hwe]
            exact Edit.agree_on e hagree
          · simp only [Function.update_self]
            intro hq
            rw [hve]
            exact (hframe hresult).trans ((hkept hq).mono (Set.subset_univ _)).symm
        · -- For any other variant, nothing that it reads has changed.
          obtain ⟨u'', hfinish'', hagree'', hframe''⟩ := h.alone other hother
          refine ⟨u'', ?_, ?_, ?_⟩
          · simp only [Function.update_of_ne heq]
            exact hfinish''
          · refine hagree''.trans ?_
            simp only [hwe]
            exact (Edit.agree_on_self fun l hl =>
              hapart key hkey other hother (Ne.symm heq) l (htarget l hl)).symm
          · simp only [Function.update_of_ne heq]
            exact hframe''
      · have helsewhere : Agree (shop.altered v.store keys)ᶜ (e.on floor.world.store)
            floor.world.store :=
          Edit.agree_on_self fun l hl hnot => hnot ⟨key, hkey, htarget l hl⟩
        simp only [hwe]
        exact helsewhere.trans h.rest

/-- Steps of variants that do not overflow alone do not overflow in any order, and leave the work
under way. -/
theorem work_underway (htools : shop.toolchain.Deterministic) (hapart : shop.Apart v.store keys)
    (horder : ∀ key ∈ order, key ∈ keys)
    (hsolo : ∀ key ∈ keys, (shop.solo config v key).2.isOk = true)
    (h : shop.Underway config keys v floor) :
    ∃ floor', shop.work config order floor = .ok floor' ∧
      shop.Underway config keys v floor' := by
  induction order generalizing floor with
  | nil => exact ⟨floor, rfl, h⟩
  | cons key order ih =>
    have hkey := horder key List.mem_cons_self
    obtain ⟨floor₁, hadvance, h₁⟩ := advance_underway htools hapart hkey (hsolo key hkey) h
    obtain ⟨floor₂, hwork, h₂⟩ := ih (fun k hk => horder k (List.mem_cons_of_mem _ hk)) h₁
    refine ⟨floor₂, ?_, h₂⟩
    rw [work, List.foldlM_cons, hadvance, Sequence.ok_bind]
    exact hwork

/-- A variant that is done came out as if it were alone. -/
theorem Underway.solo_of_done (h : shop.Underway config keys v floor) (hkey : key ∈ keys)
    (hdone : (floor.progress key).phase.result? ≠ none) :
    ((shop.solo config v key).2.map fun ended => shop.outcome config key ended.1 ended.2).toOption =
        shop.outcome? config floor key ∧
      Agree (shop.Reads v.store key) (shop.solo config v key).1.store floor.world.store := by
  obtain ⟨u, hfinish, hagree, -⟩ := h.alone key hkey
  obtain ⟨result, hresult⟩ := Option.ne_none_iff_exists'.1 hdone
  rw [finish_of_result hresult] at hfinish
  rw [← hfinish, outcome?, hresult]
  exact ⟨rfl, hagree⟩

/-- **All orders of the steps come to the same.** If building variants one after another does not
overflow, and no variant alters what another one reads, then no order of their steps overflows, and
when nothing is left to do the outcomes and the files are the same. -/
theorem work_agrees (htools : shop.toolchain.Deterministic) (hnodup : keys.Nodup)
    (hapart : shop.Apart v.store keys) (horder : ∀ key ∈ order, key ∈ keys) {w' : World}
    {outcomes : List Outcome} (h : shop.variants config keys v = (w', .ok outcomes)) :
    ∃ floor, shop.work config order (opened config v) = .ok floor ∧
      (floor.Done keys →
        keys.map (shop.outcome? config floor) = outcomes.map some ∧
          Same floor.world.store w'.store) := by
  obtain ⟨houtcomes, hreads, hrest⟩ :=
    variants_solo htools hnodup hapart (fun key _ => Agree.refl _ _) h
  have hsolo : ∀ key ∈ keys, (shop.solo config v key).2.isOk = true := by
    intro key hkey
    -- There is an outcome for each variant, so none overflows alone.
    have hmem := List.mem_map_of_mem (f := fun key => (shop.solo config v key).2.map fun ended =>
      shop.outcome config key ended.1 ended.2) hkey
    rw [houtcomes] at hmem
    obtain ⟨outcome, -, hok⟩ := List.mem_map.1 hmem
    cases hended : (shop.solo config v key).2 with
    | error e =>
      rw [hended] at hok
      cases hok
    | ok ended => rfl
  obtain ⟨floor, hwork, hunderway⟩ := work_underway htools hapart horder hsolo opened_underway
  refine ⟨floor, hwork, fun hdone => ⟨?_, ?_, fun l => ?_⟩⟩
  · calc keys.map (shop.outcome? config floor)
        = keys.map fun key => ((shop.solo config v key).2.map fun ended =>
            shop.outcome config key ended.1 ended.2).toOption :=
          List.map_congr_left fun key hkey =>
            (hunderway.solo_of_done hkey (hdone key hkey)).1.symm
      _ = (outcomes.map Except.ok).map Except.toOption := by
          rw [← houtcomes, List.map_map]
          rfl
      _ = outcomes.map some := by
          rw [List.map_map]
          rfl
  · exact hunderway.rest.1.trans hrest.1.symm
  · -- What is altered for a variant is as the variant left it, and all else is as it was.
    by_cases hl : l ∈ shop.altered v.store keys
    · obtain ⟨key, hkey, halter⟩ := hl
      have hreads' := (hunderway.solo_of_done hkey (hdone key hkey)).2
      have hmem := alters_subset_reads halter
      rw [← hreads'.2 l hmem, (hreads key hkey).2 l hmem]
    · rw [hunderway.rest.2 l hl, hrest.2 l hl]

end Workshop

end ShaderVariants
