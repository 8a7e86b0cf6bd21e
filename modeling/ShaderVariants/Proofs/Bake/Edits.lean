import ShaderVariants.Proofs.Bake.Files
import ShaderVariants.Proofs.Bake.Schedule
import ShaderVariants.Proofs.Store.Level
import ShaderVariants.Proofs.Store.Thinned

/-!
# The edits of a build

With tools that write nothing but their output, a step of a variant writes one of its files, or
removes its report, or changes nothing (`edits_of_step`). What every step keeps is kept by all of
them, one variant after another and in any order (`Keeps`). Removing reports may take links away,
but it makes no new ways, so the files that were there before the first step say what is changed at
most, whatever the links are and however the steps end (`keeps_within`).
-/

namespace ShaderVariants

open Store

namespace Workshop

variable {shop : Workshop} {config : MacroConfig} {key : VariantKey}
  {keys order : List VariantKey} {defines : List String} {p q : Progress} {s t v : Store}
  {w w' : World} {floor reached : Floor}

/-! ## One step -/

/-- What a step may do to the files: nothing, or write a file of the variant, or remove the report
if reports are not kept. -/
inductive Edits (shop : Workshop) (key : VariantKey) (s : Store) : Store → Prop where
  | kept : Edits shop key s s
  | written {p : Path} {content : Content} {e : Edit} (hp : p ∈ shop.layout.artifacts key)
      (h : s.writing p content = .ok e) : Edits shop key s (e.on s)
  | removed {e : Edit} (hkeep : shop.keepReports = false)
      (h : s.removing (shop.layout.report key) = .ok e) : Edits shop key s (e.on s)

/-- A tool that writes nothing but its output, a file of the variant, writes that or nothing. -/
theorem edits_of_run {run : ToolRun} {output : Path}
    (hrun : ∃ effect : ToolEffect, run = effect.run output s)
    (houtput : output ∈ shop.layout.artifacts key) : shop.Edits key s run.store := by
  obtain ⟨effect, rfl⟩ := hrun
  show shop.Edits key s (effect.stored output s)
  unfold ToolEffect.stored
  cases effect.written with
  | none => exact .kept
  | some content =>
    dsimp only
    rw [writeContent_eq (Layout.endsInSlash_of_mem_artifacts houtput)]
    -- What cannot be written is not, and then the tool leaves the files.
    cases hwriting : s.writing output content with
    | error e => exact .kept
    | ok e => exact .written houtput hwriting

/-- A step writes a file of its variant, or removes the report, or changes nothing. -/
theorem edits_of_step (htools : shop.toolchain.Confined)
    (h : shop.step key defines p w = .ok (q, w')) : shop.Edits key w.store w'.store := by
  obtain ⟨phase, timeouts⟩ := p
  cases phase with
  | compile =>
    cases h
    exact edits_of_run (htools.compile _ _ _ _) Layout.binary_mem_artifacts
  | reflect =>
    cases h
    exact edits_of_run (htools.reflect _ _ _) Layout.report_mem_artifacts
  | normalize =>
    simp only [step] at h
    split at h
    · rename_i bundle stored hmade
      cases h
      obtain ⟨-, e, he, rfl⟩ := writing_of_normalized hmade
      exact .written Layout.resources_mem_artifacts he
    · cases h
      exact .kept
    · cases h
  | tidy rows =>
    cases h
    show shop.Edits key w.store (shop.tidied key w.store)
    unfold tidied
    cases hkeep : shop.keepReports with
    | true => exact .kept
    | false =>
      rw [if_neg (by decide), remove_eq]
      -- A report that cannot be removed stays.
      cases hremoving : w.store.removing (shop.layout.report key) with
      | error e => exact .kept
      | ok e => exact .removed hkeep hremoving
  | done result =>
    cases h
    exact .kept

/-! ## Any steps -/

/-- Every step of the variants of a list keeps a property of the files. -/
def Keeps (shop : Workshop) (keys : List VariantKey) (P : Store → Prop) : Prop :=
  ∀ key ∈ keys, ∀ defines p q w w', shop.step key defines p w = .ok (q, w') →
    P w.store → P w'.store

section

variable {P : Store → Prop} (h : shop.Keeps keys P)
include h

/-- All steps that are left for a variant keep what each step keeps. -/
theorem Keeps.finish (hkey : key ∈ keys) (defines : List String) (p : Progress)
    (hw : P w.store) : P (shop.finish key defines p w).1.store := by
  -- Every step leaves less to do, so by induction on what is left the steps come to an end.
  induction hleft : p.phase.left using Nat.strong_induction_on generalizing p w with
  | _ n ih =>
    cases hresult : p.phase.result? with
    | some result =>
      rw [finish_of_result hresult]
      exact hw
    | none =>
      cases hstep : shop.step key defines p w with
      | error e =>
        rw [finish_of_overflow hresult hstep]
        exact hw
      | ok next =>
        obtain ⟨q, w'⟩ := next
        have hless : q.phase.left < n := hleft ▸ left_lt_of_step hstep (Phase.left_ne_zero hresult)
        rw [finish_of_step hresult hstep]
        exact ih _ hless q (h key hkey _ _ _ _ _ hstep hw) rfl

/-- Building a variant keeps what each step keeps. -/
theorem Keeps.variant (hkey : key ∈ keys) (config : MacroConfig) (hw : P w.store) :
    P (shop.variant config key w).1.store := by
  rw [variant_eq]
  exact h.finish hkey _ _ hw

/-- Building variants one after another keeps what each step keeps, however it ends. -/
theorem Keeps.variants {built : List VariantKey} (hbuilt : ∀ key ∈ built, key ∈ keys)
    (config : MacroConfig) (hw : P w.store) : P (shop.variants config built w).1.store := by
  induction built generalizing w with
  | nil => exact hw
  | cons key built ih =>
    have hfirst := h.variant (hbuilt key List.mem_cons_self) config hw
    rw [Workshop.variants]
    generalize shop.variant config key w = first at hfirst
    obtain ⟨w₁, outcome⟩ := first
    cases outcome with
    | error e => exact hfirst
    | ok outcome => exact ih (fun k hk => hbuilt k (List.mem_cons_of_mem _ hk)) hfirst

/-- Steps of variants in any order keep what each step keeps. -/
theorem Keeps.work (horder : ∀ key ∈ order, key ∈ keys) (hfloor : P floor.world.store)
    (hwork : shop.work config order floor = .ok reached) : P reached.world.store := by
  induction order generalizing floor with
  | nil =>
    cases hwork
    exact hfloor
  | cons key order ih =>
    rw [Workshop.work, List.foldlM_cons] at hwork
    obtain ⟨floor', hadvance, hrest⟩ := Sequence.bind_eq_ok_iff.1 hwork
    have hstep := (advance_eq_ok hadvance).1
    exact ih (fun k hk => horder k (List.mem_cons_of_mem _ hk))
      (h key (horder key List.mem_cons_self) _ _ _ _ _ hstep hfloor) hrest

end

/-! ## What is changed at most -/

/-- The locations from which reports are removed. -/
def Removed (shop : Workshop) (s : Store) (keys : List VariantKey) : Set Location :=
  {l | shop.keepReports = false ∧ ∃ key ∈ keys, l ∈ s.Removes (shop.layout.report key)}

/-- What is removed is altered. -/
theorem removed_subset_altered : shop.Removed s keys ⊆ shop.altered s keys := by
  rintro l ⟨hkeep, key, hkey, hl⟩
  exact ⟨key, hkey, _, Layout.report_mem_artifacts, .inr ⟨rfl, hkeep, hl⟩⟩

/-- The store differs from the one before the first step only where the variants alter something,
and it has all its directories, links and devices, but for those that were removed as reports. -/
structure Within (shop : Workshop) (keys : List VariantKey) (s v : Store) : Prop where
  thinned : Thinned (shop.Removed s keys) v s
  agree : Agree (shop.altered s keys)ᶜ v s

/-- Before the first step nothing is changed. -/
theorem Within.refl (shop : Workshop) (keys : List VariantKey) (s : Store) :
    shop.Within keys s s :=
  ⟨Thinned.refl _ s, Agree.refl _ s⟩

/-- The edits of a variant change nothing but what is altered for the variants. -/
theorem Within.edits (h : shop.Within keys s v) (hkey : key ∈ keys) (hedits : shop.Edits key v t) :
    shop.Within keys s t := by
  cases hedits with
  | kept => exact h
  | @written p content e hp hwriting =>
    have helsewhere : Agree (shop.altered s keys)ᶜ (e.on v) v := by
      refine Edit.agree_on_self fun l hl hnot => hnot ?_
      -- The file is where it was before the first step, or where a report was.
      rcases h.thinned.writes_subset (mem_writes_of_writing hwriting hl) with hwrites | hremoved
      · exact ⟨key, hkey, p, hp, .inl hwrites⟩
      · exact removed_subset_altered hremoved
    exact ⟨h.thinned.of_framed (framed_of_writing hwriting), helsewhere.trans h.agree⟩
  | removed hkeep hremoving =>
    obtain ⟨l, node, -, -, -, rfl⟩ := removing_eq_ok_iff.1 hremoving
    -- A report is removed from where it was, or from where another one was removed before.
    have hremoved : l ∈ shop.Removed s keys := by
      rcases h.thinned.removes_subset (mem_removes_of_removing hremoving rfl) with hremoves | hmem
      · exact ⟨hkeep, key, hkey, hremoves⟩
      · exact hmem
    have helsewhere : Agree (shop.altered s keys)ᶜ (v.clear l) v := by
      refine Edit.agree_on_self (e := .clear l) fun l hl hnot => hnot ?_
      cases hl
      exact removed_subset_altered hremoved
    exact ⟨h.thinned.clear hremoved, helsewhere.trans h.agree⟩

/-- No step changes more than what is altered for the variants. -/
theorem keeps_within (htools : shop.toolchain.Confined) (keys : List VariantKey) (s : Store) :
    shop.Keeps keys (shop.Within keys s) :=
  fun _ hkey _ _ _ _ _ hstep h => h.edits hkey (edits_of_step htools hstep)

end Workshop

end ShaderVariants
