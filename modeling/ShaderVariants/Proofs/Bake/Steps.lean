import ShaderVariants.Bake
import ShaderVariants.Proofs.Layout.Artifacts

/-!
# What the steps of a variant depend on and change

A deterministic tool answers by its arguments and the content of its input, and writes nothing but
its output (`Toolchain.Deterministic`). With such tools every step of a variant depends on the ways
of the source and of the variant's own files (`Reads`), and changes one of those files at most
(`Alters`): worlds that agree on what the variant reads go through the step alike (`step_alike`),
and through all steps that are left (`finish_alike`).
-/

namespace ShaderVariants

open Store

/-! ## Deterministic tools -/

/-- What a tool comes to when it has seen its input. -/
structure ToolEffect where
  result : Except ToolError Unit
  /-- What it writes to its output, if anything. -/
  written : Option Content
  printed : Console

namespace ToolEffect

/-- The store in which the tool has written what it writes. What cannot be written is not. -/
def stored (effect : ToolEffect) (output : Path) (s : Store) : Store :=
  match effect.written with
  | none => s
  | some content => (s.writeContent output content).toOption.getD s

/-- The use of a tool that comes to an effect. -/
def run (effect : ToolEffect) (output : Path) (s : Store) : ToolRun :=
  { result := effect.result, store := effect.stored output s, printed := effect.printed }

/-- A tool makes one edit, the same in stores that agree along the ways of its output. -/
theorem exists_edit (effect : ToolEffect) {output : Path} {s t : Store}
    (houtput : Path.endsInSlash output = false) (h : Agree (s.Sees output) s t) :
    ∃ e : Edit, effect.stored output s = e.on s ∧ effect.stored output t = e.on t ∧
      (∀ l ∈ e.target, l ∈ s.Writes output) ∧ Framed Set.univ (e.on s) s := by
  unfold stored
  cases effect.written with
  | none => exact ⟨.keep, rfl, rfl, nofun, Framed.refl _ _⟩
  | some content =>
    dsimp only
    rw [writeContent_eq houtput, writeContent_eq houtput, ← writing_congr h]
    cases hwriting : s.writing output content with
    | error e => exact ⟨.keep, rfl, rfl, nofun, Framed.refl _ _⟩
    | ok e =>
      exact ⟨e, rfl, rfl, fun l hl => mem_writes_of_writing hwriting hl,
        framed_of_writing hwriting⟩

end ToolEffect

/-- Every use of a tool is settled by its arguments and the content of its input, and writes nothing
but its output. -/
structure Toolchain.Deterministic (tools : Toolchain) : Prop where
  compile : ∀ source defines output, ∃ effect : Option Content → ToolEffect, ∀ s,
    tools.compile source defines output s = (effect (s.content source).toOption).run output s
  reflect : ∀ binary output, ∃ effect : Option Content → ToolEffect, ∀ s,
    tools.reflect binary output s = (effect (s.content binary).toOption).run output s

namespace Workshop

/-- What the compiler comes to for a variant. -/
def compiled (shop : Workshop) (key : VariantKey) (defines : List String) (w : World) : ToolRun :=
  shop.toolchain.run (shop.compileCall key defines) w.store

/-- What the reflector comes to for a variant. -/
def reflected (shop : Workshop) (key : VariantKey) (w : World) : ToolRun :=
  shop.toolchain.run (shop.reflectCall key) w.store

variable {shop : Workshop} {key : VariantKey} {defines : List String} {s : Store} {v w : World}

/-! ## Reading and altering -/

/-- The locations that decide about a variant: those on the ways of the source and of its files. -/
def Reads (shop : Workshop) (s : Store) (key : VariantKey) : Set Location :=
  {l | ∃ p ∈ shop.layout.source :: shop.layout.artifacts key, l ∈ s.Sees p}

/-- The locations that are changed for a variant by way of one of its files. Only reports are
removed, if they are not kept. -/
def Changes (shop : Workshop) (s : Store) (key : VariantKey) (p : Path) : Set Location :=
  {l | l ∈ s.Writes p ∨ p = shop.layout.report key ∧ shop.keepReports = false ∧ l ∈ s.Removes p}

/-- The locations that are changed for a variant. -/
def Alters (shop : Workshop) (s : Store) (key : VariantKey) : Set Location :=
  {l | ∃ p ∈ shop.layout.artifacts key, l ∈ shop.Changes s key p}

/-- What is changed by way of a path is on its way, and no directory. -/
theorem node_of_mem_changes {p : Path} {l : Location} (h : l ∈ shop.Changes s key p) :
    l ∈ s.Sees p ∧ s.node? l ≠ some .directory := by
  rcases h with h | ⟨-, -, h⟩
  · obtain ⟨hmem, -, hnone⟩ := node_of_mem_writes h
    refine ⟨hmem, fun hdir => ?_⟩
    rw [hdir] at hnone
    cases hnone
  · obtain ⟨hmem, -, hdir⟩ := node_of_mem_removes h
    exact ⟨hmem, hdir⟩

/-- What is changed for a variant decides about it. -/
theorem alters_subset_reads : shop.Alters s key ⊆ shop.Reads s key := by
  rintro l ⟨p, hp, hl⟩
  exact ⟨p, List.mem_cons_of_mem _ hp, (node_of_mem_changes hl).1⟩

/-- Stores with one frame where a variant reads have the same ways of its files. -/
theorem framed_sees (h : Framed (shop.Reads s key) s v.store) {p : Path}
    (hp : p ∈ shop.layout.source :: shop.layout.artifacts key) :
    Framed (s.Sees p) s v.store :=
  h.mono fun _ hl => ⟨p, hp, hl⟩

/-- Worlds that agree where a variant reads agree along the ways of its files. -/
theorem agree_sees (hframe : Framed (shop.Reads s key) s v.store)
    (h : Agree (shop.Reads s key) v.store w.store) {p : Path}
    (hp : p ∈ shop.layout.source :: shop.layout.artifacts key) :
    Agree (v.store.Sees p) v.store w.store := by
  rw [sees_congr (framed_sees hframe hp)]
  exact h.mono fun _ hl => ⟨p, hp, hl⟩

/-! ## One step -/

/-- Two results of a step for one variant: both overflow, or the same edit is made in both worlds at
a location in `W`, and the same progress. Directories and links stay until the variant is done. -/
inductive Alike (W : Set Location) (v w : World) :
    Except Overflow (Progress × World) → Except Overflow (Progress × World) → Prop where
  | overflow (e : Overflow) : Alike W v w (.error e) (.error e)
  | edit (e : Edit) (q : Progress) {v' w' : World} (hv : v'.store = e.on v.store)
      (hw : w'.store = e.on w.store) (htarget : ∀ l ∈ e.target, l ∈ W)
      (hframe : q.phase.result? = none → Framed Set.univ (e.on v.store) v.store) :
      Alike W v w (.ok (q, v')) (.ok (q, w'))

section

variable (hframe : Framed (shop.Reads s key) s v.store)
include hframe

/-- What is written by way of a file of the variant is changed for it. -/
theorem mem_alters_of_writes {p : Path} {l : Location} (hp : p ∈ shop.layout.artifacts key)
    (hl : l ∈ v.store.Writes p) : l ∈ shop.Alters s key := by
  rw [writes_congr (framed_sees hframe (List.mem_cons_of_mem _ hp))] at hl
  exact ⟨p, hp, .inl hl⟩

/-- What is removed by way of the report of the variant is changed for it. -/
theorem mem_alters_of_removes {l : Location} (hkeep : shop.keepReports = false)
    (hl : l ∈ v.store.Removes (shop.layout.report key)) : l ∈ shop.Alters s key := by
  rw [removes_congr (framed_sees hframe (by simp))] at hl
  exact ⟨_, Layout.report_mem_artifacts, .inr ⟨rfl, hkeep, hl⟩⟩

variable (hagree : Agree (shop.Reads s key) v.store w.store)
include hagree

/-- The compiler and the reflector work alike in worlds that agree. -/
theorem use_alike (call : ToolCall) {input output : Path}
    (hcall : ∃ effect : Option Content → ToolEffect, ∀ s,
      shop.toolchain.run call s = (effect (s.content input).toOption).run output s)
    (hinput : input ∈ shop.layout.source :: shop.layout.artifacts key)
    (houtput : output ∈ shop.layout.artifacts key) (p : Progress) (next : Phase) :
    Alike (shop.Alters s key) v w
      (.ok (p.afterTool (v.use shop.toolchain call).1 next, (v.use shop.toolchain call).2))
      (.ok (p.afterTool (w.use shop.toolchain call).1 next, (w.use shop.toolchain call).2)) := by
  obtain ⟨effect, heffect⟩ := hcall
  unfold World.use
  rw [heffect, heffect, ← content_congr (agree_sees hframe hagree hinput)]
  obtain ⟨e, hv, hw, htarget, hkept⟩ :=
    (effect (v.store.content input).toOption).exists_edit
      (Layout.endsInSlash_of_mem_artifacts houtput)
      (agree_sees hframe hagree (List.mem_cons_of_mem _ houtput))
  exact .edit e _ hv hw (fun l hl => mem_alters_of_writes hframe houtput (htarget l hl))
    fun _ => hkept

/-- The resource table is made alike in worlds that agree: it is written by one edit, or nothing
is. -/
theorem normalized_alike :
    (∃ halt, shop.normalized key v = .error halt ∧ shop.normalized key w = .error halt) ∨
      ∃ (bundle : ResourceBundle) (e : Edit), shop.normalized key v = .ok (bundle, e.on v.store) ∧
        shop.normalized key w = .ok (bundle, e.on w.store) ∧
        (∀ l ∈ e.target, l ∈ shop.Alters s key) ∧ Framed Set.univ (e.on v.store) v.store := by
  have hresources : shop.layout.resources key ∈ shop.layout.artifacts key := by simp
  have hread := read_congr
    (agree_sees hframe hagree (List.mem_cons_of_mem _ Layout.report_mem_artifacts))
  have hslash := Layout.endsInSlash_of_mem_artifacts hresources
  have hsees := agree_sees hframe hagree (List.mem_cons_of_mem _ hresources)
  -- One report is read in both worlds, so they can differ only from the writing on.
  unfold normalized Report.normalizeFile
  rw [← hread]
  cases v.store.read (shop.layout.report key) with
  | error e => exact .inl ⟨_, rfl, rfl⟩
  | ok text =>
    simp only [Except.mapError, Halt.ofExcept, Sequence.ok_bind]
    cases Report.bundleOfText text shop.tables with
    | error halt => exact .inl ⟨_, rfl, rfl⟩
    | ok bundle =>
      simp only [Sequence.ok_bind, ResourceBundle.save, write]
      rw [writeContent_eq hslash, writeContent_eq hslash, ← writing_congr hsees]
      cases hwriting : v.store.writing (shop.layout.resources key) (.text bundle.text) with
      | error e => exact .inl ⟨_, rfl, rfl⟩
      | ok e =>
        exact .inr ⟨bundle, e, rfl, rfl,
          fun l hl => mem_alters_of_writes hframe hresources (mem_writes_of_writing hwriting hl),
          framed_of_writing hwriting⟩

/-- The report is removed alike in worlds that agree. -/
theorem tidied_alike :
    ∃ e : Edit, shop.tidied key v.store = e.on v.store ∧ shop.tidied key w.store = e.on w.store ∧
      ∀ l ∈ e.target, l ∈ shop.Alters s key := by
  have hsees := agree_sees hframe hagree
    (List.mem_cons_of_mem _ (Layout.report_mem_artifacts : shop.layout.report key ∈ _))
  unfold tidied
  by_cases hkeep : shop.keepReports = true
  · rw [if_pos hkeep, if_pos hkeep]
    exact ⟨.keep, rfl, rfl, nofun⟩
  · rw [if_neg hkeep, if_neg hkeep, remove_eq, remove_eq, ← removing_congr hsees]
    cases hremoving : v.store.removing (shop.layout.report key) with
    | error e => exact ⟨.keep, rfl, rfl, nofun⟩
    | ok e =>
      refine ⟨e, rfl, rfl, fun l hl => ?_⟩
      exact mem_alters_of_removes hframe (Bool.eq_false_iff.2 hkeep)
        (mem_removes_of_removing hremoving hl)

/-- Every step of a variant goes alike in worlds that agree where the variant reads. -/
theorem step_alike (htools : shop.toolchain.Deterministic) (defines : List String) (p : Progress) :
    Alike (shop.Alters s key) v w (shop.step key defines p v) (shop.step key defines p w) := by
  obtain ⟨phase, timeouts⟩ := p
  cases phase with
  | compile =>
    exact use_alike hframe hagree (shop.compileCall key defines) (htools.compile _ _ _) (by simp)
      (by simp) _ _
  | reflect =>
    exact use_alike hframe hagree (shop.reflectCall key) (htools.reflect _ _) (by simp) (by simp)
      _ _
  | normalize =>
    simp only [step]
    rcases normalized_alike hframe hagree with ⟨halt, hv, hw⟩ | ⟨bundle, e, hv, hw, htarget, hkept⟩
    · rw [hv, hw]
      cases halt with
      | overflow => exact .overflow _
      | fault e => exact .edit .keep _ rfl rfl nofun fun _ => Framed.refl _ _
    · rw [hv, hw]
      exact .edit e _ rfl rfl htarget fun _ => hkept
  | tidy rows =>
    -- The report may be a link, so the frame may be lost; but this is the last step.
    obtain ⟨e, hv, hw, htarget⟩ := tidied_alike hframe hagree
    exact .edit e _ hv hw htarget nofun
  | done result => exact .edit .keep _ rfl rfl nofun fun _ => Framed.refl _ _

end

/-! ## All steps that are left -/

/-- A variant with a result has no step left. -/
theorem finish_of_result {p : Progress} {result : Except VariantError ℕ}
    (h : p.phase.result? = some result) :
    shop.finish key defines p w = (w, .ok (result, p.timeouts)) := by
  rw [finish]
  split
  · rename_i h'
    rw [h] at h'
    cases h'
    rfl
  · rename_i h'
    rw [h] at h'
    cases h'

/-- The steps that are left are the next one and those left after it. -/
theorem finish_of_step {p q : Progress} (hp : p.phase.result? = none)
    (h : shop.step key defines p w = .ok (q, v)) :
    shop.finish key defines p w = shop.finish key defines q v := by
  rw [finish]
  split
  · rename_i h'
    rw [hp] at h'
    cases h'
  · split
    · rename_i h'
      rw [h] at h'
      cases h'
      rfl
    · rename_i h'
      rw [h] at h'
      cases h'

/-- An overflow is the end of the steps. -/
theorem finish_of_overflow {p : Progress} {e : Overflow} (hp : p.phase.result? = none)
    (h : shop.step key defines p w = .error e) : shop.finish key defines p w = (w, .error e) := by
  rw [finish]
  split
  · rename_i h'
    rw [hp] at h'
    cases h'
  · split
    · rename_i h'
      rw [h] at h'
      cases h'
    · rfl

/-- A variant whose binary cannot be reflected ends there. -/
theorem finish_of_reflect_failed {e : ToolError} {w₁ w₂ : World}
    (hcompile : shop.step key defines .initial w = .ok (⟨.reflect, []⟩, w₁))
    (hreflect : shop.step key defines ⟨.reflect, []⟩ w₁ =
      .ok (⟨.done (.error (.tool e)), []⟩, w₂)) :
    shop.finish key defines .initial w = (w₂, .ok (.error (.tool e), [])) := by
  rw [finish_of_step rfl hcompile, finish_of_step rfl hreflect, finish_of_result rfl]

/-- All steps that are left for a variant go alike in worlds that agree where it reads: the result
is the same, the worlds agree there again, and they are changed only where the variant alters
something. -/
theorem finish_alike (htools : shop.toolchain.Deterministic)
    (hagree : Agree (shop.Reads s key) v.store w.store) (defines : List String) (p : Progress)
    (hframe : p.phase.result? = none → Framed (shop.Reads s key) s v.store) :
    (shop.finish key defines p v).2 = (shop.finish key defines p w).2 ∧
      Agree (shop.Reads s key) (shop.finish key defines p v).1.store
        (shop.finish key defines p w).1.store ∧
      Agree (shop.Alters s key)ᶜ (shop.finish key defines p w).1.store w.store := by
  induction hleft : p.phase.left using Nat.strong_induction_on generalizing p v w with
  | _ n ih =>
    cases hresult : p.phase.result? with
    | some result =>
      rw [finish_of_result hresult, finish_of_result hresult]
      exact ⟨rfl, hagree, Agree.refl _ _⟩
    | none =>
      have hp := hframe hresult
      have hstep := step_alike hp hagree htools defines p
      generalize hv : shop.step key defines p v = v' at hstep
      generalize hw : shop.step key defines p w = w' at hstep
      cases hstep with
      | overflow e =>
        rw [finish_of_overflow hresult hv, finish_of_overflow hresult hw]
        exact ⟨rfl, hagree, Agree.refl _ _⟩
      | edit e q hve hwe htarget hkept =>
        rename_i v' w'
        rw [finish_of_step hresult hv, finish_of_step hresult hw]
        -- One edit keeps the worlds in agreement, and the frame as well unless the variant is done.
        have hagree' : Agree (shop.Reads s key) v'.store w'.store := by
          rw [hve, hwe]
          exact Edit.agree_on e hagree
        have hframe' : q.phase.result? = none → Framed (shop.Reads s key) s v'.store := by
          intro hq
          rw [hve]
          exact hp.trans ((hkept hq).mono (Set.subset_univ _)).symm
        have hleft' : q.phase.left < n := by
          rw [← hleft]
          exact left_lt_of_step hv (Phase.left_ne_zero hresult)
        obtain ⟨hresult', hreads, halters⟩ := ih _ hleft' hagree' q hframe' rfl
        refine ⟨hresult', hreads, halters.trans ?_⟩
        rw [hwe]
        exact Edit.agree_on_self fun l hl hnot => hnot (htarget l hl)

end Workshop

end ShaderVariants
