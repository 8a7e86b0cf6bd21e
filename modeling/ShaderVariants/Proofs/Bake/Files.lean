import ShaderVariants.Proofs.Bake.Steps
import ShaderVariants.Proofs.Report.File

/-!
# The files of one variant

Tools that write nothing but their output (`Toolchain.Confined`) keep all other files
(`kept_of_run`), and the resource table of a variant is one of these unless a link leads it together
with the binary or the report (`notMem_sees_resources`). The table is written when it is made
(`writing_of_normalized`), and then the report is removed unless reports are kept or this one cannot
be removed (`tidied_cases`).
-/

namespace ShaderVariants

open Store

/-- Every use of a tool writes nothing but its output, whatever that depends on. -/
structure Toolchain.Confined (tools : Toolchain) : Prop where
  compile : ∀ source defines output s, ∃ effect : ToolEffect,
    tools.compile source defines output s = effect.run output s
  reflect : ∀ binary output s, ∃ effect : ToolEffect,
    tools.reflect binary output s = effect.run output s

/-- Deterministic tools write nothing but their output. -/
theorem Toolchain.Deterministic.confined {tools : Toolchain} (h : tools.Deterministic) :
    tools.Confined where
  compile source defines output s := by
    obtain ⟨effect, heffect⟩ := h.compile source defines output
    exact ⟨_, heffect s⟩
  reflect binary output s := by
    obtain ⟨effect, heffect⟩ := h.reflect binary output
    exact ⟨_, heffect s⟩

namespace Workshop

variable {shop : Workshop} {key : VariantKey} {s : Store} {w : World}

/-! ## Other files and the resource table -/

/-- Where a link is on the way of the resource table or of another file of the variant, nothing that
is written by way of the other file is on the way of the resource table. -/
def WritesApart (shop : Workshop) (s : Store) (key : VariantKey) : Prop :=
  ∀ p ∈ [shop.layout.binary key, shop.layout.report key],
    s.Linked p ∨ s.Linked (shop.layout.resources key) →
      ∀ l ∈ s.Writes p, l ∉ s.Sees (shop.layout.resources key)

/-- Where a link is on the way of the resource table or of the report, what is removed as the report
is not on the way of the resource table. -/
def RemovesApart (shop : Workshop) (s : Store) (key : VariantKey) : Prop :=
  s.Linked (shop.layout.report key) ∨ s.Linked (shop.layout.resources key) →
    ∀ l ∈ s.Removes (shop.layout.report key), l ∉ s.Sees (shop.layout.resources key)

/-- What is written or removed by way of a path is where the path leads, and no directory. -/
theorem exists_find_of_mem_changed {p : Path} {l : Location}
    (h : l ∈ s.Writes p ∨ l ∈ s.Removes p) :
    ∃ follow place, s.find p follow = .ok place ∧ place.location = l ∧
      place.node ≠ some .directory := by
  rcases h with h | ⟨node, h, hdir⟩
  · obtain ⟨place, hfind, hlocation, hnone⟩ := outline_eq_some h
    refine ⟨true, place, hfind, hlocation, fun hdir => ?_⟩
    rw [hdir] at hnone
    cases hnone
  · obtain ⟨place, hfind, hlocation, rfl⟩ := outline_eq_some h
    refine ⟨false, place, hfind, hlocation, fun hdir' => ?_⟩
    rw [hdir'] at hdir
    exact hdir rfl

/-- No other file of a variant is changed on the way of its resource table, if none is where a link
is on one of the two ways. -/
theorem notMem_sees_resources {p : Path}
    (hp : p ∈ [shop.layout.binary key, shop.layout.report key]) {l : Location}
    (hl : l ∈ s.Writes p ∨ l ∈ s.Removes p)
    (hlinked : s.Linked p ∨ s.Linked (shop.layout.resources key) →
      l ∉ s.Sees (shop.layout.resources key)) :
    l ∉ s.Sees (shop.layout.resources key) := by
  -- The assumption covers the ways with links, the names of the files the others.
  by_cases hlink : s.Linked p ∨ s.Linked (shop.layout.resources key)
  · exact hlinked hlink
  · rw [not_or] at hlink
    obtain ⟨follow, place, hfind, rfl, hdir⟩ := exists_find_of_mem_changed hl
    have hartifact : p ∈ shop.layout.artifacts key := by
      simp only [List.mem_cons, List.not_mem_nil, or_false] at hp
      rcases hp with rfl | rfl <;> simp
    exact Layout.notMem_sees_of_find hartifact Layout.resources_mem_artifacts
      (Layout.ne_resources hp) hlink.1 hlink.2 hfind hdir

/-- A tool that writes nothing but its output keeps all directories and links, and what is not on
the way of its output. -/
theorem kept_of_run {run : ToolRun} {output : Path} {t : Store} {A : Set Location}
    (hrun : ∃ effect : ToolEffect, run = effect.run output t)
    (houtput : Path.endsInSlash output = false) (hframe : Framed Set.univ t s)
    (hagree : Agree A t s) (hwrites : ∀ l ∈ s.Writes output, l ∉ A) :
    Framed Set.univ run.store s ∧ Agree A run.store s := by
  obtain ⟨effect, rfl⟩ := hrun
  obtain ⟨e, hstored, -, htarget, hkept⟩ := effect.exists_edit houtput (Agree.refl _ t)
  -- No directory and no link has changed since, so the output is where it was.
  have hsame : t.Writes output = s.Writes output :=
    writes_congr (hframe.symm.mono (Set.subset_univ _))
  refine ⟨?_, ?_⟩
  · exact (show (effect.run output t).store = _ from hstored) ▸ hkept.trans hframe
  · rw [show (effect.run output t).store = _ from hstored]
    exact (Edit.agree_on_self fun l hl => hwrites l (hsame ▸ htarget l hl)).trans hagree

/-! ## The resource table and the report -/

/-- A resource table is made of a report that was read, and written where the table is. -/
theorem writing_of_normalized {bundle : ResourceBundle} {stored : Store}
    (h : shop.normalized key w = .ok (bundle, stored)) :
    (∃ content, w.store.content (shop.layout.report key) = .ok content) ∧
      ∃ e, w.store.writing (shop.layout.resources key) (.text bundle.text) = .ok e ∧
        stored = e.on w.store := by
  obtain ⟨⟨text, hcontent, -⟩, hwriting⟩ := Report.normalizeFile_eq_ok h
  exact ⟨⟨_, hcontent⟩, hwriting⟩

/-- A report that can be read is removed unless reports are kept or it is fixed where it is. -/
theorem tidied_cases {content : Content}
    (h : s.content (shop.layout.report key) = .ok content) :
    (shop.keepReports = true ∨ s.Fixed (shop.layout.report key)) ∧ shop.tidied key s = s ∨
      shop.keepReports = false ∧ ¬s.Fixed (shop.layout.report key) ∧
        ∃ e, s.removing (shop.layout.report key) = .ok e ∧ shop.tidied key s = e.on s := by
  unfold tidied
  cases shop.keepReports with
  | true => exact .inl ⟨.inl rfl, rfl⟩
  | false =>
    rw [if_neg (by decide), remove_eq]
    rcases removing_of_content h with ⟨hfixed, hdenied⟩ | ⟨hfree, e, he⟩
    · refine .inl ⟨.inr hfixed, ?_⟩
      rw [hdenied]
      rfl
    · refine .inr ⟨rfl, hfree, e, he, ?_⟩
      rw [he]
      rfl

end Workshop

end ShaderVariants
