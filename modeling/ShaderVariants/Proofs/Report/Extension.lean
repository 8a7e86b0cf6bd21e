import ShaderVariants.Proofs.Report.Extent
import ShaderVariants.Proofs.Table

/-!
# Resource tables under extended tables

A report that has a resource table has one under any tables that know the same names
(`Tables.Covers`), unless a push constant block becomes too large, since all that it needs is there
(`Report.Usable.of_covers`). Whatever the names stand for, the rows are made for the same entries,
so they can differ only in what is looked up (`ReportEntry.akin_of_row`). If the names stand for the
same (`Tables.Extends`), the resource table is the same (`Report.bundle_of_extends`).

Tables that are extended know the names that they knew, and those names stand for what they stood
for if the extension agrees, so both applies to them (`Report.bundle_extend`).
-/

namespace ShaderVariants

namespace Tables

variable {tables other : Tables}

/-- The second tables know all names of the first, perhaps as something else. -/
structure Covers (tables other : Tables) : Prop where
  stages : ∀ {name mask}, tables.stages.get? name = some mask →
    ∃ mask', other.stages.get? name = some mask'
  vectorSizes : ∀ {name n}, tables.vectorSizes.get? name = some n →
    ∃ n', other.vectorSizes.get? name = some n'
  byteSizes : ∀ {name n}, tables.byteSizes.get? name = some n →
    ∃ n', other.byteSizes.get? name = some n'

/-- The second tables know all names of the first, as what they are there. -/
structure Extends (tables other : Tables) : Prop where
  stages : ∀ {name mask}, tables.stages.get? name = some mask → other.stages.get? name = some mask
  vectorSizes : ∀ {name n}, tables.vectorSizes.get? name = some n →
    other.vectorSizes.get? name = some n
  byteSizes : ∀ {name n}, tables.byteSizes.get? name = some n → other.byteSizes.get? name = some n

/-- The second tables give a name of the first no other entry. -/
structure Agrees (tables other : Tables) : Prop where
  stages : tables.stages.Agrees other.stages
  vectorSizes : tables.vectorSizes.Agrees other.vectorSizes
  byteSizes : tables.byteSizes.Agrees other.byteSizes

/-- Extended tables know all names that they knew. -/
theorem covers_extend (tables other : Tables) : tables.Covers (tables.extend other) where
  stages := Table.exists_get?_extend other.stages
  vectorSizes := Table.exists_get?_extend other.vectorSizes
  byteSizes := Table.exists_get?_extend other.byteSizes

/-- If the extension agrees, the names stand for what they stood for. -/
theorem Agrees.extends (h : tables.Agrees other) : tables.Extends (tables.extend other) where
  stages := h.stages.get?_extend
  vectorSizes := h.vectorSizes.get?_extend
  byteSizes := h.byteSizes.get?_extend

end Tables

/-! ## Rows -/

namespace Resource

/-- The rows may differ in what is looked up for them: in the stages, in the number of components of
an input or output, and in the size of a push constant block. -/
structure Akin (r r' : Resource) : Prop where
  name : r'.name = r.name
  kind : r'.kind = r.kind
  mode : r'.mode = r.mode
  number : ∀ field, (field = .vectorSize → r.kind ≠ .input ∧ r.kind ≠ .output) →
    (field = .size → r.kind ≠ .pushConstant) → r'.number field = r.number field

end Resource

namespace ReportEntry

variable {report : Report} {tables other : Tables} {mask mask' : StageMask} {e : ReportEntry}
  {r r' : Resource}

/-- A number that is not looked up is the same under all tables. -/
theorem number_congr (e : ReportEntry) (field : NumericField)
    (hvector : field = .vectorSize → e.kind ≠ .input ∧ e.kind ≠ .output)
    (hsize : field = .size → e.kind ≠ .pushConstant) :
    e.number report tables field = e.number report other field := by
  cases e with
  | input =>
    cases field with
    | vectorSize => exact absurd rfl (hvector rfl).1
    | _ => rfl
  | output =>
    cases field with
    | vectorSize => exact absurd rfl (hvector rfl).2
    | _ => rfl
  | pushConstant =>
    cases field with
    | size => exact absurd rfl (hsize rfl)
    | _ => rfl
  | subpassInput | texture | uniformBuffer | specializationConstant => cases field <;> rfl

/-- The rows of one entry differ only in what is looked up. -/
theorem akin_of_row (h : e.row report tables mask = .ok r)
    (h' : e.row report other mask' = .ok r') : r.Akin r' := by
  have hrow := rowOf_of_row h
  have hrow' := rowOf_of_row h'
  refine ⟨hrow'.name.trans hrow.name.symm, hrow'.kind.trans hrow.kind.symm,
    hrow'.mode.trans hrow.mode.symm, fun field hvector hsize => ?_⟩
  rw [hrow.kind] at hvector hsize
  have hnumber : e.number report tables field = e.number report other field :=
    number_congr e field hvector hsize
  rw [hrow.number, hrow'.number] at hnumber
  exact (Except.ok.inj hnumber).symm

/-- An entry keeps its row if all names stand for what they stood for. -/
theorem row_of_extends (hext : tables.Extends other) (h : e.row report tables mask = .ok r) :
    e.row report other mask = .ok r := by
  cases e with
  | input v | output v =>
    obtain ⟨n, hn, rfl⟩ := Sequence.map_eq_ok_iff.1 h
    rw [Report.looking_eq_ok_iff, Tables.vectorSize_eq_ok_iff] at hn
    refine Sequence.map_eq_ok_iff.2 ⟨n, ?_, rfl⟩
    rw [Report.looking_eq_ok_iff, Tables.vectorSize_eq_ok_iff]
    exact hext.vectorSizes hn
  | pushConstant c =>
    obtain ⟨n, hn, rfl⟩ := Sequence.map_eq_ok_iff.1 h
    obtain ⟨m, size, hm, hsize, hsum⟩ := Report.pushConstantSize_eq_ok_iff.1 hn
    refine Sequence.map_eq_ok_iff.2 ⟨n, Report.pushConstantSize_eq_ok_iff.2 ?_, rfl⟩
    exact ⟨m, size, hm, hext.byteSizes hsize, hsum⟩
  | subpassInput | texture | uniformBuffer | specializationConstant => exact h

end ReportEntry

/-! ## Resource tables -/

namespace Report

variable {report : Report} {tables other : Tables} {b : ResourceBundle}

/-- A resource table stays the same if all names stand for what they stood for. -/
theorem bundle_of_extends (hext : tables.Extends other) (h : report.bundle tables = .ok b) :
    report.bundle other = .ok b := by
  rw [bundle_eq_ok_iff_mapM] at h ⊢
  obtain ⟨mask, hstage, hlisted, hrows⟩ := h
  obtain ⟨entry, hentry, hmask⟩ := stage_eq_ok_iff.1 hstage
  refine ⟨mask, stage_eq_ok_iff.2 ⟨entry, hentry, ?_⟩, hlisted, ?_⟩
  · exact Tables.stage_eq_ok_iff.2 (hext.stages (Tables.stage_eq_ok_iff.1 hmask))
  · rw [Sequence.mapM_eq_ok_iff] at hrows ⊢
    exact hrows.imp fun _ _ => ReportEntry.row_of_extends hext

/-- A usable report is usable under any tables that know the names. -/
theorem Usable.of_covers (hcovers : tables.Covers other) (h : report.Usable tables) :
    report.Usable other where
  staged := by
    obtain ⟨entry, mask, hentry, hmask⟩ := h.staged
    obtain ⟨mask', hmask'⟩ := hcovers.stages hmask
    exact ⟨entry, mask', hentry, hmask'⟩
  listed := h.listed
  inputs v hv := by
    obtain ⟨n, hn⟩ := h.inputs v hv
    exact hcovers.vectorSizes hn
  outputs outputs houtputs v hv := by
    obtain ⟨n, hn⟩ := h.outputs outputs houtputs v hv
    exact hcovers.vectorSizes hn
  pushConstants c hc := by
    obtain ⟨t, m, size, htype, hlast, hsize⟩ := h.pushConstants c hc
    obtain ⟨size', hsize'⟩ := hcovers.byteSizes hsize
    exact ⟨t, m, size', htype, hlast, hsize'⟩

/-- A push constant block is an entry of a report if the report lists it. -/
theorem pushConstant_mem_entries_iff {c : PushConstant} :
    .pushConstant c ∈ report.entries ↔ c ∈ report.pushConstants := by
  simp [entries]

/-- A usable report has a resource table unless a block is oversized. -/
theorem Usable.exists_bundle (h : report.Usable tables)
    (hfits : ¬∃ c ∈ report.pushConstants, report.Oversized tables c) :
    ∃ b, report.bundle tables = .ok b := by
  cases hbundle : report.bundle tables with
  | ok b => exact ⟨b, rfl⟩
  | error halt =>
    cases halt with
    | fault e => exact absurd (bundle_eq_fault_iff_firstFault.1 hbundle) h.not_firstFault
    | overflow =>
      obtain ⟨mask, -, -, before, c, after, hentries, -, hlarge⟩ := bundle_eq_overflow_iff.1 hbundle
      have hmem : .pushConstant c ∈ report.entries := by simp [hentries]
      exact absurd ⟨c, pushConstant_mem_entries_iff.1 hmem, hlarge⟩ hfits

/-- An oversized block in a usable report overflows. -/
theorem Usable.bundle_eq_overflow (h : report.Usable tables)
    (hlarge : ∃ c ∈ report.pushConstants, report.Oversized tables c) :
    report.bundle tables = .error .overflow := by
  obtain ⟨c, hc, hlarge⟩ := hlarge
  cases hbundle : report.bundle tables with
  | error halt =>
    cases halt with
    | overflow => rfl
    | fault e => exact absurd (bundle_eq_fault_iff_firstFault.1 hbundle) h.not_firstFault
  | ok b =>
    -- The block would have a row.
    obtain ⟨mask, -, -, hrows⟩ := exists_bundle_iff.1 ⟨b, hbundle⟩
    obtain ⟨r, hr⟩ := hrows _ (pushConstant_mem_entries_iff.2 hc)
    obtain ⟨n, hn, -⟩ := Sequence.map_eq_ok_iff.1 hr
    cases hn.symm.trans (pushConstantSize_eq_overflow_iff.2 hlarge)

/-- Two resource tables of a report have rows for the same entries. -/
theorem akin_of_bundle {b' : ResourceBundle} (h : report.bundle tables = .ok b)
    (h' : report.bundle other = .ok b') : List.Forall₂ Resource.Akin b.resources b'.resources := by
  obtain ⟨mask, -, -, hrows⟩ := bundle_eq_ok_iff_mapM.1 h
  obtain ⟨mask', -, -, hrows'⟩ := bundle_eq_ok_iff_mapM.1 h'
  exact Sequence.forall₂_of_forall₂ (Sequence.mapM_eq_ok_iff.1 hrows)
    (Sequence.mapM_eq_ok_iff.1 hrows') fun _ _ _ => ReportEntry.akin_of_row

/-- **Extending the tables leaves the resource table of a report as it was, if the extension
agrees.** If it does not, there is still a resource table, unless a push constant block is now
oversized; it has the same rows in the same order, which differ at most in the stages, in the number
of components of inputs and outputs and in the size of push constant blocks. -/
theorem bundle_extend {report : Report} {tables : Tables} {b : ResourceBundle}
    (h : report.bundle tables = .ok b) (other : Tables) :
    (tables.Agrees other → report.bundle (tables.extend other) = .ok b) ∧
    ((∃ c ∈ report.pushConstants, report.Oversized (tables.extend other) c) →
      report.bundle (tables.extend other) = .error .overflow) ∧
    ((¬∃ c ∈ report.pushConstants, report.Oversized (tables.extend other) c) →
      ∃ b', report.bundle (tables.extend other) = .ok b' ∧
        List.Forall₂ Resource.Akin b.resources b'.resources) := by
  have husable : report.Usable (tables.extend other) :=
    (usable_of_bundle h).of_covers (tables.covers_extend other)
  refine ⟨fun hagrees => bundle_of_extends hagrees.extends h, husable.bundle_eq_overflow,
    fun hfits => ?_⟩
  obtain ⟨b', hb'⟩ := husable.exists_bundle hfits
  exact ⟨b', hb', akin_of_bundle h hb'⟩

/-- A report with an input beside its push constant block. -/
def lit : Report :=
  { pushing tinted with inputs := [⟨"uv", "vec2", 1⟩] }

/-- The resource table of the report, by what is looked up for it. -/
def litTable (mask : StageMask) (n size : UInt32) : ResourceBundle :=
  ⟨[.ofVariable .input mask ⟨"uv", "vec2", 1⟩ n, .ofPushConstant mask push size]⟩

/-- Tables with one more stage and one more type, which agree with the standard ones. -/
def matrices : Tables :=
  ⟨⟨[("comp", .ofStage .compute), ("frag", .ofStage .fragment)]⟩, .empty, ⟨[("mat4", 64)]⟩⟩

/-- Tables in which a fragment shader is one of all stages, and a number has the given size. -/
def numbers (size : UInt32) : Tables :=
  ⟨⟨[("frag", ⟨63⟩)]⟩, ⟨[("vec2", 7)]⟩, ⟨[("float", size)]⟩⟩

/-- The resource table stays with tables that agree, and changes in what is looked up with tables
that do not, unless a number is so large that the block is none of a word's size. -/
theorem bundle_extend_lit :
    lit.bundle .standard = .ok (litTable (.ofStage .fragment) 2 36) ∧
      Tables.standard.Agrees matrices ∧
      lit.bundle (.extend .standard matrices) = .ok (litTable (.ofStage .fragment) 2 36) ∧
      lit.bundle (.extend .standard (numbers 8)) = .ok (litTable ⟨63⟩ 7 40) ∧
      List.Forall₂ Resource.Akin (litTable (.ofStage .fragment) 2 36).resources
        (litTable ⟨63⟩ 7 40).resources ∧
      lit.bundle (.extend .standard (numbers 4294967264)) = .error .overflow := by
  have hstandard : lit.bundle .standard = .ok (litTable (.ofStage .fragment) 2 36) := by decide
  have hagrees : Tables.standard.Agrees matrices := by
    refine ⟨?_, ?_, ?_⟩ <;>
      simp [Table.Agrees, matrices, Tables.standard, Table.empty, Table.get?, Table.lookup]
  -- A number of eight bytes leaves the block at a size, and one of nearly all words does not.
  have hfits : ¬∃ c ∈ lit.pushConstants, lit.Oversized (.extend .standard (numbers 8)) c := by
    rintro ⟨c, hc, hlarge⟩
    obtain rfl : c = push := List.mem_singleton.1 hc
    have hsize : lit.pushConstantSize (.extend .standard (numbers 8)) push = .ok 40 := by decide
    cases hsize.symm.trans (pushConstantSize_eq_overflow_iff.2 hlarge)
  have hlarge : lit.Oversized (.extend .standard (numbers 4294967264)) push :=
    pushConstantSize_eq_overflow_iff.1 (by decide)
  obtain ⟨b', hb', hakin⟩ := (bundle_extend hstandard (numbers 8)).2.2 hfits
  have hother : lit.bundle (.extend .standard (numbers 8)) = .ok (litTable ⟨63⟩ 7 40) := by decide
  cases hb'.symm.trans hother
  exact ⟨hstandard, hagrees, (bundle_extend hstandard matrices).1 hagrees, hother, hakin,
    (bundle_extend hstandard (numbers 4294967264)).2.1 ⟨push, List.mem_singleton_self _, hlarge⟩⟩

end Report

end ShaderVariants
