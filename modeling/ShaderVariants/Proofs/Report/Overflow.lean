import ShaderVariants.Proofs.Report.Rows
import ShaderVariants.Resource.File

/-!
# Blocks that are too large

Making a resource table stops with an overflow in one case only (`bundle_eq_overflow_iff`): the
report is in order up to a push constant block, and that block ends where no word can say. Whatever
else is wrong with a report, and whatever text stands in its place, is a fault.
-/

namespace ShaderVariants.Report

variable {report : Report} {tables : Tables}

/-- The block ends beyond the largest word: the offset of its last member and the size of that
member together are no word. -/
def Oversized (report : Report) (tables : Tables) (c : PushConstant) : Prop :=
  ∃ t m size, report.types.get? c.typeName = some t ∧ t.last? = some m ∧
    tables.byteSize m.typeName = .ok size ∧ Checked.limit32 ≤ m.offset.toNat + size.toNat

/-- The report is in order up to an oversized block: it has a stage, it lists its outputs, and the
entries before the block have rows. -/
def Overflows (report : Report) (tables : Tables) : Prop :=
  ∃ mask, report.stage tables = .ok mask ∧ report.outputs ≠ none ∧
    ∃ before c after, report.entries = before ++ .pushConstant c :: after ∧
      (∀ e ∈ before, ∃ r, RowOf report tables mask e r) ∧ report.Oversized tables c

/-- A lookup does not overflow. -/
theorem looking_ne_overflow {α : Type} {r : Except LookupError α} :
    looking r ≠ .error .overflow :=
  Sequence.ofExcept_ne_overflow

/-- The stage of a report does not overflow. -/
theorem stage_ne_overflow : report.stage tables ≠ .error .overflow := by
  unfold stage
  split
  · exact looking_ne_overflow
  · simp [refuse]

/-- The size of a block overflows exactly when the block is oversized. -/
theorem pushConstantSize_eq_overflow_iff {c : PushConstant} :
    report.pushConstantSize tables c = .error .overflow ↔ report.Oversized tables c := by
  unfold pushConstantSize Oversized
  cases report.types.get? c.typeName with
  | none => simp [refuse]
  | some t =>
    simp only [Option.some.injEq, exists_and_left, exists_eq_left']
    cases t.last? with
    | none => simp [refuse]
    | some m =>
      simp only [Option.some.injEq, exists_eq_left']
      cases tables.byteSize m.typeName with
      | error e => simp [looking, Halt.ofExcept, Except.mapError]
      | ok size =>
        simp only [looking, Except.mapError, Halt.ofExcept, Sequence.ok_bind, Except.ok.injEq,
          exists_eq_left', Checked.add32]
        split
        · rename_i hfits
          simp [Halt.ofChecked, hfits]
        · rename_i hlarge
          simp [Halt.ofChecked, Nat.not_lt.1 hlarge]

/-- The row of an entry overflows exactly when the entry is an oversized block. -/
theorem row_eq_overflow_iff {mask : StageMask} {e : ReportEntry} :
    e.row report tables mask = .error .overflow ↔
      ∃ c, e = .pushConstant c ∧ report.Oversized tables c := by
  cases e with
  | pushConstant c =>
    rw [ReportEntry.row, Sequence.map_eq_error_iff, pushConstantSize_eq_overflow_iff]
    simp
  | input | output =>
    rw [ReportEntry.row, Sequence.map_eq_error_iff]
    simp [looking_ne_overflow]
  | subpassInput | texture | uniformBuffer | specializationConstant => simp [ReportEntry.row]

/-- Making a resource table overflows exactly when the report is in order up to an oversized
block. -/
theorem bundle_eq_overflow_iff :
    report.bundle tables = .error .overflow ↔ report.Overflows tables := by
  rw [bundle_eq, Sequence.bind_eq_error_iff, or_iff_right stage_ne_overflow]
  refine exists_congr fun mask => and_congr_right fun hstage => ?_
  by_cases houtputs : report.outputs = none
  · simp [houtputs, refuse]
  -- The first entry without a row stops the pass, and it overflows if it is an oversized block.
  · rw [if_neg houtputs, Sequence.map_eq_error_iff, Sequence.mapM_eq_error_iff]
    simp only [row_eq_overflow_iff, ReportEntry.row_eq_ok_iff]
    constructor
    · rintro ⟨before, _, after, hentries, hbefore, c, rfl, hlarge⟩
      exact ⟨houtputs, before, c, after, hentries, hbefore, hlarge⟩
    · rintro ⟨-, before, c, after, hentries, hbefore, hlarge⟩
      exact ⟨before, _, after, hentries, hbefore, c, rfl, hlarge⟩

/-- Making the resource table of a text overflows exactly when the text holds a report that is in
order up to an oversized block. -/
theorem bundleOfText_eq_overflow_iff {text : String} :
    bundleOfText text tables = .error .overflow ↔
      ∃ report, ofText text = .ok report ∧ report.Overflows tables := by
  unfold bundleOfText
  cases ofText text with
  | error e => simp
  | ok report =>
    simp only [Except.ok.injEq, exists_eq_left', ← bundle_eq_overflow_iff]
    cases report.bundle tables with
    | ok b => simp [Except.mapError]
    | error halt => cases halt <;> simp [Except.mapError, Halt.map]

end ShaderVariants.Report
