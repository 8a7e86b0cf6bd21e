import ShaderVariants.Normalize
import ShaderVariants.Proofs.Sequence

/-!
# The rows of a resource table

A report lists entries of seven categories (`Report.entries`). `RowOf` says, field by field, what
the row of an entry holds: what the entry itself says, what is looked up or computed for it, and
zero in every other numeric field. A report has a resource table exactly when its stage is known,
its outputs are listed and every entry has a row, and the table has these rows in the order of the
entries (`bundle_eq_ok_iff`).

Making the table is one pass over the entries (`bundle_eq`), since those that cannot fail may be
passed in any order.
-/

namespace ShaderVariants

open Report (Attempt looking)

/-! ## Rows by their fields -/

/-- A numeric field of a row. -/
inductive NumericField where
  | set
  | binding
  | location
  | attachmentIndex
  | vectorSize
  | columns
  | arraySize
  | offset
  | size
  | constantId
  | qualifiers
deriving DecidableEq

namespace Resource

/-- The number in a field of a row. -/
def number (r : Resource) : NumericField → UInt32
  | .set => r.set
  | .binding => r.binding
  | .location => r.location
  | .attachmentIndex => r.attachmentIndex
  | .vectorSize => r.vectorSize
  | .columns => r.columns
  | .arraySize => r.arraySize
  | .offset => r.offset
  | .size => r.size
  | .constantId => r.constantId
  | .qualifiers => r.qualifiers

/-- A row is determined by its name, kind, stages and mode and by its numbers. -/
theorem eq_of_number {r r' : Resource} (hname : r.name = r'.name) (hkind : r.kind = r'.kind)
    (hstages : r.stages = r'.stages) (hmode : r.mode = r'.mode)
    (hnumber : ∀ field, r.number field = r'.number field) : r = r' := by
  have hset := hnumber .set
  have hbinding := hnumber .binding
  have hlocation := hnumber .location
  have hattachment := hnumber .attachmentIndex
  have hvector := hnumber .vectorSize
  have hcolumns := hnumber .columns
  have harray := hnumber .arraySize
  have hoffset := hnumber .offset
  have hsize := hnumber .size
  have hconstant := hnumber .constantId
  have hqualifiers := hnumber .qualifiers
  obtain ⟨⟩ := r
  obtain ⟨⟩ := r'
  simp only [number] at *
  subst_vars
  rfl

end Resource

/-! ## Entries -/

/-- What a report lists, one row for each. -/
inductive ReportEntry where
  | input (v : InterfaceVariable)
  | subpassInput (i : SubpassInput)
  | output (v : InterfaceVariable)
  | texture (t : Texture)
  | uniformBuffer (b : UniformBuffer)
  | pushConstant (c : PushConstant)
  | specializationConstant (c : SpecializationConstant)
deriving DecidableEq

namespace ReportEntry

/-- The name of an entry. -/
def name : ReportEntry → String
  | input v => v.name
  | subpassInput i => i.name
  | output v => v.name
  | texture t => t.name
  | uniformBuffer b => b.name
  | pushConstant c => c.name
  | specializationConstant c => c.name

/-- The kind of row that an entry has. -/
def kind : ReportEntry → ResourceKind
  | input _ => .input
  | subpassInput _ => .inputAttachment
  | output _ => .output
  | texture _ => .imageSampler
  | uniformBuffer _ => .uniformBuffer
  | pushConstant _ => .pushConstant
  | specializationConstant _ => .specializationConstant

/-- The number that belongs into a field of the row of an entry. -/
def number (report : Report) (tables : Tables) : ReportEntry → NumericField → Attempt UInt32
  | input v, .location => .ok v.location
  | input v, .vectorSize => looking (tables.vectorSize v.typeName)
  | input _, .columns => .ok 1
  | input _, .arraySize => .ok 1
  | subpassInput i, .set => .ok i.set
  | subpassInput i, .binding => .ok i.binding
  | subpassInput i, .attachmentIndex => .ok i.attachmentIndex
  | subpassInput _, .arraySize => .ok 1
  | output v, .location => .ok v.location
  | output v, .vectorSize => looking (tables.vectorSize v.typeName)
  | output _, .columns => .ok 1
  | output _, .arraySize => .ok 1
  | texture t, .set => .ok t.set
  | texture t, .binding => .ok t.binding
  | texture _, .arraySize => .ok 1
  | uniformBuffer b, .set => .ok b.set
  | uniformBuffer b, .binding => .ok b.binding
  | uniformBuffer _, .arraySize => .ok 1
  | uniformBuffer b, .size => .ok b.blockSize
  | pushConstant c, .size => report.pushConstantSize tables c
  | specializationConstant _, .size => .ok 4
  | specializationConstant c, .constantId => .ok c.id
  | _, _ => .ok 0

end ReportEntry

/-- The row is that of an entry, for variants of the stages of a mask. -/
structure RowOf (report : Report) (tables : Tables) (mask : StageMask) (e : ReportEntry)
    (r : Resource) : Prop where
  name : r.name = e.name
  kind : r.kind = e.kind
  stages : r.stages = mask
  mode : r.mode = .static
  number : ∀ field, e.number report tables field = .ok (r.number field)

namespace Report

/-- The entries of a report by category, and in the order of the report within each. -/
def entries (report : Report) : List ReportEntry :=
  report.inputs.map .input
    ++ report.subpassInputs.map .subpassInput
    ++ (report.outputs.getD []).map .output
    ++ report.textures.map .texture
    ++ report.uniformBuffers.map .uniformBuffer
    ++ report.pushConstants.map .pushConstant
    ++ report.specializationConstants.map .specializationConstant

end Report

namespace ReportEntry

variable {report : Report} {tables : Tables} {mask : StageMask} {e : ReportEntry}
  {r r' : Resource}

/-- The row of an entry. -/
def row (report : Report) (tables : Tables) (mask : StageMask) : ReportEntry → Attempt Resource
  | input v => (looking (tables.vectorSize v.typeName)).map (Resource.ofVariable .input mask v)
  | subpassInput i => .ok (.ofSubpassInput mask i)
  | output v => (looking (tables.vectorSize v.typeName)).map (Resource.ofVariable .output mask v)
  | texture t => .ok (.ofTexture mask t)
  | uniformBuffer b => .ok (.ofUniformBuffer mask b)
  | pushConstant c => (report.pushConstantSize tables c).map (Resource.ofPushConstant mask c)
  | specializationConstant c => .ok (.ofSpecializationConstant mask c)

/-- The row of an entry holds what belongs into it. -/
theorem rowOf_of_row (h : e.row report tables mask = .ok r) : RowOf report tables mask e r := by
  cases e with
  | input | output | pushConstant =>
    obtain ⟨size, hsize, rfl⟩ := Sequence.map_eq_ok_iff.1 h
    exact ⟨rfl, rfl, rfl, rfl, fun field => by cases field <;> first | exact hsize | rfl⟩
  | subpassInput | texture | uniformBuffer | specializationConstant =>
    cases h
    exact ⟨rfl, rfl, rfl, rfl, fun field => by cases field <;> rfl⟩

/-- An entry has a row when there is a number for every field. -/
theorem exists_row (h : RowOf report tables mask e r) :
    ∃ r', e.row report tables mask = .ok r' := by
  cases e with
  | input v | output v =>
    have hsize : looking (tables.vectorSize v.typeName) = _ := h.number .vectorSize
    exact ⟨_, Sequence.map_eq_ok_iff.2 ⟨_, hsize, rfl⟩⟩
  | pushConstant c =>
    have hsize : report.pushConstantSize tables c = _ := h.number .size
    exact ⟨_, Sequence.map_eq_ok_iff.2 ⟨_, hsize, rfl⟩⟩
  | subpassInput | texture | uniformBuffer | specializationConstant => exact ⟨_, rfl⟩

/-- An entry has one row. -/
theorem rowOf_unique (h : RowOf report tables mask e r) (h' : RowOf report tables mask e r') :
    r = r' :=
  Resource.eq_of_number (h.name.trans h'.name.symm) (h.kind.trans h'.kind.symm)
    (h.stages.trans h'.stages.symm) (h.mode.trans h'.mode.symm)
    fun field => Except.ok.inj ((h.number field).symm.trans (h'.number field))

/-- The row that is made for an entry is the row of the entry. -/
theorem row_eq_ok_iff : e.row report tables mask = .ok r ↔ RowOf report tables mask e r := by
  constructor
  · exact rowOf_of_row
  · intro h
    obtain ⟨r', hr'⟩ := exists_row h
    rw [hr', rowOf_unique h (rowOf_of_row hr')]

end ReportEntry

/-! ## The table -/

namespace Report

/-- A lookup gives what is found. -/
theorem looking_eq_ok_iff {α : Type} {r : Except LookupError α} {a : α} :
    looking r = .ok a ↔ r = .ok a :=
  Sequence.ofExcept_eq_ok_iff.trans Sequence.mapError_eq_ok_iff

/-- The stage of a report is that of its only entry point. -/
theorem stage_eq_ok_iff {report : Report} {tables : Tables} {mask : StageMask} :
    report.stage tables = .ok mask ↔
      ∃ entry, report.entryPoints = [entry] ∧ tables.stage entry.mode = .ok mask := by
  unfold stage
  split
  · rename_i entry hentry
    rw [looking_eq_ok_iff]
    simp [hentry]
  · rename_i hone
    constructor
    · intro h
      cases h
    · rintro ⟨entry, hentry, -⟩
      exact absurd hentry (hone entry)

/-- Entries of a category that cannot fail have their rows. -/
theorem mapM_map_row (report : Report) (tables : Tables) (mask : StageMask) {α : Type}
    (entry : α → ReportEntry) {make : α → Resource}
    (h : ∀ a, (entry a).row report tables mask = .ok (make a)) (as : List α) :
    (as.map entry).mapM (ReportEntry.row report tables mask) = .ok (as.map make) := by
  rw [List.mapM_map]
  exact Sequence.mapM_eq_ok fun a _ => h a

/-- Making a resource table is one pass over the entries. -/
theorem bundle_eq (report : Report) (tables : Tables) :
    report.bundle tables = (do
      let mask ← report.stage tables
      if report.outputs = none then refuse .missingOutputs
      else (report.entries.mapM (ReportEntry.row report tables mask)).map ResourceBundle.mk) := by
  unfold bundle entries
  refine congrArg _ (funext fun mask => ?_)
  cases report.outputs with
  | none => rfl
  | some outputs =>
    -- The categories that cannot fail give their rows at once, the others in their turn.
    have hsubpass := mapM_map_row report tables mask .subpassInput (fun _ => rfl)
      report.subpassInputs
    have htextures := mapM_map_row report tables mask .texture (fun _ => rfl) report.textures
    have hbuffers := mapM_map_row report tables mask .uniformBuffer (fun _ => rfl)
      report.uniformBuffers
    have hconstants := mapM_map_row report tables mask .specializationConstant (fun _ => rfl)
      report.specializationConstants
    have hinputs : (report.inputs.map .input).mapM (ReportEntry.row report tables mask) =
        variableRows tables .input mask report.inputs := List.mapM_map
    have houtputs : (outputs.map .output).mapM (ReportEntry.row report tables mask) =
        variableRows tables .output mask outputs := List.mapM_map
    have hpush : (report.pushConstants.map .pushConstant).mapM
        (ReportEntry.row report tables mask) = report.pushConstantRows tables mask := List.mapM_map
    simp only [pure_bind, Option.getD_some, List.mapM_append, hinputs, hsubpass, houtputs,
      htextures, hbuffers, hpush, hconstants]
    simp only [reduceCtorEq, if_false, bind_assoc, pure_bind, Sequence.ok_bind]
    cases variableRows tables .input mask report.inputs with
    | error e => rfl
    | ok inputRows =>
      cases variableRows tables .output mask outputs with
      | error e => rfl
      | ok outputRows =>
        cases report.pushConstantRows tables mask with
        | error e => rfl
        | ok pushConstantRows => rfl

/-- A report has a resource table when its stage is known, its outputs are listed and the pass over
its entries gives the rows. -/
theorem bundle_eq_ok_iff_mapM {report : Report} {tables : Tables} {b : ResourceBundle} :
    report.bundle tables = .ok b ↔
      ∃ mask, report.stage tables = .ok mask ∧ report.outputs ≠ none ∧
        report.entries.mapM (ReportEntry.row report tables mask) = .ok b.resources := by
  rw [bundle_eq, Sequence.bind_eq_ok_iff]
  refine exists_congr fun mask => and_congr_right fun _ => ?_
  split
  · rename_i hnone
    simp [refuse, hnone]
  · rename_i hlisted
    rw [and_iff_right hlisted, Sequence.map_eq_ok_iff]
    exact ⟨fun ⟨_, hrows, h⟩ => h ▸ hrows, fun hrows => ⟨_, hrows, rfl⟩⟩

/-- A report has a resource table when its stage is known, its outputs are listed and every entry
has a row. -/
theorem exists_bundle_iff {report : Report} {tables : Tables} :
    (∃ b, report.bundle tables = .ok b) ↔
      ∃ mask, report.stage tables = .ok mask ∧ report.outputs ≠ none ∧
        ∀ e ∈ report.entries, ∃ r, e.row report tables mask = .ok r := by
  simp only [bundle_eq_ok_iff_mapM, ← Sequence.exists_mapM_iff]
  constructor
  · rintro ⟨b, mask, hstage, hlisted, hrows⟩
    exact ⟨mask, hstage, hlisted, b.resources, hrows⟩
  · rintro ⟨mask, hstage, hlisted, rows, hrows⟩
    exact ⟨⟨rows⟩, mask, hstage, hlisted, hrows⟩

/-- **A resource table has exactly one row for each entry of the report**, in the order of the
entries, and each row holds what belongs into it and nothing else. There is a table exactly when
there is one entry point of a known stage, the outputs are listed and each entry has a row. -/
theorem bundle_eq_ok_iff (report : Report) (tables : Tables) (b : ResourceBundle) :
    report.bundle tables = .ok b ↔
      ∃ entry mask, report.entryPoints = [entry] ∧ tables.stage entry.mode = .ok mask ∧
        report.outputs ≠ none ∧
        List.Forall₂ (RowOf report tables mask) report.entries b.resources := by
  rw [bundle_eq]
  constructor
  · intro h
    obtain ⟨mask, hstage, h⟩ := Sequence.bind_eq_ok_iff.1 h
    obtain ⟨entry, hentry, hmask⟩ := stage_eq_ok_iff.1 hstage
    split at h
    · cases h
    · rename_i houtputs
      obtain ⟨rows, hrows, rfl⟩ := Sequence.map_eq_ok_iff.1 h
      refine ⟨entry, mask, hentry, hmask, houtputs, ?_⟩
      exact (Sequence.mapM_eq_ok_iff.1 hrows).imp fun _ _ => ReportEntry.rowOf_of_row
  · rintro ⟨entry, mask, hentry, hmask, houtputs, hrows⟩
    rw [stage_eq_ok_iff.2 ⟨entry, hentry, hmask⟩, Sequence.ok_bind, if_neg houtputs]
    refine Sequence.map_eq_ok_iff.2 ⟨b.resources, Sequence.mapM_eq_ok_iff.2 ?_, rfl⟩
    exact hrows.imp fun _ _ => ReportEntry.row_eq_ok_iff.2

end Report

end ShaderVariants
