import ShaderVariants.Proofs.Report.Overflow

/-!
# Reports without a resource table

A report has a resource table when it is `Usable` and no push constant block is too large for a
word. Otherwise one thing is reported, however many are wrong: the conditions are looked at in the
order of the constructors of `FirstFault`, and those on the entries of a category in the order of
the report. Making the table is a sequence of passes, each of which fails at its first offending
entry after the passes before it have all succeeded, and so the fault that it ends with is the first
one (`bundle_eq_fault_iff`).
-/

namespace ShaderVariants

namespace Tables

variable {tables : Tables} {name : String} {e : LookupError}

/-- A stage is looked up in the table of stages. -/
theorem stage_eq_ok_iff {mask : StageMask} :
    tables.stage name = .ok mask ↔ tables.stages.get? name = some mask := by
  unfold stage
  cases tables.stages.get? name <;> simp

/-- A stage that the table does not have is unknown. -/
theorem stage_eq_error_iff :
    tables.stage name = .error e ↔ tables.stages.get? name = none ∧ e = .unknownStage name := by
  unfold stage
  cases tables.stages.get? name <;> simp [eq_comm]

/-- A number of components is looked up in the table of vectors. -/
theorem vectorSize_eq_ok_iff {n : UInt32} :
    tables.vectorSize name = .ok n ↔ tables.vectorSizes.get? name = some n := by
  unfold vectorSize
  cases tables.vectorSizes.get? name <;> simp

/-- A vector that the table does not have is unknown. -/
theorem vectorSize_eq_error_iff :
    tables.vectorSize name = .error e ↔
      tables.vectorSizes.get? name = none ∧ e = .unknownType name := by
  unfold vectorSize
  cases tables.vectorSizes.get? name <;> simp [eq_comm]

/-- A number of bytes is looked up in the table of members. -/
theorem byteSize_eq_ok_iff {n : UInt32} :
    tables.byteSize name = .ok n ↔ tables.byteSizes.get? name = some n := by
  unfold byteSize
  cases tables.byteSizes.get? name <;> simp

/-- A member type that the table does not have is unknown. -/
theorem byteSize_eq_error_iff :
    tables.byteSize name = .error e ↔
      tables.byteSizes.get? name = none ∧ e = .unknownType name := by
  unfold byteSize
  cases tables.byteSizes.get? name <;> simp [eq_comm]

end Tables

namespace Report

variable {report : Report} {tables : Tables} {e : ReportError}

/-! ## What a report needs -/

/-- There is exactly one entry point, and its mode is a known stage. -/
def Staged (report : Report) (tables : Tables) : Prop :=
  ∃ entry mask, report.entryPoints = [entry] ∧ tables.stages.get? entry.mode = some mask

/-- The type of a variable is in the table of vectors. -/
def Vector (tables : Tables) (v : InterfaceVariable) : Prop :=
  ∃ n, tables.vectorSizes.get? v.typeName = some n

/-- The type of a push constant block is in the report, and the last of its members is of a type
that is in the table of members. -/
def Measured (report : Report) (tables : Tables) (c : PushConstant) : Prop :=
  ∃ t m size, report.types.get? c.typeName = some t ∧ t.last? = some m ∧
    tables.byteSizes.get? m.typeName = some size

/-- The report has all that its resource table is made of. -/
structure Usable (report : Report) (tables : Tables) : Prop where
  staged : report.Staged tables
  listed : ∃ outputs, report.outputs = some outputs
  inputs : ∀ v ∈ report.inputs, Vector tables v
  outputs : ∀ outputs, report.outputs = some outputs → ∀ v ∈ outputs, Vector tables v
  pushConstants : ∀ c ∈ report.pushConstants, report.Measured tables c

/-- What is wrong with the entry points of a report. -/
inductive StageFault (report : Report) (tables : Tables) : ReportError → Prop where
  | entryPointCount (hcount : report.entryPoints.length ≠ 1) :
      StageFault report tables (.malformed (.entryPointCount report.entryPoints.length))
  | unknownStage {entry : EntryPoint} (hentry : report.entryPoints = [entry])
      (hunknown : tables.stages.get? entry.mode = none) :
      StageFault report tables (.lookup (.unknownStage entry.mode))

/-- What is wrong with a push constant block. -/
inductive BlockFault (report : Report) (tables : Tables) (c : PushConstant) :
    ReportError → Prop where
  | missingType (htype : report.types.get? c.typeName = none) :
      BlockFault report tables c (.malformed (.missingType c.typeName))
  | emptyBlock {t : BlockType} (htype : report.types.get? c.typeName = some t)
      (hempty : t.members = []) : BlockFault report tables c (.malformed (.emptyBlock c.name))
  | unknownType {t : BlockType} {m : BlockMember} (htype : report.types.get? c.typeName = some t)
      (hlast : t.last? = some m) (hunknown : tables.byteSizes.get? m.typeName = none) :
      BlockFault report tables c (.lookup (.unknownType m.typeName))

/-- The first thing that is wrong with a report. Whatever is looked at before it is in order. -/
inductive FirstFault (report : Report) (tables : Tables) : ReportError → Prop where
  | stage {e : ReportError} (hfault : report.StageFault tables e) : FirstFault report tables e
  | missingOutputs (hstaged : report.Staged tables) (hnone : report.outputs = none) :
      FirstFault report tables (.malformed .missingOutputs)
  | input {outputs before after : List InterfaceVariable} {v : InterfaceVariable}
      (hstaged : report.Staged tables) (houtputs : report.outputs = some outputs)
      (hsplit : report.inputs = before ++ v :: after) (hbefore : ∀ u ∈ before, Vector tables u)
      (hunknown : tables.vectorSizes.get? v.typeName = none) :
      FirstFault report tables (.lookup (.unknownType v.typeName))
  | output {outputs before after : List InterfaceVariable} {v : InterfaceVariable}
      (hstaged : report.Staged tables) (houtputs : report.outputs = some outputs)
      (hinputs : ∀ u ∈ report.inputs, Vector tables u)
      (hsplit : outputs = before ++ v :: after) (hbefore : ∀ u ∈ before, Vector tables u)
      (hunknown : tables.vectorSizes.get? v.typeName = none) :
      FirstFault report tables (.lookup (.unknownType v.typeName))
  | pushConstant {outputs : List InterfaceVariable} {before after : List PushConstant}
      {c : PushConstant} {e : ReportError} (hstaged : report.Staged tables)
      (houtputs : report.outputs = some outputs) (hinputs : ∀ u ∈ report.inputs, Vector tables u)
      (hvectors : ∀ u ∈ outputs, Vector tables u)
      (hsplit : report.pushConstants = before ++ c :: after)
      (hbefore : ∀ d ∈ before, report.Measured tables d ∧ ¬report.Oversized tables d)
      (hfault : report.BlockFault tables c e) : FirstFault report tables e

/-! ## One pass at a time -/

/-- A lookup fails with what is not found. -/
theorem looking_eq_fault_iff {α : Type} {r : Except LookupError α} :
    looking r = .error (.fault e) ↔ ∃ e', r = .error e' ∧ e = .lookup e' := by
  cases r <;> simp [looking, Except.mapError, Halt.ofExcept, eq_comm]

/-- There is a stage if there is one entry point of a known one. -/
theorem exists_stage_iff : (∃ mask, report.stage tables = .ok mask) ↔ report.Staged tables := by
  simp only [stage_eq_ok_iff, Tables.stage_eq_ok_iff, Staged]
  exact exists_comm

/-- What is wrong with the stage of a report is what is wrong with its entry points. -/
theorem stage_eq_fault_iff :
    report.stage tables = .error (.fault e) ↔ report.StageFault tables e := by
  unfold stage
  split
  · rename_i entry hentry
    rw [looking_eq_fault_iff]
    constructor
    · rintro ⟨e', hstage, rfl⟩
      obtain ⟨hunknown, rfl⟩ := Tables.stage_eq_error_iff.1 hstage
      exact .unknownStage hentry hunknown
    · intro h
      cases h with
      | entryPointCount hcount => exact absurd (congrArg List.length hentry) hcount
      | unknownStage hentry' hunknown =>
        cases hentry.symm.trans hentry'
        exact ⟨_, Tables.stage_eq_error_iff.2 ⟨hunknown, rfl⟩, rfl⟩
  · rename_i hone
    constructor
    · intro h
      cases h
      refine .entryPointCount fun hlength => ?_
      obtain ⟨entry, hentry⟩ := List.length_eq_one_iff.1 hlength
      exact hone entry hentry
    · intro h
      cases h with
      | entryPointCount => rfl
      | unknownStage hentry => exact absurd hentry (hone _)

/-- A variable has a row if its type is known. -/
theorem exists_variableRow_iff {kind : ResourceKind} {mask : StageMask} {v : InterfaceVariable} :
    (∃ r, (looking (tables.vectorSize v.typeName)).map (Resource.ofVariable kind mask v) = .ok r) ↔
      Vector tables v := by
  simp [Sequence.map_eq_ok_iff, looking_eq_ok_iff, Tables.vectorSize_eq_ok_iff, Vector]

/-- Variables have rows if their types are known. -/
theorem exists_variableRows_iff {kind : ResourceKind} {mask : StageMask}
    {vs : List InterfaceVariable} :
    (∃ rows, variableRows tables kind mask vs = .ok rows) ↔ ∀ v ∈ vs, Vector tables v := by
  simp only [variableRows, Sequence.exists_mapM_iff, exists_variableRow_iff]

/-- The first variable of an unknown type is what is wrong with variables. -/
theorem variableRows_eq_fault_iff {kind : ResourceKind} {mask : StageMask}
    {vs : List InterfaceVariable} :
    variableRows tables kind mask vs = .error (.fault e) ↔
      ∃ before v after, vs = before ++ v :: after ∧ (∀ u ∈ before, Vector tables u) ∧
        tables.vectorSizes.get? v.typeName = none ∧ e = .lookup (.unknownType v.typeName) := by
  simp only [variableRows, Sequence.mapM_eq_error_iff, exists_variableRow_iff,
    Sequence.map_eq_error_iff, looking_eq_fault_iff, Tables.vectorSize_eq_error_iff, and_assoc,
    exists_and_left, exists_eq_left]

/-- A block has a size if it is measured and not oversized. -/
theorem exists_pushConstantSize_iff {c : PushConstant} :
    (∃ size, report.pushConstantSize tables c = .ok size) ↔
      report.Measured tables c ∧ ¬report.Oversized tables c := by
  rw [← pushConstantSize_eq_overflow_iff]
  unfold pushConstantSize Measured
  cases report.types.get? c.typeName with
  | none => simp [refuse]
  | some t =>
    dsimp only
    cases hlast : t.last? with
    | none => simp [refuse, hlast]
    | some m =>
      dsimp only
      cases hsize : tables.byteSize m.typeName with
      | error e =>
        obtain ⟨hnone, rfl⟩ := Tables.byteSize_eq_error_iff.1 hsize
        simp [looking, Except.mapError, Halt.ofExcept, hlast, hnone]
      | ok size =>
        have hsome := Tables.byteSize_eq_ok_iff.1 hsize
        simp only [looking, Except.mapError, Halt.ofExcept, Sequence.ok_bind]
        cases Checked.add32 m.offset size <;> simp [Halt.ofChecked, hlast, hsome]

/-- What is wrong with the size of a block is what is wrong with the block. -/
theorem pushConstantSize_eq_fault_iff {c : PushConstant} :
    report.pushConstantSize tables c = .error (.fault e) ↔ report.BlockFault tables c e := by
  constructor
  · intro h
    unfold pushConstantSize at h
    split at h
    · rename_i htype
      cases h
      exact .missingType htype
    · rename_i t htype
      split at h
      · rename_i hlast
        cases h
        refine .emptyBlock htype ?_
        unfold BlockType.last? at hlast
        split at hlast
        · assumption
        · cases hlast
      · rename_i m hlast
        rcases Sequence.bind_eq_error_iff.1 h with hlook | ⟨size, -, hadd⟩
        · obtain ⟨e', hsize, rfl⟩ := looking_eq_fault_iff.1 hlook
          obtain ⟨hunknown, rfl⟩ := Tables.byteSize_eq_error_iff.1 hsize
          exact .unknownType htype hlast hunknown
        · cases hsum : Checked.add32 m.offset size <;> rw [hsum] at hadd <;> cases hadd
  · intro h
    unfold pushConstantSize
    cases h with
    | missingType htype => rw [htype]; rfl
    | @emptyBlock t htype hempty =>
      have hlast : t.last? = none := by rw [BlockType.last?, hempty]
      rw [htype]
      dsimp only
      rw [hlast]
      rfl
    | @unknownType t m htype hlast hunknown =>
      rw [htype]
      dsimp only
      rw [hlast]
      dsimp only
      rw [Tables.byteSize_eq_error_iff.2 ⟨hunknown, rfl⟩]
      rfl

/-- Blocks have rows if each is measured and none is oversized. -/
theorem exists_pushConstantRows_iff {mask : StageMask} :
    (∃ rows, report.pushConstantRows tables mask = .ok rows) ↔
      ∀ c ∈ report.pushConstants, report.Measured tables c ∧ ¬report.Oversized tables c := by
  simp only [pushConstantRows, Sequence.exists_mapM_iff, Sequence.exists_map_iff,
    exists_pushConstantSize_iff]

/-- The first block with something wrong is what is wrong with blocks. -/
theorem pushConstantRows_eq_fault_iff {mask : StageMask} :
    report.pushConstantRows tables mask = .error (.fault e) ↔
      ∃ before c after, report.pushConstants = before ++ c :: after ∧
        (∀ d ∈ before, report.Measured tables d ∧ ¬report.Oversized tables d) ∧
        report.BlockFault tables c e := by
  simp only [pushConstantRows, Sequence.mapM_eq_error_iff, Sequence.exists_map_iff,
    Sequence.map_eq_error_iff, exists_pushConstantSize_iff, pushConstantSize_eq_fault_iff]

/-! ## All passes -/

/-- With a stage and with outputs, a table is made by three passes that may fail, each after the one
before it. -/
theorem bundle_eq_error_iff {mask : StageMask} {outputs : List InterfaceVariable}
    {halt : Halt ReportError} (hstage : report.stage tables = .ok mask)
    (houtputs : report.outputs = some outputs) :
    report.bundle tables = .error halt ↔
      variableRows tables .input mask report.inputs = .error halt ∨
      (∃ rows, variableRows tables .input mask report.inputs = .ok rows) ∧
        (variableRows tables .output mask outputs = .error halt ∨
        (∃ rows, variableRows tables .output mask outputs = .ok rows) ∧
          report.pushConstantRows tables mask = .error halt) := by
  unfold bundle
  rw [hstage, houtputs, Sequence.ok_bind]
  simp only [pure, Except.pure, Sequence.ok_bind, Sequence.bind_eq_error_iff, reduceCtorEq,
    and_false, exists_const, or_false, exists_and_right]

/-- What is wrong with a report whose stage is known and whose outputs are listed: the first input
of an unknown type, else the first such output, else the first block with something wrong. -/
theorem bundle_eq_fault_iff {mask : StageMask} {outputs : List InterfaceVariable}
    (hstage : report.stage tables = .ok mask) (houtputs : report.outputs = some outputs) :
    report.bundle tables = .error (.fault e) ↔ report.FirstFault tables e := by
  have hstaged : report.Staged tables := exists_stage_iff.1 ⟨mask, hstage⟩
  rw [bundle_eq_error_iff hstage houtputs, variableRows_eq_fault_iff, variableRows_eq_fault_iff,
    pushConstantRows_eq_fault_iff, exists_variableRows_iff, exists_variableRows_iff]
  constructor
  · rintro (⟨before, v, after, hsplit, hbefore, hunknown, rfl⟩ | ⟨hinputs,
      ⟨before, v, after, hsplit, hbefore, hunknown, rfl⟩ | ⟨hvectors, before, c, after, hsplit,
        hbefore, hfault⟩⟩)
    · exact .input hstaged houtputs hsplit hbefore hunknown
    · exact .output hstaged houtputs hinputs hsplit hbefore hunknown
    · exact .pushConstant hstaged houtputs hinputs hvectors hsplit hbefore hfault
  · intro h
    -- The stage is known and the outputs are listed, so it is none of the faults before these.
    cases h with
    | stage hfault => cases hstage.symm.trans (stage_eq_fault_iff.2 hfault)
    | missingOutputs _ hnone => cases houtputs.symm.trans hnone
    | input _ _ hsplit hbefore hunknown =>
      exact .inl ⟨_, _, _, hsplit, hbefore, hunknown, rfl⟩
    | output _ houtputs' hinputs hsplit hbefore hunknown =>
      cases houtputs.symm.trans houtputs'
      exact .inr ⟨hinputs, .inl ⟨_, _, _, hsplit, hbefore, hunknown, rfl⟩⟩
    | pushConstant _ houtputs' hinputs hvectors hsplit hbefore hfault =>
      cases houtputs.symm.trans houtputs'
      exact .inr ⟨hinputs, .inr ⟨hvectors, _, _, _, hsplit, hbefore, hfault⟩⟩

/-- Making a table fails with a fault exactly if it is the first one. -/
theorem bundle_eq_fault_iff_firstFault :
    report.bundle tables = .error (.fault e) ↔ report.FirstFault tables e := by
  cases hstage : report.stage tables with
  | error halt =>
    have hbundle : report.bundle tables = .error halt := by
      unfold bundle
      rw [hstage]
      rfl
    have hunstaged : ¬report.Staged tables := fun h => by
      obtain ⟨mask, hmask⟩ := exists_stage_iff.2 h
      cases hstage.symm.trans hmask
    rw [hbundle]
    constructor
    · intro h
      cases h
      exact .stage (stage_eq_fault_iff.1 hstage)
    · intro h
      cases h with
      | stage hfault =>
        cases hstage.symm.trans (stage_eq_fault_iff.2 hfault)
        rfl
      | missingOutputs hstaged => exact absurd hstaged hunstaged
      | input hstaged => exact absurd hstaged hunstaged
      | output hstaged => exact absurd hstaged hunstaged
      | pushConstant hstaged => exact absurd hstaged hunstaged
  | ok mask =>
    cases houtputs : report.outputs with
    | some outputs => exact bundle_eq_fault_iff hstage houtputs
    | none =>
      have hbundle : report.bundle tables = refuse .missingOutputs := by
        unfold bundle
        rw [hstage, houtputs]
        rfl
      rw [hbundle]
      constructor
      · intro h
        cases h
        exact .missingOutputs (exists_stage_iff.1 ⟨mask, hstage⟩) houtputs
      · intro h
        cases h with
        | stage hfault => cases hstage.symm.trans (stage_eq_fault_iff.2 hfault)
        | missingOutputs => rfl
        | input _ hsome => cases houtputs.symm.trans hsome
        | output _ hsome => cases houtputs.symm.trans hsome
        | pushConstant _ hsome => cases houtputs.symm.trans hsome

/-- A report with a resource table is usable. -/
theorem usable_of_bundle {b : ResourceBundle} (h : report.bundle tables = .ok b) :
    report.Usable tables := by
  obtain ⟨mask, hstage, h⟩ := Sequence.bind_eq_ok_iff.1 h
  cases houtputs : report.outputs with
  | none =>
    rw [houtputs] at h
    cases h
  | some outputs =>
    rw [houtputs] at h
    obtain ⟨_, hlisted, h⟩ := Sequence.bind_eq_ok_iff.1 h
    cases hlisted
    obtain ⟨inputRows, hinputs, h⟩ := Sequence.bind_eq_ok_iff.1 h
    obtain ⟨outputRows, hvectors, h⟩ := Sequence.bind_eq_ok_iff.1 h
    obtain ⟨pushConstantRows, hblocks, -⟩ := Sequence.bind_eq_ok_iff.1 h
    refine ⟨exists_stage_iff.1 ⟨mask, hstage⟩, ⟨outputs, houtputs⟩,
      exists_variableRows_iff.1 ⟨inputRows, hinputs⟩, fun outputs' houtputs' => ?_,
      fun c hc => (exists_pushConstantRows_iff.1 ⟨pushConstantRows, hblocks⟩ c hc).1⟩
    cases houtputs.symm.trans houtputs'
    exact exists_variableRows_iff.1 ⟨outputRows, hvectors⟩

/-- Nothing is wrong with a usable report. -/
theorem Usable.not_firstFault (h : report.Usable tables) : ¬report.FirstFault tables e := by
  intro hfirst
  cases hfirst with
  | stage hfault =>
    obtain ⟨mask, hmask⟩ := exists_stage_iff.2 h.staged
    cases hmask.symm.trans (stage_eq_fault_iff.2 hfault)
  | missingOutputs _ hnone =>
    obtain ⟨outputs, hsome⟩ := h.listed
    cases hnone.symm.trans hsome
  | @input _ _ _ v _ _ hsplit _ hunknown =>
    obtain ⟨n, hn⟩ := h.inputs v (hsplit ▸ List.mem_append_right _ List.mem_cons_self)
    cases hunknown.symm.trans hn
  | @output outputs _ _ v _ houtputs _ hsplit _ hunknown =>
    obtain ⟨n, hn⟩ := h.outputs outputs houtputs v
      (hsplit ▸ List.mem_append_right _ List.mem_cons_self)
    cases hunknown.symm.trans hn
  | @pushConstant _ _ _ c _ _ _ _ _ hsplit _ hfault =>
    obtain ⟨t, m, size, htype, hlast, hsize⟩ :=
      h.pushConstants c (hsplit ▸ List.mem_append_right _ List.mem_cons_self)
    cases hfault with
    | missingType hnone => cases hnone.symm.trans htype
    | emptyBlock htype' hempty =>
      cases htype.symm.trans htype'
      rw [BlockType.last?, hempty] at hlast
      cases hlast
    | unknownType htype' hlast' hunknown =>
      cases htype.symm.trans htype'
      cases hlast.symm.trans hlast'
      cases hunknown.symm.trans hsize

/-- **A report has a resource table exactly when it is usable and no block is too large**, and
otherwise what is reported is the first thing that is wrong with it, in the order of the conditions
and of the report. -/
theorem bundle_outcome (report : Report) (tables : Tables) :
    ((∃ b, report.bundle tables = .ok b) ↔
      report.Usable tables ∧ ¬report.Overflows tables) ∧
    (∀ e, report.bundle tables = .error (.fault e) ↔ report.FirstFault tables e) ∧
    (report.bundle tables = .error .overflow ↔ report.Overflows tables) := by
  refine ⟨⟨?_, ?_⟩, fun e => bundle_eq_fault_iff_firstFault, bundle_eq_overflow_iff⟩
  · rintro ⟨b, hb⟩
    refine ⟨usable_of_bundle hb, fun hlarge => ?_⟩
    cases hb.symm.trans (bundle_eq_overflow_iff.2 hlarge)
  · rintro ⟨husable, hfits⟩
    cases hbundle : report.bundle tables with
    | ok b => exact ⟨b, rfl⟩
    | error halt =>
      cases halt with
      | overflow => exact absurd (bundle_eq_overflow_iff.1 hbundle) hfits
      | fault e => exact absurd (bundle_eq_fault_iff_firstFault.1 hbundle) husable.not_firstFault

end Report

end ShaderVariants
