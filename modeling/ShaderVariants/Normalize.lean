import ShaderVariants.Checked
import ShaderVariants.Report
import ShaderVariants.Resource
import ShaderVariants.Tables

/-!
# From a report to a resource table

`Report.bundle` makes the resource table of a variant: one row for each input, subpass input,
output, texture, uniform buffer, push constant and specialization constant of the report, in this
order of categories and in the order of the report within each. Every row is visible to the one
stage of the report's entry point.

A report may be unusable (`Malformed`), or name a stage or a type that the tables do not have. The
first obstacle in the order of the work is the one reported. A push constant block whose size is no
32-bit number overflows.
-/

namespace ShaderVariants

/-- Why a report is unusable (`MalformedKind`). -/
inductive Malformed where
  /-- There is not exactly one entry point. -/
  | entryPointCount (count : Nat)
  /-- The outputs are not listed. -/
  | missingOutputs
  /-- A push constant block is of a type that is not in the report. -/
  | missingType (name : String)
  /-- A push constant block has no members. -/
  | emptyBlock (name : String)
deriving DecidableEq

/-- Why a report has no resource table. -/
inductive ReportError where
  | lookup (e : LookupError)
  | malformed (m : Malformed)
deriving DecidableEq

namespace Resource

/-- The row of an input or output variable whose type has `vectorSize` components. -/
def ofVariable (kind : ResourceKind) (stages : StageMask) (v : InterfaceVariable)
    (vectorSize : UInt32) : Resource :=
  { stages, kind, name := v.name, location := v.location, vectorSize, columns := 1, arraySize := 1 }

/-- The row of a subpass input. -/
def ofSubpassInput (stages : StageMask) (i : SubpassInput) : Resource :=
  { stages, kind := .inputAttachment, name := i.name, set := i.set, binding := i.binding,
    attachmentIndex := i.attachmentIndex, arraySize := 1 }

/-- The row of a texture. -/
def ofTexture (stages : StageMask) (t : Texture) : Resource :=
  { stages, kind := .imageSampler, name := t.name, set := t.set, binding := t.binding,
    arraySize := 1 }

/-- The row of a uniform buffer. -/
def ofUniformBuffer (stages : StageMask) (b : UniformBuffer) : Resource :=
  { stages, kind := .uniformBuffer, name := b.name, set := b.set, binding := b.binding,
    arraySize := 1, size := b.blockSize }

/-- The row of a push constant block of a given size. -/
def ofPushConstant (stages : StageMask) (c : PushConstant) (size : UInt32) : Resource :=
  { stages, kind := .pushConstant, name := c.name, size }

/-- The row of a specialization constant, which always has four bytes. -/
def ofSpecializationConstant (stages : StageMask) (c : SpecializationConstant) : Resource :=
  { stages, kind := .specializationConstant, name := c.name, size := 4, constantId := c.id }

end Resource

namespace BlockType

/-- The member with the greatest offset, the first of several, or `m` if none has a greater one. -/
def lastFrom (m : BlockMember) : List BlockMember → BlockMember
  | [] => m
  | n :: ns => if n.offset ≤ m.offset then lastFrom m ns else lastFrom n ns

/-- The member with the greatest offset, the first of several. -/
def last? (t : BlockType) : Option BlockMember :=
  match t.members with
  | [] => none
  | m :: ms => some (lastFrom m ms)

end BlockType

namespace Report

/-- What making a resource table gives. -/
abbrev Attempt := Except (Halt ReportError)

/-- A lookup as part of making a resource table. -/
def looking {α : Type} (r : Except LookupError α) : Attempt α :=
  Halt.ofExcept (r.mapError .lookup)

/-- The report is unusable. -/
def refuse {α : Type} (m : Malformed) : Attempt α :=
  .error (.fault (.malformed m))

/-- The mask of the stage of the only entry point. -/
def stage (report : Report) (tables : Tables) : Attempt StageMask :=
  match report.entryPoints with
  | [entry] => looking (tables.stage entry.mode)
  | entries => refuse (.entryPointCount entries.length)

/-- The rows of variables. -/
def variableRows (tables : Tables) (kind : ResourceKind) (stages : StageMask)
    (vs : List InterfaceVariable) : Attempt (List Resource) :=
  vs.mapM fun v =>
    (looking (tables.vectorSize v.typeName)).map (Resource.ofVariable kind stages v)

/-- The size of a push constant block (`push_constant_size`): the end of its last member. -/
def pushConstantSize (report : Report) (tables : Tables) (c : PushConstant) : Attempt UInt32 :=
  match report.types.get? c.typeName with
  | none => refuse (.missingType c.typeName)
  | some t =>
    match t.last? with
    | none => refuse (.emptyBlock c.name)
    | some m => do
      let size ← looking (tables.byteSize m.typeName)
      Halt.ofChecked (Checked.add32 m.offset size)

/-- The rows of push constant blocks. -/
def pushConstantRows (report : Report) (tables : Tables) (stages : StageMask) :
    Attempt (List Resource) :=
  report.pushConstants.mapM fun c =>
    (report.pushConstantSize tables c).map (Resource.ofPushConstant stages c)

/-- The resource table of a report (`normalize`). -/
def bundle (report : Report) (tables : Tables) : Attempt ResourceBundle := do
  let stages ← report.stage tables
  let outputs ← match report.outputs with
    | some outputs => pure outputs
    | none => refuse .missingOutputs
  let inputRows ← variableRows tables .input stages report.inputs
  let outputRows ← variableRows tables .output stages outputs
  let pushConstantRows ← report.pushConstantRows tables stages
  return ⟨inputRows
    ++ report.subpassInputs.map (Resource.ofSubpassInput stages)
    ++ outputRows
    ++ report.textures.map (Resource.ofTexture stages)
    ++ report.uniformBuffers.map (Resource.ofUniformBuffer stages)
    ++ pushConstantRows
    ++ report.specializationConstants.map (Resource.ofSpecializationConstant stages)⟩

end Report

end ShaderVariants
