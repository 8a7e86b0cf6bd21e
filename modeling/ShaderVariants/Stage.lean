/-!
# Pipeline stages and stage masks

A resource is visible to a set of pipeline stages. The set is a 32-bit mask whose bits are those
that graphics interfaces use, so a mask is handed on unchanged; bits that name no stage are kept.
-/

namespace ShaderVariants

/-- A programmable stage of the pipeline. -/
inductive Stage where
  | vertex
  | tessellationControl
  | tessellationEvaluation
  | geometry
  | fragment
  | compute
deriving DecidableEq

namespace Stage

/-- The stages from the lowest bit to the highest. -/
def all : List Stage :=
  [vertex, tessellationControl, tessellationEvaluation, geometry, fragment, compute]

/-- The mask of the stage alone. -/
def bit : Stage → UInt32
  | vertex => 1
  | tessellationControl => 2
  | tessellationEvaluation => 4
  | geometry => 8
  | fragment => 16
  | compute => 32

/-- The name of the stage as a flag. -/
def label : Stage → String
  | vertex => "VERTEX"
  | tessellationControl => "TESSELLATION_CONTROL"
  | tessellationEvaluation => "TESSELLATION_EVALUATION"
  | geometry => "GEOMETRY"
  | fragment => "FRAGMENT"
  | compute => "COMPUTE"

end Stage

/-- A set of stages (`ShaderStage`). Every word is a mask, also one with bits that name no stage. -/
structure StageMask where
  bits : UInt32
deriving DecidableEq

namespace StageMask

/-- The mask of one stage. -/
def ofStage (s : Stage) : StageMask :=
  ⟨s.bit⟩

/-- The bits that name a stage. -/
def namedBits : UInt32 :=
  0x3f

/-- The stages of the mask, from the lowest bit to the highest. -/
def stages (m : StageMask) : List Stage :=
  Stage.all.filter fun s => m.bits &&& s.bit != 0

/-- The mask without the bits that name no stage. -/
def truncated (m : StageMask) : StageMask :=
  ⟨m.bits &&& namedBits⟩

/-- The bits that name no stage. -/
def unnamed (m : StageMask) : UInt32 :=
  m.bits &&& ~~~namedBits

/-- Every bit of the mask names a stage. -/
def isNamed (m : StageMask) : Bool :=
  m.unnamed == 0

/-- The mask for people: its flags, then the bits without a name as one number, joined by bars. -/
def describe (m : StageMask) : String :=
  let rest := if m.isNamed && !m.stages.isEmpty then []
    else ["0x" ++ String.ofList (Nat.toDigits 16 m.unnamed.toNat)]
  "ShaderStage(" ++ " | ".intercalate (m.stages.map Stage.label ++ rest) ++ ")"

end StageMask

end ShaderVariants
