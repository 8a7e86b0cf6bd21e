import ShaderVariants.Table

/-!
# Reflection reports

The reflector describes a compiled variant in a report: the entry points, the variables, textures,
buffers and constants by category, and the types that blocks are made of.
-/

namespace ShaderVariants

/-- A function at which execution may start. -/
structure EntryPoint where
  name : String
  /-- The name of the stage that it is for. -/
  mode : String
deriving DecidableEq

/-- An input or output variable of the stage. -/
structure InterfaceVariable where
  name : String
  typeName : String
  location : UInt32
deriving DecidableEq

/-- An input from an earlier part of the render pass. -/
structure SubpassInput where
  name : String
  set : UInt32
  binding : UInt32
  attachmentIndex : UInt32
deriving DecidableEq

/-- A texture with its sampler. -/
structure Texture where
  name : String
  set : UInt32
  binding : UInt32
deriving DecidableEq

/-- A buffer that the variant only reads. -/
structure UniformBuffer where
  name : String
  set : UInt32
  binding : UInt32
  /-- Its size in bytes. -/
  blockSize : UInt32
deriving DecidableEq

/-- A block of constants that a draw call passes directly. -/
structure PushConstant where
  name : String
  /-- The name of the block's type in the report. -/
  typeName : String
deriving DecidableEq

/-- A constant whose value is fixed when the pipeline is made. -/
structure SpecializationConstant where
  name : String
  id : UInt32
deriving DecidableEq

/-- A member of a block. -/
structure BlockMember where
  name : String
  typeName : String
  /-- Where it starts in the block, in bytes. -/
  offset : UInt32
deriving DecidableEq

/-- The type of a block. -/
structure BlockType where
  name : String
  members : List BlockMember
deriving DecidableEq

/-- What the reflector says about one compiled variant (`RawReflection`). -/
structure Report where
  entryPoints : List EntryPoint
  types : Table String BlockType
  inputs : List InterfaceVariable
  subpassInputs : List SubpassInput
  /-- None if the report does not list outputs, which is not the same as an empty list. -/
  outputs : Option (List InterfaceVariable)
  textures : List Texture
  uniformBuffers : List UniformBuffer
  pushConstants : List PushConstant
  specializationConstants : List SpecializationConstant
deriving DecidableEq

end ShaderVariants
