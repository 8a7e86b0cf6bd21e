import ShaderVariants.Json.Schema
import ShaderVariants.Report

/-!
# Reading a reflection report

The schemas of the records of a report. Members that no schema names are passed over.
-/

namespace ShaderVariants

open Json (Reader Schema)
open Json.Field (required defaulted)

namespace EntryPoint

/-- The record of an entry point. -/
def schema : Schema EntryPoint where
  title := "RawEntryPoint"
  fields := [required "name" Reader.text, required "mode" Reader.text]
  closed := false
  build := fun (name, mode, ()) => { name, mode }

end EntryPoint

namespace InterfaceVariable

/-- The record of an input or output variable. -/
def schema : Schema InterfaceVariable where
  title := "RawInterfaceVariable"
  fields := [required "name" Reader.text, required "type" Reader.text,
    required "location" Reader.word]
  closed := false
  build := fun (name, typeName, location, ()) => { name, typeName, location }

end InterfaceVariable

namespace SubpassInput

/-- The record of a subpass input. -/
def schema : Schema SubpassInput where
  title := "RawSubpassInput"
  fields := [required "name" Reader.text, required "set" Reader.word,
    required "binding" Reader.word, required "input_attachment_index" Reader.word]
  closed := false
  build := fun (name, set, binding, attachmentIndex, ()) => { name, set, binding, attachmentIndex }

end SubpassInput

namespace Texture

/-- The record of a texture. -/
def schema : Schema Texture where
  title := "RawTexture"
  fields := [required "name" Reader.text, required "set" Reader.word,
    required "binding" Reader.word]
  closed := false
  build := fun (name, set, binding, ()) => { name, set, binding }

end Texture

namespace UniformBuffer

/-- The record of a uniform buffer. -/
def schema : Schema UniformBuffer where
  title := "RawUniformBuffer"
  fields := [required "name" Reader.text, required "set" Reader.word,
    required "binding" Reader.word, required "block_size" Reader.word]
  closed := false
  build := fun (name, set, binding, blockSize, ()) => { name, set, binding, blockSize }

end UniformBuffer

namespace PushConstant

/-- The record of a push constant block. -/
def schema : Schema PushConstant where
  title := "RawPushConstant"
  fields := [required "name" Reader.text, required "type" Reader.text]
  closed := false
  build := fun (name, typeName, ()) => { name, typeName }

end PushConstant

namespace SpecializationConstant

/-- The record of a specialization constant. -/
def schema : Schema SpecializationConstant where
  title := "RawSpecializationConstant"
  fields := [required "name" Reader.text, required "id" Reader.word]
  closed := false
  build := fun (name, id, ()) => { name, id }

end SpecializationConstant

namespace BlockMember

/-- The record of a member of a block. Without an offset it starts the block. -/
def schema : Schema BlockMember where
  title := "RawMember"
  fields := [defaulted "name" Reader.text "", required "type" Reader.text,
    defaulted "offset" Reader.word 0]
  closed := false
  build := fun (name, typeName, offset, ()) => { name, typeName, offset }

end BlockMember

namespace BlockType

/-- The record of a block's type. -/
def schema : Schema BlockType where
  title := "RawType"
  fields := [defaulted "name" Reader.text "",
    defaulted "members" (Reader.list BlockMember.schema.read) []]
  closed := false
  build := fun (name, members, ()) => { name, members }

end BlockType

namespace Report

/-- The record of a report. Every category may be absent or empty; only for the outputs it matters
which of the two, and they may also be null. -/
def schema : Schema Report where
  title := "RawReflection"
  fields := [
    defaulted "entryPoints" (Reader.list EntryPoint.schema.read) [],
    defaulted "types" (Reader.table BlockType.schema.read) Table.empty,
    defaulted "inputs" (Reader.list InterfaceVariable.schema.read) [],
    defaulted "subpass_inputs" (Reader.list SubpassInput.schema.read) [],
    { name := "outputs", Content := Option (List InterfaceVariable),
      read := Reader.optional (Reader.list InterfaceVariable.schema.read),
      absent := .inObject none },
    defaulted "textures" (Reader.list Texture.schema.read) [],
    defaulted "ubos" (Reader.list UniformBuffer.schema.read) [],
    defaulted "push_constants" (Reader.list PushConstant.schema.read) [],
    defaulted "specialization_constants" (Reader.list SpecializationConstant.schema.read) []]
  closed := false
  build := fun (entryPoints, types, inputs, subpassInputs, outputs, textures, uniformBuffers,
      pushConstants, specializationConstants, ()) =>
    { entryPoints, types, inputs, subpassInputs, outputs, textures, uniformBuffers, pushConstants,
      specializationConstants }

/-- The report that a text holds. -/
def ofText (text : String) : Except Json.ReadError Report :=
  Json.Document.read schema.read text

end Report

end ShaderVariants
