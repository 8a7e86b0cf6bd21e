import ShaderVariants.Stage
import ShaderVariants.Table

/-!
# Stage and size tables

To make a resource table from a report, the names of stages and types are looked up: stages give
masks, the types of interface variables give numbers of components, and the types of block members
give sizes in bytes.
-/

namespace ShaderVariants

/-- A name that a table does not have. -/
inductive LookupError where
  | unknownStage (name : String)
  | unknownType (name : String)
deriving DecidableEq

namespace LookupError

/-- The error in words. -/
def message : LookupError → String
  | unknownStage name => "unknown shader stage `" ++ name ++ "`"
  | unknownType name => "unknown type `" ++ name ++ "`"

end LookupError

/-- What the names of stages and types stand for (`ReflectTables`). -/
structure Tables where
  stages : Table String StageMask
  /-- The number of components of a variable of the type. -/
  vectorSizes : Table String UInt32
  /-- The number of bytes of a block member of the type. -/
  byteSizes : Table String UInt32
deriving DecidableEq

namespace Tables

/-- The tables for the graphics stages, vectors of floats, and blocks of floats and four-vectors
(`default`). -/
def standard : Tables where
  stages := ⟨[
    ("vert", .ofStage .vertex), ("tesc", .ofStage .tessellationControl),
    ("tese", .ofStage .tessellationEvaluation), ("geom", .ofStage .geometry),
    ("frag", .ofStage .fragment)]⟩
  vectorSizes := ⟨[("vec2", 2), ("vec3", 3), ("vec4", 4)]⟩
  byteSizes := ⟨[("float", 4), ("vec4", 16)]⟩

/-- The mask of a stage (`stage`). -/
def stage (t : Tables) (name : String) : Except LookupError StageMask :=
  match t.stages.get? name with
  | some mask => .ok mask
  | none => .error (.unknownStage name)

/-- The number of components of a type (`vec_size`). -/
def vectorSize (t : Tables) (name : String) : Except LookupError UInt32 :=
  match t.vectorSizes.get? name with
  | some size => .ok size
  | none => .error (.unknownType name)

/-- The number of bytes of a type (`byte_size`). -/
def byteSize (t : Tables) (name : String) : Except LookupError UInt32 :=
  match t.byteSizes.get? name with
  | some size => .ok size
  | none => .error (.unknownType name)

/-- The entries of both (`extend`); of a name that both have, that of the second. -/
def extend (t other : Tables) : Tables where
  stages := t.stages.extend other.stages
  vectorSizes := t.vectorSizes.extend other.vectorSizes
  byteSizes := t.byteSizes.extend other.byteSizes

end Tables

end ShaderVariants
