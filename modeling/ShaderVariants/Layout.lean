import ShaderVariants.Key
import ShaderVariants.Path

/-!
# Where the files of a shader's variants are

Next to a source stand two directories, one for compiled binaries and one for resource tables. The
files of a variant in them are named by its key.
-/

namespace ShaderVariants

/-- The places of the files built from `source` (`OutputLayout`). -/
structure Layout where
  source : Path
deriving DecidableEq

namespace Layout

/-- The directory of the compiled binaries (`binary_dir`). -/
def binaryDir (layout : Layout) : Path :=
  layout.source ++ ".bin2"

/-- The directory of the resource tables (`resource_dir`). -/
def resourceDir (layout : Layout) : Path :=
  layout.source ++ ".res2"

/-- The compiled binary of a variant (`spirv_path`). -/
def binary (layout : Layout) (key : VariantKey) : Path :=
  Path.join layout.binaryDir (key.artifactName "spv")

/-- The reflector's report on a variant (`raw_reflection_path`), before its resource table is made
from it. -/
def report (layout : Layout) (key : VariantKey) : Path :=
  Path.join layout.resourceDir (key.artifactName "raw.json")

/-- The resource table of a variant (`resource_path`). -/
def resources (layout : Layout) (key : VariantKey) : Path :=
  Path.join layout.resourceDir (key.artifactName "json")

/-- The configuration that stands next to a source (`default_path`). -/
def defaultConfig (source : Path) : Path :=
  Path.withExtension source "macro.json"

end Layout

end ShaderVariants
