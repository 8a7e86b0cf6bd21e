import ShaderVariants.Config.Document
import ShaderVariants.Store

/-!
# Macro configurations in files
-/

namespace ShaderVariants

/-- Why a file gives no configuration. -/
inductive ConfigFileError where
  | file (path : Path) (e : FileError)
  | text (e : ConfigTextError)
deriving DecidableEq

namespace ConfigFileError

/-- The error in words. -/
def message : ConfigFileError → String
  | file _ _ => "the macro configuration could not be read"
  | text e => e.message

end ConfigFileError

/-- The configuration of a file (`try_parse`). -/
def MacroConfig.load (s : Store) (p : Path) : Except ConfigFileError MacroConfig := do
  let text ← (s.read p).mapError (.file p)
  (ofText text).mapError .text

end ShaderVariants
