import ShaderVariants.Normalize
import ShaderVariants.Report.Document
import ShaderVariants.Resource.Document
import ShaderVariants.Store
import ShaderVariants.Tables.Document

/-!
# Resource tables in files

`Report.normalizeFile` makes the resource table of a report in a file and stores it in another file,
or in the same one. Nothing is written before the table is complete, so a failure leaves every file
as it was.
-/

namespace ShaderVariants

open Json (Fault Mismatch ReadError)

/-- Why a resource table was not made, stored or loaded (`NormalizeError`). -/
inductive BundleError where
  /-- A file could not be read or written. -/
  | file (path : Path) (e : FileError)
  /-- A file is no document of its kind, or the file of a report no document at all. -/
  | unread (e : ReadError)
  /-- The document is no report. -/
  | misshapen (m : Mismatch)
  /-- The report has no resource table. -/
  | report (e : ReportError)
deriving DecidableEq

namespace Malformed

/-- What is wrong with a report, in words. -/
def describe : Malformed → String
  | entryPointCount count => "EntryPointCount(" ++ toString count ++ ")"
  | missingOutputs => "MissingOutputs"
  | missingType name => "MissingType(" ++ Text.quoted name ++ ")"
  | emptyBlock name => "EmptyBlock(" ++ Text.quoted name ++ ")"

end Malformed

namespace BundleError

/-- The error in words. -/
def message : BundleError → String
  | file _ _ => "the file could not be accessed"
  | unread _ => "invalid json"
  | misshapen m => "malformed reflection: Schema(" ++ Text.quoted m.message ++ ")"
  | report (.malformed m) => "malformed reflection: " ++ m.describe
  | report (.lookup e) => e.message

/-- Why a text is no report: a mismatch is the report's, any other error the document's (`from`). -/
def ofReadError : ReadError → BundleError
  | .fault f => unread (.fault f)
  | .mismatch m => misshapen m

end BundleError

namespace Tables

/-- The tables that a file gives (`load_overrides`). -/
def load (s : Store) (p : Path) : Except BundleError Tables := do
  let text ← (s.read p).mapError (.file p)
  (ofText text).mapError .unread

end Tables

namespace ResourceBundle

/-- The resource table of a file (`load`). -/
def load (s : Store) (p : Path) : Except BundleError ResourceBundle := do
  let text ← (s.read p).mapError (.file p)
  (ofText text).mapError .unread

/-- The store with a resource table in a file (`save`). -/
def save (b : ResourceBundle) (s : Store) (p : Path) : Except BundleError Store :=
  (s.write p b.text).mapError (.file p)

end ResourceBundle

namespace Report

/-- The resource table of the report in a text (`normalize_str`). -/
def bundleOfText (text : String) (tables : Tables) : Except (Halt BundleError) ResourceBundle :=
  match ofText text with
  | .ok report => (report.bundle tables).mapError (Halt.map .report)
  | .error e => .error (.fault (.ofReadError e))

/-- The resource table of the report in the file `raw`, and the store in which the file `output`
holds it (`normalize_file`). -/
def normalizeFile (s : Store) (raw output : Path) (tables : Tables) :
    Except (Halt BundleError) (ResourceBundle × Store) := do
  let text ← Halt.ofExcept ((s.read raw).mapError (.file raw))
  let bundle ← bundleOfText text tables
  let stored ← Halt.ofExcept (bundle.save s output)
  return (bundle, stored)

/-- The same with the table in the place of the report (`normalize_in_place`). -/
def normalizeInPlace (s : Store) (p : Path) (tables : Tables) :
    Except (Halt BundleError) (ResourceBundle × Store) :=
  normalizeFile s p p tables

end Report

end ShaderVariants
