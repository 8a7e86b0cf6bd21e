import ShaderVariants.Json.Schema
import ShaderVariants.Tables

/-!
# Reading tables

A document may give entries of any of the three tables. They are added to the standard tables and
replace entries of the same name there.
-/

namespace ShaderVariants.Tables

open Json (Reader Schema)
open Json.Field (defaulted)

/-- The record of additional entries (`TableOverrides`). It has no other members. -/
def schema : Schema Tables where
  title := "TableOverrides"
  fields := [defaulted "stages" (Reader.table Reader.word) Table.empty,
    defaulted "vec_sizes" (Reader.table Reader.word) Table.empty,
    defaulted "byte_sizes" (Reader.table Reader.word) Table.empty]
  closed := true
  build := fun (stages, vectorSizes, byteSizes, ()) =>
    { stages := stages.map StageMask.mk, vectorSizes, byteSizes }

/-- The standard tables with the entries that a text gives (`with_overrides`). -/
def ofText (text : String) : Except Json.ReadError Tables :=
  (Json.Document.read schema.read text).map standard.extend

end ShaderVariants.Tables
