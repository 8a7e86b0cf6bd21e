import ShaderVariants.Bake

/-!
# The summary of a build

A line for results says how many variants were built. For each variant that was not, there is a line
for messages for each tool that was stopped at its limit, and one for the error if there is one.
-/

namespace ShaderVariants

namespace Outcome

/-- The variant with its macros. -/
def title (o : Outcome) : String :=
  o.key.text ++ " [" ++ " ".intercalate o.defines ++ "]"

/-- What went wrong with the variant, in the order in which it did. -/
def complaints (o : Outcome) : List String :=
  o.timeouts.map ToolError.message ++
    match o.result with
    | .ok _ => []
    | .error e => [e.message]

/-- The lines about the variant. -/
def lines (o : Outcome) : List String :=
  o.complaints.map fun complaint => o.title ++ ": " ++ complaint

end Outcome

namespace BakeReport

/-- How many variants were built. -/
def builtCount (r : BakeReport) : Nat :=
  r.variants.countP Outcome.isSuccess

/-- The variants that were built and the others are all. -/
theorem builtCount_add_failureCount (r : BakeReport) :
    r.builtCount + r.failureCount = r.variants.length := by
  have h := List.length_eq_countP_add_countP Outcome.isSuccess (l := r.variants)
  simpa [builtCount, failureCount, failures, ← List.countP_eq_length_filter] using h.symm

/-- The line that says how many variants were built. -/
def headline (r : BakeReport) : String :=
  r.source ++ ": " ++ toString r.builtCount ++ " of " ++ toString r.variants.length ++
    " variants built"

/-- A text of lines. -/
def unlines (lines : List String) : String :=
  String.join (lines.map (· ++ "\n"))

/-- The summary as it is printed (`print_summary`). -/
def summary (r : BakeReport) : Console :=
  ⟨unlines [r.headline], unlines (r.failures.flatMap Outcome.lines)⟩

end BakeReport

end ShaderVariants
