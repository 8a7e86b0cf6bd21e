import ShaderVariants.Proofs.Bake.Steps
import ShaderVariants.Rehearsal

/-!
# Rehearsed tools are deterministic

What a planned tool writes depends on its arguments and the text of its input, so everything that is
shown of deterministic tools holds of a rehearsal.
-/

namespace ShaderVariants

namespace PlannedRun

/-- What a planned tool comes to. -/
def effect (run : PlannedRun) (usual : String) : ToolEffect :=
  { result := run.result
    written := (run.text.or (if run.usual then some usual else none)).map .text
    printed := {} }

end PlannedRun

namespace Plan

/-- A planned tool comes to its effect. -/
theorem perform_eq (run : PlannedRun) (usual : String) (output : Path) (s : Store) :
    perform run usual output s = (run.effect usual).run output s := by
  unfold perform ToolEffect.run ToolEffect.stored PlannedRun.effect
  cases run.text.or (if run.usual then some usual else none) <;> rfl

/-- The text that a reflector has of its input. -/
def inputText : Option Content → String
  | some (.text t) => t
  | _ => ""

/-- The text of a file is that of its content. -/
theorem read_getD (s : Store) (p : Path) :
    (s.read p).toOption.getD "" = inputText (s.content p).toOption := by
  unfold Store.read
  cases s.content p with
  | error e => rfl
  | ok content => cases content <;> rfl

/-- The tools of a rehearsal are deterministic. -/
theorem toolchain_deterministic (plan : Plan) : plan.toolchain.Deterministic where
  compile source defines output := by
    let run := (plan.compile.get? (fileName output)).getD {}
    exact ⟨fun _ => run.effect (" ".intercalate defines), fun s => perform_eq run _ output s⟩
  reflect binary output := by
    let run := (plan.reflect.get? (fileName binary)).getD {}
    refine ⟨fun input => run.effect (plan.report (inputText input)), fun s => ?_⟩
    dsimp only
    rw [← read_getD]
    exact perform_eq run _ output s

end Plan

end ShaderVariants
