import ShaderVariants.Proofs.Json.Records

/-!
# Reading sound values

A value in which nothing is flawed or missing either is what a reader expects or does not match it:
no reader of plain values meets a fault in it.
-/

namespace ShaderVariants.Json

open Sequence

variable {α β : Type}

/-- The reading meets nothing worse than a mismatch. -/
def Mismatches (x : Except ReadError α) : Prop :=
  ∀ e, x = .error e → ∃ m, e = .mismatch m

namespace Mismatches

/-- A result is no error. -/
theorem ok (a : α) : Mismatches (.ok a : Except ReadError α) :=
  nofun

/-- A mismatch is one. -/
theorem mismatch (m : Mismatch) : Mismatches (.error (.mismatch m) : Except ReadError α) :=
  fun _ h => ⟨m, (Except.error.inj h).symm⟩

/-- Two readings in a row meet what either meets. -/
theorem bind {x : Except ReadError α} {f : α → Except ReadError β} (hx : Mismatches x)
    (hf : ∀ a, Mismatches (f a)) : Mismatches (x >>= f) := by
  intro e h
  rcases bind_eq_error_iff.1 h with hfirst | ⟨a, -, hsecond⟩
  · exact hx e hfirst
  · exact hf a e hsecond

/-- A changed result is met with what the result is. -/
theorem map {x : Except ReadError α} (hx : Mismatches x) (f : α → β) : Mismatches (x.map f) :=
  fun e h => hx e (map_eq_error_iff.1 h)

/-- Readings of the elements of a list meet what one of them meets. -/
theorem mapM {f : α → Except ReadError β} {as : List α} (h : ∀ a ∈ as, Mismatches (f a)) :
    Mismatches (as.mapM f) := by
  intro e herror
  obtain ⟨before, a, after, rfl, -, hfails⟩ := mapM_eq_error_iff.1 herror
  exact h a (List.mem_append_right _ List.mem_cons_self) e hfails

end Mismatches

namespace Value

variable {v : Value}

/-- A sound value that is not expected is a mismatch. -/
theorem Sound.unexpected (h : v.Sound) (expected : String) :
    Mismatches (ReadError.unexpected v expected : Except ReadError α) := by
  cases h with
  | atom a => exact .mismatch _
  | text s => exact .mismatch _
  | array h => exact .mismatch _
  | object h => exact .mismatch _

/-- A sound value is a text, or does not match one. -/
theorem Sound.text_mismatches (h : v.Sound) : Mismatches (Reader.text v) := by
  cases h with
  | text s => exact .ok s
  | atom a => exact (Sound.atom a).unexpected _
  | array h => exact (Sound.array h).unexpected _
  | object h => exact (Sound.object h).unexpected _

/-- A sound value is an integer within the bounds, or does not match one. -/
theorem Sound.integer_mismatches (h : v.Sound) (low high : Int) (expected : String) :
    Mismatches (Reader.integer low high expected v) := by
  unfold Reader.integer
  split
  · split
    · exact .ok _
    · exact .mismatch _
  · exact h.unexpected _

/-- A sound value is a list of what `read` reads, or does not match one if no sound value is a fault
for `read`. -/
theorem Sound.list_mismatches (h : v.Sound) {read : Reader α}
    (hread : ∀ v : Value, v.Sound → Mismatches (read v)) : Mismatches (Reader.list read v) := by
  cases h with
  | array h =>
    refine (Mismatches.mapM fun v hv => hread v (h v hv)).bind fun as => ?_
    exact .ok as
  | atom a => exact (Sound.atom a).unexpected _
  | text s => exact (Sound.text s).unexpected _
  | object h => exact (Sound.object h).unexpected _

end Value

end ShaderVariants.Json
