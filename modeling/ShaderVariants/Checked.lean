/-!
# Arithmetic of bounded width

Counts are 64-bit and masks and sizes are 32-bit words. An operation whose exact result does not
fit its width stops the program instead of wrapping around: it returns `Overflow`, and each
operation here succeeds exactly when the result fits.
-/

namespace ShaderVariants

/-- The exact result of an operation did not fit the width of its type. -/
structure Overflow where
deriving DecidableEq

namespace Checked

/-- One more than the largest word: `2 ^ 32`. -/
def limit32 : Nat :=
  4294967296

/-- One more than the largest signed count: `2 ^ 63`. -/
def limit63 : Nat :=
  9223372036854775808

/-- One more than the largest count: `2 ^ 64`. -/
def limit64 : Nat :=
  18446744073709551616

/-- The sum of two words. -/
def add32 (a b : UInt32) : Except Overflow UInt32 :=
  if a.toNat + b.toNat < limit32 then .ok (a + b) else .error ⟨⟩

/-- The word whose only set bit is `n`. -/
def bit32 (n : Nat) : Except Overflow UInt32 :=
  if n < 32 then .ok (1 <<< UInt32.ofNat n) else .error ⟨⟩

/-- The count `2 ^ n`. -/
def pow64 (n : Nat) : Except Overflow Nat :=
  if n < 64 then .ok (Nat.pow 2 n) else .error ⟨⟩

/-- A sum that fits is the sum of the numbers. -/
theorem add32_eq_ok_iff {a b c : UInt32} :
    add32 a b = .ok c ↔ a.toNat + b.toNat = c.toNat := by
  have hc := c.toNat_lt
  unfold add32 limit32
  split
  · rename_i h
    rw [Except.ok.injEq, ← UInt32.toNat_inj, UInt32.toNat_add, Nat.mod_eq_of_lt h]
  · rename_i h
    constructor
    · intro e
      cases e
    · omega

end Checked

/-- Why a computation has no result: a number outgrew its width, or the fault `e` was met. -/
inductive Halt (ε : Type) where
  | overflow
  | fault (e : ε)
deriving DecidableEq

namespace Halt

/-- A fault of another kind in the place of the fault. -/
def map {ε ε' : Type} (f : ε → ε') : Halt ε → Halt ε'
  | .overflow => .overflow
  | .fault e => .fault (f e)

/-- A checked operation inside a computation that may also meet faults. -/
def ofChecked {ε α : Type} : Except Overflow α → Except (Halt ε) α
  | .ok a => .ok a
  | .error _ => .error .overflow

/-- A computation that meets only faults inside one whose arithmetic may overflow. -/
def ofExcept {ε α : Type} : Except ε α → Except (Halt ε) α
  | .ok a => .ok a
  | .error e => .error (.fault e)

end Halt

end ShaderVariants
