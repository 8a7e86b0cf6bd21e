import Mathlib.Data.List.Sort
import ShaderVariants.Proofs.Group.Bits

/-!
# Decoding bit by bit

The macros of a value can be found by taking its bits off one at a time, the lowest first: as long
as bits are left, the macro of the lowest one is listed and the bit is cleared (`drain`). Each round
leaves a smaller value, so there is an end. One round takes the first of the set bits
(`setBits_of_ne_zero`), so all rounds together decode the value (`drain_eq`): the names that were
listed before come first, and then those of the bits that are left.

What comes of a value is said without either way of finding it: a list of names with one name for
each set bit, in ascending order of the bits (`activeMacros_eq_ok_iff`), or the lowest bit that
stands for no macro (`activeMacros_eq_error_iff`).
-/

namespace ShaderVariants.MacroGroup

variable {g : MacroGroup} {value : UInt32} {names : List String}

/-- The macros of a value whose bits are taken off one after another, the lowest first, after those
of the bits that were taken off before. -/
def drain (g : MacroGroup) (value : UInt32) (active : List String) :
    Except ConfigError (List String) :=
  if value = 0 then .ok active
  else do
    let name ← g.macroAt (Word.lowestBit value)
    g.drain (Word.clearLowest value) (active ++ [name])
termination_by value.toNat
decreasing_by exact Word.clearLowest_lt ‹_›

/-! ## One round -/

/-- The set bits of a value are listed in ascending order. -/
theorem setBits_sorted (value : UInt32) : (setBits value).Pairwise (· < ·) :=
  List.pairwise_lt_range.filter _

/-- A strictly ascending list of the set bits of a value is the list of its set bits. -/
theorem eq_setBits {bits : List ℕ} (hsorted : bits.Pairwise (· < ·))
    (hbits : ∀ bit, bit ∈ bits ↔ value.toNat.testBit bit = true) : bits = setBits value :=
  hsorted.eq_of_mem_iff (setBits_sorted value) fun bit => (hbits bit).trans mem_setBits_iff.symm

/-- The set bits of a value are its lowest one and those that are left without it. -/
theorem setBits_of_ne_zero (h : value ≠ 0) :
    setBits value = Word.lowestBit value :: setBits (Word.clearLowest value) := by
  refine (eq_setBits (List.pairwise_cons.2 ⟨fun bit hbit => ?_, setBits_sorted _⟩) ?_).symm
  · rw [mem_setBits_iff, Word.testBit_clearLowest h, Bool.and_eq_true, decide_eq_true_eq] at hbit
    -- A set bit below the lowest one would be none.
    by_contra hle
    have hlt : bit < Word.lowestBit value := by omega
    rw [Word.testBit_of_lt_lowestBit hlt] at hbit
    exact Bool.false_ne_true hbit.1
  · intro bit
    rw [List.mem_cons, mem_setBits_iff, Word.testBit_clearLowest h, Bool.and_eq_true,
      decide_eq_true_eq]
    by_cases hbit : bit = Word.lowestBit value
    · simp [hbit, Word.testBit_lowestBit h]
    · simp [hbit]

/-- A value without bits decodes to no macros. -/
theorem activeMacros_zero (g : MacroGroup) : g.activeMacros 0 = .ok [] := by
  have hbits : setBits 0 = [] := (eq_setBits .nil (by simp)).symm
  rw [activeMacros, hbits]
  rfl

/-- A value with bits decodes to the macro of the lowest bit and those of the others. -/
theorem activeMacros_of_ne_zero (h : value ≠ 0) :
    g.activeMacros value = (do
      let name ← g.macroAt (Word.lowestBit value)
      let rest ← g.activeMacros (Word.clearLowest value)
      return name :: rest) := by
  rw [activeMacros, setBits_of_ne_zero h, List.mapM_cons]
  rfl

/-! ## All rounds -/

/-- Taking bits off decodes the value, after the names that were listed before. -/
theorem drain_eq (g : MacroGroup) (value : UInt32) (active : List String) :
    g.drain value active = (g.activeMacros value).map (active ++ ·) := by
  -- The induction is on the rounds: what is left after one is decoded after one more name.
  fun_induction drain g value active with
  | case1 active =>
    rw [activeMacros_zero, Except.map, List.append_nil]
  | case2 value active hne ih =>
    rw [activeMacros_of_ne_zero hne]
    cases g.macroAt (Word.lowestBit value) with
    | error e => rfl
    | ok name =>
      rw [Sequence.ok_bind, Sequence.ok_bind, ih]
      cases g.activeMacros (Word.clearLowest value) with
      | error e => rfl
      | ok rest => simp [Except.map, pure, Except.pure]

/-! ## What a value decodes to -/

/-- The names are the macros at the set bits of a value: one for each bit, in ascending order of the
bits. -/
def Lists (g : MacroGroup) (value : UInt32) (names : List String) : Prop :=
  ∃ bits : List ℕ, bits.Pairwise (· < ·) ∧
    (∀ bit, bit ∈ bits ↔ value.toNat.testBit bit = true) ∧
    List.Forall₂ (fun bit name => g.macros[bit]? = some name) bits names

/-- The bit is the lowest of the set bits of a value that stand for no macro. -/
structure LowestPast (g : MacroGroup) (value : UInt32) (bit : ℕ) : Prop where
  set : value.toNat.testBit bit = true
  past : g.macros.length ≤ bit
  lowest : ∀ other < bit, value.toNat.testBit other = true → other < g.macros.length

/-- A bit stands for a macro if it is the place of one. -/
theorem macroAt_eq_ok_iff {bit : ℕ} {name : String} :
    g.macroAt bit = .ok name ↔ g.macros[bit]? = some name := by
  unfold macroAt
  cases g.macros[bit]? <;> simp

/-- A bit past the macros stands for none. -/
theorem macroAt_eq_error_iff {bit : ℕ} {e : ConfigError} :
    g.macroAt bit = .error e ↔
      g.macros.length ≤ bit ∧ e = .bitOutOfRange g.name bit g.macros.length := by
  unfold macroAt size
  rw [← List.getElem?_eq_none_iff]
  cases g.macros[bit]? <;> simp [eq_comm]

/-- There is a macro at a bit below their number. -/
theorem exists_macroAt_iff {bit : ℕ} :
    (∃ name, g.macroAt bit = .ok name) ↔ bit < g.macros.length := by
  simp only [macroAt_eq_ok_iff, List.getElem?_eq_some_iff, exists_comm (α := String), exists_eq',
    exists_prop, and_true]

/-- A value decodes to the macros at its set bits. -/
theorem activeMacros_eq_ok_iff : g.activeMacros value = .ok names ↔ g.Lists value names := by
  rw [activeMacros, Sequence.mapM_eq_ok_iff]
  simp only [macroAt_eq_ok_iff]
  constructor
  · intro h
    exact ⟨setBits value, setBits_sorted value, fun _ => mem_setBits_iff, h⟩
  · rintro ⟨bits, hsorted, hbits, h⟩
    rwa [← eq_setBits hsorted hbits]

/-- A value decodes exactly when it sets no bit past the macros. -/
theorem exists_activeMacros_iff :
    (∃ names, g.activeMacros value = .ok names) ↔ value.toNat < 2 ^ g.macros.length :=
  ⟨fun ⟨_, h⟩ => lt_of_activeMacros h, fun h => ⟨_, activeMacros_eq h⟩⟩

/-- A value that does not decode is reported with the lowest bit that stands for no macro. -/
theorem activeMacros_eq_error_iff {e : ConfigError} :
    g.activeMacros value = .error e ↔
      ∃ bit, g.LowestPast value bit ∧ e = .bitOutOfRange g.name bit g.macros.length := by
  rw [activeMacros, Sequence.mapM_eq_error_iff]
  simp only [exists_macroAt_iff, macroAt_eq_error_iff]
  constructor
  · rintro ⟨before, bit, after, hsplit, hbefore, hpast, rfl⟩
    have hsorted := setBits_sorted value
    rw [hsplit, List.pairwise_append, List.pairwise_cons] at hsorted
    refine ⟨bit, ⟨mem_setBits_iff.1 (by simp [hsplit]), hpast, fun other hlt hset => ?_⟩, rfl⟩
    -- A set bit below this one stands before it.
    rw [← mem_setBits_iff, hsplit, List.mem_append, List.mem_cons] at hset
    rcases hset with hmem | rfl | hmem
    · exact hbefore other hmem
    · exact absurd hlt (Nat.lt_irrefl other)
    · exact absurd hlt (Nat.lt_asymm (hsorted.2.1.1 other hmem))
  · rintro ⟨bit, ⟨hset, hpast, hlowest⟩, rfl⟩
    obtain ⟨before, after, hsplit⟩ := List.append_of_mem (mem_setBits_iff.2 hset)
    have hsorted := setBits_sorted value
    rw [hsplit, List.pairwise_append] at hsorted
    refine ⟨before, bit, after, hsplit, fun other hmem => hlowest other ?_ ?_, hpast, rfl⟩
    · exact hsorted.2.2 other hmem bit List.mem_cons_self
    · exact mem_setBits_iff.1 (hsplit ▸ List.mem_append_left _ hmem)

end ShaderVariants.MacroGroup
