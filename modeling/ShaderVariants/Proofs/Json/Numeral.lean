import Mathlib.Data.List.Basic
import ShaderVariants.Json.Printer

/-!
# Numerals

`Numeral.Writes` says in which ways a numeral can be written: with a minus sign or none, with a
whole part whose first digit is no zero unless it is the only one, and with a fraction and an
exponent or without. However it is written, it is scanned (`Numeral.Writes.scan`) if no digit, point
or exponent follows, and begins a token (`Numeral.Writes.token`).

A count is written in its decimal digits. It is read back from them as an integer if it is a 64-bit
number (`value_toDigits`).
-/

namespace ShaderVariants.Json

/-- What may follow a number that has no fraction and no exponent. -/
def EndsNumeral (cs : List Char) : Prop :=
  ∀ c ∈ cs.head?, c.isDigit = false ∧ c ≠ '.' ∧ c ≠ 'e' ∧ c ≠ 'E'

namespace Numeral

/-! ## How numerals are written -/

/-- Digits, at least one. -/
structure Digits (ds : List Char) : Prop where
  nonempty : ds ≠ []
  isDigit : ∀ c ∈ ds, c.isDigit = true

/-- How a fraction is written. -/
inductive WritesFraction : Option (List Char) → List Char → Prop where
  | none : WritesFraction none []
  | digits {ds : List Char} (h : Digits ds) : WritesFraction (some ds) ('.' :: ds)

/-- How the sign of an exponent is written. -/
inductive WritesSign : Bool → List Char → Prop where
  | none : WritesSign false []
  | plus : WritesSign false ['+']
  | minus : WritesSign true ['-']

/-- How an exponent is written. -/
inductive WritesExponent : Option (Bool × List Char) → List Char → Prop where
  | none : WritesExponent none []
  | digits {e : Char} {negative : Bool} {sign ds : List Char} (he : e = 'e' ∨ e = 'E')
      (hsign : WritesSign negative sign) (h : Digits ds) :
      WritesExponent (some (negative, ds)) (e :: (sign ++ ds))

/-- How a numeral is written. -/
inductive Writes : Numeral → List Char → Prop where
  | parts {n : Numeral} {fraction exponent : List Char} (hwhole : Digits n.whole)
      (hzero : n.whole.head? = some '0' → n.whole = ['0'])
      (hfraction : WritesFraction n.fraction fraction)
      (hexponent : WritesExponent n.exponent exponent) :
      Writes n ((if n.negative then ['-'] else []) ++ n.whole ++ fraction ++ exponent)

/-! ## Scanning -/

/-- What may follow digits. -/
def EndsDigits (cs : List Char) : Prop :=
  ∀ c ∈ cs.head?, c.isDigit = false

/-- What may follow a fraction. -/
def EndsFraction (cs : List Char) : Prop :=
  ∀ c ∈ cs.head?, c.isDigit = false ∧ c ≠ '.'

variable {n : Numeral} {ds cs rest : List Char}

/-- Digits are taken up to where they end. -/
theorem Digits.scan (h : Digits ds) (hrest : EndsDigits rest) :
    scanDigits (ds ++ rest) = .ok (ds, rest) := by
  -- What follows begins with no digit, so nothing of it is taken.
  have htake : rest.takeWhile Char.isDigit = [] := by
    cases rest with
    | nil => rfl
    | cons c rest => rw [List.takeWhile_cons, hrest c rfl, if_neg (by decide)]
  have hdrop : rest.dropWhile Char.isDigit = rest := by
    cases rest with
    | nil => rfl
    | cons c rest => rw [List.dropWhile_cons, hrest c rfl, if_neg (by decide)]
  unfold scanDigits
  rw [List.takeWhile_append_of_pos h.isDigit, List.dropWhile_append_of_pos h.isDigit, htake, hdrop,
    List.append_nil]
  split
  · exact absurd rfl h.nonempty
  · rfl

/-- Digits that begin with no zero, or are one, are a whole part. -/
theorem Digits.scanWhole (h : Digits ds) (hzero : ds.head? = some '0' → ds = ['0'])
    (hrest : EndsDigits rest) : scanWhole (ds ++ rest) = .ok (ds, rest) := by
  unfold Numeral.scanWhole
  rw [h.scan hrest]
  split
  · rename_i heq
    cases heq
    cases hzero rfl
  · rfl

/-- What follows a fraction may follow the digits before it. -/
theorem WritesFraction.endsDigits {f : Option (List Char)} (h : WritesFraction f cs)
    (hrest : EndsFraction rest) : EndsDigits (cs ++ rest) := by
  cases h with
  | none => exact fun c hc => (hrest c hc).1
  | digits h =>
    intro c hc
    cases hc
    decide

/-- A fraction is scanned however it is written. -/
theorem WritesFraction.scan {f : Option (List Char)} (h : WritesFraction f cs)
    (hrest : EndsFraction rest) : scanFraction (cs ++ rest) = .ok (f, rest) := by
  cases h with
  | none =>
    rw [List.nil_append]
    unfold scanFraction
    split
    · exact absurd rfl (hrest _ rfl).2
    · rfl
  | digits h =>
    rw [List.cons_append, scanFraction, h.scan fun c hc => (hrest c hc).1]
    rfl

/-- What follows an exponent may follow the fraction before it. -/
theorem WritesExponent.endsFraction {e : Option (Bool × List Char)} (h : WritesExponent e cs)
    (hrest : EndsNumeral rest) : EndsFraction (cs ++ rest) := by
  cases h with
  | none => exact fun c hc => ⟨(hrest c hc).1, (hrest c hc).2.1⟩
  | digits he hsign h =>
    intro c hc
    cases hc
    rcases he with rfl | rfl <;> decide

/-- A sign in front of digits is scanned however it is written. -/
theorem WritesSign.scan {negative : Bool} (h : WritesSign negative cs) (hds : Digits ds)
    (rest : List Char) : scanSign (cs ++ ds ++ rest) = (negative, ds ++ rest) := by
  cases h with
  | none =>
    obtain ⟨d, ds', rfl⟩ := List.exists_cons_of_ne_nil hds.nonempty
    have hd := hds.isDigit d List.mem_cons_self
    rw [List.nil_append, List.cons_append]
    unfold scanSign
    split
    · rename_i heq
      cases heq
      exact absurd hd (by decide)
    · rename_i heq
      cases heq
      exact absurd hd (by decide)
    · rfl
  | plus => rfl
  | minus => rfl

/-- An exponent is scanned however it is written. -/
theorem WritesExponent.scan {e : Option (Bool × List Char)} (h : WritesExponent e cs)
    (hrest : EndsNumeral rest) : scanExponent (cs ++ rest) = .ok (e, rest) := by
  cases h with
  | none =>
    cases rest with
    | nil => rfl
    | cons c rest =>
      obtain ⟨-, -, he, hE⟩ := hrest c rfl
      rw [List.nil_append, scanExponent, if_neg (not_or.2 ⟨he, hE⟩)]
  | digits he hsign h =>
    rw [List.cons_append, scanExponent, if_pos he, hsign.scan h,
      h.scan fun c hc => (hrest c hc).1]
    rfl

/-- A minus sign in front of digits is scanned, if there is one. -/
theorem Digits.scanMinus (h : Digits ds) (negative : Bool) (rest : List Char) :
    scanMinus ((if negative then ['-'] else []) ++ ds ++ rest) = (negative, ds ++ rest) := by
  cases negative with
  | true => rfl
  | false =>
    obtain ⟨d, ds', rfl⟩ := List.exists_cons_of_ne_nil h.nonempty
    have hd := h.isDigit d List.mem_cons_self
    show Numeral.scanMinus (d :: (ds' ++ rest)) = _
    unfold Numeral.scanMinus
    split
    · rename_i heq
      cases heq
      exact absurd hd (by decide)
    · rfl

/-- A numeral is scanned however it is written. -/
theorem Writes.scan (h : n.Writes cs) (hrest : EndsNumeral rest) :
    scan (cs ++ rest) = .ok (n, rest) := by
  obtain ⟨negative, whole, fraction, exponent⟩ := n
  cases h with
  | parts hwhole hzero hfraction hexponent =>
    have hafter := hexponent.endsFraction hrest
    simp only [List.append_assoc]
    rw [← List.append_assoc]
    unfold Numeral.scan
    rw [hwhole.scanMinus, hwhole.scanWhole hzero (hfraction.endsDigits hafter)]
    simp only [bind, Except.bind, hfraction.scan hafter, hexponent.scan hrest]
    rfl

/-! ## Counts -/

/-- The digits of a positive count begin with no zero. -/
theorem head_toDigits_ne_zero (n : Nat) (hn : 0 < n) : (Nat.toDigits 10 n).head? ≠ some '0' := by
  induction n using Nat.strongRecOn with
  | ind n ih =>
    by_cases hsmall : n < 10
    · rw [Nat.toDigits_of_lt_base hsmall]
      have hdigit : ∀ n < 10, 0 < n → Nat.digitChar n ≠ '0' := by decide
      intro h
      exact hdigit n hsmall hn (Option.some.inj h)
    · have hpos : 0 < n / 10 := by omega
      have hne : Nat.toDigits 10 (n / 10) ≠ [] := Nat.toDigits_ne_nil
      rw [Nat.toDigits_of_base_le (by decide) (by omega), List.head?_append_of_ne_nil _ hne]
      exact ih (n / 10) (by omega) hpos

/-- Digits are taken in by their value, one after another. -/
theorem foldl_digit (ds : List Char) (n : Nat) :
    ds.foldl (fun n c => n * 10 + digit c) n = Nat.ofDigitChars 10 ds n := by
  induction ds generalizing n with
  | nil => rfl
  | cons d ds ih =>
    rw [List.foldl_cons, ih, Nat.ofDigitChars_cons, Nat.mul_comm]
    rfl

/-- Taking in digits makes a number no smaller. -/
theorem le_foldl_digit (ds : List Char) (n : Nat) :
    n ≤ ds.foldl (fun n c => n * 10 + digit c) n := by
  induction ds generalizing n with
  | nil => exact Nat.le_refl _
  | cons d ds ih =>
    calc n ≤ n * 10 + digit d := by omega
      _ ≤ (d :: ds).foldl (fun n c => n * 10 + digit c) n := ih _

/-- Digits of a 64-bit number are all taken into the significand. -/
theorem gather_eq (ds : List Char) (n : Nat)
    (h : ds.foldl (fun n c => n * 10 + digit c) n < Checked.limit64) :
    gather n ds = (ds.foldl (fun n c => n * 10 + digit c) n, []) := by
  induction ds generalizing n with
  | nil => rfl
  | cons d ds ih =>
    -- The number only grows, so it fits all along if it does in the end.
    have hlt : n * 10 + digit d < Checked.limit64 :=
      Nat.lt_of_le_of_lt (le_foldl_digit ds _) h
    rw [gather, if_pos hlt]
    exact ih _ h

/-- The digits of a 64-bit count are all taken in, and give the count. -/
theorem gather_toDigits {n : Nat} (h : n < Checked.limit64) :
    gather 0 (Nat.toDigits 10 n) = (n, []) := by
  have hfold : (Nat.toDigits 10 n).foldl (fun n c => n * 10 + digit c) 0 = n := by
    rw [foldl_digit, Nat.ofDigitChars_ten_toDigits]
  have hgather := gather_eq (Nat.toDigits 10 n) 0
  rw [hfold] at hgather
  exact hgather h

/-- The value of the digits of a 64-bit count is the count. -/
theorem value_toDigits {n : Nat} (h : n < Checked.limit64) :
    (⟨false, Nat.toDigits 10 n, none, none⟩ : Numeral).value = some (.integer n) := by
  unfold value
  simp only [gather_toDigits h]
  rfl

/-- A count is written in its digits. -/
theorem writes_toDigits (n : Nat) :
    Writes ⟨false, Nat.toDigits 10 n, none, none⟩ (Nat.toDigits 10 n) := by
  have hzero : (Nat.toDigits 10 n).head? = some '0' → Nat.toDigits 10 n = ['0'] := by
    intro h
    rcases Nat.eq_zero_or_pos n with rfl | hn
    · exact Nat.toDigits_zero 10
    · exact absurd h (head_toDigits_ne_zero n hn)
  have hdigits : Digits (Nat.toDigits 10 n) :=
    ⟨Nat.toDigits_ne_nil, fun _ hc => Nat.isDigit_of_mem_toDigits (by decide) (by decide) hc⟩
  have hwrites : Writes ⟨false, Nat.toDigits 10 n, none, none⟩ _ :=
    .parts hdigits hzero .none .none
  simpa using hwrites

end Numeral

namespace Token

/-- A character that begins a number is no other character. -/
theorem ne_of_beginsNumber {c : Char} (h : c = '-' ∨ c.isDigit = true) :
    ∀ d : Char, d ≠ '-' → d.isDigit = false → c ≠ d := by
  rintro d hminus hdigit rfl
  rcases h with rfl | h
  · exact hminus rfl
  · cases h.symm.trans hdigit

/-- A character that begins a number is no character of structure. -/
theorem mark?_of_beginsNumber {c : Char} (h : c = '-' ∨ c.isDigit = true) : mark? c = none := by
  have hne := ne_of_beginsNumber h
  unfold mark?
  rw [if_neg (hne _ (by decide) (by decide)), if_neg (hne _ (by decide) (by decide)),
    if_neg (hne _ (by decide) (by decide)), if_neg (hne _ (by decide) (by decide)),
    if_neg (hne _ (by decide) (by decide)), if_neg (hne _ (by decide) (by decide))]

/-- A minus sign or a digit begins a number. -/
theorem scan_of_beginsNumber {c : Char} (h : c = '-' ∨ c.isDigit = true) (cs : List Char) :
    scan c cs = ofNumeral (c :: cs) := by
  have hne := ne_of_beginsNumber h
  unfold scan
  rw [mark?_of_beginsNumber h]
  simp only [hne '"' (by decide) (by decide), hne 'n' (by decide) (by decide),
    hne 't' (by decide) (by decide), hne 'f' (by decide) (by decide), h, if_true, if_false]

end Token

namespace Numeral

/-- The atom that a numeral writes. If no double holds it, it is flawed for a reader that needs
it. -/
def atom (n : Numeral) : Except Flaw Atom :=
  match n.value with
  | some v => .ok (.number v)
  | none => .error ⟨.malformed, none⟩

variable {n : Numeral} {cs rest : List Char}

/-- A numeral is written with a minus sign or a digit first. -/
theorem Writes.exists_cons (h : n.Writes cs) :
    ∃ c cs', cs = c :: cs' ∧ (c = '-' ∨ c.isDigit = true) := by
  obtain ⟨negative, whole, fraction, exponent⟩ := n
  cases h with
  | parts hwhole =>
    cases negative with
    | true => exact ⟨'-', _, rfl, .inl rfl⟩
    | false =>
      obtain ⟨d, ds, rfl⟩ := List.exists_cons_of_ne_nil hwhole.nonempty
      exact ⟨d, _, rfl, .inr (hwhole.isDigit d List.mem_cons_self)⟩

/-- However a numeral is written, its first character begins a token with its atom. -/
theorem Writes.token {c : Char} (h : n.Writes (c :: cs)) (hrest : EndsNumeral rest) :
    Token.scan c (cs ++ rest) = (.atom n.atom, some rest) := by
  obtain ⟨c', cs', hcons, hbegins⟩ := h.exists_cons
  cases hcons
  rw [Token.scan_of_beginsNumber hbegins, ← List.cons_append, Token.ofNumeral, h.scan hrest]
  dsimp only
  unfold atom
  cases n.value <;> rfl

end Numeral

end ShaderVariants.Json
