import ShaderVariants.Json.Printer

/-!
# Texts between quotes

`Piece.Writes` says how a piece of a text can be written: a character as it is or by a letter, a
unit by its number. Written pieces are scanned up to the quote after them (`Piece.WritesAll.scan`).

Every text can be written so. The printer writes each character as one piece
(`Piece.writes_escape`), and the pieces of a text are decoded to the text
(`Token.ofPieces_map_ofChar`).
-/

namespace ShaderVariants.Json

namespace Piece

/-- How a piece is written. -/
inductive Writes : Piece → List Char → Prop where
  | char {c : Char} (hspace : ¬c < ' ') (hquote : c ≠ '"') (hbackslash : c ≠ '\\') :
      Writes (.char c) [c]
  | escape {e c : Char} (h : ofEscape e = some c) : Writes (.char c) ['\\', e]
  | unit {n : Nat} {a b c d : Char} (h : ofHex a b c d = some n) :
      Writes (.unit n) ['\\', 'u', a, b, c, d]

/-- How pieces are written, one after another. -/
inductive WritesAll : List Piece → List Char → Prop where
  | nil : WritesAll [] []
  | cons {p : Piece} {ps : List Piece} {cs ds : List Char} (h : p.Writes cs)
      (hrest : WritesAll ps ds) : WritesAll (p :: ps) (cs ++ ds)

/-- A written piece is scanned in front of what follows it. -/
theorem Writes.scan {p : Piece} {cs : List Char} (h : p.Writes cs) (rest : List Char) :
    scan (cs ++ rest) = before p (scan rest) := by
  cases h with
  | @char c hspace hquote hbackslash =>
    rw [List.singleton_append, Piece.scan]
    · rw [if_neg hspace]
    all_goals simp_all
  | @escape e c h =>
    -- The letter of a unit is no letter of a character.
    have hunit : e ≠ 'u' := by
      rintro rfl
      cases h
    show Piece.scan ('\\' :: e :: rest) = _
    rw [Piece.scan]
    · rw [h]
    all_goals simp_all
  | unit h =>
    show Piece.scan ('\\' :: 'u' :: _ :: _ :: _ :: _ :: rest) = _
    rw [Piece.scan, h]

/-- Written pieces are scanned up to the quote after them. -/
theorem WritesAll.scan {ps : List Piece} {cs : List Char} (h : WritesAll ps cs)
    (rest : List Char) : scan (cs ++ '"' :: rest) = (ps, .ok rest) := by
  induction h with
  | nil => rw [List.nil_append, Piece.scan]
  | cons hp _ ih =>
    rw [List.append_assoc, hp.scan, ih]
    rfl

/-! ## Printed texts -/

/-- The piece that a character is written as. -/
def ofChar (c : Char) : Piece :=
  if c < ' ' ∧ c ≠ '\x08' ∧ c ≠ '\t' ∧ c ≠ '\n' ∧ c ≠ '\x0c' ∧ c ≠ '\r' then unit c.toNat
  else char c

/-- A digit of base sixteen is read back. -/
theorem hexDigit_digitChar : ∀ n < 16, hexDigit (Nat.digitChar n) = some n := by
  decide

/-- A character before the space has a number below that of the space. -/
theorem toNat_lt_of_lt_space {c : Char} (h : c < ' ') : c.toNat < 32 := by
  have hval : c.val.toNat < ' '.val.toNat := h
  exact hval

/-- The number of a control character is read back from two digits of base sixteen. -/
theorem ofHex_digits {n : Nat} (h : n < 32) :
    ofHex '0' '0' (Nat.digitChar (n / 16)) (Nat.digitChar (n % 16)) = some n := by
  unfold ofHex
  rw [hexDigit_digitChar (n / 16) (by omega), hexDigit_digitChar (n % 16) (by omega)]
  show some (((0 * 16 + 0) * 16 + n / 16) * 16 + n % 16) = some n
  congr 1
  omega

/-- The printer writes a character as its piece. -/
theorem writes_escape (c : Char) : (ofChar c).Writes (Json.escape c) := by
  unfold Json.escape
  -- The characters with a letter of their own come first, then those that go by number.
  split
  · subst c; exact .escape rfl
  rename_i hquote
  split
  · subst c; exact .escape rfl
  rename_i hbackslash
  split
  · subst c; exact .escape rfl
  rename_i hb
  split
  · subst c; exact .escape rfl
  rename_i ht
  split
  · subst c; exact .escape rfl
  rename_i hn
  split
  · subst c; exact .escape rfl
  rename_i hf
  split
  · subst c; exact .escape rfl
  rename_i hr
  split
  · rename_i hspace
    rw [ofChar, if_pos ⟨hspace, hb, ht, hn, hf, hr⟩]
    exact .unit (ofHex_digits (toNat_lt_of_lt_space hspace))
  · rename_i hspace
    rw [ofChar, if_neg fun h => hspace h.1]
    exact .char hspace hquote hbackslash

/-- The printer writes a text as the pieces of its characters. -/
theorem writesAll_escape (cs : List Char) :
    WritesAll (cs.map ofChar) (cs.flatMap Json.escape) := by
  induction cs with
  | nil => exact .nil
  | cons c cs ih => exact .cons (writes_escape c) ih

/-- The piece that a character is written as is decoded to the character. -/
theorem decode_ofChar (c : Char) (pieces : List Piece) :
    decode none (ofChar c :: pieces) = (decode none pieces).map (c :: ·) := by
  unfold ofChar
  split
  · rename_i h
    -- A control character is no half of a pair.
    have hnat := toNat_lt_of_lt_space h.1
    have htrailing : isTrailing c.toNat = false := by
      simp only [isTrailing, Bool.and_eq_false_imp, decide_eq_true_eq]
      omega
    have hleading : isLeading c.toNat = false := by
      simp only [isLeading, Bool.and_eq_false_imp, decide_eq_true_eq]
      omega
    rw [decode.eq_def]
    simp only [htrailing, hleading, Bool.false_eq_true, if_false, Char.ofNat_toNat]
  · rw [decode]

/-- The pieces of a text are decoded to the text. -/
theorem decode_map_ofChar (cs : List Char) : decode none (cs.map ofChar) = .ok cs := by
  induction cs with
  | nil => rfl
  | cons c cs ih =>
    rw [List.map_cons, decode_ofChar, ih]
    rfl

end Piece

namespace Token

/-- Pieces that are the characters of a text give the text. -/
theorem ofPieces_map_ofChar (s : String) (rest : List Char) :
    ofPieces (s.toList.map Piece.ofChar) (.ok rest) = .ok s := by
  unfold ofPieces
  simp only [Piece.decode_map_ofChar, String.ofList_toList]

/-- Written pieces between quotes are scanned as one text. -/
theorem scan_quote {ps : List Piece} {cs : List Char} (h : Piece.WritesAll ps cs)
    (rest : List Char) :
    scan '"' (cs ++ '"' :: rest) = (.text (ofPieces ps (.ok rest)), some rest) := by
  unfold scan
  rw [show mark? '"' = none by decide]
  simp only [if_true, h.scan]
  rfl

end Token

end ShaderVariants.Json
