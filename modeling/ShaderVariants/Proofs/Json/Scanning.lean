import Mathlib.Data.List.TakeWhile
import ShaderVariants.Proofs.Json.Grammar
import ShaderVariants.Proofs.Sequence

/-!
# What is scanned is written

Scanning loses nothing of a text: a numeral, a text between quotes or a token is written in the
characters that are scanned for it (`Numeral.writes_of_scan`, `Piece.quoted_of_scan`,
`Token.writes_of_scan`), and between tokens there is nothing but blanks (`tokens_eq_cons`). This
holds as long as no token breaks the text, which is so if the tokens can be passed over
(`Token.Passable`).
-/

namespace ShaderVariants.Json

open Sequence

/-! ## Numerals -/

namespace Numeral

variable {cs ds rest : List Char}

/-- What is scanned as digits is digits. -/
theorem digits_of_scanDigits (h : scanDigits cs = .ok (ds, rest)) :
    Digits ds ∧ cs = ds ++ rest := by
  unfold scanDigits at h
  split at h
  · cases h
  · rename_i hne
    cases h
    exact ⟨⟨hne, fun c hc => List.mem_takeWhile_imp hc⟩, List.takeWhile_append_dropWhile.symm⟩

/-- What is scanned as a whole part is digits, and a zero only if it stands alone. -/
theorem digits_of_scanWhole (h : scanWhole cs = .ok (ds, rest)) :
    Digits ds ∧ (ds.head? = some '0' → ds = ['0']) ∧ cs = ds ++ rest := by
  unfold scanWhole at h
  split at h
  · cases h
  · rename_i hzero
    obtain ⟨hdigits, hcs⟩ := digits_of_scanDigits h
    refine ⟨hdigits, fun hhead => ?_, hcs⟩
    obtain ⟨ds, rfl⟩ := List.head?_eq_some_iff.1 hhead
    cases ds with
    | nil => rfl
    | cons d ds => exact absurd h (hzero d ds rest)

/-- What is scanned as a fraction is one, or nothing. -/
theorem writes_of_scanFraction {f : Option (List Char)} (h : scanFraction cs = .ok (f, rest)) :
    ∃ w, cs = w ++ rest ∧ WritesFraction f w := by
  unfold scanFraction at h
  split at h
  · obtain ⟨⟨ds, rest⟩, hds, heq⟩ := map_eq_ok_iff.1 h
    cases heq
    obtain ⟨hdigits, rfl⟩ := digits_of_scanDigits hds
    exact ⟨_, rfl, .digits hdigits⟩
  · cases h
    exact ⟨[], rfl, .none⟩

/-- What is scanned as a sign is one, or nothing. -/
theorem writes_of_scanSign (cs : List Char) :
    ∃ w, cs = w ++ (scanSign cs).2 ∧ WritesSign (scanSign cs).1 w := by
  unfold scanSign
  split
  · exact ⟨['-'], rfl, .minus⟩
  · exact ⟨['+'], rfl, .plus⟩
  · exact ⟨[], rfl, .none⟩

/-- What is scanned as an exponent is one, or nothing. -/
theorem writes_of_scanExponent {e : Option (Bool × List Char)}
    (h : scanExponent cs = .ok (e, rest)) : ∃ w, cs = w ++ rest ∧ WritesExponent e w := by
  unfold scanExponent at h
  split at h
  · rename_i c cs
    split at h
    · rename_i hc
      obtain ⟨⟨ds, rest⟩, hds, heq⟩ := map_eq_ok_iff.1 h
      cases heq
      obtain ⟨hdigits, hrest⟩ := digits_of_scanDigits hds
      obtain ⟨sign, hsign, hwrites⟩ := writes_of_scanSign cs
      rw [hrest, ← List.append_assoc] at hsign
      exact ⟨c :: (sign ++ ds), congrArg (c :: ·) hsign, .digits hc hwrites hdigits⟩
    · cases h
      exact ⟨[], rfl, .none⟩
  · cases h
    exact ⟨[], rfl, .none⟩

/-- A minus sign is scanned, or nothing. -/
theorem eq_append_scanMinus (cs : List Char) :
    cs = (if (scanMinus cs).1 then ['-'] else []) ++ (scanMinus cs).2 := by
  unfold scanMinus
  split <;> rfl

/-- What is scanned as a numeral writes it. -/
theorem writes_of_scan {n : Numeral} (h : scan cs = .ok (n, rest)) :
    ∃ w, cs = w ++ rest ∧ n.Writes w := by
  obtain ⟨⟨whole, afterWhole⟩, hwhole, h⟩ := bind_eq_ok_iff.1 h
  obtain ⟨⟨fraction, afterFraction⟩, hfraction, h⟩ := bind_eq_ok_iff.1 h
  obtain ⟨⟨exponent, afterExponent⟩, hexponent, h⟩ := bind_eq_ok_iff.1 h
  cases h
  obtain ⟨hdigits, hzero, hcs⟩ := digits_of_scanWhole hwhole
  obtain ⟨f, rfl, hf⟩ := writes_of_scanFraction hfraction
  obtain ⟨e, rfl, he⟩ := writes_of_scanExponent hexponent
  refine ⟨_, ?_, @Writes.parts ⟨(scanMinus cs).1, whole, fraction, exponent⟩ f e hdigits hzero hf
    he⟩
  calc cs = (if (scanMinus cs).1 then ['-'] else []) ++ (scanMinus cs).2 := eq_append_scanMinus cs
    _ = _ := by rw [hcs]; simp only [List.append_assoc]

end Numeral

/-! ## Texts between quotes -/

namespace Piece

/-- The characters write the pieces up to a quote, and this is what follows it. -/
def Quoted (cs : List Char) (ps : List Piece) (rest : List Char) : Prop :=
  ∃ w, cs = w ++ '"' :: rest ∧ WritesAll ps w

/-- A piece that is written in front of others is scanned in front of them. -/
theorem Quoted.of_before {p : Piece} {w cs rest : List Char} {ps : List Piece} (hp : p.Writes w)
    (hcs : ∀ ps, scan cs = (ps, .ok rest) → Quoted cs ps rest)
    (h : before p (scan cs) = (ps, .ok rest)) : Quoted (w ++ cs) ps rest := by
  obtain ⟨rfl, hrest⟩ := Prod.mk.inj h
  obtain ⟨v, hv, hall⟩ := hcs _ (Prod.ext rfl hrest)
  refine ⟨w ++ v, ?_, .cons hp hall⟩
  rw [List.append_assoc, ← hv]

/-- What is scanned up to a quote writes the pieces. -/
theorem quoted_of_scan {cs rest : List Char} {ps : List Piece} (h : scan cs = (ps, .ok rest)) :
    Quoted cs ps rest := by
  fun_induction scan cs generalizing ps with
  | case1 => cases h
  | case2 cs =>
    cases h
    exact ⟨[], rfl, .nil⟩
  | case3 => cases h
  | case4 a b c d cs n hn ih => exact .of_before (.unit hn) (fun _ => ih) h
  | case5 => cases h
  | case6 => cases h
  | case7 e cs _ _ c hc ih => exact .of_before (.escape hc) (fun _ => ih) h
  | case8 => cases h
  | case9 => cases h
  | case10 c cs hquote hlone _ _ hescape hspace ih =>
    -- A backslash would have been the first character of a longer piece, or the last of the text.
    have hplain : c ≠ '\\' := by
      rintro rfl
      cases cs with
      | nil => exact hlone rfl rfl
      | cons e cs => exact hescape e cs rfl rfl
    exact .of_before (.char hspace hquote hplain) (fun _ => ih) h

/-- Pieces that break off are no text. -/
theorem decode_some_ne_ok (f : Fault) (ps : List Piece) (cs : List Char) :
    decode (some f) ps ≠ .ok cs := by
  intro h
  fun_induction decode (some f) ps generalizing cs with
  | case1 hsome => cases hsome
  | case3 c ps ih | case6 n m ps _ _ _ ih | case9 n ps _ _ ih =>
    obtain ⟨cs', hcs', -⟩ := map_eq_ok_iff.1 h
    exact ih cs' hcs'
  | _ => cases h

end Piece

/-! ## Tokens -/

namespace Mark

/-- The character of a mark. -/
def char : Mark → Char
  | openArray => '['
  | closeArray => ']'
  | openObject => '\x7b'
  | closeObject => '\x7d'
  | comma => ','
  | colon => ':'

end Mark

namespace Token

variable {c : Char} {cs rest : List Char} {t : Token}

/-- Only its own character is a mark. -/
theorem eq_char_of_mark? {m : Mark} (h : mark? c = some m) : c = m.char := by
  unfold mark? at h
  repeat' split at h
  all_goals first | cases h; assumption | cases h

/-- The token can be passed over. -/
def Passable : Token → Prop
  | mark _ => True
  | atom a => Passed.token a = .ok ()
  | text s => Passed.token s = .ok ()

/-- The token is written in characters. -/
def Writes : Token → List Char → Prop
  | mark m, cs => cs = [m.char]
  | atom a, cs => (Value.atom a).Writes cs
  | text s, cs => (Value.text s).Writes cs

/-- A word is scanned letter by letter. -/
theorem eq_append_of_scanWord {word : List Char} (h : scanWord word cs = .ok rest) :
    cs = word ++ rest := by
  fun_induction scanWord word cs with
  | case1 => exact Except.ok.inj h
  | case2 => cases h
  | case3 w word cs ih => rw [ih h, List.cons_append]
  | case4 => cases h

/-- A word is scanned as its atom. -/
theorem of_ofWord {word : List Char} {a : Atom} (h : ofWord word a cs = (t, some rest)) :
    t = .atom (.ok a) ∧ cs = word ++ rest := by
  unfold ofWord at h
  split at h
  · rename_i hword
    cases h
    exact ⟨rfl, eq_append_of_scanWord hword⟩
  · cases h

/-- A number is written in the characters that are scanned for it. -/
theorem writes_of_ofNumeral (h : ofNumeral cs = (t, some rest)) :
    ∃ w, cs = w ++ rest ∧ t.Writes w := by
  unfold ofNumeral at h
  split at h
  · cases h
  · rename_i n rest' hscan
    obtain ⟨w, rfl, hw⟩ := Numeral.writes_of_scan hscan
    have hatom : t = .atom n.atom ∧ rest' = rest := by
      rw [Numeral.atom]
      cases hvalue : n.value with
      | none =>
        rw [hvalue] at h
        cases h
        exact ⟨rfl, rfl⟩
      | some v =>
        rw [hvalue] at h
        cases h
        exact ⟨rfl, rfl⟩
    obtain ⟨rfl, rfl⟩ := hatom
    exact ⟨w, rfl, .number hw⟩

/-- A text is written in the characters that are scanned for it, with the quotes. -/
theorem writes_of_pieces {pieces : List Piece} {ending : Except Fault (List Char)}
    (hscan : Piece.scan cs = (pieces, ending))
    (h : (Token.text (ofPieces pieces ending), ending.toOption) = (t, some rest)) :
    ∃ w, '"' :: cs = w ++ rest ∧ t.Writes w := by
  cases ending with
  | error f => cases h
  | ok rest' =>
    cases h
    obtain ⟨w, rfl, hw⟩ := Piece.quoted_of_scan hscan
    exact ⟨'"' :: w ++ ['"'], by simp, .text hw⟩

/-- A token is written in the characters that are scanned for it. -/
theorem writes_of_scan (h : scan c cs = (t, some rest)) :
    ∃ w, c :: cs = w ++ rest ∧ t.Writes w := by
  unfold scan at h
  split at h
  · rename_i m hm
    cases h
    exact ⟨[c], rfl, by rw [Writes, eq_char_of_mark? hm]⟩
  repeat' split at h
  · rename_i hquote _ _ _ hscan
    rw [hquote]
    exact writes_of_pieces hscan h
  · rename_i hc
    obtain ⟨rfl, rfl⟩ := of_ofWord h
    exact ⟨['n', 'u', 'l', 'l'], by rw [hc]; rfl, .null⟩
  · rename_i hc
    obtain ⟨rfl, rfl⟩ := of_ofWord h
    exact ⟨['t', 'r', 'u', 'e'], by rw [hc]; rfl, .boolean true⟩
  · rename_i hc
    obtain ⟨rfl, rfl⟩ := of_ofWord h
    exact ⟨['f', 'a', 'l', 's', 'e'], by rw [hc]; rfl, .boolean false⟩
  · exact writes_of_ofNumeral h
  · cases h

/-- A text that breaks off cannot be passed over. -/
theorem not_passable_of_pieces {pieces : List Piece} {ending : Except Fault (List Char)}
    (h : (Token.text (ofPieces pieces ending), ending.toOption) = (t, none)) : ¬t.Passable := by
  cases ending with
  | ok rest => cases h
  | error f =>
    cases h
    intro hpass
    rw [Passable, ofPieces] at hpass
    split at hpass
    · rename_i hdecode
      exact Piece.decode_some_ne_ok f _ _ hdecode
    · cases hpass

/-- A word that breaks off cannot be passed over. -/
theorem not_passable_of_ofWord {word : List Char} {a : Atom} (h : ofWord word a cs = (t, none)) :
    ¬t.Passable := by
  unfold ofWord at h
  split at h <;> cases h
  nofun

/-- A number that breaks off cannot be passed over. -/
theorem not_passable_of_ofNumeral (h : ofNumeral cs = (t, none)) : ¬t.Passable := by
  unfold ofNumeral at h
  split at h
  · cases h
    nofun
  · split at h <;> cases h

/-- A token after which nothing is scanned cannot be passed over. -/
theorem not_passable_of_scan (h : scan c cs = (t, none)) : ¬t.Passable := by
  unfold scan at h
  split at h
  · cases h
  repeat' split at h
  · exact not_passable_of_pieces h
  · exact not_passable_of_ofWord h
  · exact not_passable_of_ofWord h
  · exact not_passable_of_ofWord h
  · exact not_passable_of_ofNumeral h
  · cases h
    nofun

end Token

/-- A text whose first token can be passed over begins with the characters of the token, after
blanks, and the other tokens are those of what follows. -/
theorem tokens_eq_cons {cs : List Char} {t : Token} {ts : List Token} (h : tokens cs = t :: ts)
    (ht : t.Passable) :
    ∃ blanks w rest, cs = blanks ++ (w ++ rest) ∧ (∀ c ∈ blanks, isBlank c = true) ∧
      t.Writes w ∧ tokens rest = ts := by
  fun_induction tokens cs with
  | case1 => cases h
  | case2 c cs hblank ih =>
    obtain ⟨blanks, w, rest, rfl, hblanks, hw, hrest⟩ := ih h
    exact ⟨c :: blanks, w, rest, rfl, List.forall_mem_cons.2 ⟨hblank, hblanks⟩, hw, hrest⟩
  | case3 c cs hblank t' hscan =>
    cases h
    exact absurd ht (Token.not_passable_of_scan hscan)
  | case4 c cs hblank t' rest hscan ih =>
    cases h
    obtain ⟨w, hcs, hw⟩ := Token.writes_of_scan hscan
    exact ⟨[], w, rest, hcs, List.forall_mem_nil _, hw, rfl⟩

/-- A text without tokens is blank. -/
theorem isBlank_of_tokens {cs : List Char} (h : tokens cs = []) : ∀ c ∈ cs, isBlank c = true := by
  fun_induction tokens cs with
  | case1 => exact List.forall_mem_nil _
  | case2 c cs hblank ih => exact List.forall_mem_cons.2 ⟨hblank, ih h⟩
  | case3 => cases h
  | case4 => cases h

/-- A text whose first token is a mark begins with its character, after blanks. -/
theorem tokens_eq_mark {cs : List Char} {m : Mark} {ts : List Token}
    (h : tokens cs = .mark m :: ts) :
    ∃ blanks rest, cs = blanks ++ m.char :: rest ∧ (∀ c ∈ blanks, isBlank c = true) ∧
      tokens rest = ts := by
  obtain ⟨blanks, w, rest, hcs, hblanks, rfl, hrest⟩ := tokens_eq_cons h trivial
  exact ⟨blanks, rest, hcs, hblanks, hrest⟩

end ShaderVariants.Json
