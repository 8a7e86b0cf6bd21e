import ShaderVariants.Proofs.Json.Grammar

/-!
# The tokens of a written value

However a value is written, its text is cut into the tokens of the value (`Value.Writes.lexes`),
whatever follows it that is no part of a number.
-/

namespace ShaderVariants.Json

/-- A character that is no blank begins a token. -/
theorem tokens_cons {c : Char} {cs rest : List Char} {t : Token} (hblank : isBlank c = false)
    (h : Token.scan c cs = (t, some rest)) : tokens (c :: cs) = t :: tokens rest := by
  rw [tokens, if_neg (by rw [hblank]; decide)]
  split
  · rename_i heq
    rw [h] at heq
    cases heq
  · rename_i heq
    rw [h] at heq
    cases heq
    rfl

/-- A blank is one of four characters. -/
theorem isBlank_iff {c : Char} :
    isBlank c = true ↔ c = ' ' ∨ c = '\t' ∨ c = '\n' ∨ c = '\r' := by
  simp [isBlank, or_assoc]

/-- A character of structure is no blank. -/
theorem isBlank_of_mark? {c : Char} {m : Mark} (h : Token.mark? c = some m) :
    isBlank c = false := by
  rw [Bool.eq_false_iff]
  intro hblank
  rcases isBlank_iff.1 hblank with rfl | rfl | rfl | rfl <;> cases h

/-- A character of structure is a token. -/
theorem tokens_mark {c : Char} {m : Mark} (cs : List Char) (h : Token.mark? c = some m) :
    tokens (c :: cs) = .mark m :: tokens cs := by
  refine tokens_cons (isBlank_of_mark? h) ?_
  rw [Token.scan, h]

/-- A blank is no part of a token. -/
theorem tokens_blank {c : Char} (cs : List Char) (h : isBlank c = true) :
    tokens (c :: cs) = tokens cs := by
  rw [tokens, if_pos h]

/-- Blanks are no part of a token. -/
theorem tokens_blanks {blanks : List Char} (h : ∀ c ∈ blanks, isBlank c = true)
    (cs : List Char) : tokens (blanks ++ cs) = tokens cs := by
  induction blanks with
  | nil => rfl
  | cons c blanks ih =>
    rw [List.cons_append, tokens_blank _ (h c List.mem_cons_self)]
    exact ih fun d hd => h d (List.mem_cons_of_mem _ hd)

/-- Brackets are tokens around those between them. -/
theorem tokens_brackets {first last : Char} {m n : Mark} {inner rest : List Char}
    {ts : List Token} (h : tokens (inner ++ last :: rest) = ts ++ tokens (last :: rest))
    (hm : Token.mark? first = some m) (hn : Token.mark? last = some n) :
    tokens (first :: inner ++ [last] ++ rest) =
      .mark m :: ts ++ [.mark n] ++ tokens rest := by
  rw [List.append_assoc, List.singleton_append, List.cons_append, tokens_mark _ hm, h,
    tokens_mark _ hn]
  simp only [List.cons_append, List.append_assoc, List.nil_append]

/-- What follows a value in a text can follow a number. -/
theorem endsNumeral_cons {c : Char} {cs : List Char}
    (h : c = ',' ∨ c = ':' ∨ c = ']' ∨ c = '\x7d' ∨ isBlank c = true) :
    EndsNumeral (c :: cs) := by
  intro d hd
  cases hd
  rcases h with rfl | rfl | rfl | rfl | hblank
  · decide
  · decide
  · decide
  · decide
  · rcases isBlank_iff.1 hblank with rfl | rfl | rfl | rfl <;> decide

/-- A number begins with no blank. -/
theorem isBlank_of_beginsNumber {c : Char} (h : c = '-' ∨ c.isDigit = true) :
    isBlank c = false := by
  rw [Bool.eq_false_iff]
  intro hblank
  rcases isBlank_iff.1 hblank with rfl | rfl | rfl | rfl <;> exact absurd h (by decide)

namespace Value

mutual

/-- The tokens that a value is written in. -/
def tokens : Value → List Token
  | atom a => [.atom a]
  | text s => [.text s]
  | missing _ => []
  | array elements _ => .mark .openArray :: elementTokens elements ++ [.mark .closeArray]
  | object members _ => .mark .openObject :: memberTokens members ++ [.mark .closeObject]

/-- The tokens of elements, with commas between them. -/
def elementTokens : List Value → List Token
  | [] => []
  | [v] => tokens v
  | v :: w :: vs => tokens v ++ .mark .comma :: elementTokens (w :: vs)

/-- The tokens of members, with commas between them. -/
def memberTokens : List (Except Flaw String × Value) → List Token
  | [] => []
  | [(name, v)] => .text name :: .mark .colon :: tokens v
  | (name, v) :: m :: ms =>
    .text name :: .mark .colon :: tokens v ++ .mark .comma :: memberTokens (m :: ms)

end

/-- In front of what may follow a number, the characters are cut into the tokens of the value. -/
def Lexes (v : Value) (cs : List Char) : Prop :=
  ∀ rest, EndsNumeral rest → Json.tokens (cs ++ rest) = v.tokens ++ Json.tokens rest

/-- A numeral is cut off as a number. -/
theorem lexes_number {n : Numeral} {cs : List Char} (h : n.Writes cs) :
    Lexes (.atom n.atom) cs := by
  intro rest hrest
  obtain ⟨c, cs', rfl, hbegins⟩ := h.exists_cons
  rw [List.cons_append, tokens_cons (isBlank_of_beginsNumber hbegins) (h.token hrest)]
  rfl

/-- A text is cut off with its quotes. -/
theorem lexes_text {pieces : List Piece} {cs : List Char} (h : Piece.WritesAll pieces cs) :
    Lexes (.text (Token.ofPieces pieces (.ok []))) ('"' :: cs ++ ['"']) := by
  intro rest _
  have hscan := Token.scan_quote h rest
  rw [List.append_assoc, List.cons_append]
  exact tokens_cons (by decide) hscan

/-- A member is cut into its tokens if its name and its value are. -/
theorem lexes_member {m : WrittenMember} (hname : Lexes (.text m.name) m.nameChars)
    (hvalue : Lexes m.value m.valueChars) {rest : List Char} (hrest : EndsNumeral rest) :
    Json.tokens (m.chars ++ rest) =
      .text m.name :: .mark .colon :: m.value.tokens ++ Json.tokens rest := by
  rw [WrittenMember.chars, List.append_assoc, List.cons_append,
    hname _ (endsNumeral_cons (.inr (.inl rfl))), tokens_mark _ rfl, hvalue rest hrest,
    tokens]
  rfl

/-- Elements with commas between them are cut into their tokens if each is. -/
theorem lexes_elements {parts : List (Value × List Char)} (h : ∀ p ∈ parts, Lexes p.1 p.2)
    {rest : List Char} (hrest : EndsNumeral rest) :
    Json.tokens (List.intercalate [','] (parts.map Prod.snd) ++ rest) =
      elementTokens (parts.map Prod.fst) ++ Json.tokens rest := by
  induction parts with
  | nil => rfl
  | cons p parts ih =>
    have hp := h p List.mem_cons_self
    cases parts with
    | nil =>
      rw [List.map_singleton, List.map_singleton, List.intercalate_singleton, elementTokens]
      exact hp rest hrest
    | cons q parts =>
      have hparts := ih fun u hu => h u (List.mem_cons_of_mem _ hu)
      simp only [List.map_cons] at hparts ⊢
      rw [List.intercalate_cons_cons, elementTokens]
      simp only [List.append_assoc, List.cons_append, List.nil_append]
      -- A comma follows the value, which is therefore cut off there even if it is a number.
      rw [hp _ (endsNumeral_cons (.inl rfl)), tokens_mark _ rfl, hparts]

/-- Members with commas between them are cut into their tokens if their names and values are. -/
theorem lexes_members {parts : List WrittenMember}
    (hnames : ∀ m ∈ parts, Lexes (.text m.name) m.nameChars)
    (hvalues : ∀ m ∈ parts, Lexes m.value m.valueChars) {rest : List Char}
    (hrest : EndsNumeral rest) :
    Json.tokens (List.intercalate [','] (parts.map WrittenMember.chars) ++ rest) =
      memberTokens (parts.map WrittenMember.member) ++ Json.tokens rest := by
  induction parts with
  | nil => rfl
  | cons m parts ih =>
    have hname := hnames m List.mem_cons_self
    have hvalue := hvalues m List.mem_cons_self
    cases parts with
    | nil =>
      rw [List.map_singleton, List.map_singleton, List.intercalate_singleton,
        lexes_member hname hvalue hrest, WrittenMember.member, memberTokens]
    | cons m' parts =>
      have hparts := ih (fun u hu => hnames u (List.mem_cons_of_mem _ hu))
        fun u hu => hvalues u (List.mem_cons_of_mem _ hu)
      simp only [List.map_cons] at hparts ⊢
      rw [List.intercalate_cons_cons, WrittenMember.member, memberTokens]
      simp only [List.append_assoc, List.cons_append, List.nil_append]
      rw [lexes_member hname hvalue (endsNumeral_cons (.inl rfl)), tokens_mark _ rfl,
        hparts]
      simp only [List.cons_append]

/-- However a value is written, its text is cut into the value's tokens. -/
theorem Writes.lexes {v : Value} {cs : List Char} (h : v.Writes cs) : Lexes v cs := by
  induction h with
  | null => exact fun rest _ => tokens_cons (by decide) rfl
  | boolean b => cases b <;> exact fun rest _ => tokens_cons (by decide) rfl
  | number h => exact lexes_number h
  | text h => exact lexes_text h
  | emptyArray h => exact fun rest _ => tokens_brackets (tokens_blanks h _) rfl rfl
  | array _ ih =>
    intro rest _
    exact tokens_brackets (lexes_elements ih (endsNumeral_cons (.inr (.inr (.inl rfl))))) rfl rfl
  | emptyObject h => exact fun rest _ => tokens_brackets (tokens_blanks h _) rfl rfl
  | object _ _ hnames hvalues =>
    intro rest _
    exact tokens_brackets
      (lexes_members hnames hvalues (endsNumeral_cons (.inr (.inr (.inr (.inl rfl)))))) rfl rfl
  | blankBefore hc _ ih =>
    intro rest hrest
    rw [List.cons_append, tokens_blank _ hc]
    exact ih rest hrest
  | blankAfter _ hc ih =>
    intro rest _
    rw [List.append_assoc, List.singleton_append,
      ih _ (endsNumeral_cons (.inr (.inr (.inr (.inr hc))))), tokens_blank _ hc]

end Value

end ShaderVariants.Json
