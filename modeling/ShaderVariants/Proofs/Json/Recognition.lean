import ShaderVariants.Proofs.Json.Records
import ShaderVariants.Proofs.Json.Scanning

/-!
# Recognizing written values

Where the tokens of a value stand that can be passed over (`Value.Passable`), characters stand that
write the value (`Value.Passable.recognized`), and a document is built from just the tokens of its
value (`Document.Consumed.tokens_of_build`). So a text that holds a passable value and nothing else
writes the value (`Document.writes_of_passable`).
-/

namespace ShaderVariants.Json

open Sequence

/-! ## Values -/

namespace Value

variable {v : Value} {cs blanks : List Char} {ts : List Token}

/-- Blanks may stand before a value. -/
theorem Writes.blanksBefore (h : v.Writes cs) (hblanks : ∀ c ∈ blanks, isBlank c = true) :
    v.Writes (blanks ++ cs) := by
  induction blanks with
  | nil => exact h
  | cons c blanks ih =>
    rw [List.forall_mem_cons] at hblanks
    exact .blankBefore hblanks.1 (ih hblanks.2)

/-- Blanks may stand after a value. -/
theorem Writes.blanksAfter (h : v.Writes cs) (hblanks : ∀ c ∈ blanks, isBlank c = true) :
    v.Writes (cs ++ blanks) := by
  induction blanks generalizing cs with
  | nil => rwa [List.append_nil]
  | cons c blanks ih =>
    rw [List.forall_mem_cons] at hblanks
    rw [← List.singleton_append, ← List.append_assoc]
    exact ih (.blankAfter h hblanks.1) hblanks.2

/-- A text that begins with the tokens of the value begins with characters that write it. -/
def Recognized (v : Value) : Prop :=
  ∀ cs ts, Json.tokens cs = v.tokens ++ ts →
    ∃ w rest, cs = w ++ rest ∧ v.Writes w ∧ Json.tokens rest = ts

/-- A value of one token is written where its token is. -/
theorem recognized_of_token {t : Token} (htokens : v.tokens = [t]) (hpass : t.Passable)
    (hwrites : ∀ {w}, t.Writes w → v.Writes w) : Recognized v := by
  intro cs ts h
  rw [htokens] at h
  obtain ⟨blanks, w, rest, rfl, hblanks, hw, hrest⟩ := tokens_eq_cons h hpass
  exact ⟨blanks ++ w, rest, (List.append_assoc ..).symm, (hwrites hw).blanksBefore hblanks, hrest⟩

/-- A value in front of a mark is written with the blanks between them. -/
theorem Recognized.exists_writes (hv : Recognized v) {m : Mark}
    (h : Json.tokens cs = v.tokens ++ .mark m :: ts) :
    ∃ w rest, cs = w ++ m.char :: rest ∧ v.Writes w ∧ Json.tokens rest = ts := by
  obtain ⟨w, rest, rfl, hw, hrest⟩ := hv cs _ h
  obtain ⟨blanks, rest', rfl, hblanks, hmark⟩ := tokens_eq_mark hrest
  exact ⟨w ++ blanks, rest', (List.append_assoc ..).symm, hw.blanksAfter hblanks, hmark⟩

/-- A member in front of a mark is written with the blanks around its parts. -/
theorem Recognized.exists_writes_member {name : Except Flaw String}
    (hname : Passed.token name = .ok ()) (hv : Recognized v) {m : Mark}
    (h : Json.tokens cs = .text name :: .mark .colon :: v.tokens ++ .mark m :: ts) :
    ∃ (part : WrittenMember) (rest : List Char), part.member = (name, v) ∧
      (Writes (.text part.name) part.nameChars ∧ part.value.Writes part.valueChars) ∧
      cs = part.chars ++ m.char :: rest ∧ Json.tokens rest = ts := by
  obtain ⟨blanks, w, rest, rfl, hblanks, hw, hrest⟩ := tokens_eq_cons h hname
  obtain ⟨blanks', rest', rfl, hblanks', hcolon⟩ := tokens_eq_mark hrest
  obtain ⟨u, rest'', rfl, hu, hmark⟩ := hv.exists_writes hcolon
  have hnameChars : Writes (.text name) (blanks ++ w ++ blanks') :=
    (Writes.blanksBefore hw hblanks).blanksAfter hblanks'
  refine ⟨⟨name, v, _, u⟩, rest'', rfl, ⟨hnameChars, hu⟩, ?_, hmark⟩
  simp only [WrittenMember.chars, List.append_assoc, List.cons_append]
  rfl

/-- The tokens of elements up to the closing bracket are written as elements with commas between
them. -/
theorem exists_writes_elements {vs : List Value} (h : ∀ u ∈ v :: vs, Recognized u)
    (htokens : Json.tokens cs = elementTokens (v :: vs) ++ .mark .closeArray :: ts) :
    ∃ (parts : List (Value × List Char)) (rest : List Char), parts.map Prod.fst = v :: vs ∧
      (∀ p ∈ parts, p.1.Writes p.2) ∧
      cs = List.intercalate [','] (parts.map Prod.snd) ++ ']' :: rest ∧ Json.tokens rest = ts := by
  rw [List.forall_mem_cons] at h
  induction vs generalizing v cs with
  | nil =>
    obtain ⟨w, rest, rfl, hw, hclose⟩ := h.1.exists_writes htokens
    refine ⟨[(v, w)], rest, rfl, List.forall_mem_singleton.2 hw, ?_, hclose⟩
    rw [List.map_singleton, List.intercalate_singleton]
    rfl
  | cons u vs ih =>
    rw [elementTokens, List.append_assoc] at htokens
    obtain ⟨w, rest, rfl, hw, hcomma⟩ := h.1.exists_writes htokens
    obtain ⟨parts, rest', hparts, hwrites, rfl, hclose⟩ := ih (List.forall_mem_cons.1 h.2) hcomma
    refine ⟨(v, w) :: parts, rest', congrArg (v :: ·) hparts,
      List.forall_mem_cons.2 ⟨hw, hwrites⟩, ?_, hclose⟩
    obtain ⟨q, parts, rfl, -, -⟩ := List.map_eq_cons_iff.1 hparts
    simp only [List.map_cons, List.intercalate_cons_cons, List.append_assoc, List.singleton_append]
    rfl

/-- The tokens of members up to the closing bracket are written as members with commas between
them. -/
theorem exists_writes_members {m : Except Flaw String × Value}
    {ms : List (Except Flaw String × Value)}
    (h : ∀ u ∈ m :: ms, Passed.token u.1 = .ok () ∧ Recognized u.2)
    (htokens : Json.tokens cs = memberTokens (m :: ms) ++ .mark .closeObject :: ts) :
    ∃ (parts : List WrittenMember) (rest : List Char),
      parts.map WrittenMember.member = m :: ms ∧
      (∀ p ∈ parts, Writes (.text p.name) p.nameChars ∧ p.value.Writes p.valueChars) ∧
      cs = List.intercalate [','] (parts.map WrittenMember.chars) ++ '\x7d' :: rest ∧
      Json.tokens rest = ts := by
  rw [List.forall_mem_cons] at h
  induction ms generalizing m cs with
  | nil =>
    obtain ⟨name, v⟩ := m
    rw [memberTokens] at htokens
    obtain ⟨part, rest, hpart, hwrites, rfl, hclose⟩ := h.1.2.exists_writes_member h.1.1 htokens
    refine ⟨[part], rest, congrArg ([·]) hpart, List.forall_mem_singleton.2 hwrites, ?_, hclose⟩
    rw [List.map_singleton, List.intercalate_singleton]
    rfl
  | cons m' ms ih =>
    obtain ⟨name, v⟩ := m
    rw [memberTokens, List.append_assoc] at htokens
    obtain ⟨part, rest, hpart, hwrites, rfl, hcomma⟩ := h.1.2.exists_writes_member h.1.1 htokens
    obtain ⟨parts, rest', hparts, hall, rfl, hclose⟩ := ih (List.forall_mem_cons.1 h.2) hcomma
    refine ⟨part :: parts, rest', ?_, List.forall_mem_cons.2 ⟨hwrites, hall⟩, ?_, hclose⟩
    · rw [List.map_cons, hpart, hparts]
    · obtain ⟨q, parts, rfl, -, -⟩ := List.map_eq_cons_iff.1 hparts
      simp only [List.map_cons, List.intercalate_cons_cons, List.append_assoc,
        List.singleton_append]
      rfl

/-- A passable value is written where its tokens are. -/
theorem Passable.recognized (h : v.Passable) : Recognized v := by
  induction h with
  | @atom a h => exact @recognized_of_token _ (.atom a) (by rw [tokens]) h id
  | @text s h => exact @recognized_of_token _ (.text s) (by rw [tokens]) h id
  | @array elements _ ih =>
    intro cs ts h
    rw [tokens, List.append_assoc, List.singleton_append] at h
    obtain ⟨blanks, rest, rfl, hblanks, hopen⟩ := tokens_eq_mark h
    cases elements with
    | nil =>
      obtain ⟨blanks', rest', rfl, hblanks', hclose⟩ := tokens_eq_mark hopen
      refine ⟨blanks ++ ('[' :: blanks' ++ [']']), rest', ?_,
        (Writes.emptyArray hblanks').blanksBefore hblanks, hclose⟩
      simp [Mark.char]
    | cons v vs =>
      obtain ⟨parts, rest', hparts, hwrites, rfl, hclose⟩ := exists_writes_elements ih hopen
      rw [← hparts]
      refine ⟨_, rest', ?_, (Writes.array hwrites).blanksBefore hblanks, hclose⟩
      simp [Mark.char]
  | @object members hnames _ ih =>
    intro cs ts h
    rw [tokens, List.append_assoc, List.singleton_append] at h
    obtain ⟨blanks, rest, rfl, hblanks, hopen⟩ := tokens_eq_mark h
    cases members with
    | nil =>
      obtain ⟨blanks', rest', rfl, hblanks', hclose⟩ := tokens_eq_mark hopen
      refine ⟨blanks ++ ('\x7b' :: blanks' ++ ['\x7d']), rest', ?_,
        (Writes.emptyObject hblanks').blanksBefore hblanks, hclose⟩
      simp [Mark.char]
    | cons m ms =>
      obtain ⟨parts, rest', hparts, hwrites, rfl, hclose⟩ :=
        exists_writes_members (fun m hm => ⟨hnames m hm, ih m hm⟩) hopen
      rw [← hparts]
      refine ⟨_, rest', ?_, (Writes.object (fun p hp => (hwrites p hp).1)
        fun p hp => (hwrites p hp).2).blanksBefore hblanks, hclose⟩
      simp [Mark.char]

end Value

/-! ## Documents -/

/-- The tokens of elements, each with the comma after it. -/
def elementsThen (vs : List Value) : List Token :=
  vs.flatMap fun v => v.tokens ++ [.mark .comma]

/-- The tokens of members, each with the comma after it. -/
def membersThen (ms : List (Except Flaw String × Value)) : List Token :=
  ms.flatMap fun m => .text m.1 :: .mark .colon :: m.2.tokens ++ [.mark .comma]

/-- An element is followed by a comma if there is another one. -/
theorem elementTokens_cons (v : Value) {vs : List Value} (h : vs ≠ []) :
    Value.elementTokens (v :: vs) = v.tokens ++ .mark .comma :: Value.elementTokens vs := by
  obtain ⟨w, ws, rfl⟩ := List.exists_cons_of_ne_nil h
  rw [Value.elementTokens]

/-- A member is followed by a comma if there is another one. -/
theorem memberTokens_cons (m : Except Flaw String × Value)
    {ms : List (Except Flaw String × Value)} (h : ms ≠ []) :
    Value.memberTokens (m :: ms) =
      .text m.1 :: .mark .colon :: m.2.tokens ++ .mark .comma :: Value.memberTokens ms := by
  obtain ⟨n, ns, rfl⟩ := List.exists_cons_of_ne_nil h
  rw [Value.memberTokens]

/-- An element comes after the commas of those before it. -/
theorem elementTokens_concat (vs : List Value) (v : Value) :
    Value.elementTokens (vs ++ [v]) = elementsThen vs ++ v.tokens := by
  induction vs with
  | nil => rfl
  | cons u vs ih =>
    rw [List.cons_append, elementTokens_cons u (by simp), ih]
    simp [elementsThen]

/-- A member comes after the commas of those before it. -/
theorem memberTokens_concat (ms : List (Except Flaw String × Value))
    (m : Except Flaw String × Value) :
    Value.memberTokens (ms ++ [m]) =
      membersThen ms ++ .text m.1 :: .mark .colon :: m.2.tokens := by
  induction ms with
  | nil => rfl
  | cons n ms ih =>
    rw [List.cons_append, memberTokens_cons n (by simp), ih]
    simp [membersThen]

/-- Elements with a comma after each are the elements and one more comma. -/
theorem elementsThen_eq {vs : List Value} (h : vs ≠ []) :
    elementsThen vs = Value.elementTokens vs ++ [.mark .comma] := by
  obtain ⟨us, v, rfl⟩ := (List.eq_nil_or_concat' vs).resolve_left h
  rw [elementTokens_concat]
  simp [elementsThen]

/-- Members with a comma after each are the members and one more comma. -/
theorem membersThen_eq {ms : List (Except Flaw String × Value)} (h : ms ≠ []) :
    membersThen ms = Value.memberTokens ms ++ [.mark .comma] := by
  obtain ⟨ns, m, rfl⟩ := (List.eq_nil_or_concat' ms).resolve_left h
  rw [memberTokens_concat]
  simp [membersThen]

/-- The tokens of an open container up to the value that is due in it. -/
def Frame.tokens : Frame → List Token
  | array before => .mark .openArray :: elementsThen before.reverse
  | object before name =>
    .mark .openObject :: membersThen before.reverse ++ [.text name, .mark .colon]

/-- The tokens of the innermost container up to what is due. -/
def Awaiting.tokens : Awaiting → List Token
  | value => []
  | element => [.mark .openArray]
  | afterElement elements => .mark .openArray :: Value.elementTokens elements.reverse
  | firstName => [.mark .openObject]
  | name members => .mark .openObject :: membersThen members.reverse
  | colon members n => .mark .openObject :: membersThen members.reverse ++ [.text n]
  | afterMember members => .mark .openObject :: Value.memberTokens members.reverse
  | nothing v => v.tokens

namespace Document

/-- After an element or a member there is one, and a complete value is in no container. -/
def Proper : Awaiting → List Frame → Prop
  | .afterElement elements, _ => elements ≠ []
  | .afterMember members, _ => members ≠ []
  | .nothing _, stack => stack = []
  | _, _ => True

/-- The tokens of open containers, the outermost first. -/
def openTokens (stack : List Frame) : List Token :=
  stack.reverse.flatMap Frame.tokens

/-- What is due inside the open containers is due after these tokens. -/
structure Consumed (due : Awaiting) (stack : List Frame) (ts : List Token) : Prop where
  proper : Proper due stack
  tokens : openTokens stack ++ due.tokens = ts

variable {due due' : Awaiting} {stack stack' : List Frame} {t : Token} {ts : List Token} {v : Value}

/-- The tokens of one more open container come last. -/
theorem openTokens_cons (frame : Frame) (stack : List Frame) :
    openTokens (frame :: stack) = openTokens stack ++ frame.tokens := by
  simp [openTokens]

/-- A value that is delivered comes with its tokens. -/
theorem consumed_deliver (v : Value) (stack : List Frame) :
    Consumed (deliver v stack).1 (deliver v stack).2 (openTokens stack ++ v.tokens) := by
  cases stack with
  | nil => exact ⟨rfl, rfl⟩
  | cons frame stack =>
    rw [openTokens_cons]
    cases frame with
    | array before =>
      refine ⟨List.cons_ne_nil _ _, ?_⟩
      simp [deliver, Awaiting.tokens, Frame.tokens, elementTokens_concat]
    | object before name =>
      refine ⟨List.cons_ne_nil _ _, ?_⟩
      simp [deliver, Awaiting.tokens, Frame.tokens, memberTokens_concat]

/-- What is due after a value is due after its tokens. -/
theorem consumed_of_deliver {ε : Type}
    (h : (Except.ok (deliver v stack) : Except ε _) = .ok (due, stack')) :
    Consumed due stack' (openTokens stack ++ v.tokens) := by
  have hdeliver := consumed_deliver v stack
  rwa [Except.ok.inj h] at hdeliver

/-- A token where a value is due comes after the open containers. -/
theorem consumed_begin (h : begin t stack = .ok (due, stack')) :
    Consumed due stack' (openTokens stack ++ [t]) := by
  unfold begin at h
  split at h
  · simpa only [Value.tokens] using consumed_of_deliver h
  · simpa only [Value.tokens] using consumed_of_deliver h
  · cases h
    exact ⟨trivial, rfl⟩
  · cases h
    exact ⟨trivial, rfl⟩
  · cases h

/-- One token further, one token more was consumed. -/
theorem Consumed.advance (hc : Consumed due stack ts)
    (h : advance due stack t = .ok (due', stack')) : Consumed due' stack' (ts ++ [t]) := by
  obtain ⟨hproper, rfl⟩ := hc
  unfold Document.advance at h
  split at h
  -- a value, the first element or the end of an empty array
  · simpa [Awaiting.tokens] using consumed_begin h
  · simpa [Awaiting.tokens, Value.tokens, Value.elementTokens] using consumed_of_deliver h
  · have hbegin := consumed_begin (mapError_eq_ok_iff.1 h)
    simpa [openTokens_cons, Awaiting.tokens, Frame.tokens, elementsThen] using hbegin
  -- after an element
  · rename_i elements
    cases h
    have hne : elements.reverse ≠ [] := List.reverse_ne_nil_iff.2 hproper
    refine ⟨trivial, ?_⟩
    simp [openTokens_cons, Frame.tokens, Awaiting.tokens, elementsThen_eq hne]
  · simpa [Awaiting.tokens, Value.tokens] using consumed_of_deliver h
  · cases h
  -- the first member or the end of an empty object
  · simpa [Awaiting.tokens, Value.tokens, Value.memberTokens] using consumed_of_deliver h
  · cases h
    exact ⟨trivial, by simp [Awaiting.tokens, membersThen]⟩
  · cases h
  -- a name, and the colon after it
  · cases h
    exact ⟨trivial, by simp [Awaiting.tokens]⟩
  · cases h
  · cases h
    exact ⟨trivial, by simp [openTokens_cons, Frame.tokens, Awaiting.tokens]⟩
  · cases h
  -- after a member
  · rename_i members
    cases h
    have hne : members.reverse ≠ [] := List.reverse_ne_nil_iff.2 hproper
    refine ⟨trivial, ?_⟩
    simp [Awaiting.tokens, membersThen_eq hne]
  · simpa [Awaiting.tokens, Value.tokens] using consumed_of_deliver h
  · cases h
  · cases h

/-- What is broken at a value that cannot be passed over cannot be passed over. -/
theorem passable_of_broken (h : (broken v stack).value.Passable) : v.Passable := by
  induction stack generalizing v with
  | nil => exact h
  | cons frame stack ih =>
    have hcut : (frame.cut v).Passable := ih h
    cases frame with
    | array before =>
      cases hcut with
      | array hall => exact hall v (by simp)
    | object before name =>
      cases hcut with
      | object _ hall => exact hall (name, v) (by simp)

/-- A member without its value cannot be passed over. -/
theorem not_passable_of_colon {name : Except Flaw String} {f : Fault}
    {members : List (Except Flaw String × Value)} :
    ¬(Value.object ((name, .missing f) :: members).reverse .closed).Passable := by
  intro hpass
  cases hpass with
  | object _ hall => cases hall (name, .missing f) (by simp)

/-- Where a token cannot begin a value, the value is missing. -/
theorem eq_missing_of_begin (h : begin t stack = .error v) : v = .missing .malformed := by
  unfold begin at h
  split at h <;> cases h
  rfl

/-- A token that cannot stand where it does leaves a value that cannot be passed over. -/
theorem not_passable_of_advance (hdue : ∀ v, due ≠ .nothing v)
    (h : advance due stack t = .error v) : ¬v.Passable := by
  intro hpass
  unfold Document.advance at h
  split at h
  -- a value, the first element or the end of an empty array
  · rw [eq_missing_of_begin h] at hpass
    cases hpass
  · cases h
  · obtain ⟨u, hu, rfl⟩ := mapError_eq_error_iff.1 h
    rw [eq_missing_of_begin hu] at hpass
    cases hpass with
    | array hall => cases hall _ List.mem_cons_self
  -- after an element
  · cases h
  · cases h
  · cases h
    cases hpass
  -- the first member or the end of an empty object
  · cases h
  · cases h
  · cases h
    cases hpass
  -- a name, and the colon after it
  · cases h
  · cases h
    cases hpass
  · cases h
  · cases h
    exact not_passable_of_colon hpass
  -- after a member
  · cases h
  · cases h
  · cases h
    cases hpass
  · exact hdue _ rfl

/-- A text that ends where something is due leaves a value that cannot be passed over. -/
theorem eq_of_finish (h : finish due stack = ⟨v, false⟩) (hpass : v.Passable) :
    due = .nothing v := by
  have hbroken : ∀ u, broken u stack = ⟨v, false⟩ → u.Passable := fun u hu =>
    passable_of_broken (by rwa [hu])
  cases due with
  | value => cases hbroken _ h
  | element => cases hbroken _ h
  | afterElement elements => cases hbroken _ h
  | firstName => cases hbroken _ h
  | name members => cases hbroken _ h
  | colon members name => exact absurd (hbroken _ h) not_passable_of_colon
  | afterMember members => cases hbroken _ h
  | nothing u =>
    cases h
    rfl

/-- A passable value of a document has the tokens from which the document was built. -/
theorem Consumed.tokens_of_build {before : List Token} (hc : Consumed due stack before)
    (h : build due stack ts = ⟨v, false⟩) (hpass : v.Passable) : v.tokens = before ++ ts := by
  induction ts generalizing due stack before with
  | nil =>
    rw [build] at h
    obtain rfl := eq_of_finish h hpass
    have hstack : stack = [] := hc.proper
    rw [List.append_nil, ← hc.tokens, hstack]
    rfl
  | cons t ts ih =>
    unfold build at h
    split at h
    · cases h
    · rename_i hdue
      split at h
      · rename_i hadvance
        rw [ih (hc.advance hadvance) h, List.append_assoc]
        rfl
      · rename_i u hadvance
        have hu : (broken u stack).value.Passable := by rwa [h]
        exact absurd (passable_of_broken hu) (not_passable_of_advance hdue hadvance)

/-- A text that holds a passable value and nothing else writes the value. -/
theorem writes_of_passable {text : String} (h : ofText text = ⟨v, false⟩) (hpass : v.Passable) :
    v.Writes text.toList := by
  have hstart : Consumed .value [] [] := ⟨trivial, rfl⟩
  have htokens : tokens text.toList = v.tokens ++ [] := by
    rw [List.append_nil, hstart.tokens_of_build h hpass, List.nil_append]
  obtain ⟨w, rest, htext, hw, hrest⟩ := hpass.recognized _ _ htokens
  rw [htext]
  exact hw.blanksAfter (isBlank_of_tokens hrest)

end Document

end ShaderVariants.Json
