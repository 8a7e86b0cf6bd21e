import ShaderVariants.Json.Reader
import ShaderVariants.Proofs.Json.Lexing

/-!
# Parsing written values

The tokens of an intact value are put together to the value again, inside any open containers
(`Intact.builds`), so a text that a value is written in holds the value and nothing else
(`Document.ofText_of_writes`).
-/

namespace ShaderVariants.Json

open Document

variable {stack : List Frame} {ts : List Token}

namespace Token

/-- A token that a value may begin with. -/
def Opens : Token → Prop
  | mark .openArray => True
  | mark .openObject => True
  | mark _ => False
  | atom _ => True
  | text _ => True

/-- Where an element or the end of an array is due, a token of a value begins an element. -/
theorem Opens.build_element {t : Token} (h : t.Opens) :
    build .element stack (t :: ts) = build .value (.array [] :: stack) (t :: ts) := by
  rcases t with m | a | s
  · cases m <;> first | exact absurd h id | rfl
  · rfl
  · rfl

end Token

namespace Value

/-- Nothing in the value is missing or cut, though tokens may be flawed. -/
inductive Intact : Value → Prop where
  | atom (a : Except Flaw Atom) : Intact (.atom a)
  | text (s : Except Flaw String) : Intact (.text s)
  | array {elements : List Value} (h : ∀ v ∈ elements, Intact v) : Intact (.array elements none)
  | object {members : List (Except Flaw String × Value)} (h : ∀ m ∈ members, Intact m.2) :
      Intact (.object members .closed)

/-- A value that is written is intact. -/
theorem Writes.intact {v : Value} {cs : List Char} (h : v.Writes cs) : v.Intact := by
  induction h with
  | null => exact .atom _
  | boolean b => exact .atom _
  | number h => exact .atom _
  | text h => exact .text _
  | emptyArray h => exact .array (List.forall_mem_nil _)
  | array _ ih => exact .array (List.forall_mem_map.2 ih)
  | emptyObject h => exact .object (List.forall_mem_nil _)
  | object _ _ _ ih => exact .object (List.forall_mem_map.2 ih)
  | blankBefore _ _ ih => exact ih
  | blankAfter _ _ ih => exact ih

/-- Where a value is due, the tokens of `v` deliver it. -/
def Builds (v : Value) : Prop :=
  ∀ stack ts, build .value stack (v.tokens ++ ts) =
    build (deliver v stack).1 (deliver v stack).2 ts

/-- The tokens of an intact value begin with one that a value may begin with. -/
theorem Intact.exists_opens {v : Value} (h : Intact v) :
    ∃ t ts, v.tokens = t :: ts ∧ t.Opens := by
  cases h with
  | atom a => exact ⟨_, _, rfl, trivial⟩
  | text s => exact ⟨_, _, rfl, trivial⟩
  | array h => exact ⟨.mark .openArray, _, by rw [tokens]; rfl, trivial⟩
  | object h => exact ⟨.mark .openObject, _, by rw [tokens]; rfl, trivial⟩

/-- The elements of an array are put together after those before them, last first. -/
theorem build_elements {v : Value} {vs : List Value} (h : ∀ u ∈ v :: vs, Builds u)
    (before : List Value) :
    build .value (.array before :: stack)
        (elementTokens (v :: vs) ++ .mark .closeArray :: ts) =
      build (deliver (.array (before.reverse ++ v :: vs) none) stack).1
        (deliver (.array (before.reverse ++ v :: vs) none) stack).2 ts := by
  induction vs generalizing v before with
  | nil =>
    rw [elementTokens, h v List.mem_cons_self]
    show build (deliver (.array (v :: before).reverse none) stack).1 _ ts = _
    rw [List.reverse_cons]
    rfl
  | cons w vs ih =>
    rw [elementTokens, List.append_assoc, h v List.mem_cons_self]
    show build .value (.array (v :: before) :: stack)
      (elementTokens (w :: vs) ++ .mark .closeArray :: ts) = _
    rw [ih (fun u hu => h u (List.mem_cons_of_mem _ hu)), List.reverse_cons, List.append_assoc]
    rfl

/-- Where a first name or the end of an object is due, a member begins as any other. -/
theorem build_firstName {m : Except Flaw String × Value}
    {ms : List (Except Flaw String × Value)} :
    build .firstName stack (memberTokens (m :: ms) ++ ts) =
      build (.name []) stack (memberTokens (m :: ms) ++ ts) := by
  cases ms <;> rfl

/-- The members of an object are put together after those before them, last first. -/
theorem build_members {m : Except Flaw String × Value} {ms : List (Except Flaw String × Value)}
    (h : ∀ u ∈ m :: ms, Builds u.2) (before : List (Except Flaw String × Value)) :
    build (.name before) stack (memberTokens (m :: ms) ++ .mark .closeObject :: ts) =
      build (deliver (.object (before.reverse ++ m :: ms) .closed) stack).1
        (deliver (.object (before.reverse ++ m :: ms) .closed) stack).2 ts := by
  induction ms generalizing m before with
  | nil =>
    obtain ⟨name, v⟩ := m
    rw [memberTokens]
    show build .value (.object before name :: stack) (v.tokens ++ _) = _
    rw [h _ List.mem_cons_self]
    show build (deliver (.object ((name, v) :: before).reverse .closed) stack).1 _ ts = _
    rw [List.reverse_cons]
    rfl
  | cons m' ms ih =>
    obtain ⟨name, v⟩ := m
    rw [memberTokens, List.append_assoc]
    show build .value (.object before name :: stack) (v.tokens ++ _) = _
    rw [h _ List.mem_cons_self]
    show build (.name ((name, v) :: before)) stack
      (memberTokens (m' :: ms) ++ .mark .closeObject :: ts) = _
    rw [ih (fun u hu => h u (List.mem_cons_of_mem _ hu)), List.reverse_cons, List.append_assoc]
    rfl

/-- Where a value is due, the tokens of an intact value deliver it. -/
theorem Intact.builds {v : Value} (h : Intact v) : Builds v := by
  induction h with
  | atom a => exact fun _ _ => rfl
  | text s => exact fun _ _ => rfl
  | @array elements h ih =>
    intro stack ts
    rw [tokens, List.append_assoc]
    show build .element stack (elementTokens elements ++ .mark .closeArray :: ts) = _
    cases elements with
    | nil => rfl
    | cons v vs =>
      obtain ⟨t, ts', htokens, hopens⟩ := (h v List.mem_cons_self).exists_opens
      have hfirst : ∃ ts'', elementTokens (v :: vs) = t :: ts'' := by
        cases vs with
        | nil => exact ⟨ts', by rw [elementTokens, htokens]⟩
        | cons w vs => exact ⟨_, by rw [elementTokens, htokens, List.cons_append]⟩
      obtain ⟨ts'', hfirst⟩ := hfirst
      -- Where the array could also end, the first token shows that it does not.
      rw [hfirst, List.cons_append, hopens.build_element, ← List.cons_append, ← hfirst,
        build_elements ih []]
      rfl
  | @object members h ih =>
    intro stack ts
    rw [tokens, List.append_assoc]
    show build .firstName stack (memberTokens members ++ .mark .closeObject :: ts) = _
    cases members with
    | nil => rfl
    | cons m ms =>
      rw [build_firstName, build_members ih []]
      rfl

end Value

namespace Document

/-- A text that a value is written in holds the value and nothing else. -/
theorem ofText_of_writes {v : Value} {text : String} (h : v.Writes text.toList) :
    ofText text = ⟨v, false⟩ := by
  have htokens := h.lexes [] nofun
  rw [List.append_nil] at htokens
  rw [ofText, htokens, h.intact.builds]
  simp [tokens, deliver, build, finish]

/-- A text without characters breaks off before its value. -/
theorem ofText_empty : ofText "" = ⟨.missing .truncated, false⟩ := by
  rw [ofText, show "".toList = [] from rfl, tokens]
  rfl

/-- A reader of a text that a value is written in reads the value. -/
theorem read_of_writes {α : Type} (read : Reader α) {v : Value} {text : String}
    (h : v.Writes text.toList) : Document.read read text = read v := by
  unfold Document.read
  rw [ofText_of_writes h]
  dsimp only
  cases read v with
  | error e => rfl
  | ok a => rfl

end Document

end ShaderVariants.Json
