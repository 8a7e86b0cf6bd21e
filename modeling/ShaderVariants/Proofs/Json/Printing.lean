import ShaderVariants.Proofs.Json.Parsing

/-!
# Printing and parsing

A value is whole if nothing in it is flawed or missing and its numbers are 64-bit counts. The
printer writes a whole value (`Whole.writes`), so the text that it is printed as is read as the
value (`Document.read_print`).
-/

namespace ShaderVariants.Json

namespace Value

/-- Nothing in the value is flawed or missing, and its numbers are 64-bit counts. -/
inductive Whole : Value → Prop where
  | null : Whole (.atom (.ok .null))
  | boolean (b : Bool) : Whole (.atom (.ok (.boolean b)))
  | count {n : Nat} (h : n < Checked.limit64) : Whole (.atom (.ok (.number (.integer n))))
  | text (s : String) : Whole (.ofText s)
  | array {elements : List Value} (h : ∀ v ∈ elements, Whole v) : Whole (.ofElements elements)
  | object {members : List (String × Value)} (h : ∀ m ∈ members, Whole m.2) :
      Whole (.ofMembers members)

/-- A count is written in its digits. -/
theorem writes_count {n : Nat} (h : n < Checked.limit64) :
    Writes (.atom (.ok (.number (.integer n)))) (Number.integer n).print := by
  have hprint : (Number.integer n).print = Nat.toDigits 10 n := Nat.toList_repr
  have hatom : (⟨false, Nat.toDigits 10 n, none, none⟩ : Numeral).atom =
      .ok (.number (.integer n)) := by
    rw [Numeral.atom, Numeral.value_toDigits h]
  rw [hprint, ← hatom]
  exact .number (Numeral.writes_toDigits n)

/-- A text is written between quotes. -/
theorem writes_printText (s : String) : Writes (.ofText s) (printText s) := by
  rw [ofText, ← Token.ofPieces_map_ofChar s []]
  exact .text (Piece.writesAll_escape s.toList)

/-- Elements are printed with commas between them. -/
theorem printElements_eq (vs : List Value) :
    printElements vs = List.intercalate [','] (vs.map print) := by
  induction vs with
  | nil => rfl
  | cons v vs ih =>
    cases vs with
    | nil => rw [List.map_singleton, List.intercalate_singleton, printElements]
    | cons w vs =>
      rw [List.map_cons] at ih
      rw [printElements, ih, List.map_cons, List.map_cons, List.intercalate_cons_cons,
        List.append_assoc]
      rfl

/-- Members are printed with commas between them. -/
theorem printMembers_eq (ms : List (Except Flaw String × Value)) :
    printMembers ms = List.intercalate [','] (ms.map fun m => printName m.1 ++ print m.2) := by
  induction ms with
  | nil => rfl
  | cons m ms ih =>
    obtain ⟨name, v⟩ := m
    cases ms with
    | nil => rw [List.map_singleton, List.intercalate_singleton, printMembers]
    | cons m' ms =>
      rw [List.map_cons] at ih
      rw [printMembers, ih, List.map_cons, List.map_cons, List.intercalate_cons_cons]
      simp only [List.append_assoc, List.cons_append, List.nil_append]

/-- A member as it is printed. -/
def printed (m : String × Value) : WrittenMember :=
  ⟨.ok m.1, m.2, printText m.1, m.2.print⟩

/-- A whole value is written as it is printed. -/
theorem Whole.writes {v : Value} (h : Whole v) : v.Writes v.print := by
  induction h with
  | null => exact .null
  | boolean b => cases b <;> exact .boolean _
  | count h => exact writes_count h
  | text s => exact writes_printText s
  | @array elements _ ih =>
    have hwrites := @Writes.array (elements.map fun v => (v, v.print))
      (List.forall_mem_map.2 ih)
    simpa [ofElements, print, printElements_eq, Function.comp_def] using hwrites
  | @object members _ ih =>
    have hnames : ∀ m ∈ members.map printed, Writes (.text m.name) m.nameChars :=
      List.forall_mem_map.2 fun m _ => writes_printText m.1
    have hwrites := Writes.object hnames (List.forall_mem_map.2 ih)
    simpa [ofMembers, print, printMembers_eq, printName, printed, WrittenMember.member,
      WrittenMember.chars, Function.comp_def] using hwrites

end Value

/-- A reader of the text of a whole value reads the value. -/
theorem Document.read_print {α : Type} (read : Reader α) {v : Value} (h : v.Whole) :
    Document.read read (String.ofList v.print) = read v :=
  read_of_writes read (by rw [String.toList_ofList]; exact h.writes)

end ShaderVariants.Json
