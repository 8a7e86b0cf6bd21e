import Mathlib.Data.List.Basic
import ShaderVariants.Layout

/-!
# The names of a variant's files

The name of a file tells the key and the extension that it was made of (`artifactName_inj`), since
the values before the extension are digits and points, and the extension begins with a letter. Such
a name is one segment of a path. A key is also told by what its file names begin with (`stem_inj`)
and by its text for people (`text_inj`).
-/

namespace ShaderVariants.VariantKey

/-- What the values of a key are written in. -/
def isStem (c : Char) : Bool :=
  c.isDigit || c == '.'

/-- A text that can follow the values of a key: it begins with no digit and no point. -/
def Extends (e : List Char) : Prop :=
  ∀ c ∈ e.head?, isStem c = false

/-- Two lists of characters of one kind, each followed by another kind, are told apart from what
follows them. -/
theorem append_inj_of_kind {kind : Char → Bool} {x y u v : List Char} (hx : ∀ c ∈ x, kind c = true)
    (hy : ∀ c ∈ y, kind c = true) (hu : ∀ c ∈ u.head?, kind c = false)
    (hv : ∀ c ∈ v.head?, kind c = false) (h : x ++ u = y ++ v) : x = y ∧ u = v := by
  have takeWhile_eq_nil {w : List Char} (hw : ∀ c ∈ w.head?, kind c = false) :
      w.takeWhile kind = [] := by
    cases w with
    | nil => rfl
    | cons c w => rw [List.takeWhile_cons, hw c rfl, if_neg (by decide)]
  -- Either first part is the longest beginning of that kind.
  have hxy : x = y := by
    have htake := congrArg (List.takeWhile kind) h
    rwa [List.takeWhile_append_of_pos hx, List.takeWhile_append_of_pos hy, takeWhile_eq_nil hu,
      takeWhile_eq_nil hv, List.append_nil, List.append_nil] at htake
  subst hxy
  exact ⟨rfl, List.append_cancel_left h⟩

/-- The digits of a value. -/
theorem toList_digits (value : UInt32) : (digits value).toList = Nat.toDigits 10 value.toNat := by
  rw [digits, Nat.toString_eq_ofList_toDigits, String.toList_ofList]

/-- Digits are digits. -/
theorem isDigit_of_mem_digits {value : UInt32} {c : Char} (h : c ∈ (digits value).toList) :
    c.isDigit = true := by
  rw [toList_digits] at h
  exact Nat.isDigit_of_mem_toDigits (by decide) (by decide) h

/-- A value has digits of its own. -/
theorem digits_inj {value value' : UInt32} (h : (digits value).toList = (digits value').toList) :
    value = value' := by
  rw [toList_digits, toList_digits] at h
  have hnat := congrArg (Nat.ofDigitChars 10 · 0) h
  simp only [Nat.ofDigitChars_ten_toDigits] at hnat
  exact UInt32.toNat_inj.1 hnat

/-- The characters that the file names of a list of values begin with. -/
def stemChars (values : List UInt32) : List Char :=
  values.flatMap fun value => (digits value).toList ++ ['.']

/-- The characters that the names of a variant's files begin with. -/
theorem toList_stem (key : VariantKey) : key.stem.toList = stemChars key.values := by
  rw [stem, String.toList_join, stemChars, List.flatMap_map]
  simp only [String.toList_append]
  rfl

/-- The values of a key are written in digits and points. -/
theorem isStem_of_mem_stemChars {values : List UInt32} {c : Char} (h : c ∈ stemChars values) :
    isStem c = true := by
  obtain ⟨value, -, hc⟩ := List.mem_flatMap.1 h
  rcases List.mem_append.1 hc with hc | hc
  · rw [isStem, isDigit_of_mem_digits hc, Bool.true_or]
  · rw [List.mem_singleton.1 hc]
    decide

/-- Lists of values are written each in its own way. -/
theorem stemChars_inj {values values' : List UInt32} (h : stemChars values = stemChars values') :
    values = values' := by
  induction values generalizing values' with
  | nil =>
    cases values' with
    | nil => rfl
    | cons value' values' => simp [stemChars] at h
  | cons value values ih =>
    cases values' with
    | nil => simp [stemChars] at h
    | cons value' values' =>
      simp only [stemChars, List.flatMap_cons, List.append_assoc, List.singleton_append] at h
      -- The first point ends the first value.
      obtain ⟨hdigits, hrest⟩ := @append_inj_of_kind Char.isDigit _ _ _ _
        (fun c hc => isDigit_of_mem_digits hc) (fun c hc => isDigit_of_mem_digits hc)
        (by simp) (by simp) h
      rw [digits_inj hdigits, ih (List.cons.inj hrest).2]

/-- The characters of a file name. -/
theorem toList_artifactName (key : VariantKey) (e : String) :
    (key.artifactName e).toList = stemChars key.values ++ e.toList := by
  rw [artifactName, String.toList_append, toList_stem]

/-- A file name tells its key and its extension. -/
theorem artifactName_inj {key key' : VariantKey} {e e' : String} (he : Extends e.toList)
    (he' : Extends e'.toList) (h : key.artifactName e = key'.artifactName e') :
    key = key' ∧ e = e' := by
  have hlist := congrArg String.toList h
  rw [toList_artifactName, toList_artifactName] at hlist
  obtain ⟨hstem, hext⟩ := @append_inj_of_kind isStem _ _ _ _
    (fun c hc => isStem_of_mem_stemChars hc) (fun c hc => isStem_of_mem_stemChars hc) he he' hlist
  obtain ⟨values⟩ := key
  obtain ⟨values'⟩ := key'
  rw [show values = values' from stemChars_inj hstem]
  exact ⟨rfl, String.toList_inj.1 hext⟩

/-- What the file names of a variant begin with tells its key. -/
theorem stem_inj {key key' : VariantKey} (h : key.stem = key'.stem) : key = key' := by
  have hlist := congrArg String.toList h
  rw [toList_stem, toList_stem] at hlist
  obtain ⟨values⟩ := key
  obtain ⟨values'⟩ := key'
  rw [show values = values' from stemChars_inj hlist]

/-- A value is written with a digit at least. -/
theorem digits_ne_empty (value : UInt32) : digits value ≠ "" := by
  intro h
  have hlist := congrArg String.toList h
  rw [toList_digits] at hlist
  exact Nat.toDigits_ne_nil hlist

/-- Cut at its points, the text of a key gives the digits of its values; the text of a key without
values is one empty piece. -/
theorem split_text (key : VariantKey) :
    (key.text.split '.').toList.map (·.copy) =
      if key.values.map digits = [] then [""] else key.values.map digits := by
  have hpoint : ∀ s ∈ key.values.map digits, '.' ∉ s.toList := by
    intro s hs hmem
    obtain ⟨value, -, rfl⟩ := List.mem_map.1 hs
    exact absurd (isDigit_of_mem_digits hmem) (by decide)
  exact String.toList_split_intercalate hpoint

/-- What the file names of a variant begin with, value after value. -/
theorem stem_cons (value : UInt32) (values : List UInt32) :
    stem ⟨value :: values⟩ = digits value ++ "." ++ stem ⟨values⟩ := by
  refine String.toList_inj.1 ?_
  rw [toList_stem, String.toList_append, toList_stem, String.toList_append]
  rfl

/-- The file names of a key with values begin with its text and a point. -/
theorem stem_eq_text {key : VariantKey} (h : key.values ≠ []) : key.stem = key.text ++ "." := by
  obtain ⟨values⟩ := key
  induction values with
  | nil => exact absurd rfl h
  | cons value values ih =>
    rw [stem_cons]
    cases values with
    | nil =>
      -- No point separates a single value from others, and one follows it.
      rw [text, List.map_singleton, String.intercalate_singleton]
      exact String.append_empty
    | cons next values =>
      rw [ih (List.cons_ne_nil _ _), text, text]
      simp only [List.map_cons, String.intercalate_cons_cons, String.append_assoc]

/-- The text of a key tells the key. -/
theorem text_inj {key key' : VariantKey} (h : key.text = key'.text) : key = key' := by
  obtain ⟨values⟩ := key
  obtain ⟨values'⟩ := key'
  have hpieces := split_text ⟨values'⟩
  rw [← h, split_text ⟨values⟩] at hpieces
  -- No value is written as nothing, so the key without values is told from all others.
  have hempty (vs : List UInt32) : [""] ≠ vs.map digits := by
    intro heq
    obtain ⟨value, -, hvalue⟩ := List.mem_map.1 (heq ▸ List.mem_singleton_self "")
    exact digits_ne_empty value hvalue
  have hdigits : values.map digits = values'.map digits := by
    split at hpieces <;> split at hpieces
    · rename_i hnil hnil'
      rw [hnil, hnil']
    · exact absurd hpieces (hempty values')
    · exact absurd hpieces.symm (hempty values)
    · exact hpieces
  have hinj : Function.Injective digits := fun value value' heq => digits_inj (congrArg _ heq)
  rw [hinj.list_map hdigits]

end ShaderVariants.VariantKey
