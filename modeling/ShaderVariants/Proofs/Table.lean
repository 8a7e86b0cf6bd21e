import Mathlib.Data.List.Forall2
import ShaderVariants.Table

/-!
# Looking up keys

What is found in a list of bindings is one of them (`mem_of_lookup`), and in lists that bind the
same keys to related entries, what is found is related (`lookup_rel`). A table that is extended by
another still binds its keys (`exists_get?_extend`), and to the same entries where the other agrees
with it (`Agrees.get?_extend`).

In a table that is entered key by key no key has two entries (`Distinct`). If this is so in the
table that extends another one, what is found is what it binds, or else what the other one binds
(`Distinct.get?_extend`), and it does not matter in which order extensions are grouped
(`Distinct.extend_assoc`).
-/

namespace ShaderVariants.Table

variable {κ α β : Type} [DecidableEq κ] {key : κ} {a : α} {bindings : List (κ × α)}

/-- What is found in a list of bindings is one of them. -/
theorem mem_of_lookup (h : lookup key bindings = some a) : (key, a) ∈ bindings := by
  induction bindings with
  | nil => cases h
  | cons binding rest ih =>
    obtain ⟨k, b⟩ := binding
    rw [lookup] at h
    split at h
    · rename_i hk
      cases h
      rw [hk]
      exact List.mem_cons_self
    · exact List.mem_cons_of_mem _ (ih h)

/-- A key that is not bound is not found. -/
theorem lookup_eq_none (h : ∀ binding ∈ bindings, binding.1 ≠ key) :
    lookup key bindings = none := by
  induction bindings with
  | nil => rfl
  | cons binding rest ih =>
    rw [lookup, if_neg (h binding List.mem_cons_self)]
    exact ih fun b hb => h b (List.mem_cons_of_mem _ hb)

/-- If the same keys are bound to related entries, what is found is related. -/
theorem lookup_rel {R : α → β → Prop} {others : List (κ × β)}
    (h : List.Forall₂ (fun b c => c.1 = b.1 ∧ R b.2 c.2) bindings others) (key : κ) :
    Option.Rel R (lookup key bindings) (lookup key others) := by
  induction h with
  | nil => exact .none
  | @cons b c bs cs hbc _ ih =>
    rw [lookup, lookup, hbc.1]
    split
    · exact .some hbc.2
    · exact ih

/-! ## Extending a table -/

variable {t other : Table κ α}

/-- The other table gives a key of the table no other entry. -/
def Agrees (t other : Table κ α) : Prop :=
  ∀ binding ∈ other.entries, ∀ a, t.get? binding.1 = some a → binding.2 = a

/-- What is found in an extended table is an entry of the extension, or else what was found. -/
theorem get?_extend_cases (t other : Table κ α) (key : κ) :
    (∃ a, (key, a) ∈ other.entries ∧ (t.extend other).get? key = some a) ∨
      (t.extend other).get? key = t.get? key := by
  rw [extend, get?_insertAll]
  cases hlookup : lookup key other.entries.reverse with
  | none => exact .inr (Option.none_or ..)
  | some a => exact .inl ⟨a, List.mem_reverse.1 (mem_of_lookup hlookup), Option.some_or ..⟩

/-- A key that is bound is bound in an extended table. -/
theorem exists_get?_extend (other : Table κ α) (h : t.get? key = some a) :
    ∃ b, (t.extend other).get? key = some b := by
  rcases get?_extend_cases t other key with ⟨b, -, hfound⟩ | hfound
  · exact ⟨b, hfound⟩
  · exact ⟨a, hfound.trans h⟩

/-- In a table that is extended by one that agrees, a key has the entry that it had. -/
theorem Agrees.get?_extend (hagrees : t.Agrees other) (h : t.get? key = some a) :
    (t.extend other).get? key = some a := by
  rcases get?_extend_cases t other key with ⟨b, hmem, hfound⟩ | hfound
  · rwa [← hagrees (key, b) hmem a h]
  · rw [hfound, h]

/-! ## Tables without repeated keys -/

/-- No key has two entries. -/
def Distinct (t : Table κ α) : Prop :=
  (t.entries.map Prod.fst).Nodup

instance (t : Table κ α) : Decidable t.Distinct :=
  inferInstanceAs (Decidable (List.Nodup _))

/-- A key that is bound keeps its place when it is bound anew, and another one is added. -/
theorem keys_replace (key : κ) (a : α) (bindings : List (κ × α)) :
    (replace key a bindings).map Prod.fst =
      if key ∈ bindings.map Prod.fst then bindings.map Prod.fst
      else bindings.map Prod.fst ++ [key] := by
  induction bindings with
  | nil => rfl
  | cons binding rest ih =>
    obtain ⟨k, b⟩ := binding
    rw [replace]
    by_cases hk : k = key
    · simp [hk]
    · rw [if_neg hk, List.map_cons, List.map_cons, ih]
      by_cases hmem : key ∈ rest.map Prod.fst
      · rw [if_pos hmem, if_pos (List.mem_cons_of_mem k hmem)]
      · have hnot : key ∉ k :: rest.map Prod.fst := by
          rw [List.mem_cons, not_or]
          exact ⟨Ne.symm hk, hmem⟩
        rw [if_neg hmem, if_neg hnot]
        rfl

/-- The keys after one is bound are those that were there and this one. -/
theorem mem_keys_insert (t : Table κ α) (other : κ) (a : α) :
    key ∈ (t.insert other a).entries.map Prod.fst ↔
      key ∈ t.entries.map Prod.fst ∨ key = other := by
  unfold Table.insert
  rw [keys_replace]
  split
  · rename_i hother
    refine ⟨.inl, ?_⟩
    rintro (h | rfl)
    · exact h
    · exact hother
  · rw [List.mem_append, List.mem_singleton]

/-- Binding a key does not repeat it. -/
theorem Distinct.insert (h : t.Distinct) (key : κ) (a : α) : (t.insert key a).Distinct := by
  unfold Distinct Table.insert
  rw [keys_replace]
  split
  · exact h
  · rename_i hmem
    refine List.nodup_append.2 ⟨h, List.pairwise_singleton _ key, fun k hk k' hk' heq => hmem ?_⟩
    rwa [← List.mem_singleton.1 hk', ← heq]

/-- Entering bindings does not repeat keys. -/
theorem Distinct.insertAll (h : t.Distinct) (bindings : List (κ × α)) :
    (t.insertAll bindings).Distinct := by
  induction bindings generalizing t with
  | nil => exact h
  | cons binding rest ih => exact ih (h.insert binding.1 binding.2)

/-- The table of a list of bindings does not repeat keys. -/
theorem distinct_ofList (bindings : List (κ × α)) : (ofList bindings).Distinct :=
  Distinct.insertAll (t := empty) List.nodup_nil bindings

/-- Extending a table does not repeat keys. -/
theorem Distinct.extend (h : t.Distinct) (other : Table κ α) : (t.extend other).Distinct :=
  h.insertAll other.entries

omit [DecidableEq κ] in
/-- Changing entries does not repeat keys. -/
theorem Distinct.map (h : t.Distinct) (f : α → β) : (t.map f).Distinct := by
  unfold Distinct Table.map
  rw [List.map_map]
  exact h

/-- What is found among changed entries is the changed entry. -/
theorem get?_map (f : α → β) (t : Table κ α) (key : κ) :
    (t.map f).get? key = (t.get? key).map f := by
  obtain ⟨bindings⟩ := t
  unfold Table.map get?
  induction bindings with
  | nil => rfl
  | cons binding rest ih =>
    rw [List.map_cons, lookup, lookup]
    split
    · rfl
    · exact ih

/-- What is found in the table of a list of bindings is the last binding of the key. -/
theorem get?_ofList (bindings : List (κ × α)) (key : κ) :
    (ofList bindings).get? key = lookup key bindings.reverse := by
  rw [ofList, get?_insertAll]
  exact Option.or_none

/-- If no key is repeated, the last binding of a key is the first one. -/
theorem lookup_reverse (h : (bindings.map Prod.fst).Nodup) (key : κ) :
    lookup key bindings.reverse = lookup key bindings := by
  induction bindings with
  | nil => rfl
  | cons binding rest ih =>
    obtain ⟨k, b⟩ := binding
    rw [List.map_cons, List.nodup_cons] at h
    rw [List.reverse_cons, lookup_append, ih h.2]
    by_cases hk : k = key
    · -- The key is not bound in the rest.
      subst hk
      have hnone : lookup k rest = none := lookup_eq_none fun c hc heq =>
        h.1 (List.mem_map.2 ⟨c, hc, heq⟩)
      simp [lookup, hnone]
    · simp [lookup, hk]

/-- If no key is repeated, every binding is found. -/
theorem lookup_of_mem (h : (bindings.map Prod.fst).Nodup) {b : κ × α} (hb : b ∈ bindings) :
    lookup b.1 bindings = some b.2 := by
  induction bindings with
  | nil => cases hb
  | cons binding rest ih =>
    rw [List.map_cons, List.nodup_cons] at h
    rcases List.mem_cons.1 hb with rfl | hb
    · exact if_pos rfl
    · have hne : binding.1 ≠ b.1 := fun heq => h.1 (heq ▸ List.mem_map_of_mem hb)
      rw [lookup, if_neg hne, ih h.2 hb]

/-- If no key is repeated, the order of the bindings does not matter. -/
theorem lookup_perm {others : List (κ × α)} (h : bindings.Perm others)
    (hnodup : (bindings.map Prod.fst).Nodup) (key : κ) :
    lookup key bindings = lookup key others := by
  have hnodup' : (others.map Prod.fst).Nodup := (h.map Prod.fst).nodup_iff.1 hnodup
  cases hothers : lookup key others with
  | some a => exact lookup_of_mem hnodup (h.mem_iff.2 (mem_of_lookup hothers))
  | none =>
    refine lookup_eq_none fun b hb heq => ?_
    have hfound := lookup_of_mem hnodup' (h.mem_iff.1 hb)
    rw [heq, hothers] at hfound
    cases hfound

/-- What is found in an extended table is what the extension binds, or else what was found. -/
theorem Distinct.get?_extend (h : other.Distinct) (t : Table κ α) (key : κ) :
    (t.extend other).get? key = (other.get? key).or (t.get? key) := by
  rw [Table.extend, get?_insertAll, lookup_reverse h]
  rfl

/-- A key that is bound twice has its last entry. -/
theorem replace_replace (key : κ) (a b : α) (bindings : List (κ × α)) :
    replace key a (replace key b bindings) = replace key a bindings := by
  induction bindings with
  | nil => simp [replace]
  | cons binding rest ih =>
    obtain ⟨k, c⟩ := binding
    by_cases hk : k = key
    · simp [replace, hk]
    · simp [replace, hk, ih]

/-- A key that has its place can be bound before or after another one. -/
theorem replace_comm {other : κ} (hne : other ≠ key) (a b : α)
    (hmem : key ∈ bindings.map Prod.fst) :
    replace key a (replace other b bindings) = replace other b (replace key a bindings) := by
  induction bindings with
  | nil => cases hmem
  | cons binding rest ih =>
    obtain ⟨k, c⟩ := binding
    by_cases hk : k = key
    · subst hk
      simp [replace, Ne.symm hne]
    · have hrest : key ∈ rest.map Prod.fst := (List.mem_cons.1 hmem).resolve_left (Ne.symm hk)
      by_cases ho : k = other
      · subst ho
        simp [replace, hk]
      · simp [replace, hk, ho, ih hrest]

/-- A key that is bound to an entry already can be bound to it again. -/
theorem replace_of_lookup (h : lookup key bindings = some a) :
    replace key a bindings = bindings := by
  induction bindings with
  | nil => cases h
  | cons binding rest ih =>
    obtain ⟨k, b⟩ := binding
    rw [lookup] at h
    split at h
    · rename_i hk
      cases h
      rw [replace, if_pos hk, hk]
    · rename_i hk
      rw [replace, if_neg hk, ih h]

/-- A key that has its place can be bound before or after other keys. -/
theorem insertAll_insert {t : Table κ α} (hmem : key ∈ t.entries.map Prod.fst) (a : α)
    (hnot : key ∉ bindings.map Prod.fst) :
    (t.insert key a).insertAll bindings = (t.insertAll bindings).insert key a := by
  induction bindings generalizing t with
  | nil => rfl
  | cons binding rest ih =>
    obtain ⟨k, b⟩ := binding
    rw [List.map_cons, List.mem_cons, not_or] at hnot
    have hswap : (t.insert key a).insert k b = (t.insert k b).insert key a := by
      unfold Table.insert
      rw [replace_comm (Ne.symm hnot.1) a b hmem]
    have hkept : key ∈ (t.insert k b).entries.map Prod.fst :=
      (mem_keys_insert t k b).2 (.inl hmem)
    show ((t.insert key a).insert k b).insertAll rest = ((t.insert k b).insertAll rest).insert key a
    rw [hswap, ih hkept hnot.2]

/-- Entering bindings of which one was replaced is the same as entering them and then that one. -/
theorem insertAll_replace (h : (bindings.map Prod.fst).Nodup) (t : Table κ α) (key : κ) (a : α) :
    t.insertAll (replace key a bindings) = (t.insertAll bindings).insert key a := by
  induction bindings generalizing t with
  | nil => rfl
  | cons binding rest ih =>
    obtain ⟨k, b⟩ := binding
    rw [List.map_cons, List.nodup_cons] at h
    by_cases hk : k = key
    · subst hk
      have hplace : k ∈ (t.insert k b).entries.map Prod.fst :=
        (mem_keys_insert t k b).2 (.inr rfl)
      rw [replace, if_pos rfl]
      show (t.insert k a).insertAll rest = ((t.insert k b).insertAll rest).insert k a
      rw [← insertAll_insert hplace a h.1]
      unfold Table.insert
      rw [replace_replace]
    · rw [replace, if_neg hk]
      exact ih h.2 (t.insert k b)

/-- Extensions may be grouped in either way. -/
theorem Distinct.extend_assoc (h : other.Distinct) (t last : Table κ α) :
    (t.extend other).extend last = t.extend (other.extend last) := by
  obtain ⟨bindings⟩ := last
  unfold Table.extend
  dsimp only
  induction bindings generalizing other with
  | nil => rfl
  | cons binding rest ih =>
    have hgrouped := ih (h.insert binding.1 binding.2)
    rw [Table.insert, insertAll_replace h] at hgrouped
    exact hgrouped

/-- A table that is extended by itself stays as it is. -/
theorem Distinct.extend_self (h : t.Distinct) : t.extend t = t := by
  have hsame : ∀ bindings : List (κ × α), (∀ b ∈ bindings, t.get? b.1 = some b.2) →
      t.insertAll bindings = t := by
    intro bindings hbindings
    induction bindings with
    | nil => rfl
    | cons binding rest ih =>
      rw [List.forall_mem_cons] at hbindings
      show (t.insert binding.1 binding.2).insertAll rest = t
      rw [Table.insert, replace_of_lookup hbindings.1]
      exact ih hbindings.2
  exact hsame t.entries fun b hb => lookup_of_mem h hb

end ShaderVariants.Table
