/-!
# Tables

A table binds keys to entries. Entering a key that is bound replaces its entry, so the latest entry
of a key is the one that is found.
-/

namespace ShaderVariants

/-- Keys and their entries. -/
structure Table (κ α : Type) where
  entries : List (κ × α)
deriving DecidableEq

namespace Table

variable {κ α : Type}

/-- The table without keys. -/
def empty : Table κ α :=
  ⟨[]⟩

/-- The table with every entry changed by `f`. -/
def map {β : Type} (f : α → β) (t : Table κ α) : Table κ β :=
  ⟨t.entries.map fun entry => (entry.1, f entry.2)⟩

variable [DecidableEq κ]

/-- The entry of a key in a list of bindings: its first one. -/
def lookup (key : κ) : List (κ × α) → Option α
  | [] => none
  | (k, a) :: rest => if k = key then some a else lookup key rest

/-- A list of bindings in which a key is bound anew, at its old place if it has one. -/
def replace (key : κ) (a : α) : List (κ × α) → List (κ × α)
  | [] => [(key, a)]
  | (k, b) :: rest => if k = key then (key, a) :: rest else (k, b) :: replace key a rest

/-- The entry of a key. -/
def get? (t : Table κ α) (key : κ) : Option α :=
  lookup key t.entries

/-- The table in which a key is bound anew. -/
def insert (t : Table κ α) (key : κ) (a : α) : Table κ α :=
  ⟨replace key a t.entries⟩

/-- The table in which a key is not bound. -/
def erase (t : Table κ α) (key : κ) : Table κ α :=
  ⟨t.entries.filter fun entry => entry.1 ≠ key⟩

/-- The table in which the bindings of a list are entered one after another. -/
def insertAll (t : Table κ α) (bindings : List (κ × α)) : Table κ α :=
  bindings.foldl (fun t binding => t.insert binding.1 binding.2) t

/-- The table of a list of bindings, the last of each key. -/
def ofList (bindings : List (κ × α)) : Table κ α :=
  empty.insertAll bindings

/-- The entries of both tables; of a key that both bind, that of the second. -/
def extend (t other : Table κ α) : Table κ α :=
  t.insertAll other.entries

/-- Binding a key anew changes its entry and no other. -/
theorem lookup_replace (key other : κ) (a : α) (bindings : List (κ × α)) :
    lookup other (replace key a bindings)
      = if key = other then some a else lookup other bindings := by
  induction bindings with
  | nil => simp [replace, lookup]
  | cons binding rest ih =>
    obtain ⟨k, b⟩ := binding
    by_cases h : k = key
    · subst h
      by_cases ho : k = other <;> simp [replace, lookup, ho]
    · by_cases ho : k = other
      · subst ho
        simp [replace, lookup, h, Ne.symm h]
      · simp [replace, lookup, h, ho, ih]

/-- The first binding in a joined list. -/
theorem lookup_append (key : κ) (l m : List (κ × α)) :
    lookup key (l ++ m) = (lookup key l).or (lookup key m) := by
  induction l with
  | nil => simp [lookup]
  | cons binding rest ih =>
    obtain ⟨k, b⟩ := binding
    by_cases h : k = key <;> simp [lookup, h, ih]

/-- What is found after a key is bound anew. -/
theorem get?_insert (t : Table κ α) (key other : κ) (a : α) :
    (t.insert key a).get? other = if key = other then some a else t.get? other :=
  lookup_replace key other a t.entries

/-- What is found after a key is unbound. -/
theorem get?_erase (t : Table κ α) (key other : κ) :
    (t.erase key).get? other = if key = other then none else t.get? other := by
  obtain ⟨bindings⟩ := t
  unfold erase get?
  induction bindings with
  | nil => simp [lookup]
  | cons binding rest ih =>
    obtain ⟨k, b⟩ := binding
    by_cases h : k = key
    · by_cases ho : key = other <;> simp_all [lookup]
    · by_cases ho : k = other
      · subst ho
        simp [lookup, h, Ne.symm h]
      · simp_all [lookup]

/-- What is found after a list of bindings is entered: the last of a key there, else the old. -/
theorem get?_insertAll (t : Table κ α) (bindings : List (κ × α)) (key : κ) :
    (t.insertAll bindings).get? key = (lookup key bindings.reverse).or (t.get? key) := by
  induction bindings generalizing t with
  | nil => simp [insertAll, lookup]
  | cons binding rest ih =>
    have step : t.insertAll (binding :: rest) = (t.insert binding.1 binding.2).insertAll rest := rfl
    rw [step, ih, get?_insert, List.reverse_cons, lookup_append]
    obtain ⟨k, b⟩ := binding
    by_cases h : k = key <;> simp [lookup, h]

end Table

end ShaderVariants
