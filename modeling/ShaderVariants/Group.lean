import ShaderVariants.Checked

/-!
# Groups of macros

A group lists preprocessor macros and says how they combine: every subset of an independent group
is a choice, and of an exclusive group exactly one macro is chosen. A choice is a word whose bit
`j` stands for the `j`-th macro.

A group of any size has its counts and values in checked arithmetic (`checkedCount`,
`checkedValues`). For a group that is `Valid` nothing overflows, and `variantCount` and `choices`
are the plain forms.
-/

namespace ShaderVariants

/-- How the macros of a group combine. -/
inductive GroupKind where
  /-- Each macro is on or off by itself. -/
  | independent
  /-- Exactly one macro is on. -/
  | exclusive
deriving DecidableEq

namespace GroupKind

/-- The kind a document names by number (`from`): zero is independent, every other number
exclusive. -/
def ofInt (n : Int) : GroupKind :=
  if n = 0 then independent else exclusive

/-- The name of the kind. -/
def label : GroupKind → String
  | independent => "Independent"
  | exclusive => "Exclusive"

end GroupKind

/-- A named list of macros (`MacroGroup`). The place of a macro in the list is its bit. -/
structure MacroGroup where
  name : String
  kind : GroupKind
  macros : List String
deriving DecidableEq

/-- What is wrong with a group, a list of groups or a key (`MacroConfigError`). -/
inductive ConfigError where
  /-- The group declares `name` twice. -/
  | duplicateMacro (group name : String)
  /-- The group declares more macros than a value has bits for. -/
  | groupTooLarge (group : String) (size : Nat)
  /-- A value sets a bit that stands for no macro of the group. -/
  | bitOutOfRange (group : String) (bit count : Nat)
  /-- The number of variants is not a 64-bit count. -/
  | tooManyVariants
  /-- A key has not one value per group. -/
  | keyLength (expected received : Nat)
deriving DecidableEq

namespace ConfigError

/-- The error in words. -/
def message : ConfigError → String
  | duplicateMacro group name =>
    "macro `" ++ name ++ "` is declared more than once in group `" ++ group ++ "`"
  | groupTooLarge group size =>
    "macro group `" ++ group ++ "` declares " ++ toString size
      ++ " macros, at most 31 are supported"
  | bitOutOfRange group bit count =>
    "bit " ++ toString bit ++ " is set for group `" ++ group ++ "` which only has "
      ++ toString count ++ " macros"
  | tooManyVariants => "the macro groups have too many variants to enumerate"
  | keyLength expected received =>
    "expected a variant key with " ++ toString expected ++ " values but got "
      ++ toString received

end ConfigError

/-- The values of a group by position, without listing them: the iterator of `values`. -/
inductive GroupValues where
  /-- The numbers below `bound`, in order. -/
  | below (bound : Nat)
  /-- The words with one set bit, for `size` bits from the lowest on. -/
  | singleBits (size : Nat)
deriving DecidableEq

namespace GroupValues

/-- How many values there are. -/
def size : GroupValues → Nat
  | below bound => bound
  | singleBits size => size

/-- The value at a position below `size`. -/
def get : GroupValues → Nat → Except Overflow UInt32
  | below _, i => .ok (UInt32.ofNat i)
  | singleBits _, i => Checked.bit32 i

/-- The positions from `skip` on, at most `take` of them. -/
def positions (values : GroupValues) (skip take : Nat) : List Nat :=
  List.range' skip (min take (values.size - skip))

/-- At most `take` values after the first `skip`. The values are produced one after another from
the first on, so a skipped value that overflows stops the listing too; nothing is produced when
none is asked for. -/
def window (values : GroupValues) (skip take : Nat) : Except Overflow (List UInt32) :=
  if take = 0 then .ok []
  else do
    match values with
    | below _ => pure ()
    | singleBits size => (List.range (min skip size)).forM fun i => discard (Checked.bit32 i)
    (values.positions skip take).mapM values.get

/-- All values in order. -/
def toList (values : GroupValues) : Except Overflow (List UInt32) :=
  (List.range values.size).mapM values.get

end GroupValues

namespace MacroGroup

/-- The number of macros. -/
def size (g : MacroGroup) : Nat :=
  g.macros.length

/-- The most macros that a group may have (`MAX_GROUP_SIZE`). -/
def maxSize : Nat :=
  31

/-- The number of choices of the group (`variant_count`). An empty exclusive group has one: nothing
is on. -/
def variantCount (g : MacroGroup) : Nat :=
  match g.kind with
  | .independent => Nat.pow 2 g.size
  | .exclusive => max g.size 1

/-- The number of choices as a 64-bit count: `variant_count` of a group of any size. -/
def checkedCount (g : MacroGroup) : Except Overflow Nat :=
  match g.kind with
  | .independent => Checked.pow64 g.size
  | .exclusive => .ok (max g.size 1)

/-- The number of macros as a word, which has the low bits of the number. -/
def sizeWord (g : MacroGroup) : UInt32 :=
  UInt32.ofNat g.size

/-- The values of a group of any size (`values`). The number of macros is taken as a word for them,
and the bound of an independent group's values is a word as well. -/
def checkedValues (g : MacroGroup) : Except Overflow GroupValues :=
  let size := g.sizeWord.toNat
  match g.kind with
  | .independent => (Checked.bit32 size).map fun bound => .below bound.toNat
  | .exclusive => .ok (if size = 0 then .below 1 else .singleBits size)

/-- The values of a group of at most `maxSize` macros, in order. -/
def choices (g : MacroGroup) : List UInt32 :=
  match g.kind with
  | .independent => (List.range (Nat.pow 2 g.size)).map UInt32.ofNat
  | .exclusive =>
    if g.size = 0 then [0] else (List.range g.size).map fun bit => 1 <<< UInt32.ofNat bit

/-- The positions of the set bits of a value, from the lowest on. -/
def setBits (value : UInt32) : List Nat :=
  (List.range 32).filter value.toNat.testBit

/-- The macro that a bit stands for. -/
def macroAt (g : MacroGroup) (bit : Nat) : Except ConfigError String :=
  match g.macros[bit]? with
  | some name => .ok name
  | none => .error (.bitOutOfRange g.name bit g.size)

/-- The macros whose bits are set (`active_macros`), in ascending order of the bits. -/
def activeMacros (g : MacroGroup) (value : UInt32) : Except ConfigError (List String) :=
  (setBits value).mapM g.macroAt

/-- The value whose set bits are those of the macros that `p` holds of. -/
def mask (g : MacroGroup) (p : String → Bool) : UInt32 :=
  (g.macros.zipIdx.filter fun entry => p entry.1).foldr
    (fun entry value => 1 <<< UInt32.ofNat entry.2 ||| value) 0

/-- The first name of a list that stands in it before. -/
def firstRepeat (names : List String) : Option String :=
  go [] names
where
  /-- The same after the names `seen`. -/
  go (seen : List String) : List String → Option String
    | [] => none
    | name :: rest => if name ∈ seen then some name else go (name :: seen) rest

/-- A group that fits the encoding and declares no macro twice. -/
def Valid (g : MacroGroup) : Prop :=
  g.size ≤ maxSize ∧ g.macros.Nodup

/-- The first thing that is wrong with the group by itself (`validate`). -/
def fault? (g : MacroGroup) : Option ConfigError :=
  if maxSize < g.size then some (.groupTooLarge g.name g.size)
  else (firstRepeat g.macros).map (.duplicateMacro g.name)

/-- Without a repeat after `seen`, the names are pairwise distinct and none is in `seen`. -/
theorem go_eq_none_iff {seen names : List String} :
    firstRepeat.go seen names = none ↔ names.Nodup ∧ ∀ name ∈ names, name ∉ seen := by
  induction names generalizing seen with
  | nil => simp [firstRepeat.go]
  | cons name rest ih =>
    by_cases h : name ∈ seen
    · simp [firstRepeat.go, h]
    · simp only [firstRepeat.go, h, if_false, ih, List.nodup_cons, List.mem_cons, not_or]
      grind

/-- A list has no repeat when its members are pairwise distinct. -/
theorem firstRepeat_eq_none_iff {names : List String} :
    firstRepeat names = none ↔ names.Nodup := by
  simp [firstRepeat, go_eq_none_iff]

/-- Nothing is wrong with exactly the valid groups. -/
theorem fault?_eq_none_iff {g : MacroGroup} : g.fault? = none ↔ g.Valid := by
  unfold fault? Valid
  split
  · simp; omega
  · rw [Option.map_eq_none_iff, firstRepeat_eq_none_iff]
    simp; omega

end MacroGroup

end ShaderVariants
