/-!
# Variant keys

The key of a variant holds one value per macro group. Bit `j` of a group's value says that the
`j`-th macro of the group is defined. The key also names the files built for the variant.
-/

namespace ShaderVariants

/-- The macro selection of one variant, one value per macro group. -/
structure VariantKey where
  values : List UInt32
deriving DecidableEq

namespace VariantKey

/-- Keys are ordered as their values are, the first value first. -/
instance : LT VariantKey :=
  ⟨fun a b => a.values < b.values⟩

instance (a b : VariantKey) : Decidable (a < b) :=
  inferInstanceAs (Decidable (a.values < b.values))

/-- The number of groups the key has a value for. -/
def length (key : VariantKey) : Nat :=
  key.values.length

/-- A value in decimal. -/
def digits (value : UInt32) : String :=
  toString value.toNat

/-- The key for people (`fmt`): its values, separated by points. -/
def text (key : VariantKey) : String :=
  ".".intercalate (key.values.map digits)

/-- What the names of the variant's files begin with (`prefix`): each value followed by a point. -/
def stem (key : VariantKey) : String :=
  String.join (key.values.map fun value => digits value ++ ".")

/-- The name of the variant's file of the given extension (`artifact_name`). -/
def artifactName (key : VariantKey) (extension : String) : String :=
  key.stem ++ extension

/-- The key at its place in an increasing list, unless it is there already. -/
def insertOrdered (key : VariantKey) : List VariantKey → List VariantKey
  | [] => [key]
  | k :: ks =>
    if key < k then key :: k :: ks
    else if key = k then k :: ks
    else k :: insertOrdered key ks

/-- The keys of a list in increasing order, each once. -/
def ordered (keys : List VariantKey) : List VariantKey :=
  keys.foldr insertOrdered []

end VariantKey

end ShaderVariants
