/-!
# Paths as text

A path is text: names separated by slashes. Paths are joined and changed as text, so that a path is
reported as it was written; what it leads to is for a store of files to say, by its `names`.
-/

namespace ShaderVariants

/-- The names and separators of a path, as written. -/
abbrev Path := String

namespace Path

/-- The path starts at the root. -/
def isAbsolute (p : Path) : Bool :=
  p.toList.head? == some '/'

/-- A list of characters cut at every slash. -/
def segments : List Char → List (List Char)
  | [] => [[]]
  | c :: cs =>
    if c = '/' then [] :: segments cs
    else match segments cs with
      | [] => [[c]]
      | s :: ss => (c :: s) :: ss

/-- The path ends in a slash. -/
def endsInSlash (p : Path) : Bool :=
  p.toList.getLast? == some '/'

/-- The path `name` inside the directory `dir`; an absolute `name` is a path of its own. -/
def join (dir name : Path) : Path :=
  if isAbsolute name then name
  else if dir.isEmpty || endsInSlash dir then dir ++ name
  else dir ++ "/" ++ name

/-- A segment that names nothing: it is empty or a point. -/
def isIdle (segment : List Char) : Bool :=
  segment == [] || segment == ['.']

/-- A file name without what follows its last point. A point that the name starts with belongs to
the name. -/
def fileStem (name : List Char) : List Char :=
  let beforePoint := (name.reverse.dropWhile (· ≠ '.')).tail.reverse
  if beforePoint.isEmpty then name else beforePoint

/-- The names along a path. A slash at the end asks for a directory, as a point does. -/
def names (p : Path) : List String :=
  ((segments p.toList).filter (· ≠ [])).map String.ofList ++ if endsInSlash p then ["."] else []

/-- How many bytes a name may have. -/
def maxName : Nat :=
  255

/-- How many bytes a path may have. -/
def maxSize : Nat :=
  4095

/-- The path holds the character that ends a path for the system, which is no part of any path. -/
def holdsNul (p : Path) : Bool :=
  p.contains '\x00'

/-- The paths of one, two, … names that a path starts with, the path itself last. -/
def leading (p : Path) : List Path :=
  let root := if isAbsolute p then "/" else ""
  let names := (segments p.toList).filter (· ≠ [])
  ((List.range names.length).map fun n =>
    root ++ "/".intercalate ((names.take (n + 1)).map String.ofList))

/-- Segments as the characters of a path. -/
def unsegment (segments : List (List Char)) : List Char :=
  ['/'].intercalate segments

/-- The path whose file name has the given extension in the place of its own. What follows the file
name is dropped; a path that ends in no file name is left as it is. At the end of a path, a name of
two points and an extension loses the extension only: what is left is no file name. -/
def withExtension (p : Path) (extension : String) : Path :=
  let names := (segments p.toList).reverse
  match names.dropWhile isIdle with
  | [] => p
  | name :: before =>
    if name = ['.', '.'] then p
    else if fileStem name = ['.'] ∧ names.head? = some name then
      String.ofList (unsegment (before.reverse ++ [['.', '.']]))
    else String.ofList
      (unsegment (before.reverse ++ [fileStem name ++ '.' :: extension.toList]))

/-- The path `p` as it is seen from a directory that it starts with: as it is written after the
directory, or a point if it is the directory itself. Any other path stays as it is. -/
def relative (dir p : Path) : Path :=
  let start := dir.toList ++ ['/']
  if p = dir then "."
  else if start.isPrefixOf p.toList then
    let rest := p.toList.drop start.length
    if (segments rest).all isIdle then "." else String.ofList rest
  else p

end Path

end ShaderVariants
