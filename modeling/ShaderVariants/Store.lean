import ShaderVariants.Path
import ShaderVariants.Table
import ShaderVariants.Text.Utf8

/-!
# Stores of files

A store is a tree of files, directories and symbolic links. A `Location` is the list of names from
the root down; `walk` follows a path from a directory to a location, through links, and the
operations on paths (`read`, `write`, `remove`, `makeDir`, …) act on the location that it leads to.
Every file has one name: what is written at a location is seen at no other one.

Only `write`, `remove`, `makeDir` and the like change a store, each at one location, and a refused
operation changes nothing. Files can be read and written and directories can be added to; a
directory may be one that only grows, from which nothing can be removed (`Ground.growing`).
-/

namespace ShaderVariants

/-- Why an operation on files was refused. -/
inductive FileError where
  | notFound
  | isDirectory
  | notDirectory
  | alreadyExists
  /-- The file is no text. -/
  | notText
  /-- The links lead nowhere. -/
  | tooManyLinks
  /-- A name, or the whole path, is too long. -/
  | nameTooLong
  /-- The path holds a character that no path may hold. -/
  | badPath
  /-- The directory is not empty. -/
  | notEmpty
  | denied
deriving DecidableEq

/-- What a file holds. -/
inductive Content where
  | text (s : String)
  /-- Bytes that are no text. -/
  | binary (bytes : List UInt8)
deriving DecidableEq

namespace Content

/-- Bytes as the content of a file. -/
def ofBytes (bytes : List UInt8) : Content :=
  match Text.ofBytes? bytes with
  | some s => text s
  | none => binary bytes

/-- The content as text, as well as it can be shown. -/
def shown : Content → String
  | text s => s
  | binary bytes => Text.ofBytesLossy bytes

/-- The number of bytes. -/
def size : Content → Nat
  | text s => s.utf8ByteSize
  | binary bytes => bytes.length

end Content

/-- What is at a location. -/
inductive Node where
  | file (content : Content) (executable : Bool)
  | directory
  | link (target : Path)
  /-- A file that swallows what is written to it and is always empty. -/
  | device
deriving DecidableEq

/-- The names from the root down. -/
abbrev Location := List String

namespace Location

/-- The location as an absolute path. -/
def path (l : Location) : Path :=
  if l.isEmpty then "/" else String.join (l.map ("/" ++ ·))

/-- The locations along the way from the root, the location itself last. -/
def along (l : Location) : List Location :=
  (List.range (l.length + 1)).map l.take

/-- The names that lead from `dir` down to a location, if it is below. -/
def below? (dir l : Location) : Option (List String) :=
  if dir.length < l.length ∧ dir.isPrefixOf l then some (l.drop dir.length) else none

end Location

/-- What stays as it is when files change. -/
structure Ground where
  /-- The directory where relative paths start. -/
  home : Location
  /-- The directories that only grow: what is in them can be written, but not removed. -/
  growing : List Location := []
deriving DecidableEq

/-- What is at a location cannot be removed. -/
def Ground.isFixed (g : Ground) (l : Location) : Bool :=
  g.growing.contains l.dropLast

/-- A tree of files on its ground. -/
structure Store extends Ground where
  nodes : Table Location Node
deriving DecidableEq

/-- A location that a path leads to, and what is there: nothing if only the directory around it
exists. -/
structure Place where
  location : Location
  node : Option Node
deriving DecidableEq

namespace Store

/-- What every store holds beside its own files. -/
def fixtures : List (Location × Node) := [
  (["dev"], .directory), (["dev", "null"], .device), (["tmp"], .directory), (["bin"], .directory),
  (["usr"], .directory), (["usr", "bin"], .directory)]

/-- The store with one empty directory, its home. -/
def ofHome (home : Location) : Store :=
  { home, nodes := .ofList (fixtures ++ (Location.along home).map fun l => (l, .directory)) }

/-- What is at a location. The root is always a directory. -/
def node? (s : Store) (l : Location) : Option Node :=
  if l = [] then some .directory else s.nodes.get? l

/-- The store with another node at a location. -/
def put (s : Store) (l : Location) (n : Node) : Store :=
  { s with nodes := s.nodes.insert l n }

/-- The store with nothing at a location. -/
def clear (s : Store) (l : Location) : Store :=
  { s with nodes := s.nodes.erase l }

/-- Where a path starts. -/
def start (s : Store) (p : Path) : Location :=
  if Path.isAbsolute p then [] else s.home

/-- The place that names lead to from the directory at a location, through at most `links` links.
The last name is followed through a link if `follow` holds. -/
def walk (s : Store) (follow : Bool) (links : Nat) (here : Location) :
    List String → Except FileError Place
  | [] => .ok ⟨here, some .directory⟩
  | name :: rest =>
    if name = "." then walk s follow links here rest
    else if name = ".." then walk s follow links here.dropLast rest
    else if name.utf8ByteSize > Path.maxName then .error .nameTooLong
    else
      let there := here ++ [name]
      match s.node? there with
      | some .directory => walk s follow links there rest
      | some (.link target) =>
        if rest = [] ∧ follow = false then .ok ⟨there, some (.link target)⟩
        else match links with
          | 0 => .error .tooManyLinks
          | links + 1 =>
            walk s follow links (if Path.isAbsolute target then [] else here)
              (Path.names target ++ rest)
      | some node => if rest = [] then .ok ⟨there, some node⟩ else .error .notDirectory
      | none => if rest = [] then .ok ⟨there, none⟩ else .error .notFound
termination_by names => (links, names.length)

/-- How many links a path may lead through. -/
def maxLinks : Nat :=
  40

/-- Where the names of a path lead to. The empty path leads nowhere. -/
def trace (s : Store) (p : Path) (follow : Bool) (names : List String) : Except FileError Place :=
  if Path.holdsNul p then .error .badPath
  else if p.isEmpty then .error .notFound
  else if p.utf8ByteSize > Path.maxSize then .error .nameTooLong
  else s.walk follow maxLinks (s.start p) names

/-- The place that a path leads to. -/
def find (s : Store) (p : Path) (follow : Bool) : Except FileError Place :=
  s.trace p follow (Path.names p)

/-- The content of the file at the end of a path. -/
def content (s : Store) (p : Path) : Except FileError Content := do
  match (← s.find p true).node with
  | some (.file content _) => return content
  | some .device => return .text ""
  | some _ => throw .isDirectory
  | none => throw .notFound

/-- The text of a file. -/
def read (s : Store) (p : Path) : Except FileError String := do
  match ← s.content p with
  | .text t => return t
  | .binary _ => throw .notText

/-- The place where a file would be written. A path that ends in a slash is no place for a file,
provided that the directory it would be in exists. -/
def writePlace (s : Store) (p : Path) : Except FileError Place :=
  if Path.endsInSlash p then do
    let _ ← s.trace p true ((Path.names p).dropLast.dropLast ++ ["."])
    throw .isDirectory
  else s.find p true

/-- The store with the content of a file replaced, or with a new file. -/
def writeContent (s : Store) (p : Path) (content : Content) : Except FileError Store := do
  let place ← s.writePlace p
  match place.node with
  | some (.file _ executable) => return s.put place.location (.file content executable)
  | some .device => return s
  | some _ => throw .isDirectory
  | none => return s.put place.location (.file content false)

/-- The store with the text of a file replaced, or with a new file. -/
def write (s : Store) (p : Path) (text : String) : Except FileError Store :=
  s.writeContent p (.text text)

/-- The store without the file or link at the end of a path. -/
def remove (s : Store) (p : Path) : Except FileError Store := do
  let place ← s.find p false
  match place.node with
  | some .directory => throw .isDirectory
  | some _ => if s.isFixed place.location then throw .denied else return s.clear place.location
  | none => throw .notFound

/-- The path leads to a directory. -/
def isDirectory (s : Store) (p : Path) : Bool :=
  match s.find p true with
  | .ok ⟨_, some .directory⟩ => true
  | _ => false

/-- The names on the way to a new directory: a slash after its name says nothing more. -/
def newNames (p : Path) : List String :=
  if Path.endsInSlash p then (Path.names p).dropLast else Path.names p

/-- The store with a new directory. -/
def makeDir (s : Store) (p : Path) : Except FileError Store := do
  let place ← s.trace p false (newNames p)
  match place.node with
  | some _ => throw .alreadyExists
  | none => return s.put place.location .directory

/-- The store in which a path leads to a directory, a new one if there was none. -/
def ensureDir (s : Store) (p : Path) : Except FileError Store :=
  match s.makeDir p with
  | .ok s => .ok s
  | .error e => if s.isDirectory p then .ok s else .error e

/-- The store in which a path leads to a directory, with new ones where they are missing on the way
to it. -/
def ensureDirs (s : Store) (p : Path) : Except FileError Store :=
  (Path.leading p).foldlM ensureDir s

/-- The store with a new link. -/
def makeLink (s : Store) (target p : Path) : Except FileError Store := do
  let place ← s.find p false
  match place.node with
  | some _ => throw .alreadyExists
  | none => return s.put place.location (.link target)

/-- The store in which the file at the end of a path may or may not be executed. -/
def setExecutable (s : Store) (p : Path) (executable : Bool) : Except FileError Store := do
  let place ← s.find p true
  match place.node with
  | some (.file content _) => return s.put place.location (.file content executable)
  | some _ => return s
  | none => throw .notFound

/-- The absolute path of what a path leads to, through no links. -/
def canonical (s : Store) (p : Path) : Except FileError Path := do
  let place ← s.find p true
  match place.node with
  | some _ => return place.location.path
  | none => throw .notFound

/-- The names in a directory and what is there. -/
def children (s : Store) (dir : Location) : List (String × Node) :=
  s.nodes.entries.filterMap fun (l, n) =>
    match Location.below? dir l with
    | some [name] => some (name, n)
    | _ => none

/-- What a link, which is in a directory, is shown as: the file that it leads to, if it does. -/
def linked (s : Store) (dir : Location) (target : Path) : Content :=
  let here := if Path.isAbsolute target then [] else dir
  match s.walk true (maxLinks - 1) here (Path.names target) with
  | .ok ⟨_, some (.file content _)⟩ => content
  | _ => .text ""

/-- All that is below a directory, by its path from there: the content of a file; a directory has a
slash after its name and no content. -/
def listing (s : Store) (dir : Location) : List (Path × Option Content) :=
  s.nodes.entries.filterMap fun (l, n) =>
    (Location.below? dir l).map fun names =>
      let path := "/".intercalate names
      match n with
      | .directory => (path ++ "/", none)
      | .file content _ => (path, some content)
      | .link target => (path, some (s.linked l.dropLast target))
      | .device => (path, some (.text ""))

end Store

end ShaderVariants
