import ShaderVariants.Script.Pattern
import ShaderVariants.Script.Utility.Fields

/-!
# Utilities for files

Copying, moving, making, removing and naming files, directories and links.
-/

namespace ShaderVariants

namespace Store

/-- The nodes below a location, by the names that lead to them from there. -/
def below (s : Store) (dir : Location) : List (List String × Node) :=
  s.nodes.entries.filterMap fun (l, n) => (Location.below? dir l).map fun names => (names, n)

/-- The store without what is at a location and below it. -/
def clearTree (s : Store) (l : Location) : Store :=
  (s.below l).foldl (fun t (names, _) => t.clear (l ++ names)) (s.clear l)

/-- The store with a node and what is below it copied to another location. -/
def copyTree (s : Store) (l target : Location) : Store :=
  match s.node? l with
  | none => s
  | some n => (s.below l).foldl (fun t (names, m) => t.put (target ++ names) m) (s.put target n)

end Store

namespace Script.Utility

/-- The path of a text. -/
def path (p : String) : Path :=
  Text.assembled p

/-- What a path leads to. -/
def place? (follow : Bool) (p : String) : Run (Except FileError Place) := do
  return (← get).store.find (path p) follow

/-! ## Names -/

/-- A text without slashes at its end. -/
def withoutSlashes (p : String) : String :=
  String.ofList (p.toList.reverse.dropWhile (· = '/')).reverse

/-- The last name of a path. -/
def lastName (p : String) : String :=
  let kept := withoutSlashes p
  if kept.isEmpty then (if p.isEmpty then "" else "/")
  else String.ofList (kept.toList.reverse.takeWhile (· ≠ '/')).reverse

/-- A path without its last name. -/
def dirName (p : String) : String :=
  let kept := withoutSlashes p
  if kept.isEmpty then (if p.isEmpty then "." else "/")
  else
    let front := String.ofList (kept.toList.reverse.dropWhile (· ≠ '/')).reverse
    if front.isEmpty then "."
    else
      let front := withoutSlashes front
      if front.isEmpty then "/" else front

/-- A name without an ending, unless it is nothing but that. -/
def withoutEnding (ending name : String) : String :=
  if !ending.isEmpty && name.endsWith ending && name ≠ ending then
    String.ofList (name.toList.take (name.length - ending.length))
  else name

/-- Print the last names of paths. -/
def basename : Utility :=
  withOptions {
    letters := "az", valued := "s", leading := true
    names := [("multiple", 'a'), ("suffix", 's'), ("zero", 'z')] } fun tool g => do
    let ending := (g.value? 's').getD ""
    let print (names : List String) : Run Nat := do
      Run.print (String.join (names.map (· ++ if g.has 'z' then "\x00" else "\n")))
      return 0
    match g.operands with
    | [] => lacking tool 1
    | names =>
      if g.has 'a' || g.has 's' then print (names.map fun p => withoutEnding ending (lastName p))
      else match names with
        | [p] => print [lastName p]
        | [p, ending] => print [withoutEnding ending (lastName p)]
        | _ :: _ :: other :: _ => extra tool other 1
        | [] => return 1

/-- Print paths without their last names. -/
def dirname : Utility :=
  withOptions { letters := "z", leading := true, names := [("zero", 'z')] } fun tool g => do
    if g.operands.isEmpty then lacking tool 1
    else
      Run.print (String.join (g.operands.map fun p => dirName p ++ if g.has 'z' then "\x00"
        else "\n"))
      return 0

/-! ## Copying and moving -/

/-- The options of copying. -/
def cpOptions : Known := {
  letters := "abdfHilLnpPrRsTuvxZ!", valued := "tS"
  names := [("archive", 'a'), ("force", 'f'), ("interactive", 'i'), ("link", 'l'),
    ("dereference", 'L'), ("no-clobber", 'n'), ("no-dereference", 'P'), ("recursive", 'r'),
    ("symbolic-link", 's'), ("target-directory", 't'), ("no-target-directory", 'T'),
    ("update", 'u'), ("verbose", 'v'), ("preserve", '!')]
  optional := "!u" }

/-- The options of moving. -/
def mvOptions : Known := {
  letters := "bfinTuvZ", valued := "tS"
  names := [("force", 'f'), ("interactive", 'i'), ("no-clobber", 'n'), ("target-directory", 't'),
    ("no-target-directory", 'T'), ("update", 'u'), ("verbose", 'v')]
  optional := "u" }

/-- Do something for each of several files and its place in or at a destination. -/
def withTargets (tool : String) (g : Given) (use : (source target : String) → Run Nat) :
    Run Nat := do
  let inside (dir p : String) : String :=
    (if dir.endsWith "/" then dir else dir ++ "/") ++ lastName p
  let s := (← get).store
  match g.value? 't', g.operands.reverse with
  | some _, [] =>
    complain tool "missing file operand"
    advise tool
    return 1
  | some dir, ps =>
    if s.isDirectory (path dir) then worst ps.reverse fun p => use p (inside dir p)
    else
      complain tool ("target directory " ++ quoted dir ++ ": " ++ refusal .notFound)
      return 1
  | none, [] =>
    complain tool "missing file operand"
    advise tool
    return 1
  | none, [p] =>
    complain tool ("missing destination file operand after " ++ quoted p)
    advise tool
    return 1
  | none, dest :: ps =>
    if !g.has 'T' && s.isDirectory (path dest) then
      worst ps.reverse fun p => use p (inside dest p)
    else match ps with
      | [p] => use p dest
      | _ =>
        let e := match s.find (path dest) true with
          | .ok ⟨_, some _⟩ => FileError.notDirectory
          | .ok ⟨_, none⟩ => .notFound
          | .error e => e
        complain tool ("target " ++ quoted dest ++ ": " ++ refusal e)
        return 1

/-- Copy a file, a link or a directory. -/
def copy (tool : String) (g : Given) (source target : String) : Run Nat := do
  let wrong (text : String) : Run Nat := do
    complain tool text
    return 1
  let recursive := g.has 'r' || g.has 'R' || g.has 'a'
  let follow := g.has 'L' || !(recursive || g.has 'P' || g.has 'd')
  let said : Run Unit := do
    if g.has 'v' then Run.print (quoted source ++ " -> " ++ quoted target ++ "\n")
  let s := (← get).store
  let isTree := match s.find (path source) follow with
    | .ok ⟨_, some .directory⟩ => true
    | _ => false
  let target' := if isTree then withoutSlashes target else target
  match s.find (path source) follow, s.find (path target') true with
  | .error e, _ => wrong ("cannot stat " ++ quoted source ++ ": " ++ refusal e)
  | .ok ⟨_, none⟩, _ => wrong ("cannot stat " ++ quoted source ++ ": " ++ refusal .notFound)
  | .ok ⟨l, some .directory⟩, found =>
    if !recursive then wrong ("-r not specified; omitting directory " ++ quoted source)
    else match found with
      | .error e => wrong ("cannot create directory " ++ quoted target ++ ": " ++ refusal e)
      | .ok ⟨m, node⟩ =>
        if l.isPrefixOf m then
          wrong ("cannot copy a directory, " ++ quoted source ++ ", into itself, " ++ quoted target)
        else match node with
          | some .directory =>
            let t := (s.below l).foldl (fun t (names, n) => t.put (m ++ names) n) s
            modify fun shell => { shell with store := t }
            said
            return 0
          | some _ =>
            wrong ("cannot overwrite non-directory " ++ quoted target ++ " with directory "
              ++ quoted source)
          | none =>
            modify fun shell => { shell with store := s.copyTree l m }
            said
            return 0
  | .ok ⟨l, some n⟩, found =>
    match found with
    | .ok ⟨_, some .directory⟩ =>
      wrong ("cannot overwrite directory " ++ quoted target ++ " with non-directory")
    | .ok ⟨m, some _⟩ =>
      if l = m then wrong (quoted source ++ " and " ++ quoted target ++ " are the same file")
      else if g.has 'n' then return 0
      else match n with
        | .file content _ =>
          let _ ← change fun s => s.writeContent (path target) content
          said
          return 0
        | .device =>
          let _ ← change fun s => s.writeContent (path target) (.text "")
          said
          return 0
        | _ =>
          modify fun shell => { shell with store := s.put m n }
          said
          return 0
    | .ok ⟨m, none⟩ =>
      if (path target).endsWith "/" then
        wrong ("cannot create regular file " ++ quoted target ++ ": " ++ refusal .notDirectory)
      else
        let n := match n with
          | .device => Node.file (.text "") false
          | n => n
        modify fun shell => { shell with store := s.put m n }
        said
        return 0
    | .error e =>
      let e := if e = .notFound && (Path.endsInSlash (path target)) &&
          (s.find (path (withoutSlashes target)) true matches .ok _) then .notDirectory else e
      wrong ((if e = .notDirectory && !Path.endsInSlash (path target)
          then "cannot stat " else "cannot create regular file ")
        ++ quoted target ++ ": " ++ refusal e)

/-- Copy files. -/
def cp : Utility :=
  withOptions cpOptions fun tool g => withTargets tool g (copy tool g)

/-- Move a file, a link or a directory. -/
def move (tool : String) (g : Given) (source target : String) : Run Nat := do
  let wrong (text : String) : Run Nat := do
    complain tool text
    return 1
  let s := (← get).store
  let put (l m : Location) : Run Nat := do
    modify fun shell => { shell with store := ((s.clearTree m).copyTree l m).clearTree l }
    if g.has 'v' then
      Run.print ("renamed " ++ quoted source ++ " -> " ++ quoted target ++ "\n")
    return 0
  match s.find (path (withoutSlashes source)) false,
    s.find (path (withoutSlashes target)) false with
  | .error e, _ => wrong ("cannot stat " ++ quoted source ++ ": " ++ refusal e)
  | .ok ⟨_, none⟩, _ => wrong ("cannot stat " ++ quoted source ++ ": " ++ refusal .notFound)
  | _, .error e =>
    wrong ("cannot move " ++ quoted source ++ " to " ++ quoted target ++ ": " ++ refusal e)
  | .ok ⟨l, some n⟩, .ok ⟨m, there⟩ =>
    let isDir := n = .directory
    if l = m then wrong (quoted source ++ " and " ++ quoted target ++ " are the same file")
    else if isDir && l.isPrefixOf m then
      wrong ("cannot move " ++ quoted source ++ " to a subdirectory of itself, " ++ quoted target)
    else match there with
      | none =>
        if !isDir && target.endsWith "/" then
          wrong ("cannot move " ++ quoted source ++ " to " ++ quoted target ++ ": "
            ++ refusal .notDirectory)
        else put l m
      | some .directory =>
        if !isDir then
          wrong ("cannot overwrite directory " ++ quoted target ++ " with non-directory")
        else if !(s.below m).isEmpty then
          wrong ("cannot move " ++ quoted source ++ " to " ++ quoted target ++ ": "
            ++ refusal .notEmpty)
        else put l m
      | some _ =>
        if isDir then
          wrong ("cannot overwrite non-directory " ++ quoted target ++ " with directory "
            ++ quoted source)
        else if g.has 'n' then return 0
        else put l m

/-- Move files. -/
def mv : Utility :=
  withOptions mvOptions fun tool g => withTargets tool g (move tool g)

/-! ## Making and removing -/

/-- Remove files, and directories if that is asked for. -/
def rm : Utility :=
  withOptions {
    letters := "dfiIrRv"
    names := [("dir", 'd'), ("force", 'f'), ("recursive", 'r'), ("verbose", 'v')] } fun tool g => do
    if g.operands.isEmpty && !g.has 'f' then lacking tool 1
    else worst g.operands fun p => do
      let wrong (text : String) : Run Nat := do
        complain tool text
        return 1
      let s := (← get).store
      let recursive := g.has 'r' || g.has 'R'
      let cannot (e : FileError) : Run Nat :=
        if g.has 'f' && (e = .notFound || e = .notDirectory) then return 0
        else wrong ("cannot remove " ++ quoted p ++ ": " ++ refusal e)
      match s.find (path p) false with
      | .error e => cannot e
      | .ok ⟨_, none⟩ => cannot .notFound
      | .ok ⟨l, some .directory⟩ =>
        let name := lastName p
        if l.isEmpty && recursive then
          complain tool ("it is dangerous to operate recursively on " ++ quoted "/")
          wrong "use --no-preserve-root to override this failsafe"
        else if recursive && (name = "." || name = "..") then
          wrong ("refusing to remove '.' or '..' directory: skipping " ++ quoted p)
        else if !recursive && !g.has 'd' then cannot .isDirectory
        else if !recursive && !(s.below l).isEmpty then cannot .notEmpty
        else
          modify fun shell => { shell with store := s.clearTree l }
          if g.has 'v' then Run.print ("removed directory " ++ quoted p ++ "\n")
          return 0
      | .ok ⟨l, some _⟩ =>
        modify fun shell => { shell with store := s.clear l }
        if g.has 'v' then Run.print ("removed " ++ quoted p ++ "\n")
        return 0

/-- Remove empty directories. -/
def rmdir : Utility :=
  withOptions {
    letters := "pv!"
    names := [("parents", 'p'), ("verbose", 'v'), ("ignore-fail-on-non-empty", '!')] }
    fun tool g => do
    let one (p : String) : Run Nat := do
      let wrong (e : FileError) : Run Nat := do
        complain tool ("failed to remove " ++ quoted p ++ ": " ++ refusal e)
        return 1
      let s := (← get).store
      match s.find (path p) false with
      | .error e => wrong e
      | .ok ⟨l, some .directory⟩ =>
        if (s.below l).isEmpty then
          modify fun shell => { shell with store := s.clear l }
          return 0
        else if g.has '!' then return 0
        else wrong .notEmpty
      | .ok ⟨_, some _⟩ => wrong .notDirectory
      | .ok ⟨_, none⟩ => wrong .notFound
    if g.operands.isEmpty then lacking tool 1
    else worst g.operands fun p =>
      if g.has 'p' then
        ((Path.leading (path p)).reverse.map Text.bytewise).foldlM (fun status dir =>
          if status = 0 then one dir else return status) 0
      else one p

/-- Make directories, with an option also those on the way to them. -/
def mkdir : Utility :=
  withOptions {
    letters := "pvZ", valued := "m"
    names := [("mode", 'm'), ("parents", 'p'), ("verbose", 'v')] } fun tool g => do
    if g.operands.isEmpty then lacking tool 1
    else worst g.operands fun p => do
      let make (p : String) (f : Store → Except FileError Store) : Run Nat := do
        let there := (← get).store.isDirectory (path p)
        match ← change f with
        | none =>
          if g.has 'v' && !there then
            Run.print (tool ++ ": created directory " ++ quoted p ++ "\n")
          return 0
        | some e =>
          complain tool ("cannot create directory " ++ quoted p ++ ": " ++ refusal e)
          return 1
      if g.has 'p' then
        let rec each : List String → Run Nat
          | [] => return 0
          | q :: qs => do
            let status ← make q fun s =>
              (s.ensureDir (path q)).mapError fun e =>
                if e = .alreadyExists then (if qs.isEmpty then e else .notDirectory) else e
            if status = 0 then each qs else return status
        if p.isEmpty then make p fun s => s.makeDir ""
        else each ((Path.leading (path p)).map Text.bytewise)
      else make p fun s => s.makeDir (path p)

/-- Make files that are not there. -/
def touch : Utility :=
  withOptions {
    letters := "acfhm", valued := "drt"
    names := [("no-create", 'c'), ("date", 'd'), ("reference", 'r')] } fun tool g => do
    if g.operands.isEmpty then
      complain tool "missing file operand"
      advise tool
      return 1
    else worst g.operands fun p => do
      match ← change fun s => do
          match (← s.find (path p) true).node with
          | some _ => return s
          | none => if g.has 'c' then return s else s.writeContent (path p) (.text "") with
      | none => return 0
      | some e =>
        if g.has 'c' && e = .notFound then return 0
        complain tool ("cannot touch " ++ quoted p ++ ": " ++ refusal e)
        return 1

/-- Make links. A link that is not symbolic is a copy. -/
def ln : Utility :=
  withOptions {
    letters := "bdFfiLnPrsTv", valued := "St"
    names := [("force", 'f'), ("symbolic", 's'), ("no-dereference", 'n'), ("verbose", 'v'),
      ("target-directory", 't'), ("no-target-directory", 'T'), ("relative", 'r')] }
    fun tool g => do
    let link (source target : String) : Run Nat := do
      let wrong (text : String) : Run Nat := do
        complain tool text
        return 1
      let s := (← get).store
      let kind := if g.has 's' then "symbolic link " else "hard link "
      match s.find (path target) false with
      | .error e => wrong ("failed to create " ++ kind ++ quoted target ++ ": " ++ refusal e)
      | .ok ⟨m, there⟩ =>
        if there.isSome && !(g.has 'f' && there ≠ some .directory) then
          wrong ("failed to create " ++ kind ++ quoted target ++ ": " ++ refusal .alreadyExists)
        else if g.has 's' then
          modify fun shell => { shell with store := s.put m (.link (path source)) }
          return 0
        else match s.find (path source) false with
          | .ok ⟨_, some .directory⟩ =>
            wrong (named source ++ ": hard link not allowed for directory")
          | .ok ⟨_, some n⟩ =>
            modify fun shell => { shell with store := s.put m n }
            return 0
          | .ok ⟨_, none⟩ =>
            wrong ("failed to access " ++ quoted source ++ ": " ++ refusal .notFound)
          | .error e => wrong ("failed to access " ++ quoted source ++ ": " ++ refusal e)
    match g.operands, g.value? 't' with
    | [p], none => link p ("./" ++ lastName p)
    | _, _ => withTargets tool g link

/-- The mode that a text asks for: whether files may be executed then. -/
def modeOf (text : String) : Option (Bool → Bool) :=
  let octal := text.toList.all fun c => '0' ≤ c && c ≤ '7'
  if text.isEmpty then none
  else if octal then
    if text.length ≤ 4 then some fun _ => text.toList.any fun c => c.toNat % 2 = 1 else none
  else
    let clause (s : String) : Option (Bool → Bool) :=
      let who := s.toList.takeWhile fun c => c = 'u' || c = 'g' || c = 'o' || c = 'a'
      match s.toList.drop who.length with
      | sign :: what =>
        if (sign = '+' || sign = '-' || sign = '=') && what.all fun c => "rwxXstugo".contains c then
          let runs := what.contains 'x'
          some fun old =>
            if sign = '+' then old || runs
            else if sign = '-' then
              if runs && (who.isEmpty || who.contains 'a' || who.length = 3) then false else old
            else runs
        else none
      | [] => none
    ((text.splitOn ",").mapM clause).map fun fs old => fs.foldl (fun x f => f x) old

/-- Change whether files may be executed. -/
def chmod : Utility := fun tool args =>
  let isMode (s : String) : Bool :=
    s.startsWith "-" && s.length > 1 && (s.toList.drop 1).all fun c => "rwxXst".contains c
  let args := match args.findIdx? isMode with
    | some i => args.take i ++ "--" :: args.drop i
    | none => args
  withOptions {
    letters := "cfRv"
    names := [("changes", 'c'), ("quiet", 'f'), ("recursive", 'R'), ("verbose", 'v')] }
    (fun tool g => do
      match g.operands with
      | [] => lacking tool 1
      | [mode] => lackingAfter tool mode 1
      | mode :: files =>
        match modeOf mode with
        | none =>
          complain tool ("invalid mode: " ++ cited mode)
          advise tool
          return 1
        | some f =>
          let apply (s : Store) (l : Location) : Store :=
            match s.node? l with
            | some (.file content executable) => s.put l (.file content (f executable))
            | _ => s
          worst files fun p => do
            match ← place? true p with
            | .ok ⟨l, some _⟩ =>
              modify fun shell =>
                let all := if g.has 'R' then (shell.store.below l).map fun n => l ++ n.1 else []
                { shell with store := all.foldl apply (apply shell.store l) }
              return 0
            | .ok ⟨_, none⟩ =>
              complain tool ("cannot access " ++ quoted p ++ ": " ++ refusal .notFound)
              return 1
            | .error e =>
              complain tool ("cannot access " ++ quoted p ++ ": " ++ refusal e)
              return 1)
    tool args

/-! ## Looking -/

/-- A name with a sign of what it is. -/
def marked (g : Given) (name : String) (n : Node) : String :=
  let sign := match n with
    | .directory => if g.has 'F' || g.has 'p' then "/" else ""
    | .link _ => if g.has 'F' then "@" else ""
    | .file _ true => if g.has 'F' then "*" else ""
    | _ => ""
  name ++ sign

/-- The entries of a directory that are shown, in order. -/
def entriesOf (g : Given) (s : Store) (l : Location) : List (String × Node) :=
  let all := (s.children l).map fun (name, n) => (Text.bytewise name, n)
  let all := if g.has 'a' then (".", .directory) :: ("..", .directory) :: all else all
  let shown := all.filter fun (name, _) => g.has 'a' || g.has 'A' || !name.startsWith "."
  let sorted := shown.mergeSort fun a b => decide (a.1 ≤ b.1)
  if g.has 'r' then sorted.reverse else sorted

/-- Print what is in directories. -/
def ls : Utility :=
  withOptions {
    letters := "aAbBcCdDfFgGhHiklLmnNopqQrRsStuUvxXZ1!", valued := "ITw", status := 2
    names := [("all", 'a'), ("almost-all", 'A'), ("directory", 'd'), ("classify", 'F'),
      ("recursive", 'R'), ("reverse", 'r'), ("color", '!')]
    optional := "!F" } fun tool g => do
    let s := (← get).store
    let operands := if g.operands.isEmpty then ["."] else g.operands
    let found ← operands.mapM fun p => do
      match s.find (path p) (!g.has 'd' && !g.has 'F' && !g.has 'l'),
          s.find (path p) false with
      | .ok ⟨l, some .directory⟩, _ => return some (p, l, Node.directory)
      | _, .ok ⟨l, some n⟩ => return some (p, l, n)
      | _, .ok ⟨_, none⟩ =>
        complain tool ("cannot access " ++ quoted p ++ ": " ++ refusal .notFound)
        return none
      | _, .error e =>
        complain tool ("cannot access " ++ quoted p ++ ": " ++ refusal e)
        return none
    let status := if found.all Option.isSome then 0 else 2
    let sorted := (found.filterMap id).mergeSort fun a b => decide (a.1 ≤ b.1)
    let sorted := if g.has 'r' then sorted.reverse else sorted
    let isDir (n : Node) : Bool := n = .directory && !g.has 'd'
    let files := sorted.filter fun (_, _, n) => !isDir n
    let dirs := sorted.filter fun (_, _, n) => isDir n
    let rec blocks : (fuel : Nat) → (p : String) → Location → List (String × List String)
      | 0, _, _ => []
      | fuel + 1, p, l =>
        let entries := entriesOf g s l
        (p, entries.map fun (name, n) => marked g name n) ::
          if g.has 'R' then
            entries.flatMap fun (name, n) =>
              if n = .directory && name ≠ "." && name ≠ ".." then
                blocks fuel (p ++ "/" ++ name) (l ++ [Text.assembled name])
              else []
          else []
    let all := dirs.flatMap fun (p, l, _) => blocks 100 p l
    let titled := operands.length > 1 || g.has 'R'
    let front := unlines (files.map fun (p, _, n) => marked g p n)
    let parts := all.map fun (p, names) => (if titled then p ++ ":\n" else "") ++ unlines names
    let parts := if files.isEmpty then parts else front :: parts
    Run.print ("\n".intercalate parts)
    return status

/-- Print where links lead, or the paths without links. -/
def readlink : Utility :=
  withOptions {
    letters := "efmnqsvz"
    names := [("canonicalize", 'f'), ("canonicalize-existing", 'e'),
      ("canonicalize-missing", 'm'), ("no-newline", 'n')] } fun tool g => do
    if g.operands.isEmpty then lacking tool 1
    else
      let ending := if g.has 'n' && g.operands.length = 1 then "" else "\n"
      worst g.operands fun p => do
        let canonical := g.has 'f' || g.has 'e' || g.has 'm'
        match ← place? canonical p with
        | .ok ⟨l, node⟩ =>
          match canonical, node with
          | true, some _ =>
            Run.print (Text.bytewise (Location.path l) ++ ending)
            return 0
          | true, none =>
            if g.has 'e' then return 1
            Run.print (Text.bytewise (Location.path l) ++ ending)
            return 0
          | false, some (.link target) =>
            Run.print (Text.bytewise target ++ ending)
            return 0
          | _, _ => return 1
        | .error _ => return 1

/-- Print the working directory. -/
def pwd : Utility := fun _ _ => do
  Run.print (Text.bytewise (Location.path (← get).store.home) ++ "\n")
  return 0

end Script.Utility

end ShaderVariants
