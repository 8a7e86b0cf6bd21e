import ShaderVariants.CommandLine
import ShaderVariants.Script.Execution

/-!
# The program

The working directory is read into a store, the command is run on it, and what has changed is
written back. The tools are scripts: a file is taken to be executable if it names an interpreter.
-/

namespace ShaderVariants.Program

/-- How deep directories are read. -/
def depth : Nat :=
  32

/-- The content names an interpreter in its first line. -/
def isScript : Content → Bool
  | .text s => s.startsWith "#!"
  | .binary _ => false

/-- The bytes of a content. -/
def bytes : Content → ByteArray
  | .text s => s.toUTF8
  | .binary bytes => ⟨bytes.toArray⟩

/-- A store with all that is below the directory at a location. -/
def gather : (depth : Nat) → Location → Store → IO Store
  | 0, _, s => pure s
  | depth + 1, dir, s => do
    let path ← IO.FS.realPath (Location.path dir)
    (← path.readDir).foldlM (fun s entry => do
      let there := dir ++ [entry.fileName]
      match (← entry.path.metadata).type with
      | .dir => gather depth there (s.put there .directory)
      | .file =>
        let content := Content.ofBytes (← IO.FS.readBinFile entry.path).toList
        return s.put there (.file content (isScript content))
      | _ => return s) s

/-- Whether all may run the file, and its owner change it. -/
def rights (executable : Bool) : IO.FileRight :=
  { user := ⟨true, true, executable⟩, group := ⟨true, false, executable⟩,
    other := ⟨true, false, executable⟩ }

/-- Remove what is only in the old store, the innermost first, and make what is only in the new
one, or is different there. Links are left alone. -/
def settle (old new : Store) : IO Unit := do
  for (l, n) in old.nodes.entries.mergeSort (fun a b => b.1.length ≤ a.1.length) do
    if (new.node? l).isNone then
      match n with
      | .directory => IO.FS.removeDir (Location.path l)
      | .file .. => IO.FS.removeFile (Location.path l)
      | .link _ | .device => pure ()
  for (l, n) in new.nodes.entries do
    if old.node? l ≠ some n then
      match n with
      | .directory => IO.FS.createDirAll (Location.path l)
      | .file content executable =>
        IO.FS.createDirAll (Location.path l.dropLast)
        IO.FS.writeBinFile (Location.path l) (bytes content)
        IO.setAccessRights (Location.path l) (rights executable)
      | .link _ | .device => pure ()

end ShaderVariants.Program

open ShaderVariants in
/-- Run the command in the working directory. -/
def main (arguments : List String) : IO UInt32 := do
  let home : Location := Path.names (← IO.currentDir).toString
  let store ← Program.gather Program.depth home (.ofHome home)
  let ending := CommandLine.run Script.launch arguments store
  Program.settle store ending.store
  IO.print ending.printed.out
  IO.eprint ending.printed.err
  return UInt32.ofNat ending.status
