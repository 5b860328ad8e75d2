import ResourcePruner.Disk.Lookup

/-!
# Changing files

Each operation either changes one file or directory or fails and changes nothing, but for two:
making a directory with those above it makes several, and removing a directory with all that lies in
it empties the directory first and then takes its path once more, which may have led through what is
gone. Links are followed by writing and copying, not by removing and making directories.

An entry refuses no change. Hence a file that can be read can be written by the same path
(`Disk.exists_writeWith_of_read`), and one that stands somewhere can be unlinked
(`Disk.unlink_of_stands`).
-/

namespace ResourcePruner

namespace Disk

/-- A computation on a disk that can fail; what it did before it failed stays done. -/
abbrev Action (α : Type) := ExceptT Error (StateM Disk) α

/-- A change that happens as a whole or not at all, as a computation. -/
def change (f : Disk → Except Error Disk) : Action Unit := do
  match f (← get) with
  | .ok disk => set disk
  | .error error => throw error

/-- A disk with a file at the end of a path, its content made from that of the file already
there. -/
def writeWith (disk : Disk) (path : Path) (content : Option Bytes → Bytes) : Except Error Disk :=
  match disk.reach .newFile path with
  | .found place (.file old) => .ok (disk.put place (.file (content (some old))))
  | .found _ _ => .error ⟨.isDirectory, path⟩
  | .missing directory name => .ok (disk.put (directory ++ [name]) (.file (content none)))
  | .failed code => .error ⟨code, path⟩

/-- A disk with a file of that content at the end of a path. -/
def write (disk : Disk) (path : Path) (content : Bytes) : Except Error Disk :=
  disk.writeWith path fun _ => content

/-- A disk on which a file has some more content at its end. -/
def append (disk : Disk) (path : Path) (content : Bytes) : Except Error Disk :=
  disk.writeWith path fun old => old.getD [] ++ content

/-- A disk with a new directory. -/
def makeDirectory (disk : Disk) (path : Path) : Except Error Disk :=
  match disk.reach .entry path with
  | .found _ _ => .error ⟨.alreadyThere, path⟩
  | .missing directory name => .ok (disk.put (directory ++ [name]) .directory)
  | .failed code => .error ⟨code, path⟩

/-- A disk with a directory that may have been there already. -/
def ensureDirectory (disk : Disk) (path : Path) : Except Error Disk :=
  match disk.makeDirectory path with
  | .ok made => .ok made
  | .error error => do
    let isThere ← disk.leadsTo isDirectoryEntry path
    if error.code ≠ .noEntry && isThere then return disk else throw error

/-- Makes a directory and, where they are missing, the `levels` directories above it. -/
def makeDirectoriesUpTo : (levels : Nat) → Path → Action Unit
  | 0, path => change (·.ensureDirectory path)
  | levels + 1, path => do
    match (← get).ensureDirectory path with
    | .ok disk => set disk
    | .error error =>
      if error.code = .noEntry && path.parent ≠ path then
        makeDirectoriesUpTo levels path.parent
        change (·.ensureDirectory path)
      else
        throw error

/-- Makes a directory and those above it that are missing. -/
def makeDirectories (path : Path) : Action Unit :=
  makeDirectoriesUpTo path.parts.length path

/-- A disk without the file or link at the end of a path. -/
def unlink (disk : Disk) (path : Path) : Except Error Disk :=
  match disk.reach .entry path with
  | .found _ .directory => .error ⟨.isDirectory, path⟩
  | .found place _ => .ok (disk.remove place)
  | .missing _ _ => .error ⟨.noEntry, path⟩
  | .failed code => .error ⟨code, path⟩

/-- A disk without what lies in the directory at the end of a path. -/
def emptyDirectory (disk : Disk) (path : Path) : Except Error Disk := do
  let directory ← disk.openDirectory path
  let without (left : Disk) (entry : Text × Entry) : Disk := left.remove (directory ++ [entry.1])
  return (disk.children directory).foldl without disk

/-- A disk without the directory at the end of a path, in which nothing may lie. -/
def removeDirectory (disk : Disk) (path : Path) : Except Error Disk :=
  match disk.reach .entry path with
  | .found place .directory =>
    if (disk.children place).isEmpty then .ok (disk.remove place) else .error ⟨.notEmpty, path⟩
  | .found _ _ => .error ⟨.notDirectory, path⟩
  | .missing _ _ => .error ⟨.noEntry, path⟩
  | .failed code => .error ⟨code, path⟩

/-- Removes the directory at the end of a path with all that lies in it. The directory is left empty
if its path no longer leads to it then. -/
def removeTree (path : Path) : Action Unit := do
  change (·.emptyDirectory path)
  change (·.removeDirectory path)

/-- Where a copy to a path goes: into a directory it goes under the name of what is copied. -/
def copyTarget (disk : Disk) (source target : Path) : Path :=
  if disk.isDirectory target then target.child source.name else target

/-- A disk on which a file's content has been written to another path. -/
def copy (disk : Disk) (source target : Path) : Except Error Disk := do
  let content ← disk.read source
  match disk.write target content with
  | .ok written => return written
  | .error error =>
    if error.code = .isDirectory && (disk.stat? target).isNone then
      throw ⟨.directoryMissing, target⟩
    else
      throw error

end Disk

end ResourcePruner
