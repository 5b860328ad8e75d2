import ResourcePruner.Session

/-!
# The backup store

A store keeps copies of a project's files in a directory that it marks as its own. Only a directory
with the mark is ever cleared; one that holds anything else is refused.
-/

namespace ResourcePruner.Backup

/-- The backup directory of a project. -/
structure Store where
  /-- The project root, resolved when the store was set up. -/
  projectRoot : Path
  directory : Path

/-- The name of the file that marks a backup directory. -/
def markerName : Text := ".resprune-backup"

/-- What the mark holds. -/
def markerText : Text := "resprune session backup\n"

/-- The path of the backup of a file in a directory, the project root and the file's path being
resolved on the way. -/
def targetIn (directory root path : Path) : Task Path := do
  let resolvedRoot ← Task.resolve root
  let resolved ← Task.resolve path
  match pathOf resolvedRoot directory resolved with
  | .ok target => return target
  | .error refusal => throw (.backup refusal)

namespace Store

/-- The store of a project in a directory. -/
def ofProject (projectRoot directory : Path) : Task Store :=
  return ⟨← Task.resolve projectRoot, directory⟩

/-- The path of the mark. -/
def marker (store : Store) : Path :=
  store.directory.child markerName

/-- Removes the backups of an earlier session and their directory. Says whether anything was
removed; a directory that is missing or empty is left as it is. -/
def clear (store : Store) : Task Bool := do
  let disk ← Task.disk
  let directory := store.directory
  if !(← Task.check (·.isPresent directory)) && !disk.isLink directory then
    return false
  if disk.isLink directory || !disk.isDirectory directory then
    throw (.backup (.notDirectory directory))
  if ← Task.check (·.isFile store.marker) then
    Task.onDisk (Disk.removeTree directory)
    return true
  match disk.openDirectory directory with
  | .ok place =>
    if (disk.children place).isEmpty then return false
    else throw (.backup (.foreign directory))
  | .error error => throw (.disk error)

/-- The path of the backup of a file. -/
def targetFor (store : Store) (path : Path) : Task Path :=
  targetIn store.directory store.projectRoot path

/-- Marks the backup directory, which is made if it is missing. -/
def claim (store : Store) : Task Unit := do
  if ← Task.check (·.isFile store.marker) then
    return
  Task.onDisk (Disk.makeDirectories store.directory)
  Task.changeDisk (·.write store.marker (Utf8.encode markerText))

/-- Copies a file to a path; into a directory it goes under its own name. -/
def copyFile (source target : Path) : Task Unit := do
  let disk ← Task.disk
  let reached := disk.copyTarget source target
  if disk.sameEntry source reached then
    throw (.sameFile source reached (disk.isDirectory target))
  Task.changeDisk (·.copy source reached)

/-- Copies a file of the project into the backup directory, and yields the path of the backup. -/
def archive (store : Store) (path : Path) : Task Path := do
  let target ← store.targetFor path
  store.claim
  Task.onDisk (Disk.makeDirectories target.parent)
  copyFile path target
  return target

end Store

end ResourcePruner.Backup
