import ResourcePruner.Disk.Resolve

/-!
# Where backups go

A file of the project is backed up under the backup directory by the names that lead to it from the
project root. Only what lies strictly below the root has such a place.
-/

namespace ResourcePruner.Backup

/-- Why a backup is refused. -/
inductive Refusal where
  | outsideProject
  | projectRoot
  /-- The backup path leads to something other than a directory. -/
  | notDirectory (path : Path)
  /-- The backup directory holds files but was not made by a run. -/
  | foreign (path : Path)
  deriving DecidableEq

/-- What a refusal says. -/
def Refusal.reason : Refusal → Text
  | outsideProject => "Path is outside project_root."
  | projectRoot => "Path is the project root itself."
  | notDirectory path => "Backup path " ++ path.text ++ " is not a directory."
  | foreign path => "Backup directory " ++ path.text ++ " was not created by resprune."

/-- What a refusal advises. -/
def Refusal.hint : Refusal → Text
  | outsideProject => "Only files under the project root can be backed up and removed."
  | projectRoot => "Back up individual resource files, not the project root."
  | notDirectory _ => "Point --backup-dir at a new or empty directory."
  | foreign _ => "Point --backup-dir at a new or empty directory."

/-- The names that lead from the project root to a path below it, both resolved. -/
def relativeTo (root path : Path) : Except Refusal (List Text) :=
  if path.isWithin root then
    match path.parts.drop root.parts.length with
    | [] => .error .projectRoot
    | names => .ok names
  else
    .error .outsideProject

/-- The path of the backup of a resolved path in a directory. -/
def pathOf (root directory path : Path) : Except Refusal Path :=
  (relativeTo root path).map fun names => { directory with parts := directory.parts ++ names }

end ResourcePruner.Backup
