import ResourcePruner.Disk.Exploration
import ResourcePruner.Index.Directories

/-!
# Exploring a project for resource directories

Resource directories are not entered but listed right where they are met, for the directories of
categories in them. One that cannot be listed is reported like any other directory.
-/

namespace ResourcePruner.Index

/-- The directories that hold resources in a directory of the configured name. -/
def categoryDirs (disk : Disk) (settings : IndexSettings) (directory : Path) :
    Except Disk.Error (Disk.Findings DefinitionDir) := do
  match ← disk.listable directory with
  | .error error => return .refusal error
  | .ok place =>
    let found := (categoryDirsIn disk settings place).filterMap fun name =>
      (stemOf? name).map fun stem => ⟨stem, directory.child name⟩
    return ⟨found, []⟩

/-- Directories that hold resources are sought outside skipped directories. -/
def definitionAim (disk : Disk) (settings : IndexSettings) : Disk.Aim DefinitionDir where
  enters name := !Disk.isSkipped settings.skippedDirNames name && name ≠ settings.resourceDirName
  take path place := do
    let resourceDirs := (disk.children place).filter fun (name, entry) =>
      isResourceDir settings name entry
    return .join (← resourceDirs.mapM fun (name, _) => categoryDirs disk settings (path.child name))

/-- The directories that hold resources below a path, and the directories that could not be
listed. -/
def exploreDefinitionDirs (disk : Disk) (settings : IndexSettings) (root : Path) :
    Except Disk.Error (Disk.Findings DefinitionDir) :=
  disk.explore (definitionAim disk settings) root

end ResourcePruner.Index
