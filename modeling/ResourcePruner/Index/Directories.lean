import ResourcePruner.Config.Basic
import ResourcePruner.Category
import ResourcePruner.Disk.Walk

/-!
# Resource directories

Inside every directory of the configured name, those subdirectories hold resources whose name begins
with the stem of a category, such as `values-fr`. They are looked for in the whole project tree;
resource directories themselves are not searched for further ones.

`Index.definitionDirs` tells the directories from the tree at once, `Index.exploreDefinitionDirs`
finds them by listing one directory after another. They agree where the paths of all directories
below the root can be looked up (`Index.exploreDefinitionDirs_eq`).
-/

namespace ResourcePruner.Index

/-- A directory that holds resources, and the stem that its name begins with. -/
structure DefinitionDir where
  stem : Text
  path : Path
  deriving DecidableEq

/-- The stem of a category that a directory's name begins with. -/
def stemOf? (name : Text) : Option Text :=
  Category.directoryStems.find? (·.isPrefixOf name)

/-- The names of the directories that hold resources in a directory. -/
def categoryDirsIn (disk : Disk) (settings : IndexSettings) (place : Place) : List Text :=
  ((disk.children place).filter fun (name, entry) =>
    entry = .directory && !Disk.isSkipped settings.skippedDirNames name &&
      (stemOf? name).isSome).map Prod.fst

/-- Whether an entry of a directory is one that holds resource directories. -/
def isResourceDir (settings : IndexSettings) (name : Text) (entry : Entry) : Bool :=
  entry = .directory && !Disk.isSkipped settings.skippedDirNames name &&
    name = settings.resourceDirName

/-- The directories that hold resources one level below those of the configured name in a directory,
by relative path. -/
def definitionDirsIn (disk : Disk) (settings : IndexSettings) (place : Place) : List (List Text) :=
  (disk.children place).flatMap fun (name, entry) =>
    if isResourceDir settings name entry then
      (categoryDirsIn disk settings (place ++ [name])).map fun inner => [name, inner]
    else
      []

/-- The directories that hold resources below a place, by relative path. -/
def definitionDirsBelow (disk : Disk) (settings : IndexSettings) (place : Place) :
    List (List Text) :=
  disk.preorder
    (fun name =>
      !Disk.isSkipped settings.skippedDirNames name && name ≠ settings.resourceDirName)
    (definitionDirsIn disk settings) disk.depthBound place

/-- The directories that hold resources below a path. -/
def definitionDirs (disk : Disk) (settings : IndexSettings) (root : Path) :
    Except Disk.Error (List DefinitionDir) :=
  (disk.openDirectory root).map fun place =>
    (definitionDirsBelow disk settings place).filterMap fun names =>
      (stemOf? (names.getLastD [])).map fun stem => ⟨stem, Disk.descend root names⟩

end ResourcePruner.Index
