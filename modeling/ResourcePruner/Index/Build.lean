import ResourcePruner.Definition.OpenBlock
import ResourcePruner.Index.Directories
import ResourcePruner.Index.Names
import ResourcePruner.Session

/-!
# Building the catalog

The catalog of a project holds the resources declared on the lines of its definition files, and the
files of its layout and drawable directories. Each record lists its files in the order of the walk.
What cannot be read is passed over with a warning.

Directories and files are found by walks (`Index.definitionDirs`, `Disk.walkFiles`), so that a
warning of a directory concerns the root of a walk. A directory further down that is too deep for
its path to be looked up goes without: a warning tells of the definition files in it instead, and a
layout or drawable file in it, which is known by its name alone, is entered.
`Index.exploreDefinitionDirs` and `Disk.exploreFiles` list one directory after another and report
such a directory.
-/

namespace ResourcePruner.Index

/-- A file's lines as they are searched: bytes that are no character replaced, and every way of
ending a line taken for a line feed first. -/
def searchedLines (bytes : Bytes) : List Text :=
  Text.lines (Text.withUniformBreaks (Utf8.decodeReplacing bytes))

/-- The resources declared in the content of a definition file, in order. -/
def declaredIn (bytes : Bytes) : List Resource :=
  (searchedLines bytes).flatMap Declaration.resourcesOn

/-- Warns of a directory that cannot be listed. -/
def warnDirectory (error : Disk.Error) : Task Unit :=
  Task.warn "index_skip" "UNREADABLE_DIRECTORY"
    ("Treated unreadable directory " ++ error.path.text ++ " as empty: " ++ error.message)
    [("path", .path error.path)]

/-- Adds the resources that a definition file declares to a catalog, and says whether the file could
be read. -/
def addDefinitionFile (catalog : Catalog) (path : Path) : Task (Bool × Catalog) := do
  match ← Task.refusable ((← Task.disk).read path) with
  | .ok bytes =>
    return (true, (declaredIn bytes).foldl (fun c resource => c.declare resource path) catalog)
  | .error error =>
    Task.warn "index_skip" "UNREADABLE_FILE"
      ("Skipped unreadable definition file " ++ path.text ++ ": " ++ error.message)
      [("path", .path path)]
    return (false, catalog)

/-- The files below a directory that are not left aside. -/
def walk (settings : IndexSettings) (directory : Path) : Task (List Path) := do
  match ← Task.refusable ((← Task.disk).walkFiles directory settings.skippedDirNames) with
  | .ok files => return files.filter fun file => !settings.excludedFiles.contains file.name
  | .error error =>
    warnDirectory error
    return []

/-- Whether a file of a definition directory holds declarations. -/
def isDefinitionFile (path : Path) : Bool :=
  Text.lower path.suffix = definitionExtension

/-- Adds the declarations of the definition files below a directory to a catalog. -/
def addDefinitions (settings : IndexSettings) (catalog : Catalog) (directory : Path) :
    Task Catalog := do
  ((← walk settings directory).filter isDefinitionFile).foldlM
    (fun catalog file => do return (← addDefinitionFile catalog file).2) catalog

/-- Adds the files below a directory that are resources themselves to a catalog. -/
def addFiles (settings : IndexSettings) (catalog : Catalog) (directory : Path)
    (category : Category) (extensions : List Text) : Task Catalog := do
  return (← walk settings directory).foldl
    (fun catalog file =>
      match derivedName? file.name extensions with
      | none => catalog
      | some name => catalog.declare ⟨category, name⟩ file)
    catalog

/-- Adds the resources of a directory to a catalog. -/
def addDirectory (settings : IndexSettings) (catalog : Catalog) (directory : DefinitionDir) :
    Task Catalog :=
  if directory.stem = Category.directoryStem .layout then
    addFiles settings catalog directory.path .layout [definitionExtension]
  else if directory.stem = Category.directoryStem .drawable then
    addFiles settings catalog directory.path .drawable (drawableExtensions settings)
  else
    addDefinitions settings catalog directory.path

/-- The catalog of a project. -/
def build (settings : IndexSettings) (root : Path) : Task Catalog := do
  match ← Task.refusable (definitionDirs (← Task.disk) settings root) with
  | .ok directories => directories.foldlM (addDirectory settings) .empty
  | .error error =>
    warnDirectory error
    return .empty

end ResourcePruner.Index
