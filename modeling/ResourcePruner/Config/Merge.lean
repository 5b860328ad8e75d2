import ResourcePruner.Config.Basic
import ResourcePruner.Config.Setting
import ResourcePruner.Text.Blank

/-!
# Merging configurations

The values of the configuration file stand in place of the defaults, and the caller's overrides in
place of both. `Config.merge` checks every value on the way and resolves every path but the project
root, which it is given resolved; a configuration that it yields keeps the backup directory outside
the project root and every search root outside the backup directory, as the resolved paths are
spelled.

Values are checked in a fixed order, and the first fault is the one reported.
-/

namespace ResourcePruner

namespace Config

/-- Why a configuration is refused. -/
inductive Fault where
  | notTable (table : Text)
  | notList (table field : Text)
  | notTexts (table field : Text)
  | notExtension (table field : Text)
  | blank (table field : Text)
  /-- Some extension stands for markup and for code. -/
  | sharedExtension
  | backupInProject
  /-- The backup directory holds a search root. -/
  | backupHoldsRoot (root : Path)
  | unresolved (fault : Disk.ResolveFault)
  deriving DecidableEq

open Setting (Fields)

/-- The fields of a section; a section that is missing has none. -/
def sectionOf (payload : Fields) (name : Text) : Except Fault Fields :=
  match Setting.find? name payload with
  | none => .ok []
  | some (.table fields) => .ok fields
  | some _ => .error (.notTable name)

/-- A value that has to be a text with more than blanks in it. -/
def nonBlank (table field : Text) : Setting → Except Fault Text
  | .text value => if Text.trim value = [] then .error (.blank table field) else .ok value
  | _ => .error (.blank table field)

/-- The text of an item that has to be one. -/
def itemText (table field : Text) : Setting → Except Fault Text
  | .text value => .ok value
  | _ => .error (.notTexts table field)

/-- A value that has to be a list of texts. -/
def textList (table field : Text) : Setting → Except Fault (List Text)
  | .list items => items.mapM (itemText table field)
  | _ => .error (.notList table field)

/-- An extension in small letters; it has to begin with a dot and go on after it. -/
def extension (table field : Text) (item : Text) : Except Fault Text :=
  if item.head? = some '.' && 2 ≤ item.length then .ok (Text.lower item)
  else .error (.notExtension table field)

/-- A value that has to be a list of extensions. -/
def extensionList (table field : Text) (value : Setting) : Except Fault (List Text) := do
  (← textList table field value).mapM (extension table field)

/-- A field as `read` takes it, or what stands in for it when it is missing. -/
def fieldOr {α : Type} (read : Text → Text → Setting → Except Fault α) (table : Text)
    (fields : Fields) (name : Text) (absent : α) : Except Fault α :=
  match Setting.find? name fields with
  | none => .ok absent
  | some value => read table name value

/-- The resolved path of a path. -/
def resolved (disk : Disk) (path : Path) : Except Fault Path :=
  (disk.resolve path).mapError .unresolved

/-- Roots resolved, each once, relative ones being taken from the project root. -/
def resolveRoots (disk : Disk) (projectRoot : Path) (roots : List Path) :
    Except Fault (List Path) :=
  (roots.mapM fun root => resolved disk (projectRoot.join root)).map List.eraseDups

/-- A configuration before its backup and data directories are resolved. -/
structure Draft where
  projectRoot : Path
  dataDir : Path
  backupDir : Path
  manifestPath : Text
  index : IndexSettings
  scan : ScanSettings
  extraRoots : List Path

/-- The configuration of a project that gives none; the backup directory lies among the temporary
files. -/
def Draft.default (projectRoot temporary : Path) : Draft where
  projectRoot := projectRoot
  dataDir := projectRoot.child dataDirName
  backupDir := temporary.child backupDirName
  manifestPath := defaultManifestPath
  index := .default
  scan := .default
  extraRoots := []

/-- Puts the values of a configuration file in place of a draft's. -/
def Draft.read (disk : Disk) (base : Draft) (payload : Fields) : Except Fault Draft := do
  let project := "project"
  let index := "index"
  let scan := "scan"
  let projectFields ← sectionOf payload project
  let indexFields ← sectionOf payload index
  let scanFields ← sectionOf payload scan
  let manifestPath ← fieldOr nonBlank project projectFields "manifest_path" base.manifestPath
  let backupDir ←
    fieldOr
      (fun s f v => (nonBlank s f v).map fun text => base.projectRoot.join (Path.ofText text))
      project projectFields "backup_dir" base.backupDir
  let resourceDirName ←
    fieldOr nonBlank index indexFields "resource_dir_name" base.index.resourceDirName
  let skippedDirNames ←
    fieldOr textList index indexFields "skip_dir_names" base.index.skippedDirNames
  let excludedFiles ← fieldOr textList index indexFields "exclude_files" base.index.excludedFiles
  let imageExtensions ←
    fieldOr extensionList index indexFields "image_extensions" base.index.imageExtensions
  let markupExtensions ←
    fieldOr extensionList scan scanFields "markup_extensions" base.scan.markupExtensions
  let codeExtensions ←
    fieldOr extensionList scan scanFields "code_extensions" base.scan.codeExtensions
  if markupExtensions.any codeExtensions.contains then
    throw .sharedExtension
  let extraRoots ←
    fieldOr
      (fun s f v => do resolveRoots disk base.projectRoot ((← textList s f v).map Path.ofText))
      scan scanFields "extra_roots" base.extraRoots
  return {
    projectRoot := base.projectRoot
    dataDir := base.dataDir
    backupDir
    manifestPath
    index := { resourceDirName, skippedDirNames, excludedFiles, imageExtensions }
    scan := { markupExtensions, codeExtensions, skippedDirNames }
    extraRoots }

/-- Puts the overrides in place of a draft's values, resolves its paths, and checks that backups are
kept apart from the trees that are searched. -/
def Draft.finish (disk : Disk) (draft : Draft) (overrides : Overrides) : Except Fault Config := do
  let manifestPath ←
    match overrides.manifestPath with
    | none => pure draft.manifestPath
    | some path => nonBlank "overrides" "manifest_path" (.text path)
  let extraRoots ←
    if overrides.extraRoots.isEmpty then
      pure draft.extraRoots
    else
      resolveRoots disk draft.projectRoot (draft.extraRoots ++ overrides.extraRoots)
  let backupDir ← resolved disk (overrides.backupDir.getD draft.backupDir)
  if backupDir.isWithin draft.projectRoot then
    throw .backupInProject
  match (draft.projectRoot :: extraRoots).find? fun root => root.isWithin backupDir with
  | some root => throw (.backupHoldsRoot root)
  | none => pure ()
  let dataDir ← resolved disk (overrides.dataDir.getD draft.dataDir)
  return {
    projectRoot := draft.projectRoot
    dataDir
    backupDir
    manifestPath
    index := draft.index
    scan := draft.scan
    extraRoots }

/-- The configuration of a project from the defaults, the values of its configuration file and the
overrides. -/
def merge (disk : Disk) (projectRoot temporary : Path) (payload : Fields)
    (overrides : Overrides) : Except Fault Config := do
  (← Draft.read disk (.default projectRoot temporary) payload).finish disk overrides

/-- What is said of a field of a table. -/
def fieldMessage (table field : Text) (demand : Text) : Text :=
  "Config field '" ++ table ++ "." ++ field ++ "' " ++ demand

/-- What a refused configuration is told. -/
def Fault.message : Fault → Text
  | notTable table => "Config section '" ++ table ++ "' must be a table."
  | notList table field => fieldMessage table field "must be a list of strings."
  | notTexts table field => fieldMessage table field "must contain only strings."
  | notExtension table field => fieldMessage table field "entries must look like '.ext'."
  | blank table field => fieldMessage table field "must be a non-empty string."
  | sharedExtension =>
    "Config fields 'scan.markup_extensions' and 'scan.code_extensions' must not overlap."
  | backupInProject =>
    "Config field 'project.backup_dir' must be outside the project root; " ++
      "backups inside it would be indexed and scanned."
  | backupHoldsRoot root =>
    "Config field 'project.backup_dir' must not contain the project root or a search root (" ++
      root.text ++ "); it is cleared at the start of each run."
  | unresolved fault => fault.message

end Config

end ResourcePruner
