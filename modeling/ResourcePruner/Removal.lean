import ResourcePruner.Backup.Store
import ResourcePruner.Definition.Pruning

/-!
# Removing unused resources

One pass removes the resources that no line references: first the inline ones, by pruning their
definition files, then those that are files, each of which is backed up before it is deleted. Every
unused resource ends up either removed or failed, and leaves the catalog; the counts of the others
start again from zero.

An inline resource is removed when all of its files were pruned of it. A resource of several
files fails at the first file that cannot be backed up and deleted.

Every step may fail, and a pass goes on whichever does. Two of the failures are told of here and do
not come about on a `Disk`, whose entries refuse no change: that a definition file which has just
been read cannot be written (`WRITE_FAILED`), and that a file which has just been copied cannot be
unlinked (`DELETE_FAILED`).
-/

namespace ResourcePruner

/-- What a pass has done. -/
structure Removal where
  removed : List Resource
  failed : List Resource
  deletedFiles : List Path
  prunedFiles : List Path
  /-- The backups made. -/
  archived : List Path

namespace Removal

/-- What a pass that removes nothing has done. -/
def nothing : Removal := ⟨[], [], [], [], []⟩

/-- The names of a category among resources. -/
def namesOf (resources : List Resource) (category : Category) : List Text :=
  (resources.filter (·.category = category)).map (·.name)

/-- How many resources of each category there are, for each category that has any. -/
def countsOf (resources : List Resource) : List (Category × Nat) :=
  Category.all.filterMap fun category =>
    match namesOf resources category with
    | [] => none
    | names => some (category, names.length)

/-- The data that name a resource in an event. -/
def resourceData (resource : Resource) : List (Text × Datum) :=
  [("category", .text resource.category.key), ("name", .text resource.name)]

/-- The labels of resources in a message. -/
def labels (resources : List Resource) : Text :=
  ((resources.map Resource.label).intersperse (", " : Text)).flatten

/-- Warns that a definition file stays as it is. -/
def warnDefinition (code message : Text) (path : Path) : Task Unit :=
  Task.warn "rewrite" code message [("path", .path path)]

/-- Writes what a pruning leaves of a definition file, if it leaves anything. Yields the resources
taken out, or nothing when the file stays as it is. -/
def writePruned (path : Path) (pruning : Pruning) : Task (Option (List Resource)) := do
  if !pruning.shouldWrite then
    if 0 < pruning.droppedCount then
      warnDefinition "WOULD_EMPTY_FILE"
        ("Left definition file " ++ path.text ++ " untouched; removal would empty it.") path
    return none
  match ← Task.attempt Failure.isRefusal (Task.writeText path pruning.text) with
  | .error failure =>
    warnDefinition "WRITE_FAILED"
      ("Could not rewrite definition file " ++ path.text ++ ": " ++ failure.message) path
    return none
  | .ok _ =>
    Task.succeed "rewrite"
      [("path", .path path), ("removed_lines", .nat pruning.droppedCount),
        ("removed", .list (pruning.removed.map fun resource => .text resource.label))]
    return some pruning.removed

/-- Takes the doomed resources out of a definition file of that text; a file in which one of them
never ends stays as it is. -/
def pruneText (path : Path) (doomed : Doomed) (text : Text) : Task (Option (List Resource)) := do
  let pruning := Pruning.ofLines doomed (Text.linesWithEnds text)
  if let some block := pruning.unterminated then
    warnDefinition "UNTERMINATED_BLOCK"
      ("Left definition file " ++ path.text ++ " untouched; '" ++ block.name ++
        "' never reaches " ++ block.closingTag ++ ".")
      path
    return none
  if !pruning.shared.isEmpty then
    warnDefinition "SHARED_LINE"
      ("Kept " ++ labels pruning.shared ++ " in " ++ path.text ++
        "; the declaration shares its lines with one still in use.")
      path
  writePruned path pruning

/-- Takes the doomed resources out of a definition file. Yields the resources taken out, or nothing
when the file stays as it is. -/
def pruneFile (path : Path) (doomed : Doomed) : Task (Option (List Resource)) := do
  let unreadable (why : Text) : Task (Option (List Resource)) := do
    warnDefinition "UNREADABLE_FILE"
      ("Left definition file " ++ path.text ++ " untouched; it could not be read: " ++ why) path
    return none
  match ← Task.refusable ((← Task.disk).read path) with
  | .error error => unreadable error.message
  | .ok bytes =>
    match Utf8.decode? bytes with
    | .error fault => unreadable fault.message
    | .ok text => pruneText path doomed text

/-- The resources among the given ones that a file belongs to. -/
def doomedIn (entries : List (Resource × Record)) (path : Path) : Doomed := fun resource =>
  entries.any fun entry => entry.1 = resource && entry.2.files.contains path

/-- Takes those of the given resources that a file belongs to out of it. A file that is changed is
added, with the resources taken out. -/
def pruneNext (entries : List (Resource × Record)) (pruned : List (Path × List Resource))
    (path : Path) : Task (List (Path × List Resource)) := do
  match ← pruneFile path (doomedIn entries path) with
  | none => return pruned
  | some removed => return pruned ++ [(path, removed)]

/-- Takes the given resources out of each of their files, in the order of the paths. Yields the
files changed, with the resources taken out of each. -/
def pruneFiles (entries : List (Resource × Record)) : Task (List (Path × List Resource)) :=
  (Path.sorted (entries.flatMap (·.2.files))).foldlM (pruneNext entries) []

/-- Whether a resource was taken out of each of its files, and has any. -/
def isTakenOut (pruned : List (Path × List Resource)) (resource : Resource)
    (files : List Path) : Bool :=
  !files.isEmpty && files.all fun file =>
    pruned.any fun (path, removed) => path = file && removed.contains resource

/-- Enters an inline resource as removed or failed. -/
def settleInline (pruned : List (Path × List Resource)) (removal : Removal)
    (entry : Resource × Record) : Task Removal := do
  let (resource, record) := entry
  let data : List (Text × Datum) := ("paths", .paths record.files) :: resourceData resource
  if isTakenOut pruned resource record.files then
    Task.succeed "remove" data
    return { removal with removed := removal.removed ++ [resource] }
  else
    discard (Task.record "remove" false (some "REWRITE_INCOMPLETE") data)
    return { removal with failed := removal.failed ++ [resource] }

/-- Whether a failure is one of files or backups, which keeps a file where it is. -/
def keepsFile : Failure → Bool
  | .sameFile _ _ _ | .backup _ | .unresolved .noHome => true
  | failure => failure.isRefusal

/-- Enters a resource as failed because one of its files stays. -/
def failFile (resource : Resource) (path : Path) (code : Text) (failure : Failure)
    (removal : Removal) : Task Removal := do
  Task.warn "remove" code
    ("Kept " ++ resource.category.key ++ " '" ++ resource.name ++ "': " ++ path.text ++
      " could not be removed (" ++ failure.message ++ ").")
    (("path", .path path) :: resourceData resource)
  return { removal with failed := removal.failed ++ [resource] }

/-- Backs up and deletes the files of a resource one after another, and enters it as removed; at the
first file that stays, enters it as failed. -/
def removeFiles (store : Backup.Store) (resource : Resource) (record : Record) :
    (left : List Path) → Removal → Task Removal
  | [], removal => do
    Task.succeed "remove" (("paths", .paths record.files) :: resourceData resource)
    return { removal with removed := removal.removed ++ [resource] }
  | path :: left, removal => do
    match ← Task.attempt keepsFile (store.archive path) with
    | .error failure => failFile resource path "BACKUP_FAILED" failure removal
    | .ok backup =>
      let removal := { removal with archived := removal.archived ++ [backup] }
      match ← Task.attempt keepsFile (Task.changeDisk (·.unlink path)) with
      | .error failure => failFile resource path "DELETE_FAILED" failure removal
      | .ok _ =>
        Task.succeed "delete_file" [("path", .path path), ("backup", .path backup)]
        removeFiles store resource record left
          { removal with deletedFiles := removal.deletedFiles ++ [path] }

/-- Removes a resource by deleting its files. -/
def removeNext (store : Backup.Store) (removal : Removal) (entry : Resource × Record) :
    Task Removal :=
  removeFiles store entry.1 entry.2 entry.2.files removal

/-- Removes the unused resources of the session's catalog. -/
def removeUnused (store : Backup.Store) : Task Removal := do
  let unused := (← get).catalog.unused
  let inline := unused.filter fun entry => entry.1.category.isInline
  let wholeFile := unused.filter fun entry => !entry.1.category.isInline
  let pruned ← pruneFiles inline
  let settled ←
    inline.foldlM (settleInline pruned)
      { nothing with prunedFiles := pruned.map Prod.fst }
  let removal ← wholeFile.foldlM (removeNext store) settled
  modify fun session =>
    { session with catalog := (session.catalog.evictAll (unused.map Prod.fst)).resetUses }
  return removal

end Removal

end ResourcePruner
