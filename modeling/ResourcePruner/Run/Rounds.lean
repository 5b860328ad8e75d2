import ResourcePruner.Run.Report

/-!
# Rounds

A round indexes the project, counts the references and removes what is unused. Removing a resource
can leave another one without references, so rounds are repeated until one of them removes nothing.
-/

namespace ResourcePruner.Run

-- Counts are added up from the zero that the numbers come with, whatever else is imported.
attribute [local instance (high)] Zero.ofOfNat0

/-- A project that is set up for a run. -/
structure Project where
  config : Config
  /-- Where the backups of its files go. -/
  store : Backup.Store

/-- The extra roots that exist; each of the others is passed over with a warning. -/
def existingRoots (roots : List Path) : Task (List Path) :=
  roots.filterM fun root => do
    if ← Task.check (·.isPresent root) then
      return true
    Task.warn "scan_skip" "MISSING_ROOT"
      ("Extra search root " ++ root.text ++ " does not exist; skipped.") [("path", .path root)]
    return false

/-- The roots to search: the project root and the extra roots that exist. They are determined once
for a session. -/
def searchRoots (config : Config) : Task (List Path) := do
  match (← get).roots with
  | some roots => return roots
  | none =>
    let extra ← existingRoots (config.extraRoots)
    let roots := config.projectRoot :: extra
    modify fun session => { session with roots := some roots }
    return roots

/-- The names without a reference, for each category that has any. -/
def unusedTable (catalog : Catalog) : List (Category × List Text) :=
  Category.all.filterMap fun category =>
    match catalog.unusedNames category with
    | [] => none
    | names => some (category, names)

/-- A table of counts as data of an event. -/
def countsData (counts : List (Category × Nat)) : Datum :=
  .object (counts.map fun (category, n) => (category.key, .nat n))

/-- Runs one round, which removes nothing if it is dry. -/
def round (project : Project) (number : Int) (dryRun : Bool) : Task RoundReport := do
  let config := project.config
  let catalog ← Index.build config.index config.projectRoot
  modify fun session => { session with catalog }
  let found := catalog.counts
  let roots ← searchRoots config
  let stats ← Usage.scan config.scan roots (some config.manifest)
  let counted := (← get).catalog
  let removal ← if dryRun then pure Removal.nothing else Removal.removeUnused project.store
  let report : RoundReport :=
    { number
      found
      unused := unusedTable counted
      removed := Removal.countsOf removal.removed
      failed := Removal.countsOf removal.failed
      deletedFiles := removal.deletedFiles
      scan := stats
      usage := if dryRun then counted.usage else [] }
  Task.succeed "round"
    [("number", .json (.int number)), ("found", countsData found),
      ("unused", .nat report.unusedCount), ("removed", .nat report.removedCount),
      ("failed", .nat (totalOf report.failed))]
  return report

/-- Runs rounds from the given number on until one removes nothing, or a single one if it is dry; at
most `fuel` rounds. -/
def roundsFrom (project : Project) (dryRun : Bool) : (fuel number : Nat) → Task (List RoundReport)
  | 0, _ => throw .endless
  | fuel + 1, number => do
    Task.poll (.beforeRound number)
    let report ← round project number dryRun
    if dryRun || report.removedCount = 0 then
      return [report]
    else
      return report :: (← roundsFrom project dryRun fuel (number + 1))

/-- The number of bytes of an entry. -/
def entrySize : Entry → Nat
  | .file content => content.length
  | _ => 0

/-- More rounds than a project on the disk can need: every round but the last takes at least a byte
or a file from it. -/
def roundLimit (disk : Disk) : Nat :=
  (disk.contents.map fun entry => entrySize entry.2 + 1).sum + 2

/-- The sum over rounds of the counts of each category, for each category that has any. -/
def removedByCategory (rounds : List RoundReport) : List (Category × Nat) :=
  Category.all.filterMap fun category =>
    let count := (rounds.map fun report => (report.removed.lookup category).getD 0).sum
    if count = 0 then none else some (category, count)

/-- What a run begins with: it asks for the manifest and, unless it is dry, removes the backups of
an earlier one. -/
def prepare (project : Project) (dryRun : Bool) : Task Unit := do
  let manifest := project.config.manifest
  if !(← Task.check (·.isFile manifest)) then
    throw (.manifestMissing manifest)
  if !dryRun then
    if ← project.store.clear then
      Task.succeed "backup_cleared" [("path", .path project.store.directory)]

/-- Prunes a project until nothing is left to remove; a dry run reports one round and removes
nothing. -/
def run (project : Project) (dryRun : Bool) : Task Report := do
  prepare project dryRun
  let rounds ← roundsFrom project dryRun (roundLimit (← Task.disk)) 1
  let productive := rounds.filter fun report => 0 < report.removedCount
  let removed := removedByCategory productive
  let totalRemoved := totalOf removed
  Task.succeed "run"
    [("dry_run", .json (.bool dryRun)), ("rounds", .nat rounds.length),
      ("total_removed", .nat totalRemoved)]
  let trail := (← get).trail
  return {
    runId := trail.runId
    dryRun
    rounds
    totalRemoved
    removedByCategory := removed
    deletedFiles := productive.flatMap (·.deletedFiles)
    backupDir := project.store.directory
    warnings := trail.warnings }

end ResourcePruner.Run
