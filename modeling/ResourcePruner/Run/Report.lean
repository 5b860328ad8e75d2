import ResourcePruner.Removal
import ResourcePruner.Usage.Scan

/-!
# Reports

What a run reports: for each of its rounds what was found, unused, removed and left, and for the
whole run the totals and the warnings.
-/

namespace ResourcePruner

-- Counts are added up from the zero that the numbers come with, whatever else is imported.
attribute [local instance (high)] Zero.ofOfNat0

/-- What one round has found and done. -/
structure RoundReport where
  /-- The number that the caller gives the round. -/
  number : Int
  /-- How many resources of each category the round found. -/
  found : List (Category × Nat)
  /-- The names without a reference, for each category that has any. -/
  unused : List (Category × List Text)
  removed : List (Category × Nat)
  failed : List (Category × Nat)
  deletedFiles : List Path
  scan : Usage.ScanStats
  /-- The count of every resource; only a round that removes nothing on purpose reports it. -/
  usage : List (Category × List (Text × Nat))

/-- The sum of a table of counts. -/
def totalOf (counts : List (Category × Nat)) : Nat :=
  (counts.map Prod.snd).sum

namespace RoundReport

/-- How many resources the round removed. -/
def removedCount (report : RoundReport) : Nat :=
  totalOf report.removed

/-- How many resources the round found without a reference. -/
def unusedCount (report : RoundReport) : Nat :=
  (report.unused.map fun entry => entry.2.length).sum

end RoundReport

/-- What a run has done. -/
structure Report where
  runId : Text
  dryRun : Bool
  rounds : List RoundReport
  totalRemoved : Nat
  /-- How many resources were removed, for each category that has any. -/
  removedByCategory : List (Category × Nat)
  deletedFiles : List Path
  backupDir : Path
  warnings : List Text

/-! ## Reports as values -/

/-- A table of counts as an object. -/
def countsJson (counts : List (Category × Nat)) : Json :=
  .obj (counts.map fun (category, n) => (category.key, .int n))

/-- Paths as a list of texts. -/
def pathsJson (paths : List Path) : Json :=
  Json.texts (paths.map Path.text)

namespace RoundReport

/-- A round's report as a value. -/
def toJson (report : RoundReport) : Json :=
  .obj
    [("round", .int report.number),
      ("found", countsJson report.found),
      ("unused", .obj (report.unused.map fun (category, names) =>
        (category.key, Json.texts names))),
      ("removed", countsJson report.removed),
      ("failed", countsJson report.failed),
      ("deleted_files", pathsJson report.deletedFiles),
      ("scan", .obj
        [("files_scanned", .int report.scan.filesScanned),
          ("files_skipped", .int report.scan.filesSkipped),
          ("lines_scanned", .int report.scan.linesScanned),
          ("references", .int report.scan.references)]),
      ("usage", .obj (report.usage.map fun (category, names) =>
        (category.key, .obj (names.map fun (name, uses) => (name, .int uses)))))]

end RoundReport

namespace Report

/-- A run's report as a value. -/
def toJson (report : Report) : Json :=
  .obj
    [("run_id", .str report.runId),
      ("dry_run", .bool report.dryRun),
      ("total_removed", .int report.totalRemoved),
      ("removed_by_category", countsJson report.removedByCategory),
      ("deleted_files", pathsJson report.deletedFiles),
      ("backup_dir", .str report.backupDir.text),
      ("rounds", .arr (report.rounds.map RoundReport.toJson)),
      ("warnings", Json.texts report.warnings)]

end Report

end ResourcePruner
