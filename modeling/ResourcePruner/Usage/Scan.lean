import ResourcePruner.Index.Build
import ResourcePruner.Usage.Lines

/-!
# Scanning files for references

A scan reads the manifest and every file below the search roots whose extension stands for a
dialect. A file is known by the path that it resolves to, so that one reached in several ways is
read once. Before a file is read the caller may stop the scan; what has been counted until then
stays counted.

The files below a root are those of a walk (`Disk.walkFiles`). Those in a directory whose path is
too long to be looked up are met too and cannot be read, so that each is told of where an
exploration would tell of the directory.
-/

namespace ResourcePruner.Usage

/-- The dialect of a file by its extension, none when the file is not searched. -/
def dialectOf? (settings : ScanSettings) (path : Path) : Option Dialect :=
  let suffix := Text.lower path.suffix
  if (settings.markupExtensions.map Text.lower).contains suffix then some .markup
  else if (settings.codeExtensions.map Text.lower).contains suffix then some .code
  else none

/-- What a scan has done. -/
structure ScanStats where
  filesScanned : Nat
  filesSkipped : Nat
  linesScanned : Nat
  references : Nat
  deriving DecidableEq

/-- A scan under way: the resolved paths it has met, and what it has done. -/
structure Progress where
  seen : List Path
  stats : ScanStats

/-- A scan that has done nothing. -/
def Progress.start : Progress := ⟨[], ⟨0, 0, 0, 0⟩⟩

/-- Counts the references on the lines of a file into the session's catalog. -/
def countLines (dialect : Dialect) (table : List TokenGroup) (lines : List Text)
    (stats : ScanStats) : Task ScanStats := do
  let tally := Tally.addLines ⟨(← get).catalog, 0⟩ dialect table lines
  modify fun session => { session with catalog := tally.catalog }
  return {
    stats with
    filesScanned := stats.filesScanned + 1
    linesScanned := stats.linesScanned + lines.length
    references := stats.references + tally.references }

/-- Scans a file unless it has been met before or is of no dialect. -/
def scanFile (settings : ScanSettings) (tables : Dialect → List TokenGroup) (progress : Progress)
    (path : Path) : Task Progress := do
  let resolved ← Task.resolve path
  if progress.seen.contains resolved then
    return progress
  let progress := { progress with seen := progress.seen ++ [resolved] }
  match dialectOf? settings path with
  | none => return progress
  | some dialect =>
    Task.poll (.beforeFile path)
    match ← Task.refusable ((← Task.disk).read path) with
    | .ok bytes =>
      let lines := Index.searchedLines bytes
      return { progress with stats := ← countLines dialect (tables dialect) lines progress.stats }
    | .error error =>
      Task.warn "scan_skip" "UNREADABLE_FILE"
        ("Skipped unreadable file " ++ path.text ++ ": " ++ error.message) [("path", .path path)]
      let stats := progress.stats
      return { progress with stats := { stats with filesSkipped := stats.filesSkipped + 1 } }

/-- The files that a root stands for: itself if it is a file, else the files below it. -/
def filesOf (settings : ScanSettings) (root : Path) : Task (List Path) := do
  if ← Task.check (·.isFile root) then
    return [root]
  match ← Task.refusable ((← Task.disk).walkFiles root settings.skippedDirNames) with
  | .ok files => return files
  | .error error =>
    Task.warn "scan_skip" "UNREADABLE_DIRECTORY"
      ("Skipped unreadable directory " ++ root.text ++ ": " ++ error.message)
      [("path", .path root)]
    return []

/-- The manifest as a list of files to scan; a manifest that is no file is passed over. -/
def manifestFiles : Option Path → Task (List Path)
  | none => return []
  | some manifest => do
    if ← Task.check (·.isFile manifest) then
      return [manifest]
    Task.warn "scan_skip" "MISSING_FILE"
      ("Manifest " ++ manifest.text ++ " is not a file; skipped.") [("path", .path manifest)]
    return []

/-- Counts the references in the manifest and below the roots into the session's catalog. -/
def scan (settings : ScanSettings) (roots : List Path) (manifest : Option Path) :
    Task ScanStats := do
  let catalog := (← get).catalog
  let tables := fun dialect => tokenTable catalog dialect
  let first ← (← manifestFiles manifest).foldlM (scanFile settings tables) .start
  let progress ←
    roots.foldlM
      (fun progress root => do
        (← filesOf settings root).foldlM (scanFile settings tables) progress)
      first
  return progress.stats

end ResourcePruner.Usage
