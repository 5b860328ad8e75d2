import ResourcePruner.Run.Rounds
import ResourcePruner.Toml.Document

/-!
# Setting up a run

A project's configuration file is read and merged with the caller's overrides, and the directory of
the audit log is made.
-/

namespace ResourcePruner.Run

/-- The name of the audit log in its directory. -/
def logName : Text := "audit.jsonl"

/-- The path of the audit log. -/
def logPath (config : Config) : Path :=
  config.dataDir.child logName

/-- The settings of a project's configuration file; none if there is no such file. -/
def readSettings (disk : Disk) (projectRoot : Path) : Except Failure Setting.Fields := do
  let file := projectRoot.child configFileName
  if ← (disk.isPresent file).mapError .disk then
    let bytes ← (disk.read file).mapError .disk
    let text ← (Utf8.decode? bytes).mapError .undecodable
    (Toml.parse text).mapError .configFile
  else
    return []

/-- The configuration of the project at a path; backups go among the temporary files unless it says
otherwise. Its file is read in the resolved path, which is resolved once more for the project
root. -/
def loadConfig (disk : Disk) (temporary project : Path) (overrides : Overrides) :
    Except Failure Config := do
  let directory ← (disk.resolve project).mapError .unresolved
  let root ← (disk.resolve directory).mapError .unresolved
  let settings ← readSettings disk directory
  (Config.merge disk root temporary settings overrides).mapError .ofConfigFault

/-- Begins a session for the project at a path: reads its configuration, makes the directory of the
audit log, and starts a trail that adds to the log. -/
def openSession (temporary project : Path) (overrides : Overrides) (runId : Text) :
    Task Project := do
  let directory ← Task.resolve project
  let config ←
    match loadConfig (← Task.disk) temporary directory overrides with
    | .ok config => pure config
    | .error failure => throw failure
  Task.onDisk (Disk.makeDirectories config.dataDir)
  let store ← Backup.Store.ofProject config.projectRoot config.backupDir
  modify fun session =>
    { session with trail := .start (some (logPath config)) runId, roots := none }
  return ⟨config, store⟩

end ResourcePruner.Run
