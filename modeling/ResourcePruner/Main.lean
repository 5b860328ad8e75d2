import ResourcePruner.CommandLine.Outcome
import Std.Time.DateTime.Timestamp

/-!
# The program

The part of the real tree of files that a run can need is read into a disk, the command is run on
it, and what it changed is written back. Links that lead nowhere are left out, and every other one
is read as leading straight to where it ends.
-/

namespace ResourcePruner.Program

/-- The entry of the real tree at a place. -/
def located (place : Place) : IO.FS.DirEntry where
  root := "/"
  fileName := "/".intercalate (place.map Text.shown)

/-- What lies at a place of the real tree. -/
def look (place : Place) : IO (Option Entry) := do
  try
    let path := (located place).path
    match (← path.symlinkMetadata).type with
    | .dir => return some .directory
    | .file => return some (.file (← IO.FS.readBinFile path).toList)
    | .symlink => return some (.link (← IO.FS.realPath path).toString)
    | .other => return none
  catch _ => return none

/-- Reads all that lies below a directory. -/
partial def readBelow (disk : Disk) (place : Place) : IO Disk := do
  if disk.get? place ≠ some .directory then
    return disk
  (← (located place).path.readDir).foldlM
    (fun disk child => do
      let next := place ++ [Text.ofString child.fileName]
      match ← look next with
      | none => return disk
      | some entry => readBelow (disk.put next entry) next)
    disk

/-- Reads what lies on the way along names, and all below its end if `whole` holds. -/
partial def readAlong (whole : Bool) (disk : Disk) (place : Place) : List Text → IO Disk
  | [] => if whole then readBelow disk place else return disk
  | name :: rest => do
    let next := place ++ [name]
    match ← look next with
    | none => return disk
    | some (.link target) =>
      readAlong whole (disk.put next (.link target)) [] ((Path.ofText target).parts ++ rest)
    | some entry => readAlong whole (disk.put next entry) next rest

/-- Reads what lies at a path and below it. -/
def readPath (disk : Disk) (path : Path) : IO Disk :=
  match disk.resolve path with
  | .ok resolved => readAlong true disk [] resolved.parts
  | .error _ => return disk

/-- Reads what a run with these arguments can need. A configuration names further paths, and links
on the way to them change where they lead, so that reading is repeated. -/
def readFor (temporary : Path) (arguments : CommandLine.Arguments) (session : Session) :
    IO Session := do
  let given :=
    arguments.projectRoot ::
      arguments.dataDir.toList ++ arguments.backupDir.toList ++ arguments.extraRoots
  let mut disk ← (given.map fun value => Path.ofText value.content).foldlM readPath session.disk
  for _ in [0, 1, 2] do
    let (overrides, _) := (arguments.overrides.run.run { session with disk } : Id _)
    match overrides with
    | .error _ => pure ()
    | .ok overrides =>
      match Run.loadConfig disk temporary (Path.ofText arguments.projectRoot.content) overrides with
      | .error _ => pure ()
      | .ok config =>
        let needed := config.manifest :: config.dataDir :: config.backupDir :: config.extraRoots
        disk ← needed.foldlM readPath disk
  return { session with disk }

/-- Makes the real tree's entry at a place what it is on the disk. -/
def writeEntry (place : Place) : Entry → IO Unit
  | .directory => IO.FS.createDir (located place).path
  | .file content => IO.FS.writeBinFile (located place).path ⟨content.toArray⟩
  | .link _ => pure ()

/-- Removes the real tree's entry at a place. -/
def removeEntry (place : Place) : Entry → IO Unit
  | .directory => IO.FS.removeDir (located place).path
  | _ => IO.FS.removeFile (located place).path

/-- Writes back what has changed on a disk. -/
def writeBack (before after : Disk) : IO Unit := do
  for (place, entry) in before.contents.reverse do
    if after.get? place = none then
      removeEntry place entry
  for (place, entry) in after.contents do
    if before.get? place ≠ some entry then
      writeEntry place entry

/-- The present moment. -/
def presentInstant : IO (Option Instant) := do
  let nanoseconds := (← Std.Time.Timestamp.now).toNanosecondsSinceUnixEpoch.toInt.toNat
  return Instant.sinceEpoch? (nanoseconds / 1000000000) (nanoseconds % 1000000000 / 1000)

/-- The name of a new run. -/
def freshRunId : IO Text := do
  let bytes ← IO.getRandomBytes 6
  return "run-" ++ bytes.toList.flatMap fun byte => Text.fixedDigits 16 2 byte.toNat

/-- Prints what a run of the command has to say, and yields its exit code. -/
def report (outcome : CommandLine.Outcome) : IO UInt32 := do
  IO.print (outcome.out.shown)
  IO.eprint (outcome.err.shown)
  return outcome.exitCode.toUInt32

/-- Runs the command on the real tree. -/
def run (arguments : CommandLine.Arguments) : IO UInt32 := do
  let some clock ← presentInstant | throw (IO.userError "the clock is out of range")
  let runId ← freshRunId
  let temporary := Path.ofText (.ofString ((← IO.getEnv "TMPDIR").getD "/tmp"))
  let home := (Path.ofText (← IO.currentDir).toString).parts
  let disk ← readAlong false (Disk.empty home) [] home
  let session ← readFor temporary arguments
    ⟨disk, clock, .start none runId, .empty, none, none⟩
  let (result, after) :=
    ((CommandLine.execute temporary runId arguments).run.run session : Id _)
  writeBack session.disk after.disk
  match result with
  | .ok outcome => report outcome
  | .error failure =>
    IO.eprintln failure.message.shown
    return 1

end ResourcePruner.Program

/-- The command `resprune`. -/
def main (arguments : List String) : IO UInt32 :=
  match ResourcePruner.CommandLine.parse (arguments.map ResourcePruner.Text.ofString) with
  | .error misuse => ResourcePruner.Program.report (.misuse misuse)
  | .ok .help => ResourcePruner.Program.report .help
  | .ok (.run arguments) => ResourcePruner.Program.run arguments
