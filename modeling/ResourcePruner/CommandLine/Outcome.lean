import ResourcePruner.CommandLine.Arguments
import ResourcePruner.Json.Printer
import ResourcePruner.Run.Setup

/-!
# The command

The command prunes a project and prints the report. It ends with code 0 when a run has come to its
end or help was asked for, and with code 2 when it refuses to run: on a misuse of its options, an
invalid configuration, a missing manifest, or a backup directory that it must not clear. A refusal
prints nothing but the reason, as an error.
-/

namespace ResourcePruner.CommandLine

/-- How a run of the command ends. -/
structure Outcome where
  exitCode : Nat
  out : Text
  err : Text
  deriving DecidableEq

/-- The code of a run that has come to its end. -/
def successCode : Nat := 0

/-- The code of a refusal. -/
def refusalCode : Nat := 2

/-- The outcome of a run that has come to its end. -/
def Outcome.success (report : Report) : Outcome :=
  ⟨successCode, report.toJson.indented ++ "\n", ""⟩

/-- The outcome of a refusal. -/
def Outcome.refusal (reason : Text) : Outcome :=
  ⟨refusalCode, "", reason⟩

/-- The options in short. -/
def usage : Text :=
  "usage: resprune [-h] [--project-root PATH] [--extra-root PATH] [--manifest-path PATH]\n" ++
    "                [--data-dir PATH] [--backup-dir PATH] [--dry-run]\n"

/-- The longest spelling of an option. -/
def fullSpelling (switch : Switch) : Text :=
  match (spellings.filter fun spelling => spelling.2 = switch).getLast? with
  | some (name, _) => name
  | none => ""

/-- What a misuse of the options is told. -/
def Misuse.message : Misuse → Text
  | ambiguous argument => "ambiguous option: " ++ argument
  | missingValue key => "argument " ++ fullSpelling (.value key) ++ ": expected one argument"
  | unwantedValue switch => "argument " ++ fullSpelling switch ++ ": takes no argument"
  | unrecognized => "unrecognized arguments"

/-- The outcome of a misuse of the options. -/
def Outcome.misuse (misuse : Misuse) : Outcome :=
  .refusal (usage ++ "resprune: error: " ++ misuse.message ++ "\n")

/-- The outcome of asking for help. -/
def Outcome.help : Outcome :=
  ⟨successCode, usage, ""⟩

/-- The path that a value names. -/
def Value.path : Value → Except Failure Path
  | text value => .ok (Path.ofText value)
  | nothing => .error .noPath

/-- The text of a value, which is empty if there is none. -/
def Value.content : Value → Text
  | text value => value
  | nothing => ""

/-- The paths among the arguments, resolved, as overrides. -/
def Arguments.overrides (arguments : Arguments) : Task Overrides := do
  let resolved (value : Value) : Task Path := do Task.resolve (← value.path)
  let dataDir ← arguments.dataDir.mapM resolved
  let backupDir ← arguments.backupDir.mapM resolved
  let extraRoots ← arguments.extraRoots.mapM resolved
  let manifestPath := arguments.manifestPath.map Value.content
  return { dataDir, backupDir, manifestPath, extraRoots }

/-- Whether a failure to set up a run lies in the configuration: in its values, in its file, or in a
path that no disk can have. -/
def isInvalidConfig : Failure → Bool
  | .configFile .tooDeep => false
  | .config _ | .configFile _ | .undecodable _ | .unresolved (.impossible _) => true
  | .disk error => !error.isRefusal
  | _ => false

/-- What a run that is refused is told; other failures are no refusals. -/
def refusalOf? (failure : Failure) : Option Text :=
  match failure with
  | .backup refusal => some (refusal.reason ++ "\n" ++ refusal.hint ++ "\n")
  | .manifestMissing _ =>
    some (failure.message ++ "\nThe project root should contain the Android manifest " ++
      "(see --manifest-path).\n")
  | _ => none

/-- Runs the command on a session whose trail is about to begin. -/
def execute (temporary : Path) (runId : Text) (arguments : Arguments) : Task Outcome := do
  let overrides ← arguments.overrides
  let root ← arguments.projectRoot.path
  match ← Task.attempt isInvalidConfig (Run.openSession temporary root overrides runId) with
  | .error failure => return .refusal ("Invalid configuration: " ++ failure.message ++ "\n")
  | .ok project =>
    match ← Task.attempt (fun f => (refusalOf? f).isSome) (Run.run project arguments.dryRun) with
    | .error failure => return .refusal ((refusalOf? failure).getD failure.message)
    | .ok report => return .success report

end ResourcePruner.CommandLine
