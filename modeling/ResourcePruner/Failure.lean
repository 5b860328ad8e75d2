import ResourcePruner.Audit.Log
import ResourcePruner.Backup.Path
import ResourcePruner.Config.Merge
import ResourcePruner.Reference.Spelling
import ResourcePruner.Toml.Lexeme

/-!
# Failures

Everything that can end an operation, by cause. `Failure.message` is the only place at which the
wording of a cause that belongs to no narrower type is decided.
-/

namespace ResourcePruner

/-- Where a run that is cancelled stops. -/
inductive StopPoint where
  | beforeRound (number : Nat)
  | beforeFile (path : Path)
  deriving DecidableEq

/-- Why an operation ends without a result. -/
inductive Failure where
  | disk (error : Disk.Error)
  /-- A file was to be copied onto itself; `intoDirectory` says whether the target was completed by
  the file's own name. -/
  | sameFile (source target : Path) (intoDirectory : Bool)
  | backup (refusal : Backup.Refusal)
  | manifestMissing (path : Path)
  | cancelled (point : StopPoint)
  /-- An option that names a path was given nothing as its value. -/
  | noPath
  | config (fault : Config.Fault)
  | unresolved (fault : Disk.ResolveFault)
  | configFile (fault : Toml.Fault)
  | undecodable (fault : Utf8.Fault)
  /-- A text that was to be written cannot be encoded. -/
  | unencodable (fault : Utf8.EncodeFault)
  | log (fault : Audit.LogFault)
  | unknownCategory (key : Text)
  | unknownDialect (key : Text)
  /-- The rounds of a run did not come to an end within their bound. -/
  | endless
  deriving DecidableEq

namespace Failure

/-- A fault of a configuration as a failure; a path that is not resolved is one wherever it is
met. -/
def ofConfigFault : Config.Fault → Failure
  | .unresolved fault => .unresolved fault
  | fault => .config fault

/-- What is said of values that nest too deep. -/
def nestingMessage (whileReading : Text) : Text :=
  "maximum recursion depth exceeded" ++ whileReading

/-- What is said of a log that cannot be read and of an event that cannot be recorded. -/
def logMessage : Audit.LogFault → Text
  | .noFields type => "'" ++ type ++ "' object has no attribute 'get'"
  | .numberTooLong digits => Text.tooManyDigits digits
  | .tooDeep none => nestingMessage ""
  | .tooDeep (some .array) =>
    nestingMessage " while decoding a JSON array from a unicode string"
  | .tooDeep (some .object) =>
    nestingMessage " while decoding a JSON object from a unicode string"
  | .unreadable error => error.message
  | .undecodable fault => fault.message

/-- The way a message shows a path object. -/
def shownPath (path : Path) : Text :=
  "PosixPath(" ++ Text.quoted path.text ++ ")"

/-- What a failure is reported as. -/
def message : Failure → Text
  | disk error => error.message
  | sameFile source target intoDirectory =>
    let shown := if intoDirectory then Text.quoted target.text else shownPath target
    shownPath source ++ " and " ++ shown ++ " are the same file"
  | backup refusal => refusal.reason
  | manifestMissing path => "Manifest not found: " ++ path.text
  | cancelled (.beforeRound number) => "Run cancelled before round " ++ Text.decimal number
  | cancelled (.beforeFile path) => "Scan cancelled before " ++ path.text
  | noPath => "expected str, bytes or os.PathLike object, not list"
  | config fault => fault.message
  | unresolved fault => fault.message
  | configFile .malformed => ""
  | configFile (.tooLong digits) => Text.tooManyDigits digits
  | configFile .tooDeep => nestingMessage ""
  | undecodable fault => fault.message
  | unencodable fault => fault.message
  | log fault => logMessage fault
  | unknownCategory key => "Unknown resource category: " ++ key
  | unknownDialect key => Text.quoted key ++ " is not a valid Dialect"
  | endless => "The rounds of the run do not come to an end."

/-- Whether a failure is the disk's refusal of an operation. -/
def isRefusal : Failure → Bool
  | disk error => error.isRefusal
  | _ => false

end Failure

/-- The category of that key. -/
def Category.named (key : Text) : Except Failure Category :=
  match Category.ofKey? key with
  | some category => .ok category
  | none => .error (.unknownCategory key)

/-- The dialect of that name. -/
def Dialect.named (key : Text) : Except Failure Dialect :=
  match Dialect.ofKey? key with
  | some dialect => .ok dialect
  | none => .error (.unknownDialect key)

end ResourcePruner
