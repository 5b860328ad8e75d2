import ResourcePruner.Catalog
import ResourcePruner.Failure

/-!
# Sessions

A session is all that the steps of a run change: the disk, the trail of events, the catalog, the
roots to search, and how often the caller may still be asked whether to go on. A `Task` is a step of
a session. When it fails, what it did before stays done.

Every event is kept in the trail; when the trail has a log, it is also added there. Data that nest
too deep are refused: of an action whose data cannot be made plain nothing is recorded, and an event
that cannot be printed stays in the trail, its log opened but not added to.
-/

namespace ResourcePruner

/-- The events of a run and its warnings. -/
structure Trail where
  /-- The file to which events are added, if there is one. -/
  log : Option Path
  runId : Text
  events : List Event
  /-- The messages of the warnings, in order. -/
  warnings : List Text

/-- A trail without events. -/
def Trail.start (log : Option Path) (runId : Text) : Trail := ⟨log, runId, [], []⟩

/-- What the steps of a run change. -/
structure Session where
  disk : Disk
  /-- The moment at which events are recorded. -/
  clock : Instant
  trail : Trail
  catalog : Catalog
  /-- The roots to search, once they have been determined. -/
  roots : Option (List Path)
  /-- How many more times the caller answers that the run may go on; without bound if none. -/
  patience : Option Nat

/-- The event by which an action is recorded, its data in the order of their names. -/
def Audit.eventOf (s : Session) (action : Text) (ok : Bool) (errorCode : Option Text)
    (data : List (Text × Datum)) : Event where
  timestamp := s.clock.stamp
  runId := s.trail.runId
  action := action
  ok := ok
  errorCode := errorCode
  metadata := Json.sortFields (data.map fun (name, datum) => (name, datum.plain))

/-- A step of a session. -/
abbrev Task (α : Type) := ExceptT Failure (StateM Session) α

namespace Task

/-- The disk as it is. -/
def disk : Task Disk := return (← get).disk

/-- A change of the disk that happens as a whole or not at all. -/
def changeDisk (f : Disk → Except Disk.Error Disk) : Task Unit := do
  match f (← get).disk with
  | .ok disk => modify fun session => { session with disk }
  | .error error => throw (.disk error)

/-- A computation on the disk. -/
def onDisk {α : Type} (action : Disk.Action α) : Task α := do
  let (result, disk) := action.run.run (← get).disk
  modify fun session => { session with disk }
  match result with
  | .ok value => return value
  | .error error => throw (.disk error)

/-- The answer to a question about the disk. -/
def check (question : Disk → Except Disk.Error Bool) : Task Bool := do
  match question (← get).disk with
  | .ok answer => return answer
  | .error error => throw (.disk error)

/-- The result of an operation, or the error with which the disk refused it. A path that no disk can
have ends the task. -/
def refusable {α : Type} (result : Except Disk.Error α) : Task (Except Disk.Error α) :=
  match result with
  | .ok value => return .ok value
  | .error error => if error.isRefusal then return .error error else throw (.disk error)

/-- Writes a text to a file. A text that cannot be encoded leaves the file empty. -/
def writeText (path : Path) (text : Text) : Task Unit := do
  match Utf8.textFault? text with
  | none => changeDisk (·.write path (Utf8.encode text))
  | some fault =>
    changeDisk (·.write path [])
    throw (.unencodable fault)

/-- The resolved path of a path. -/
def resolve (path : Path) : Task Path := do
  match (← get).disk.resolve path with
  | .ok resolved => return resolved
  | .error fault => throw (.unresolved fault)

/-- Adds an event to a log. The log is opened, and made if it is missing, before the event is
printed. -/
def addToLog (log : Path) (event : Event) : Task Unit :=
  if Json.nestWithin Event.maxDepth event.metadata then
    changeDisk (Audit.append · log event)
  else do
    changeDisk (·.append log [])
    throw (.log (.tooDeep none))

/-- Adds an event to the trail and, if there is one, to the log. -/
def note (event : Event) : Task Unit := do
  modify fun session =>
    { session with trail := { session.trail with events := session.trail.events ++ [event] } }
  match (← get).trail.log with
  | none => pure ()
  | some log => addToLog log event

/-- Records an action with its data. -/
def record (action : Text) (ok : Bool) (errorCode : Option Text) (data : List (Text × Datum)) :
    Task Event := do
  let event := Audit.eventOf (← get) action ok errorCode data
  if Json.nestWithin Datum.maxDepth event.metadata then
    note event
    return event
  else
    throw (.log (.tooDeep none))

/-- Records an action that succeeded. -/
def succeed (action : Text) (data : List (Text × Datum)) : Task Unit :=
  discard (record action true none data)

/-- Records an action that failed, and its message as a warning. -/
def warn (action errorCode message : Text) (data : List (Text × Datum)) : Task Unit := do
  modify fun session =>
    { session with trail := { session.trail with warnings := session.trail.warnings ++ [message] } }
  discard (record action false (some errorCode) (("message", .text message) :: data))

/-- A task's result, or its failure if it is one of those that are caught. -/
def attempt {α : Type} (isCaught : Failure → Bool) (task : Task α) : Task (Except Failure α) :=
  tryCatch (do return .ok (← task)) fun failure =>
    if isCaught failure then return .error failure else throw failure

/-- Asks whether to go on, and stops at the given point if not. -/
def poll (point : StopPoint) : Task Unit := do
  match (← get).patience with
  | none => pure ()
  | some 0 => throw (.cancelled point)
  | some (n + 1) => modify fun session => { session with patience := some n }

end Task

end ResourcePruner
