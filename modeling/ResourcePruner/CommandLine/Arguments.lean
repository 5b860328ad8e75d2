import ResourcePruner.Text.DecimalDigit

/-!
# Arguments

What the arguments of the command line ask for. Each argument is first taken for a token on its own:
an option, a plain argument, or the mark behind which everything is plain. The tokens are then read
from left to right.

A long option may be shortened as long as it stays the beginning of one option only, and may have
its value attached by an equals sign. An argument that is ambiguous is refused before any other is
looked at; otherwise what comes first decides.
-/

namespace ResourcePruner.CommandLine

/-- An option that takes a value. -/
inductive Key where
  | projectRoot
  | extraRoot
  | manifestPath
  | dataDir
  | backupDir
  deriving DecidableEq, Repr

/-- An option. -/
inductive Switch where
  | help
  | dryRun
  | value (key : Key)
  deriving DecidableEq, Repr

/-- The short spelling of the help option, which may be followed by further letters. -/
def shortHelp : Text := "-h"

/-- The mark behind which everything is plain; it is also what long options begin with. -/
def mark : Text := "--"

/-- All spellings of options in full. -/
def spellings : List (Text × Switch) :=
  [(shortHelp, .help),
    ("--help", .help),
    ("--project-root", .value .projectRoot),
    ("--extra-root", .value .extraRoot),
    ("--manifest-path", .value .manifestPath),
    ("--data-dir", .value .dataDir),
    ("--backup-dir", .value .backupDir),
    ("--dry-run", .dryRun)]

/-- What an option is given as its value. -/
inductive Value where
  | text (text : Text)
  /-- The mark was attached to the option; it counts for nothing even there. -/
  | nothing
  deriving DecidableEq, Repr

/-- What a run is asked to do. -/
structure Arguments where
  projectRoot : Value
  /-- Further trees to search, in the order given. -/
  extraRoots : List Value
  manifestPath : Option Value
  dataDir : Option Value
  backupDir : Option Value
  dryRun : Bool
  deriving DecidableEq, Repr

/-- What a run does when nothing is asked for. -/
def Arguments.default : Arguments := ⟨.text ".", [], none, none, none, false⟩

/-- Arguments with the value of an option; extra roots add up, other options keep their last
value. -/
def Arguments.assign (arguments : Arguments) (key : Key) (value : Value) : Arguments :=
  match key with
  | .projectRoot => { arguments with projectRoot := value }
  | .extraRoot => { arguments with extraRoots := arguments.extraRoots ++ [value] }
  | .manifestPath => { arguments with manifestPath := some value }
  | .dataDir => { arguments with dataDir := some value }
  | .backupDir => { arguments with backupDir := some value }

/-- What the command line asks for. -/
inductive Request where
  | help
  | run (arguments : Arguments)
  deriving DecidableEq, Repr

/-- Why the command line asks for nothing that can be done. -/
inductive Misuse where
  /-- An option is shortened to what several begin with. -/
  | ambiguous (argument : Text)
  | missingValue (key : Key)
  /-- A value is attached to an option that takes none. -/
  | unwantedValue (switch : Switch)
  /-- There are arguments that are neither options nor values. -/
  | unrecognized
  deriving DecidableEq, Repr

/-- What an argument is taken for. -/
inductive Token where
  | switch (switch : Switch) (attached : Option Text)
  /-- The short help option with more letters, after an equals sign or at once. -/
  | helpLetters (letters : Text)
  /-- What looks like an option but is none. -/
  | unknown
  | plain (text : Text)
  /-- The mark behind which everything is plain. -/
  | mark
  deriving DecidableEq, Repr

/-- An argument's part before the first equals sign, and what follows the sign. -/
def cutAttached (argument : Text) : Text × Option Text :=
  (argument.takeWhile (· ≠ '='),
    match argument.dropWhile (· ≠ .char '=') with
    | [] => none
    | _ :: value => some value)

/-- Whether a text is a negative number: a minus and digits, with a point before one of them or
none. A line feed may stand at its end. -/
def isNegativeNumber (argument : Text) : Bool :=
  match argument with
  | .char '-' :: rest =>
    let number := if rest.getLast? = some '\n' then rest.dropLast else rest
    match number.dropWhile Text.isDecimalDigit with
    | [] => !number.isEmpty
    | .char '.' :: fraction => !fraction.isEmpty && fraction.all Text.isDecimalDigit
    | _ => false
  | _ => false

/-- What an argument of no known option is taken for, although it begins with a hyphen. -/
def classifyUnknown (argument : Text) : Token :=
  if isNegativeNumber argument || argument.contains ' ' then .plain argument else .unknown

/-- What an argument that begins with a hyphen and goes on is taken for when it does not spell an
option in full. -/
def classifyShortened (argument : Text) : Except Misuse Token :=
  let (name, attached) := cutAttached argument
  match attached, spellings.lookup name with
  | some value, some switch =>
    .ok (if name = shortHelp then .helpLetters value else .switch switch (some value))
  | _, _ =>
    if mark.isPrefixOf argument then
      match spellings.filter fun spelling => name.isPrefixOf spelling.1 with
      | [] => .ok (classifyUnknown argument)
      | [(_, switch)] => .ok (.switch switch attached)
      | _ => .error (.ambiguous argument)
    else if shortHelp.isPrefixOf argument then
      .ok (.helpLetters (argument.drop shortHelp.length))
    else
      .ok (classifyUnknown argument)

/-- What an argument other than the mark is taken for. -/
def classify (argument : Text) : Except Misuse Token :=
  match argument with
  | .char '-' :: _ :: _ =>
    match spellings.lookup argument with
    | some switch => .ok (.switch switch none)
    | none => classifyShortened argument
  | _ => .ok (.plain argument)

/-- The tokens of a command line. -/
def tokens : List Text → Except Misuse (List Token)
  | [] => .ok []
  | argument :: rest =>
    if argument = mark then
      .ok (.mark :: rest.map .plain)
    else do
      return (← classify argument) :: (← tokens rest)

/-- Whether letters behind the short help option leave it standing: there has to be one, and each
has to be its own letter again. -/
def leavesHelp (letters : Text) : Bool :=
  !letters.isEmpty && letters.all (· = 'h')

/-- The value that an option is given by what is attached to it. -/
def attachedValue (attached : Text) : Value :=
  if attached = mark then .nothing else .text attached

/-- What tokens ask for, given what those before them did; `strays` says whether any of those was
neither an option nor a value. -/
def requestOf (arguments : Arguments) (strays : Bool) : List Token → Except Misuse Request
  | [] => if strays then .error .unrecognized else .ok (.run arguments)
  | .switch .help none :: _ => .ok .help
  | .switch .dryRun none :: rest => requestOf { arguments with dryRun := true } strays rest
  | .switch (.value key) (some attached) :: rest =>
    requestOf (arguments.assign key (attachedValue attached)) strays rest
  | .switch (.value key) none :: .plain text :: rest =>
    requestOf (arguments.assign key (.text text)) strays rest
  | .switch (.value key) none :: _ => .error (.missingValue key)
  | .switch switch (some _) :: _ => .error (.unwantedValue switch)
  | .helpLetters letters :: _ =>
    if leavesHelp letters then .ok .help else .error (.unwantedValue .help)
  | .unknown :: rest => requestOf arguments true rest
  | .plain _ :: rest => requestOf arguments true rest
  | .mark :: rest => requestOf arguments true rest

/-- What a command line asks for. -/
def parse (arguments : List Text) : Except Misuse Request := do
  requestOf .default false (← tokens arguments)

end ResourcePruner.CommandLine
