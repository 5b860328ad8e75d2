import ResourcePruner.Disk.Basic
import ResourcePruner.Text.Quoted

/-!
# Where a path leads

`Disk.reach` follows a path name by name, through links and `..`, as every operation on files does:
each name but the last has to lead to a directory, and the last one may be missing. At most forty
links are followed. Names and paths have a greatest length, and a path that no disk can have is not
even looked up. Names are looked up as a directory lists them.
-/

namespace ResourcePruner

namespace Disk

/-- Why an operation on a path fails. -/
inductive ErrorCode where
  | noEntry
  | alreadyThere
  | notDirectory
  | isDirectory
  /-- A name or the whole path is too long. -/
  | nameTooLong
  /-- A directory that is to be removed holds something. -/
  | notEmpty
  | tooManyLinks
  /-- The path to which a file is copied asks for a directory that is not there. -/
  | directoryMissing
  /-- No disk can have the path. -/
  | impossible (fault : PathFault)
  deriving DecidableEq, Repr

/-- The number of an error that the disk itself reports. -/
def ErrorCode.number? : ErrorCode → Option Nat
  | noEntry => some 2
  | alreadyThere => some 17
  | notDirectory => some 20
  | isDirectory => some 21
  | nameTooLong => some 36
  | notEmpty => some 39
  | tooManyLinks => some 40
  | directoryMissing => none
  | impossible _ => none

/-- The wording of an error. -/
def ErrorCode.text : ErrorCode → Text
  | noEntry => "No such file or directory"
  | alreadyThere => "File exists"
  | notDirectory => "Not a directory"
  | isDirectory => "Is a directory"
  | nameTooLong => "File name too long"
  | notEmpty => "Directory not empty"
  | tooManyLinks => "Too many levels of symbolic links"
  | directoryMissing => "Directory does not exist"
  | impossible fault => fault.message

/-- A failed operation and the path it was given. -/
structure Error where
  code : ErrorCode
  path : Path
  deriving DecidableEq

/-- An error as it is reported, with its number if it has one. -/
def ErrorCode.message (code : ErrorCode) : Text :=
  match code.number? with
  | some number => "[Errno " ++ Text.decimal number ++ "] " ++ code.text
  | none => code.text

/-- What a failed operation reports. -/
def Error.message (error : Error) : Text :=
  match error.code with
  | .impossible fault => fault.message
  | .directoryMissing => error.code.message ++ ": " ++ error.path.text
  | code => code.message ++ ": " ++ Text.quoted error.path.text

/-- Whether the disk refused an operation; it is never asked about a path that no disk can have. -/
def Error.isRefusal (error : Error) : Bool :=
  match error.code with
  | .impossible _ => false
  | _ => true

/-- Where following a path ends. -/
inductive Reach where
  | found (place : Place) (entry : Entry)
  /-- The last name is missing in a directory. -/
  | missing (directory : Place) (name : Text)
  | failed (code : ErrorCode)

/-- How the last name of a path is taken. -/
inductive Ending where
  /-- What lies there is wanted, even if it is a link. -/
  | entry
  /-- A link is followed. -/
  | target
  /-- A link is followed, and a file is to be made if nothing is there. -/
  | newFile
  deriving DecidableEq

/-- The most bytes that a name may have. -/
def maxNameBytes : Nat := 255

/-- The most bytes that a path may have. -/
def maxPathBytes : Nat := 4095

/-- The number of bytes of a text. -/
def byteCount (text : Text) : Nat := (Utf8.encode text).length

theorem byteCount_append (front back : Text) :
    byteCount (front ++ back) = byteCount front + byteCount back := by
  rw [byteCount, Utf8.encode, List.flatMap_append, List.length_append]
  rfl

/-- The names that a link's target has its reader follow; a slash at its end asks for a directory,
which an empty name stands for. -/
def targetParts (target : Text) : List Text :=
  let pieces := Text.splitAt '/' target
  pieces.filter (· ≠ []) ++ if pieces.getLastD [] = [] then [[]] else []

/-- Where a link that lies in a directory has its reader start. -/
def targetStart (directory : Place) (target : Text) : Place :=
  if (Text.ofString "/").isPrefixOf target then [] else directory

/-- What there is to say of a name under which nothing lies in a directory. -/
def reachAbsent (place : Place) (name : Text) (isLast : Bool) : Reach :=
  if maxNameBytes < byteCount name then .failed .nameTooLong
  else if isLast then .missing place name
  else .failed .noEntry

/-- Follows names from a directory up to the first link, from which `expand` goes on. -/
def followNames (disk : Disk) (ending : Ending) (expand : Place → List Text → Reach)
    (place : Place) : List Text → Reach
  | [] => .found place .directory
  | name :: rest =>
    if name = "" || name = "." then
      followNames disk ending expand place rest
    else if name = ".." then
      followNames disk ending expand place.dropLast rest
    else if ending = .newFile && rest = [[]] then
      .failed .isDirectory
    else
      let listed := Utf8.canonicalName name
      let next := place ++ [listed]
      match disk.get? next with
      | none => reachAbsent place listed rest.isEmpty
      | some .directory => followNames disk ending expand next rest
      | some (.file content) =>
        if rest.isEmpty then .found next (.file content) else .failed .notDirectory
      | some (.link target) =>
        if rest.isEmpty && ending = .entry then
          .found next (.link target)
        else
          expand (targetStart place target) (targetParts target ++ rest)

/-- The most links that are followed on the way to the end of a path. -/
def maxLinks : Nat := 40

/-- Follows names from a directory through at most `links` links. -/
def reachFrom (disk : Disk) (ending : Ending) : (links : Nat) → Place → List Text → Reach
  | 0 => disk.followNames ending fun _ _ => .failed .tooManyLinks
  | links + 1 => disk.followNames ending (reachFrom disk ending links)

/-- Where a path starts, unless it is a relative one with nowhere to start. -/
def startOf (disk : Disk) (path : Path) : Option Place :=
  match path.anchor with
  | .here => disk.home
  | _ => some []

/-- Where a path leads. -/
def reach (disk : Disk) (ending : Ending) (path : Path) : Reach :=
  match pathFault? path.text with
  | some fault => .failed (.impossible fault)
  | none =>
    if maxPathBytes < byteCount path.text then .failed .nameTooLong
    else
      match disk.startOf path with
      | some start => disk.reachFrom ending maxLinks start path.parts
      | none => .failed .noEntry

/-- What a path leads to, links followed. -/
def stat? (disk : Disk) (path : Path) : Option (Place × Entry) :=
  match disk.reach .target path with
  | .found place entry => some (place, entry)
  | _ => none

/-- Whether a path leads to an entry of that kind. A path that is too long to be looked up is an
error; any other that leads nowhere does not lead to such an entry. -/
def leadsTo (disk : Disk) (kind : Entry → Bool) (path : Path) : Except Error Bool :=
  match disk.reach .target path with
  | .found _ entry => .ok (kind entry)
  | .failed .nameTooLong => .error ⟨.nameTooLong, path⟩
  | _ => .ok false

/-- Whether an entry is a file. -/
def isFileEntry : Entry → Bool
  | .file _ => true
  | _ => false

/-- Whether an entry is a directory. -/
def isDirectoryEntry : Entry → Bool
  | .directory => true
  | _ => false

/-- Whether a path leads to anything. -/
def isPresent (disk : Disk) (path : Path) : Except Error Bool :=
  disk.leadsTo (fun _ => true) path

/-- Whether a path leads to a file. -/
def isFile (disk : Disk) (path : Path) : Except Error Bool :=
  disk.leadsTo isFileEntry path

/-- Whether a path leads to a directory. -/
def isDirectory (disk : Disk) (path : Path) : Bool :=
  match disk.stat? path with
  | some (_, entry) => isDirectoryEntry entry
  | none => false

/-- Whether the last name of a path is a link. -/
def isLink (disk : Disk) (path : Path) : Bool :=
  match disk.reach .entry path with
  | .found _ (.link _) => true
  | _ => false

/-- Whether two paths lead to the same place. -/
def sameEntry (disk : Disk) (a b : Path) : Bool :=
  match disk.stat? a, disk.stat? b with
  | some (p, _), some (q, _) => p = q
  | _, _ => false

/-- The directory that a path leads to. -/
def openDirectory (disk : Disk) (path : Path) : Except Error Place :=
  match disk.reach .target path with
  | .found place .directory => .ok place
  | .found _ _ => .error ⟨.notDirectory, path⟩
  | .missing _ _ => .error ⟨.noEntry, path⟩
  | .failed code => .error ⟨code, path⟩

/-- The content of the file that a path leads to. -/
def read (disk : Disk) (path : Path) : Except Error Bytes :=
  match disk.reach .target path with
  | .found _ (.file content) => .ok content
  | .found _ _ => .error ⟨.isDirectory, path⟩
  | .missing _ _ => .error ⟨.noEntry, path⟩
  | .failed code => .error ⟨code, path⟩

end Disk

end ResourcePruner
