import ResourcePruner.Disk.Lookup

/-!
# Resolving paths

The resolved path of a path is absolute, with every link on the way replaced by its target and every
`..` by the step back from what has been reached so far. What does not exist is kept as it is
spelled, so that a path resolves whether or not it leads anywhere; only a relative path that has
nowhere to start does not resolve.

A link met again while its own target is being followed leads back to itself. Then the way to it and
the names still to follow are taken as they are spelled, two slashes behind it naming the second
root; the path is not resolved if a reader cannot follow them either. What is taken as spelled may
hold links, so that resolving it once more can lead further. A link is met again only under the same
spelling: one reached from the working directory and the same one reached from the root count as
two. What is taken as spelled ends at the first character that no name may hold, if there is one.
-/

namespace ResourcePruner

namespace Disk

/-- Why a path is not resolved. -/
inductive ResolveFault where
  | linkLoop (path : Path)
  /-- No disk can have a path on the way. -/
  | impossible (fault : PathFault)
  /-- A relative path has nowhere to start. -/
  | noHome
  deriving DecidableEq

/-- What a path that is not resolved is said to be. -/
def ResolveFault.message : ResolveFault → Text
  | linkLoop path => "Symlink loop from " ++ Text.quoted path.text
  | impossible fault => fault.message
  | noHome => ErrorCode.noEntry.message

/-- Where names lead. -/
inductive Resolution where
  | reached (path : Path)
  /-- A link leads back to itself; the path is the way to it and the names still to follow. -/
  | looped (path : Path)
  /-- No disk can have a path on the way. -/
  | impossible (fault : PathFault)
  deriving DecidableEq

/-- The path one step back: `..` is taken away from what it leads back from, and kept where a path
from the working directory has nothing more to take away. -/
def stepBack (path : Path) : Path :=
  if path.anchor = .here && path.parts.all (· = "..") then path.child ".."
  else path.parent

/-- The place that a path names when none of its names is a link. -/
def spelledPlace? (disk : Disk) (path : Path) : Option Place :=
  (disk.startOf path).map fun start =>
    path.parts.foldl
      (fun place (name : Text) =>
        if name = "" || name = "." then place
        else if name = ".." then place.dropLast
        else place ++ [name])
      start

/-- The absolute path that a path spells when none of its names is a link. -/
def spelled (disk : Disk) (path : Path) : Except ResolveFault Path :=
  match disk.spelledPlace? path with
  | some place => .ok ⟨if path.anchor = .here then .root else path.anchor, place⟩
  | none => .error .noHome

/-- What lies at the end of a path none of whose names is a link. -/
def entryOf (disk : Disk) (path : Path) : Option Entry :=
  (disk.spelledPlace? path).bind fun place => disk.get? (place.map Utf8.canonicalName)

/-- A path followed by names that stood behind it, with a slash between any two of them. When empty
names come first, the text of the names is an absolute path, which leaves the other behind. -/
def followedBy (path : Path) (names : List Text) : Path :=
  path.join (Path.ofText (names.intersperse ("/" : Text)).flatten)

/-- Where names lead from a path that holds no link, `expand` being asked where the link at a path
leads: from which path its reader starts, and which names it follows. -/
def resolveNames (disk : Disk) (expand : (link start : Path) → List Text → Resolution)
    (path : Path) : List Text → Resolution
  | [] => .reached path
  | name :: rest =>
    if name = "" || name = "." then
      resolveNames disk expand path rest
    else if name = ".." then
      resolveNames disk expand (stepBack path) rest
    else
      let next := path.child name
      match pathFault? next.text, disk.entryOf next with
      | some fault, _ => .impossible fault
      | none, some (.link target) =>
        let start := if (Text.ofString "/").isPrefixOf target then ⟨.root, []⟩ else path
        match expand next start (Text.splitAt '/' (target.dropWhile (· = .char '/'))) with
        | .reached inner => resolveNames disk expand inner rest
        | .looped way => .looped (followedBy way rest)
        | .impossible fault => .impossible fault
      | none, _ => resolveNames disk expand next rest

/-- Where names lead from a path while the targets of the `entered` links are being followed. Links
are nested at most `depth` deep; a depth beyond the number of links under all their spellings is no
bound, since each of them is entered once. -/
def resolveFrom (disk : Disk) : (depth : Nat) → (entered : List Path) → Path → List Text →
    Resolution
  | 0, _, path, names => .looped (followedBy path names)
  | depth + 1, entered, path, names =>
    disk.resolveNames
      (fun link start target =>
        if link ∈ entered then .looped link
        else resolveFrom disk depth (link :: entered) start target)
      path names

/-- Whether an entry is a link. -/
def isLinkEntry : Entry → Bool
  | .link _ => true
  | _ => false

/-- The number of links on a disk. -/
def linkCount (disk : Disk) : Nat :=
  disk.contents.countP fun entry => isLinkEntry entry.2

/-- A bound on the number of spellings of all links: a path from the working directory can step back
to each of those above it before it goes down. It also admits every path that leads somewhere. -/
def spellingBound (disk : Disk) : Nat :=
  disk.linkCount * ((disk.home.getD []).length + 2) + maxLinks + 1

/-- A path up to the first character that no name may hold. -/
def cutAtNul (path : Path) : Path :=
  Path.ofText (path.text.takeWhile (· ≠ .char '\x00'))

/-- The resolved path of a path. -/
def resolve (disk : Disk) (path : Path) : Except ResolveFault Path :=
  let start : Path := ⟨if path.isAbsolute then .root else .here, []⟩
  match disk.resolveFrom disk.spellingBound [] start path.parts with
  | .reached reached => disk.spelled reached
  | .looped way => do
    let resolved := cutAtNul (← disk.spelled way)
    match disk.reach .target resolved with
    | .failed .tooManyLinks => .error (.linkLoop resolved)
    | .failed (.impossible fault) => .error (.impossible fault)
    | _ => .ok resolved
  | .impossible fault => .error (.impossible fault)

end Disk

end ResourcePruner
