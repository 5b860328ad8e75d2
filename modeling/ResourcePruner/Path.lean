import ResourcePruner.Text.Order
import ResourcePruner.Text.Casing
import ResourcePruner.Text.Lines

/-!
# Paths

A path as it is spelled is an anchor and the parts behind it: empty parts and single dots have gone,
`..` stays until the path is resolved. A place is where something lies: the names on the way to it
from the root.
-/

namespace ResourcePruner

/-- The names on the way from the root. -/
abbrev Place := List Text

/-- Where a path starts: at the working directory, at the root, or at the second root that two
slashes name. -/
inductive Anchor where
  | here
  | root
  | doubleRoot
  deriving DecidableEq, Repr

/-- A path as it is spelled. -/
structure Path where
  anchor : Anchor
  parts : List Text
  deriving DecidableEq

namespace Path

/-- The anchor that the slashes at the start of a text name. -/
def anchorOf (text : Text) : Anchor :=
  match (text.takeWhile (· = .char '/')).length with
  | 0 => .here
  | 2 => .doubleRoot
  | _ => .root

/-- The parts of a text that count: neither empty nor a single dot. -/
def partsOf (text : Text) : List Text :=
  (Text.splitAt '/' text).filter fun part => part ≠ "" && part ≠ "."

/-- The path that a text spells. -/
def ofText (text : Text) : Path where
  anchor := anchorOf text
  parts := partsOf text

/-- Whether a path does not depend on the working directory. -/
def isAbsolute (path : Path) : Bool :=
  path.anchor ≠ .here

/-- A path followed from another one; an absolute path leaves the other behind. -/
def join (base path : Path) : Path :=
  if path.isAbsolute then path else { base with parts := base.parts ++ path.parts }

/-- The path of an entry of a directory. -/
def child (directory : Path) (name : Text) : Path :=
  { directory with parts := directory.parts ++ [name] }

/-- The path without its last part. -/
def parent (path : Path) : Path :=
  { path with parts := path.parts.dropLast }

/-- Whether a path starts at the same anchor as another one and goes on below it or ends there. -/
def isWithin (path directory : Path) : Bool :=
  path.anchor = directory.anchor && directory.parts.isPrefixOf path.parts

/-- The last part of a path, empty when it has none. -/
def name (path : Path) : Text :=
  path.parts.getLastD []

/-- The end of the last part from its last dot on. A name that only begins or ends with a dot has no
suffix. -/
def suffix (path : Path) : Text :=
  let beforeDot := (path.name.reverse.dropWhile (· ≠ .char '.')).reverse.dropLast
  let extension := (path.name.reverse.takeWhile (· ≠ .char '.')).reverse
  if beforeDot = [] || extension = [] then [] else '.' :: extension

/-- The text of an anchor. -/
def anchorText : Anchor → Text
  | .here => ""
  | .root => "/"
  | .doubleRoot => "//"

/-- The text that spells a path. -/
def text (path : Path) : Text :=
  if path.anchor = .here && path.parts.isEmpty then "."
  else anchorText path.anchor ++ (path.parts.intersperse ("/" : Text)).flatten

/-- The parts by which paths are put in order, the anchor being the first of an absolute one. -/
def orderKey (path : Path) : List Text :=
  match path.anchor with
  | .here => path.parts
  | anchor => anchorText anchor :: path.parts

/-- Paths in order, each once. -/
def sorted (paths : List Path) : List Path :=
  (paths.foldl (fun found path => found.insert path.orderKey path)
    (OrderedMap.empty : OrderedMap Place Path)).entries.map Prod.snd

end Path

end ResourcePruner
