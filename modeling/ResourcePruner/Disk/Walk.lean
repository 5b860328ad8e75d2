import ResourcePruner.Disk.Lookup

/-!
# Walking a tree

Walks go down a directory in a fixed order: what they take from a directory itself, then what they
take from its subdirectories, by name. Links are neither followed nor taken. A directory whose name,
in small letters, is among the skipped ones is not entered.

A walk looks up the path of its root and tells all the rest from the tree at once. It comes to what
listing one directory after another by its path comes to (`Disk.exploreFiles`) as long as these
paths can be looked up (`Disk.exploreFiles_eq`). They differ below a directory whose path has more
than `Disk.maxPathBytes` bytes: listing reports that directory and finds nothing in it, while a walk
takes what lies there, by paths that cannot be looked up either.
-/

namespace ResourcePruner

namespace Disk

/-- The relative paths that `take` yields for a directory and, in order of name, for those that
`enter` admits below it, at most `depth` levels deep. -/
def preorder (disk : Disk) (enter : Text → Bool) (take : Place → List (List Text)) :
    (depth : Nat) → Place → List (List Text)
  | 0, _ => []
  | depth + 1, place =>
    take place ++
      (disk.children place).flatMap fun (name, entry) =>
        if entry = .directory && enter name then
          (preorder disk enter take depth (place ++ [name])).map (name :: ·)
        else
          []

/-- A bound on the depth of a disk: every level holds an entry of its own. -/
def depthBound (disk : Disk) : Nat :=
  disk.contents.length + 1

/-- Whether a directory's name is among the skipped ones, which are compared in small letters. -/
def isSkipped (skipped : List Text) (name : Text) : Bool :=
  (skipped.map Text.lower).contains (Text.lower name)

/-- The files of a directory itself, by name. -/
def filesIn (disk : Disk) (place : Place) : List (List Text) :=
  ((disk.children place).filter fun (_, entry) => isFileEntry entry).map fun (name, _) => [name]

/-- The files below a place outside skipped directories, by relative path. -/
def filesBelow (disk : Disk) (skipped : List Text) (place : Place) : List (List Text) :=
  disk.preorder (fun name => !isSkipped skipped name) disk.filesIn disk.depthBound place

/-- A path followed by names. -/
def descend (root : Path) (names : List Text) : Path :=
  { root with parts := root.parts ++ names }

/-- The files below a path outside skipped directories. -/
def walkFiles (disk : Disk) (root : Path) (skipped : List Text) : Except Error (List Path) :=
  (disk.openDirectory root).map fun place =>
    (disk.filesBelow skipped place).map (descend root)

end Disk

end ResourcePruner
