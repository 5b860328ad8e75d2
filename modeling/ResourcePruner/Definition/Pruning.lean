import ResourcePruner.Definition.Layout

/-!
# Removing declarations from a definition file

A definition file loses whole lines only. A group of lines is dropped when every resource declared
on it is doomed; a group that holds a doomed and a surviving declaration stays as it is, and its
doomed resources are reported as shared. The lines of a declaration that never ends stay, too.
-/

namespace ResourcePruner

-- Counts are added up from the zero that the numbers come with, whatever else is imported.
attribute [local instance (high)] Zero.ofOfNat0

/-- Which resources are to be removed. -/
abbrev Doomed := Resource → Bool

namespace Group

/-- The doomed resources of a group, in order. -/
def doomedResources (group : Group) (doomed : Doomed) : List Resource :=
  group.declared.filter doomed

/-- Whether a group is dropped: it declares something, and all of it is doomed. -/
def isDropped (group : Group) (doomed : Doomed) : Bool :=
  !group.declared.isEmpty && group.declared.all doomed

end Group

namespace Part

/-- The lines of a part that stay. -/
def kept (doomed : Doomed) : Part → List Text
  | filler line => [line]
  | group g => if g.isDropped doomed then [] else g.lines

/-- The resources declared on the lines of a part that go. -/
def removed (doomed : Doomed) : Part → List Resource
  | filler _ => []
  | group g => if g.isDropped doomed then g.doomedResources doomed else []

/-- The number of lines of a part that go. -/
def droppedCount (doomed : Doomed) : Part → Nat
  | filler _ => 0
  | group g => if g.isDropped doomed then g.lines.length else 0

/-- The doomed resources of a part that stay with a surviving one. -/
def shared (doomed : Doomed) : Part → List Resource
  | filler _ => []
  | group g => if g.isDropped doomed then [] else g.doomedResources doomed

end Part

/-- What removing the doomed resources makes of a definition file. -/
structure Pruning where
  /-- The lines that stay. -/
  lines : List Text
  /-- The resources declared on dropped lines, each once, in order of first appearance. -/
  removed : List Resource
  droppedCount : Nat
  /-- The block left open at the end of the file, if a doomed resource is declared in it. -/
  unterminated : Option OpenBlock
  /-- The doomed resources whose lines stay because of a surviving one, each once. -/
  shared : List Resource
  deriving DecidableEq

namespace Pruning

/-- The block of a tail that declares a doomed resource. -/
def doomedTail (doomed : Doomed) (tail : Option (Group × OpenBlock)) : Option OpenBlock :=
  (tail.filter fun (group, _) => group.declared.any doomed).map Prod.snd

/-- Removes the doomed resources from a layout. -/
def ofLayout (doomed : Doomed) (layout : Layout) : Pruning where
  lines := layout.parts.flatMap (Part.kept doomed) ++ layout.tailLines
  removed := (layout.parts.flatMap (Part.removed doomed)).eraseDups
  droppedCount := (layout.parts.map (Part.droppedCount doomed)).sum
  unterminated := doomedTail doomed layout.tail
  shared := (layout.parts.flatMap (Part.shared doomed)).eraseDups

/-- Removes the doomed resources from the lines of a definition file. -/
def ofLines (doomed : Doomed) (lines : List Text) : Pruning :=
  ofLayout doomed (Layout.ofLines lines)

/-- The text that stays. -/
def text (pruning : Pruning) : Text :=
  pruning.lines.flatten

/-- Whether lines were dropped and some text remains. -/
def shouldWrite (pruning : Pruning) : Bool :=
  0 < pruning.droppedCount && !pruning.text.isEmpty

end Pruning

end ResourcePruner
