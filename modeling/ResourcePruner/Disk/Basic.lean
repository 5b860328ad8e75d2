import ResourcePruner.Disk.Listing

/-!
# The disk

A disk is the listing of its root, and the place at which relative paths start. That it is a tree of
plainly named entries is part of its type. The root always is a directory and is no entry. Once the
directory at which relative paths start has been removed, they start nowhere, even if another one is
made at its place.

Nothing but where entries lie and what files hold is part of a disk. It knows no permissions, no
file under two names other than through a link, and no device that fails: what refuses an operation
is always the path, or the entries that it leads to.

Two operations change a disk, `Disk.put` and `Disk.remove`. Main statements, the equations of the
view `Disk.get?`: `get?_put` and `get?_remove`; and `get?_dropLast`, whatever lies at a place lies
in a directory.
-/

namespace ResourcePruner

/-- A tree of files, links and directories. -/
structure Disk where
  listing : Listing
  /-- The place at which relative paths start, unless the directory there has been removed. -/
  home : Option Place
  proper : listing.IsProper

namespace Disk

/-- What lies at a place, the root being a directory. -/
def get? (disk : Disk) (place : Place) : Option Entry :=
  if place = [] then some .directory else disk.listing.get? place

/-- The disk on which nothing lies. -/
def empty (home : Place) : Disk where
  listing := .nil
  home := some home
  proper := trivial

/-- Whether something new may be put at a place: in a directory, under a plain name, and not in the
stead of a directory. -/
def accepts (disk : Disk) (place : Place) : Bool :=
  place.getLast?.all isPlainName && disk.get? place.dropLast = some .directory &&
    disk.get? place ≠ some .directory

theorem parent_of_accepts {disk : Disk} {place : Place} (accepted : disk.accepts place = true) :
    place.dropLast = [] ∨ disk.listing.get? place.dropLast = some .directory := by
  simp only [accepts, Bool.and_eq_true, get?] at accepted
  by_cases last : place.dropLast = []
  · exact .inl last
  · exact .inr (by simpa [last] using accepted.1.2)

/-- A disk with an entry at a place that accepts one; any other place leaves it as it is. -/
def put (disk : Disk) (place : Place) (entry : Entry) : Disk :=
  if accepted : disk.accepts place = true then
    { disk with
      listing := disk.listing.put entry place
      proper := by
        refine Listing.isProper_put disk.proper ?_ (parent_of_accepts accepted)
        simp only [accepts, Bool.and_eq_true] at accepted
        exact accepted.1.1 }
  else
    disk

/-- A disk without what lies at a place and below it. -/
def remove (disk : Disk) (place : Place) : Disk where
  listing := disk.listing.remove place
  home := disk.home.filter fun home => !place.isPrefixOf home
  proper := Listing.isProper_remove disk.proper place

/-- The entries of a directory by name, in order. -/
def children (disk : Disk) (directory : Place) : List (Text × Entry) :=
  (disk.listing.within directory).entries

/-- All that lies on a disk, each directory before what lies in it. -/
def contents (disk : Disk) : List (Place × Entry) :=
  disk.listing.contents []

theorem get?_put (disk : Disk) (place other : Place) (entry : Entry)
    (accepted : disk.accepts place = true) :
    (disk.put place entry).get? other =
      if other = place then some entry else disk.get? other := by
  have parent := parent_of_accepts accepted
  have vacant : disk.get? place ≠ some .directory := by
    simp only [accepts, Bool.and_eq_true, decide_eq_true_eq] at accepted
    exact accepted.2
  have nonempty : place ≠ [] := fun root => vacant (by simp [get?, root])
  rw [get?, if_neg nonempty] at vacant
  rw [put, dif_pos accepted]
  by_cases root : other = []
  · simp [get?, root, Ne.symm nonempty]
  · simp only [get?, root, if_false]
    exact Listing.get?_put disk.proper nonempty parent vacant other

theorem get?_remove (disk : Disk) (place other : Place) :
    (disk.remove place).get? other =
      if other = [] then some .directory
      else if place <+: other then none else disk.get? other := by
  by_cases root : other = []
  · simp [get?, root]
  · simp only [get?, remove, root, if_false]
    exact Listing.get?_remove disk.proper place other

theorem get?_dropLast {disk : Disk} {place : Place} {entry : Entry}
    (lies : disk.get? place = some entry) : disk.get? place.dropLast = some .directory := by
  by_cases root : place = []
  · simp [get?, root]
  · rw [get?, if_neg root] at lies
    rw [get?]
    split
    · rfl
    · rename_i inner
      exact (Listing.get?_dropLast disk.proper lies).resolve_left inner

end Disk

end ResourcePruner
