import ResourcePruner.Category
import ResourcePruner.Path

/-!
# The catalog of resources

The catalog maps each known resource to its record: how many lines reference it, and which files
declare it or are it. It is one ordered map, so every listing comes out in table order, and every
count and listing below is a projection of it.

Main statements, each an equation of the view `Catalog.get?`: `get?_register`, `get?_markUsed`,
`get?_addFile`, `get?_evict`, `get?_resetUses`.
-/

namespace ResourcePruner

instance : StrictOrder Resource where
  decideLess := inferInstance
  decideSame := inferInstance
  irrefl := Resource.lt_irrefl
  trans := Resource.lt_trans
  connected := Resource.lt_of_not_lt

/-- What is known of a resource: the number of lines that reference it, and its files, first seen
first. -/
structure Record where
  uses : Nat
  files : List Path
  deriving DecidableEq

namespace Record

/-- The record of a resource that has just been found. -/
def fresh : Record := ⟨0, []⟩

/-- Whether some line references the resource. -/
def isUsed (record : Record) : Bool :=
  0 < record.uses

/-- A record with one more referencing line. -/
def mark (record : Record) : Record :=
  { record with uses := record.uses + 1 }

/-- A record with a file, unless it has it already. -/
def addFile (record : Record) (file : Path) : Record :=
  if file ∈ record.files then record else { record with files := record.files ++ [file] }

/-- A record with its count at zero. -/
def reset (record : Record) : Record :=
  { record with uses := 0 }

end Record

/-- The known resources and their records. -/
structure Catalog where
  records : OrderedMap Resource Record

namespace Catalog

/-- The catalog that knows no resource. -/
def empty : Catalog := ⟨OrderedMap.empty⟩

/-- The record of a resource. -/
def get? (catalog : Catalog) (resource : Resource) : Option Record :=
  catalog.records.get? resource

/-- Whether a resource is known. -/
def contains (catalog : Catalog) (resource : Resource) : Bool :=
  (catalog.get? resource).isSome

/-- A catalog that knows a resource; its record, if there is one, stays as it is. -/
def register (catalog : Catalog) (resource : Resource) : Catalog :=
  if catalog.contains resource then catalog else ⟨catalog.records.insert resource .fresh⟩

/-- Counts one more line that references a resource. -/
def markUsed (catalog : Catalog) (resource : Resource) : Catalog :=
  ⟨catalog.records.modify resource .mark⟩

/-- Adds a file to the record of a resource. -/
def addFile (catalog : Catalog) (resource : Resource) (file : Path) : Catalog :=
  ⟨catalog.records.modify resource (·.addFile file)⟩

/-- Makes a resource known and adds a file to its record. -/
def declare (catalog : Catalog) (resource : Resource) (file : Path) : Catalog :=
  (catalog.register resource).addFile resource file

/-- A catalog that does not know a resource. -/
def evict (catalog : Catalog) (resource : Resource) : Catalog :=
  ⟨catalog.records.erase resource⟩

/-- A catalog that knows none of the given resources. -/
def evictAll (catalog : Catalog) (resources : List Resource) : Catalog :=
  resources.foldl evict catalog

/-- Sets every count to zero. -/
def resetUses (catalog : Catalog) : Catalog :=
  ⟨catalog.records.mapValues fun _ => Record.reset⟩

/-- The resources and their records, in table order. -/
def entries (catalog : Catalog) : List (Resource × Record) :=
  catalog.records.entries

/-- The entries of a category, in the order of their names. -/
def ofCategory (catalog : Catalog) (category : Category) : List (Resource × Record) :=
  catalog.entries.filter (·.1.category = category)

/-- The names of a category, in order. -/
def names (catalog : Catalog) (category : Category) : List Text :=
  (catalog.ofCategory category).map (·.1.name)

/-- The entries that no line references, in table order. -/
def unused (catalog : Catalog) : List (Resource × Record) :=
  catalog.entries.filter fun entry => !entry.2.isUsed

/-- The names of a category that no line references, in order. -/
def unusedNames (catalog : Catalog) (category : Category) : List Text :=
  (catalog.unused.filter (·.1.category = category)).map (·.1.name)

/-- How many resources of each category are known, in table order. -/
def counts (catalog : Catalog) : List (Category × Nat) :=
  Category.all.map fun category => (category, (catalog.ofCategory category).length)

/-- The names of each category, in table order. -/
def keySets (catalog : Catalog) : List (Category × List Text) :=
  Category.all.map fun category => (category, catalog.names category)

/-- How many resources are known. -/
def size (catalog : Catalog) : Nat :=
  catalog.entries.length

/-- The count of every resource, for each category that has any. -/
def usage (catalog : Catalog) : List (Category × List (Text × Nat)) :=
  Category.all.filterMap fun category =>
    match catalog.ofCategory category with
    | [] => none
    | found => some (category, found.map fun entry => (entry.1.name, entry.2.uses))

/-! ## The operations through the view -/

theorem get?_register (catalog : Catalog) (resource other : Resource) :
    (catalog.register resource).get? other =
      if other = resource then some ((catalog.get? resource).getD .fresh)
      else catalog.get? other := by
  unfold register contains
  by_cases here : other = resource
  · subst here
    cases known : catalog.get? other with
    | none => simp [get?, OrderedMap.get?_insert]
    | some record => simp [known]
  · cases known : catalog.get? resource with
    | none => simp [get?, OrderedMap.get?_insert, here, Ne.symm here]
    | some record => simp [here]

theorem get?_markUsed (catalog : Catalog) (resource other : Resource) :
    (catalog.markUsed resource).get? other =
      if other = resource then (catalog.get? other).map .mark else catalog.get? other :=
  OrderedMap.get?_modify ..

theorem get?_addFile (catalog : Catalog) (resource : Resource) (file : Path) (other : Resource) :
    (catalog.addFile resource file).get? other =
      if other = resource then (catalog.get? other).map (·.addFile file)
      else catalog.get? other :=
  OrderedMap.get?_modify ..

theorem get?_evict (catalog : Catalog) (resource other : Resource) :
    (catalog.evict resource).get? other =
      if other = resource then none else catalog.get? other :=
  OrderedMap.get?_erase ..

theorem get?_resetUses (catalog : Catalog) (resource : Resource) :
    catalog.resetUses.get? resource = (catalog.get? resource).map .reset :=
  OrderedMap.get?_mapValues ..

end Catalog

end ResourcePruner
