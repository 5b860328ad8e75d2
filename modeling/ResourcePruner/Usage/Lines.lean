import ResourcePruner.Catalog
import ResourcePruner.Reference.Spelling

/-!
# Counting references on lines

The tokens of every known resource are spelled out once for each dialect. A line is first asked for
the anchors of a category; only if it holds one is it asked for the category's resources. Each
resource that the line references gains one use, however often it is named there.
-/

namespace ResourcePruner.Usage

/-- The resources of a category with the tokens that reference them in one dialect. -/
structure TokenGroup where
  category : Category
  /-- Texts of which every line that references the category holds one. -/
  anchors : List Text
  entries : List (Resource × List Text)

/-- The tokens of every known resource in a dialect, for each category that has any. -/
def tokenTable (catalog : Catalog) (dialect : Dialect) : List TokenGroup :=
  Category.all.filterMap fun category =>
    match catalog.ofCategory category with
    | [] => none
    | found =>
      some
        { category
          anchors := Reference.anchors category dialect
          entries := found.map fun entry => (entry.1, Reference.tokens entry.1 dialect) }

/-- The resources of a group that a line references. -/
def TokenGroup.credited (group : TokenGroup) (dialect : Dialect) (line : Text) : List Resource :=
  if group.anchors.any (Text.occursIn · line) then
    (group.entries.filter fun (resource, tokens) =>
      Reference.containsAnyToken line tokens ||
        Reference.refersByInheritance dialect line resource).map Prod.fst
  else
    []

/-- The resources of a table that a line references, in table order. -/
def credited (dialect : Dialect) (table : List TokenGroup) (line : Text) : List Resource :=
  if dialect = .code && Reference.isLineComment line then
    []
  else
    table.flatMap (·.credited dialect line)

/-- A catalog and the number of uses counted into it. -/
structure Tally where
  catalog : Catalog
  references : Nat

namespace Tally

/-- Counts one more use of each of the given resources. -/
def add (tally : Tally) (resources : List Resource) : Tally where
  catalog := resources.foldl Catalog.markUsed tally.catalog
  references := tally.references + resources.length

/-- Counts the references on lines. -/
def addLines (tally : Tally) (dialect : Dialect) (table : List TokenGroup) (lines : List Text) :
    Tally :=
  lines.foldl (fun tally line => tally.add (credited dialect table line)) tally

end Tally

/-- Counts the references on the lines of a text. -/
def countText (catalog : Catalog) (dialect : Dialect) (text : Text) : Tally :=
  Tally.addLines ⟨catalog, 0⟩ dialect (tokenTable catalog dialect) (Text.lines text)

end ResourcePruner.Usage
