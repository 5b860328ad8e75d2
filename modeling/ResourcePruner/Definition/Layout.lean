import ResourcePruner.Definition.OpenBlock

/-!
# The layout of a definition file

The lines of a definition file fall into fillers, which declare nothing, and groups: runs of lines
joined by declarations that stay open from one line to the next. The lines of a declaration that
never ends are the tail. The layout does not depend on which declarations are to be removed.
-/

namespace ResourcePruner

/-- Consecutive lines joined by open declarations, and the resources declared on them. -/
structure Group where
  lines : List Text
  declared : List Resource
  deriving DecidableEq

/-- A group grown by a line. -/
def Group.add (group : Group) (line : Text) : Group where
  lines := group.lines ++ [line]
  declared := group.declared ++ Declaration.resourcesOn line

/-- A part of a definition file. -/
inductive Part where
  | filler (line : Text)
  | group (group : Group)
  deriving DecidableEq

/-- The lines of a part. -/
def Part.lines : Part → List Text
  | filler line => [line]
  | group g => g.lines

/-- Lines cut into parts; `tail` holds the lines of a declaration that never ends and the block that
they leave open. -/
structure Layout where
  parts : List Part
  tail : Option (Group × OpenBlock)
  deriving DecidableEq

namespace Layout

/-- A layout with one more part before it. -/
def cons (part : Part) (layout : Layout) : Layout :=
  { layout with parts := part :: layout.parts }

/-- The layout of lines that follow the group `held`, which the given block leaves open. -/
def ofLinesAfter : (held : Option (Group × OpenBlock)) → List Text → Layout
  | held, [] => ⟨[], held⟩
  | held, line :: rest =>
    if held.isNone && (Declaration.onLine line).isEmpty then
      cons (.filler line) (ofLinesAfter none rest)
    else
      let group := ((held.map Prod.fst).getD ⟨[], []⟩).add line
      match OpenBlock.after line (Declaration.onLine line) (held.map Prod.snd) with
      | some block => ofLinesAfter (some (group, block)) rest
      | none => cons (.group group) (ofLinesAfter none rest)

/-- The layout of the lines of a definition file. -/
def ofLines (lines : List Text) : Layout :=
  ofLinesAfter none lines

/-- The lines that never leave the block they are in. -/
def tailLines (layout : Layout) : List Text :=
  (layout.tail.map fun tail => tail.1.lines).getD []

/-- The lines of a layout, in order. -/
def lines (layout : Layout) : List Text :=
  layout.parts.flatMap Part.lines ++ layout.tailLines

@[simp] theorem lines_cons (part : Part) (layout : Layout) :
    (cons part layout).lines = part.lines ++ layout.lines := by
  simp [lines, cons, tailLines]

/-- Cutting lines into parts loses none and moves none. -/
theorem lines_ofLinesAfter (held : Option (Group × OpenBlock)) (text : List Text) :
    (ofLinesAfter held text).lines =
      ((held.map fun tail => tail.1.lines).getD []) ++ text := by
  fun_induction ofLinesAfter held text with
  | case1 held => simp [lines, tailLines]
  | case2 held line rest fresh ih =>
    obtain ⟨none_held, -⟩ := Bool.and_eq_true_iff.mp fresh
    rw [Option.isNone_iff_eq_none] at none_held
    simp [ih, none_held, Part.lines]
  | case3 held line rest _ group block _ ih =>
    rw [ih]
    cases held <;> simp [group, Group.add]
  | case4 held line rest _ group _ ih =>
    rw [lines_cons, ih]
    cases held <;> simp [group, Group.add, Part.lines]

theorem lines_ofLines (text : List Text) : (ofLines text).lines = text :=
  lines_ofLinesAfter none text

end Layout

end ResourcePruner
