import ResourcePruner.Text.Basic

/-!
# JSON values

Values of the data format in which events, reports and settings are written. Whole numbers have no
bound; a number with a fraction or an exponent keeps its spelling. The depth of a value counts the
arrays and objects with something in them, as they hold one another.
-/

namespace ResourcePruner

/-- A JSON value. -/
inductive Json where
  | null
  | bool (b : Bool)
  | int (n : Int)
  /-- A number with a fraction or an exponent, or one that is not finite, as it was spelled. -/
  | real (spelling : Text)
  | str (text : Text)
  | arr (items : List Json)
  | obj (fields : List (Text × Json))

namespace Json

/-- A list of texts. -/
def texts (items : List Text) : Json := arr (items.map str)

/-- The value of the last field of that name. -/
def lookup (name : Text) : List (Text × Json) → Option Json
  | [] => none
  | (key, value) :: rest =>
    match lookup name rest with
    | some later => some later
    | none => if key = name then some value else none

/-- The field of an object, none for any other value. -/
def field? (name : Text) : Json → Option Json
  | obj fields => lookup name fields
  | _ => none

/-- The text of a string, none for any other value. -/
def text? : Json → Option Text
  | str text => some text
  | _ => none

mutual

/-- How many arrays and objects the innermost value is inside. -/
def depth : Json → Nat
  | arr items => itemsDepth items
  | obj fields => fieldsDepth fields
  | _ => 0

/-- How deep the items of an array lie in it. -/
def itemsDepth : List Json → Nat
  | [] => 0
  | item :: rest => max (depth item + 1) (itemsDepth rest)

/-- How deep the fields of an object lie in it. -/
def fieldsDepth : List (Text × Json) → Nat
  | [] => 0
  | (_, value) :: rest => max (depth value + 1) (fieldsDepth rest)

end

/-- Whether none of the values nests deeper than that. -/
def nestWithin (limit : Nat) (fields : List (Text × Json)) : Bool :=
  fields.all fun field => field.2.depth ≤ limit

theorem nestWithin_iff {limit : Nat} {fields : List (Text × Json)} :
    nestWithin limit fields = true ↔ ∀ field ∈ fields, field.2.depth ≤ limit := by
  simp [nestWithin]

theorem itemsDepth_le_iff {items : List Json} {n : Nat} :
    itemsDepth items ≤ n ↔ ∀ item ∈ items, item.depth + 1 ≤ n := by
  induction items with
  | nil => exact iff_of_true n.zero_le (List.forall_mem_nil _)
  | cons item rest ih => rw [itemsDepth, Nat.max_le, ih, List.forall_mem_cons]

theorem fieldsDepth_le_iff {fields : List (Text × Json)} {n : Nat} :
    fieldsDepth fields ≤ n ↔ ∀ field ∈ fields, field.2.depth + 1 ≤ n := by
  induction fields with
  | nil => exact iff_of_true n.zero_le (List.forall_mem_nil _)
  | cons field rest ih => rw [fieldsDepth, Nat.max_le, ih, List.forall_mem_cons]

end Json

end ResourcePruner
