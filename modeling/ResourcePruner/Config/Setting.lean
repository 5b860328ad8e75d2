import ResourcePruner.Text.Basic

/-!
# Settings

The values that a configuration file can give: texts, lists and tables. All else that the file
format knows, numbers, dates and truth values, is of no use to any setting and is not told apart.
-/

namespace ResourcePruner

/-- A value of a configuration file. -/
inductive Setting where
  | text (value : Text)
  | list (items : List Setting)
  | table (fields : List (Text × Setting))
  | other

namespace Setting

/-- The fields of a table. -/
abbrev Fields := List (Text × Setting)

/-- The value of a field. -/
def find? (name : Text) (fields : Fields) : Option Setting :=
  fields.lookup name

/-- Fields in which a name has a value, in the place of any earlier one. -/
def assign (name : Text) (value : Setting) : Fields → Fields
  | [] => [(name, value)]
  | (key, old) :: rest =>
    if key = name then (key, value) :: rest else (key, old) :: assign name value rest

/-- Changes the table that a path of names leads to, tables that are missing on the way being made.
With `throughLists` the path goes on in the last table of a list. There is no result when something
else stands in the way or the change itself has none. -/
def changeAt (throughLists : Bool) (change : Fields → Option Fields) :
    (path : List Text) → Fields → Option Fields
  | [], fields => change fields
  | name :: rest, fields =>
    match find? name fields with
    | none =>
      (changeAt throughLists change rest []).map fun made => assign name (.table made) fields
    | some (.table inner) =>
      (changeAt throughLists change rest inner).map fun made => assign name (.table made) fields
    | some (.list items) =>
      match throughLists, items.getLast? with
      | true, some (.table inner) =>
        (changeAt throughLists change rest inner).map fun made =>
          assign name (.list (items.dropLast ++ [.table made])) fields
      | _, _ => none
    | some _ => none

/-- Gives a new field a value; there is no result when the field is there already. -/
def define? (name : Text) (value : Setting) (fields : Fields) : Option Fields :=
  if (find? name fields).isSome then none else some (assign name value fields)

/-- Adds an empty table to a list of tables, which is made if it is missing. -/
def appendTable? (name : Text) (fields : Fields) : Option Fields :=
  match find? name fields with
  | none => some (assign name (.list [.table []]) fields)
  | some (.list items) => some (assign name (.list (items ++ [.table []])) fields)
  | some _ => none

end Setting

end ResourcePruner
