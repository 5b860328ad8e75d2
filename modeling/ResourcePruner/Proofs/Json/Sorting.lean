import ResourcePruner.Json.Printer

/-!
# Values in order

Printing puts the fields of every object in the order of their names. `Json.sorted` is the value
that is so put in order. Nothing that looks its fields up can tell it from the value it was
(`Json.lookup_sorted`), and a value prints as the one in order does (`Json.compact_obj`).
-/

namespace ResourcePruner

namespace OrderedMap

variable {κ ν μ : Type} [StrictOrder κ]

theorem mapValues_insert (f : κ → ν → μ) (m : OrderedMap κ ν) (key : κ) (value : ν) :
    (m.insert key value).mapValues f = (m.mapValues f).insert key (f key value) := by
  have hentries (entries : List (κ × ν)) :
      (insertEntry key value entries).map (fun entry => (entry.1, f entry.1 entry.2))
        = insertEntry key (f key value)
          (entries.map fun entry => (entry.1, f entry.1 entry.2)) := by
    induction entries with
    | nil => rfl
    | cons first rest ih =>
        rw [insertEntry, List.map_cons, insertEntry]
        split
        · rfl
        · split
          · rfl
          · rw [List.map_cons, ih]
  exact ext (hentries m.entries)

end OrderedMap

namespace Json

variable {α β : Type}

/-! ## Fields in order -/

theorem sortFields_map (f : α → β) (fields : List (Text × α)) :
    sortFields (fields.map fun field => (field.1, f field.2))
      = (sortFields fields).map fun field => (field.1, f field.2) := by
  have hfold (m : OrderedMap Text α) :
      (fields.map fun field => (field.1, f field.2)).foldl (fun m field => m.insert field.1 field.2)
          (m.mapValues fun _ => f)
        = (fields.foldl (fun m field => m.insert field.1 field.2) m).mapValues fun _ => f := by
    induction fields generalizing m with
    | nil => rfl
    | cons first rest ih =>
        rw [List.map_cons, List.foldl_cons, List.foldl_cons, ← OrderedMap.mapValues_insert]
        exact ih _
  exact congrArg OrderedMap.entries (hfold .empty)

theorem pairwise_sortFields (fields : List (Text × α)) :
    (sortFields fields).Pairwise fun a b => a.1 < b.1 :=
  OrderedMap.ordered _

theorem nodup_sortFields (fields : List (Text × α)) : ((sortFields fields).map Prod.fst).Nodup :=
  List.pairwise_map.mpr ((pairwise_sortFields fields).imp StrictOrder.ne_of_lt)

theorem mem_of_mem_sortFields {fields : List (Text × α)} {field : Text × α}
    (hfield : field ∈ sortFields fields) : field ∈ fields := by
  have hfold (m : OrderedMap Text α)
      (hmem : field ∈ (fields.foldl (fun m field => m.insert field.1 field.2) m).entries) :
      field ∈ fields ∨ field ∈ m.entries := by
    clear hfield
    induction fields generalizing m with
    | nil => exact .inr hmem
    | cons first rest ih =>
        rcases ih _ hmem with hrest | hmem
        · exact .inl (List.mem_cons_of_mem _ hrest)
        · rcases OrderedMap.eq_or_mem_of_mem_insertEntry hmem with rfl | hmem
          · exact .inl List.mem_cons_self
          · exact .inr hmem
  exact (hfold .empty hfield).resolve_right fun h => nomatch h

/-! ## Looking fields up -/

theorem lookup_eq_find? {fields : List (Text × Json)}
    (hordered : fields.Pairwise fun a b => a.1 < b.1)
    (name : Text) : lookup name fields = OrderedMap.find? name fields := by
  induction fields with
  | nil => rfl
  | cons first rest ih =>
      obtain ⟨habove, hrest⟩ := List.pairwise_cons.mp hordered
      rw [lookup, OrderedMap.find?, ih hrest]
      by_cases hfirst : first.1 = name
      · rw [OrderedMap.find?_eq_none_of_above fun entry hentry => hfirst ▸ habove entry hentry]
      · simp only [if_neg hfirst]
        cases OrderedMap.find? name rest <;> rfl

theorem lookup_sortFields (name : Text) (fields : List (Text × Json)) :
    lookup name (sortFields fields) = lookup name fields := by
  have hfold (m : OrderedMap Text Json) :
      (fields.foldl (fun m field => m.insert field.1 field.2) m).get? name
        = (lookup name fields).or (m.get? name) := by
    induction fields generalizing m with
    | nil => rfl
    | cons first rest ih =>
        rw [List.foldl_cons, ih, OrderedMap.get?_insert, lookup]
        cases lookup name rest with
        | some later => rfl
        | none => by_cases hfirst : first.1 = name <;> simp [hfirst]
  rw [lookup_eq_find? (pairwise_sortFields fields)]
  exact (hfold .empty).trans (Option.or_none ..)

theorem lookup_map (f : Json → Json) (name : Text) (fields : List (Text × Json)) :
    lookup name (fields.map fun field => (field.1, f field.2)) = (lookup name fields).map f := by
  induction fields with
  | nil => rfl
  | cons first rest ih =>
      rw [List.map_cons, lookup, lookup, ih]
      cases lookup name rest with
      | some later => rfl
      | none => by_cases hfirst : first.1 = name <;> simp [hfirst]

/-! ## Values in order -/

mutual

/-- A value in which the fields of every object stand in the order of their names; of fields with
one name, the last. -/
def sorted : Json → Json
  | arr items => arr (sortedItems items)
  | obj fields => obj (sortFields (sortedFields fields))
  | value => value

/-- The items of an array, each in order. -/
def sortedItems : List Json → List Json
  | [] => []
  | item :: rest => sorted item :: sortedItems rest

/-- The fields of an object, each value in order. -/
def sortedFields : List (Text × Json) → List (Text × Json)
  | [] => []
  | (name, value) :: rest => (name, sorted value) :: sortedFields rest

end

theorem sortedItems_eq_map (items : List Json) : sortedItems items = items.map sorted := by
  induction items with
  | nil => rw [sortedItems, List.map_nil]
  | cons item rest ih => rw [sortedItems, ih, List.map_cons]

theorem sortedFields_eq_map (fields : List (Text × Json)) :
    sortedFields fields = fields.map fun field => (field.1, sorted field.2) := by
  induction fields with
  | nil => rw [sortedFields, List.map_nil]
  | cons field rest ih => rw [sortedFields, ih, List.map_cons]

theorem sorted_arr (items : List Json) : sorted (.arr items) = .arr (items.map sorted) := by
  rw [sorted, sortedItems_eq_map]

theorem sorted_obj (fields : List (Text × Json)) :
    sorted (.obj fields)
      = .obj ((sortFields fields).map fun field => (field.1, sorted field.2)) := by
  rw [sorted, sortedFields_eq_map, sortFields_map]

/-- What is found in a value is found in it in order. -/
theorem field?_sorted (name : Text) (value : Json) :
    field? name value.sorted = (field? name value).map sorted := by
  cases value with
  | obj fields =>
      rw [sorted_obj, field?, field?, lookup_map, lookup_sortFields]
  | _ => rfl

/-! ## Printing in order -/

theorem compactItems_eq_map (items : List Json) : compactItems items = items.map compact := by
  induction items with
  | nil => rw [compactItems, List.map_nil]
  | cons item rest ih => rw [compactItems, ih, List.map_cons]

theorem compactFields_eq_map (fields : List (Text × Json)) :
    compactFields fields = fields.map fun field => (field.1, compact field.2) := by
  induction fields with
  | nil => rw [compactFields, List.map_nil]
  | cons field rest ih => rw [compactFields, ih, List.map_cons]

/-- A field as it stands in an object. -/
def printField (field : Text × Json) : Text :=
  printString field.1 ++ ": " ++ compact field.2

theorem compact_arr (items : List Json) :
    compact (.arr items) = "[" ++ separated ", " (items.map compact) ++ "]" := by
  rw [compact, compactItems_eq_map]

theorem compact_obj (fields : List (Text × Json)) :
    compact (.obj fields) = "\x7b" ++ separated ", " ((sortFields fields).map printField)
      ++ "\x7d" := by
  rw [compact, compactFields_eq_map, sortFields_map, List.map_map]
  rfl

end Json

end ResourcePruner
