import Mathlib.Algebra.Ring.Nat
import Mathlib.Data.List.Sort
import ResourcePruner.Proofs.Catalog.History

/-!
# The views of a catalog

Every view of a catalog is a projection of its entries. Each listing has its items once and in order
(`Catalog.Lists`), the counts are the lengths of the listings, and a change about one resource shows
in no view of the others (`Catalog.Spares`). With the history of the catalog, this says what each
view shows: what has been registered and not evicted since, with the marks and the files that came
after (`Catalog.mirrors_history`).
-/

namespace ResourcePruner

namespace Catalog

/-! ## Listings -/

/-- The list has all items of the kind, each once, in the order of their keys. -/
structure Lists {α κ : Type} [LT κ] (key : α → κ) (kind : α → Prop) (list : List α) : Prop where
  mem_iff : ∀ item, item ∈ list ↔ kind item
  ordered : list.Pairwise fun first second => key first < key second

namespace Lists

variable {α κ : Type} [StrictOrder κ] {key : α → κ} {kind other : α → Prop} {list more : List α}

/-- There is one such list only. -/
theorem unique (hlist : Lists key kind list) (hmore : Lists key kind more) : list = more := by
  exact hlist.ordered.eq_of_mem_iff hmore.ordered fun item =>
    (hlist.mem_iff item).trans (hmore.mem_iff item).symm

theorem congr (hlist : Lists key kind list) (hkind : ∀ item, kind item ↔ other item) :
    Lists key other list :=
  ⟨fun item => (hlist.mem_iff item).trans (hkind item), hlist.ordered⟩

/-- The items of a listing that a condition keeps. -/
theorem filter (hlist : Lists key kind list) (keep : α → Bool) :
    Lists key (fun item => kind item ∧ keep item = true) (list.filter keep) :=
  ⟨fun item => by rw [List.mem_filter, hlist.mem_iff], hlist.ordered.filter keep⟩

end Lists

/-! ## The listings of a catalog -/

variable {catalog : Catalog} {r : Resource} {record : Record} {category : Category} {name : Text}

theorem lists_entries (catalog : Catalog) :
    Lists Prod.fst (fun entry => catalog.get? entry.1 = some entry.2) catalog.entries :=
  ⟨fun _ => OrderedMap.mem_entries_iff, catalog.records.ordered⟩

theorem lists_unused (catalog : Catalog) :
    Lists Prod.fst (fun entry => catalog.get? entry.1 = some entry.2 ∧ entry.2.uses = 0)
      catalog.unused :=
  (catalog.lists_entries.filter _).congr fun entry => by
    rw [Record.isUsed, Bool.not_eq_true', decide_eq_false_iff_not, Nat.pos_iff_ne_zero, not_not]

theorem lists_ofCategory (catalog : Catalog) (category : Category) :
    Lists Prod.fst (fun entry => catalog.get? entry.1 = some entry.2 ∧ entry.1.category = category)
      (catalog.ofCategory category) :=
  (catalog.lists_entries.filter _).congr fun entry => by rw [decide_eq_true_iff]

/-- The names of a listing of one category stand in order. -/
theorem Lists.names {kind : Resource × Record → Prop} {list : List (Resource × Record)}
    (hlist : Lists Prod.fst kind list)
    (hcategory : ∀ entry, kind entry → entry.1.category = category) :
    Lists id (fun name => ∃ record, kind (⟨category, name⟩, record)) (list.map (·.1.name)) where
  mem_iff name := by
    rw [List.mem_map]
    constructor
    · rintro ⟨⟨⟨c, n⟩, record⟩, hentry, rfl⟩
      obtain rfl := hcategory _ ((hlist.mem_iff _).mp hentry)
      exact ⟨record, (hlist.mem_iff _).mp hentry⟩
    · rintro ⟨record, hentry⟩
      exact ⟨_, (hlist.mem_iff _).mpr hentry, rfl⟩
  ordered := by
    refine List.pairwise_map.mpr
      (hlist.ordered.imp_of_mem fun {first second} hfirst hsecond hless => ?_)
    have hsame : first.1.category = second.1.category :=
      (hcategory _ ((hlist.mem_iff _).mp hfirst)).trans
        (hcategory _ ((hlist.mem_iff _).mp hsecond)).symm
    rcases Resource.lt_iff.mp hless with hrank | ⟨-, hname⟩
    · rw [hsame] at hrank
      exact absurd hrank (Nat.lt_irrefl _)
    · exact hname

theorem lists_names (catalog : Catalog) (category : Category) :
    Lists id (fun name => catalog.contains ⟨category, name⟩ = true) (catalog.names category) :=
  ((catalog.lists_ofCategory category).names fun _ => And.right).congr fun name => by
    simp [contains, Option.isSome_iff_exists]

theorem lists_unusedNames (catalog : Catalog) (category : Category) :
    Lists id (fun name => ∃ record, catalog.get? ⟨category, name⟩ = some record ∧ record.uses = 0)
      (catalog.unusedNames category) :=
  (((catalog.lists_unused.filter fun entry => entry.1.category = category).congr fun entry => by
    rw [decide_eq_true_iff]).names fun _ => And.right).congr fun name => by simp

/-- The entries are those of each category, one category after the other. -/
theorem entries_eq_flatMap (catalog : Catalog) :
    catalog.entries = Category.all.flatMap catalog.ofCategory := by
  refine catalog.lists_entries.unique ⟨fun entry => ?_, ?_⟩
  · rw [List.mem_flatMap]
    constructor
    · rintro ⟨category, -, hentry⟩
      exact (((catalog.lists_ofCategory category).mem_iff entry).mp hentry).1
    · intro hget
      exact ⟨entry.1.category, Category.mem_all _,
        ((catalog.lists_ofCategory _).mem_iff entry).mpr ⟨hget, rfl⟩⟩
  · refine List.pairwise_flatMap.mpr
      ⟨fun category _ => (catalog.lists_ofCategory category).ordered, ?_⟩
    have hranks : Category.all.Pairwise fun first second => first.rank < second.rank := by decide
    refine hranks.imp fun {first second} hrank entry hentry more hmore => ?_
    have hfirst := (((catalog.lists_ofCategory first).mem_iff entry).mp hentry).2
    have hsecond := (((catalog.lists_ofCategory second).mem_iff more).mp hmore).2
    rw [← hfirst, ← hsecond] at hrank
    exact .inl hrank

theorem counts_eq (catalog : Catalog) :
    catalog.counts = Category.all.map fun category => (category, (catalog.names category).length) :=
  List.map_congr_left fun category _ => by rw [names, List.length_map]

theorem size_eq_sum_counts (catalog : Catalog) :
    catalog.size = (catalog.counts.map Prod.snd).sum := by
  rw [size, entries_eq_flatMap, List.length_flatMap, counts, List.map_map]
  rfl

theorem usage_eq (catalog : Catalog) :
    catalog.usage
      = (Category.all.filter fun category => catalog.names category ≠ []).map fun category =>
      (category, (catalog.ofCategory category).map fun entry => (entry.1.name, entry.2.uses)) := by
  conv_rhs => rw [← List.filterMap_eq_map, List.filterMap_filter]
  refine List.filterMap_congr fun category _ => ?_
  rw [names]
  cases hfound : catalog.ofCategory category with
  | nil => simp
  | cons entry rest => simp [hfound]

/-! ## What a change leaves alone -/

/-- The two catalogs differ in nothing but the given resource. -/
structure Spares (r : Resource) (catalog changed : Catalog) : Prop where
  get?_eq : ∀ other, other ≠ r → changed.get? other = catalog.get? other
  entries_eq : changed.entries.filter (·.1 ≠ r) = catalog.entries.filter (·.1 ≠ r)
  ofCategory_eq : ∀ category, category ≠ r.category →
    changed.ofCategory category = catalog.ofCategory category

/-- A change about one resource changes no other entry. -/
theorem spares_apply {change : Change} (hchange : change.resource? = some r) (catalog : Catalog) :
    Spares r catalog (change.apply catalog) where
  get?_eq other hother := Change.get?_apply_of_ne hchange hother
  entries_eq := by
    refine ((lists_entries _).filter _).unique
      (((lists_entries catalog).filter _).congr fun entry => ?_)
    refine and_congr_left fun hother => ?_
    rw [Change.get?_apply_of_ne hchange (of_decide_eq_true hother)]
  ofCategory_eq category hcategory := by
    refine (lists_ofCategory _ category).unique
      ((catalog.lists_ofCategory category).congr fun entry => ?_)
    refine and_congr_left fun hentry => ?_
    rw [Change.get?_apply_of_ne hchange fun heq => hcategory (by rw [← hentry, heq])]

/-! ## The views and the history -/

/-- The views of the catalog are those of one map, which the history tells: what has been registered
and not evicted since, each with its record. -/
structure Mirrors (history : List Change) (catalog : Catalog) : Prop where
  contains : ∀ r, catalog.contains r = true ↔ IsKnownAfter history r
  get? : ∀ r record, catalog.get? r = some record ↔ Tells history r record
  /-- What came after the creation of the record is certain. -/
  since : ∀ r, IsKnownAfter history r → ∃! later, IsSinceCreation history r later
  entries : Lists Prod.fst (fun entry => Tells history entry.1 entry.2) catalog.entries
  entries_eq : catalog.entries = Category.all.flatMap catalog.ofCategory
  ofCategory : ∀ category, Lists Prod.fst
    (fun entry => Tells history entry.1 entry.2 ∧ entry.1.category = category)
    (catalog.ofCategory category)
  names : ∀ category, Lists id (fun name => IsKnownAfter history ⟨category, name⟩)
    (catalog.names category)
  unused : Lists Prod.fst (fun entry => Tells history entry.1 entry.2 ∧ entry.2.uses = 0)
    catalog.unused
  unusedNames : ∀ category, Lists id
    (fun name => ∃ record, Tells history ⟨category, name⟩ record ∧ record.uses = 0)
    (catalog.unusedNames category)
  unusedOf : ∀ category, catalog.unused.filter (·.1.category = category)
    = (catalog.ofCategory category).filter fun entry => !entry.2.isUsed
  counts : catalog.counts = Category.all.map fun category =>
    (category, (catalog.names category).length)
  size : catalog.size = (catalog.counts.map Prod.snd).sum
  keySets : catalog.keySets = Category.all.map fun category => (category, catalog.names category)
  usage : catalog.usage
    = (Category.all.filter fun category => catalog.names category ≠ []).map fun category =>
        (category, (catalog.ofCategory category).map fun entry => (entry.1.name, entry.2.uses))

/-- **A catalog is what its history tells.** Through any registrations, marks, added files,
evictions and resets, every view shows the same map, and a change about one resource leaves all
others alone. -/
theorem mirrors_history (history : List Change) :
    Mirrors history (after history) ∧ ∀ change r, change.resource? = some r →
      Spares r (after history) (after (history ++ [change])) := by
  refine ⟨?_, fun change r hchange => after_concat history change ▸ spares_apply hchange _⟩
  have hget := get?_after history
  have hcontains := contains_after history
  exact {
    contains := hcontains
    get? := hget
    since := fun r hknown => by
      obtain ⟨record, hrecord⟩ := Option.isSome_iff_exists.mp ((hcontains r).mpr hknown)
      obtain ⟨later, hlater, -⟩ := (hget r record).mp hrecord
      exact ⟨later, hlater, fun _ hbehind => hbehind.unique hlater⟩
    entries := (lists_entries _).congr fun entry => hget _ _
    entries_eq := entries_eq_flatMap _
    ofCategory := fun category => (lists_ofCategory _ category).congr fun entry =>
      and_congr_left fun _ => hget _ _
    names := fun category => (lists_names _ category).congr fun name => hcontains _
    unused := (lists_unused _).congr fun entry => and_congr_left fun _ => hget _ _
    unusedNames := fun category => (lists_unusedNames _ category).congr fun name =>
      exists_congr fun record => and_congr_left fun _ => hget _ _
    unusedOf := fun category => List.filter_comm ..
    counts := counts_eq _
    size := size_eq_sum_counts _
    keySets := rfl
    usage := usage_eq _ }

/-- A record that is created again begins anew. -/
example :
    (after [.register ⟨.color, "ink"⟩, .mark ⟨.color, "ink"⟩, .evict ⟨.color, "ink"⟩,
      .register ⟨.dimen, "ink"⟩, .mark ⟨.dimen, "ink"⟩, .register ⟨.color, "ink"⟩]).usage
      = ([(.dimen, [("ink", 1)]), (.color, [("ink", 0)])] :
        List (Category × List (Text × Nat))) := by
  decide +kernel

end Catalog

end ResourcePruner
