import Mathlib.Data.List.Nodup
import ResourcePruner.Proofs.Removal.Settled
import ResourcePruner.Proofs.Run.Report

/-!
# The tables of a report

A report has tables by category, in which a category may be left out where there is nothing to say
of it. Read row by row, the table of uses lists every resource of the catalog once
(`Run.nodup_tallied`, `Run.mem_tallied_iff`), and those without a use are the ones that the table of
unused resources lists (`Run.unused_tallied`). What a round removes and fails to remove adds up to
what it lists as unused (`Run.settled_counts`).
-/

namespace ResourcePruner

namespace RoundReport

/-- The resources that a report counts, each with its count. -/
def tallied (report : RoundReport) : List (Resource × Nat) :=
  report.usage.flatMap fun row => row.2.map fun tally => (⟨row.1, tally.1⟩, tally.2)

/-- The resources that a report lists as unused. -/
def unreferenced (report : RoundReport) : List Resource :=
  report.unused.flatMap fun row => row.2.map (Resource.mk row.1)

end RoundReport

namespace Run

variable {catalog : Catalog}

/-- The table gives for each category what the function does; it may leave out a category of which
there is nothing to say. -/
def Tabulates {β : Type} (zero : β) (f : Category → β) (table : List (Category × β)) : Prop :=
  ∃ g : Category → Option (Category × β), table = Category.all.filterMap g
    ∧ ∀ category, g category = none ∧ f category = zero ∨ g category = some (category, f category)

namespace Tabulates

variable {β γ : Type} {zero : β} {f : Category → β} {table : List (Category × β)}

theorem lookup (htable : Tabulates zero f table) (category : Category) :
    (table.lookup category).getD zero = f category := by
  obtain ⟨g, rfl, hg⟩ := htable
  rw [lookup_filterMap hg, if_pos (Category.mem_all category)]

/-- Row by row, nothing is left out. -/
theorem flatMap_eq (htable : Tabulates zero f table) {h : Category × β → List γ}
    (hzero : ∀ category, h (category, zero) = []) :
    table.flatMap h = Category.all.flatMap fun category => h (category, f category) := by
  obtain ⟨g, rfl, hg⟩ := htable
  induction Category.all with
  | nil => rfl
  | cons category rest ih =>
      rw [List.filterMap_cons, List.flatMap_cons, ← ih]
      rcases hg category with ⟨hnone, hempty⟩ | hsome
      · rw [hnone, hempty, hzero, List.nil_append]
      · rw [hsome, List.flatMap_cons]

end Tabulates

theorem tabulates_unused (catalog : Catalog) :
    Tabulates [] catalog.unusedNames (unusedTable catalog) := by
  refine ⟨_, rfl, fun category => ?_⟩
  cases catalog.unusedNames category with
  | nil => exact .inl ⟨rfl, rfl⟩
  | cons name rest => exact .inr rfl

theorem tabulates_usage (catalog : Catalog) :
    Tabulates []
      (fun category => (catalog.ofCategory category).map fun entry => (entry.1.name, entry.2.uses))
      catalog.usage := by
  refine ⟨_, rfl, fun category => ?_⟩
  cases hfound : catalog.ofCategory category with
  | nil => exact .inl ⟨rfl, by simp only [hfound, List.map_nil]⟩
  | cons entry rest => exact .inr (by simp only [hfound])

/-! ## The table of uses -/

variable {report : RoundReport}

/-- Row by row, the table of uses goes through the entries of the catalog, by category. -/
theorem tallied_eq (husage : report.usage = catalog.usage) :
    report.tallied = Category.all.flatMap fun category =>
      (catalog.ofCategory category).map fun entry => (entry.1, entry.2.uses) := by
  rw [RoundReport.tallied, husage, (tabulates_usage catalog).flatMap_eq fun _ => rfl]
  refine List.flatMap_congr fun category _ => ?_
  rw [List.map_map]
  refine List.map_congr_left fun entry hentry => ?_
  obtain rfl : entry.1.category = category := by simpa using (List.mem_filter.mp hentry).2
  rfl

theorem mem_tallied_iff (husage : report.usage = catalog.usage) {r : Resource} :
    r ∈ report.tallied.map Prod.fst ↔ catalog.contains r = true := by
  rw [tallied_eq husage, Catalog.contains, Option.isSome_iff_exists]
  constructor
  · intro hmem
    obtain ⟨tally, htally, rfl⟩ := List.mem_map.mp hmem
    obtain ⟨category, -, htally⟩ := List.mem_flatMap.mp htally
    obtain ⟨entry, hentry, rfl⟩ := List.mem_map.mp htally
    exact ⟨entry.2, OrderedMap.mem_entries_iff.mp (List.mem_filter.mp hentry).1⟩
  · rintro ⟨record, hget⟩
    have hentry : (r, record) ∈ catalog.ofCategory r.category :=
      List.mem_filter.mpr ⟨OrderedMap.mem_entries_iff.mpr hget, by simp⟩
    exact List.mem_map.mpr ⟨(r, record.uses), List.mem_flatMap.mpr
      ⟨r.category, Category.mem_all _, List.mem_map.mpr ⟨_, hentry, rfl⟩⟩, rfl⟩

/-- No resource is counted twice. -/
theorem nodup_tallied (husage : report.usage = catalog.usage) :
    (report.tallied.map Prod.fst).Nodup := by
  have hkeys : (catalog.entries.map Prod.fst).Nodup := catalog.records.nodup_keys
  have hcategory : ∀ {r category}, r ∈ (catalog.ofCategory category).map Prod.fst →
      r.category = category := by
    intro r category hmem
    obtain ⟨entry, hentry, rfl⟩ := List.mem_map.mp hmem
    simpa using (List.mem_filter.mp hentry).2
  have heq : report.tallied.map Prod.fst
      = Category.all.flatMap fun category => (catalog.ofCategory category).map Prod.fst := by
    rw [tallied_eq husage, List.map_flatMap]
    exact List.flatMap_congr fun category _ => List.map_map
  rw [heq, List.nodup_flatMap]
  refine ⟨fun category _ => hkeys.sublist (List.Sublist.map _ List.filter_sublist), ?_⟩
  refine List.Pairwise.imp ?_ (show Category.all.Nodup by decide)
  intro category other hne r hmem hmem'
  exact hne ((hcategory hmem).symm.trans (hcategory hmem'))

/-- The resources that are counted without a use are those that are listed as unused. -/
theorem unused_tallied (husage : report.usage = catalog.usage)
    (hunused : report.unused = unusedTable catalog) :
    (report.tallied.filter (·.2 = 0)).map Prod.fst = report.unreferenced := by
  rw [tallied_eq husage, RoundReport.unreferenced, hunused,
    (tabulates_unused catalog).flatMap_eq fun _ => rfl, List.filter_flatMap, List.map_flatMap]
  refine List.flatMap_congr fun category _ => ?_
  rw [Catalog.unusedNames, Catalog.unused, Catalog.ofCategory, List.filter_map, List.map_map,
    List.filter_filter, List.filter_filter, List.map_map]
  have hzero : ∀ entry ∈ catalog.entries,
      ((((·.2 = 0) : Resource × Nat → Bool)
        ∘ fun entry : Resource × Record => (entry.1, entry.2.uses)) entry
        && decide (entry.1.category = category))
        = (decide (entry.1.category = category) && !entry.2.isUsed) := by
    intro entry _
    rw [Bool.and_comm, Function.comp, Record.isUsed]
    cases entry.2.uses <;> simp
  rw [List.filter_congr hzero]
  refine List.map_congr_left fun entry hentry => ?_
  have hcategory := (List.mem_filter.mp hentry).2
  obtain rfl : entry.1.category = category := by
    simpa using (Bool.and_eq_true_iff.mp hcategory).1
  rfl

/-! ## The counts of a pass -/

/-- As many resources of a category are removed or have failed as are unused. -/
theorem settled_counts {removal : Removal}
    (hsettled : (removal.removed ++ removal.failed).Perm (catalog.unused.map Prod.fst))
    (category : Category) :
    ((Removal.countsOf removal.removed).lookup category).getD 0
        + ((Removal.countsOf removal.failed).lookup category).getD 0
      = (((unusedTable catalog).lookup category).getD []).length := by
  have hnames :
      Removal.namesOf (catalog.unused.map Prod.fst) category = catalog.unusedNames category := by
    rw [Removal.namesOf, Catalog.unusedNames, List.filter_map, List.map_map]
    rfl
  rw [Removal.lookup_countsOf, Removal.lookup_countsOf, (tabulates_unused catalog).lookup, ← hnames,
    Removal.namesOf, Removal.namesOf, Removal.namesOf, ← List.length_append, ← List.map_append,
    ← List.filter_append]
  exact ((hsettled.filter _).map _).length_eq

end Run

end ResourcePruner
