import ResourcePruner.Proofs.Catalog.Views
import ResourcePruner.Proofs.Removal.Returns
import ResourcePruner.Proofs.Removal.Settled

/-!
# What a pass comes to

A pass lists each unused resource once, as removed or as failed, and leaves the others in the
catalog (`Removal.concludes_removeUnused`); its events tell of all that it has done, and of nothing
else (`Removal.mirrors_removeUnused`). Both are read off the deeds of the pass. Whether a pass comes
to that at all is the question of what may stop it, and the answer is an event that cannot be added
to the log (`Removal.fails_removeUnused`), as long as links lead no path in a circle.
-/

namespace ResourcePruner

open ResourcePruner.Task (Runs)

/-! ## The unused resources in order -/

namespace Catalog

variable {catalog : Catalog} {r : Resource}

theorem nodup_unused (catalog : Catalog) : (catalog.unused.map Prod.fst).Nodup := by
  exact catalog.records.nodup_keys.sublist (List.filter_sublist.map _)

theorem get?_evictAll (catalog : Catalog) (resources : List Resource) (r : Resource) :
    (catalog.evictAll resources).get? r = if r ∈ resources then none else catalog.get? r := by
  rw [evictAll]
  induction resources generalizing catalog with
  | nil => simp
  | cons first rest ih =>
      rw [List.foldl_cons, ih, get?_evict]
      by_cases hfirst : r = first <;> by_cases hrest : r ∈ rest <;> simp [hfirst, hrest]

/-- Of the resources, those that are used are left, each with its files and counted anew. -/
theorem get?_resetUses_evictAll (catalog : Catalog) (r : Resource) :
    ((catalog.evictAll (catalog.unused.map Prod.fst)).resetUses).get? r
      = ((catalog.get? r).filter (·.isUsed)).map .reset := by
  have hmem : r ∈ catalog.unused.map Prod.fst ↔ ∃ record, catalog.get? r = some record
      ∧ record.isUsed = false := by
    simp only [List.mem_map, Prod.exists, exists_and_right, exists_eq_right, mem_unused]
  rw [get?_resetUses, get?_evictAll]
  congr 1
  cases hget : catalog.get? r with
  | none => simp
  | some record =>
      rw [hget] at hmem
      cases hused : record.isUsed <;> simp [hmem, hused, Option.filter]

end Catalog

namespace Removal

/-- The names of a category that a part of a pass settles are among its resources. -/
theorem namesOf_sublist {resources more : List Resource} (hsublist : resources.Sublist more)
    (category : Category) : (namesOf resources category).Sublist (namesOf more category) :=
  (hsublist.filter _).map _

/-- The order in which a pass takes the unused resources is that of the catalog within each
category. -/
theorem namesOf_unused (catalog : Catalog) (category : Category) :
    namesOf ((catalog.unused.filter (·.1.category.isInline)).map Prod.fst
        ++ (catalog.unused.filter fun entry => !entry.1.category.isInline).map Prod.fst) category
      = catalog.unusedNames category := by
  have hnames : ∀ entries : List (Resource × Record), namesOf (entries.map Prod.fst) category
      = (entries.filter (·.1.category = category)).map (·.1.name) := by
    intro entries
    rw [namesOf, List.filter_map, List.map_map]
    rfl
  -- Whether a resource is an inline one is the same throughout the category.
  have hkind : ∀ entry : Resource × Record, (decide (entry.1.category = category)
      && entry.1.category.isInline)
        = (decide (entry.1.category = category) && category.isInline) := by
    intro entry
    by_cases hcategory : entry.1.category = category <;> simp [hcategory]
  have hother : ∀ entry : Resource × Record, (decide (entry.1.category = category)
      && !entry.1.category.isInline)
        = (decide (entry.1.category = category) && !category.isInline) := by
    intro entry
    by_cases hcategory : entry.1.category = category <;> simp [hcategory]
  rw [← List.map_append, hnames, List.filter_append, List.filter_filter, List.filter_filter,
    List.filter_congr fun entry _ => hkind entry, List.filter_congr fun entry _ => hother entry,
    Catalog.unusedNames]
  cases category.isInline <;> simp

/-! ## Every unused resource is settled -/

/-- What a pass comes to for the resources: each unused one is listed once, under the names of its
category in their order, and the others are left. -/
structure Concludes (s : Session) (removal : Removal) (s' : Session) : Prop where
  perm : ∀ category, (namesOf removal.removed category ++ namesOf removal.failed category).Perm
    (s.catalog.unusedNames category)
  nodup : ∀ category, (namesOf removal.removed category ++ namesOf removal.failed category).Nodup
  removed_ordered : ∀ category, (namesOf removal.removed category).Pairwise (· < ·)
  failed_ordered : ∀ category, (namesOf removal.failed category).Pairwise (· < ·)
  count : ∀ category, (s.catalog.unusedNames category).length
    = (namesOf removal.removed category).length + (namesOf removal.failed category).length
  spared : ∀ r record, s.catalog.get? r = some record → record.isUsed = true →
    r ∉ removal.removed ∧ r ∉ removal.failed
  catalog : ∀ r, s'.catalog.get? r = ((s.catalog.get? r).filter (·.isUsed)).map .reset

section

variable {store : Backup.Store} {s s' : Session} {removal : Removal}

theorem concludes_of_runs (hruns : Runs (removeUnused store) s removal s') :
    Concludes s removal s' := by
  obtain ⟨t, hdisposes, rfl⟩ := disposes_removeUnused hruns
  obtain ⟨hperm, hremoved, hfailed⟩ := hdisposes.settled
  have hnames : ∀ category,
      (namesOf removal.removed category ++ namesOf removal.failed category).Perm
      (s.catalog.unusedNames category) := by
    intro category
    rw [← namesOf_unused, namesOf, namesOf, ← List.map_append, ← List.filter_append]
    exact (hperm.filter _).map _
  have hordered : ∀ category, (s.catalog.unusedNames category).Pairwise (· < ·) := fun category =>
    (s.catalog.lists_unusedNames category).ordered
  refine ⟨hnames, fun category => ?_, fun category => ?_, fun category => ?_, fun category => ?_,
    fun r record hget hused => ?_, s.catalog.get?_resetUses_evictAll⟩
  · exact (hnames category).nodup_iff.mpr ((hordered category).imp StrictOrder.ne_of_lt)
  · refine (hordered category).sublist ?_
    rw [← namesOf_unused]
    exact namesOf_sublist hremoved category
  · refine (hordered category).sublist ?_
    rw [← namesOf_unused]
    exact namesOf_sublist hfailed category
  · rw [← (hnames category).length_eq, List.length_append]
  · refine not_or.mp fun hlisted => ?_
    have hmem := (settles_removeUnused hruns).mem_iff.mp (List.mem_append.mpr hlisted)
    obtain ⟨⟨_, other⟩, hunused, rfl⟩ := List.mem_map.mp hmem
    obtain ⟨hother, hnot⟩ := Catalog.mem_unused.mp hunused
    obtain rfl := Option.some.inj (hget.symm.trans hother)
    rw [hused] at hnot
    cases hnot

/-- **Every unused resource comes to one end.** Unless an event cannot be added to the log, a pass
succeeds and lists each of them once. -/
theorem concludes_removeUnused (hcan : CanRemove store s) :
    (∃ removal s', Runs (removeUnused store) s removal s' ∧ Concludes s removal s')
      ∨ s.trail.log ≠ none ∧ ∃ failure s', Task.exec (removeUnused store) s = (.error failure, s')
        ∧ ¬ s'.CanRecord :=
  (runs_or_stops hcan).imp_left fun ⟨removal, s', hruns⟩ =>
    ⟨removal, s', hruns, concludes_of_runs hruns⟩

end

namespace Mixed

def root : Path := ⟨.root, ["p"]⟩

/-- A directory of resources is a link. -/
def disk : Disk :=
  (((((((((Disk.empty []).put ["p"] .directory).put ["p", "assets"] .directory).put
    ["p", "assets", "y.png"] (.file [1])).put ["p", "res"] .directory).put
    ["p", "res", "drawable"] (.link "../assets")).put ["p", "res", "layout"] .directory).put
    ["p", "res", "layout", "x.xml"] (.file [])).put ["p", "res", "values"] .directory).put
    ["p", "res", "values", "s.xml"]
    (.file (Utf8.encode "<string name=\"a\">A</string>\n<string name=\"b\">B</string>\n"))

/-- Of one of the layouts, the file is missing. One of the strings is used. -/
def catalog : Catalog :=
  (((((Catalog.empty.declare ⟨.drawable, "y"⟩ ⟨.root, ["p", "res", "drawable", "y.png"]⟩).declare
    ⟨.layout, "x"⟩ ⟨.root, ["p", "res", "layout", "x.xml"]⟩).declare
    ⟨.layout, "z"⟩ ⟨.root, ["p", "res", "layout", "z.xml"]⟩).declare
    ⟨.string, "a"⟩ ⟨.root, ["p", "res", "values", "s.xml"]⟩).declare
    ⟨.string, "b"⟩ ⟨.root, ["p", "res", "values", "s.xml"]⟩).markUsed ⟨.string, "b"⟩

def start : Session where
  disk
  clock := ⟨2024, 5, 17, 8, 15, 0, 0, by decide, by decide⟩
  trail := .start none "run"
  catalog
  roots := none
  patience := none

def store : Backup.Store := ⟨root, ⟨.root, ["b"]⟩⟩

theorem canRemove : CanRemove store start := by
  have hok : (∀ link ∈ disk.links, Disk.IsSpellable link.2
        ∧ ∀ entry ∈ catalog.unused, ∀ file ∈ entry.2.files,
          link.1.getLast? ≠ some (Utf8.canonicalName file.name))
      ∧ (∀ part ∈ store.directory.parts ++ store.projectRoot.parts, Disk.IsSpellable part)
      ∧ disk.LeadsAhead root
      ∧ ∀ entry ∈ catalog.unused, ∀ file ∈ entry.2.files,
        (∀ part ∈ file.parts, Disk.IsSpellable part) ∧ disk.LeadsAhead file := by
    decide +kernel
  obtain ⟨hlinks, hparts, hroot, hfiles⟩ := hok
  refine .of_leadsAhead (fun path start hstart => ?_)
    (Disk.hasSpellableLinks_of_links fun link hlink => (hlinks link hlink).1)
    (List.forall_mem_append.mp hparts).1 (List.forall_mem_append.mp hparts).2
    (fun entry hentry file hfile => (hfiles entry hentry file hfile).1) ?_ ?_
  · obtain rfl : start = [] := by
      cases hanchor : path.anchor <;> rw [Disk.startOf, hanchor] at hstart <;>
        exact (Option.some.inj hstart).symm
    rfl
  · rintro link hlink ⟨file, ⟨entry, hentry, -, hfile⟩, hname⟩
    exact (hlinks link hlink).2 entry hentry file hfile hname
  · rintro path (rfl | ⟨entry, hentry, -, hfile⟩)
    · exact hroot
    · exact (hfiles entry hentry path hfile).2

end Mixed

/-- A file below a link is deleted, another one cannot be backed up, and the pass comes to its
end. -/
theorem concludes_removeUnused_mixed : CanRemove Mixed.store Mixed.start
    ∧ ∃ removal s', Runs (removeUnused Mixed.store) Mixed.start removal s'
      ∧ Concludes Mixed.start removal s'
      ∧ ⟨.drawable, "y"⟩ ∈ removal.removed ∧ ⟨.layout, "z"⟩ ∈ removal.failed := by
  obtain ⟨removal, s', hruns, hconcludes⟩ :=
    (concludes_removeUnused Mixed.canRemove).resolve_right fun h => h.1 rfl
  have hlisted : (Task.exec (removeUnused Mixed.store) Mixed.start).1.toOption.all
      (fun removal => ⟨.drawable, "y"⟩ ∈ removal.removed ∧ ⟨.layout, "z"⟩ ∈ removal.failed)
        = true := by
    decide +kernel
  rw [show Task.exec (removeUnused Mixed.store) Mixed.start
    = (.ok removal, s') from hruns] at hlisted
  exact ⟨Mixed.canRemove, removal, s', hruns, hconcludes, of_decide_eq_true hlisted⟩

/-! ## Passes that are stopped -/

namespace Stopped

/-- A project with an unused layout, and a session without a log. -/
def start : Session :=
  { Mixed.start with
    disk := (((Disk.empty []).put ["p"] .directory).put ["p", "x.xml"] (.file []))
    catalog := Catalog.empty.declare ⟨.layout, "x"⟩ ⟨.root, ["p", "x.xml"]⟩ }

/-- No disk can have a directory of that name. -/
def impossible : Backup.Store := ⟨Mixed.root, ⟨.root, ["b\x00k"]⟩⟩

/-- The log is a directory. -/
def unlogged : Session :=
  { start with trail := .start (some Mixed.root) "run" }

/-- Links of which none leads back to itself as long as one of them is there, behind which a step up
leads elsewhere. It is deleted, and the backup of another file puts a directory in its place. -/
def circling : Session :=
  { Mixed.start with
    disk :=
      let directories : List Place :=
        [["p"], ["p", "b"], ["p", "b", "res"], ["p", "b", "res", "layout"],
        ["p", "d"], ["p", "q"], ["p", "q", "res"], ["p", "q", "res", "layout"], ["p", "res"],
        ["p", "res", "layout"], ["p", "res", "layout", "x.xml"],
        ["p", "res", "layout", "x.xml", "res"], ["p", "res", "layout", "x.xml", "res", "layout"]]
      (((((directories.foldl (fun disk place => disk.put place .directory) (Disk.empty [])).put
        ["p", "d", "f"] (.file [])).put
        ["p", "b", "res", "layout", "x.xml"] (.link "../../../d/f")).put
        ["p", "b", "res", "layout", "B"] (.link "../../../q/res/layout/z.xml")).put
        ["p", "res", "layout", "x.xml", "res", "layout", "y.xml"] (.file [])).put
        ["p", "q", "res", "layout", "z.xml"] (.link "../../../b/res/layout/x.xml/../B")
    catalog := ((Catalog.empty.declare ⟨.layout, "x"⟩
      ⟨.root, ["p", "b", "res", "layout", "x.xml"]⟩).declare
      ⟨.layout, "y"⟩ ⟨.root, ["p", "res", "layout", "x.xml", "res", "layout", "y.xml"]⟩).declare
      ⟨.layout, "z"⟩ ⟨.root, ["p", "q", "res", "layout", "z.xml"]⟩ }

/-- The backups go to a directory of the project. -/
def inside : Backup.Store := ⟨Mixed.root, ⟨.root, ["p", "b"]⟩⟩

/-- No link of the session's disk leads back to itself. -/
def IsOnward (s : Session) : Prop :=
  ∀ link ∈ s.disk.links, s.disk.LeadsAhead ⟨.root, link.1⟩

end Stopped

/-- A pass can be stopped though no link leads back to itself: by links that do once another one has
gone, by a backup directory that no disk can have, and by a log that events cannot be added to. -/
theorem not_concludes_removeUnused :
    (¬ ∀ (store : Backup.Store) (s : Session), Stopped.IsOnward s →
      Disk.AreSpellable store.directory.parts → s.trail.log = none →
      ∃ removal s', Runs (removeUnused store) s removal s')
    ∧ (¬ ∀ (store : Backup.Store) (s : Session), Stopped.IsOnward s → s.trail.log = none →
      ∃ removal s', Runs (removeUnused store) s removal s')
    ∧ ¬ ∀ (store : Backup.Store) (s : Session), Stopped.IsOnward s →
      Disk.AreSpellable store.directory.parts → ∃ removal s',
      Runs (removeUnused store) s removal s' := by
  have hstopped : ∀ {store : Backup.Store} {s : Session},
      (Task.exec (removeUnused store) s).1.toOption.isSome = false →
      ¬ ∃ removal s', Runs (removeUnused store) s removal s' := by
    rintro store s hnone ⟨removal, s', hruns⟩
    rw [show Task.exec (removeUnused store) s = (.ok removal, s') from hruns] at hnone
    cases hnone
  refine ⟨fun hall => ?_, fun hall => ?_, fun hall => ?_⟩
  · have hok : Stopped.IsOnward Stopped.circling ∧ Disk.AreSpellable Stopped.inside.directory.parts
        ∧ (Task.exec (removeUnused Stopped.inside) Stopped.circling).1.toOption.isSome = false := by
      unfold Stopped.IsOnward Disk.AreSpellable
      decide +kernel
    exact hstopped hok.2.2 (hall _ _ hok.1 hok.2.1 rfl)
  · have hok : Stopped.IsOnward Stopped.start
        ∧ (Task.exec (removeUnused Stopped.impossible) Stopped.start).1.toOption.isSome
          = false := by
      unfold Stopped.IsOnward
      decide +kernel
    exact hstopped hok.2 (hall _ _ hok.1 rfl)
  · have hok : Stopped.IsOnward Stopped.unlogged ∧ Disk.AreSpellable Mixed.store.directory.parts
        ∧ (Task.exec (removeUnused Mixed.store) Stopped.unlogged).1.toOption.isSome = false := by
      unfold Stopped.IsOnward Disk.AreSpellable
      decide +kernel
    exact hstopped hok.2.2 (hall _ _ hok.1 hok.2.1)

end Removal

end ResourcePruner
