import ResourcePruner.Proofs.Index.Prospect
import ResourcePruner.Proofs.Run.Course
import ResourcePruner.Proofs.Run.Setup
import ResourcePruner.Proofs.Usage.Prospect

/-!
# Before the old backups are cleared away, and after

Clearing the old backups away changes nothing of what is indexed or searched if they and the log are
apart from that (`Run.Project.IsForeseeable`). So what a round finds on a disk from which they have
been cleared away is what is found on the disk as it was, or on an earlier one on which the log
alone was another (`Run.prospectOf`).
-/

namespace ResourcePruner

open Disk (descend isSkipped WrittenAt)
open ResourcePruner.Task (Runs)

/-- Events can be added to the log. -/
def Session.CanLog (s : Session) : Prop :=
  ∃ log more, s.trail.log = some log ∧ s.disk.append log [] = .ok more

/-- The path leads to the place. -/
def Disk.LeadsThere (disk : Disk) (path : Path) (place : Place) : Prop :=
  ∃ goal, disk.Locates path goal ∧ goal.place = place

namespace Run

open Usage (Reaches dialectOf?)
open Index (IsDefinitionDir)

variable {project : Project} {s s' t : Session} {log directory : Path}

/-- The roots that may be searched. -/
def Project.roots (project : Project) : List Path :=
  project.config.projectRoot :: project.config.extraRoots

/-- Neither the old backups nor the log are among what is searched, or lie where resources are
looked for. -/
structure Project.KeepsRecordsApart (project : Project) (s : Session) (log directory : Path) :
    Prop where
  isLog : s.trail.log = some log
  resolve_directory : s.disk.resolve project.store.directory = .ok directory
  spellable : s.disk.HasSpellableLinks
  /-- The project root and the backup directory do not lie in each other. -/
  apart : ¬ directory.place <+: project.store.projectRoot.place
    ∧ ¬ project.store.projectRoot.place <+: directory.place
  /-- No file that would be searched is a backup. -/
  scanned : ∀ place,
    Reaches project.config.scan s.disk project.config.manifest project.roots place →
    ¬ directory.place <+: place
  /-- The log is neither the manifest nor a root. -/
  not_log : ∀ goal, s.disk.Locates log goal → ∀ path ∈ project.config.manifest :: project.roots,
    ∀ found, s.disk.Locates path found → found.place ≠ goal.place
  /-- No root has the log below it by a path of a dialect. -/
  not_scanned : ∀ goal, s.disk.Locates log goal → ∀ root ∈ project.roots, ∀ reached,
    s.disk.Locates root reached → ∀ way name,
      (∀ inner ∈ way, isSkipped project.config.scan.skippedDirNames inner = false) →
      goal.place = reached.place ++ (way ++ [name]) →
      dialectOf? project.config.scan (descend root (way ++ [name])) = none
  /-- The log is not inside a directory that holds resources. -/
  not_indexed : ∀ goal, s.disk.Locates log goal → ∀ stem dirs names,
    IsDefinitionDir project.config.index stem dirs →
      goal.place ≠ project.store.projectRoot.place ++ (dirs ++ names)

/-- Without the old backups, the manifest and the roots are reached as with them. -/
def Project.ReachesAlike (project : Project) (s : Session) : Prop :=
  ∀ cleared t, Runs project.store.clear s cleared t →
    ∀ path ∈ project.config.manifest :: project.roots,
      t.disk.reach .target path = s.disk.reach .target path

/-- Neither clearing the old backups nor adding to the log changes what is indexed or searched. -/
structure Project.IsForeseeable (project : Project) (s : Session) (log directory : Path) :
    Prop extends
    project.KeepsRecordsApart s log directory where
  steady : project.ReachesAlike s
  canLog : s.CanLog

section

/-! ## The two disks -/

variable {earlier : Disk} (hsetup : project.IsSetUp s) (hfresh : project.IsFresh s)
  (hforeseeable : project.IsForeseeable s log directory)
  (hwritten : WrittenAt (s.disk.LeadsThere log) earlier s.disk) {cleared : Bool}
  (hclear : Runs project.store.clear s cleared t)

include hsetup hclear in
omit hforeseeable hwritten in
theorem cleared_of_runs : Backup.Cleared project.store.directory s.disk t.disk := by
  obtain ⟨disk, rfl, hcleared, -⟩ := Backup.runs_clear hsetup.isAbsolute_directory hclear
  exact hcleared

include hsetup hforeseeable hclear in
omit hwritten in
/-- Where a path leads once the old backups have been cleared away, it led before. -/
theorem locates_of_clear {path goal : Path} (hgoal : t.disk.Locates path goal) :
    s.disk.Locates path goal :=
  (cleared_of_runs hsetup hclear).locates hsetup.isAbsolute_directory
    hforeseeable.resolve_directory (fun h => hforeseeable.apart.1 (h ▸ List.nil_prefix)) hgoal

include hsetup hforeseeable hclear in
omit hwritten in
theorem below_of_ne {place : Place} (hdiffers : t.disk.get? place ≠ s.disk.get? place) :
    directory.place <+: place :=
  Classical.not_not.mp fun hnot => hdiffers
    ((cleared_of_runs hsetup hclear).get? hsetup.isAbsolute_directory
      hforeseeable.resolve_directory hnot)

include hsetup hforeseeable hclear in
omit hwritten in
/-- Nothing below the root has been cleared away. -/
theorem get?_below_root (names : List Text) :
    t.disk.get? (project.store.projectRoot.place ++ names)
      = s.disk.get? (project.store.projectRoot.place ++ names) := by
  refine Classical.not_not.mp fun hdiffers => ?_
  have hbelow := below_of_ne hsetup hforeseeable hclear hdiffers
  rcases List.prefix_or_prefix_of_prefix hbelow (List.prefix_append _ names) with h | h
  · exact hforeseeable.apart.1 h
  · exact hforeseeable.apart.2 h

include hsetup hforeseeable hwritten hclear

/-- The earlier disk, and the one from which the old backups have been cleared away. -/
def prospectOf : Prospect where
  left := earlier
  right := t.disk
  log := log
  roots := project.roots
  isAbsolute_log := hsetup.isAbsolute_log log hforeseeable.isLog
  unique hgoal hfound := (locates_of_clear hsetup hforeseeable hclear hfound).unique
    (hwritten.locates_iff.mpr hgoal)
  spellable_left place target hlink :=
    hforeseeable.spellable place target ((hwritten.stays.link place target).mp hlink)
  spellable_right place target hlink :=
    hforeseeable.spellable place target ((cleared_of_runs hsetup hclear).get?_eq_some hlink)

theorem isLog_prospectOf {place : Place} :
    (prospectOf hsetup hforeseeable hwritten hclear).IsLog place ↔ s.disk.LeadsThere log place := by
  refine exists_congr fun goal => and_congr_left fun _ =>
    ⟨?_, fun h => .inl (hwritten.locates_iff.mp h)⟩
  rintro (h | h)
  · exact hwritten.locates_iff.mpr h
  · exact locates_of_clear hsetup hforeseeable hclear h

include hfresh

theorem steady_prospectOf {path : Path} (hpath : path ∈ project.config.manifest :: project.roots) :
    (prospectOf hsetup hforeseeable hwritten hclear).Steady path := by
  have habsolute : path.isAbsolute = true := by
    rcases List.mem_cons.mp hpath with rfl | hroot
    · exact hfresh.isAbsolute_manifest
    · rcases List.mem_cons.mp hroot with rfl | hextra
      · exact hsetup.isAbsolute_root
      · exact hfresh.areAbsolute_extraRoots path hextra
  have hnot : ∀ found, s.disk.Locates path found → ¬ s.disk.LeadsThere log found.place := by
    rintro found hfound ⟨goal, hgoal, hplace⟩
    exact hforeseeable.not_log goal hgoal path hpath found hfound hplace.symm
  refine ⟨habsolute, ?_, fun found hfound hlog => ?_, fun found hfound hlog => ?_⟩
  · rw [show (prospectOf hsetup hforeseeable hwritten hclear).right.reach .target path
      = s.disk.reach .target path from hforeseeable.steady cleared t hclear path hpath]
    exact Disk.gist_reach_of_writtenAt hwritten habsolute fun goal hgoal =>
      hnot goal (hwritten.locates_iff.mpr hgoal)
  · exact hnot found (hwritten.locates_iff.mpr hfound)
      ((isLog_prospectOf hsetup hforeseeable hwritten hclear).mp hlog)
  · exact hnot found (locates_of_clear hsetup hforeseeable hclear hfound)
      ((isLog_prospectOf hsetup hforeseeable hwritten hclear).mp hlog)

theorem indexesAlike_prospectOf : (prospectOf hsetup hforeseeable hwritten hclear).IndexesAlike
    project.config.index project.config.projectRoot := by
  have hroot : ∀ {goal}, t.disk.Locates project.config.projectRoot goal →
      goal = project.store.projectRoot := fun hgoal =>
    (Disk.eq_of_resolve (.refl _) hsetup.isAbsolute_root
      (locates_of_clear hsetup hforeseeable hclear hgoal) hsetup.resolve_root).symm
  have hlog : ∀ {place : Place}, (prospectOf hsetup hforeseeable hwritten hclear).IsLog place ↔
      s.disk.LeadsThere log place := isLog_prospectOf hsetup hforeseeable hwritten hclear
  refine ⟨steady_prospectOf hsetup hfresh hforeseeable hwritten hclear
    (List.mem_cons_of_mem _ List.mem_cons_self), fun goal _ hgoal names hnot => ?_,
    fun goal _ hgoal names => ?_, fun goal _ hgoal stem dirs names hdir hthere => ?_⟩
  · obtain rfl := hroot hgoal
    exact (hwritten.elsewhere _ fun h => hnot (hlog.mpr h)).symm.trans
      (get?_below_root hsetup hforeseeable hclear names).symm
  · obtain rfl := hroot hgoal
    rw [show (prospectOf hsetup hforeseeable hwritten hclear).right.get? _ = s.disk.get? _ from
      get?_below_root hsetup hforeseeable hclear names]
    exact (hwritten.get?_eq_some_iff (by simp) _).symm
  · obtain rfl := hroot hgoal
    obtain ⟨found, hfound, hplace⟩ := hlog.mp hthere
    exact hforeseeable.not_indexed found hfound stem dirs names hdir hplace

theorem scansAlike_prospectOf : (prospectOf hsetup hforeseeable hwritten hclear).ScansAlike
    project.config.scan project.config.manifest where
  manifest := steady_prospectOf hsetup hfresh hforeseeable hwritten hclear List.mem_cons_self
  roots root hroot :=
    steady_prospectOf hsetup hfresh hforeseeable hwritten hclear (List.mem_cons_of_mem _ hroot)
  log root hroot reached hleft _ way name hway hlog := by
    obtain ⟨goal, hgoal, hplace⟩ := (isLog_prospectOf hsetup hforeseeable hwritten hclear).mp hlog
    exact hforeseeable.not_scanned goal hgoal root hroot reached
      (hwritten.locates_iff.mpr hleft) way
      name hway hplace
  differing root hroot hlooked reached hleft _ way name content hway hdiffers hfile := by
    have hreached := hwritten.locates_iff.mpr hleft
    by_cases hlog : s.disk.LeadsThere log (reached.place ++ (way ++ [name]))
    · obtain ⟨goal, hgoal, hplace⟩ := hlog
      exact hforeseeable.not_scanned goal hgoal root hroot reached hreached way name hway hplace
    -- A backup of a dialect would be searched.
    have hsame := hwritten.elsewhere _ hlog
    have hbelow : directory.place <+: reached.place ++ (way ++ [name]) :=
      below_of_ne hsetup hforeseeable hclear fun h => hdiffers (hsame.symm.trans h.symm)
    have hlies : s.disk.get? (reached.place ++ (way ++ [name])) = some (.file content) :=
      hfile.elim hsame.trans (cleared_of_runs hsetup hclear).get?_eq_some
    refine Option.not_isSome_iff_eq_none.mp fun hdialect => ?_
    have habsolute := (steady_prospectOf hsetup hfresh hforeseeable hwritten hclear
      (List.mem_cons_of_mem _ hroot)).isAbsolute
    have hlisted := Disk.isListed_of_get? hlies
    have hplace := Disk.place_descend reached hlisted
    obtain ⟨hmem, hgoal⟩ := (Usage.mem_filesOn_iff habsolute hreached (.refl _)).mpr
      ⟨hlooked, .inr ⟨way, name, hway, hlisted, rfl, rfl⟩, content, hplace.symm ▸ hlies⟩
    exact hforeseeable.scanned _ ⟨_, Usage.mem_visits.mpr (.inr ⟨root, hroot, hmem⟩), _,
      hgoal, hplace, hdialect⟩ hbelow

end

/-! ## The two rounds -/

/-- In a session that agrees, a round does the same up to its pass, if it searches the same
roots. -/
theorem exists_counted {prospect : Prospect} {alike : Catalog → Catalog → Prop} {d : Session}
    {report : RoundReport} {t' : Session} (c : Course project t report t')
    (hindexes : prospect.IndexesAlike project.config.index project.config.projectRoot)
    (hscans : prospect.ScansAlike project.config.scan project.config.manifest)
    (hsubset : c.roots ⊆ prospect.roots)
    (hroots : ∀ d', d'.roots = d.roots → prospect.Agree Eq
      { c.indexed with catalog := c.built } d' →
      ∃ d'', Runs (searchRoots project.config) d' c.roots d'' ∧ prospect.Agree Eq c.listed d'')
    (hagree : prospect.Agree alike t d) :
    ∃ d₁ d₂ d₃, Runs (Index.build project.config.index project.config.projectRoot) d c.built d₁
      ∧ Runs (searchRoots project.config) { d₁ with catalog := c.built } c.roots d₂
      ∧ Runs (Usage.scan project.config.scan c.roots (some project.config.manifest)) d₂ c.stats d₃
      ∧ prospect.Agree Eq c.counted d₃ := by
  obtain ⟨_, d₁, hbuild, rfl, hindexed⟩ := Prospect.follows_build hindexes hagree _ _ c.runs_build
  have hkept : d₁.roots = d.roots := (Index.steps_build (R := KeepsRoots) _ _).runs hbuild
  have hbuilt : prospect.Agree Eq { c.indexed with catalog := c.built }
      { d₁ with catalog := c.built } :=
    { hindexed with catalog := rfl }
  obtain ⟨d₂, hsearch, hlisted⟩ := hroots { d₁ with catalog := c.built } hkept hbuilt
  obtain ⟨_, d₃, hscan, rfl, hcounted⟩ :=
    Prospect.follows_scan hscans hsubset hlisted _ _ c.runs_scan
  exact ⟨d₁, d₂, d₃, hbuild, hsearch, hscan, hcounted⟩

/-- A table of counts is flat. -/
theorem depth_countsData_le (counts : List (Category × Nat)) :
    (countsData counts).plain.depth ≤ Event.maxDepth :=
  Datum.depth_object_le (fun _ => rfl) counts

theorem exists_conclude {prospect : Prospect} {alike : Catalog → Catalog → Prop} {d : Session}
    (hagree : prospect.Agree alike s d) (report : RoundReport) :
    ∃ d', Runs (conclude report) d report d' ∧ prospect.Agree alike s d' := by
  have hdata : Datum.AreShallow
      [("number", .json (.int report.number)), ("found", countsData report.found),
        ("unused", .nat report.unusedCount), ("removed", .nat report.removedCount),
        ("failed", .nat (totalOf report.failed))] := by
    simp [depth_countsData_le]
  obtain ⟨event, d', hrecord, hagree'⟩ := Prospect.exists_record hagree "round" true none hdata
  exact ⟨d', Task.runs_bind.mpr ⟨(), d', Task.runs_discard.mpr ⟨event, hrecord⟩,
    Task.runs_pure.mpr ⟨rfl, rfl⟩⟩, hagree'⟩

theorem exists_summarize {prospect : Prospect} {alike : Catalog → Catalog → Prop} {d : Session}
    (hagree : prospect.Agree alike s d) (dryRun : Bool) (rounds : List RoundReport) :
    ∃ report d', Runs (summarize project dryRun rounds) d report d'
      ∧ prospect.Agree alike s d' := by
  have hdata : Datum.AreShallow
      [("dry_run", .json (.bool dryRun)), ("rounds", .nat rounds.length),
        ("total_removed",
          .nat (totalOf
            (removedByCategory (rounds.filter fun report => 0 < report.removedCount))))] := by
    simp
  obtain ⟨event, d', hrecord, hagree'⟩ := Prospect.exists_record hagree "run" true none hdata
  exact ⟨_, d', Task.runs_bind.mpr ⟨(), d', Task.runs_discard.mpr ⟨event, hrecord⟩,
    Task.runs_get_bind.mpr (Task.runs_pure.mpr ⟨rfl, rfl⟩)⟩, hagree'⟩

end Run

end ResourcePruner
