import ResourcePruner.Proofs.Definition.Again
import ResourcePruner.Proofs.Index.Order
import ResourcePruner.Proofs.Removal.Reindex
import ResourcePruner.Proofs.Run.Changes
import ResourcePruner.Proofs.Usage.Counting

/-!
# One round after another

A `Course` is a round taken apart: the index, the roots, the scan, the pass and the report, each
with the session in which it ends. What a round has found of a resource bears on the next one. There
nothing is found that was not found before (`Consecutive.has_of_next`), and nothing is in use that
was not (`Consecutive.isUsed_of_next`).
-/

namespace ResourcePruner

open Disk (Extends Same IsChange Evolves)

theorem Catalog.exists_mem_unused_iff {catalog : Catalog} {r : Resource} :
    (∃ record, (r, record) ∈ catalog.unused) ↔ catalog.contains r = true ∧ ¬ catalog.IsUsed r := by
  simp only [mem_unused, contains, Option.isSome_iff_exists, IsUsed]
  constructor
  · rintro ⟨record, hget, hunused⟩
    refine ⟨⟨record, hget⟩, ?_⟩
    rintro ⟨record', hget', hused⟩
    obtain rfl := Option.some.inj (hget.symm.trans hget')
    rw [hunused] at hused
    cases hused
  · rintro ⟨⟨record, hget⟩, hnot⟩
    exact ⟨record, hget, Bool.eq_false_iff.mpr fun hused => hnot ⟨record, hget, hused⟩⟩

/-- In a file, an unused inline resource is doomed that has the file. -/
theorem Removal.doomedBy_iff {catalog : Catalog} {file : Path} {r : Resource} :
    doomedBy catalog file r = true ↔
      r.category.isInline = true ∧ catalog.Has r file ∧ ¬ catalog.IsUsed r := by
  rw [doomedBy_eq_true]
  refine and_congr_right fun _ => ⟨?_, ?_⟩
  · rintro ⟨record, hunused, hfile⟩
    exact ⟨Catalog.has_of_mem_unused hunused hfile,
      (Catalog.exists_mem_unused_iff.mp ⟨record, hunused⟩).2⟩
  · rintro ⟨⟨record, hget, hfile⟩, hnot⟩
    exact ⟨record, Catalog.mem_unused.mpr ⟨hget, Bool.eq_false_iff.mpr fun hused =>
      hnot ⟨record, hget, hused⟩⟩, hfile⟩

/-- Nothing is used before references are counted. -/
theorem Index.not_isUsed_build {settings : IndexSettings} {root : Path} {s s' : Session}
    {catalog : Catalog} (hruns : Task.Runs (build settings root) s catalog s') (r : Resource) :
    ¬ catalog.IsUsed r := by
  rintro ⟨record, hget, hused⟩
  rw [Record.isUsed, uses_build hruns hget] at hused
  cases hused

/-- A session that belongs to a scene belongs to one that ends with any other disk. -/
theorem Scene.Has.exists_ending {scene : Scene} {s : Session} (hhas : scene.Has s) (disk : Disk) :
    ∃ other : Scene, other.Has s ∧ other.last = disk := by
  have hlog : ∀ log, s.trail.log = some log → log.isAbsolute = true :=
    fun log h => scene.isAbsolute_log log (hhas.log.symm.trans h)
  exact ⟨.ofLog s.disk disk s.trail.log hlog, Scene.has_ofLog rfl, rfl⟩

namespace Run

open ResourcePruner.Task (Runs Steps IsLogged IsCounted Preserves)
open Usage (Known Shrinks Searches Reaches)
open Removal (Deletes doomedBy)

/-- Nothing that is indexed below the project root lies where nothing is said. -/
def ShowsIndexed (project : Project) (scene : Scene) : Prop :=
  ∀ goal stem file place, scene.last.Locates project.config.projectRoot goal →
    Index.Indexes project.config.index project.config.projectRoot goal stem file place →
    ¬ scene.hidden place

/-- A round that ends, and what it does on the way. -/
structure Course (project : Project) (s : Session) (report : RoundReport) (s' : Session) where
  built : Catalog
  indexed : Session
  roots : List Path
  listed : Session
  stats : Usage.ScanStats
  counted : Session
  removal : Removal
  passed : Session
  runs_build : Runs (Index.build project.config.index project.config.projectRoot) s built indexed
  runs_searchRoots : Runs (searchRoots project.config)
    { indexed with catalog := built } roots listed
  runs_scan : Runs (Usage.scan project.config.scan roots (some project.config.manifest)) listed
    stats counted
  runs_removeUnused : Runs (Removal.removeUnused project.store) counted removal passed
  runs_conclude : Runs (conclude report) passed report s'
  report_eq : ∃ number, report = reportOf number false built counted.catalog stats removal

section

variable {project : Project} {s s' : Session} {report : RoundReport} {number : Int}

theorem exists_course (hruns : Runs (round project number false) s report s') :
    Nonempty (Course project s report s') := by
  rw [round_eq] at hruns
  obtain ⟨built, indexed, hbuild, hruns⟩ := Task.runs_bind.mp hruns
  obtain ⟨_, _, hmodify, hruns⟩ := Task.runs_bind.mp hruns
  obtain rfl := Task.runs_modify.mp hmodify
  obtain ⟨roots, listed, hroots, hruns⟩ := Task.runs_bind.mp hruns
  obtain ⟨stats, counted, hscan, hruns⟩ := Task.runs_bind.mp hruns
  obtain ⟨removal, passed, hremove, hruns⟩ := Task.runs_bind.mp (Task.runs_get_bind.mp hruns)
  obtain ⟨_, _, hsucceed, hpure⟩ := Task.runs_bind.mp hruns
  obtain ⟨rfl, rfl⟩ := Task.runs_pure.mp hpure
  exact ⟨⟨built, indexed, roots, listed, stats, counted, removal, passed, hbuild, hroots, hscan,
    hremove, hruns, number, rfl⟩⟩

end

namespace Course

variable {project : Project} {s s' : Session} {report : RoundReport} {scene : Scene}
  {r : Resource} {file : Path}

/-! ## Within a round -/

theorem sameFiles (c : Course project s report s') : c.built.SameFiles c.counted.catalog := by
  have hcounted : IsCounted (Preserves fun t : Session => c.built.SameFiles t.catalog) :=
    Catalog.isCounted_preserves fun _ _ hsame h => h.trans hsame
  have hlisted := (steps_searchRoots (R := Preserves fun t => c.built.SameFiles t.catalog) _).runs
    c.runs_searchRoots (.refl _)
  exact (Usage.steps_scan (R := Preserves fun t => c.built.SameFiles t.catalog) _ _ _).runs
    c.runs_scan hlisted

theorem has_counted (c : Course project s report s') :
    c.counted.catalog.Has r file ↔ c.built.Has r file :=
  Catalog.has_congr c.sameFiles

theorem frame_indexed (c : Course project s report s') (hhas : scene.Has s) :
    Frame scene Nowhere Same s c.indexed :=
  .of_steps hhas c.runs_build (Index.steps_build _ _)

theorem frame_listed (c : Course project s report s') (hhas : scene.Has s) :
    Frame scene Nowhere Same s c.listed := by
  have hindexed := c.frame_indexed hhas
  have hbuilt : Frame scene Nowhere Same c.indexed { c.indexed with catalog := c.built } :=
    Frames.of_disk rfl rfl (fun _ h => h) hindexed.has
  exact (hindexed.trans hbuilt).trans
    (.of_steps hbuilt.has c.runs_searchRoots (steps_searchRoots _))

theorem frame_scanned (c : Course project s report s') (hhas : scene.Has c.listed) :
    Frame scene Nowhere Same c.listed c.counted :=
  .of_steps hhas c.runs_scan (Usage.steps_scan _ _ _)

/-- Until the pass begins, nothing changes. -/
theorem frame_counted (c : Course project s report s') (hhas : scene.Has s) :
    Frame scene Nowhere Same s c.counted :=
  (c.frame_listed hhas).trans (c.frame_scanned (c.frame_listed hhas).has)

/-- From the index to the end of the scan nothing changes. -/
theorem frame_built (c : Course project s report s') (hhas : scene.Has s) :
    Frame scene Nowhere Same { c.indexed with catalog := c.built } c.counted :=
  .of_steps ⟨(c.frame_indexed hhas).log, (c.frame_indexed hhas).has.fits⟩
    (Task.runs_bind.mpr ⟨_, _, c.runs_searchRoots, c.runs_scan⟩)
    ((steps_searchRoots _).bind fun roots => Usage.steps_scan _ roots _)

theorem liesOn (c : Course project s report s')
    (hroot : project.config.projectRoot.isAbsolute = true) (hhas : scene.Has s) :
    c.counted.catalog.LiesOn c.counted.disk := by
  obtain ⟨other, hother, hlast⟩ := hhas.exists_ending c.indexed.disk
  have hlies := Index.liesOn_of_build hroot hother (hlast ▸ .refl _) c.runs_build
  exact (hlies.mono (c.frame_built hhas).stays).of_has fun r file => c.has_counted.mp

theorem isBacked (c : Course project s report s')
    (hroot : project.config.projectRoot.isAbsolute = true) (hhas : scene.Has s)
    (hcontains : c.counted.catalog.contains r = true) : ∃ file, c.counted.catalog.Has r file := by
  obtain ⟨other, hother, hlast⟩ := hhas.exists_ending c.indexed.disk
  have hbuilt : c.built.contains r = true := (c.sameFiles.contains_eq r).symm.trans hcontains
  exact (Index.isBacked_build hroot hother (hlast ▸ .refl _) c.runs_build r hbuilt).imp
    fun file => c.has_counted.mpr

/-- Each file of the counted catalog was found below the root. -/
theorem exists_enters (c : Course project s report s')
    (hroot : project.config.projectRoot.isAbsolute = true) (hhas : scene.Has s)
    (hfile : c.counted.catalog.Has r file) : ∃ goal place,
      s.disk.Locates project.config.projectRoot goal ∧ Index.Enters project.config.index
        project.config.projectRoot goal c.counted.disk r file place := by
  obtain ⟨other, hother, hlast⟩ := hhas.exists_ending c.indexed.disk
  obtain ⟨goal, place, hgoal, -, henters, -⟩ := Index.enters_of_build hroot hother (hlast ▸ .refl _)
    c.runs_build (c.has_counted.mp hfile)
  exact ⟨goal, place, hgoal, henters.mono (c.frame_built hhas).stays⟩

section

variable {gone : Place → Prop} {change : Place → Bytes → Bytes → Prop} [IsChange change]

/-- The pass changes files as pruning does and deletes those of unused resources. -/
theorem frame_pass (c : Course project s report s')
    (hroot : project.config.projectRoot.isAbsolute = true) (hhas : scene.Has s)
    (hbackups : scene.backups = some project.store.directory)
    (hchange : ∀ r file place, c.counted.catalog.Has r file → r.category.isInline = true →
      c.counted.disk.Stands file place → ¬ scene.hidden place → ∀ before after,
        Prunes (doomedBy c.counted.catalog file) before after → change place before after) :
    Frame scene (Deletes c.counted.catalog c.counted.disk) change c.counted c.passed := by
  have hcounted := (c.frame_counted hhas).has
  have hpass : Frame (scene.after hcounted) (Deletes c.counted.catalog c.counted.disk) change
      c.counted c.passed :=
    Removal.frame_removeUnused hcounted.after hbackups (c.liesOn hroot hhas) hchange
      c.runs_removeUnused
  exact hpass.of_after

theorem frame_concluded (c : Course project s report s') (hhas : scene.Has c.passed) :
    Frame scene gone change c.passed s' :=
  .of_steps hhas c.runs_conclude (steps_conclude _)

/-- All in all, a round changes what its pass changes. -/
theorem frame (c : Course project s report s')
    (hroot : project.config.projectRoot.isAbsolute = true) (hhas : scene.Has s)
    (hbackups : scene.backups = some project.store.directory)
    (hchange : ∀ r file place, c.counted.catalog.Has r file → r.category.isInline = true →
      c.counted.disk.Stands file place → ¬ scene.hidden place → ∀ before after,
        Prunes (doomedBy c.counted.catalog file) before after → change place before after) :
    Frame scene (Deletes c.counted.catalog c.counted.disk) change s s' := by
  have hpass := c.frame_pass hroot hhas hbackups hchange
  exact ((c.frame_counted hhas).of_same.trans hpass).trans (c.frame_concluded hpass.has)

theorem frame_passed (c : Course project s report s')
    (hroot : project.config.projectRoot.isAbsolute = true) (hhas : scene.Has s)
    (hbackups : scene.backups = some project.store.directory) :
    Frame scene (Deletes c.counted.catalog c.counted.disk) Disk.Anyhow c.counted c.passed :=
  c.frame_pass hroot hhas hbackups fun _ _ _ _ _ _ _ _ _ _ => trivial

theorem stays_passed (c : Course project s report s')
    (hroot : project.config.projectRoot.isAbsolute = true) (hhas : scene.Has s)
    (hbackups : scene.backups = some project.store.directory) : Extends s.disk c.passed.disk :=
  (c.frame_counted hhas).stays.trans (c.frame_passed hroot hhas hbackups).stays

end

/-- The files of the counted catalog are those that are indexed, if the root was a directory when
the round began. -/
theorem has_iff (c : Course project s report s')
    (hroot : project.config.projectRoot.isAbsolute = true) (hhas : scene.Has s)
    (hlast : Extends c.counted.disk scene.last) (hshown : ShowsIndexed project scene) :
    c.counted.catalog.Has r file ↔ ∃ goal, Disk.IsLookedUp project.config.projectRoot
      ∧ s.disk.Locates project.config.projectRoot goal ∧ s.disk.get? goal.place = some .directory
      ∧ ∃ stem place content,
        Index.Indexes project.config.index project.config.projectRoot goal stem file place
        ∧ c.counted.disk.get? place = some (.file content)
        ∧ r ∈ Index.resourcesOf project.config.index stem file content := by
  have hindexed := c.frame_indexed hhas
  have hcounted := c.frame_counted hhas
  have hlast₁ : Extends c.indexed.disk scene.last := (c.frame_built hhas).stays.trans hlast
  have hshown' : ∀ {goal}, s.disk.Locates project.config.projectRoot goal → ∀ stem file place,
      Index.Indexes project.config.index project.config.projectRoot goal stem file place →
      ¬ scene.hidden place :=
    fun hgoal stem file place => hshown _ stem file place (hgoal.mono (hcounted.stays.trans hlast))
  have hiff : ∀ {goal}, s.disk.Locates project.config.projectRoot goal →
      s.disk.get? goal.place = some .directory → Disk.IsLookedUp project.config.projectRoot →
      (c.built.Has r file ↔ ∃ stem place content,
        Index.Indexes project.config.index project.config.projectRoot goal stem file place
        ∧ c.counted.disk.get? place = some (.file content)
        ∧ r ∈ Index.resourcesOf project.config.index stem file content) := by
    intro goal hgoal hdirectory hlooked
    rw [Index.has_build_iff hroot hhas hlast₁ hgoal hlooked hdirectory (hshown' hgoal) c.runs_build]
    refine exists₃_congr fun stem place content => and_congr_right fun hindexes => ?_
    rw [hcounted.get?_file_iff hlast (hshown' hgoal _ _ _ hindexes)]
  rw [c.has_counted]
  constructor
  · intro hfile
    rcases Index.adds_build hroot hhas hlast₁ c.runs_build with
      ⟨goal, hlooked, hgoal, hdirectory, -⟩ | ⟨-, hempty⟩
    · exact ⟨goal, hlooked, hgoal, hdirectory, (hiff hgoal hdirectory hlooked).mp hfile⟩
    · rw [hempty] at hfile
      exact absurd hfile Catalog.not_has_empty
  · rintro ⟨goal, hlooked, hgoal, hdirectory, hfile⟩
    exact (hiff hgoal hdirectory hlooked).mpr hfile

theorem catalog_listed (c : Course project s report s') : c.listed.catalog = c.built := by
  rcases Run.runs_searchRoots (R := KeepsCatalog) c.runs_searchRoots with
    ⟨-, hlisted⟩ | ⟨-, t, hsame, hlisted, -⟩
  · rw [hlisted]
  · rw [hlisted]
    exact hsame

theorem roots_listed (c : Course project s report s') : c.listed.roots = some c.roots := by
  rcases Run.runs_searchRoots (R := KeepsCatalog) c.runs_searchRoots with
    ⟨hroots, hlisted⟩ | ⟨-, t, -, hlisted, -⟩
  · rw [hlisted]
    exact hroots
  · rw [hlisted]

/-- Roots that have been determined are searched again. -/
theorem roots_eq (c : Course project s report s') (hhas : scene.Has s) {roots : List Path}
    (hroots : s.roots = some roots) : c.roots = roots := by
  have hindexed := (c.frame_indexed hhas).roots roots hroots
  rcases Run.runs_searchRoots (R := KeepsCatalog) c.runs_searchRoots with
    ⟨hknown, -⟩ | ⟨hnone, -⟩
  · rw [hindexed] at hknown
    exact (Option.some.inj hknown).symm
  · rw [hindexed] at hnone
    cases hnone

/-- Roots that are determined in the round lead somewhere. -/
theorem known (c : Course project s report s') (hhas : scene.Has s)
    (hroot : project.config.projectRoot.isAbsolute = true) {goal : Path}
    (hgoal : s.disk.Locates project.config.projectRoot goal)
    (hextra : Config.AreAbsolute project.config.extraRoots)
    (hmanifest : project.config.manifest.isAbsolute = true)
    (hleads : ∃ goal, s.disk.Locates project.config.manifest goal) (hnone : s.roots = none) :
    Known c.listed.disk project.config.manifest c.roots := by
  have hindexed := c.frame_indexed hhas
  have hlisted := c.frame_listed hhas
  have hsame : c.indexed.roots = s.roots :=
    (Index.steps_build (R := KeepsRoots) _ _).runs c.runs_build
  have hleads' := hleads.imp fun _ h => h.mono hlisted.stays
  rcases Run.runs_searchRoots (R := Frames scene Nowhere Same) c.runs_searchRoots with
    ⟨hknown, -⟩ | ⟨-, t, -, ht, hroots⟩
  · rw [show ({ c.indexed with catalog := c.built } : Session).roots = none from hsame.trans hnone]
      at hknown
    cases hknown
  have hfound : ∀ root ∈ c.roots, root.isAbsolute = true ∧ ∃ goal,
      c.listed.disk.Locates root goal := by
    intro root hmem
    rcases hroots root hmem with rfl | ⟨hmem, u, hsu, hut, hpresent⟩
    · exact ⟨hroot, goal, hgoal.mono hlisted.stays⟩
    · obtain ⟨place, hplace⟩ := Disk.locates_of_isPresent (hextra root hmem) hpresent
      refine ⟨hextra root hmem, place, ?_⟩
      rw [ht]
      exact hplace.mono (hut (hsu ⟨hindexed.log, hindexed.has.fits⟩).has).stays
  exact ⟨hmanifest, fun root h => (hfound root h).1, hleads', fun root h => (hfound root h).2⟩

theorem unused_of_removed (c : Course project s report s')
    (hroot : project.config.projectRoot.isAbsolute = true) (hhas : scene.Has s)
    (hlast : Extends c.passed.disk scene.last)
    (hbackups : scene.backups = some project.store.directory) (hr : r ∈ c.removal.removed) :
    c.counted.catalog.contains r = true ∧ ¬ c.counted.catalog.IsUsed r :=
  Catalog.exists_mem_unused_iff.mp (Removal.unused_of_removed (c.frame_counted hhas).has.after hlast
    hbackups (c.liesOn hroot hhas) c.runs_removeUnused hr)

/-- Every file of an inline resource that is removed could be pruned. -/
theorem isPrunable_of_removed (c : Course project s report s')
    (hroot : project.config.projectRoot.isAbsolute = true) (hhas : scene.Has s)
    (hlast : Extends c.passed.disk scene.last)
    (hbackups : scene.backups = some project.store.directory) (hr : r ∈ c.removal.removed)
    (hkind : r.category.isInline = true) (hfile : c.counted.catalog.Has r file) {place : Place}
    (hstands : c.counted.disk.Stands file place) (hshown : ¬ scene.hidden place) {before : Bytes}
    (hbefore : c.counted.disk.get? place = some (.file before)) :
    Disk.IsLookedUp file ∧ Removal.IsPrunable (doomedBy c.counted.catalog file) before := by
  obtain ⟨-, text, hlooked, hdecode, hended, hwritten, -⟩ :=
    Removal.get?_of_removed (c.frame_counted hhas).has.after hlast hbackups (c.liesOn hroot hhas)
      c.runs_removeUnused hr hkind hfile hstands hshown hbefore
  exact ⟨hlooked, text, hdecode, hended, hwritten⟩

/-- A resource of the catalog is used if a line refers to it that is still searched in the end, at a
place of which something is said. -/
theorem isUsed_of_searches (c : Course project s report s') (hhas : scene.Has s)
    (hknown : Known c.listed.disk project.config.manifest c.roots) {t : Session}
    (hframe : Frame scene Anywhere Shrinks c.counted t) (hlast : t.disk = scene.last)
    {goal : Path} (hshown : ¬ scene.hidden goal.place) {dialect : Dialect} {content : Bytes}
    (hsearches :
      Searches project.config.scan scene.last project.config.manifest c.roots goal dialect
      content) {line : Text} (hline : line ∈ Index.searchedLines content)
    (hrefers : Reference.refers dialect line r = true)
    (hcontains : c.counted.catalog.contains r = true) : c.counted.catalog.IsUsed r := by
  have hlast' : Extends c.counted.disk scene.last := hlast ▸ hframe.stays
  refine Usage.isUsed_of_searches (c.frame_listed hhas).has hlast' hknown c.runs_scan
    (hlast ▸ hframe.evolves (hlast ▸ .refl _)) hshown hsearches hline hrefers ?_
  rw [c.catalog_listed]
  exact (c.sameFiles.contains_eq r).symm.trans hcontains

end Course

/-! ## Two rounds -/

/-- Two rounds, one right after the other, are seen against a scene that begins before the first and
ends with the scan of the second. Nothing is hidden of what either indexes or the second one
searches. -/
structure Consecutive {project : Project} {s s' t t' : Session} {report report' : RoundReport}
    (scene : Scene) (goal : Path) (c : Course project s report s')
    (d : Course project t report' t') :
    Prop where
  isAbsolute_root : project.config.projectRoot.isAbsolute = true
  isLookedUp_root : Disk.IsLookedUp project.config.projectRoot
  locates : s.disk.Locates project.config.projectRoot goal
  directory : s.disk.get? goal.place = some .directory
  has : scene.Has s
  backups : scene.backups = some project.store.directory
  last : d.counted.disk = scene.last
  shown : ShowsIndexed project scene
  polled : ∃ point, Runs (Task.poll point) s' () t
  known : Known c.listed.disk project.config.manifest c.roots
  reached : ∀ place,
    Reaches project.config.scan d.counted.disk project.config.manifest d.roots place →
    ¬ scene.hidden place

namespace Consecutive

variable {project : Project} {s s' t t' : Session} {report report' : RoundReport} {scene : Scene}
  {c : Course project s report s'} {d : Course project t report' t'} {r : Resource}
  {goal file : Path} {stem : Text} {place : Place} {content : Bytes}

/-- Between the pass and the next round nothing changes. -/
theorem frame_passed (h : Consecutive scene goal c d) : Frame scene Nowhere Same c.passed t := by
  have hpass := c.frame_passed h.isAbsolute_root h.has h.backups
  have hconcluded : Frame scene Nowhere Same c.passed s' := c.frame_concluded hpass.has
  obtain ⟨point, hpoll⟩ := h.polled
  exact hconcluded.trans (.of_steps hconcluded.has hpoll (Task.steps_poll point))

/-- From the time at which the roots of one round are known until the next round begins. -/
theorem frame_next (h : Consecutive scene goal c d) :
    Frame scene Anywhere Disk.Anyhow c.listed t := by
  have hscanned := c.frame_scanned (c.frame_listed h.has).has
  have hpass := c.frame_passed h.isAbsolute_root h.has h.backups
  exact (hscanned.of_same.trans (hpass.imp (fun _ _ => trivial) fun _ _ _ _ h => h)).trans
    h.frame_passed.of_same

theorem has_next (h : Consecutive scene goal c d) : scene.Has t :=
  h.frame_next.has

theorem stays (h : Consecutive scene goal c d) : Extends s.disk t.disk :=
  (c.frame_listed h.has).stays.trans h.frame_next.stays

/-- From the scan of one round to that of the next only the pass changes files. -/
theorem frame_between {change : Place → Bytes → Bytes → Prop} [IsChange change]
    (h : Consecutive scene goal c d)
    (hchange : ∀ doomed place before after, Prunes doomed before after →
      change place before after) :
    Frame scene (Deletes c.counted.catalog c.counted.disk) change c.counted d.counted := by
  have hpass : Frame scene (Deletes c.counted.catalog c.counted.disk) change c.counted c.passed :=
    c.frame_pass h.isAbsolute_root h.has h.backups fun _ _ _ _ _ _ _ _ _ => hchange _ _ _ _
  exact hpass.trans (h.frame_passed.trans (d.frame_counted h.has_next)).of_same

theorem frame_between_anyhow (h : Consecutive scene goal c d) :
    Frame scene (Deletes c.counted.catalog c.counted.disk) Disk.Anyhow c.counted d.counted :=
  h.frame_between fun _ _ _ _ _ => trivial

theorem extends_last (h : Consecutive scene goal c d) : Extends c.counted.disk scene.last :=
  h.last ▸ h.frame_between_anyhow.stays

theorem roots_eq (h : Consecutive scene goal c d) : d.roots = c.roots :=
  d.roots_eq h.has_next (h.frame_next.roots _ c.roots_listed)

theorem known_next (h : Consecutive scene goal c d) :
    Known d.listed.disk project.config.manifest d.roots := by
  rw [h.roots_eq]
  exact h.known.mono (h.frame_next.stays.trans (d.frame_listed h.has_next).stays)

theorem not_hidden (h : Consecutive scene goal c d)
    (hindexes :
      Index.Indexes project.config.index project.config.projectRoot goal stem file place) :
    ¬ scene.hidden place :=
  h.shown _ _ _ _ (h.locates.mono ((c.frame_counted h.has).stays.trans h.extends_last)) hindexes

theorem stands (h : Consecutive scene goal c d)
    (hindexes : Index.Indexes project.config.index project.config.projectRoot goal stem file place)
    (hfile : c.counted.disk.get? place = some (.file content)) : c.counted.disk.Stands file place :=
  hindexes.stands h.isAbsolute_root (h.locates.mono (c.frame_counted h.has).stays) (.refl _) hfile

theorem has_iff (h : Consecutive scene goal c d) :
    c.counted.catalog.Has r file ↔ ∃ stem place content,
      Index.Indexes project.config.index project.config.projectRoot goal stem file place
        ∧ c.counted.disk.get? place = some (.file content)
        ∧ r ∈ Index.resourcesOf project.config.index stem file content := by
  rw [c.has_iff h.isAbsolute_root h.has h.extends_last h.shown]
  constructor
  · rintro ⟨goal', -, hgoal', -, hfile⟩
    obtain rfl := hgoal'.unique h.locates
    exact hfile
  · exact fun hfile => ⟨goal, h.isLookedUp_root, h.locates, h.directory, hfile⟩

theorem has_next_iff (h : Consecutive scene goal c d) :
    d.counted.catalog.Has r file ↔ ∃ stem place content,
      Index.Indexes project.config.index project.config.projectRoot goal stem file place
        ∧ d.counted.disk.get? place = some (.file content)
        ∧ r ∈ Index.resourcesOf project.config.index stem file content := by
  rw [d.has_iff h.isAbsolute_root h.has_next (h.last ▸ .refl _) h.shown]
  constructor
  · rintro ⟨goal', -, hgoal', -, hfile⟩
    obtain rfl := hgoal'.unique (h.locates.mono h.stays)
    exact hfile
  · exact fun hfile => ⟨goal, h.isLookedUp_root, h.locates.mono h.stays,
      h.stays.directory _ h.directory, hfile⟩

/-- What is found in the second round was found in the first. -/
theorem has_of_next (h : Consecutive scene goal c d) (hfile : d.counted.catalog.Has r file) :
    c.counted.catalog.Has r file := by
  have hframe : Frame scene (Deletes c.counted.catalog c.counted.disk) Removal.Narrows c.counted
      d.counted := h.frame_between fun _ _ _ _ hprunes => hprunes.declaredIn_subset
  obtain ⟨stem, place, after, hindexes, hafter, hr⟩ := h.has_next_iff.mp hfile
  obtain ⟨before, hbefore, hnarrows⟩ :=
    (hframe.evolves (h.last ▸ .refl _)).back place after (h.not_hidden hindexes) hafter
  exact h.has_iff.mpr ⟨stem, place, before, hindexes, hbefore, Index.resourcesOf_subset hnarrows hr⟩

theorem contains_of_next (h : Consecutive scene goal c d)
    (hcontains : d.counted.catalog.contains r = true) :
    c.counted.catalog.contains r = true := by
  obtain ⟨file, hfile⟩ := d.isBacked h.isAbsolute_root h.has_next hcontains
  exact Catalog.contains_of_has (h.has_of_next hfile)

/-- What is in use in the second round was in use in the first. -/
theorem isUsed_of_next (h : Consecutive scene goal c d) (hused : d.counted.catalog.IsUsed r) :
    c.counted.catalog.IsUsed r := by
  have hlisted := d.frame_listed h.has_next
  have hfresh : ¬ d.listed.catalog.IsUsed r := by
    rw [d.catalog_listed]
    exact Index.not_isUsed_build d.runs_build r
  obtain ⟨-, goal, dialect, content, hshown, hsearches, line, hline, hrefers⟩ :=
    Usage.searches_of_isUsed hlisted.has h.last h.known_next d.runs_scan h.reached hused hfresh
  have hframe :
      Frame scene (Deletes c.counted.catalog c.counted.disk) Shrinks c.counted d.counted :=
    h.frame_between fun _ _ _ _ hprunes => hprunes.searchedLines_subset
  obtain ⟨record, hget, -⟩ := hused
  refine c.isUsed_of_searches h.has h.known
    (hframe.imp (fun _ _ => trivial) fun _ _ _ _ h => h) h.last
    hshown ?_ hline hrefers (h.contains_of_next (by rw [Catalog.contains, hget]; rfl))
  rw [← h.last, ← h.roots_eq]
  exact hsearches

/-- A resource that is a file is not found again once it has been removed. -/
theorem not_contains_of_removed (h : Consecutive scene goal c d) (hr : r ∈ c.removal.removed)
    (hkind : r.category.isInline = false) : ¬ d.counted.catalog.contains r = true := by
  intro hcontains
  obtain ⟨file, hfile⟩ := d.isBacked h.isAbsolute_root h.has_next hcontains
  obtain ⟨stem, place, after, hindexes, hafter, -⟩ := h.has_next_iff.mp hfile
  have hshown := h.not_hidden hindexes
  obtain ⟨before, hbefore, -⟩ :=
    (h.frame_between_anyhow.evolves (h.last ▸ .refl _)).back place after hshown hafter
  have hlater : Frame scene Nowhere Same c.passed d.counted :=
    h.frame_passed.trans (d.frame_counted h.has_next)
  have hlacks := Removal.lacks_of_removed (c.frame_counted h.has).has.after
    (h.last ▸ hlater.stays) h.backups (c.liesOn h.isAbsolute_root h.has) c.runs_removeUnused
      hr hkind
    (h.has_of_next hfile) (h.stands hindexes hbefore) hshown
  exact hlater.lacks (h.last ▸ .refl _) hshown hlacks after hafter

/-- A definition file that could be pruned in the second round declares an inline resource that was
in use in the first and is no more. -/
theorem exists_newly_unused_of_isPrunable (h : Consecutive scene goal c d)
    (hindexes : Index.Indexes project.config.index project.config.projectRoot goal stem file place)
    (hkind : r.category.isInline = true)
    (hcontent : d.counted.disk.get? place = some (.file content))
    (hr : r ∈ Index.resourcesOf project.config.index stem file content)
    (hlooked : Disk.IsLookedUp file)
    (hprunable : Removal.IsPrunable (doomedBy d.counted.catalog file) content) :
    ∃ r', r'.category.isInline = true ∧ d.counted.catalog.contains r' = true
      ∧ ¬ d.counted.catalog.IsUsed r' ∧ c.counted.catalog.IsUsed r' := by
  refine Classical.byContradiction fun hnone => ?_
  -- Whatever is doomed now was doomed already in the first round.
  have hless : ∀ r', doomedBy d.counted.catalog file r' = true →
      doomedBy c.counted.catalog file r' = true := by
    intro r' hdoomed
    obtain ⟨hinline, hfile, hnot⟩ := Removal.doomedBy_iff.mp hdoomed
    exact Removal.doomedBy_iff.mpr ⟨hinline, h.has_of_next hfile, fun hused =>
      hnone ⟨r', hinline, Catalog.contains_of_has hfile, hnot, hused⟩⟩
  have hshown := h.not_hidden hindexes
  obtain ⟨before, hbefore, -⟩ :=
    (h.frame_between_anyhow.evolves (h.last ▸ .refl _)).back place content hshown hcontent
  have hlater : Frame scene Nowhere Same c.passed d.counted :=
    h.frame_passed.trans (d.frame_counted h.has_next)
  have hfile : c.counted.catalog.Has r file :=
    h.has_of_next (h.has_next_iff.mpr ⟨stem, place, content, hindexes, hcontent, hr⟩)
  obtain ⟨_, -, hpruned⟩ := Removal.exists_pruned (c.frame_counted h.has).has.after
    (h.last ▸ hlater.stays) h.backups (c.liesOn h.isAbsolute_root h.has) c.runs_removeUnused
  rcases hpruned r file place before hfile hkind (h.stands hindexes hbefore) hshown hbefore with
    ⟨-, hkept, hnot⟩ | ⟨text, -, hdecode, -, -, hwritten⟩
  · -- The file is as it was, and as much of what it declares is doomed.
    have hsame := (hlater.get?_file_iff (h.last ▸ .refl _) hshown).mpr hkept
    obtain rfl : before = content := by
      rw [hcontent] at hsame
      cases hsame
      rfl
    obtain ⟨text, hdecode, hended, hwrite⟩ := hprunable
    have hdoomed : ∀ r' ∈ (Text.linesWithEnds text).flatMap Declaration.resourcesOn,
        doomedBy d.counted.catalog file r' = doomedBy c.counted.catalog file r' := by
      intro r' hr'
      rw [← declaredIn_of_decode? hdecode] at hr'
      refine Bool.eq_iff_iff.mpr ⟨hless r', fun hdoomed => ?_⟩
      obtain ⟨hinline, -, hnot⟩ := Removal.doomedBy_iff.mp hdoomed
      obtain ⟨hlayout, hdrawable, hdefinition, -⟩ := (Index.mem_resourcesOf_iff hkind).mp hr
      refine Removal.doomedBy_iff.mpr ⟨hinline, h.has_next_iff.mpr ⟨stem, place, before, hindexes,
        hcontent, (Index.mem_resourcesOf_iff hinline).mpr ⟨hlayout, hdrawable, hdefinition, hr'⟩⟩,
        fun hused => hnot (h.isUsed_of_next hused)⟩
    rw [Pruning.ofLines_congr hdoomed] at hended hwrite
    exact hnot hlooked ⟨text, hdecode, hended, hwrite⟩
  · -- The file has been pruned, and nothing more is doomed.
    have hsame := (hlater.get?_file_iff (h.last ▸ .refl _) hshown).mpr hwritten
    rw [hcontent] at hsame
    cases hsame
    obtain ⟨text', hdecode', -, hwrite⟩ := hprunable
    rw [decode?_pruned hdecode] at hdecode'
    cases hdecode'
    rw [Pruning.shouldWrite, Pruning.droppedCount_again fun r' _ => hless r'] at hwrite
    cases hwrite

/-- An inline resource is removed in the second round only if one that was in use in the first is no
more. -/
theorem exists_newly_unused (h : Consecutive scene goal c d) {later : Scene} (hlater : later.Has t)
    (hlast : Extends d.passed.disk later.last)
    (hbackups : later.backups = some project.store.directory) (hshown : ShowsIndexed project later)
    (hr : r ∈ d.removal.removed) (hkind : r.category.isInline = true) :
    ∃ r', r'.category.isInline = true ∧ d.counted.catalog.contains r' = true
      ∧ ¬ d.counted.catalog.IsUsed r' ∧ c.counted.catalog.IsUsed r' := by
  have hcontains := (d.unused_of_removed h.isAbsolute_root hlater hlast hbackups hr).1
  obtain ⟨file, hfile⟩ := d.isBacked h.isAbsolute_root hlater hcontains
  obtain ⟨stem, place, content, hindexes, hcontent, hmem⟩ := h.has_next_iff.mp hfile
  have hgoal := h.locates.mono (h.stays.trans (d.frame_counted hlater).stays)
  have hpass := d.frame_passed h.isAbsolute_root hlater hbackups
  have hshown' := hshown _ _ _ _ (hgoal.mono (hpass.stays.trans hlast)) hindexes
  obtain ⟨hlooked, hprunable⟩ :=
    d.isPrunable_of_removed h.isAbsolute_root hlater hlast hbackups hr hkind
    hfile (hindexes.stands h.isAbsolute_root hgoal (.refl _) hcontent) hshown' hcontent
  exact h.exists_newly_unused_of_isPrunable hindexes hkind hcontent hmem hlooked hprunable

end Consecutive

end Run

end ResourcePruner
