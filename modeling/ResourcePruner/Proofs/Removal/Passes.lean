import ResourcePruner.Proofs.Removal.Outcome

/-!
# A pass after a build

Where the backup directory and the log lie apart from what is indexed, a build and the pass after it
are seen against one scene in which nothing that is indexed is hidden (`Removal.exists_passes`). The
scene may end with any disk that the pass leads to, so that what comes later can be seen against it,
too. The root, the directory and the log have absolute paths, as in every session
(`Run.isSetUp_of_openSession`).
-/

namespace ResourcePruner

open Disk (Extends Same)

/-- The backup directory is missing or empty, and lies neither below the root nor above it. -/
structure Backup.Store.IsApart (store : Backup.Store) (disk : Disk) (root : Path) : Prop where
  isPlain : store.directory.IsPlain
  isVacant : ∀ place, disk.openDirectory store.directory = .ok place → disk.children place = []
  places : ∃ directory resolved, disk.resolve store.directory = .ok directory
    ∧ disk.resolve root = .ok resolved ∧ ¬ resolved.place <+: directory.place
    ∧ ¬ directory.place <+: resolved.place

/-- The log, if there is one, is not among the files that are indexed. -/
def Session.KeepsLogApart (s : Session) (settings : IndexSettings) (root : Path) : Prop :=
  ∀ log, s.trail.log = some log → log.isAbsolute = true
    ∧ ∃ goal resolved, s.disk.resolve log = .ok goal ∧ s.disk.resolve root = .ok resolved
      ∧ ∀ stem file, ¬ Index.Indexes settings root resolved stem file goal.place

namespace Removal

open ResourcePruner.Task (Runs)

section

variable {settings : IndexSettings} {root : Path} {store : Backup.Store} {s : Session}

/-- What is indexed does not lie where events go, as long as paths lead where they resolved to. -/
theorem not_logged_of_indexes (habsolute : root.isAbsolute = true)
    (hlog : s.KeepsLogApart settings root)
    {last : Disk} (hstays : Extends s.disk last) {goal : Path} (hroot : last.Locates root goal)
    {stem : Text} {file : Path} {place : Place}
    (hindexes : Index.Indexes settings root goal stem file place) :
    ¬ ∃ log goal, s.trail.log = some log ∧ last.Locates log goal ∧ goal.place = place := by
  rintro ⟨log, found, hsome, hfound, rfl⟩
  obtain ⟨habsolute', log', root', hlog', hroot', hnot⟩ := hlog log hsome
  obtain rfl := Disk.eq_of_resolve hstays habsolute' hfound hlog'
  obtain rfl := Disk.eq_of_resolve hstays habsolute hroot hroot'
  exact hnot stem file hindexes

/-- What is indexed lies neither where events go nor below the backup directory. -/
theorem not_recorded_of_indexes (habsolute : root.isAbsolute = true)
    (hdirectory : store.directory.isAbsolute = true)
    (hplaces : ∃ directory resolved, s.disk.resolve store.directory = .ok directory
      ∧ s.disk.resolve root = .ok resolved ∧ ¬ resolved.place <+: directory.place
      ∧ ¬ directory.place <+: resolved.place)
    (hlog : s.KeepsLogApart settings root) {last : Disk} (hstays : Extends s.disk last)
    {goal : Path} (hroot : last.Locates root goal) {stem : Text} {file : Path} {place : Place}
    (hindexes : Index.Indexes settings root goal stem file place) :
    ¬ ((∃ log goal, s.trail.log = some log ∧ last.Locates log goal ∧ goal.place = place)
      ∨ last.IsBelow store.directory place) := by
  rintro (hlogged | ⟨-, found, hfound, -, hbelow, -⟩)
  · exact not_logged_of_indexes habsolute hlog hstays hroot hindexes hlogged
  · obtain ⟨directory, root', hdirectory', hroot', hinside, hbeyond⟩ := hplaces
    obtain rfl := Disk.eq_of_resolve hstays hdirectory hfound hdirectory'
    obtain rfl := Disk.eq_of_resolve hstays habsolute hroot hroot'
    obtain ⟨⟨dirs, names, -, -, -, rfl, -⟩, -⟩ := hindexes
    rcases List.prefix_or_prefix_of_prefix hbelow (List.prefix_append _ _) with h | h
    · exact hbeyond h
    · exact hinside h

/-- Nothing that is indexed lies where backups or events go. -/
theorem not_hidden_of_indexes (habsolute : root.isAbsolute = true)
    (hapart : store.IsApart s.disk root) (hlog : s.KeepsLogApart settings root)
    {last : Disk} (hstays : Extends s.disk last) {goal : Path} (hroot : s.disk.Locates root goal)
    {stem : Text} {file : Path} {place : Place}
    (hindexes : Index.Indexes settings root goal stem file place) :
    ¬ (Scene.ofRun s.disk last s.trail.log store.directory (fun log h => (hlog log h).1)
      hapart.isPlain).hidden place :=
  not_recorded_of_indexes habsolute hapart.isPlain.isAbsolute hapart.places hlog hstays
    (hroot.mono hstays) hindexes

end

/-- A pass after a build, seen against a scene in which nothing that is indexed is hidden. -/
structure Passes (settings : IndexSettings) (root goal : Path) (store : Backup.Store)
    (scene : Scene) (s s' : Session) (built : Catalog) : Prop where
  has : scene.Has s
  first : scene.first = s.disk
  backups : scene.backups = some store.directory
  last : Extends s'.disk scene.last
  isAbsolute : root.isAbsolute = true
  isLookedUp : Disk.IsLookedUp root
  locates : s.disk.Locates root goal
  directory : s.disk.get? goal.place = some .directory
  shown : ∀ stem file place, Index.Indexes settings root goal stem file place → ¬ scene.hidden place
  built_iff : ∀ r file, built.Has r file ↔ ∃ stem place content,
    Index.Indexes settings root goal stem file place ∧ s.disk.get? place = some (.file content)
      ∧ r ∈ Index.resourcesOf settings stem file content

section

variable {settings : IndexSettings} {root goal : Path} {store : Backup.Store} {scene : Scene}
  {s s' : Session} {built counted : Catalog} {removal : Removal} {file : Path}

namespace Passes

theorem has_counted (h : Passes settings root goal store scene s s' built)
    (counted : Catalog) : scene.Has { s with catalog := counted } :=
  ⟨h.has.log, h.has.fits⟩

theorem stands (h : Passes settings root goal store scene s s' built) {stem : Text}
    {place : Place} {content : Bytes} (hindexes : Index.Indexes settings root goal stem file place)
    (hfile : s.disk.get? place = some (.file content)) : scene.first.Stands file place := by
  rw [h.first]
  exact hindexes.stands h.isAbsolute h.locates (.refl _) hfile

/-- A file has the same place in both builds. -/
theorem eq_place (h : Passes settings root goal store scene s s' built) {stem : Text}
    {place place' : Place} (hindexes : Index.Indexes settings root goal stem file place)
    {content : Bytes} (hfile : s.disk.get? place = some (.file content))
    (hstands : scene.first.Stands file place') : place' = place :=
  hstands.unique (h.stands hindexes hfile)

/-- The pass keeps to the scene. -/
theorem frame (h : Passes settings root goal store scene s s' built)
    (hlies : counted.LiesOn scene.first)
    (hruns : Runs (removeUnused store) { s with catalog := counted } removal s') :
    Frame scene (Deletes counted scene.first) Disk.Anyhow { s with catalog := counted } s' :=
  frame_removeUnused (h.has_counted counted) h.backups hlies
    (fun _ _ _ _ _ _ _ _ _ _ => trivial) hruns

end Passes

end

/-! ## Where there is nothing to index -/

/-- While events are recorded in a log with an absolute path, no directory is made. -/
def MakesNoDirectory (s s' : Session) : Prop :=
  (∀ log, s.trail.log = some log → log.isAbsolute = true) →
    s'.trail.log = s.trail.log ∧ Extends s'.disk s.disk

instance : Task.IsLogged MakesNoDirectory where
  refl s _ := ⟨rfl, .refl _⟩
  trans hfirst hsecond hlog := by
    obtain ⟨hlog', hback⟩ := hfirst hlog
    obtain ⟨hlog'', hback'⟩ := hsecond fun log h => hlog log (hlog' ▸ h)
    exact ⟨hlog''.trans hlog', hback'.trans hback⟩
  trail _ _ _ _ := ⟨rfl, .refl _⟩
  append s log bytes disk hlog happend habsolute :=
    ⟨rfl, Disk.extends_back_of_writeWith (habsolute log hlog)
      (show s.disk.writeWith log (fun old => old.getD [] ++ bytes) = .ok disk from
        happend)⟩

/-- What is no directory before a build is none after it. -/
theorem not_openDirectory_of_build {settings : IndexSettings} {root : Path} {s s' : Session}
    {built : Catalog} (habsolute : root.isAbsolute = true)
    (hlog : ∀ log, s.trail.log = some log → log.isAbsolute = true)
    (hnone : ∀ place, s.disk.openDirectory root ≠ .ok place)
    (hbuild : Runs (Index.build settings root) s built s') (place : Place) :
    s'.disk.openDirectory root ≠ .ok place := by
  intro hopen
  have hback : Extends s'.disk s.disk :=
    ((Index.steps_build settings root).runs (R := MakesNoDirectory) hbuild hlog).2
  obtain ⟨hlooked, goal, hgoal, rfl, hlies⟩ := Disk.locates_of_openDirectory habsolute hopen
  exact hnone _ (Disk.openDirectory_of_locates habsolute hlooked (hgoal.mono hback)
    (hback.directory _ hlies))

/-- Nothing is removed where nothing is unused. -/
theorem disk_eq_of_unused_eq_nil {store : Backup.Store} {s s' : Session} {removal : Removal}
    (hnone : s.catalog.unused = []) (hruns : Runs (removeUnused store) s removal s') :
    s'.disk = s.disk ∧ removal = nothing := by
  obtain ⟨pruned, settled, t, u, v, hprune, hsettle, hremove, rfl⟩ := runs_removeUnused hruns
  rw [hnone] at hprune hsettle hremove
  obtain ⟨rfl, rfl⟩ := Task.runs_foldlM_nil.mp hprune
  obtain ⟨rfl, rfl⟩ := Task.runs_foldlM_nil.mp hsettle
  obtain ⟨rfl, rfl⟩ := Task.runs_foldlM_nil.mp hremove
  exact ⟨rfl, rfl⟩

/-- A pass where the root is no directory: nothing is known, and nothing is done. -/
structure PassesOver (root : Path) (s s' : Session) (counted : Catalog) (removal : Removal) :
    Prop where
  not_openDirectory : ∀ place, s.disk.openDirectory root ≠ .ok place
  unknown : ∀ r, counted.get? r = none
  disk_eq : s'.disk = s.disk
  eq_nothing : removal = nothing

/-! ## Builds and passes -/

section

variable {settings : IndexSettings} {root : Path} {store : Backup.Store}
  {s₀ s₁ s₂ : Session} {built counted : Catalog} {removal : Removal}

/-- What is counted lies where it was found, and every resource has a file. -/
theorem liesOn_of_counted (habsolute : root.isAbsolute = true)
    (hapart : store.IsApart s₀.disk root) (hlog : s₀.KeepsLogApart settings root)
    (hbuild : Runs (Index.build settings root) s₀ built s₁)
    (hcounted : ∀ r, (counted.get? r).map (·.files) = (built.get? r).map (·.files)) :
    counted.LiesOn s₁.disk ∧ counted.IsBacked := by
  have hhas : (Scene.ofRun s₀.disk s₁.disk s₀.trail.log store.directory
      (fun log h => (hlog log h).1) hapart.isPlain).Has s₀ := Scene.has_ofRun hapart.isVacant
  refine ⟨(Index.liesOn_of_build habsolute hhas (.refl _) hbuild).of_has
    fun r file => (Catalog.has_congr hcounted).mp, fun r hcontains => ?_⟩
  have hcontains' : built.contains r = true := by
    rwa [Catalog.contains, ← Option.isSome_map (f := (·.files)), ← hcounted, Option.isSome_map]
  obtain ⟨file, hfile⟩ := Index.isBacked_build habsolute hhas (.refl _) hbuild r hcontains'
  exact ⟨file, (Catalog.has_congr hcounted).mpr hfile⟩

/-- A pass after a build is seen against a scene if the root is a directory; if it is none, nothing
is done. The scene ends with any disk that is given and that the pass leads to. -/
theorem exists_passes (habsolute : root.isAbsolute = true)
    (hapart : store.IsApart s₀.disk root) (hlog : s₀.KeepsLogApart settings root)
    (hbuild : Runs (Index.build settings root) s₀ built s₁)
    (hcounted : ∀ r, (counted.get? r).map (·.files) = (built.get? r).map (·.files))
    (hremove : Runs (removeUnused store) { s₁ with catalog := counted } removal s₂)
    {last : Disk} (hlast : Extends s₂.disk last) :
    (∃ goal scene, scene.last = last ∧ Passes settings root goal store scene s₁ s₂ built)
      ∨ PassesOver root s₁ s₂ counted removal := by
  have hlies := (liesOn_of_counted habsolute hapart hlog hbuild hcounted).1
  have hhas₀ : (Scene.ofRun s₀.disk last s₀.trail.log store.directory
      (fun log h => (hlog log h).1) hapart.isPlain).Has s₀ := Scene.has_ofRun hapart.isVacant
  have hnot : ∀ goal stem file place, Extends s₀.disk last → s₀.disk.Locates root goal →
      Index.Indexes settings root goal stem file place → ¬ (Scene.ofRun _ _ _ _ _ _).hidden place :=
    fun goal stem file place hstays hgoal =>
      not_hidden_of_indexes habsolute hapart hlog hstays hgoal
  generalize hscene : Scene.ofRun s₀.disk last s₀.trail.log store.directory
      (fun log h => (hlog log h).1) hapart.isPlain = scene at hhas₀ hnot
  have hbackups : scene.backups = some store.directory := by rw [← hscene]; rfl
  have hend : scene.last = last := by rw [← hscene]; rfl
  have h₀₁ : Frame scene Nowhere Same s₀ s₁ :=
    .of_steps hhas₀ hbuild (Index.steps_build settings root)
  have hhas₁ : scene.Has { s₁ with catalog := counted } := ⟨h₀₁.log, h₀₁.has.fits⟩
  have hafter : Frame (scene.after hhas₁) (Deletes counted s₁.disk) Disk.Anyhow
      { s₁ with catalog := counted } s₂ :=
    frame_removeUnused hhas₁.after hbackups hlies (fun _ _ _ _ _ _ _ _ _ _ => trivial) hremove
  have h₁₂ := hafter.of_after
  have hlast₂ : Extends s₂.disk scene.last := hend ▸ hlast
  have hlast₁ : Extends s₁.disk scene.last := h₁₂.stays.trans hlast₂
  rcases Index.adds_build habsolute hhas₀ hlast₁ hbuild with ⟨goal, hlooked, hgoal, hdirectory, -⟩
    | ⟨hnone, rfl⟩
  · have hshown : ∀ stem file place, Index.Indexes settings root goal stem file place →
        ¬ scene.hidden place := fun stem file place =>
      hnot goal stem file place (h₀₁.stays.trans (h₁₂.stays.trans hlast)) hgoal
    refine .inl ⟨goal, scene.after h₀₁.has, hend, h₀₁.has.after, rfl, hbackups, hlast₂, habsolute,
      hlooked, hgoal.mono h₀₁.stays, h₀₁.stays.directory _ hdirectory, hshown, fun r file => ?_⟩
    rw [Index.has_build_iff habsolute hhas₀ hlast₁ hgoal hlooked hdirectory hshown hbuild]
    refine exists₃_congr fun stem place content => and_congr_right fun hindexes => ?_
    rw [h₀₁.get?_file_iff hlast₁ (hshown _ _ _ hindexes)]
  · have hunknown : ∀ r, counted.get? r = none := fun r => Option.map_eq_none_iff.mp (hcounted r)
    have hunused : counted.unused = [] :=
      List.eq_nil_iff_forall_not_mem.mpr fun ⟨r, record⟩ hentry =>
      nomatch (hunknown r).symm.trans (Catalog.mem_unused.mp hentry).1
    obtain ⟨hdisk, hnothing⟩ := disk_eq_of_unused_eq_nil (s := { s₁ with catalog := counted })
      hunused hremove
    refine .inr ⟨fun place => ?_, hunknown, hdisk, hnothing⟩
    exact not_openDirectory_of_build habsolute (fun log h => (hlog log h).1) hnone hbuild place

end

end Removal

end ResourcePruner
