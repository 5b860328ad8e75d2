import ResourcePruner.Proofs.Config.Acceptance
import ResourcePruner.Proofs.Disk.Unlooped
import ResourcePruner.Proofs.Task
import ResourcePruner.Run.Setup

/-!
# What a session begins with

However a project is configured, the session that is begun for it has absolute paths only, and its
store has the resolved project root (`Run.isSetUp_of_openSession`). So have the manifest and the
roots to search, which are still to be determined (`Run.isSetUp_and_isFresh_of_openSession`). What
is proved of parts of a run for absolute paths is proved for all paths that a session hands to them.

The path of the backup directory holds no `..` if links lead in no circle
(`Run.isPlain_directory_of_openSession`). Otherwise it may: what is resolved as it is spelled is cut
at the first character that no name may hold, and a name that began with `..` is left with that.
-/

namespace ResourcePruner

theorem Path.isAbsolute_join {base : Path} (habsolute : base.isAbsolute = true) (path : Path) :
    (base.join path).isAbsolute = true := by
  rw [join]
  split
  · assumption
  · exact habsolute

namespace Config

variable {disk : Disk}

/-- All of the paths are absolute. -/
def AreAbsolute (paths : List Path) : Prop :=
  ∀ path ∈ paths, path.isAbsolute = true

theorem AreRootsOf.areAbsolute {projectRoot : Path} {paths roots : List Path}
    (hroots : AreRootsOf disk projectRoot paths roots) : AreAbsolute roots := by
  intro root hroot
  obtain ⟨path, -, hresolve⟩ := hroots.exists_resolve hroot
  exact Disk.isAbsolute_of_resolve hresolve

/-- A configuration file does not change the project root, and the roots to search that it names are
resolved. -/
theorem paths_of_read {base draft : Draft} {payload : Setting.Fields}
    (hread : Draft.read disk base payload = .ok draft) : draft.projectRoot = base.projectRoot
      ∧ (AreAbsolute base.extraRoots → AreAbsolute draft.extraRoots) := by
  have hread := read_eq_ok_iff.mp hread
  refine ⟨hread.projectRoot, fun hbase => ?_⟩
  have htakes := hread.extraRoots
  rw [Takes] at htakes
  split at htakes
  · rw [htakes]
    exact hbase
  · obtain ⟨texts, -, hroots⟩ := htakes
    exact hroots.areAbsolute

variable {draft : Draft} {overrides : Overrides} {config : Config}

/-- A configuration has the project root that it was given, and its other directories are
resolved. -/
structure KeepsRoot (disk : Disk) (draft : Draft) (config : Config) : Prop where
  projectRoot : config.projectRoot = draft.projectRoot
  areAbsolute_extraRoots : AreAbsolute draft.extraRoots → AreAbsolute config.extraRoots
  resolve_backupDir : ∃ path, disk.resolve path = .ok config.backupDir
  isAbsolute_dataDir : config.dataDir.isAbsolute = true

theorem keepsRoot_of_close {manifestPath : Text} {extraRoots : List Path}
    (hextra : AreAbsolute draft.extraRoots → AreAbsolute extraRoots)
    (hclose : draft.close disk overrides manifestPath extraRoots = .ok config) :
    KeepsRoot disk draft config := by
  obtain ⟨hbackup, -, -, hdata, hconfig⟩ := close_eq_ok_iff.mp hclose
  have hbackup := resolved_eq_ok_iff.mp hbackup
  have hdata := Disk.isAbsolute_of_resolve (resolved_eq_ok_iff.mp hdata)
  rw [hconfig]
  exact ⟨rfl, hextra, ⟨_, hbackup⟩, hdata⟩

/-- A configuration is finished with some manifest and roots to search; those of the configuration
file stay unless there are overrides. -/
theorem close_of_finish (hfinish : draft.finish disk overrides = .ok config) :
    ∃ manifestPath extraRoots, (AreAbsolute draft.extraRoots → AreAbsolute extraRoots)
      ∧ draft.close disk overrides manifestPath extraRoots = .ok config := by
  rw [finish_eq] at hfinish
  obtain ⟨manifestPath, -, hfinish⟩ := ok_of_bind hfinish
  obtain ⟨extraRoots, hroots, hclose⟩ := ok_of_bind hfinish
  refine ⟨manifestPath, extraRoots, fun habsolute => ?_, hclose⟩
  have hroots := rootsWith_eq_ok_iff.mp hroots
  split at hroots
  · rw [hroots]
    exact habsolute
  · exact hroots.areAbsolute

theorem keepsRoot_of_finish (hfinish : draft.finish disk overrides = .ok config) :
    KeepsRoot disk draft config := by
  obtain ⟨_, _, hextra, hclose⟩ := close_of_finish hfinish
  exact keepsRoot_of_close hextra hclose

theorem keepsRoot_of_merge {projectRoot temporary : Path} {payload : Setting.Fields}
    (hmerge : merge disk projectRoot temporary payload overrides = .ok config) :
    KeepsRoot disk (.default projectRoot temporary) config := by
  obtain ⟨draft, hread, hfinish⟩ := ok_of_bind hmerge
  have hkeeps := keepsRoot_of_finish hfinish
  obtain ⟨hroot, hextra⟩ := paths_of_read hread
  exact ⟨hkeeps.projectRoot.trans hroot, fun h => hkeeps.areAbsolute_extraRoots (hextra h),
    hkeeps.resolve_backupDir, hkeeps.isAbsolute_dataDir⟩

end Config

namespace Run

open ResourcePruner.Task (Runs)

variable {project : Project} {s s' : Session}

/-- The paths of a project that is set up are absolute, and the root of its store is the resolved
project root. -/
structure Project.IsSetUp (project : Project) (s : Session) : Prop where
  isAbsolute_root : project.config.projectRoot.isAbsolute = true
  isAbsolute_directory : project.store.directory.isAbsolute = true
  isAbsolute_log : ∀ log, s.trail.log = some log → log.isAbsolute = true
  resolve_root : s.disk.resolve project.config.projectRoot = .ok project.store.projectRoot

/-- The roots to search are still to be determined, and they and the manifest have absolute
paths. -/
structure Project.IsFresh (project : Project) (s : Session) : Prop where
  isAbsolute_manifest : project.config.manifest.isAbsolute = true
  areAbsolute_extraRoots : Config.AreAbsolute project.config.extraRoots
  roots : s.roots = none

theorem isAbsolute_manifest {config : Config} (habsolute : config.projectRoot.isAbsolute = true) :
    config.manifest.isAbsolute = true :=
  Path.isAbsolute_join habsolute _

theorem paths_of_loadConfig {disk : Disk} {temporary path : Path} {overrides : Overrides}
    {config : Config} (hload : loadConfig disk temporary path overrides = .ok config) :
    config.projectRoot.isAbsolute = true
      ∧ (∃ path, disk.resolve path = .ok config.backupDir)
      ∧ config.dataDir.isAbsolute = true ∧ Config.AreAbsolute config.extraRoots := by
  obtain ⟨directory, -, hload⟩ := Config.ok_of_bind hload
  obtain ⟨root, hroot, hload⟩ := Config.ok_of_bind hload
  obtain ⟨settings, -, hload⟩ := Config.ok_of_bind hload
  have hkeeps := Config.keepsRoot_of_merge (Config.ok_of_mapError hload)
  refine ⟨?_, hkeeps.resolve_backupDir, hkeeps.isAbsolute_dataDir,
    hkeeps.areAbsolute_extraRoots (List.forall_mem_nil _)⟩
  rw [hkeeps.projectRoot]
  exact Disk.isAbsolute_of_resolve (Config.ok_of_mapError hroot)

/-- A session is begun with a configuration, a directory for the log and a resolved project root. -/
theorem runs_openSession {temporary path : Path} {overrides : Overrides} {runId : Text}
    (hruns : Runs (openSession temporary path overrides runId) s project s') :
    ∃ directory disk, loadConfig s.disk temporary directory overrides = .ok project.config
      ∧ Runs (Disk.makeDirectories project.config.dataDir) s.disk () disk
      ∧ disk.resolve project.config.projectRoot = .ok project.store.projectRoot
      ∧ project.store.directory = project.config.backupDir
      ∧ s' = { s with
          disk, trail := .start (some (logPath project.config)) runId, roots := none } := by
  obtain ⟨directory, -, hload⟩ := Task.runs_resolve_bind.mp hruns
  have hload := Task.runs_disk_bind.mp hload
  simp only at hload
  split at hload
  · rename_i config hconfig
    obtain ⟨found, t, hfound, hmake⟩ := Task.runs_bind.mp hload
    obtain ⟨rfl, rfl⟩ := Task.runs_pure.mp hfound
    obtain ⟨_, u, hmade, hstore⟩ := Task.runs_bind.mp hmake
    obtain ⟨disk, hdisk, rfl⟩ := Task.runs_onDisk.mp hmade
    obtain ⟨store, v, hstore, hstart⟩ := Task.runs_bind.mp hstore
    obtain ⟨projectRoot, hresolve, hpure⟩ := Task.runs_resolve_bind.mp hstore
    obtain ⟨rfl, rfl⟩ := Task.runs_pure.mp hpure
    obtain ⟨_, w, hmodify, hpure⟩ := Task.runs_bind.mp hstart
    obtain ⟨rfl, rfl⟩ := Task.runs_pure.mp hpure
    exact ⟨directory, disk, hconfig, hdisk, hresolve, rfl, Task.runs_modify.mp hmodify⟩
  · obtain ⟨_, _, hthrow, -⟩ := Task.runs_bind.mp hload
    exact absurd hthrow Task.runs_throw

/-- A session is begun with a log of its own, and its caller is as patient as before. -/
theorem log_and_patience_of_openSession {temporary path : Path} {overrides : Overrides}
    {runId : Text} (hruns : Runs (openSession temporary path overrides runId) s project s') :
    s'.trail.log = some (logPath project.config) ∧ s'.patience = s.patience := by
  obtain ⟨_, _, -, -, -, -, rfl⟩ := runs_openSession hruns
  exact ⟨rfl, rfl⟩

theorem isSetUp_and_isFresh_of_openSession {temporary path : Path} {overrides : Overrides}
    {runId : Text} (hruns : Runs (openSession temporary path overrides runId) s project s') :
    project.IsSetUp s' ∧ project.IsFresh s' := by
  obtain ⟨directory, disk, hconfig, -, hresolve, hdirectory, rfl⟩ := runs_openSession hruns
  obtain ⟨hroot, ⟨_, hbackup⟩, hdata, hextra⟩ := paths_of_loadConfig hconfig
  refine ⟨⟨hroot, hdirectory ▸ Disk.isAbsolute_of_resolve hbackup, ?_, hresolve⟩,
    isAbsolute_manifest hroot, hextra, rfl⟩
  rintro log ⟨rfl⟩
  exact hdata

/-- A project is set up once a session has been begun for it. -/
theorem isSetUp_of_openSession {temporary path : Path} {overrides : Overrides} {runId : Text}
    (hruns : Runs (openSession temporary path overrides runId) s project s') :
    project.IsSetUp s' :=
  (isSetUp_and_isFresh_of_openSession hruns).1

/-- Unless links lead in a circle, all names of the backup directory's path go down. -/
theorem isPlain_directory_of_openSession {temporary path : Path} {overrides : Overrides}
    {runId : Text}
    (hfree : s.disk.IsLoopFree) (hhome : s.disk.HasHome)
    (hruns : Runs (openSession temporary path overrides runId) s project s') :
    project.store.directory.IsPlain := by
  obtain ⟨directory, disk, hconfig, -, -, hdirectory, -⟩ := runs_openSession hruns
  obtain ⟨-, ⟨given, hbackup⟩, -, -⟩ := paths_of_loadConfig hconfig
  obtain ⟨_, _, goal, -, -, hplain, hgoal | ⟨-, _, hfault⟩⟩ :=
    Disk.resolve_of_isLoopFree hfree hhome given
  · rw [hdirectory, Except.ok.inj (hbackup.symm.trans hgoal)]
    exact hplain
  · cases hbackup.symm.trans hfault

end Run

end ResourcePruner
