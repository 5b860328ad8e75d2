import ResourcePruner.Proofs.Run.Rounds

/-!
# What a round does not fail by

A run gives up when it has gone through as many rounds as it was allowed, and refuses to begin
without a manifest or with a backup directory that it must not clear. No round fails in such a way:
a file whose backup is refused stays, and the pass goes on (`Removal.avoids_removeFiles`).
`Task.Avoids` says so of each step.
-/

namespace ResourcePruner

open ResourcePruner.Task (Avoids)

variable {unwanted : Failure → Prop}

section

variable [Task.IsRemote unwanted]

namespace Index

theorem avoids_warnDirectory (error : Disk.Error) : Avoids unwanted (warnDirectory error) :=
  .warn _ _ _ _

theorem avoids_walk (settings : IndexSettings) (directory : Path) :
    Avoids unwanted (walk settings directory) := by
  refine Avoids.disk.bind fun disk => (Avoids.refusable _).bind fun files => ?_
  cases files with
  | ok files => exact .pure _
  | error error => exact (avoids_warnDirectory error).bind fun _ => .pure _

theorem avoids_addDefinitionFile (catalog : Catalog) (path : Path) :
    Avoids unwanted (addDefinitionFile catalog path) := by
  refine Avoids.disk.bind fun disk => (Avoids.refusable _).bind fun read => ?_
  cases read with
  | ok bytes => exact .pure _
  | error error => exact (Avoids.warn _ _ _ _).bind fun _ => .pure _

theorem avoids_addDirectory (settings : IndexSettings) (catalog : Catalog)
    (directory : DefinitionDir) :
    Avoids unwanted (addDirectory settings catalog directory) := by
  have hfiles : ∀ category extensions,
      Avoids unwanted (addFiles settings catalog directory.path category extensions) :=
    fun _ _ => (avoids_walk _ _).bind fun _ => .pure _
  refine .ite (fun _ => hfiles _ _) fun _ => .ite (fun _ => hfiles _ _) fun _ => ?_
  refine (avoids_walk _ _).bind fun files => .foldlM (fun catalog file _ => ?_) catalog
  exact (avoids_addDefinitionFile _ _).bind fun _ => .pure _

theorem avoids_build (settings : IndexSettings) (root : Path) :
    Avoids unwanted (build settings root) := by
  refine Avoids.disk.bind fun disk => (Avoids.refusable _).bind fun directories => ?_
  cases directories with
  | ok directories => exact .foldlM (fun catalog directory _ => avoids_addDirectory _ _ _) _
  | error error => exact (avoids_warnDirectory error).bind fun _ => .pure _

end Index

namespace Backup

/-- What making a backup fails by that keeps no file where it is. -/
abbrev Escapes (unwanted : Failure → Prop) (failure : Failure) : Prop :=
  unwanted failure ∧ Removal.keepsFile failure = false

theorem avoids_archive (store : Store) (path : Path) :
    Avoids (Escapes unwanted) (store.archive path) := by
  have htarget : Avoids (Escapes unwanted) (store.targetFor path) := by
    refine (Avoids.resolve _).bind fun _ => (Avoids.resolve _).bind fun _ => ?_
    split
    · exact .pure _
    · exact .throw (by simp [Removal.keepsFile])
  have hclaim : Avoids (Escapes unwanted) store.claim := by
    refine (Avoids.check _).bind fun _ => .ite (fun _ => .pure _) fun _ => ?_
    exact (Avoids.onDisk _).bind fun _ => .changeDisk _
  have hcopy : ∀ target, Avoids (Escapes unwanted) (Store.copyFile path target) := fun target =>
    Avoids.disk.bind fun disk =>
      .ite (fun _ => Avoids.bind (.throw (by simp [Removal.keepsFile])) fun _ => .changeDisk _)
        fun _ => .changeDisk _
  exact htarget.bind fun _ => hclaim.bind fun _ => (Avoids.onDisk _).bind fun _ =>
    (hcopy _).bind fun _ => .pure _

end Backup

namespace Removal

theorem avoids_warnDefinition (code message : Text) (path : Path) :
    Avoids unwanted (warnDefinition code message path) :=
  .warn _ _ _ _

theorem avoids_writePruned (path : Path) (pruning : Pruning) :
    Avoids unwanted (writePruned path pruning) := by
  have hwrite : Avoids (fun failure => unwanted failure ∧ failure.isRefusal = false)
      (Task.writeText path pruning.text) := .writeText _ _
  refine .ite (fun _ => .ite (fun _ => (avoids_warnDefinition _ _ _).bind fun _ => .pure _)
    fun _ => .pure _) fun _ => hwrite.attempt.bind fun written => ?_
  cases written with
  | error failure => exact (avoids_warnDefinition _ _ _).bind fun _ => .pure _
  | ok _ => exact (Avoids.succeed _ _).bind fun _ => .pure _

theorem avoids_pruneText (path : Path) (doomed : Doomed) (text : Text) :
    Avoids unwanted (pruneText path doomed text) := by
  unfold pruneText
  simp only
  split
  · exact (avoids_warnDefinition _ _ _).bind fun _ => .pure _
  · refine .ite (fun _ => (avoids_warnDefinition _ _ _).bind fun _ => ?_) fun _ => ?_
    all_goals exact avoids_writePruned _ _

theorem avoids_pruneFile (path : Path) (doomed : Doomed) :
    Avoids unwanted (pruneFile path doomed) := by
  refine Avoids.disk.bind fun disk => (Avoids.refusable _).bind fun read => ?_
  cases read with
  | error error => exact (avoids_warnDefinition _ _ _).bind fun _ => .pure _
  | ok bytes =>
      cases hdecode : Utf8.decode? bytes with
      | error fault =>
          simp only [hdecode]
          exact (avoids_warnDefinition _ _ _).bind fun _ => .pure _
      | ok text =>
          simp only [hdecode]
          exact avoids_pruneText path doomed text

theorem avoids_pruneNext (entries : List (Resource × Record)) (pruned : List (Path × List Resource))
    (path : Path) : Avoids unwanted (pruneNext entries pruned path) := by
  refine (avoids_pruneFile _ _).bind fun removed => ?_
  cases removed with
  | none => exact .pure _
  | some removed => exact .pure _

theorem avoids_settleInline (pruned : List (Path × List Resource)) (removal : Removal)
    (entry : Resource × Record) : Avoids unwanted (settleInline pruned removal entry) := by
  refine .ite (fun _ => (Avoids.succeed _ _).bind fun _ => .pure _) fun _ => ?_
  exact (Avoids.record _ _ _ _).discard.bind fun _ => .pure _

theorem avoids_removeFiles (store : Backup.Store) (r : Resource) (record : Record)
    (left : List Path)
    (removal : Removal) : Avoids unwanted (removeFiles store r record left removal) := by
  induction left generalizing removal with
  | nil => exact (Avoids.succeed _ _).bind fun _ => .pure _
  | cons file rest ih =>
      have hfail : ∀ code failure removal, Avoids unwanted (failFile r file code failure removal) :=
        fun _ _ _ => (Avoids.warn _ _ _ _).bind fun _ => .pure _
      refine (Backup.avoids_archive store file).attempt.bind fun archived => ?_
      cases archived with
      | error failure => exact hfail _ _ _
      | ok backup =>
          have hunlink : Avoids (Backup.Escapes unwanted) (Task.changeDisk (·.unlink file)) :=
            .changeDisk _
          refine hunlink.attempt.bind fun unlinked => ?_
          cases unlinked with
          | error failure => exact hfail _ _ _
          | ok _ => exact (Avoids.succeed _ _).bind fun _ => ih _

theorem avoids_removeUnused (store : Backup.Store) : Avoids unwanted (removeUnused store) := by
  refine Avoids.get.bind fun s => ?_
  refine Avoids.bind (.foldlM (fun _ _ _ => avoids_pruneNext _ _ _) _) fun pruned => ?_
  refine Avoids.bind (.foldlM (fun _ _ _ => avoids_settleInline _ _ _) _) fun settled => ?_
  refine Avoids.bind (.foldlM (fun _ _ _ => avoids_removeFiles _ _ _ _ _) _) fun removal => ?_
  exact (Avoids.modify _).bind fun _ => .pure _

end Removal

namespace Run

theorem avoids_searchRoots (config : Config) : Avoids unwanted (searchRoots config) := by
  have hexisting : Avoids unwanted (existingRoots config.extraRoots) := by
    refine .filterM (fun root => ?_) _
    refine (Avoids.check _).bind fun isPresent => .ite (fun _ => .pure _) fun _ => ?_
    exact (Avoids.warn _ _ _ _).bind fun _ => .pure _
  refine Avoids.get.bind fun s => ?_
  split
  · exact .pure _
  · exact hexisting.bind fun _ => (Avoids.modify _).bind fun _ => .pure _

theorem avoids_conclude (report : RoundReport) : Avoids unwanted (conclude report) :=
  (Avoids.succeed _ _).bind fun _ => .pure _

theorem avoids_passOf (project : Project) (dryRun : Bool) :
    Avoids unwanted (passOf project dryRun) :=
  .ite (fun _ => .pure _) fun _ => Removal.avoids_removeUnused _

theorem avoids_summarize (project : Project) (dryRun : Bool) (rounds : List RoundReport) :
    Avoids unwanted (summarize project dryRun rounds) :=
  (Avoids.succeed _ _).bind fun _ => Avoids.get.bind fun _ => .pure _

end Run

end

section

variable [Task.IsForeign unwanted]

theorem Task.avoids_poll (point : StopPoint) : Avoids unwanted (Task.poll point) := by
  refine Avoids.get.bind fun s => ?_
  split
  · exact .pure _
  · exact .throw (Task.IsForeign.cancelled _)
  · exact .modify _

namespace Usage

theorem avoids_scanFile (settings : ScanSettings) (tables : Dialect → List TokenGroup)
    (progress : Progress) (path : Path) :
    Avoids unwanted (scanFile settings tables progress path) := by
  refine (Avoids.resolve _).bind fun resolved => .ite (fun _ => .pure _) fun _ => ?_
  split
  · exact .pure _
  · refine (Task.avoids_poll _).bind fun _ => Avoids.disk.bind fun disk =>
      (Avoids.refusable _).bind fun read => ?_
    cases read with
    | ok bytes =>
        have hcount : ∀ dialect table lines stats,
            Avoids unwanted (countLines dialect table lines stats) :=
          fun _ _ _ _ => Avoids.get.bind fun _ => (Avoids.modify _).bind fun _ => .pure _
        exact (hcount _ _ _ _).bind fun _ => .pure _
    | error error => exact (Avoids.warn _ _ _ _).bind fun _ => .pure _

theorem avoids_filesOf (settings : ScanSettings) (root : Path) :
    Avoids unwanted (filesOf settings root) := by
  refine (Avoids.check _).bind fun isFile => .ite (fun _ => .pure _) fun _ => ?_
  refine Avoids.disk.bind fun disk => (Avoids.refusable _).bind fun files => ?_
  cases files with
  | ok files => exact .pure _
  | error error => exact (Avoids.warn _ _ _ _).bind fun _ => .pure _

theorem avoids_manifestFiles (manifest : Option Path) :
    Avoids unwanted (manifestFiles manifest) := by
  cases manifest with
  | none => exact .pure _
  | some manifest =>
      refine (Avoids.check _).bind fun isFile => .ite (fun _ => .pure _) fun _ => ?_
      exact (Avoids.warn _ _ _ _).bind fun _ => .pure _

theorem avoids_scan (settings : ScanSettings) (roots : List Path) (manifest : Option Path) :
    Avoids unwanted (scan settings roots manifest) := by
  have hfiles : ∀ tables (files : List Path) (init : Progress),
      Avoids unwanted (files.foldlM (scanFile settings tables) init) :=
    fun tables files => .foldlM fun progress path _ => avoids_scanFile _ _ _ _
  refine Avoids.get.bind fun s => (avoids_manifestFiles _).bind fun first =>
    (hfiles _ _ _).bind fun _ => ?_
  refine (Avoids.foldlM (fun progress root _ => ?_) _).bind fun _ => .pure _
  exact (avoids_filesOf _ _).bind fun files => hfiles _ _ _

end Usage

namespace Run

theorem avoids_round (project : Project) (number : Int) (dryRun : Bool) :
    Avoids unwanted (round project number dryRun) := by
  rw [round_eq]
  refine (Index.avoids_build _ _).bind fun catalog => (Avoids.modify _).bind fun _ => ?_
  refine (avoids_searchRoots _).bind fun roots => (Usage.avoids_scan _ _ _).bind fun stats => ?_
  exact Avoids.get.bind fun counted => (avoids_passOf _ _).bind fun removal => avoids_conclude _

/-- Rounds give up only for want of further ones. -/
theorem avoids_roundsFrom (hendless : ¬ unwanted .endless) (project : Project) (dryRun : Bool)
    (fuel number : Nat) : Avoids unwanted (roundsFrom project dryRun fuel number) := by
  induction fuel generalizing number with
  | zero => exact .throw hendless
  | succ fuel ih =>
      refine (Task.avoids_poll _).bind fun _ => (avoids_round _ _ _).bind fun report => ?_
      exact .ite (fun _ => .pure _) fun _ => (ih _).bind fun _ => .pure _

end Run

end

namespace Run

/-! ## Giving up -/

theorem ends_prepare (project : Project) (dryRun : Bool) :
    Avoids (· = Failure.endless) (prepare project dryRun) :=
  avoids_prepare (by simp) (by simp) project dryRun

theorem ends_summarize (project : Project) (dryRun : Bool) (rounds : List RoundReport) :
    Avoids (· = Failure.endless) (summarize project dryRun rounds) :=
  avoids_summarize project dryRun rounds

/-! ## Refusals -/

/-- The run refuses: the manifest is missing, or the backups are refused. -/
def IsRefusal (failure : Failure) : Prop :=
  (∃ path, failure = .manifestMissing path) ∨ ∃ refusal, failure = .backup refusal

instance : Task.IsForeign IsRefusal where
  disk := by simp [IsRefusal]
  unresolved := by simp [IsRefusal]
  unencodable := by simp [IsRefusal]
  log := by simp [IsRefusal]
  cancelled := by simp [IsRefusal]

/-- A task that is refused has done nothing. -/
abbrev Abstains {α : Type} (task : Task α) : Prop :=
  Task.Leaves IsRefusal Task.Unchanged task

theorem abstains_clear (store : Backup.Store) : Abstains store.clear := by
  refine .bind_steps Task.steps_disk fun disk => .bind_steps (Task.steps_check _) fun present => ?_
  refine .ite (fun _ => .of_avoids (.pure _)) fun _ => ?_
  refine .ite (fun _ => .bind_steps (.throw _) fun _ => ?_) fun _ => ?_
  -- The rest is the same whether or not the first refusal was passed.
  all_goals
    refine .bind_steps (Task.steps_check _) fun marked => ?_
    refine .ite (fun _ => .of_avoids ((Avoids.onDisk _).bind fun _ => .pure _)) fun _ => ?_
    split
    · exact .ite (fun _ => .of_avoids (.pure _)) fun _ => .of_steps (.throw _)
    · exact .of_steps (.throw _)

theorem abstains_prepare (project : Project) (dryRun : Bool) :
    Abstains (prepare project dryRun) := by
  have hclear : Abstains (do
      if !dryRun then
        if ← project.store.clear then
          Task.succeed "backup_cleared" [("path", .path project.store.directory)]) :=
    .ite (fun _ => (abstains_clear _).bind fun cleared =>
      .ite (fun _ => .succeed _ _) fun _ => .pure _) fun _ => .of_avoids (.pure _)
  refine .bind_steps (Task.steps_check _) fun isFile => .ite (fun _ => ?_) fun _ => hclear
  exact .bind_steps (.throw _) fun _ => hclear

/-- A run that refuses has done nothing. -/
theorem abstains_run (project : Project) (dryRun : Bool) : Abstains (run project dryRun) := by
  rw [run_eq]
  refine (abstains_prepare project dryRun).bind fun _ => Avoids.disk.bind fun disk => ?_
  exact (avoids_roundsFrom (by simp [IsRefusal]) _ _ _ _).bind fun rounds => avoids_summarize _ _ _

end Run

end ResourcePruner
