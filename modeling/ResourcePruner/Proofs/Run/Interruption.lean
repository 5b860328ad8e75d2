import ResourcePruner.Proofs.Run.Changes
import ResourcePruner.Proofs.Run.Ends
import ResourcePruner.Proofs.Task.Patience

/-!
# Interrupted runs

A caller who stops a run does so between two rounds, or while a round counts, when nothing of it has
been done on the disk but to record warnings in the log. So what a stopped run leaves is what the
same run, not stopped, leaves after some of its rounds (`Run.stops_between_rounds`): up to the stop
both do the same (`Run.heeds_run`), and no question is asked in the pass of a round
(`Run.leaves_round`).
-/

namespace ResourcePruner

open ResourcePruner.Task (Runs Steps Avoids GoesOn Heeds IsCounted)

/-! ## Every task heeds its caller -/

namespace Index

theorem heeds_warnDirectory (error : Disk.Error) : Heeds (warnDirectory error) :=
  .warn _ _ _ _

theorem heeds_walk (settings : IndexSettings) (directory : Path) :
    Heeds (walk settings directory) := by
  refine Heeds.disk.bind fun disk => (Heeds.refusable _).bind fun files => ?_
  cases files with
  | ok files => exact .pure _
  | error error => exact (heeds_warnDirectory error).bind fun _ => .pure _

theorem heeds_addDefinitionFile (catalog : Catalog) (path : Path) :
    Heeds (addDefinitionFile catalog path) := by
  refine Heeds.disk.bind fun disk => (Heeds.refusable _).bind fun read => ?_
  cases read with
  | ok bytes => exact .pure _
  | error error => exact (Heeds.warn _ _ _ _).bind fun _ => .pure _

theorem heeds_addDirectory (settings : IndexSettings) (catalog : Catalog)
    (directory : DefinitionDir) :
    Heeds (addDirectory settings catalog directory) := by
  have hfiles : ∀ category extensions,
      Heeds (addFiles settings catalog directory.path category extensions) :=
    fun _ _ => (heeds_walk _ _).bind fun _ => .pure _
  refine .ite (fun _ => hfiles _ _) fun _ => .ite (fun _ => hfiles _ _) fun _ => ?_
  refine (heeds_walk _ _).bind fun files => .foldlM (fun catalog file _ => ?_) catalog
  exact (heeds_addDefinitionFile _ _).bind fun _ => .pure _

theorem heeds_build (settings : IndexSettings) (root : Path) : Heeds (build settings root) := by
  refine Heeds.disk.bind fun disk => (Heeds.refusable _).bind fun directories => ?_
  cases directories with
  | ok directories => exact .foldlM (fun catalog directory _ => heeds_addDirectory _ _ _) _
  | error error => exact (heeds_warnDirectory error).bind fun _ => .pure _

end Index

namespace Usage

theorem heeds_scanFile (settings : ScanSettings) (tables : Dialect → List TokenGroup)
    (progress : Progress) (path : Path) : Heeds (scanFile settings tables progress path) := by
  refine (Heeds.resolve _).bind fun resolved => .ite (fun _ => .pure _) fun _ => ?_
  split
  · exact .pure _
  · refine (Heeds.poll _).bind fun _ => Heeds.disk.bind fun disk =>
      (Heeds.refusable _).bind fun read => ?_
    cases read with
    | ok bytes =>
        have hcount : ∀ dialect table lines stats,
            Heeds (countLines dialect table lines stats) := by
          intro dialect table lines stats
          refine .get_bind (fun _ _ => rfl) fun s => ?_
          refine .bind (.modify (fun _ => rfl) fun _ _ => rfl) fun _ => .pure _
        exact (hcount _ _ _ _).bind fun _ => .pure _
    | error error => exact (Heeds.warn _ _ _ _).bind fun _ => .pure _

theorem heeds_filesOf (settings : ScanSettings) (root : Path) : Heeds (filesOf settings root) := by
  refine (Heeds.check _).bind fun isFile => .ite (fun _ => .pure _) fun _ => ?_
  refine Heeds.disk.bind fun disk => (Heeds.refusable _).bind fun files => ?_
  cases files with
  | ok files => exact .pure _
  | error error => exact (Heeds.warn _ _ _ _).bind fun _ => .pure _

theorem heeds_manifestFiles (manifest : Option Path) : Heeds (manifestFiles manifest) := by
  cases manifest with
  | none => exact .pure _
  | some manifest =>
      refine (Heeds.check _).bind fun isFile => .ite (fun _ => .pure _) fun _ => ?_
      exact (Heeds.warn _ _ _ _).bind fun _ => .pure _

theorem heeds_scan (settings : ScanSettings) (roots : List Path) (manifest : Option Path) :
    Heeds (scan settings roots manifest) := by
  have hfiles : ∀ tables (files : List Path) (init : Progress),
      Heeds (files.foldlM (scanFile settings tables) init) :=
    fun tables files => .foldlM fun progress path _ => heeds_scanFile _ _ _ _
  refine .get_bind (fun _ _ => rfl) fun s => (heeds_manifestFiles _).bind fun first =>
    (hfiles _ _ _).bind fun _ => ?_
  refine (Heeds.foldlM (fun progress root _ => ?_) _).bind fun _ => .pure _
  exact (heeds_filesOf _ _).bind fun files => hfiles _ _ _

end Usage

namespace Backup.Store

theorem heeds_archive (store : Store) (path : Path) : Heeds (store.archive path) := by
  have htarget : Heeds (store.targetFor path) := by
    refine (Heeds.resolve _).bind fun _ => (Heeds.resolve _).bind fun _ => ?_
    split
    · exact .pure _
    · exact .throw _
  have hclaim : Heeds store.claim := by
    refine (Heeds.check _).bind fun _ => .ite (fun _ => .pure _) fun _ => ?_
    exact (Heeds.onDisk _).bind fun _ => .changeDisk _
  have hcopy : ∀ target, Heeds (copyFile path target) := fun target =>
    Heeds.disk.bind fun disk => .ite (fun _ => Heeds.bind (.throw _) fun _ => .changeDisk _)
      fun _ => .changeDisk _
  exact htarget.bind fun _ => hclaim.bind fun _ => (Heeds.onDisk _).bind fun _ =>
    (hcopy _).bind fun _ => .pure _

theorem heeds_clear (store : Store) : Heeds store.clear := by
  refine Heeds.disk.bind fun disk => (Heeds.check _).bind fun present =>
    .ite (fun _ => .pure _) fun _ => ?_
  refine .ite (fun _ => Heeds.bind (.throw _) fun _ => ?_) fun _ => ?_
  -- The rest is the same whether or not the first refusal was passed.
  all_goals
    refine (Heeds.check _).bind fun marked => ?_
    refine .ite (fun _ => (Heeds.onDisk _).bind fun _ => .pure _) fun _ => ?_
    split
    · exact .ite (fun _ => .pure _) fun _ => .throw _
    · exact .throw _

end Backup.Store

namespace Removal

theorem heeds_writePruned (path : Path) (pruning : Pruning) : Heeds (writePruned path pruning) := by
  have hwarn : ∀ code message, Heeds (warnDefinition code message path) := fun _ _ => .warn _ _ _ _
  refine .ite (fun _ => .ite (fun _ => (hwarn _ _).bind fun _ => .pure _) fun _ => .pure _)
    fun _ => ?_
  refine (Heeds.attempt (fun _ => rfl) (.writeText _ _)).bind fun written => ?_
  cases written with
  | error failure => exact (hwarn _ _).bind fun _ => .pure _
  | ok _ => exact (Heeds.succeed _ _).bind fun _ => .pure _

theorem heeds_pruneText (path : Path) (doomed : Doomed) (text : Text) :
    Heeds (pruneText path doomed text) := by
  have hwarn : ∀ code message, Heeds (warnDefinition code message path) := fun _ _ => .warn _ _ _ _
  unfold pruneText
  simp only
  split
  · exact (hwarn _ _).bind fun _ => .pure _
  · refine .ite (fun _ => (hwarn _ _).bind fun _ => ?_) fun _ => ?_
    all_goals exact heeds_writePruned _ _

theorem heeds_pruneFile (path : Path) (doomed : Doomed) : Heeds (pruneFile path doomed) := by
  have hwarn : ∀ code message, Heeds (warnDefinition code message path) := fun _ _ => .warn _ _ _ _
  refine Heeds.disk.bind fun disk => (Heeds.refusable _).bind fun read => ?_
  cases read with
  | error error => exact (hwarn _ _).bind fun _ => .pure _
  | ok bytes =>
      cases hdecode : Utf8.decode? bytes with
      | error fault =>
          simp only [hdecode]
          exact (hwarn _ _).bind fun _ => .pure _
      | ok text =>
          simp only [hdecode]
          exact heeds_pruneText path doomed text

theorem heeds_pruneNext (entries : List (Resource × Record)) (pruned : List (Path × List Resource))
    (path : Path) : Heeds (pruneNext entries pruned path) := by
  refine (heeds_pruneFile _ _).bind fun removed => ?_
  cases removed with
  | none => exact .pure _
  | some removed => exact .pure _

theorem heeds_settleInline (pruned : List (Path × List Resource)) (removal : Removal)
    (entry : Resource × Record) : Heeds (settleInline pruned removal entry) := by
  refine .ite (fun _ => (Heeds.succeed _ _).bind fun _ => .pure _) fun _ => ?_
  exact (Heeds.record _ _ _ _).discard.bind fun _ => .pure _

theorem heeds_removeFiles (store : Backup.Store) (r : Resource) (record : Record) (left : List Path)
    (removal : Removal) : Heeds (removeFiles store r record left removal) := by
  induction left generalizing removal with
  | nil => exact (Heeds.succeed _ _).bind fun _ => .pure _
  | cons file rest ih =>
      have hfail : ∀ code failure removal, Heeds (failFile r file code failure removal) :=
        fun _ _ _ => (Heeds.warn _ _ _ _).bind fun _ => .pure _
      refine (Heeds.attempt (fun _ => rfl) (store.heeds_archive file)).bind fun archived => ?_
      cases archived with
      | error failure => exact hfail _ _ _
      | ok backup =>
          refine (Heeds.attempt (fun _ => rfl) (.changeDisk _)).bind fun unlinked => ?_
          cases unlinked with
          | error failure => exact hfail _ _ _
          | ok _ => exact (Heeds.succeed _ _).bind fun _ => ih _

theorem heeds_removeUnused (store : Backup.Store) : Heeds (removeUnused store) := by
  refine .get_bind (fun _ _ => rfl) fun s => ?_
  refine Heeds.bind (.foldlM (fun _ _ _ => heeds_pruneNext _ _ _) _) fun pruned => ?_
  refine Heeds.bind (.foldlM (fun _ _ _ => heeds_settleInline _ _ _) _) fun settled => ?_
  refine Heeds.bind (.foldlM (fun _ _ _ => heeds_removeFiles _ _ _ _ _) _) fun removal => ?_
  exact .bind (.modify (fun _ => rfl) fun _ _ => rfl) fun _ => .pure _

end Removal

namespace Run

theorem heeds_searchRoots (config : Config) : Heeds (searchRoots config) := by
  have hexisting : Heeds (existingRoots config.extraRoots) := by
    refine .filterM (fun root => ?_) _
    refine (Heeds.check _).bind fun isPresent => .ite (fun _ => .pure _) fun _ => ?_
    exact (Heeds.warn _ _ _ _).bind fun _ => .pure _
  refine .get_bind (fun _ _ => rfl) fun s => ?_
  split
  · exact .pure _
  · refine hexisting.bind fun _ => ?_
    exact .bind (.modify (fun _ => rfl) fun _ _ => rfl) fun _ => .pure _

theorem heeds_passOf (project : Project) (dryRun : Bool) : Heeds (passOf project dryRun) :=
  .ite (fun _ => .pure _) fun _ => Removal.heeds_removeUnused _

theorem heeds_conclude (report : RoundReport) : Heeds (conclude report) :=
  (Heeds.succeed _ _).bind fun _ => .pure _

theorem heeds_round (project : Project) (number : Int) (dryRun : Bool) :
    Heeds (round project number dryRun) := by
  rw [round_eq]
  refine (Index.heeds_build _ _).bind fun catalog => ?_
  refine .bind (.modify (fun _ => rfl) fun _ _ => rfl) fun _ => ?_
  refine (heeds_searchRoots _).bind fun roots => (Usage.heeds_scan _ _ _).bind fun stats => ?_
  refine .get_bind (fun _ _ => rfl) fun s => ?_
  exact (heeds_passOf _ _).bind fun removal => heeds_conclude _

theorem heeds_roundsFrom (project : Project) (dryRun : Bool) (fuel number : Nat) :
    Heeds (roundsFrom project dryRun fuel number) := by
  induction fuel generalizing number with
  | zero => exact .throw _
  | succ fuel ih =>
      refine (Heeds.poll _).bind fun _ => (heeds_round _ _ _).bind fun report => ?_
      exact .ite (fun _ => .pure _) fun _ => (ih _).bind fun _ => .pure _

theorem heeds_prepare (project : Project) (dryRun : Bool) : Heeds (prepare project dryRun) := by
  have hclear : Heeds (do
      if !dryRun then
        if ← project.store.clear then
          Task.succeed "backup_cleared" [("path", .path project.store.directory)]) :=
    .ite (fun _ => project.store.heeds_clear.bind fun cleared =>
      .ite (fun _ => .succeed _ _) fun _ => .pure _) fun _ => .pure _
  refine (Heeds.check _).bind fun isFile => .ite (fun _ => ?_) fun _ => hclear
  exact Heeds.bind (.throw _) fun _ => hclear

theorem heeds_summarize (project : Project) (dryRun : Bool) (rounds : List RoundReport) :
    Heeds (summarize project dryRun rounds) := by
  refine (Heeds.succeed _ _).bind fun _ => .get_bind (fun _ _ => rfl) fun s => ?_
  exact .pure _

theorem heeds_run (project : Project) (dryRun : Bool) : Heeds (run project dryRun) := by
  rw [run_eq]
  refine (heeds_prepare _ _).bind fun _ => Heeds.disk.bind fun disk => ?_
  exact (heeds_roundsFrom _ _ _ _).bind fun rounds => heeds_summarize _ _ _

/-! ## What a stopped round leaves -/

end Run

/-- All that has changed on the disk is where the log leads. -/
structure LogsOnly (s s' : Session) : Prop where
  log : s'.trail.log = s.trail.log
  forth : Disk.Extends s.disk s'.disk
  back : Disk.Extends s'.disk s.disk
  get? : ∀ place,
    (∀ log goal, s.trail.log = some log → s.disk.Locates log goal → goal.place ≠ place) →
    s'.disk.get? place = s.disk.get? place

namespace LogsOnly

theorem of_disk {s s' : Session} (hdisk : s'.disk = s.disk) (hlog : s'.trail.log = s.trail.log) :
    LogsOnly s s' where
  log := hlog
  forth := hdisk ▸ .refl _
  back := hdisk ▸ .refl _
  get? place _ := by rw [hdisk]

theorem trans {s t u : Session} (hfirst : LogsOnly s t) (hsecond : LogsOnly t u) :
    LogsOnly s u where
  log := hsecond.log.trans hfirst.log
  forth := hfirst.forth.trans hsecond.forth
  back := hsecond.back.trans hfirst.back
  get? place hplace := by
    rw [hsecond.get? place fun log goal hlog hgoal => ?_, hfirst.get? place hplace]
    exact hplace log goal (hfirst.log ▸ hlog) (hgoal.mono hfirst.back)

/-- The path of the log is absolute, if there is a log. -/
def HasAbsoluteLog (s : Session) : Prop :=
  ∀ log, s.trail.log = some log → log.isAbsolute = true

instance : IsCounted fun s s' => HasAbsoluteLog s → LogsOnly s s' where
  refl _ _ := .of_disk rfl rfl
  trans hfirst hsecond h :=
    (hfirst h).trans (hsecond fun log hlog => h log ((hfirst h).log ▸ hlog))
  trail _ _ _ _ := .of_disk rfl rfl
  append s log bytes disk hlog happend h := by
    have hwrite : s.disk.writeWith log (fun old => old.getD [] ++ bytes) = .ok disk :=
      happend
    refine ⟨rfl, Disk.extends_of_writeWith (h log hlog) hwrite,
      Disk.extends_back_of_writeWith (h log hlog) hwrite, fun place hplace => ?_⟩
    obtain ⟨goal, old, hgoal, -, rfl⟩ := Disk.writeWith_cases (h log hlog) hwrite
    rcases Disk.put_cases s.disk goal.place (.file (old.getD [] ++ bytes)) with
      hsame | ⟨-, hget⟩
    · simp only [hsame]
    · exact (hget place).trans (if_neg (hplace log goal hlog hgoal).symm)
  catalog _ _ _ _ := .of_disk rfl rfl
  roots _ _ _ _ := .of_disk rfl rfl
  patience _ _ _ := .of_disk rfl rfl

end LogsOnly

/-- The log is still the same file. -/
def KeepsLog (s s' : Session) : Prop :=
  s'.trail.log = s.trail.log

instance : IsCounted KeepsLog where
  refl _ := rfl
  trans hfirst hsecond := Eq.trans hsecond hfirst
  trail _ _ _ := rfl
  append _ _ _ _ _ _ := rfl
  catalog _ _ _ := rfl
  roots _ _ _ := rfl
  patience _ _ := rfl

theorem Task.keepsLog_changeDisk (f : Disk → Except Disk.Error Disk) :
    Steps KeepsLog (Task.changeDisk f) :=
  Task.steps_changeDisk fun _ _ _ => rfl

theorem Task.keepsLog_onDisk {α : Type} (action : Disk.Action α) :
    Steps KeepsLog (Task.onDisk action) :=
  Task.steps_onDisk fun _ => rfl

theorem Backup.Store.keepsLog_archive (store : Store) (path : Path) :
    Steps KeepsLog (store.archive path) :=
  Backup.steps_archive (fun _ _ => rfl) store path

theorem Removal.keepsLog_removeFiles (store : Backup.Store) (r : Resource) (record : Record)
    (left : List Path) (removal : Removal) :
    Steps KeepsLog (removeFiles store r record left removal) :=
  steps_removeFiles r record
    (fun file _ => ⟨store.keepsLog_archive file, Task.keepsLog_changeDisk _⟩)
    removal

theorem Removal.keepsLog_removeUnused (store : Backup.Store) :
    Steps KeepsLog (removeUnused store) := by
  intro s
  rw [exec_removeUnused]
  exact steps_removeAll (fun _ _ => rfl) (fun _ _ _ _ _ _ _ _ => rfl)
    (fun entry _ removal => keepsLog_removeFiles _ _ _ _ _) s

namespace Run

theorem keepsLog_passOf (project : Project) (dryRun : Bool) :
    Steps KeepsLog (passOf project dryRun) :=
  .ite (fun _ => .pure _) fun _ => Removal.keepsLog_removeUnused _

theorem keepsLog_round (project : Project) (number : Int) (dryRun : Bool) :
    Steps KeepsLog (round project number dryRun) := by
  rw [round_eq]
  refine (Index.steps_build _ _).bind fun catalog => Steps.bind (fun _ => rfl) fun _ => ?_
  refine (steps_searchRoots _).bind fun roots => (Usage.steps_scan _ _ _).bind fun stats => ?_
  exact Steps.get.bind fun _ => (keepsLog_passOf _ _).bind fun _ => steps_conclude _

theorem keepsLog_prepare (project : Project) (dryRun : Bool) :
    Steps KeepsLog (prepare project dryRun) := by
  have hcleared : Steps KeepsLog project.store.clear := by
    refine Task.steps_disk.bind fun disk => (Task.steps_check _).bind fun present => ?_
    refine .ite (fun _ => .pure _) fun _ =>
      .ite (fun _ => Steps.bind (.throw _) fun _ => ?_) fun _ => ?_
    -- The rest is the same whether or not the first refusal was passed.
    all_goals
      refine (Task.steps_check _).bind fun marked => ?_
      refine .ite (fun _ => (Task.keepsLog_onDisk _).bind fun _ => .pure _) fun _ => ?_
      split
      · exact .ite (fun _ => .pure _) fun _ => .throw _
      · exact .throw _
  have hclear : Steps KeepsLog (do
      if !dryRun then
        if ← project.store.clear then
          Task.succeed "backup_cleared" [("path", .path project.store.directory)]) :=
    .ite (fun _ => hcleared.bind fun cleared =>
      .ite (fun _ => Task.steps_succeed _ _) fun _ => .pure _) fun _ => .pure _
  refine (Task.steps_check _).bind fun isFile => .ite (fun _ => ?_) fun _ => hclear
  exact Steps.bind (.throw _) fun _ => hclear

open LogsOnly (HasAbsoluteLog)

variable {project : Project} {dryRun : Bool} {s t u : Session}

/-- No question is asked once a round has counted. -/
theorem leaves_round (project : Project) (number : Int) (dryRun : Bool) :
    Task.Leaves (fun failure => ∃ point, failure = .cancelled point)
      (fun s s' => HasAbsoluteLog s → LogsOnly s s') (round project number dryRun) := by
  rw [round_eq]
  refine .bind_steps (Index.steps_build _ _) fun catalog => ?_
  refine .bind_steps (fun _ _ => .of_disk rfl rfl) fun _ =>
    .bind_steps (steps_searchRoots _) fun roots => ?_
  refine Task.Leaves.bind (.of_steps (Usage.steps_scan _ _ _)) fun stats => ?_
  exact Avoids.get.bind fun _ => (avoids_passOf _ _).bind fun _ => avoids_conclude _

/-! ## What a stopped run leaves -/

/-- Rounds that could have come to their end are stopped where some of them have. -/
theorem stops_of_runs_roundsFrom {fuel number n : Nat} {rounds : List RoundReport}
    {point : StopPoint}
    (hpatience : t.patience = none) (hlog : HasAbsoluteLog t)
    (hcomes : ∀ t', Runs (Task.poll (.beforeRound number)) t () t' →
      ComesTo project dryRun s number t')
    (hruns : Runs (roundsFrom project dryRun fuel number) t rounds u)
    (hstops : (Task.exec (roundsFrom project dryRun fuel number) (t.lasting n)).1
      = .error (.cancelled point)) :
    ∃ k < rounds.length, ∃ t', ComesTo project dryRun s (number + k) t'
      ∧ LogsOnly t' (Task.exec (roundsFrom project dryRun fuel number) (t.lasting n)).2 := by
  induction fuel generalizing number n t rounds with
  | zero => exact absurd hruns Task.runs_throw
  | succ fuel ih =>
      have hlength : 0 < rounds.length := by
        obtain ⟨_, _, _, _, -, -, rfl, -⟩ := runs_roundsFrom hruns
        exact Nat.zero_lt_succ _
      obtain ⟨_, t', hpoll, hbody⟩ := Task.runs_bind.mp hruns
      obtain rfl := (Task.runs_poll_iff hpatience).mp hpoll
      obtain ⟨report, v, hround, hrest⟩ := Task.runs_bind.mp hbody
      have hcome := hcomes _ hpoll
      rw [roundsFrom] at hstops ⊢
      cases n with
      | zero =>
          -- The caller stops the run before this round.
          have hstop : (Task.exec (Task.poll (.beforeRound number)) (t'.lasting 0)).1
              = .error (.cancelled (.beforeRound number)) := rfl
          rw [Task.exec_bind_of_error hstop]
          exact ⟨0, hlength, t', hcome, .of_disk rfl rfl⟩
      | succ n =>
          have hasked : Task.exec (Task.poll (.beforeRound number)) (t'.lasting (n + 1))
              = (.ok (), t'.lasting n) := rfl
          rw [Task.exec_bind_of_ok hasked] at hstops ⊢
          obtain ⟨hnone, calls, hcalls⟩ := heeds_round project number dryRun t' hpatience
          rw [show Task.exec (round project number dryRun) t'
            = (.ok report, v) from hround] at hnone hcalls
          by_cases hn : calls ≤ n
          · rw [Task.exec_bind_of_ok ((hcalls n).1 hn)] at hstops ⊢
            split at hrest
            · rename_i hdone
              rw [if_pos hdone] at hstops
              cases hstops
            · rename_i hmore
              rw [if_neg hmore] at hstops ⊢
              obtain ⟨others, w, hrest, hpure⟩ := Task.runs_bind.mp hrest
              obtain ⟨rfl, rfl⟩ := Task.runs_pure.mp hpure
              have hfails := GoesOn.fails_of_bind (fun _ => .pure _) hstops
              rw [Task.exec_bind_of_error hfails]
              have hsame := (keepsLog_round project number dryRun).runs hround
              obtain ⟨k, hk, t'', hcomes', hlogs⟩ := ih hnone (fun log h => hlog log (hsame ▸ h))
                (fun w hpoll => .next hcome hround hmore hpoll) hrest hfails
              refine ⟨k + 1, Nat.succ_lt_succ hk, t'', ?_, hlogs⟩
              rwa [show number + (k + 1) = number + 1 + k by omega]
          · -- The caller stops the round while it counts.
            obtain ⟨point, hpoint⟩ := (hcalls n).2 (by omega)
            rw [Task.exec_bind_of_error hpoint]
            have hleaves := leaves_round project number dryRun _ _ hpoint ⟨point, rfl⟩ hlog
            exact ⟨0, hlength, t', hcome, ⟨hleaves.log, hleaves.forth, hleaves.back, hleaves.get?⟩⟩

end Run

end ResourcePruner
