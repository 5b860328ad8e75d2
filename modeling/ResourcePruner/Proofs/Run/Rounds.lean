import ResourcePruner.Proofs.Backup.Copies
import ResourcePruner.Proofs.Index.Build
import ResourcePruner.Proofs.Task.Done
import ResourcePruner.Proofs.Usage.Scan

/-!
# What the rounds of a run keep

What holds before a round holds after it if something is known of the freshly built catalog that
counting does not affect and that the pass brings back to it (`Run.keeps_round`). By induction on
the bound of the rounds it holds after all of them (`Run.keeps_roundsFrom`), so that a run that is
done keeps what holds once it has been prepared (`Run.runs_prepare_of_isDone`).
-/

namespace ResourcePruner

/-- What neither of two statements takes notice of, both of them together do not. -/
theorem Task.IsCounted.and {holds knows : Session → Prop} (hholds : IsCounted (Preserves holds))
    (hknows : IsCounted (Preserves knows)) : IsCounted (Preserves fun s => holds s ∧ knows s) where
  trail s events warnings h :=
    ⟨hholds.trail s events warnings h.1, hknows.trail s events warnings h.2⟩
  append s log bytes disk hlog happend h :=
    ⟨hholds.append s log bytes disk hlog happend h.1,
      hknows.append s log bytes disk hlog happend h.2⟩
  catalog s catalog hsame h :=
    ⟨hholds.catalog s catalog hsame h.1, hknows.catalog s catalog hsame h.2⟩
  roots s roots hroots h := ⟨hholds.roots s roots hroots h.1, hknows.roots s roots hroots h.2⟩
  patience s patience h := ⟨hholds.patience s patience h.1, hknows.patience s patience h.2⟩

/-- What depends on the files of the catalog only. -/
theorem Catalog.isCounted_preserves {knows : Catalog → Prop}
    (hknows : ∀ catalog counted : Catalog, catalog.SameFiles counted → knows catalog →
      knows counted) :
    Task.IsCounted (Task.Preserves fun s => knows s.catalog) where
  trail _ _ _ := id
  append _ _ _ _ _ _ := id
  catalog s catalog hsame := hknows s.catalog catalog hsame
  roots _ _ _ := id
  patience _ _ := id

namespace Run

open ResourcePruner.Task (Runs Steps IsLogged IsCounted IsDone Avoids GoesOn Brings Keeps Preserves)

variable {project : Project} {dryRun : Bool} {holds : Session → Prop} {s s' : Session}

/-! ## One round -/

/-- The pass of a round. -/
def passOf (project : Project) (dryRun : Bool) : Task Removal :=
  if dryRun then pure .nothing else Removal.removeUnused project.store

/-- What a round reports of the catalog before and after counting, the scan and the pass. -/
def reportOf (number : Int) (dryRun : Bool) (catalog counted : Catalog) (stats : Usage.ScanStats)
    (removal : Removal) : RoundReport where
  number := number
  found := catalog.counts
  unused := unusedTable counted
  removed := Removal.countsOf removal.removed
  failed := Removal.countsOf removal.failed
  deletedFiles := removal.deletedFiles
  scan := stats
  usage := if dryRun then counted.usage else []

/-- The end of a round. -/
def conclude (report : RoundReport) : Task RoundReport := do
  Task.succeed "round"
    [("number", .json (.int report.number)), ("found", countsData report.found),
      ("unused", .nat report.unusedCount), ("removed", .nat report.removedCount),
      ("failed", .nat (totalOf report.failed))]
  return report

/-- A round builds the catalog, counts, makes its pass and reports. -/
theorem round_eq (project : Project) (number : Int) (dryRun : Bool) :
    round project number dryRun = (do
      let catalog ← Index.build project.config.index project.config.projectRoot
      modify fun session => { session with catalog }
      let roots ← searchRoots project.config
      let stats ← Usage.scan project.config.scan roots (some project.config.manifest)
      let session ← get
      let removal ← passOf project dryRun
      conclude (reportOf number dryRun catalog session.catalog stats removal)) := by
  cases dryRun <;> rfl

theorem steps_conclude {R : Session → Session → Prop} [IsLogged R] (report : RoundReport) :
    Steps R (conclude report) :=
  (Task.steps_succeed _ _).bind fun _ => .pure _

/-- A round takes what is known of the catalog that it builds to its pass. -/
theorem keeps_round [IsLogged (Preserves holds)]
    (hpass : ∀ {s catalog s'}, holds s → holds s' →
      Runs (Index.build project.config.index project.config.projectRoot) s catalog s' →
      ∃ knows : Session → Prop, IsCounted (Preserves knows) ∧ knows { s' with catalog }
        ∧ (∀ t, knows t → holds t) ∧ Brings knows holds (passOf project dryRun))
    (number : Int) : Keeps holds (round project number dryRun) := by
  have hbuild : Keeps holds (Index.build project.config.index project.config.projectRoot) :=
    .of_steps (Index.steps_build (R := Preserves holds) _ _) fun _ _ => id
  rw [round_eq]
  refine hbuild.bind_runs (fun _ => id) fun {s catalog t} hruns hs ht => ?_
  obtain ⟨knows, _, hknows, hholds, hbrings⟩ := hpass hs ht hruns
  have hroots : Keeps knows (searchRoots project.config) :=
    .of_steps (steps_searchRoots (R := Preserves knows) _) fun _ _ => id
  have hscan : ∀ roots, Keeps knows
      (Usage.scan project.config.scan roots (some project.config.manifest)) := fun roots =>
    .of_steps (Usage.steps_scan (R := Preserves knows) _ _ _) fun _ _ => id
  have hget : Keeps knows (get : Task Session) := fun _ hs _ => hs
  have hrest : Brings knows holds (do
      let roots ← searchRoots project.config
      let stats ← Usage.scan project.config.scan roots (some project.config.manifest)
      let session ← get
      let removal ← passOf project dryRun
      conclude (reportOf number dryRun catalog session.catalog stats removal)) :=
    hroots.bind_brings hholds fun roots => (hscan roots).bind_brings hholds fun stats =>
      hget.bind_brings hholds fun _ => hbrings.bind fun removal =>
        .of_steps (steps_conclude (R := Preserves holds) _) fun _ _ => id
  exact hrest _ hknows

/-! ## All rounds -/

/-- The first round is followed by others if it removes something. -/
theorem runs_roundsFrom {fuel number : Nat} {rounds : List RoundReport}
    (hruns : Runs (roundsFrom project dryRun fuel number) s rounds s') :
    ∃ t report t' others, Runs (Task.poll (.beforeRound number)) s () t
      ∧ Runs (round project number dryRun) t report t' ∧ rounds = report :: others
      ∧ ((dryRun || report.removedCount = 0) = true ∧ others = [] ∧ s' = t'
        ∨ ¬ (dryRun || report.removedCount = 0) = true
          ∧ ∃ fuel', Runs (roundsFrom project dryRun fuel' (number + 1)) t' others s') := by
  cases fuel with
  | zero => exact absurd hruns Task.runs_throw
  | succ fuel =>
      obtain ⟨_, t, hpoll, hruns⟩ := Task.runs_bind.mp hruns
      obtain ⟨report, t', hround, hruns⟩ := Task.runs_bind.mp hruns
      split at hruns
      · rename_i hdone
        obtain ⟨rfl, rfl⟩ := Task.runs_pure.mp hruns
        exact ⟨t, report, _, [], hpoll, hround, rfl, .inl ⟨hdone, rfl, rfl⟩⟩
      · rename_i hmore
        obtain ⟨others, u, hrest, hpure⟩ := Task.runs_bind.mp hruns
        obtain ⟨rfl, rfl⟩ := Task.runs_pure.mp hpure
        exact ⟨t, report, t', others, hpoll, hround, rfl, .inr ⟨hmore, fuel, hrest⟩⟩

theorem not_runs_roundsFrom_nil {fuel number : Nat} :
    ¬ Runs (roundsFrom project dryRun fuel number) s [] s' := by
  intro hruns
  obtain ⟨_, _, _, _, -, -, heq, -⟩ := runs_roundsFrom hruns
  cases heq

theorem runs_roundsFrom_cons {fuel number : Nat} {report : RoundReport}
    {others : List RoundReport}
    (hruns : Runs (roundsFrom project dryRun fuel number) s (report :: others) s') :
    ∃ t t', Runs (Task.poll (.beforeRound number)) s () t
      ∧ Runs (round project number dryRun) t report t'
      ∧ ((dryRun || report.removedCount = 0) = true ∧ others = [] ∧ s' = t'
        ∨ ¬ (dryRun || report.removedCount = 0) = true
          ∧ ∃ fuel', Runs (roundsFrom project dryRun fuel' (number + 1)) t' others s') := by
  obtain ⟨t, _, t', _, hpoll, hround, heq, hrest⟩ := runs_roundsFrom hruns
  cases heq
  exact ⟨t, t', hpoll, hround, hrest⟩

/-- A round that is not followed by others. -/
theorem runs_roundsFrom_single {disk : Disk} {number : Nat} {t t' : Session} {report : RoundReport}
    (hpoll : Runs (Task.poll (.beforeRound number)) s () t)
    (hround : Runs (round project number dryRun) t report t')
    (hdone : (dryRun || report.removedCount = 0) = true) :
    Runs (roundsFrom project dryRun (roundLimit disk) number) s [report] t' := by
  obtain ⟨fuel, hfuel⟩ : ∃ fuel, roundLimit disk = fuel + 1 := ⟨_, rfl⟩
  rw [hfuel]
  refine Task.runs_bind.mpr ⟨(), t, hpoll, Task.runs_bind.mpr ⟨report, t', hround, ?_⟩⟩
  rw [if_pos hdone]
  exact Task.runs_pure.mpr ⟨rfl, rfl⟩

/-- What a round keeps, any number of rounds keep. -/
theorem keeps_roundsFrom [IsCounted (Preserves holds)]
    (hround : ∀ number, Keeps holds (round project number dryRun)) (fuel number : Nat) :
    Keeps holds (roundsFrom project dryRun fuel number) := by
  induction fuel generalizing number with
  | zero => exact .of_steps (.throw (R := Preserves holds) _) fun _ _ => id
  | succ fuel ih =>
      have hpoll : Keeps holds (Task.poll (.beforeRound number)) :=
        .of_steps (Task.steps_poll (R := Preserves holds) _) fun _ _ => id
      refine hpoll.bind fun _ => (hround _).bind fun report => ?_
      split
      · exact .pure _
      · exact (ih (number + 1)).bind fun _ => .pure _

/-! ## Preparation -/

section

variable {unwanted : Failure → Prop} [Task.IsRemote unwanted]

theorem avoids_clear (hbackup : ∀ refusal, ¬ unwanted (.backup refusal)) (store : Backup.Store) :
    Avoids unwanted store.clear := by
  refine Avoids.disk.bind fun disk => (Avoids.check _).bind fun present => ?_
  refine .ite (fun _ => .pure _) fun _ => .ite (fun _ => Avoids.bind (.throw (hbackup _)) ?_) ?_
  -- The rest is the same whether or not the first refusal was passed.
  all_goals
    intro _
    refine (Avoids.check _).bind fun marked => ?_
    refine .ite (fun _ => (Avoids.onDisk _).bind fun _ => .pure _) fun _ => ?_
    split
    · exact .ite (fun _ => .pure _) fun _ => .throw (hbackup _)
    · exact .throw (Task.IsRemote.disk _)

theorem avoids_prepare (hbackup : ∀ refusal, ¬ unwanted (.backup refusal))
    (hmanifest : ∀ path, ¬ unwanted (.manifestMissing path)) (project : Project) (dryRun : Bool) :
    Avoids unwanted (prepare project dryRun) := by
  refine (Avoids.check _).bind fun isFile => ?_
  have hclear : Avoids unwanted (do
      if !dryRun then
        if ← project.store.clear then
          Task.succeed "backup_cleared" [("path", .path project.store.directory)]) := by
    refine .ite (fun _ => (avoids_clear hbackup _).bind fun cleared => ?_) fun _ => .pure _
    exact .ite (fun _ => .succeed _ _) fun _ => .pure _
  exact .ite (fun _ => Avoids.bind (.throw (hmanifest _)) fun _ => hclear) fun _ => hclear

theorem goesOn_prepare (project : Project) (dryRun : Bool) : GoesOn (prepare project dryRun) :=
  avoids_prepare (by simp) (by simp) project dryRun

end

theorem runs_prepare {u : Unit} (hruns : Runs (prepare project false) s u s') :
    ∃ cleared t, Runs project.store.clear s cleared t ∧ (cleared = false ∧ s' = t ∨ cleared = true
      ∧ Runs (Task.succeed "backup_cleared" [("path", .path project.store.directory)]) t u s') := by
  obtain ⟨isFile, -, hruns⟩ := Task.runs_check_bind.mp hruns
  cases isFile with
  | false =>
    obtain ⟨_, _, hthrow, -⟩ := Task.runs_bind.mp hruns
    exact absurd hthrow Task.runs_throw
  | true =>
    obtain ⟨cleared, t, hclear, hruns⟩ := Task.runs_bind.mp hruns
    refine ⟨cleared, t, hclear, ?_⟩
    cases cleared with
    | false => exact .inl ⟨rfl, (Task.runs_pure.mp hruns).2⟩
    | true => exact .inr ⟨rfl, hruns⟩

theorem runs_prepare_dry {u : Unit} (hruns : Runs (prepare project true) s u s') : s' = s := by
  obtain ⟨isFile, -, hruns⟩ := Task.runs_check_bind.mp hruns
  cases isFile with
  | false =>
    obtain ⟨_, _, hthrow, -⟩ := Task.runs_bind.mp hruns
    exact absurd hthrow Task.runs_throw
  | true => exact (Task.runs_pure.mp hruns).2

/-- What a run reports in the end. -/
def summarize (project : Project) (dryRun : Bool) (rounds : List RoundReport) : Task Report := do
  let productive := rounds.filter fun report => 0 < report.removedCount
  let removed := removedByCategory productive
  Task.succeed "run"
    [("dry_run", .json (.bool dryRun)), ("rounds", .nat rounds.length),
      ("total_removed", .nat (totalOf removed))]
  let trail := (← get).trail
  return {
    runId := trail.runId
    dryRun
    rounds
    totalRemoved := totalOf removed
    removedByCategory := removed
    deletedFiles := productive.flatMap (·.deletedFiles)
    backupDir := project.store.directory
    warnings := trail.warnings }

/-- A run is prepared, goes through its rounds and reports. -/
theorem run_eq (project : Project) (dryRun : Bool) :
    run project dryRun = (do
      prepare project dryRun
      let disk ← Task.disk
      let rounds ← roundsFrom project dryRun (roundLimit disk) 1
      summarize project dryRun rounds) :=
  rfl

theorem steps_summarize {R : Session → Session → Prop} [IsLogged R] (rounds : List RoundReport) :
    Steps R (summarize project dryRun rounds) :=
  (Task.steps_succeed _ _).bind fun _ => Steps.get.bind fun _ => .pure _

/-- A run that is done has been prepared, and what its rounds keep holds still. -/
theorem runs_prepare_of_isDone {outcome : Except Failure Report}
    (hexec : Task.exec (run project dryRun) s = (outcome, s')) (hdone : IsDone outcome) :
    ∃ u t, Runs (prepare project dryRun) s u t ∧
      ∀ {holds : Session → Prop}, IsCounted (Preserves holds) →
        (∀ number, Keeps holds (round project number dryRun)) → holds t → holds s' := by
  have hdone' : IsDone (Task.exec (run project dryRun) s).1 := by rwa [hexec]
  rw [run_eq] at hdone' hexec
  obtain ⟨u, t, hprepare, hrest⟩ := (goesOn_prepare project dryRun).runs_of_bind hdone'
  refine ⟨u, t, hprepare, fun {holds} _ hround ht => ?_⟩
  have hdisk : Keeps holds Task.disk := .of_steps
    (Task.steps_disk (R := Preserves holds)) fun _ _ => id
  have hkeeps : Keeps holds (do
      let disk ← Task.disk
      let rounds ← roundsFrom project dryRun (roundLimit disk) 1
      summarize project dryRun rounds) :=
    hdisk.bind fun disk => (keeps_roundsFrom hround _ _).bind fun rounds =>
      .of_steps (steps_summarize (R := Preserves holds) rounds) fun _ _ => id
  rw [hexec] at hrest
  have hlast := hkeeps t ht
  rw [← hrest] at hlast
  exact hlast hdone

end Run

end ResourcePruner
