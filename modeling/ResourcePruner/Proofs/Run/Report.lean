import ResourcePruner.Proofs.Removal.Erasure
import ResourcePruner.Proofs.Run.Spared

/-!
# What a run reports

What the rounds of a run enter as deleted is what is missing below the project root when the run is
over (`Run.erases_roundsFrom`). Of these files a run reports those of the rounds that have removed
something, so that its report is complete if the last round has deleted nothing on the way to a
failure (`Run.reports_deleted`). The totals are the sums of the counts, by rounds as by categories.
-/

namespace ResourcePruner

open Disk (Extends Same Anyhow descend)

/-! ## Totals -/

/-- A table is summed up by rows as by columns. -/
theorem sum_sum_comm {α β : Type} (f : α → β → Nat) (rows : List α) (columns : List β) :
    (rows.map fun a => (columns.map (f a)).sum).sum
      = (columns.map fun b => (rows.map (f · b)).sum).sum := by
  induction rows with
  | nil =>
      induction columns with
      | nil => rfl
      | cons _ _ ih => rw [List.map_cons, List.sum_cons, ← ih]; rfl
  | cons a rest ih =>
      simp only [List.map_cons, List.sum_cons, ih, List.sum_map_add]

/-- What counts nothing may be left out. -/
theorem totalOf_filterMap {f : Category → Nat} {g : Category → Option (Category × Nat)}
    (hg : ∀ category, g category = none ∧ f category = 0 ∨ g category = some (category, f category))
    (categories : List Category) : totalOf (categories.filterMap g) = (categories.map f).sum := by
  induction categories with
  | nil => rfl
  | cons category rest ih =>
      rw [List.map_cons, List.sum_cons, ← ih, List.filterMap_cons]
      rcases hg category with ⟨hnone, hzero⟩ | hsome
      · rw [hnone, hzero, Nat.zero_add]
      · rw [hsome]
        rfl

/-- In a table with an entry at most for each of the categories, each is found under its name. -/
theorem lookup_filterMap {β : Type} {zero : β} {f : Category → β}
    {g : Category → Option (Category × β)}
    (hg : ∀ category, g category = none ∧ f category = zero
      ∨ g category = some (category, f category))
    (category : Category) (categories : List Category) :
    ((categories.filterMap g).lookup category).getD zero
      = if category ∈ categories then f category else zero := by
  induction categories with
  | nil => rfl
  | cons other rest ih =>
      rw [List.filterMap_cons]
      rcases hg other with ⟨hnone, hzero⟩ | hsome
      · rw [hnone]
        simp only [ih, List.mem_cons]
        by_cases hsame : category = other
        · subst hsame
          simp [hzero]
        · simp [hsame]
      · rw [hsome]
        by_cases hsame : category = other
        · subst hsame
          simp
        · rw [List.lookup_cons, beq_eq_false_iff_ne.mpr hsame]
          simp [ih, hsame]

namespace Removal

theorem countsOf_cases (resources : List Resource) :
    ∃ g : Category → Option (Category × Nat), countsOf resources = Category.all.filterMap g
      ∧ ∀ category, g category = none ∧ (namesOf resources category).length = 0
        ∨ g category = some (category, (namesOf resources category).length) := by
  refine ⟨_, rfl, fun category => ?_⟩
  cases hnames : namesOf resources category with
  | nil => exact .inl ⟨rfl, rfl⟩
  | cons name rest => exact .inr rfl

/-- The count of a category is that of its names. -/
theorem lookup_countsOf (resources : List Resource) (category : Category) :
    ((countsOf resources).lookup category).getD 0 = (namesOf resources category).length := by
  obtain ⟨g, heq, hg⟩ := countsOf_cases resources
  rw [heq, lookup_filterMap hg, if_pos (Category.mem_all category)]

theorem totalOf_countsOf (resources : List Resource) :
    totalOf (countsOf resources)
      = (Category.all.map fun category => (namesOf resources category).length).sum := by
  obtain ⟨g, heq, hg⟩ := countsOf_cases resources
  rw [heq, totalOf_filterMap hg]

end Removal

namespace Run

open ResourcePruner.Task (Runs)

section

variable {rounds : List RoundReport}

/-- The counts of the rounds are those of resources. -/
def AreCounted (rounds : List RoundReport) : Prop :=
  ∀ report ∈ rounds, ∃ resources, report.removed = Removal.countsOf resources

/-- Summed up by categories, the counts of the rounds are as many as summed up by rounds. -/
theorem totalOf_removedByCategory (hcounted : AreCounted rounds) :
    totalOf (removedByCategory rounds) = (rounds.map (·.removedCount)).sum := by
  have hround : ∀ report ∈ rounds, report.removedCount
      = (Category.all.map fun category => (report.removed.lookup category).getD 0).sum := by
    intro report hreport
    obtain ⟨resources, heq⟩ := hcounted report hreport
    simp only [RoundReport.removedCount, heq, Removal.lookup_countsOf, Removal.totalOf_countsOf]
  rw [List.map_congr_left hround, sum_sum_comm, removedByCategory, totalOf_filterMap]
  intro category
  by_cases hnone : (rounds.map fun report => (report.removed.lookup category).getD 0).sum = 0
  · exact .inl ⟨if_pos hnone, hnone⟩
  · exact .inr (if_neg hnone)

end

section

variable {project : Project} {s s' t u : Session} {report : RoundReport} {scene : Scene}
  {goal : Path}
  {rounds : List RoundReport} {fuel number : Nat}

/-! ## Rounds -/

/-- A round erases what it reports as deleted. -/
theorem Course.erases (c : Course project s report s')
    (hroot : project.config.projectRoot.isAbsolute = true) (hhas : scene.Has s)
    (hlast : Extends s'.disk scene.last)
    (hbackups : scene.backups = some project.store.directory)
    (hgoal : ∀ found, s.disk.Locates project.config.projectRoot found → found = goal)
    (hshown : scene.last.Locates project.config.projectRoot goal → ∀ stem file place,
      Index.Indexes project.config.index project.config.projectRoot goal stem file place →
      ¬ scene.hidden place) :
    Erases scene project.config.projectRoot goal.place report.deletedFiles s s' := by
  have hcounted := c.frame_counted hhas
  have hpassed := (c.frame_passed hroot hhas hbackups).has
  have hconcluded : Frame scene Nowhere Anyhow c.passed s' := c.frame_concluded hpassed
  have hpass : Erases (scene.after hcounted.has) project.config.projectRoot goal.place
      c.removal.deletedFiles c.counted c.passed := by
    refine Removal.erases_removeUnused hcounted.has.after (hconcluded.stays.trans hlast) hbackups
      (c.liesOn hroot hhas) (fun r file hfile _ => ?_) c.runs_removeUnused
    obtain ⟨found, place, hfound, stem, content, hindexes, hstands, -⟩ :=
      c.exists_enters hroot hhas hfile
    obtain rfl := hgoal found hfound
    obtain ⟨dirs, names, -, -, rfl, rfl, -⟩ := hindexes.exists_names
    have hstays := hcounted.stays.trans ((c.frame_passed hroot hhas hbackups).stays.trans
      (hconcluded.stays.trans hlast))
    exact ⟨dirs ++ names, rfl, hstands, hshown (hfound.mono hstays) _ _ _ hindexes⟩
  obtain ⟨number, heq⟩ := c.report_eq
  rw [show report.deletedFiles = c.removal.deletedFiles from
    congrArg RoundReport.deletedFiles heq]
  have hbefore : Erases scene project.config.projectRoot goal.place [] s c.counted :=
    .of_frame hcounted.of_same
  simpa using (hbefore.trans hpass.of_after (hconcluded.stays.trans hlast)).trans
    (.of_frame hconcluded) hlast

/-- So do any number of rounds. -/
theorem erases_roundsFrom (hroot : project.config.projectRoot.isAbsolute = true)
    (hbackups : scene.backups = some project.store.directory)
    (hshown : scene.last.Locates project.config.projectRoot goal → ∀ stem file place,
      Index.Indexes project.config.index project.config.projectRoot goal stem file place →
      ¬ scene.hidden place)
    (hhas : scene.Has t) (hlast : Extends u.disk scene.last)
    (hgoal : ∀ found, t.disk.Locates project.config.projectRoot found → found = goal)
    (hruns : Runs (roundsFrom project false fuel number) t rounds u) :
    Erases scene project.config.projectRoot goal.place (rounds.flatMap (·.deletedFiles)) t u := by
  induction rounds generalizing fuel number t with
  | nil => exact absurd hruns not_runs_roundsFrom_nil
  | cons report others ih =>
      obtain ⟨t', t'', hpoll, hround, hrest⟩ := runs_roundsFrom_cons hruns
      obtain ⟨c⟩ := exists_course hround
      have hpolled : Frame scene Nowhere Same t t' := .of_steps hhas hpoll (Task.steps_poll _)
      have hgoal' : ∀ found, t'.disk.Locates project.config.projectRoot found → found = goal := by
        obtain ⟨_, heq⟩ := Task.runs_poll hpoll
        rwa [heq]
      have hbefore : Erases scene project.config.projectRoot goal.place [] t t' :=
        .of_frame hpolled.of_same
      rcases hrest with ⟨-, rfl, rfl⟩ | ⟨hmore, fuel', hrest⟩
      · simpa using hbefore.trans (c.erases hroot hpolled.has hlast hbackups hgoal' hshown) hlast
      · have hframe : Frame scene _ Anyhow t' t'' :=
          c.frame hroot hpolled.has hbackups fun _ _ _ _ _ _ _ _ _ _ => trivial
        have hothers : Frame scene Anywhere Anyhow t'' u :=
          frame_roundsFrom hroot hbackups (fun _ _ _ _ _ => trivial) hframe.has hrest
        have hlast' := hothers.stays.trans hlast
        -- The round has removed something, so that it has found the root.
        obtain ⟨r, hr⟩ := List.exists_mem_of_ne_nil _ (removed_ne_nil c hmore)
        have hconcluded : Frame scene Nowhere Anyhow c.passed t'' :=
          c.frame_concluded (c.frame_passed hroot hpolled.has hbackups).has
        obtain ⟨file, hfile⟩ := c.isBacked hroot hpolled.has
          (c.unused_of_removed hroot hpolled.has (hconcluded.stays.trans hlast') hbackups hr).1
        obtain ⟨found, -, hfound, -⟩ := c.exists_enters hroot hpolled.has hfile
        have hnext : ∀ found, t''.disk.Locates project.config.projectRoot found → found = goal := by
          intro found' hfound'
          rw [hfound'.unique (hfound.mono hframe.stays)]
          exact hgoal' found hfound
        have hfirst := c.erases hroot hpolled.has hlast' hbackups hgoal' hshown
        exact hbefore.trans (hfirst.trans (ih hframe.has hnext hrest) hlast) hlast

/-- All rounds but the last have removed something, and the counts are those of resources. -/
theorem exists_last_of_roundsFrom (hruns : Runs (roundsFrom project false fuel number) t rounds u) :
    AreCounted rounds ∧ ∃ init last, rounds = init ++ [last] ∧ last.removedCount = 0
      ∧ ∀ report ∈ init, 0 < report.removedCount := by
  induction rounds generalizing fuel number t with
  | nil => exact absurd hruns not_runs_roundsFrom_nil
  | cons report others ih =>
      obtain ⟨t', t'', -, hround, hrest⟩ := runs_roundsFrom_cons hruns
      obtain ⟨c⟩ := exists_course hround
      obtain ⟨_, heq⟩ := c.report_eq
      have hfirst : ∃ resources, report.removed = Removal.countsOf resources :=
        ⟨_, congrArg RoundReport.removed heq⟩
      rcases hrest with ⟨hdone, rfl, -⟩ | ⟨hmore, fuel', hrest⟩
      · exact ⟨List.forall_mem_singleton.mpr hfirst, [], report, rfl, by simpa using hdone, nofun⟩
      · obtain ⟨hcounted, init, last, rfl, hlast, hinit⟩ := ih hrest
        refine ⟨List.forall_mem_cons.mpr ⟨hfirst, hcounted⟩, report :: init, last, rfl, hlast, ?_⟩
        exact List.forall_mem_cons.mpr ⟨Nat.pos_of_ne_zero (by simpa using hmore), hinit⟩

end

/-! ## A whole run -/

/-- The file was there when the run began, below the project root, and is there no longer. -/
def Project.HasDeleted (project : Project) (s s' : Session) (file : Path) : Prop :=
  ∃ names content, file = descend project.config.projectRoot names
    ∧ s.disk.get? (project.store.projectRoot.place ++ names) = some (.file content)
    ∧ s'.disk.Lacks (project.store.projectRoot.place ++ names)

section

variable {project : Project} {s s' : Session} {backups : Path} {report : Report}

theorem rounds_of_summarize {dryRun : Bool} {rounds : List RoundReport}
    (hruns : Runs (summarize project dryRun rounds) s report s') : report.rounds = rounds := by
  obtain ⟨_, _, -, hreport⟩ := Task.runs_bind.mp hruns
  have hreport := Task.runs_get_bind.mp hreport
  obtain ⟨rfl, -⟩ := Task.runs_pure.mp hreport
  rfl

/-- The last round, which has removed nothing, is left out of the totals and of the list of what was
deleted. -/
theorem productive_of_summarize {dryRun : Bool} {init : List RoundReport} {last : RoundReport}
    (hinit : ∀ round ∈ init, 0 < round.removedCount) (hlast : last.removedCount = 0)
    (hruns : Runs (summarize project dryRun (init ++ [last])) s report s') :
    report.deletedFiles = init.flatMap (·.deletedFiles)
      ∧ report.removedByCategory = removedByCategory init
      ∧ report.totalRemoved = totalOf report.removedByCategory := by
  have hproductive : (init ++ [last]).filter (fun round => 0 < round.removedCount) = init := by
    rw [List.filter_append, List.filter_eq_self.mpr (by simpa using hinit)]
    simp [hlast]
  obtain ⟨_, _, -, hreport⟩ := Task.runs_bind.mp hruns
  have hreport := Task.runs_get_bind.mp hreport
  obtain ⟨rfl, -⟩ := Task.runs_pure.mp hreport
  simp only [hproductive, and_self]

/-- To tell of a clearing leaves the root where it was before it. -/
theorem eq_root_of_noted (hsetup : project.IsSetUp s)
    (hresolve : s.disk.resolve project.store.directory = .ok backups)
    (hbeyond : ¬ backups.place <+: project.store.projectRoot.place) {t w : Session} {cleared : Bool}
    {u : Unit} (hcleared : Backup.Cleared project.store.directory s.disk w.disk)
    (hlog : w.trail.log = s.trail.log)
    (hnote : cleared = false ∧ t = w ∨ cleared = true
      ∧ Runs (Task.succeed "backup_cleared" [("path", .path project.store.directory)]) w u t)
    {found : Path} (hfound : t.disk.Locates project.config.projectRoot found) :
    found = project.store.projectRoot := by
  have hself : Untouched w.disk s.trail.log w :=
    ⟨hsetup.isAbsolute_log, hlog, .refl _, .refl _, fun _ content h => ⟨content, h⟩⟩
  have hback : Untouched w.disk s.trail.log t := by
    rcases hnote with ⟨-, rfl⟩ | ⟨-, hruns⟩
    · exact hself
    · exact (Task.steps_succeed (R := Task.Preserves (Untouched w.disk s.trail.log)) _ _).runs
        hruns hself
  have hbefore := hcleared.locates hsetup.isAbsolute_directory hresolve
    (fun h => hbeyond (h ▸ List.nil_prefix)) (hfound.mono hback.back)
  exact (Disk.eq_of_resolve (.refl _) hsetup.isAbsolute_root hbefore hsetup.resolve_root).symm

/-- What is indexed below the root is neither the log nor a backup. -/
theorem not_isRecord_of_indexes (hsetup : project.IsSetUp s)
    (hresolve : s.disk.resolve project.store.directory = .ok backups)
    (hinside : ¬ project.store.projectRoot.place <+: backups.place)
    (hbeyond : ¬ backups.place <+: project.store.projectRoot.place) {base last : Disk} {t : Session}
    (hcleared : Backup.Cleared project.store.directory s.disk base) (hbase : Extends base last)
    (hlog : t.KeepsLogApart project.config.index project.config.projectRoot)
    (hsame : t.trail.log = s.trail.log) (hlast : Extends t.disk last)
    (hlocates : last.Locates project.config.projectRoot project.store.projectRoot) {stem : Text}
    {file : Path} {place : Place} (hindexes : Index.Indexes project.config.index
      project.config.projectRoot project.store.projectRoot stem file place) :
    ¬ project.IsRecord s last place := by
  rintro (hlogged | ⟨-, found, hfound, -, hbelow, -⟩)
  · rw [← hsame] at hlogged
    exact Removal.not_logged_of_indexes hsetup.isAbsolute_root hlog hlast hlocates hindexes hlogged
  · obtain rfl := hcleared.eq_of_resolve hsetup.isAbsolute_directory hbase hresolve hfound
    obtain ⟨dirs, names, -, -, -, rfl, -⟩ := hindexes.exists_names
    exact (List.prefix_or_prefix_of_prefix (List.prefix_append _ _) hbelow).elim hinside hbeyond

/-- What the rounds of a run delete is what it has deleted. -/
theorem hasDeleted_iff (hsetup : project.IsSetUp s)
    (hdown : ∀ name ∈ project.store.directory.parts, IsDown name)
    (hresolve : s.disk.resolve project.store.directory = .ok backups)
    (hinside : ¬ project.store.projectRoot.place <+: backups.place)
    (hbeyond : ¬ backups.place <+: project.store.projectRoot.place)
    (hlog : ∀ t, ComesTo project false s 1 t →
      t.KeepsLogApart project.config.index project.config.projectRoot)
    (hruns : Runs (run project false) s report s') :
    (report.rounds.flatMap (·.deletedFiles)).Nodup ∧ ∀ file,
      file ∈ report.rounds.flatMap (·.deletedFiles) ↔ project.HasDeleted s s' file := by
  have hroot := hsetup.isAbsolute_root
  have hdirectory := hsetup.isAbsolute_directory
  rw [run_eq] at hruns
  obtain ⟨_, t, hprepare, hruns⟩ := Task.runs_bind.mp hruns
  obtain ⟨rounds, u, hrounds, hsummary⟩ := Task.runs_bind.mp (Task.runs_disk_bind.mp hruns)
  obtain ⟨t', _, _, _, hpoll, -, -, -⟩ := runs_roundsFrom hrounds
  obtain ⟨cleared, w, hclear, hnote⟩ := runs_prepare hprepare
  have hw := within_of_clear hsetup hdown hclear
  obtain ⟨base, hdisk, hcleared, -⟩ := Backup.runs_clear hdirectory hclear
  obtain rfl : w.disk = base := congrArg Session.disk hdisk
  have hnoted : Frame (hw.scene s'.disk) Nowhere Same w t := by
    rcases hnote with ⟨-, rfl⟩ | ⟨-, hruns⟩
    · exact .refl (hw.has _)
    · exact .of_steps (hw.has _) hruns (Task.steps_succeed _ _)
  have hpolled : Frame (hw.scene s'.disk) Nowhere Same t t' :=
    .of_steps hnoted.has hpoll (Task.steps_poll _)
  have hall : Frame (hw.scene s'.disk) Anywhere Anyhow t u :=
    frame_roundsFrom hroot rfl (fun _ _ _ _ _ => trivial) hnoted.has hrounds
  have hsummarized : Frame (hw.scene s'.disk) Nowhere Same u s' :=
    .of_steps hall.has hsummary (steps_summarize rounds)
  have hstays : Extends t.disk s'.disk := hall.stays.trans hsummarized.stays
  have hgoal : ∀ found, t.disk.Locates project.config.projectRoot found →
      found = project.store.projectRoot := fun found hfound =>
    eq_root_of_noted hsetup hresolve hbeyond hcleared hw.log hnote hfound
  have hstarts : Extends t'.disk s'.disk := by
    obtain ⟨_, heq⟩ := Task.runs_poll hpoll
    rw [heq]
    exact hstays
  have hshown : s'.disk.Locates project.config.projectRoot project.store.projectRoot →
      ∀ stem file place, Index.Indexes project.config.index project.config.projectRoot
        project.store.projectRoot stem file place → ¬ project.IsRecord s s'.disk place :=
    fun hlocates stem file place hindexes => not_isRecord_of_indexes hsetup hresolve hinside hbeyond
      hcleared (hnoted.stays.trans hstays) (hlog t' (.first hprepare hpoll)) hpolled.log hstarts
      hlocates hindexes
  have hsame : ∀ names, w.disk.get? (project.store.projectRoot.place ++ names)
      = s.disk.get? (project.store.projectRoot.place ++ names) := fun names =>
    get?_of_clear hsetup hresolve hinside hbeyond hcleared (List.prefix_append _ names)
  have herases :
      Erases (hw.scene s'.disk) project.config.projectRoot project.store.projectRoot.place
      (rounds.flatMap (·.deletedFiles)) w s' := by
    have hrounds := erases_roundsFrom hroot rfl hshown hnoted.has hsummarized.stays hgoal hrounds
    simpa using ((Erases.of_frame hnoted.of_same).trans hrounds hsummarized.stays).trans
      (.of_frame hsummarized.of_same) (.refl _)
  rw [rounds_of_summarize hsummary]
  refine ⟨herases.nodup, fun file => ⟨fun hfile => ?_, ?_⟩⟩
  · obtain ⟨names, content, rfl, -, hbefore, hlacks⟩ := herases.erased file hfile
    exact ⟨names, content, rfl, (hsame names).symm.trans hbefore, hlacks⟩
  · rintro ⟨names, content, rfl, hbefore, hlacks⟩
    by_contra hnot
    obtain ⟨now, hnow⟩ := (herases.frame.evolves (.refl _)).forth _ content (fun hgone => by
      obtain ⟨names', hmem, heq⟩ := hgone
      obtain rfl := List.append_cancel_left heq
      exact hnot hmem) ((hsame names).trans hbefore)
    exact hlacks now hnow

/-- **A report is complete up to its last round.** What the run reports as deleted, and what its
last round, which has removed nothing, has deleted before it failed to delete more, are the files
that have gone below the project root, each once. The report alone tells them all if that round has
deleted none. The number of removed resources is the sum over the rounds and that over the
categories. -/
theorem reports_deleted (hsetup : project.IsSetUp s)
    (hdown : ∀ name ∈ project.store.directory.parts, IsDown name)
    (hresolve : s.disk.resolve project.store.directory = .ok backups)
    (hinside : ¬ project.store.projectRoot.place <+: backups.place)
    (hbeyond : ¬ backups.place <+: project.store.projectRoot.place)
    (hlog : ∀ t, ComesTo project false s 1 t →
      t.KeepsLogApart project.config.index project.config.projectRoot)
    (hruns : Runs (run project false) s report s') :
    ∃ last, report.rounds.getLast? = some last ∧ last.removedCount = 0
      ∧ (report.deletedFiles ++ last.deletedFiles).Nodup
      ∧ (∀ file, file ∈ report.deletedFiles ++ last.deletedFiles ↔ project.HasDeleted s s' file)
      ∧ ((∀ file, file ∈ report.deletedFiles ↔ project.HasDeleted s s' file) ↔
        last.deletedFiles = [])
      ∧ report.totalRemoved = (report.rounds.map (·.removedCount)).sum
      ∧ report.totalRemoved = totalOf report.removedByCategory := by
  obtain ⟨hnodup, hdeleted⟩ :=
    hasDeleted_iff hsetup hdown hresolve hinside hbeyond hlog hruns
  rw [run_eq] at hruns
  obtain ⟨_, t, -, hruns⟩ := Task.runs_bind.mp hruns
  obtain ⟨rounds, u, hrounds, hsummary⟩ := Task.runs_bind.mp (Task.runs_disk_bind.mp hruns)
  obtain ⟨hcounted, init, last, rfl, hlast, hinit⟩ := exists_last_of_roundsFrom hrounds
  obtain ⟨hfiles, hcategories, htotal⟩ := productive_of_summarize hinit hlast hsummary
  have hall :
      report.rounds.flatMap (·.deletedFiles) = report.deletedFiles ++ last.deletedFiles := by
    rw [rounds_of_summarize hsummary, hfiles, List.flatMap_append, List.flatMap_singleton]
  rw [hall] at hnodup hdeleted
  refine ⟨last, by rw [rounds_of_summarize hsummary, List.getLast?_concat], hlast, hnodup, hdeleted,
    ⟨fun hcomplete => ?_, fun hnone => ?_⟩, ?_, htotal⟩
  · refine List.eq_nil_iff_forall_not_mem.mpr fun file hfile => ?_
    have hmem := (hcomplete file).mpr ((hdeleted file).mp (List.mem_append_right _ hfile))
    exact (List.nodup_append.mp hnodup).2.2 file hmem file hfile rfl
  · rwa [hnone, List.append_nil] at hdeleted
  · rw [htotal, hcategories, totalOf_removedByCategory fun round hround =>
      hcounted round (List.mem_append_left _ hround), rounds_of_summarize hsummary]
    simp [hlast]

end

/-! ## A report that is not complete -/

namespace Sample

/-- The project of a picture of two files, the second of which lies in a directory that has the name
of the mark of the backups, so that no copy can be made of it. -/
def halved : Except Failure Project × Session :=
  openedBy { Overrides.none with backupDir := some directory }
    ((((disk.put ["p", ".resprune-backup"] .directory).put ["p", ".resprune-backup", "res"]
      .directory).put ["p", ".resprune-backup", "res", "drawable"] .directory).put
      ["p", ".resprune-backup", "res", "drawable", "x.png"] (.file [81]))

end Sample

/-- One of the two files is deleted and not reported. -/
theorem reports_deleted_halved : ∃ report, (Sample.ranFrom Sample.halved).1 = .ok report
    ∧ report.deletedFiles = []
    ∧ (Sample.projectOf Sample.halved).HasDeleted Sample.halved.2 (Sample.ranFrom Sample.halved).2
      Sample.picturePath := by
  have hok : (Sample.halved.1.toOption.isSome = true
        ∧ ((Sample.ranFrom Sample.halved).1.toOption.map fun report =>
          (report.deletedFiles, report.rounds.getLast?.map (·.deletedFiles)))
            = some ([], some [Sample.picturePath]))
      ∧ Sample.halved.2.disk.resolve Sample.directory = .ok Sample.directory
      ∧ (Sample.projectOf Sample.halved).store.projectRoot = Sample.root
      ∧ Sample.HasPaths (Sample.projectOf Sample.halved)
          (Task.exec (prepare (Sample.projectOf Sample.halved) false) Sample.halved.2).2
          Sample.manifestPath := by
    decide +kernel
  obtain ⟨⟨hopened, hran⟩, hresolve, hroot, hpaths⟩ := hok
  have hopen : Runs (openSession ⟨.root, ["t"]⟩ Sample.root _ "run") _
      (Sample.projectOf Sample.halved) Sample.halved.2 :=
    Task.runs_of_exec (e := Sample.halved) rfl _ hopened
  obtain ⟨report, hreport, hfiles⟩ := Option.map_eq_some_iff.mp hran
  have hruns : Runs (run (Sample.projectOf Sample.halved) false) Sample.halved.2 report
      (Sample.ranFrom Sample.halved).2 :=
    Sample.runs_of_toOption (e := Sample.ranFrom Sample.halved) rfl hreport
  have hlog : ∀ t, ComesTo (Sample.projectOf Sample.halved) false Sample.halved.2 1 t →
      t.KeepsLogApart (Sample.projectOf Sample.halved).config.index
        (Sample.projectOf Sample.halved).config.projectRoot := by
    intro t hcomes
    obtain ⟨_, rfl⟩ := hcomes.eq_prepared
    exact hpaths.keepsLogApart _
  rw [← hpaths.eq_directory] at hresolve
  obtain ⟨last, hlast, -, -, hdeleted, -⟩ := reports_deleted (isSetUp_of_openSession hopen)
    (Sample.isDown_directory hpaths.eq_directory) hresolve
    (by rw [hroot, hpaths.eq_directory]; decide) (by rw [hroot, hpaths.eq_directory]; decide)
      hlog hruns
  obtain ⟨hnone, hlastFiles⟩ := Prod.mk.inj hfiles
  rw [hlast] at hlastFiles
  refine ⟨report, Sample.eq_ok hreport, hnone, (hdeleted _).mp (List.mem_append_right _ ?_)⟩
  rw [show last.deletedFiles = [Sample.picturePath] from Option.some.inj hlastFiles]
  exact List.mem_singleton_self _

end Run

end ResourcePruner
