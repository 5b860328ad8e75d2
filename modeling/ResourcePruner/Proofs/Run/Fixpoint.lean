import ResourcePruner.Proofs.Removal.Idle
import ResourcePruner.Proofs.Run.Forecast
import ResourcePruner.Proofs.Run.Interruption

/-!
# What a run leaves for another one

A run ends with the first round that removes nothing. If that round has rewritten no definition
file, and no file could be deleted that was to be, then another run has nothing to do
(`Run.removes_nothing_again`). A file may be rewritten, however, for the sake of a resource that
stays in another file; it counts as failed, and yet what it referred to may be in use no more
(`Run.not_removes_nothing_again`).
-/

namespace ResourcePruner

open Disk (Extends Same WrittenAt)
open ResourcePruner.Task (Runs Preserves IsCounted IsLogged IsRun)

/-! ## Nothing but the log -/

theorem Disk.WrittenAt.leadsThere_iff {places : Place → Prop} {base disk : Disk} {path : Path}
    {place : Place} (hwritten : WrittenAt places base disk) :
    disk.LeadsThere path place ↔ base.LeadsThere path place :=
  exists_congr fun _ => and_congr_left fun _ => hwritten.locates_iff

/-- Since the disk `base` nothing has changed but the log. -/
structure Session.HasLogged (log : Path) (base : Disk) (s : Session) : Prop where
  isLog : s.trail.log = some log
  written : WrittenAt (base.LeadsThere log) base s.disk

theorem Session.isCounted_hasLogged {log : Path} (habsolute : log.isAbsolute = true) (base : Disk) :
    IsCounted (Preserves (Session.HasLogged log base)) where
  trail _ _ _ h := { h with }
  append s path bytes disk hlog happend h := by
    obtain rfl : path = log := Option.some.inj (hlog.symm.trans h.isLog)
    exact { h with
      written := h.written.append_of_isAbsolute habsolute (fun goal hgoal => ⟨goal, hgoal, rfl⟩)
        happend }
  catalog _ _ _ h := { h with }
  roots _ _ _ h := { h with }
  patience _ _ h := { h with }

namespace Run

section

variable {project : Project} {s s' t u d : Session} {report : RoundReport} {log directory : Path}
  {rounds : List RoundReport} {fuel number : Nat}

/-! ## The last round -/

/-- A round up to the end of its pass. -/
def sweep (project : Project) : Task Removal := do
  let catalog ← Index.build project.config.index project.config.projectRoot
  modify fun session => { session with catalog }
  let roots ← searchRoots project.config
  let _ ← Usage.scan project.config.scan roots (some project.config.manifest)
  Removal.removeUnused project.store

/-- The last round of a run has rewritten no file, and it has failed with inline resources only. -/
def Project.EndsIdle (project : Project) (s : Session) (report : Report) : Prop :=
  ∀ t removal u, ComesTo project false s report.rounds.length t → Runs (sweep project) t removal u →
    removal.prunedFiles = [] ∧ ∀ r ∈ removal.failed, r.category.isInline = true

/-- The extra roots that have been searched are those that are there still. -/
def Project.FindsRoots (project : Project) (s : Session) : Prop :=
  ∃ isThere : Path → Bool,
    (∀ root ∈ project.config.extraRoots, s.disk.isPresent root = .ok (isThere root))
      ∧ s.roots = some (project.config.projectRoot :: project.config.extraRoots.filter isThere)

theorem Course.runs_sweep {t' : Session} (c : Course project t report t') :
    Runs (sweep project) t c.removal c.passed :=
  Task.runs_bind.mpr ⟨_, _, c.runs_build, Task.runs_bind.mpr ⟨(), _, Task.runs_modify.mpr rfl,
    Task.runs_bind.mpr ⟨_, _, c.runs_searchRoots,
      Task.runs_bind.mpr ⟨_, _, c.runs_scan, c.runs_removeUnused⟩⟩⟩⟩

/-- The rounds end with one that removes nothing. -/
theorem exists_last_round
    (hcomes : ∀ t', Runs (Task.poll (.beforeRound number)) t () t' →
      ComesTo project false s number t')
    (hruns : Runs (roundsFrom project false fuel number) t rounds u) :
    ∃ k t' last, number + rounds.length = k + 1 ∧ ComesTo project false s k t'
      ∧ Runs (round project k false) t' last u ∧ last.removedCount = 0 := by
  induction rounds generalizing fuel number t with
  | nil => exact absurd hruns not_runs_roundsFrom_nil
  | cons report others ih =>
      obtain ⟨t', t'', hpoll, hround, hrest⟩ := runs_roundsFrom_cons hruns
      have hcomes' := hcomes t' hpoll
      rcases hrest with ⟨hdone, rfl, rfl⟩ | ⟨hmore, fuel', hrest⟩
      · exact ⟨number, t', report, rfl, hcomes', hround, by simpa using hdone⟩
      · obtain ⟨k, v, last, hk, hlast⟩ := ih (fun v hpoll => .next hcomes' hround hmore hpoll) hrest
        exact ⟨k, v, last, by rw [List.length_cons]; omega, hlast⟩

theorem log_of_comesTo (hcomes : ComesTo project false s number t) : t.trail.log = s.trail.log := by
  induction hcomes with
  | first hprepare hpoll =>
      exact ((Task.steps_poll (R := KeepsLog) _).runs hpoll).trans
        ((keepsLog_prepare project false).runs hprepare)
  | next _ hround _ hpoll ih =>
      exact (((Task.steps_poll (R := KeepsLog) _).runs hpoll).trans
        ((keepsLog_round project _ false).runs hround)).trans ih

/-- A round that counts nothing as removed has removed nothing. -/
theorem Course.removed_eq_nil {t' : Session} (c : Course project t report t')
    (hnone : report.removedCount = 0) : c.removal.removed = [] := by
  obtain ⟨number, heq⟩ := c.report_eq
  rw [heq, RoundReport.removedCount, reportOf, Removal.totalOf_countsOf] at hnone
  refine List.eq_nil_iff_forall_not_mem.mpr fun r hr => ?_
  have hname : r.name ∈ Removal.namesOf c.removal.removed r.category :=
    List.mem_map.mpr ⟨r, List.mem_filter.mpr ⟨hr, decide_eq_true rfl⟩, rfl⟩
  have hle := List.le_sum_of_mem (List.mem_map.mpr ⟨r.category, Category.mem_all _, rfl⟩ :
    (Removal.namesOf c.removal.removed r.category).length
      ∈ Category.all.map fun category => (Removal.namesOf c.removal.removed category).length)
  have hpos := List.length_pos_of_mem hname
  omega

/-- If a round has removed nothing, and failed with inline resources only, no other resources are
unused. -/
theorem Course.isInline {t' : Session} (c : Course project t report t')
    (hnone : report.removedCount = 0)
    (hfailed : ∀ r ∈ c.removal.failed, r.category.isInline = true) :
    Removal.IsInline c.counted.catalog := by
  intro entry hentry
  have hsettled := (Removal.settles_removeUnused c.runs_removeUnused).mem_iff.mpr
    (List.mem_map_of_mem (f := Prod.fst) hentry)
  rw [c.removed_eq_nil hnone, List.nil_append] at hsettled
  exact hfailed _ hsettled

/-- The last round of a run has changed nothing but the log, and it could have pruned no file. -/
structure Course.IsIdle {t' : Session} (c : Course project t report t') (log : Path)
    (s' : Session) :
    Prop where
  isLog : t.trail.log = some log
  isInline : Removal.IsInline c.counted.catalog
  unpruned : c.removal.prunedFiles = []
  counted : c.counted.HasLogged log t.disk
  passed : c.passed.HasLogged log t.disk
  ended : s'.HasLogged log t.disk
  roots : s'.roots = some c.roots

/-- So it is with a round that rewrites no file and has none to delete. -/
theorem Course.isIdle {t' : Session} (c : Course project t report t')
    (hlog : t.trail.log = some log) (habsolute : log.isAbsolute = true)
    (hinline : Removal.IsInline c.counted.catalog) (hpruned : c.removal.prunedFiles = []) :
    c.IsIdle log t' := by
  have := Session.isCounted_hasLogged habsolute t.disk
  have hstart : t.HasLogged log t.disk := ⟨hlog, .refl _ _⟩
  have hindexed := (Index.steps_build (R := Preserves (Session.HasLogged log t.disk)) _ _).runs
    c.runs_build hstart
  have hbuilt : Session.HasLogged log t.disk { c.indexed with catalog := c.built } :=
    { hindexed with }
  have hlisted := (steps_searchRoots (R := Preserves (Session.HasLogged log t.disk)) _).runs
    c.runs_searchRoots hbuilt
  have hcounted := (Usage.steps_scan (R := Preserves (Session.HasLogged log t.disk)) _ _ _).runs
    c.runs_scan hlisted
  have hpassed := Removal.steps_of_idle (R := Preserves (Session.HasLogged log t.disk))
    (fun _ _ h => { h with }) c.runs_removeUnused hinline hpruned hcounted
  have hconcluded := (steps_conclude (R := Preserves (Session.HasLogged log t.disk)) _).runs
    c.runs_conclude hpassed
  have hroots : t'.roots = some c.roots := by
    have hlogs : ∀ path, some log = some path → path.isAbsolute = true := by
      rintro _ ⟨rfl⟩
      exact habsolute
    have hhas : (Scene.ofLog t.disk t.disk (some log) hlogs).Has t := Scene.has_ofLog hlog
    have hscanned := (c.frame_scanned (c.frame_listed hhas).has).roots _ c.roots_listed
    have hkept : KeepsRoots c.counted c.passed :=
      Removal.steps_of_idle (fun _ _ => rfl) c.runs_removeUnused hinline hpruned
    exact ((steps_conclude (R := KeepsRoots) _).runs c.runs_conclude).trans (hkept.trans hscanned)
  exact ⟨hlog, hinline, hpruned, hcounted, hpassed, hconcluded, hroots⟩

/-- A run that ends so ends with such a round. -/
theorem exists_isIdle {report : Report} (hlog : s.trail.log = some log)
    (habsolute : log.isAbsolute = true)
    (hruns : Runs (run project false) s report s') (hidle : project.EndsIdle s report) :
    ∃ t last t', ∃ c : Course project t last t', c.IsIdle log s' := by
  rw [run_eq] at hruns
  obtain ⟨_, u, hprepare, hruns⟩ := Task.runs_bind.mp hruns
  obtain ⟨rounds, t', hrounds, hsummarize⟩ := Task.runs_bind.mp (Task.runs_disk_bind.mp hruns)
  obtain ⟨k, t, last, hk, hcomes, hround, hnone⟩ :=
    exists_last_round (fun _ hpoll => .first hprepare hpoll) hrounds
  obtain rfl : k = report.rounds.length := by
    rw [rounds_of_summarize hsummarize]
    omega
  obtain ⟨c⟩ := exists_course hround
  obtain ⟨hpruned, hfailed⟩ := hidle t c.removal c.passed hcomes c.runs_sweep
  have h := c.isIdle ((log_of_comesTo hcomes).trans hlog) habsolute
    (c.isInline hnone hfailed) hpruned
  have := Session.isCounted_hasLogged habsolute t.disk
  have hended :=
    (steps_summarize (R := Preserves (Session.HasLogged log t.disk)) _).runs hsummarize h.ended
  have hroots := ((steps_summarize (R := KeepsRoots) _).runs hsummarize).trans h.roots
  exact ⟨t, last, t', c, { h with ended := hended, roots := hroots }⟩

/-- The log that a run has written lies in a directory, so that no other is made for it. -/
theorem disk_of_reopen {temporary path : Path} {overrides : Overrides} {runId : Text}
    {report : Report}
    {s₁ s₂ : Session} (hlog : s.trail.log = some (logPath project.config))
    (hruns : Runs (run project false) s report s')
    (hreopen : Runs (openSession temporary path overrides runId) s₁ project s₂)
    (hdisk : s₁.disk = s'.disk) : s₂.disk = s'.disk := by
  obtain ⟨_, disk, hconfig, hmade, -, -, rfl⟩ := runs_openSession hreopen
  obtain ⟨-, -, habsolute, -⟩ := paths_of_loadConfig hconfig
  rw [run_eq] at hruns
  obtain ⟨_, u, hprepare, hruns⟩ := Task.runs_bind.mp hruns
  obtain ⟨rounds, v, hrounds, hsummarize⟩ := Task.runs_bind.mp (Task.runs_disk_bind.mp hruns)
  have hlogged : v.trail.log = some (logPath project.config) := by
    obtain ⟨k, t, last, -, hcomes, hround, -⟩ :=
      exists_last_round (fun _ hpoll => .first hprepare hpoll) hrounds
    exact ((keepsLog_round project k false).runs hround).trans
      ((log_of_comesTo hcomes).trans hlog)
  obtain ⟨_, _, hnoted, hreport⟩ := Task.runs_bind.mp hsummarize
  have hreport := Task.runs_get_bind.mp hreport
  obtain ⟨-, rfl⟩ := Task.runs_pure.mp hreport
  obtain ⟨-, event, happend⟩ := Task.exists_append_of_succeed hnoted hlogged
  have hwrite : v.disk.writeWith (logPath project.config)
      (fun old => old.getD [] ++ Utf8.encode event.line) = .ok s'.disk := happend
  have habsoluteLog : (logPath project.config).isAbsolute = true := habsolute
  obtain ⟨found, old, hfound, -, -⟩ := Disk.writeWith_cases habsoluteLog hwrite
  obtain ⟨goal, hgoal, hlies⟩ : ∃ goal, s'.disk.Locates project.config.dataDir goal
      ∧ s'.disk.get? goal.place = some .directory :=
    (hfound.mono (Disk.extends_of_writeWith habsoluteLog hwrite)).exists_directory rfl
      (.inl (List.cons_ne_nil _ _))
  exact ((Disk.keepsDirectory_makeDirectories habsolute).runs hmade goal (hdisk ▸ hgoal)
    (hdisk ▸ hlies)).trans hdisk

end

/-! ## The round of another run -/

section

variable {project : Project} {s s' t t' u w d : Session} {report : RoundReport}
  {log directory : Path}
  {cleared : Bool} {alike : Catalog → Catalog → Prop}

/-- A session that has been prepared agrees with one in which a round has begun, from which its disk
differs by the log only. -/
theorem agree_of_prepared_again (hsetup : project.IsSetUp s)
    (hforeseeable : project.IsForeseeable s log directory)
    (hwritten : WrittenAt (s.disk.LeadsThere log) t.disk s.disk)
    (hclear : Runs project.store.clear s cleared w)
    (hprepared : cleared = false ∧ u = w
      ∨ cleared = true ∧ ∃ data, Runs (Task.succeed "backup_cleared" data) w () u)
    (hlog : t.trail.log = some log) (hpatience : u.patience = none) :
    (prospectOf hsetup hforeseeable hwritten hclear).Agree (fun _ _ => True) t u := by
  have habsolute := hsetup.isAbsolute_log log hforeseeable.isLog
  obtain ⟨disk, rfl, -, hkept⟩ := Backup.runs_clear hsetup.isAbsolute_directory hclear
  rcases hprepared with ⟨hnot, rfl⟩ | ⟨-, data, hnoted⟩
  · obtain ⟨found, more, hfound, hmore⟩ := hforeseeable.canLog
    obtain rfl := Option.some.inj (hfound.symm.trans hforeseeable.isLog)
    exact ⟨trivial, .inr hpatience, hlog, hforeseeable.isLog, .refl _ _, .refl _ _, more,
      (hkept hnot).symm ▸ hmore⟩
  · obtain ⟨-, event, happend⟩ := Task.exists_append_of_succeed hnoted hforeseeable.isLog
    have hlogged := ((Task.steps_succeed (R := KeepsLog) _ _).runs hnoted).trans hforeseeable.isLog
    exact ⟨trivial, .inr hpatience, hlog, hlogged, .refl _ _,
      (WrittenAt.refl _ _).append_of_isAbsolute habsolute
        (fun goal hgoal => ⟨goal, .inr hgoal, rfl⟩)
        happend,
      Disk.exists_append_again happend []⟩

/-- What a round does that has nothing to delete and prunes no file, it does in a session that
agrees. -/
theorem exists_idle_round {prospect : Prospect} (c : Course project t report t')
    (hindexes : prospect.IndexesAlike project.config.index project.config.projectRoot)
    (hscans : prospect.ScansAlike project.config.scan project.config.manifest)
    (hroots : prospect.roots = project.roots) {isThere : Path → Bool}
    (hthere : ∀ root ∈ project.config.extraRoots,
      prospect.right.isPresent root = .ok (isThere root))
    (hsearched : c.roots = project.config.projectRoot :: project.config.extraRoots.filter isThere)
    (hinline : Removal.IsInline c.counted.catalog)
    (hfiles : ∀ entry ∈ c.counted.catalog.unused, ∀ file ∈ entry.2.files,
      ∃ content, (∀ {d}, prospect.Agree Eq c.counted d → d.disk.read file = .ok content)
        ∧ ¬ Removal.IsPrunable (Removal.doomedBy c.counted.catalog file) content)
    (hnone : d.roots = none) (hagree : prospect.Agree alike t d) (number : Int) :
    ∃ again d', Runs (round project number false) d again d' ∧ again.removedCount = 0
      ∧ prospect.Agree (fun _ _ => True) c.counted d' := by
  have hsubset : c.roots ⊆ prospect.roots := by
    rw [hsearched, hroots, Project.roots]
    exact List.cons_subset_cons _ List.filter_sublist.subset
  have hextra : ∀ root ∈ project.config.extraRoots, prospect.Steady root := fun root hmem =>
    hscans.roots root (hroots ▸ List.mem_cons_of_mem _ hmem)
  have hsearches : ∀ d', d'.roots = d.roots →
      prospect.Agree Eq { c.indexed with catalog := c.built } d' →
      ∃ d'', Runs (searchRoots project.config) d' c.roots d'' ∧ prospect.Agree Eq c.listed d'' := by
    intro d' hkept hbuilt
    obtain ⟨d'', hsearch, hagree'⟩ :=
      Prospect.exists_searchRoots hextra hthere (hkept.trans hnone) hbuilt
    refine ⟨d'', hsearched ▸ hsearch, ?_⟩
    -- In the round itself, the roots may have been known.
    rcases runs_searchRoots (R := prospect.KeepsLeft Eq) c.runs_searchRoots with
      ⟨-, hlisted⟩ | ⟨-, v, hkeeps, hlisted, -⟩
    · exact hlisted.symm ▸ hagree'
    · exact hlisted.symm ▸ { hkeeps d'' hagree' with }
  obtain ⟨d₁, d₂, d₃, hbuild, hsearch, hscan, hcounted⟩ :=
    exists_counted c hindexes hscans hsubset hsearches hagree
  rw [hcounted.catalog] at hinline hfiles
  obtain ⟨removal, d₄, hpass, hremoved, hpassed⟩ :=
    Prospect.exists_removeUnused project.store hcounted hinline hfiles
  obtain ⟨d', hconclude, hagree'⟩ := exists_conclude hpassed
    (reportOf number false c.built d₃.catalog c.stats removal)
  refine ⟨reportOf number false c.built d₃.catalog c.stats removal, d', ?_, ?_, hagree'⟩
  · rw [round_eq]
    refine Task.runs_bind.mpr
      ⟨c.built, d₁, hbuild, Task.runs_bind.mpr ⟨(), _, Task.runs_modify.mpr rfl, ?_⟩⟩
    refine Task.runs_bind.mpr ⟨c.roots, d₂, hsearch, Task.runs_bind.mpr ⟨c.stats, d₃, hscan, ?_⟩⟩
    exact Task.runs_get_bind.mpr (Task.runs_bind.mpr ⟨removal, d₄, hpass, hconclude⟩)
  · rw [RoundReport.removedCount, reportOf, hremoved]
    rfl

/-- Another session finds each definition file of the unused resources as an idle round has left
it. -/
theorem exists_read_again (hsetup : project.IsSetUp s) (hfresh : project.IsFresh s)
    (hforeseeable : project.IsForeseeable s log directory)
    (hwritten : WrittenAt (s.disk.LeadsThere log) t.disk s.disk)
    (hclear : Runs project.store.clear s cleared w) {c : Course project t report t'}
    (hidle : c.IsIdle log s') {entry : Resource × Record}
    (hentry : entry ∈ c.counted.catalog.unused)
    {file : Path} (hfile : file ∈ entry.2.files) : ∃ content,
      (∀ {d}, (prospectOf hsetup hforeseeable hwritten hclear).Agree Eq c.counted d →
        d.disk.read file = .ok content)
      ∧ ¬ Removal.IsPrunable (Removal.doomedBy c.counted.catalog file) content := by
  have hcounted : Extends c.counted.disk s.disk := hidle.counted.written.back.trans hwritten.stays
  have hpassed : Extends c.passed.disk s.disk := hidle.passed.written.back.trans hwritten.stays
  have habsolute := hsetup.isAbsolute_root
  have halike := indexesAlike_prospectOf hsetup hfresh hforeseeable hwritten hclear
  let scene := Scene.ofLog t.disk s.disk s.trail.log hsetup.isAbsolute_log
  have hhas : scene.Has t := Scene.has_ofLog (hidle.isLog.trans hforeseeable.isLog.symm)
  have hroot : ∀ {goal}, s.disk.Locates project.config.projectRoot goal →
      goal = project.store.projectRoot :=
    fun hgoal => (Disk.eq_of_resolve (.refl _) habsolute hgoal hsetup.resolve_root).symm
  have hshown : ShowsIndexed project scene := by
    rintro goal stem file place hgoal hindexes ⟨path, found, hpath, hfound, rfl⟩
    obtain rfl := Option.some.inj (hforeseeable.isLog.symm.trans hpath)
    obtain rfl := hroot hgoal
    obtain ⟨dirs, names, hdir, -, -, hplace, -⟩ := hindexes.exists_names
    exact hforeseeable.not_indexed found hfound stem dirs names hdir hplace
  obtain ⟨goal, hlooked, hgoal, hdirectory, stem, place, content, hindexes, hcontent, hmem⟩ :=
    (c.has_iff habsolute hhas hcounted hshown).mp (Catalog.has_of_mem_unused hentry hfile)
  have hstays : Extends t.disk c.counted.disk := (c.frame_counted hhas).stays
  have hnot := hshown _ _ _ _ (hgoal.mono (hstays.trans hcounted)) hindexes
  have hstem := (Index.isInline_of_mem_resourcesOf hmem).mp (hidle.isInline entry hentry)
  have hlookedFile := hindexes.isLookedUp hstem.1 hstem.2
  refine ⟨content, fun {d} hagree => ?_, ?_⟩
  · obtain ⟨hright, -⟩ := halike.steady.locates_right hlooked hgoal rfl hdirectory
    obtain ⟨dirs, names, hdir, -, rfl, rfl, -⟩ := hindexes.exists_names
    have hlogNot := halike.log goal hgoal hright stem dirs names hdir
    have hhides := Prospect.not_hides hlogNot (halike.apart goal hgoal hright _ hlogNot)
    have hlies := (hagree.get?_eq hhides).trans hcontent
    obtain ⟨found, hfound, hplace⟩ := hindexes.locates (hagree.right.locates_iff.mpr hright) hlies
    exact Disk.read_of_locates habsolute hlookedFile hfound (hplace.symm ▸ hlies)
  · have hcountedHas := (c.frame_counted hhas).has
    exact Removal.not_isPrunable_of_idle hcountedHas.after hpassed
      (c.liesOn habsolute hhas) c.runs_removeUnused hidle.isInline hidle.unpruned hentry hfile
      (hindexes.stands habsolute (hgoal.mono hstays) (.refl _) hcontent) hnot hcontent hlookedFile

end

/-! ## Another run -/

section

variable {project : Project} {temporary path log directory : Path} {overrides : Overrides}
  {runId runId' : Text} {s₀ s s' s₁ s₂ u : Session} {report : Report}

/-- If the last round of a run has rewritten no file and failed with inline resources only, another
run on what it has left removes nothing in its one round, and changes nothing but the backups and
the log. -/
theorem removes_nothing_again
    (hopen : Runs (openSession temporary path overrides runId) s₀ project s)
    (hruns : Runs (run project false) s report s') (hidle : project.EndsIdle s report)
    (hfinds : project.FindsRoots s')
    (hreopen : Runs (openSession temporary path overrides runId') s₁ project s₂)
    (hdisk : s₁.disk = s'.disk) (hpatience : s₁.patience = none)
    (hforeseeable : project.IsForeseeable s₂ log directory)
    (hprepare : Runs (prepare project false) s₂ () u) :
    ∃ again s₃, Runs (run project false) s₂ again s₃ ∧ again.totalRemoved = 0
      ∧ again.rounds.length = 1
      ∧ ∀ place, ¬ s₂.disk.LeadsThere log place → ¬ directory.place <+: place →
        s₃.disk.get? place = s₂.disk.get? place := by
  obtain ⟨hsetup, hfresh⟩ := isSetUp_and_isFresh_of_openSession hreopen
  obtain ⟨hlog, -⟩ := log_and_patience_of_openSession hopen
  obtain ⟨hlog₂, hsame₂⟩ := log_and_patience_of_openSession hreopen
  have hpatience₂ : s₂.patience = none := hsame₂.trans hpatience
  obtain rfl := Option.some.inj (hlog₂.symm.trans hforeseeable.isLog)
  have hsame : s₂.disk = s'.disk := disk_of_reopen hlog hruns hreopen hdisk
  obtain ⟨t, last, t', c, hidle⟩ :=
    exists_isIdle hlog (hsetup.isAbsolute_log _ hforeseeable.isLog) hruns hidle
  have hwritten : WrittenAt (s₂.disk.LeadsThere (logPath project.config)) t.disk s₂.disk := by
    rw [hsame, show s'.disk.LeadsThere (logPath project.config)
      = t.disk.LeadsThere (logPath project.config) from
        funext fun _ => propext hidle.ended.written.leadsThere_iff]
    exact hidle.ended.written
  obtain ⟨isThere, hthere, hsearched⟩ := hfinds
  have hsearched := Option.some.inj (hidle.roots.symm.trans hsearched)
  -- The second run comes to its first round.
  obtain ⟨cleared, w, hclear, hprepared⟩ := runs_prepare hprepare
  have hpatienceᵤ : u.patience = none := by
    have hkept := (heeds_prepare project false s₂ hpatience₂).1
    rwa [show Task.exec (prepare project false) s₂ = (.ok (), u) from hprepare] at hkept
  have hagree := agree_of_prepared_again hsetup hforeseeable hwritten hclear
    (hprepared.imp_right fun h => ⟨h.1, _, h.2⟩) hidle.isLog hpatienceᵤ
  have hthere' : ∀ root ∈ project.config.extraRoots,
      (prospectOf hsetup hforeseeable hwritten hclear).right.isPresent root
        = .ok (isThere root) := by
    intro root hroot
    rw [← hthere root hroot, ← hsame, Disk.isPresent, Disk.isPresent, Disk.leadsTo, Disk.leadsTo,
      show (prospectOf hsetup hforeseeable hwritten hclear).right.reach .target root
        = s₂.disk.reach .target root from hforeseeable.steady cleared w hclear root
          (List.mem_cons_of_mem _ (List.mem_cons_of_mem _ hroot))]
  obtain ⟨first, d, hround, hnone, hagree'⟩ := exists_idle_round c
    (indexesAlike_prospectOf hsetup hfresh hforeseeable hwritten hclear)
    (scansAlike_prospectOf hsetup hfresh hforeseeable hwritten hclear) rfl hthere' hsearched
    hidle.isInline (fun entry hentry file hfile =>
      exists_read_again hsetup hfresh hforeseeable hwritten hclear hidle hentry hfile)
    (roots_of_prepare hfresh hsetup.isAbsolute_directory hprepare) hagree 1
  have hrounds : Runs (roundsFrom project false (roundLimit u.disk) 1) u [first] d :=
    runs_roundsFrom_single ((Task.runs_poll_iff hpatienceᵤ).mpr rfl) hround (by simp [hnone])
  obtain ⟨again, s₃, hagain, hlast⟩ := exists_summarize hagree' false [first]
  have htotal : Runs (summarize project false ([] ++ [first])) d again s₃ := hagain
  refine ⟨again, s₃, ?_, ?_, ?_, fun place hplace hbelow => ?_⟩
  · rw [run_eq]
    exact Task.runs_bind.mpr ⟨(), u, hprepare,
      Task.runs_disk_bind.mpr (Task.runs_bind.mpr ⟨_, d, hrounds, hagain⟩)⟩
  · obtain ⟨-, hremoved, htotal⟩ := productive_of_summarize (List.forall_mem_nil _) hnone htotal
    rw [htotal, hremoved]
    rfl
  · rw [rounds_of_summarize hagain]
    rfl
  · rw [hlast.right.elsewhere place fun h =>
      hplace ((isLog_prospectOf hsetup hforeseeable hwritten hclear).mp h)]
    exact Classical.not_not.mp fun hdiffers =>
      hbelow (below_of_ne hsetup hforeseeable hclear hdiffers)

end

/-! ## Runs after runs -/

namespace Sample

/-- A project with a picture that nothing refers to, and a color that shares its line with one in
use. -/
def shared : Disk :=
  ((disk.put ["p", "AndroidManifest.xml"] (.file (Utf8.encode "@color/d"))).put
    ["p", "res", "values"]
    .directory).put ["p", "res", "values", "a.xml"]
    (.file (Utf8.encode "<color name=\"x\">1</color><color name=\"d\">2</color>\n"))

/-- A color that is declared on a line of its own, which refers to another one, and on a line with
one in use; the picture is in use, too. -/
def halfShared : Disk :=
  ((shared.put ["p", "AndroidManifest.xml"] (.file (Utf8.encode "@color/d @drawable/x"))).put
    ["p", "res", "values", "b.xml"]
    (.file (Utf8.encode "<item/>\n<color name=\"x\">@color/y</color>\n"))).put
    ["p", "res", "values", "c.xml"] (.file (Utf8.encode "<color name=\"y\">1</color>\n<item/>\n"))

/-- The session in which the first round of a run ends. -/
def afterFirst (project : Project) (s : Session) : Session :=
  (Task.exec (round project 1 false) (Task.exec (prepare project false) s).2).2

/-- The second round begins there if the caller is not asked. -/
theorem eq_afterFirst {project : Project} {s t : Session} (hcomes : ComesTo project false s 2 t)
    (hprepared : (Task.exec (prepare project false) s).2.patience = none)
    (hpatience : (afterFirst project s).patience = none) : t = afterFirst project s := by
  cases hcomes with
  | @next _ report first second _ hcomes hround _ hpoll =>
      obtain ⟨patience, hfirst⟩ := hcomes.eq_prepared
      obtain rfl : first = (Task.exec (prepare project false) s).2 := by
        cases hcomes with
        | next hcomes => cases hcomes
        | first hprepare hpoll =>
            rw [show Task.exec (prepare project false) s = _ from hprepare] at hprepared ⊢
            exact (Task.runs_poll_iff hprepared).mp hpoll
      have hsecond : afterFirst project s = second := congrArg Prod.snd hround
      rw [hsecond] at hpatience ⊢
      exact (Task.runs_poll_iff hpatience).mp hpoll

theorem project_eq {first second : Project} (hconfig : first.config = second.config)
    (hroot : first.store.projectRoot = second.store.projectRoot)
    (hdirectory : first.store.directory = second.store.directory) : first = second := by
  obtain ⟨config, root, directory⟩ := first
  obtain ⟨config', root', directory'⟩ := second
  cases hconfig
  cases hroot
  cases hdirectory
  rfl

/-- A run on the disk ends, and another one can be prepared on what it has left, where the project
is set up as before and its records are apart. -/
def IsReopened (disk : Disk) : Prop :=
  (((opened disk).1.toOption.isSome = true ∧ (project disk).config.extraRoots = []
      ∧ (ran disk).2.roots = some [(project disk).config.projectRoot])
    ∧ (opened (ran disk).2.disk).1.toOption.isSome = true
    ∧ (project (ran disk).2.disk).config = (project disk).config
    ∧ (project (ran disk).2.disk).store.projectRoot = (project disk).store.projectRoot
    ∧ (project (ran disk).2.disk).store.directory = (project disk).store.directory)
  ∧ HasRecords (project disk) (opened (ran disk).2.disk).2 log manifestPath
  ∧ ((project disk).config.manifest.isAbsolute = true
    ∧ (∀ path ∈ (project disk).config.manifest :: (project disk).roots,
      ((opened (ran disk).2.disk).2.disk.stat? path).isSome = true
        ∧ (Task.exec (project disk).store.clear (opened (ran disk).2.disk).2).2.disk.stat? path
          = (opened (ran disk).2.disk).2.disk.stat? path)
    ∧ ((opened (ran disk).2.disk).2.disk.append log []).toOption.isSome = true
    ∧ (Task.exec (prepare (project disk) false) (opened (ran disk).2.disk).2).1.toOption.isSome
      = true)

instance (disk : Disk) : Decidable (IsReopened disk) :=
  inferInstanceAs (Decidable (_ ∧ _))

namespace IsReopened

variable {disk : Disk}

theorem runs_openSession_again (hreopened : IsReopened disk) :
    Runs (openSession ⟨.root, ["t"]⟩ root { Overrides.none with backupDir := some directory } "run")
      (start (ran disk).2.disk) (project disk) (opened (ran disk).2.disk).2 := by
  obtain ⟨⟨-, hopened, hconfig, hroot, hdirectory⟩, -⟩ := hreopened
  have hopen := runs_openSession hopened
  rwa [project_eq hconfig hroot hdirectory] at hopen

/-- The extra roots are none, before and after. -/
theorem findsRoots (hreopened : IsReopened disk) : (project disk).FindsRoots (ran disk).2 := by
  obtain ⟨⟨⟨-, hextra, hroots⟩, -⟩, -⟩ := hreopened
  refine ⟨fun _ => true, fun root hroot => ?_, ?_⟩
  · rw [hextra] at hroot
    cases hroot
  · rw [hroots, hextra]
    rfl

theorem isForeseeable (hreopened : IsReopened disk) :
    (project disk).IsForeseeable (opened (ran disk).2.disk).2 log directory := by
  obtain ⟨-, hrecords, hmanifest, hpaths, happend, -⟩ := hreopened
  exact ⟨hrecords.keepsRecordsApart hmanifest, reachesAlike hpaths, canLog hrecords.eq_log happend⟩

theorem exists_prepared (hreopened : IsReopened disk) :
    ∃ u, Runs (prepare (project disk) false) (opened (ran disk).2.disk).2 () u := by
  obtain ⟨-, -, -, -, -, hready⟩ := hreopened
  obtain ⟨u, hu⟩ := Option.isSome_iff_exists.mp hready
  exact ⟨_, runs_of_toOption
    (e := Task.exec (prepare (project disk) false) (opened (ran disk).2.disk).2) rfl hu⟩

end IsReopened

end Sample

/-- The picture is removed, the color is not; another run removes nothing. -/
theorem removes_nothing_again_sample : ∃ report again s₃, (Sample.ran Sample.shared).1 = .ok report
    ∧ report.totalRemoved = 1
    ∧ Runs (run (Sample.project Sample.shared) false)
      (Sample.opened (Sample.ran Sample.shared).2.disk).2
      again s₃
    ∧ again.totalRemoved = 0 ∧ again.rounds.length = 1 := by
  have hok : Sample.IsReopened Sample.shared
      ∧ ((Sample.ran Sample.shared).1.toOption.map fun report =>
        (report.totalRemoved, report.rounds.length)) = some (1, 2)
      ∧ (Task.exec (prepare (Sample.project Sample.shared) false)
        (Sample.opened Sample.shared).2).2.patience = none
      ∧ (Sample.afterFirst (Sample.project Sample.shared) (Sample.opened Sample.shared).2).patience
        = none
      ∧ ((Task.exec (sweep (Sample.project Sample.shared)) (Sample.afterFirst
          (Sample.project Sample.shared) (Sample.opened Sample.shared).2)).1.toOption.all
            fun removal =>
        removal.prunedFiles.isEmpty && removal.failed.all (·.category.isInline)) = true := by
    decide +kernel
  obtain ⟨hreopened, hran, hprepared, hpatience, hsweep⟩ := hok
  obtain ⟨report, hreport, heq⟩ := Option.map_eq_some_iff.mp hran
  obtain ⟨htotal, hlength⟩ := Prod.mk.inj heq
  have hruns :
      Runs (run (Sample.project Sample.shared) false) (Sample.opened Sample.shared).2 report
      (Sample.ran Sample.shared).2 :=
    Sample.runs_of_toOption (e := Sample.ran Sample.shared) rfl hreport
  have hidle : (Sample.project Sample.shared).EndsIdle (Sample.opened Sample.shared).2 report := by
    intro t removal u hcomes hswept
    rw [hlength] at hcomes
    rw [← Sample.eq_afterFirst hcomes hprepared hpatience] at hsweep
    have hexec : Task.exec (sweep (Sample.project Sample.shared)) t = (.ok removal, u) := hswept
    rw [hexec] at hsweep
    simpa [Except.toOption] using hsweep
  obtain ⟨u, hprepare⟩ := hreopened.exists_prepared
  have hdisk : (Sample.start (Sample.ran Sample.shared).2.disk).disk
      = (Sample.ran Sample.shared).2.disk := by rw [Sample.start]
  obtain ⟨again, s₃, hagain, hnone, hone, -⟩ := removes_nothing_again
    (Sample.runs_openSession hreopened.1.1.1) hruns hidle hreopened.findsRoots
    hreopened.runs_openSession_again hdisk rfl hreopened.isForeseeable hprepare
  exact ⟨report, again, s₃, Sample.eq_ok hreport, htotal, hagain, hnone, hone⟩

/-- The color stays on the line that it shares, and counts as failed, but it is taken out of the
other file. What was in use only there is found to be unused by another run. -/
theorem not_removes_nothing_again :
    ¬ ∀ temporary path overrides runId runId' s₀ project s report s' s₁ s₂
    log directory u, Runs (openSession temporary path overrides runId) s₀ project s →
    Runs (run project false) s report s' → project.FindsRoots s' →
    Runs (openSession temporary path overrides runId') s₁ project s₂ → s₁.disk = s'.disk →
    s₁.patience = none → project.IsForeseeable s₂ log directory →
    Runs (prepare project false) s₂ () u →
    ∃ again s₃, Runs (run project false) s₂ again s₃ ∧ again.totalRemoved = 0 := by
  intro hall
  have hok : Sample.IsReopened Sample.halfShared
      ∧ (Sample.ran Sample.halfShared).1.toOption.isSome = true
      ∧ ((Task.exec (run (Sample.project Sample.halfShared) false)
        (Sample.opened (Sample.ran Sample.halfShared).2.disk).2).1.toOption.map (·.totalRemoved))
          = some 1 := by
    decide +kernel
  obtain ⟨hreopened, hran, htotal⟩ := hok
  obtain ⟨report, hreport⟩ := Option.isSome_iff_exists.mp hran
  have hruns :
      Runs (run (Sample.project Sample.halfShared) false) (Sample.opened Sample.halfShared).2 report
      (Sample.ran Sample.halfShared).2 :=
    Sample.runs_of_toOption (e := Sample.ran Sample.halfShared) rfl hreport
  obtain ⟨u, hprepare⟩ := hreopened.exists_prepared
  have hdisk : (Sample.start (Sample.ran Sample.halfShared).2.disk).disk
      = (Sample.ran Sample.halfShared).2.disk := by rw [Sample.start]
  obtain ⟨again, s₃, hagain, hnone⟩ := hall _ _ _ _ _ _ _ _ _ _ _ _ _ _ _
    (Sample.runs_openSession hreopened.1.1.1) hruns hreopened.findsRoots
    hreopened.runs_openSession_again hdisk rfl hreopened.isForeseeable hprepare
  have hexec : Task.exec (run (Sample.project Sample.halfShared) false)
      (Sample.opened (Sample.ran Sample.halfShared).2.disk).2 = (.ok again, s₃) := hagain
  rw [hexec] at htotal
  rw [show again.totalRemoved = 1 from Option.some.inj htotal] at hnone
  exact absurd hnone (by decide)

end Run

end ResourcePruner
