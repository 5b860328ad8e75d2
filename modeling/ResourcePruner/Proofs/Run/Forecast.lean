import ResourcePruner.Proofs.Run.Bound
import ResourcePruner.Proofs.Run.Prospect
import ResourcePruner.Proofs.Run.Tables

/-!
# What a dry run foretells

A dry run reports what the first round of a run would find on the same disk
(`Run.foretells_first_round`). The two differ in that the one clears the old backups away first, and
in what they add to the log; so it has to be known that neither changes what is indexed or searched
(`Run.Project.IsForeseeable`). A path to the manifest that leads through the old backups leads
nowhere once they are cleared (`Run.not_isForetold_of_detour`).
-/

namespace ResourcePruner

open Disk (descend isSkipped)
open ResourcePruner.Task (Runs)

/-- A report of a dry round says of another what it finds. -/
structure RoundReport.Foretells (dry report : RoundReport) : Prop where
  found : dry.found = report.found
  unused : dry.unused = report.unused
  scan : dry.scan = report.scan
  /-- As many resources of a category are removed or have failed as the dry round has listed. -/
  settled : ∀ category,
    (report.removed.lookup category).getD 0 + (report.failed.lookup category).getD 0
    = ((dry.unused.lookup category).getD []).length

/-- A report counts every resource of a catalog once, and those without a use are the ones that it
lists as unused. -/
structure RoundReport.Tallies (report : RoundReport) (catalog : Catalog) : Prop where
  nodup : (report.tallied.map Prod.fst).Nodup
  mem_iff : ∀ r, r ∈ report.tallied.map Prod.fst ↔ catalog.contains r = true
  unused : (report.tallied.filter (·.2 = 0)).map Prod.fst = report.unreferenced

namespace Run

open Usage (dialectOf?)

section

variable {project : Project} {s s' t d : Session} {log directory : Path}

/-- If a run succeeds, a dry one does, too, and its one round foretells the first of the run's. -/
def Project.IsForetold (project : Project) (s : Session) : Prop :=
  ∀ report s', Runs (run project false) s report s' → ∃ forecast d dry first,
    Runs (run project true) s forecast d ∧ forecast.rounds = [dry]
      ∧ report.rounds.head? = some first
      ∧ dry.Foretells first

/-! ## The two sessions -/

/-- A run that has been prepared agrees with a dry one. -/
theorem agree_of_prepared {u : Session} {cleared : Bool} (hsetup : project.IsSetUp s)
    (hforeseeable : project.IsForeseeable s log directory)
    (hclear : Runs project.store.clear s cleared t)
    (hprepared : u = t ∨ ∃ data, Runs (Task.succeed "backup_cleared" data) t () u) :
    (prospectOf hsetup hforeseeable (.refl _ _) hclear).swap.Agree Eq u s := by
  have hagree : (prospectOf hsetup hforeseeable (.refl _ _) hclear).swap.Agree Eq t s := by
    obtain ⟨disk, rfl, -⟩ := Backup.runs_clear hsetup.isAbsolute_directory hclear
    obtain ⟨found, more, hlog, hmore⟩ := hforeseeable.canLog
    obtain rfl := Option.some.inj (hlog.symm.trans hforeseeable.isLog)
    exact ⟨rfl, .inl rfl, hlog, hlog, .refl _ _, .refl _ _, more, hmore⟩
  rcases hprepared with rfl | ⟨data, hruns⟩
  · exact hagree
  · have hsteps := Task.steps_succeed
      (R := (prospectOf hsetup hforeseeable (.refl _ _) hclear).swap.KeepsLeft Eq)
    exact (hsteps _ _).runs hruns s hagree

/-! ## The first round -/

/-- In a session that agrees, a dry round reports the same. -/
theorem exists_dry_round {prospect : Prospect} {report : RoundReport} {t' : Session} {number : Int}
    (c : Course project t report t')
    (hindexes : prospect.IndexesAlike project.config.index project.config.projectRoot)
    (hscans : prospect.ScansAlike project.config.scan project.config.manifest)
    (hroots : prospect.roots = project.roots) (hleft : t.roots = none) (hright : d.roots = none)
    (hagree : prospect.Agree Eq t d) :
    ∃ u v d', Runs (Index.build project.config.index project.config.projectRoot) d c.built u
      ∧ Runs (round project number true) d
        (reportOf number true c.built c.counted.catalog c.stats .nothing) d'
          ∧ prospect.Agree Eq v d' := by
  have hindexed : c.indexed.roots = none :=
    ((Index.steps_build (R := KeepsRoots) _ _).runs c.runs_build).trans hleft
  have hsubset : c.roots ⊆ prospect.roots := hroots ▸ searchRoots_subset c fun roots hknown => by
    rw [hleft] at hknown
    cases hknown
  have hextra : ∀ root ∈ project.config.extraRoots, prospect.Steady root := fun root hmem =>
    hscans.roots root (hroots ▸ List.mem_cons_of_mem _ hmem)
  have hsearches : ∀ d', d'.roots = d.roots →
      prospect.Agree Eq { c.indexed with catalog := c.built } d' →
      ∃ d'', Runs (searchRoots project.config) d' c.roots d'' ∧ prospect.Agree Eq c.listed d'' := by
    intro d' hkept hbuilt
    have hleft' : ({ c.indexed with catalog := c.built } : Session).roots = none := hindexed
    obtain ⟨_, d'', hsearch, rfl, hlisted⟩ := Prospect.follows_searchRoots hextra hleft'
      (hkept.trans hright) hbuilt _ _ c.runs_searchRoots
    exact ⟨d'', hsearch, hlisted⟩
  obtain ⟨d₁, d₂, d₃, hbuild, hsearch, hscan, hcounted⟩ :=
    exists_counted c hindexes hscans hsubset hsearches hagree
  have hpass : Runs (passOf project true) d₃ .nothing d₃ := Task.runs_pure.mpr ⟨rfl, rfl⟩
  obtain ⟨d', hconclude, hagree'⟩ := exists_conclude hcounted
    (reportOf number true c.built c.counted.catalog c.stats .nothing)
  refine ⟨d₁, c.counted, d', hbuild, ?_, hagree'⟩
  rw [round_eq]
  refine Task.runs_bind.mpr
    ⟨c.built, d₁, hbuild, Task.runs_bind.mpr ⟨(), _, Task.runs_modify.mpr rfl, ?_⟩⟩
  refine Task.runs_bind.mpr ⟨c.roots, d₂, hsearch, Task.runs_bind.mpr ⟨c.stats, d₃, hscan, ?_⟩⟩
  refine Task.runs_get_bind.mpr (Task.runs_bind.mpr ⟨.nothing, d₃, hpass, ?_⟩)
  rw [← hcounted.catalog]
  exact hconclude

theorem foretells_of_course {report : RoundReport} {t' : Session} (c : Course project t report t')
    (number : Int) :
    (reportOf number true c.built c.counted.catalog c.stats .nothing).Foretells report := by
  obtain ⟨_, heq⟩ := c.report_eq
  have hsettled := settled_counts (Removal.settles_removeUnused c.runs_removeUnused)
  refine ⟨(congrArg RoundReport.found heq).symm, (congrArg RoundReport.unused heq).symm,
    (congrArg RoundReport.scan heq).symm, fun category => ?_⟩
  rw [congrArg RoundReport.removed heq, congrArg RoundReport.failed heq]
  exact hsettled category

theorem tallies_of_course {report : RoundReport} {t' : Session} (c : Course project t report t')
    (number : Int) :
    (reportOf number true c.built c.counted.catalog c.stats .nothing).Tallies c.built where
  nodup := nodup_tallied rfl
  mem_iff r := by
    rw [← c.sameFiles.contains_eq r]
    exact mem_tallied_iff rfl
  unused := unused_tallied rfl rfl

/-- Where a run can be prepared, a dry one can, which changes nothing by it. -/
theorem runs_prepare_dry_of_runs {u : Unit} (hruns : Runs (prepare project false) s u t) :
    Runs (prepare project true) s () s := by
  obtain ⟨isFile, hfile, hruns⟩ := Task.runs_check_bind.mp hruns
  cases isFile with
  | false =>
      obtain ⟨_, _, hthrow, -⟩ := Task.runs_bind.mp hruns
      exact absurd hthrow Task.runs_throw
  | true => exact Task.runs_check_bind.mpr ⟨true, hfile, Task.runs_pure.mpr ⟨rfl, rfl⟩⟩

/-- If a run succeeds, a dry one does on the same disk, and its one round foretells the first of the
run's. It counts every resource that the index finds once. -/
theorem foretells_first_round {temporary path : Path} {overrides : Overrides} {runId : Text}
    {s₀ : Session} (hopen : Runs (openSession temporary path overrides runId) s₀ project s)
    (hforeseeable : project.IsForeseeable s log directory) {report : Report}
    (hruns : Runs (run project false) s report s') :
    ∃ forecast d dry first, Runs (run project true) s forecast d ∧ forecast.rounds = [dry]
      ∧ report.rounds.head? = some first ∧ dry.Foretells first
      ∧ ∃ t catalog u, Runs (Task.poll (.beforeRound 1)) s () t
        ∧ Runs (Index.build project.config.index project.config.projectRoot) t catalog u
        ∧ dry.Tallies catalog := by
  obtain ⟨hsetup, hfresh⟩ := isSetUp_and_isFresh_of_openSession hopen
  rw [run_eq] at hruns
  obtain ⟨_, u, hprepare, hruns⟩ := Task.runs_bind.mp hruns
  obtain ⟨rounds, v, hrounds, hsummarize⟩ := Task.runs_bind.mp (Task.runs_disk_bind.mp hruns)
  obtain ⟨t₁, first, t₂, others, hpoll, hround, rfl, -⟩ := runs_roundsFrom hrounds
  obtain ⟨c⟩ := exists_course hround
  obtain ⟨cleared, t, hclear, hprepared⟩ := runs_prepare hprepare
  have hagree := agree_of_prepared hsetup hforeseeable hclear (u := u) <| by
    rcases hprepared with ⟨-, rfl⟩ | ⟨-, hnoted⟩
    · exact .inl rfl
    · exact .inr ⟨_, hnoted⟩
  have hpolls : Task.Follows ((prospectOf hsetup hforeseeable (.refl _ _) hclear).swap.Agree Eq)
      (fun _ _ => True) (Task.poll (.beforeRound 1)) (Task.poll (.beforeRound 1)) u s :=
    .poll hagree.patience fun _ _ h => { hagree with patience := h }
  obtain ⟨_, d, hpoll', -, hpolled⟩ := hpolls () t₁ hpoll
  have hleft : t₁.roots = none := by
    have hroots := roots_of_prepare hfresh hsetup.isAbsolute_directory hprepare
    obtain ⟨_, rfl⟩ := Task.runs_poll hpoll
    exact hroots
  have hright : d.roots = none := by
    obtain ⟨_, rfl⟩ := Task.runs_poll hpoll'
    exact hfresh.roots
  obtain ⟨w, _, d', hbuild, hdry, hagree'⟩ := exists_dry_round c
    (indexesAlike_prospectOf hsetup hfresh hforeseeable (.refl _ _) hclear).swap
    (scansAlike_prospectOf hsetup hfresh hforeseeable (.refl _ _) hclear).swap rfl hleft
      hright hpolled
  have hone : Runs (roundsFrom project true (roundLimit s.disk) 1) s
      [reportOf 1 true c.built c.counted.catalog c.stats .nothing] d' :=
    runs_roundsFrom_single hpoll' hdry rfl
  obtain ⟨forecast, d'', hlast, -⟩ := exists_summarize hagree' true
    [reportOf 1 true c.built c.counted.catalog c.stats .nothing]
  refine ⟨forecast, d'', _, first, ?_, rounds_of_summarize hlast, ?_, foretells_of_course c 1,
    d, c.built, w, hpoll', hbuild, tallies_of_course c 1⟩
  · rw [run_eq]
    exact Task.runs_bind.mpr ⟨(), s, runs_prepare_dry_of_runs hprepare,
      Task.runs_disk_bind.mpr (Task.runs_bind.mpr ⟨_, d', hone, hlast⟩)⟩
  · rw [rounds_of_summarize hsummarize]
    rfl

end

/-! ## Runs with old backups -/

namespace Sample

section

variable {project : Project} {s : Session} {found manifest : Path}

/-- Where the paths of a project lead that has the root, the log and the backup directory of the
sample, and what is searched there. -/
structure HasRecords (project : Project) (s : Session) (found manifest : Path) : Prop where
  eq_root : project.config.projectRoot = root
  eq_extraRoots : project.config.extraRoots = []
  eq_store : project.store.directory = directory ∧ project.store.projectRoot = root
  eq_log : s.trail.log = some log
  resolve_directory : s.disk.resolve directory = .ok directory
  resolve_root : s.disk.resolve root = .ok root
  resolve_log : s.disk.resolve log = .ok found
  resolve_manifest : s.disk.resolve project.config.manifest = .ok manifest
  log_ne : found.place ≠ manifest.place
  log_place : found = log ∨ ¬ root.place <+: found.place
  dialect : dialectOf? project.config.scan log = none
  links : ∀ link ∈ s.disk.links, Disk.IsSpellable link.2
  scanned : ∀ path ∈ Usage.visits project.config.scan s.disk project.config.manifest [root],
    (dialectOf? project.config.scan path).isSome = true →
      (s.disk.resolve path).toOption.any (!directory.place.isPrefixOf ·.place) = true

instance : Decidable (HasRecords project s found manifest) :=
  decidable_of_iff (((project.config.projectRoot = root ∧ project.config.extraRoots = [])
      ∧ (project.store.directory = directory ∧ project.store.projectRoot = root)
      ∧ s.trail.log = some log) ∧ (s.disk.resolve directory = .ok directory
      ∧ s.disk.resolve root = .ok root ∧ s.disk.resolve log = .ok found
      ∧ s.disk.resolve project.config.manifest = .ok manifest)
      ∧ (found.place ≠ manifest.place ∧ (found = log ∨ ¬ root.place <+: found.place)
        ∧ dialectOf? project.config.scan log = none)
      ∧ (∀ link ∈ s.disk.links, Disk.IsSpellable link.2)
      ∧ ∀ path ∈ Usage.visits project.config.scan s.disk project.config.manifest [root],
        (dialectOf? project.config.scan path).isSome = true →
          (s.disk.resolve path).toOption.any (!directory.place.isPrefixOf ·.place) = true)
    ⟨fun ⟨⟨⟨h₁, h₂⟩, h₃, h₄⟩, ⟨h₅, h₆, h₇, h₈⟩, ⟨h₉, h₁₀, h₁₁⟩, h₁₂, h₁₃⟩ =>
        ⟨h₁, h₂, h₃, h₄, h₅, h₆, h₇, h₈, h₉, h₁₀, h₁₁, h₁₂, h₁₃⟩,
      fun h => ⟨⟨⟨h.eq_root, h.eq_extraRoots⟩, h.eq_store, h.eq_log⟩,
        ⟨h.resolve_directory, h.resolve_root,
        h.resolve_log, h.resolve_manifest⟩, ⟨h.log_ne, h.log_place, h.dialect⟩, h.links, h.scanned⟩⟩

namespace HasRecords

theorem roots_eq (hrecords : HasRecords project s found manifest) : project.roots = [root] := by
  rw [Project.roots, hrecords.eq_root, hrecords.eq_extraRoots]

/-- The log is below the root only where it is spelled. -/
theorem eq_of_below_root (hrecords : HasRecords project s found manifest) {names : List Text}
    (hplace : found.place = root.place ++ names) :
    names = ([".resprune", "audit.jsonl"] : List Text) := by
  rcases hrecords.log_place with rfl | hnot
  · have hlog : log.place = root.place ++ ([".resprune", "audit.jsonl"] : List Text) := by
      decide
    exact List.append_cancel_left (hplace.symm.trans hlog)
  · exact absurd (hplace ▸ List.prefix_append _ _) hnot

theorem keepsRecordsApart (hrecords : HasRecords project s found manifest)
    (hmanifest : project.config.manifest.isAbsolute = true) :
    project.KeepsRecordsApart s log directory where
  isLog := hrecords.eq_log
  resolve_directory := by
    rw [hrecords.eq_store.1]
    exact hrecords.resolve_directory
  spellable := Disk.hasSpellableLinks_of_links hrecords.links
  apart := by
    rw [hrecords.eq_store.2]
    decide
  scanned := by
    rintro place ⟨path, hpath, goal, hgoal, rfl, hdialect⟩
    rw [hrecords.roots_eq] at hpath
    have habsolute :=
      (Usage.locates_of_mem_visits hmanifest (List.forall_mem_singleton.mpr rfl) hpath).1
    have hscanned := hrecords.scanned path hpath hdialect
    cases hresolve : s.disk.resolve path with
    | error fault =>
        rw [hresolve] at hscanned
        cases hscanned
    | ok found =>
        obtain rfl := Disk.eq_of_resolve (.refl _) habsolute hgoal hresolve
        rw [hresolve] at hscanned
        simpa [Except.toOption, ← List.isPrefixOf_iff_prefix] using hscanned
  not_log goal hgoal path hpath found' hfound' := by
    obtain rfl := Disk.eq_of_resolve (.refl _) rfl hgoal hrecords.resolve_log
    rw [hrecords.roots_eq] at hpath
    rcases List.mem_cons.mp hpath with rfl | hpath
    · obtain rfl := Disk.eq_of_resolve (.refl _) hmanifest hfound' hrecords.resolve_manifest
      exact hrecords.log_ne.symm
    · obtain rfl := List.mem_singleton.mp hpath
      obtain rfl := Disk.eq_of_resolve (.refl _) rfl hfound' hrecords.resolve_root
      intro heq
      cases hrecords.eq_of_below_root (heq.symm.trans (List.append_nil _).symm)
  not_scanned goal hgoal path hpath reached hreached way name _ hplace := by
    obtain rfl := Disk.eq_of_resolve (.refl _) rfl hgoal hrecords.resolve_log
    rw [hrecords.roots_eq] at hpath
    obtain rfl := List.mem_singleton.mp hpath
    obtain rfl := Disk.eq_of_resolve (.refl _) rfl hreached hrecords.resolve_root
    rw [hrecords.eq_of_below_root hplace]
    exact hrecords.dialect
  not_indexed goal hgoal stem dirs names hdir hplace := by
    obtain rfl := Disk.eq_of_resolve (.refl _) rfl hgoal hrecords.resolve_log
    rw [hrecords.eq_store.2] at hplace
    have hnames := hrecords.eq_of_below_root hplace
    -- The log would lie in a directory named for a category.
    obtain ⟨way, inner, rfl, -, -, -, hstem⟩ := hdir
    have hlength := congrArg List.length hnames
    simp only [List.length_append, List.length_cons, List.length_nil] at hlength
    obtain rfl := List.length_eq_zero_iff.mp (by omega : way.length = 0)
    obtain rfl := List.length_eq_zero_iff.mp (by omega : names.length = 0)
    obtain rfl : inner = ("audit.jsonl" : Text) := (List.cons.inj (List.cons.inj hnames).2).1
    rw [show Index.stemOf? "audit.jsonl" = none by decide] at hstem
    cases hstem

end HasRecords

end

/-- A path that is found to lead to the same leads alike. -/
theorem reach_eq_of_stat {disk other : Disk} {path : Path}
    (hfound : (disk.stat? path).isSome = true)
    (hsame : other.stat? path = disk.stat? path) :
    other.reach .target path = disk.reach .target path := by
  have hreach : ∀ {disk : Disk} {place entry}, disk.stat? path = some (place, entry) →
      disk.reach .target path = .found place entry := by
    intro disk place entry hstat
    rw [Disk.stat?] at hstat
    split at hstat
    · rename_i hreach
      cases hstat
      exact hreach
    · cases hstat
  obtain ⟨⟨place, entry⟩, hstat⟩ := Option.isSome_iff_exists.mp hfound
  rw [hreach hstat, hreach (hsame.trans hstat)]

theorem reachesAlike {project : Project} {s : Session}
    (hpaths : ∀ path ∈ project.config.manifest :: project.roots, (s.disk.stat? path).isSome = true
      ∧ (Task.exec project.store.clear s).2.disk.stat? path = s.disk.stat? path) :
    project.ReachesAlike s := by
  intro cleared t hclear path hpath
  obtain ⟨hfound, hsame⟩ := hpaths path hpath
  rw [show Task.exec project.store.clear s = (.ok cleared, t) from hclear] at hsame
  exact reach_eq_of_stat hfound hsame

theorem canLog {s : Session} (hlog : s.trail.log = some log)
    (happend : (s.disk.append log []).toOption.isSome = true) : s.CanLog := by
  obtain ⟨more, hmore⟩ := Option.isSome_iff_exists.mp happend
  exact ⟨log, more, hlog, eq_ok hmore⟩

/-- The project with an old backup. -/
def cluttered : Disk :=
  ((disk.put ["b"] .directory).put ["b", ".resprune-backup"] (.file [])).put ["b", "old.png"]
    (.file [80])

end Sample

/-- The old backup is cleared away, and the picture is removed that the dry round lists. -/
theorem foretells_first_round_sample : ∃ report forecast d dry first,
    (Sample.ran Sample.cluttered).1 = .ok report
      ∧ Runs (run (Sample.project Sample.cluttered) true) (Sample.opened Sample.cluttered).2
        forecast d
      ∧ forecast.rounds = [dry] ∧ report.rounds.head? = some first ∧ dry.Foretells first
      ∧ first.removedCount = 1 := by
  have hok : (Sample.opened Sample.cluttered).1.toOption.isSome = true
      ∧ ((Sample.ran Sample.cluttered).1.toOption.bind fun report =>
        report.rounds.head?.map RoundReport.removedCount) = some 1
      ∧ Sample.HasRecords (Sample.project Sample.cluttered) (Sample.opened Sample.cluttered).2
        Sample.log
        Sample.manifestPath
      ∧ (Sample.project Sample.cluttered).config.manifest.isAbsolute = true
      ∧ (∀ path ∈ (Sample.project Sample.cluttered).config.manifest
          :: (Sample.project Sample.cluttered).roots,
        ((Sample.opened Sample.cluttered).2.disk.stat? path).isSome = true
          ∧ (Task.exec (Sample.project Sample.cluttered).store.clear
              (Sample.opened Sample.cluttered).2).2.disk.stat? path
            = (Sample.opened Sample.cluttered).2.disk.stat? path)
      ∧ ((Sample.opened Sample.cluttered).2.disk.append Sample.log []).toOption.isSome = true := by
    decide +kernel
  obtain ⟨hopened, hran, hrecords, hmanifest, hpaths, happend⟩ := hok
  obtain ⟨report, hreport, hcount⟩ := Option.bind_eq_some_iff.mp hran
  have hruns : Runs (run (Sample.project Sample.cluttered) false) (Sample.opened Sample.cluttered).2
      report (Sample.ran Sample.cluttered).2 :=
    Sample.runs_of_toOption (e := Sample.ran Sample.cluttered) rfl hreport
  obtain ⟨forecast, d, dry, first, hdry, hrounds, hfirst, hforetells, -⟩ := foretells_first_round
    (Sample.runs_openSession hopened)
    ⟨hrecords.keepsRecordsApart hmanifest, Sample.reachesAlike hpaths,
      Sample.canLog hrecords.eq_log happend⟩ hruns
  rw [hfirst] at hcount
  exact ⟨report, forecast, d, dry, first, Sample.eq_ok hreport, hdry, hrounds, hfirst, hforetells,
    Option.some.inj hcount⟩

/-- A path to the manifest that leads through the old backups leads nowhere once they have been
cleared away, and what the manifest names is in use only as long as they have not. -/
theorem not_isForetold_of_detour : ¬ ∀ temporary path overrides runId s₀ project s log directory,
    Runs (openSession temporary path overrides runId) s₀ project s →
    project.KeepsRecordsApart s log directory → s.CanLog → project.IsForetold s := by
  intro hall
  have hok : Sample.colored.1.toOption.isSome = true
      ∧ ((Sample.ranFrom Sample.colored).1.toOption.bind fun report =>
        report.rounds.head?.map RoundReport.unusedCount) = some 1
      ∧ ((Task.exec (run (Sample.projectOf Sample.colored) true) Sample.colored.2).1.toOption.map
        fun report => report.rounds.map RoundReport.unusedCount) = some [2]
      ∧ Sample.HasRecords (Sample.projectOf Sample.colored) Sample.colored.2 Sample.log
        Sample.colorsPath
      ∧ (Sample.projectOf Sample.colored).config.manifest.isAbsolute = true
      ∧ (Sample.colored.2.disk.append Sample.log []).toOption.isSome = true := by
    decide +kernel
  obtain ⟨hopened, hran, hdried, hrecords, hmanifest, happend⟩ := hok
  have hopen : Runs (openSession ⟨.root, ["t"]⟩ Sample.root _ "run") _
      (Sample.projectOf Sample.colored) Sample.colored.2 :=
    Task.runs_of_exec (e := Sample.colored) rfl _ hopened
  obtain ⟨report, hreport, hcount⟩ := Option.bind_eq_some_iff.mp hran
  have hruns : Runs (run (Sample.projectOf Sample.colored) false) Sample.colored.2 report
      (Sample.ranFrom Sample.colored).2 :=
    Sample.runs_of_toOption (e := Sample.ranFrom Sample.colored) rfl hreport
  obtain ⟨forecast, d, dry, first, hdry, hrounds, hfirst, hforetells⟩ :=
    hall _ _ _ _ _ _ _ _ _ hopen
    (hrecords.keepsRecordsApart hmanifest) (Sample.canLog hrecords.eq_log happend) report _ hruns
  rw [hfirst] at hcount
  rw [show Task.exec (run (Sample.projectOf Sample.colored) true) Sample.colored.2
    = (.ok forecast, d)
    from hdry] at hdried
  have hcount : first.unusedCount = 1 := Option.some.inj hcount
  have hdried : forecast.rounds.map RoundReport.unusedCount = [2] := Option.some.inj hdried
  rw [hrounds] at hdried
  have hdried : dry.unusedCount = 2 := (List.cons.inj hdried).1
  rw [RoundReport.unusedCount, hforetells.unused] at hdried
  exact absurd (hdried.symm.trans hcount) (by decide)

/-- If the log is a link to where a copy will lie, nothing can be recorded before there is one. -/
theorem not_isForetold_of_link : ¬ ∀ temporary path overrides runId s₀ project s log directory,
    Runs (openSession temporary path overrides runId) s₀ project s →
    project.KeepsRecordsApart s log directory → project.ReachesAlike s → project.IsForetold s := by
  intro hall
  have hok : (Sample.opened Sample.linked).1.toOption.isSome = true
      ∧ (Sample.ran Sample.linked).1.toOption.isSome = true
      ∧ (Task.exec (run (Sample.project Sample.linked) true)
        (Sample.opened Sample.linked).2).1.toOption.isNone = true
      ∧ Sample.HasRecords (Sample.project Sample.linked) (Sample.opened Sample.linked).2
        (descend Sample.directory Sample.picture) Sample.manifestPath
      ∧ (Sample.project Sample.linked).config.manifest.isAbsolute = true
      ∧ ∀ path ∈ (Sample.project Sample.linked).config.manifest
          :: (Sample.project Sample.linked).roots,
        ((Sample.opened Sample.linked).2.disk.stat? path).isSome = true
          ∧ (Task.exec (Sample.project Sample.linked).store.clear
              (Sample.opened Sample.linked).2).2.disk.stat? path
            = (Sample.opened Sample.linked).2.disk.stat? path := by
    decide +kernel
  obtain ⟨hopened, hran, hfails, hrecords, hmanifest, hpaths⟩ := hok
  obtain ⟨report, hreport⟩ := Option.isSome_iff_exists.mp hran
  have hruns :
      Runs (run (Sample.project Sample.linked) false) (Sample.opened Sample.linked).2 report
      (Sample.ran Sample.linked).2 :=
    Sample.runs_of_toOption (e := Sample.ran Sample.linked) rfl hreport
  obtain ⟨forecast, d, dry, first, hdry, -⟩ :=
    hall _ _ _ _ _ _ _ _ _ (Sample.runs_openSession hopened)
    (hrecords.keepsRecordsApart hmanifest) (Sample.reachesAlike hpaths) report _ hruns
  rw [show Task.exec (run (Sample.project Sample.linked) true) (Sample.opened Sample.linked).2
    = (.ok forecast, d) from hdry] at hfails
  cases hfails

/-- It is not enough that the old backups and the log are not among what is searched or lies where
resources are looked for. -/
theorem not_foretells_first_round :
    (¬ ∀ temporary path overrides runId s₀ project s log directory,
      Runs (openSession temporary path overrides runId) s₀ project s →
      project.KeepsRecordsApart s log directory → s.CanLog → project.IsForetold s)
    ∧ ¬ ∀ temporary path overrides runId s₀ project s log directory,
      Runs (openSession temporary path overrides runId) s₀ project s →
      project.KeepsRecordsApart s log directory → project.ReachesAlike s → project.IsForetold s :=
  ⟨not_isForetold_of_detour, not_isForetold_of_link⟩

end Run

end ResourcePruner
