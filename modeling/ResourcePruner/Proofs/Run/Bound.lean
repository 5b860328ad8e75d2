import ResourcePruner.Proofs.Index.Size
import ResourcePruner.Proofs.Run.Ends
import ResourcePruner.Proofs.Run.Records

/-!
# How many rounds a run can take

All rounds of a run but the last remove something (`Run.removes_of_runs_roundsFrom`), and it gives
up only if as many rounds as it is allowed have done so (`Run.removes_of_endless`). There are no
more such rounds than resources in the first one, which are fewer than the bytes of the files.
-/

namespace ResourcePruner

namespace Run

open ResourcePruner.Task (Runs Avoids)

section

variable {project : Project} {dryRun : Bool} {s t t' u : Session} {rounds : List RoundReport}
  {fuel number : Nat}

/-- The run comes to the round of that number, which removes something. -/
def Project.RemovesIn (project : Project) (s : Session) (number : Nat) : Prop :=
  ∃ t report t', ComesTo project false s number t ∧ Runs (round project number false) t report t'
    ∧ ¬ (false || report.removedCount = 0) = true

/-- A round begins in one session only. -/
theorem ComesTo.unique (hcomes : ComesTo project dryRun s number t)
    (hcomes' : ComesTo project dryRun s number t') : t = t' := by
  induction hcomes generalizing t' with
  | first hprepare hpoll =>
      cases hcomes' with
      | first hprepare' hpoll' =>
          cases hprepare.symm.trans hprepare'
          cases hpoll.symm.trans hpoll'
          rfl
      | next hcomes' => cases hcomes'
  | next hcomes hround hmore hpoll ih =>
      cases hcomes' with
      | first => cases hcomes
      | next hcomes' hround' hmore' hpoll' =>
          obtain rfl := ih hcomes'
          cases hround.symm.trans hround'
          cases hpoll.symm.trans hpoll'
          rfl

/-- The first round begins where the preparation ended. -/
theorem ComesTo.eq_prepared (hcomes : ComesTo project dryRun s 1 t) :
    ∃ patience, t = { (Task.exec (prepare project dryRun) s).2 with patience } := by
  cases hcomes with
  | first hprepare hpoll =>
      rw [show Task.exec (prepare project dryRun) s = _ from hprepare]
      exact Task.runs_poll hpoll
  | next hcomes => cases hcomes

/-! ## The rounds that remove something -/

theorem removes_of_runs_roundsFrom
    (hcomes : ∀ t', Runs (Task.poll (.beforeRound number)) t () t' →
      ComesTo project false s number t')
    (hruns : Runs (roundsFrom project false fuel number) t rounds u) :
    ∃ first more, rounds = first :: more
      ∧ (∃ t' t'', ComesTo project false s number t'
          ∧ Runs (round project number false) t' first t'')
      ∧ ∀ k < more.length, project.RemovesIn s (number + k) := by
  induction rounds generalizing fuel number t with
  | nil => exact absurd hruns not_runs_roundsFrom_nil
  | cons report others ih =>
      obtain ⟨t', t'', hpoll, hround, hrest⟩ := runs_roundsFrom_cons hruns
      have hcomes' := hcomes t' hpoll
      refine ⟨report, others, rfl, ⟨t', t'', hcomes', hround⟩, fun k hk => ?_⟩
      rcases hrest with ⟨-, rfl, -⟩ | ⟨hmore, fuel', hrest⟩
      · exact absurd hk (Nat.not_lt_zero k)
      · cases k with
        | zero => exact ⟨t', report, t'', hcomes', hround, hmore⟩
        | succ k =>
            obtain ⟨second, more, rfl, -, hremoves⟩ :=
              ih (fun v hpoll => .next hcomes' hround hmore hpoll) hrest
            rw [show number + (k + 1) = number + 1 + k by omega]
            exact hremoves k (Nat.lt_of_succ_lt_succ hk)

/-- The rounds give up only when all that are allowed have removed something. -/
theorem removes_of_endless
    (hcomes : ∀ t', Runs (Task.poll (.beforeRound number)) t () t' →
      ComesTo project false s number t')
    (hends : (Task.exec (roundsFrom project false fuel number) t).1 = .error .endless) :
    ∀ k < fuel, project.RemovesIn s (number + k) := by
  induction fuel generalizing number t with
  | zero => exact fun k hk => absurd hk (Nat.not_lt_zero k)
  | succ fuel ih =>
      have hpolls : Avoids (· = Failure.endless) (Task.poll (.beforeRound number)) :=
        Task.avoids_poll _
      have hrounds : Avoids (· = Failure.endless) (round project number false) := avoids_round _ _ _
      obtain ⟨_, t', hpoll, hexec⟩ := hpolls.runs_of_bind hends rfl
      rw [roundsFrom, hexec] at hends
      obtain ⟨report, t'', hround, hexec⟩ := hrounds.runs_of_bind hends rfl
      rw [hexec] at hends
      have hcomes' := hcomes t' hpoll
      split at hends
      · cases hends
      · rename_i hmore
        have hrest := Avoids.fails_of_bind (fun _ => .pure _) hends rfl
        intro k hk
        cases k with
        | zero => exact ⟨t', report, t'', hcomes', hround, hmore⟩
        | succ k =>
            rw [show number + (k + 1) = number + 1 + k by omega]
            exact ih (fun v hpoll => .next hcomes' hround hmore hpoll) hrest k
              (Nat.lt_of_succ_lt_succ hk)

/-! ## The bound -/

/-- As many resources as are spent were found in the first round, each in a file of its disk. -/
theorem Spent.le {first report : RoundReport} {t₁ t₁' : Session} {f : Course project t₁ first t₁'}
    {c : Course project t report t'} {scene : Scene} (hspent : Spent f c number)
    (hroot : project.config.projectRoot.isAbsolute = true) (hhas : scene.Has t₁)
    (hlast : f.counted.disk = scene.last) (hshown : ShowsIndexed project scene) :
    number ≤ totalOf first.found
      ∧ number ≤ (t₁.disk.contents.map fun entry => entrySize entry.2 + 1).sum := by
  obtain ⟨spent, hnodup, rfl, hall⟩ := hspent.resources
  constructor
  · obtain ⟨number, heq⟩ := f.report_eq
    rw [heq]
    exact Catalog.length_le_totalOf_counts hnodup fun r hr =>
      (f.sameFiles.contains_eq r).symm.trans (hall r hr).1
  · obtain ⟨-, goal, hgoal, -⟩ := hspent.locates
    refine Index.length_le_of_indexed project.config.index project.config.projectRoot goal hnodup
      fun r hr => ?_
    obtain ⟨file, hfile⟩ := f.isBacked hroot hhas (hall r hr).1
    obtain ⟨goal', -, hgoal', -, stem, place, content, hindexes, hcontent, hr⟩ :=
      (f.has_iff hroot hhas (hlast ▸ .refl _) hshown).mp hfile
    obtain rfl := (hgoal'.mono hspent.stays).unique hgoal
    have hcounted := f.frame_counted hhas
    have hhidden := hshown _ _ _ _ (hgoal'.mono (hlast ▸ hcounted.stays)) hindexes
    exact ⟨stem, file, place, content, hindexes,
      (hcounted.get?_file_iff (hlast ▸ .refl _) hhidden).mp hcontent, hr⟩

section

variable (hsetup : project.IsSetUp s) (hfresh : project.IsFresh s)
  (hdown : ∀ name ∈ project.store.directory.parts, IsDown name)
  (hapart : ∀ t, ComesTo project false s 1 t → project.IsApart t)
  (hsearches : project.SearchesNoRecord s)

include hsetup hfresh hdown hapart hsearches

theorem le_of_removesIn (hremoves : project.RemovesIn s number) :
    ∃ t₁ first t₁', ComesTo project false s 1 t₁ ∧ Runs (round project 1 false) t₁ first t₁'
      ∧ number ≤ totalOf first.found
      ∧ number ≤ (t₁.disk.contents.map fun entry => entrySize entry.2 + 1).sum := by
  obtain ⟨t, report, t', hcomes, hround, hmore⟩ := hremoves
  obtain ⟨c⟩ := exists_course hround
  obtain ⟨t₁, first, t₁', f, hfirst, hround₁, hspent⟩ :=
    exists_spent hsetup hfresh hdown hapart hsearches hcomes hround c (removed_ne_nil c hmore)
  obtain ⟨base, ht₁⟩ := Within.exists_of_comesTo hsetup hdown hfirst
  have hstays := (f.frame_counted (ht₁.has f.counted.disk)).stays
  exact ⟨t₁, first, t₁', hfirst, hround₁,
    hspent.le hsetup.isAbsolute_root (ht₁.has f.counted.disk) rfl
    (ht₁.showsIndexed (hapart t₁ hfirst) ht₁.log hstays)⟩

end

/-- A run ends, and after the first round it has at most one for each resource found there. -/
theorem rounds_le_of_openSession {temporary path : Path} {overrides : Overrides} {runId : Text}
    {s₀ : Session} (hopen : Runs (openSession temporary path overrides runId) s₀ project s)
    (hdown : ∀ name ∈ project.store.directory.parts, IsDown name)
    (hapart : ∀ t, ComesTo project false s 1 t → project.IsApart t)
    (hsearches : project.SearchesNoRecord s) :
    (Task.exec (run project false) s).1 ≠ .error .endless
      ∧ ∀ report s', Runs (run project false) s report s' → ∃ first,
        report.rounds.head? = some first
        ∧ report.rounds.length ≤ 1 + totalOf first.found := by
  obtain ⟨hsetup, hfresh⟩ := isSetUp_and_isFresh_of_openSession hopen
  constructor
  · intro hends
    rw [run_eq] at hends
    obtain ⟨_, t, hprepare, hexec⟩ := (ends_prepare project false).runs_of_bind hends rfl
    rw [hexec] at hends
    obtain ⟨disk, _, hdisk, hexec⟩ := Avoids.disk.runs_of_bind hends rfl
    obtain ⟨rfl, rfl⟩ := Task.runs_disk.mp hdisk
    rw [hexec] at hends
    have hrounds :=
      Avoids.fails_of_bind (fun rounds => ends_summarize project false rounds) hends rfl
    have hall := removes_of_endless (fun _ hpoll => .first hprepare hpoll) hrounds
    -- The last of the rounds that were allowed has removed something, too.
    obtain ⟨t₁, first, t₁', hfirst, -, -, hle⟩ :=
      le_of_removesIn hsetup hfresh hdown hapart hsearches
      (hall _ (Nat.lt_succ_self _))
    obtain ⟨patience, rfl⟩ := hfirst.eq_prepared
    rw [show Task.exec (prepare project false) s = _ from hprepare] at hle
    exact absurd hle (by simp only; omega)
  · intro report s' hruns
    rw [run_eq] at hruns
    obtain ⟨_, t, hprepare, hruns⟩ := Task.runs_bind.mp hruns
    obtain ⟨rounds, u, hrounds, hruns⟩ := Task.runs_bind.mp (Task.runs_disk_bind.mp hruns)
    obtain ⟨first, more, rfl, ⟨t₁, t₁', hfirst, hround⟩, hall⟩ :=
      removes_of_runs_roundsFrom (fun _ hpoll => .first hprepare hpoll) hrounds
    obtain ⟨_, v, -, hruns⟩ := Task.runs_bind.mp hruns
    have hruns := Task.runs_get_bind.mp hruns
    obtain ⟨rfl, -⟩ := Task.runs_pure.mp hruns
    refine ⟨first, rfl, ?_⟩
    rw [List.length_cons]
    cases hlength : more.length with
    | zero => omega
    | succ n =>
        obtain ⟨t₂, first', t₂', hfirst', hround', hle, -⟩ :=
          le_of_removesIn hsetup hfresh hdown hapart
          hsearches (hall n (hlength ▸ Nat.lt_succ_self n))
        obtain rfl := hfirst.unique hfirst'
        cases hround.symm.trans hround'
        omega

end

/-! ## Runs with and without a manifest -/

namespace Sample

section

variable {project : Project} {s u : Session} {manifest : Path}

/-- Where the paths of a project lead that has the root, the log and the backup directory of the
sample. -/
structure HasPaths (project : Project) (u : Session) (manifest : Path) : Prop where
  eq_root : project.config.projectRoot = root
  eq_extraRoots : project.config.extraRoots = []
  eq_directory : project.store.directory = directory
  eq_log : u.trail.log = some log
  resolve_root : u.disk.resolve root = .ok root
  resolve_directory : u.disk.resolve directory = .ok directory
  resolve_log : u.disk.resolve log = .ok log
  resolve_manifest : u.disk.resolve project.config.manifest = .ok manifest
  dialect : Usage.dialectOf? project.config.scan log = none

instance : Decidable (HasPaths project u manifest) :=
  decidable_of_iff ((project.config.projectRoot = root ∧ project.config.extraRoots = []
      ∧ project.store.directory = directory ∧ u.trail.log = some log)
      ∧ (u.disk.resolve root = .ok root
      ∧ u.disk.resolve directory = .ok directory ∧ u.disk.resolve log = .ok log
      ∧ u.disk.resolve project.config.manifest = .ok manifest)
      ∧ Usage.dialectOf? project.config.scan log = none)
    ⟨fun ⟨⟨h₁, h₂, h₃, h₄⟩, ⟨h₅, h₆, h₇, h₈⟩, h₉⟩ => ⟨h₁, h₂, h₃, h₄, h₅, h₆, h₇, h₈, h₉⟩,
      fun h => ⟨⟨h.eq_root, h.eq_extraRoots, h.eq_directory, h.eq_log⟩,
        ⟨h.resolve_root, h.resolve_directory, h.resolve_log, h.resolve_manifest⟩, h.dialect⟩⟩

theorem isDown_directory (hdirectory : project.store.directory = directory) :
    ∀ name ∈ project.store.directory.parts, IsDown name := by
  rw [hdirectory]
  exact List.forall_mem_singleton.mpr ⟨by decide, by decide, by decide⟩

/-- The log lies in a directory of the root that holds no resources. -/
theorem HasPaths.keepsLogApart (hpaths : HasPaths project u manifest) (settings : IndexSettings) :
    u.KeepsLogApart settings project.config.projectRoot := by
  intro path hpath
  obtain rfl := Option.some.inj (hpaths.eq_log.symm.trans hpath)
  rw [hpaths.eq_root]
  refine ⟨rfl, log, root, hpaths.resolve_log, hpaths.resolve_root, ?_⟩
  rintro stem file ⟨⟨_, _, ⟨way, inner, rfl, -⟩, ⟨more, name, rfl, -⟩, -, hplace, -⟩, -⟩
  have hlength := congrArg List.length hplace
  have hplaces : log.place.length = 3 ∧ root.place.length = 1 := ⟨rfl, rfl⟩
  simp only [List.length_append, List.length_cons, List.length_nil] at hlength
  omega

theorem HasPaths.searchesNoRecord (hsetup : project.IsSetUp s) (hfresh : project.IsFresh s)
    (hpaths : HasPaths project (Task.exec (prepare project false) s).2 manifest)
    (hplaces : ¬ directory.place <+: manifest.place ∧ log.place ≠ manifest.place) :
    project.SearchesNoRecord s := by
  have hroots : ¬ directory.place <+: root.place ∧ ¬ root.place <+: directory.place := by
    decide
  refine searchesNoRecord_of_isApart hsetup hfresh (isDown_directory hpaths.eq_directory) ?_ ?_
  · intro t hcomes
    obtain ⟨_, rfl⟩ := hcomes.eq_prepared
    refine ⟨⟨directory, manifest, ?_, hpaths.resolve_manifest, hplaces.1⟩, fun path hpath => ?_⟩
    · rw [hpaths.eq_directory]
      exact hpaths.resolve_directory
    · obtain rfl := Option.some.inj (hpaths.eq_log.symm.trans hpath)
      exact ⟨rfl, log, manifest, hpaths.resolve_log, hpaths.resolve_manifest, hplaces.2⟩
  · intro t hcomes
    obtain ⟨_, rfl⟩ := hcomes.eq_prepared
    rw [hpaths.eq_root, hpaths.eq_extraRoots]
    refine List.forall_mem_singleton.mpr ⟨⟨directory, root, ?_, hpaths.resolve_root, hroots⟩,
      fun path hpath => ?_⟩
    · rw [hpaths.eq_directory]
      exact hpaths.resolve_directory
    · obtain rfl := Option.some.inj (hpaths.eq_log.symm.trans hpath)
      refine ⟨rfl, log, root, hpaths.resolve_log, hpaths.resolve_root, fun names hnames => ?_⟩
      have hlog : log.place = root.place ++ ([".resprune", "audit.jsonl"] : List Text) := by
        decide
      obtain rfl := List.append_cancel_left (hnames.symm.trans hlog)
      exact hpaths.dialect

theorem isApart_first (hdirectory : project.store.directory = directory)
    (hpaths : HasPaths project (Task.exec (prepare project false) s).2 manifest)
    (hpresent : (Task.exec (prepare project false) s).2.disk.isPresent project.config.manifest
      = .ok true)
    (hmanifest : project.config.manifest.isAbsolute = true) :
    ∀ t, ComesTo project false s 1 t → project.IsApart t := by
  intro t hcomes
  obtain ⟨_, rfl⟩ := hcomes.eq_prepared
  refine ⟨⟨directory, root, ?_, ?_, ?_⟩, hpaths.keepsLogApart _, ?_⟩
  · rw [hdirectory]
    exact hpaths.resolve_directory
  · rw [hpaths.eq_root]
    exact hpaths.resolve_root
  · decide
  · exact Disk.locates_of_isPresent hmanifest hpresent

end

theorem runs_of_toOption {α : Type} {task : Task α} {s : Session} {e : Except Failure α × Session}
    (hexec : Task.exec task s = e) {a : α} (hok : e.1.toOption = some a) : Runs task s a e.2 :=
  Task.runs_of_toOption hexec hok

def manifestPath : Path := ⟨.root, ["p", "AndroidManifest.xml"]⟩

/-- A file of colors, one of which is in use as long as another one is. -/
def colors : Text :=
  "<color name=\"y\">@drawable/w</color>\n<color name=\"y\">1</color><color name=\"q\">1</color>\n"
    ++ "<color name=\"q\">R.color.y</color>\n<item>@color/q</item>\n"

/-- A project with that file and a picture that it refers to, and old backups. -/
def detoured : Disk :=
  ((((((((((Disk.empty []).put ["p"] .directory).put ["p", "m.kt"] (.link "res/values/a.xml")).put
    ["p", "res"] .directory).put ["p", "res", "values"] .directory).put
    ["p", "res", "values", "a.xml"] (.file (Utf8.encode colors))).put
    ["p", "res", "drawable"] .directory).put ["p", "res", "drawable", "w.png"] (.file [80])).put
    ["b"] .directory).put ["b", ".resprune-backup"] (.file [])).put ["b", "res"] .directory

/-- The backup directory, and the path of the manifest. -/
def detour (manifest : Text) : Overrides :=
  { Overrides.none with backupDir := some directory, manifestPath := some manifest }

def openedBy (overrides : Overrides) (disk : Disk) : Except Failure Project × Session :=
  Task.exec (openSession ⟨.root, ["t"]⟩ root overrides "run") (start disk)

def projectOf (opened : Except Failure Project × Session) : Project :=
  opened.1.toOption.getD (project disk)

def ranFrom (opened : Except Failure Project × Session) : Except Failure Report × Session :=
  Task.exec (run (projectOf opened) false) opened.2

/-- The manifest is the file of colors, but its path leads through the old backups. -/
def colored : Except Failure Project × Session :=
  openedBy (detour "../b/res/../../p/m.kt") detoured

def colorsPath : Path := ⟨.root, ["p", "res", "values", "a.xml"]⟩

end Sample

/-- Nothing is left after the picture, so that there is one more round than resources. -/
theorem rounds_le_sample : ∃ report first, (Sample.ran Sample.disk).1 = .ok report
    ∧ report.rounds.head? = some first ∧ report.rounds.length ≤ 1 + totalOf first.found
    ∧ report.rounds.length = 2 := by
  have hok : (Sample.opened Sample.disk).1.toOption.isSome = true
      ∧ ((Sample.ran Sample.disk).1.toOption.map fun report => report.rounds.length) = some 2
      ∧ ((Task.exec (prepare (Sample.project Sample.disk) false)
        (Sample.opened Sample.disk).2).2.disk.isPresent
          (Sample.project Sample.disk).config.manifest).toOption = some true
      ∧ Sample.HasPaths (Sample.project Sample.disk)
          (Task.exec (prepare (Sample.project Sample.disk) false) (Sample.opened Sample.disk).2).2
          Sample.manifestPath
      ∧ ¬ Sample.directory.place <+: Sample.manifestPath.place
      ∧ Sample.log.place ≠ Sample.manifestPath.place := by
    decide +kernel
  obtain ⟨hopened, hran, hpresent, hpaths, hplaces⟩ := hok
  have hopen := Sample.runs_openSession hopened
  obtain ⟨hsetup, hfresh⟩ := isSetUp_and_isFresh_of_openSession hopen
  obtain ⟨report, hreport, hlength⟩ := Option.map_eq_some_iff.mp hran
  have hruns : Runs (run (Sample.project Sample.disk) false) (Sample.opened Sample.disk).2 report
      (Sample.ran Sample.disk).2 :=
    Sample.runs_of_toOption (e := Sample.ran Sample.disk) rfl hreport
  obtain ⟨-, hbound⟩ := rounds_le_of_openSession hopen (Sample.isDown_directory hpaths.eq_directory)
    (Sample.isApart_first hpaths.eq_directory hpaths (Sample.eq_ok hpresent)
      hfresh.isAbsolute_manifest)
    (hpaths.searchesNoRecord hsetup hfresh hplaces)
  obtain ⟨first, hfirst, hle⟩ := hbound report _ hruns
  exact ⟨report, first, Sample.eq_ok hreport, hfirst, hle, hlength⟩

/-- If the path of the manifest leads through the old backups, the manifest is found only once a
file has been backed up. Colors that were unused till then are in use again, and are found unused
twice. -/
theorem not_rounds_le : ¬ ∀ temporary path overrides runId s₀ project s,
    Runs (openSession temporary path overrides runId) s₀ project s →
    s.KeepsLogApart project.config.index project.config.projectRoot → project.SearchesNoRecord s →
    ∀ report s', Runs (run project false) s report s' → ∃ first, report.rounds.head? = some first
      ∧ report.rounds.length ≤ 1 + totalOf first.found := by
  intro hall
  have hok : Sample.colored.1.toOption.isSome = true
      ∧ ((Sample.ranFrom Sample.colored).1.toOption.map fun report =>
        (report.rounds.length, report.rounds.head?.map fun first => totalOf first.found))
          = some (5, some 3)
      ∧ Sample.HasPaths (Sample.projectOf Sample.colored) Sample.colored.2 Sample.colorsPath
      ∧ Sample.HasPaths (Sample.projectOf Sample.colored)
          (Task.exec (prepare (Sample.projectOf Sample.colored) false) Sample.colored.2).2
          Sample.colorsPath
      ∧ ¬ Sample.directory.place <+: Sample.colorsPath.place
      ∧ Sample.log.place ≠ Sample.colorsPath.place := by
    decide +kernel
  obtain ⟨hopened, hran, hpaths, hprepared, hplaces⟩ := hok
  have hopen : Runs (openSession ⟨.root, ["t"]⟩ Sample.root _ "run") _
      (Sample.projectOf Sample.colored) Sample.colored.2 :=
    Task.runs_of_exec (e := Sample.colored) rfl _ hopened
  obtain ⟨hsetup, hfresh⟩ := isSetUp_and_isFresh_of_openSession hopen
  obtain ⟨report, hreport, heq⟩ := Option.map_eq_some_iff.mp hran
  obtain ⟨hlength, hfound⟩ := Prod.mk.inj heq
  have hruns : Runs (run (Sample.projectOf Sample.colored) false) Sample.colored.2 report
      (Sample.ranFrom Sample.colored).2 :=
    Sample.runs_of_toOption (e := Sample.ranFrom Sample.colored) rfl hreport
  obtain ⟨first, hfirst, hle⟩ := hall _ _ _ _ _ _ _ hopen (hpaths.keepsLogApart _)
    (hprepared.searchesNoRecord hsetup hfresh hplaces) report _ hruns
  rw [hfirst] at hfound
  have hfound : totalOf first.found = 3 := Option.some.inj hfound
  rw [hlength, hfound] at hle
  exact absurd hle (by decide)

end Run

end ResourcePruner
