import ResourcePruner.CommandLine.Outcome
import ResourcePruner.Proofs.Run.Backups
import ResourcePruner.Proofs.Run.Ends

/-!
# Refusals

A refusal comes before every effect on the project. What is refused while the session is set up is
refused before anything is written, but the directory of the audit log is made on the way
(`Run.makes_openSession`); a run that refuses after that has not changed the session at all
(`Run.abstains_run`).
-/

namespace ResourcePruner

open ResourcePruner.Task (Runs)

namespace Disk

variable {path : Path} {disk more : Disk}

/-- All that has changed is that directories were made, where a path leads or one above it. -/
structure Makes (path : Path) (disk more : Disk) : Prop where
  keeps : ∀ place entry, disk.get? place = some entry → more.get? place = some entry
  makes : ∀ place entry, disk.get? place = none → more.get? place = some entry →
    entry = .directory
      ∧ ∃ upper goal, path.isWithin upper = true ∧ more.Locates upper goal ∧ goal.place = place

namespace Makes

theorem refl (path : Path) (disk : Disk) : Makes path disk disk where
  keeps _ _ h := h
  makes _ _ hnone hsome := by cases hnone.symm.trans hsome

/-- No link is made, so that what paths led to before they still lead to. -/
theorem outlasts (hmakes : Makes path disk more) : Extends disk more := by
  refine ⟨fun place => hmakes.keeps place .directory,
    fun place target => ⟨hmakes.keeps place _, ?_⟩⟩
  intro hlink
  cases hlies : disk.get? place with
  | none => cases (hmakes.makes place _ hlies hlink).1
  | some entry => exact (hmakes.keeps place entry hlies).symm.trans hlink

theorem trans {first second third : Disk} (hfirst : Makes path first second)
    (hsecond : Makes path second third) : Makes path first third where
  keeps place entry h := hsecond.keeps place entry (hfirst.keeps place entry h)
  makes place entry hnone hsome := by
    cases hlies : second.get? place with
    | none => exact hsecond.makes place entry hlies hsome
    | some between =>
        obtain ⟨rfl, upper, goal, hwithin, hlocates, hplace⟩ :=
          hfirst.makes place between hnone hlies
        have hkept := hsecond.keeps place _ hlies
        exact ⟨Option.some.inj (hsome.symm.trans hkept), upper, goal, hwithin,
          hlocates.mono hsecond.outlasts, hplace⟩

instance : Task.IsRun (Makes path) where
  refl := refl path
  trans := trans

/-- A directory is made where nothing was. -/
theorem of_makeDirectory {upper : Path} (habsolute : upper.isAbsolute = true)
    (hwithin : path.isWithin upper = true) (hmake : disk.makeDirectory upper = .ok more) :
    Makes path disk more := by
  obtain ⟨goal, hlocates, hnone, rfl⟩ := makeDirectory_cases habsolute hmake
  have hextends := extends_put_directory hnone
  refine ⟨fun place entry hlies => ?_, fun place entry hbefore hafter => ?_⟩
  all_goals rcases put_cases disk goal.place .directory with hsame | ⟨-, hget⟩
  · rwa [hsame]
  · rw [hget, if_neg]
    · exact hlies
    · rintro rfl
      cases hnone.symm.trans hlies
  · rw [hsame, hbefore] at hafter
    cases hafter
  · rw [hget] at hafter
    split at hafter
    · rename_i hplace
      exact ⟨(Option.some.inj hafter).symm, upper, goal, hwithin, hlocates.mono hextends,
        hplace.symm⟩
    · cases hbefore.symm.trans hafter

end Makes

theorem makes_makeDirectories (habsolute : path.isAbsolute = true) :
    Task.Steps (Makes path) (makeDirectories path) := by
  refine steps_makeDirectories fun upper hanchor hparts disk more hmake => ?_
  refine .of_makeDirectory ?_ ?_ hmake
  · rw [Path.isAbsolute, hanchor]
    exact habsolute
  · simp [Path.isWithin, hanchor, hparts]

end Disk

namespace Run

/-- Setting up a session changes the disk only once the configuration is known to be valid, and then
only makes the directory of the audit log. -/
theorem makes_openSession (temporary path : Path) (overrides : Overrides) (runId : Text)
    (s : Session) :
    (Task.exec (openSession temporary path overrides runId) s).2.disk = s.disk
      ∨ ∃ directory config, s.disk.resolve path = .ok directory
        ∧ loadConfig s.disk temporary directory overrides = .ok config
        ∧ Disk.Makes config.dataDir s.disk
          (Task.exec (openSession temporary path overrides runId) s).2.disk := by
  let holds (t : Session) : Prop := t.disk = s.disk ∨ ∃ directory config,
    s.disk.resolve path = .ok directory
      ∧ loadConfig s.disk temporary directory overrides = .ok config
      ∧ Disk.Makes config.dataDir s.disk t.disk
  have hsame : Task.IsRun fun t t' : Session => t'.disk = t.disk :=
    ⟨fun _ => rfl, fun h h' => h'.trans h⟩
  have hfirst : Task.Steps (fun t t' => t'.disk = t.disk) (Task.resolve path) :=
    Task.steps_resolve path
  change holds _
  refine Task.holds_of_bind (.inl (hfirst s)) fun directory t hresolve => ?_
  obtain ⟨hresolve, heq⟩ := Task.runs_resolve.mp hresolve
  rw [heq]
  refine Task.holds_of_bind (.inl rfl) fun disk t hdisk => ?_
  obtain ⟨rfl, heq⟩ := Task.runs_disk.mp hdisk
  rw [heq]
  cases hload : loadConfig s.disk temporary directory overrides with
  | error failure =>
      simp only
      exact .inl rfl
  | ok config =>
      have hdata := (paths_of_loadConfig hload).2.2.1
      let made (t t' : Session) : Prop := Disk.Makes config.dataDir t.disk t'.disk
      have : Task.IsRun made := ⟨fun _ => .refl _ _, .trans⟩
      have hmake : Task.Steps made (Task.onDisk (Disk.makeDirectories config.dataDir)) :=
        Task.steps_onDisk fun t => Disk.makes_makeDirectories hdata t.disk
      have hstore : Task.Steps made (Backup.Store.ofProject config.projectRoot config.backupDir) :=
        (Task.steps_resolve _).bind fun _ => .pure _
      simp only [pure_bind]
      refine .inr ⟨directory, config, hresolve, hload, ?_⟩
      refine Task.Steps.bind (R := made) hmake (fun _ => hstore.bind fun store => ?_) s
      exact Task.Steps.bind (fun t => .refl _ _) fun _ => .pure _

end Run

namespace CommandLine

open ResourcePruner.Run (loadConfig openSession run)

/-- Reading the arguments changes nothing. -/
theorem same_overrides (arguments : Arguments) :
    Task.Steps Task.Unchanged arguments.overrides := by
  have hresolved : ∀ value : Value, Task.Steps Task.Unchanged
      (do Task.resolve (← value.path) : Task Path) := by
    intro value
    cases value with
    | text value => exact Task.steps_resolve _
    | nothing => exact fun _ => rfl
  have hoption : ∀ value : Option Value, Task.Steps Task.Unchanged
      (value.mapM fun value => (do Task.resolve (← value.path) : Task Path)) := by
    intro value
    cases value with
    | none => exact .pure _
    | some value => exact (hresolved value).bind fun _ => .pure _
  have hlist : ∀ values : List Value, Task.Steps Task.Unchanged
      (values.mapM fun value => (do Task.resolve (← value.path) : Task Path)) := by
    intro values
    induction values with
    | nil => exact .pure _
    | cons value rest ih =>
        rw [List.mapM_cons]
        exact (hresolved value).bind fun _ => ih.bind fun _ => .pure _
  exact (hoption _).bind fun _ => (hoption _).bind fun _ => (hlist _).bind fun _ => .pure _

/-- The directory of the audit log that a command with these arguments names. -/
def LogsIn (temporary : Path) (arguments : Arguments) (s : Session) (dataDir : Path) : Prop :=
  ∃ overrides root directory config, Runs arguments.overrides s overrides s
    ∧ arguments.projectRoot.path = .ok root ∧ s.disk.resolve root = .ok directory
    ∧ loadConfig s.disk temporary directory overrides = .ok config ∧ config.dataDir = dataDir

/-- A failure that has been caught is one of those that are. -/
theorem isCaught_of_attempt {α : Type} {isCaught : Failure → Bool} {task : Task α}
    {failure : Failure}
    {s s' : Session} (hruns : Runs (Task.attempt isCaught task) s (.error failure) s') :
    isCaught failure = true := by
  have hexec := Task.runs_attempt hruns
  rw [Runs, Task.exec_attempt, hexec] at hruns
  simp only at hruns
  split at hruns
  · assumption
  · cases hruns

theorem isRefusal_of_isSome {failure : Failure} (hsome : (refusalOf? failure).isSome = true) :
    Run.IsRefusal failure := by
  unfold refusalOf? at hsome
  split at hsome
  · exact .inr ⟨_, rfl⟩
  · exact .inl ⟨_, rfl⟩
  · cases hsome

/-- When the command is refused, all that it has done is to set up the session. -/
theorem same_of_refusal {temporary : Path} {runId : Text} {arguments : Arguments} {s s' : Session}
    {outcome : Outcome} (hruns : Runs (execute temporary runId arguments) s outcome s')
    (hcode : outcome.exitCode = refusalCode) :
    outcome.out = "" ∧ ∃ overrides root, Runs arguments.overrides s overrides s
      ∧ arguments.projectRoot.path = .ok root
      ∧ s' = (Task.exec (openSession temporary root overrides runId) s).2 := by
  obtain ⟨overrides, t, hoverrides, hroot⟩ := Task.runs_bind.mp hruns
  have hsame : t = s := (same_overrides arguments).runs hoverrides
  rw [hsame] at hroot hoverrides
  cases hpath : arguments.projectRoot.path with
  | error failure =>
      rw [hpath] at hroot
      cases hroot
  | ok root =>
      rw [hpath] at hroot
      obtain ⟨_, _, hlift, hruns⟩ := Task.runs_bind.mp hroot
      cases hlift
      obtain ⟨opened, t', hopened, hended⟩ := Task.runs_bind.mp hruns
      have hexec := Task.runs_attempt hopened
      cases opened with
      | error failure =>
          obtain ⟨rfl, rfl⟩ := Task.runs_pure.mp hended
          exact ⟨rfl, overrides, root, hoverrides, rfl, by rw [hexec]⟩
      | ok project =>
          obtain ⟨ended, t'', hran, hended⟩ := Task.runs_bind.mp hended
          cases ended with
          | ok report =>
              obtain ⟨rfl, -⟩ := Task.runs_pure.mp hended
              cases hcode
          | error failure =>
              obtain ⟨rfl, rfl⟩ := Task.runs_pure.mp hended
              have hrefusal := isRefusal_of_isSome (isCaught_of_attempt hran)
              have hrun := Task.runs_attempt hran
              have hleft :=
                Run.abstains_run project arguments.dryRun t' failure (by rw [hrun]) hrefusal
              rw [hrun] at hleft
              exact ⟨rfl, overrides, root, hoverrides, rfl, by rw [hexec]; exact hleft⟩

/-- A refusal prints nothing and touches nothing. Whatever the command line and the tree, the
command that ends with the code of a refusal has written nothing to its output and changed nothing,
but that the directory of the audit log may have been made with those above it; and a run that fails
for want of the manifest, or since it must not clear the backups, has left everything as it was. -/
theorem touches_nothing :
    (∀ temporary runId arguments s outcome s',
      Runs (execute temporary runId arguments) s outcome s' →
      outcome.exitCode = refusalCode →
      outcome.out = "" ∧ (s'.disk = s.disk
        ∨ ∃ dataDir, LogsIn temporary arguments s dataDir ∧ Disk.Makes dataDir s.disk s'.disk))
    ∧ ∀ project dryRun s failure s', Task.exec (run project dryRun) s = (.error failure, s') →
      Run.IsRefusal failure → s' = s := by
  refine ⟨fun temporary runId arguments s outcome s' hruns hcode => ?_, ?_⟩
  · obtain ⟨hout, overrides, root, hoverrides, hroot, rfl⟩ := same_of_refusal hruns hcode
    refine ⟨hout, (Run.makes_openSession temporary root overrides runId s).imp_right ?_⟩
    rintro ⟨directory, config, hresolve, hload, hmakes⟩
    exact ⟨config.dataDir,
      ⟨overrides, root, directory, config, hoverrides, hroot, hresolve, hload, rfl⟩, hmakes⟩
  · intro project dryRun s failure s' hexec hrefusal
    have hsame := Run.abstains_run project dryRun s failure (by rw [hexec]) hrefusal
    rwa [hexec] at hsame

namespace Sample

/-- A project without a manifest. -/
def disk : Disk := (Disk.empty []).put ["p"] .directory

def arguments : Arguments :=
  { Arguments.default with projectRoot := .text "/p", backupDir := some (.text "/b") }

def executed : Except Failure Outcome × Session :=
  Task.exec (execute ⟨.root, ["t"]⟩ "run" arguments) (Run.Sample.start disk)

def outcome : Outcome :=
  executed.1.toOption.getD .help

end Sample

/-- Without a manifest the command is refused, and the run by itself fails: the directory of the log
is all that is new. -/
theorem touches_nothing_sample :
    (Sample.outcome.exitCode = refusalCode ∧ Sample.executed.2.disk ≠ Sample.disk
      ∧ Sample.outcome.out = "" ∧ (Sample.executed.2.disk = Sample.disk
        ∨ ∃ dataDir, LogsIn ⟨.root, ["t"]⟩ Sample.arguments (Run.Sample.start Sample.disk) dataDir
          ∧ Disk.Makes dataDir Sample.disk Sample.executed.2.disk))
    ∧ (Run.Sample.ran Sample.disk).1
      = .error (.manifestMissing ⟨.root, ["p", "AndroidManifest.xml"]⟩)
      ∧ (Run.Sample.ran Sample.disk).2 = (Run.Sample.opened Sample.disk).2 := by
  have hok : (Sample.executed.1.toOption.isSome = true ∧ Sample.outcome.exitCode = refusalCode)
      ∧ Sample.disk.get? ["p", ".resprune"] = none
      ∧ Sample.executed.2.disk.get? ["p", ".resprune"] = some .directory
      ∧ (match (Run.Sample.ran Sample.disk).1 with
        | .ok _ => none
        | .error failure => some failure)
        = some (.manifestMissing ⟨.root, ["p", "AndroidManifest.xml"]⟩) := by
    decide +kernel
  obtain ⟨⟨hexecuted, hcode⟩, hnone, hsome, hfailed⟩ := hok
  have hfailed : (Run.Sample.ran Sample.disk).1
      = .error (.manifestMissing ⟨.root, ["p", "AndroidManifest.xml"]⟩) := by
    split at hfailed
    · cases hfailed
    · rename_i hfails
      rw [hfails, Option.some.inj hfailed]
  have hruns := Task.runs_of_exec (e := Sample.executed) rfl .help hexecuted
  obtain ⟨hout, hmakes⟩ := touches_nothing.1 _ _ _ _ _ _ hruns hcode
  have hrun := Run.Sample.exec_run Sample.disk
  rw [hfailed] at hrun
  refine ⟨⟨hcode, fun hsame => ?_, hout, hmakes⟩, hfailed, ?_⟩
  · rw [hsame, hnone] at hsome
    cases hsome
  · exact touches_nothing.2 _ _ _ _ _ hrun (.inl ⟨_, rfl⟩)

end CommandLine

end ResourcePruner
