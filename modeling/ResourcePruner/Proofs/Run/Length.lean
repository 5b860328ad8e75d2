import ResourcePruner.Proofs.Run.Course

/-!
# How many rounds a run takes

A round that removes something makes a file of a resource go for good, or finds an inline resource
unused that was in use in the round before. Neither happens twice to a resource, so that there are
no more such rounds than resources found in the first one.
-/

namespace ResourcePruner

open Disk (Extends Same IsChange)

namespace Run

open ResourcePruner.Task (Runs Steps Preserves)
open Usage (Known Reaches)
open Removal (Deletes)

variable {project : Project} {s t t' u : Session} {report report' : RoundReport} {number : Nat}

/-! ## What a run does not take for part of the project -/

/-- The log lies at the place, or the place is below the backup directory. -/
def Project.IsRecord (project : Project) (s : Session) (disk : Disk) (place : Place) : Prop :=
  (∃ log goal, s.trail.log = some log ∧ disk.Locates log goal ∧ goal.place = place)
    ∨ disk.IsBelow project.store.directory place

/-- The first round can begin: the backup directory and the project root do not lie in each other,
the log is not among the files that are indexed, and the path of the manifest leads somewhere. -/
structure Project.IsApart (project : Project) (t : Session) : Prop where
  places : ∃ directory resolved, t.disk.resolve project.store.directory = .ok directory
    ∧ t.disk.resolve project.config.projectRoot = .ok resolved
    ∧ ¬ resolved.place <+: directory.place ∧ ¬ directory.place <+: resolved.place
  log : t.KeepsLogApart project.config.index project.config.projectRoot
  manifest : ∃ goal, t.disk.Locates project.config.manifest goal

/-- No round of the run searches the log or a file below the backup directory. -/
def Project.SearchesNoRecord (project : Project) (s : Session) : Prop :=
  ∀ number t report t' (c : Course project t report t'), ComesTo project false s number t →
    ∀ place, Reaches project.config.scan c.counted.disk project.config.manifest c.roots place →
      ¬ project.IsRecord s c.counted.disk place

/-- What is recorded leaves what is indexed alone, as long as paths lead where they resolve to. -/
theorem Project.IsApart.not_isRecord (hapart : project.IsApart t) (hlog : t.trail.log = s.trail.log)
    (hroot : project.config.projectRoot.isAbsolute = true)
    (hdirectory : project.store.directory.isAbsolute = true) {last : Disk}
    (hstays : Extends t.disk last) {goal file : Path} {stem : Text} {place : Place}
    (hgoal : last.Locates project.config.projectRoot goal)
    (hindexes :
      Index.Indexes project.config.index project.config.projectRoot goal stem file place) :
    ¬ project.IsRecord s last place := by
  rw [Project.IsRecord, ← hlog]
  exact Removal.not_recorded_of_indexes hroot hdirectory hapart.places hapart.log hstays hgoal
    hindexes

/-! ## Scenes of a run -/

namespace Within

variable {base : Disk}

/-- What a part of a run that begins in the session is seen against. -/
def scene (hwithin : Within project false s base base t) (last : Disk) : Scene where
  base := base
  first := t.disk
  last := last
  log := s.trail.log
  backups := some project.store.directory
  hidden := project.IsRecord s last
  extends_base := hwithin.stays
  isAbsolute_log := hwithin.isSetUp.isAbsolute_log
  hidden_log path goal hpath hgoal := .inl ⟨path, goal, hpath, hgoal, rfl⟩
  isAbsolute_backups := by
    rintro path ⟨rfl⟩
    exact hwithin.isSetUp.isAbsolute_directory
  isDown_backups := by
    rintro path ⟨rfl⟩
    exact hwithin.isDown rfl
  hidden_backups := by
    rintro path place ⟨rfl⟩ hbelow
    exact .inr hbelow

theorem has (hwithin : Within project false s base base t) (last : Disk) :
    (hwithin.scene last).Has t := by
  refine ⟨hwithin.log, .refl _, ?_⟩
  rintro path ⟨rfl⟩
  exact hwithin.vacant rfl

theorem showsIndexed (hwithin : Within project false s base base t) (hapart : project.IsApart u)
    (hlog : u.trail.log = s.trail.log) {last : Disk} (hstays : Extends u.disk last) :
    ShowsIndexed project (hwithin.scene last) := by
  intro goal stem file place hgoal hindexes
  exact hapart.not_isRecord hlog hwithin.isSetUp.isAbsolute_root
    hwithin.isSetUp.isAbsolute_directory
    hstays hgoal hindexes

theorem exists_of_comesTo (hsetup : project.IsSetUp s)
    (hdown : ∀ name ∈ project.store.directory.parts, IsDown name)
    (hcomes : ComesTo project false s number t) : ∃ base, Within project false s base base t := by
  have hpolled : ∀ {base t t' point}, Within project false s base base t →
      Runs (Task.poll point) t () t' → Within project false s base base t' :=
    fun {base _ _ point} ht hpoll => (Task.steps_poll
      (R := Preserves (Within project false s base base)) point).runs hpoll ht
  induction hcomes with
  | first hprepare hpoll =>
      obtain ⟨base, ht⟩ := within_of_prepare hsetup (fun _ => hdown) hprepare
      exact ⟨base, hpolled ht hpoll⟩
  | @next number report t t' t'' hcomes hround _ hpoll ih =>
      obtain ⟨base, ht⟩ := ih
      have ht' := ht.round hcomes
      rw [show Task.exec (Run.round project number false) t = (.ok report, t') from hround] at ht'
      exact ⟨base, hpolled ht' hpoll⟩

end Within

/-! ## What is spent -/

section

variable {scene : Scene} {r : Resource}

/-- In no later round will the resource be taken away once more: not by deleting its files if it has
some, not from use if it is inline. -/
def Course.Spends (c : Course project s report s') (r : Resource) : Prop :=
  if r.category.isInline then ¬ c.counted.catalog.IsUsed r
  else c.counted.catalog.contains r = true → r ∈ c.removal.removed

theorem Course.spends_of_isInline {c : Course project s report s'}
    (hkind : r.category.isInline = true) :
    c.Spends r ↔ ¬ c.counted.catalog.IsUsed r := by
  rw [Spends, if_pos hkind]

theorem Course.spends_of_isFile {c : Course project s report s'}
    (hkind : r.category.isInline = false) :
    c.Spends r ↔ (c.counted.catalog.contains r = true → r ∈ c.removal.removed) := by
  rw [Spends, if_neg (by simp [hkind])]

/-- What is removed is spent. -/
theorem Course.spends_of_removed (c : Course project s report s')
    (hroot : project.config.projectRoot.isAbsolute = true) (hhas : scene.Has s)
    (hlast : Extends c.passed.disk scene.last)
    (hbackups : scene.backups = some project.store.directory) (hr : r ∈ c.removal.removed) :
    c.Spends r := by
  cases hkind : r.category.isInline with
  | true =>
    exact (spends_of_isInline hkind).mpr (c.unused_of_removed hroot hhas hlast hbackups hr).2
  | false => exact (spends_of_isFile hkind).mpr fun _ => hr

namespace Consecutive

variable {goal : Path} {c : Course project s report s'} {d : Course project t report' t'}

/-- What is spent remains so. -/
theorem spends (h : Consecutive scene goal c d) (hspends : c.Spends r) : d.Spends r := by
  cases hkind : r.category.isInline with
  | true =>
      rw [Course.spends_of_isInline hkind] at hspends ⊢
      exact fun hused => hspends (h.isUsed_of_next hused)
  | false =>
      rw [Course.spends_of_isFile hkind] at hspends ⊢
      exact fun hcontains => absurd hcontains
        (h.not_contains_of_removed (hspends (h.contains_of_next hcontains)) hkind)

/-- A round that removes something spends a resource. -/
theorem exists_spends (h : Consecutive scene goal c d) {later : Scene} (hlater : later.Has t)
    (hlast : Extends d.passed.disk later.last)
    (hbackups : later.backups = some project.store.directory) (hshown : ShowsIndexed project later)
    (hproductive : d.removal.removed ≠ []) :
    ∃ r, d.counted.catalog.contains r = true ∧ d.Spends r ∧ ¬ c.Spends r := by
  obtain ⟨r, hr⟩ := List.exists_mem_of_ne_nil _ hproductive
  cases hkind : r.category.isInline with
  | true =>
      obtain ⟨r', hkind', hcontains, hnot, hused⟩ :=
        h.exists_newly_unused hlater hlast hbackups hshown hr hkind
      refine ⟨r', hcontains, (Course.spends_of_isInline hkind').mpr hnot, fun hspends => ?_⟩
      exact (Course.spends_of_isInline hkind').mp hspends hused
  | false =>
      have hcontains := (d.unused_of_removed h.isAbsolute_root hlater hlast hbackups hr).1
      refine ⟨r, hcontains, (Course.spends_of_isFile hkind).mpr fun _ => hr, fun hspends => ?_⟩
      exact h.not_contains_of_removed ((Course.spends_of_isFile hkind).mp hspends
        (h.contains_of_next hcontains)) hkind hcontains

end Consecutive

end

/-- What is known of a round that removes something when another one was the first. It is as
numerous as the resources, all found in the first one, that are spent by now. -/
structure Spent {t₁ t₁' : Session} {first : RoundReport} (f : Course project t₁ first t₁')
    (c : Course project t report t') (number : Nat) : Prop where
  stays : Extends t₁.disk t.disk
  known : Known c.listed.disk project.config.manifest c.roots
  locates : Disk.IsLookedUp project.config.projectRoot ∧ ∃ goal,
    t.disk.Locates project.config.projectRoot goal ∧ t.disk.get? goal.place = some .directory
  contains : ∀ r, c.counted.catalog.contains r = true → f.counted.catalog.contains r = true
  resources : ∃ spent : List Resource, spent.Nodup ∧ spent.length = number
    ∧ ∀ r ∈ spent, f.counted.catalog.contains r = true ∧ c.Spends r

namespace Spent

variable {t₁ t₁' : Session} {first : RoundReport} {f : Course project t₁ first t₁'} {scene : Scene}
  {goal : Path} {c : Course project s report s'} {d : Course project t report' t'}

/-- The first round spends a resource. -/
theorem refl (c : Course project t report t') (hfresh : project.IsFresh s)
    (hroots : t.roots = none) (hroot : project.config.projectRoot.isAbsolute = true)
    (hmanifest : ∃ goal, t.disk.Locates project.config.manifest goal) (hhas : scene.Has t)
    (hlast : Extends c.passed.disk scene.last)
    (hbackups : scene.backups = some project.store.directory) (hshown : ShowsIndexed project scene)
    (hproductive : c.removal.removed ≠ []) : Spent c c 1 := by
  obtain ⟨r, hr⟩ := List.exists_mem_of_ne_nil _ hproductive
  have hcontains := (c.unused_of_removed hroot hhas hlast hbackups hr).1
  have hpass := c.frame_passed hroot hhas hbackups
  obtain ⟨file, hfile⟩ := c.isBacked hroot hhas hcontains
  obtain ⟨goal, hlooked, hgoal, hdirectory, -⟩ :=
    (c.has_iff hroot hhas (hpass.stays.trans hlast) hshown).mp hfile
  refine ⟨.refl _, ?_, ⟨hlooked, goal, hgoal, hdirectory⟩, fun _ => id, [r],
    List.nodup_singleton r, rfl,
    List.forall_mem_singleton.mpr ⟨hcontains, c.spends_of_removed hroot hhas hlast hbackups hr⟩⟩
  exact c.known hhas hroot hgoal hfresh.areAbsolute_extraRoots hfresh.isAbsolute_manifest hmanifest
    hroots

/-- Each later round spends another one. -/
theorem next (hspent : Spent f c number) (h : Consecutive scene goal c d) {later : Scene}
    (hlater : later.Has t) (hlast : Extends d.passed.disk later.last)
    (hbackups : later.backups = some project.store.directory) (hshown : ShowsIndexed project later)
    (hproductive : d.removal.removed ≠ []) : Spent f d (number + 1) := by
  obtain ⟨r, hcontains, hspends, hfresh⟩ := h.exists_spends hlater hlast hbackups hshown hproductive
  obtain ⟨spent, hnodup, hlength, hall⟩ := hspent.resources
  refine ⟨hspent.stays.trans h.stays, h.known_next,
    ⟨h.isLookedUp_root, goal, h.locates.mono h.stays,
    h.stays.directory _ h.directory⟩, fun r h' => hspent.contains r (h.contains_of_next h'),
    r :: spent,
    List.nodup_cons.mpr ⟨fun hmem => hfresh (hall r hmem).2, hnodup⟩, congrArg (· + 1) hlength, ?_⟩
  refine List.forall_mem_cons.mpr ⟨⟨hspent.contains r (h.contains_of_next hcontains), hspends⟩, ?_⟩
  exact fun r' hmem => ⟨(hall r' hmem).1, h.spends (hall r' hmem).2⟩

end Spent

theorem roots_of_prepare (hfresh : project.IsFresh s)
    (hdirectory : project.store.directory.isAbsolute = true)
    (hprepare : Runs (prepare project false) s () u) :
    u.roots = none := by
  obtain ⟨cleared, v, hclear, hnoted⟩ := runs_prepare hprepare
  obtain ⟨disk, rfl, -⟩ := Backup.runs_clear hdirectory hclear
  rcases hnoted with ⟨-, rfl⟩ | ⟨-, hruns⟩
  · exact hfresh.roots
  · exact ((Task.steps_succeed (R := KeepsRoots) _ _).runs hruns).trans hfresh.roots

theorem roots_of_comesTo (hfresh : project.IsFresh s)
    (hdirectory : project.store.directory.isAbsolute = true)
    (hcomes : ComesTo project false s 1 t) :
    t.roots = none := by
  cases hcomes with
  | first hprepare hpoll =>
      have hroots := roots_of_prepare hfresh hdirectory hprepare
      obtain ⟨_, rfl⟩ := Task.runs_poll hpoll
      exact hroots
  | next hcomes => cases hcomes

theorem removed_ne_nil (c : Course project t report t')
    (hmore : ¬ (false || report.removedCount = 0) = true) :
    c.removal.removed ≠ [] := by
  intro hnone
  obtain ⟨number, heq⟩ := c.report_eq
  rw [heq, RoundReport.removedCount, reportOf, hnone] at hmore
  exact hmore rfl

/-- A round of a run that removes something is at most as late as resources are spent by then. -/
theorem exists_spent (hsetup : project.IsSetUp s) (hfresh : project.IsFresh s)
    (hdown : ∀ name ∈ project.store.directory.parts, IsDown name)
    (hapart : ∀ t, ComesTo project false s 1 t → project.IsApart t)
    (hsearches : project.SearchesNoRecord s) (hcomes : ComesTo project false s number t)
    (hround : Runs (round project number false) t report t')
    (c : Course project t report t') (hproductive : c.removal.removed ≠ []) :
    ∃ t₁ first t₁', ∃ f : Course project t₁ first t₁', ComesTo project false s 1 t₁
      ∧ Runs (round project 1 false) t₁ first t₁' ∧ Spent f c number := by
  induction hcomes generalizing report t' with
  | @first u t hprepare hpoll =>
      have hcomes : ComesTo project false s 1 t := .first hprepare hpoll
      obtain ⟨base, ht⟩ := Within.exists_of_comesTo hsetup hdown hcomes
      have hstays := c.stays_passed hsetup.isAbsolute_root (ht.has c.passed.disk) rfl
      refine ⟨t, report, t', c, hcomes, hround, .refl c hfresh
        (roots_of_comesTo hfresh hsetup.isAbsolute_directory hcomes) hsetup.isAbsolute_root
        (hapart t hcomes).manifest (ht.has c.passed.disk) (.refl _) rfl ?_ hproductive⟩
      exact ht.showsIndexed (hapart t hcomes) ht.log hstays
  | @next number before s₁ s₁' t hcomes hround' hmore hpoll ih =>
      obtain ⟨b⟩ := exists_course hround'
      obtain ⟨t₁, first, t₁', f, hfirst, hround₁, hspent⟩ :=
        ih hround' b (removed_ne_nil b hmore)
      have hcomes' : ComesTo project false s (number + 1) t := .next hcomes hround' hmore hpoll
      obtain ⟨base, ht₁⟩ := Within.exists_of_comesTo hsetup hdown hfirst
      obtain ⟨base', hs₁⟩ := Within.exists_of_comesTo hsetup hdown hcomes
      obtain ⟨base'', ht⟩ := Within.exists_of_comesTo hsetup hdown hcomes'
      obtain ⟨hlooked, goal, hgoal, hdirectory⟩ := hspent.locates
      have hbefore : Frame (hs₁.scene c.counted.disk) _ Disk.Anyhow s₁ s₁' :=
        b.frame hsetup.isAbsolute_root (hs₁.has _) rfl fun _ _ _ _ _ _ _ _ _ _ => trivial
      have hpolled : Frame (hs₁.scene c.counted.disk) Nowhere Same s₁' t :=
        .of_steps hbefore.has hpoll (Task.steps_poll _)
      have hstays : Extends t₁.disk t.disk :=
        hspent.stays.trans (hbefore.stays.trans hpolled.stays)
      have h : Consecutive (hs₁.scene c.counted.disk) goal b c := {
        isAbsolute_root := hsetup.isAbsolute_root
        isLookedUp_root := hlooked
        locates := hgoal
        directory := hdirectory
        has := hs₁.has _
        backups := rfl
        last := rfl
        shown := hs₁.showsIndexed (hapart t₁ hfirst) ht₁.log
          (hstays.trans (c.frame_counted hpolled.has).stays)
        polled := ⟨_, hpoll⟩
        known := hspent.known
        reached := hsearches _ _ _ _ c hcomes' }
      refine ⟨t₁, first, t₁', f, hfirst, hround₁, hspent.next h (ht.has c.passed.disk) (.refl _) rfl
        (ht.showsIndexed (hapart t₁ hfirst) ht₁.log ?_) hproductive⟩
      exact hstays.trans (c.stays_passed hsetup.isAbsolute_root (ht.has c.passed.disk) rfl)

end Run

end ResourcePruner
