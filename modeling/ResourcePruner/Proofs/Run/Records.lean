import ResourcePruner.Proofs.Run.Length

/-!
# What is never searched

Paths lead where they resolve to before the first round, as long as they lead anywhere. So it can be
told then that no round searches the log or a copy of a file (`Run.searchesNoRecord_of_isApart`).
-/

namespace ResourcePruner

open Disk (Extends Same descend)

namespace Run

open ResourcePruner.Task (Runs Steps)
open Usage (Reaches dialectOf?)

variable {project : Project} {s t t₁ : Session} {number : Nat}

/-- A root and the backup directory do not lie in each other, and the log is not among the files of
a dialect below the root. -/
structure Project.HasRootApart (project : Project) (t : Session) (root : Path) : Prop where
  backups : ∃ directory goal, t.disk.resolve project.store.directory = .ok directory
    ∧ t.disk.resolve root = .ok goal
    ∧ ¬ directory.place <+: goal.place ∧ ¬ goal.place <+: directory.place
  log : ∀ log, t.trail.log = some log → log.isAbsolute = true ∧ ∃ found goal,
    t.disk.resolve log = .ok found ∧ t.disk.resolve root = .ok goal
      ∧ ∀ names, found.place = goal.place ++ names →
        dialectOf? project.config.scan (descend root names) = none

/-- The manifest is neither the log nor below the backup directory. -/
structure Project.HasManifestApart (project : Project) (t : Session) : Prop where
  backups : ∃ directory goal, t.disk.resolve project.store.directory = .ok directory
    ∧ t.disk.resolve project.config.manifest = .ok goal ∧ ¬ directory.place <+: goal.place
  log : ∀ log, t.trail.log = some log → log.isAbsolute = true ∧ ∃ found goal,
    t.disk.resolve log = .ok found ∧ t.disk.resolve project.config.manifest = .ok goal
      ∧ found.place ≠ goal.place

theorem searchRoots_subset {report : RoundReport} {t' : Session} (c : Course project t report t')
    (hroots : ∀ roots, t.roots = some roots → roots ⊆ project.config.projectRoot
      :: project.config.extraRoots) :
    c.roots ⊆ project.config.projectRoot :: project.config.extraRoots := by
  have hindexed : c.indexed.roots = t.roots :=
    (Index.steps_build (R := KeepsRoots) _ _).runs c.runs_build
  rcases runs_searchRoots (R := KeepsRoots) c.runs_searchRoots with ⟨hknown, -⟩
    | ⟨-, _, -, -, hfound⟩
  · exact hroots _ (hindexed.symm.trans hknown)
  · exact fun root hmem => List.mem_cons.mpr ((hfound root hmem).imp_right And.left)

/-- What a round begins with has been there since the first one. -/
theorem exists_first (hsetup : project.IsSetUp s) (hfresh : project.IsFresh s)
    (hdown : ∀ name ∈ project.store.directory.parts, IsDown name)
    (hcomes : ComesTo project false s number t) :
    ∃ t₁, ComesTo project false s 1 t₁ ∧ Extends t₁.disk t.disk ∧ t.trail.log = s.trail.log
      ∧ ∀ roots, t.roots = some roots →
        roots ⊆ project.config.projectRoot :: project.config.extraRoots := by
  obtain ⟨base, ht⟩ := Within.exists_of_comesTo hsetup hdown hcomes
  have hlog := ht.log
  clear ht
  induction hcomes with
  | @first u t hprepare hpoll =>
      have hcomes : ComesTo project false s 1 t := .first hprepare hpoll
      refine ⟨t, hcomes, .refl _, hlog, fun roots hroots => ?_⟩
      rw [roots_of_comesTo hfresh hsetup.isAbsolute_directory hcomes] at hroots
      cases hroots
  | @next number report t t' t'' hcomes hround hmore hpoll ih =>
      obtain ⟨base, ht⟩ := Within.exists_of_comesTo hsetup hdown hcomes
      obtain ⟨t₁, hfirst, hstays, -, hroots⟩ := ih ht.log
      obtain ⟨c⟩ := exists_course hround
      have hpass := c.frame_passed hsetup.isAbsolute_root (ht.has t.disk) rfl
      have hlater : Frame (ht.scene t.disk) Nowhere Same c.passed t' := c.frame_concluded hpass.has
      have hpolled : Frame (ht.scene t.disk) Nowhere Same t' t'' :=
        .of_steps hlater.has hpoll (Task.steps_poll _)
      have hscanned := c.frame_scanned (c.frame_listed (ht.has t.disk)).has
      refine ⟨t₁, hfirst, ?_, hlog, fun roots hknown => ?_⟩
      · exact (hstays.trans (c.stays_passed hsetup.isAbsolute_root (ht.has t.disk) rfl)).trans
          (hlater.trans hpolled).stays
      · have hsame :=
          (hlater.trans hpolled).roots _ (hpass.roots _ (hscanned.roots _ c.roots_listed))
        obtain rfl := Option.some.inj (hknown.symm.trans hsame)
        exact searchRoots_subset c hroots

/-- Whether a round searches what is recorded can be told before the first one. -/
theorem searchesNoRecord_of_isApart (hsetup : project.IsSetUp s) (hfresh : project.IsFresh s)
    (hdown : ∀ name ∈ project.store.directory.parts, IsDown name)
    (hmanifest : ∀ t, ComesTo project false s 1 t → project.HasManifestApart t)
    (hroots : ∀ t, ComesTo project false s 1 t →
      ∀ root ∈ project.config.projectRoot :: project.config.extraRoots,
        project.HasRootApart t root) :
    project.SearchesNoRecord s := by
  intro number t report t' c hcomes place hreaches hrecord
  obtain ⟨t₁, hfirst, hstays, hlog, hsubset⟩ := exists_first hsetup hfresh hdown hcomes
  obtain ⟨_, ht⟩ := Within.exists_of_comesTo hsetup hdown hcomes
  obtain ⟨_, ht₁⟩ := Within.exists_of_comesTo hsetup hdown hfirst
  have hstays' := hstays.trans (c.frame_counted (ht.has t.disk)).stays
  obtain ⟨path, hpath, goal, hgoal, rfl, hdialect⟩ := hreaches
  rcases Usage.mem_visits.mp hpath with hpath | ⟨root, hroot, hpath⟩
  · have hpath : path = project.config.manifest := by
      rw [Usage.manifestOn] at hpath
      split at hpath
      · exact List.mem_singleton.mp hpath
      · cases hpath
    subst hpath
    have hapart := hmanifest t₁ hfirst
    rcases hrecord with ⟨log, found, hsome, hfound, hplace⟩ | ⟨-, found, hfound, -, hbelow, -⟩
    · obtain ⟨habsolute, found', goal', hlogged, hresolve, hne⟩ :=
        hapart.log log (ht₁.log.trans hsome)
      obtain rfl := Disk.eq_of_resolve hstays' habsolute hfound hlogged
      obtain rfl := Disk.eq_of_resolve hstays' hfresh.isAbsolute_manifest hgoal hresolve
      exact hne hplace
    · obtain ⟨directory, goal', hresolve', hresolve, hnot⟩ := hapart.backups
      obtain rfl := Disk.eq_of_resolve hstays' hsetup.isAbsolute_directory hfound hresolve'
      obtain rfl := Disk.eq_of_resolve hstays' hfresh.isAbsolute_manifest hgoal hresolve
      exact hnot hbelow
  · have hmem := searchRoots_subset c hsubset hroot
    have habsolute : root.isAbsolute = true := by
      rcases List.mem_cons.mp hmem with rfl | hmem
      · exact hsetup.isAbsolute_root
      · exact hfresh.areAbsolute_extraRoots root hmem
    obtain ⟨reached, goal', _, hreached, hgoal', -, hfinds, -⟩ :=
      Usage.finds_of_mem_filesOn habsolute hpath
    obtain rfl := hgoal'.unique hgoal
    -- The names that lead to the file from the root make its place, too.
    obtain ⟨names, rfl, hplace⟩ : ∃ names, path = descend root names
        ∧ goal'.place = reached.place ++ names := by
      rcases hfinds with ⟨rfl, rfl⟩ | ⟨way, name, -, hlisted, rfl, rfl⟩
      · exact ⟨[], by simp [descend], by simp⟩
      · exact ⟨way ++ [name], rfl, Disk.place_descend _ hlisted⟩
    have hapart := hroots t₁ hfirst root hmem
    rcases hrecord with ⟨log, found, hsome, hfound, hsame⟩ | ⟨-, found, hfound, -, hbelow, -⟩
    · obtain ⟨habsolute', found', reached', hlogged, hresolve, hnone⟩ :=
        hapart.log log (ht₁.log.trans hsome)
      obtain rfl := Disk.eq_of_resolve hstays' habsolute' hfound hlogged
      obtain rfl := Disk.eq_of_resolve hstays' habsolute hreached hresolve
      rw [hnone names (hsame.trans hplace)] at hdialect
      cases hdialect
    · obtain ⟨directory, reached', hresolve', hresolve, hnot, hnot'⟩ := hapart.backups
      obtain rfl := Disk.eq_of_resolve hstays' hsetup.isAbsolute_directory hfound hresolve'
      obtain rfl := Disk.eq_of_resolve hstays' habsolute hreached hresolve
      rw [hplace] at hbelow
      rcases List.prefix_or_prefix_of_prefix hbelow (List.prefix_append _ names) with h | h
      · exact hnot h
      · exact hnot' h

end Run

end ResourcePruner
