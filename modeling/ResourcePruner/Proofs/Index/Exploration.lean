import ResourcePruner.Index.Exploration
import ResourcePruner.Proofs.Disk.Exploration
import ResourcePruner.Proofs.Index.Build
import ResourcePruner.Proofs.Index.Holdings

/-!
# What an exploration for resource directories comes to

A directory contributes the directories of categories in its subdirectory of the configured name, if
it has one that can be listed (`Index.mem_taken_contribution`). Hence an exploration finds the
directories that hold resources, each once, as far as they can be reached
(`Index.findsDefinitionDirs`).

Together with the exploration for files (`Disk.exploresFiles`) that says which parts of a project
are looked at, and that nothing but a path that is too long hides a part of it (`Index.explores`).
-/

namespace ResourcePruner

namespace Index

open Disk (descend isSkipped IsLookedUp IsMet Findings contribution)

variable {disk : Disk} {settings : IndexSettings} {root path : Path} {place : Place}
  {directory : DefinitionDir} {error : Disk.Error}

/-! ## Contributions -/

/-- The directories that hold resources in a directory of the configured name. -/
def categoriesFrom (disk : Disk) (settings : IndexSettings) (path : Path) (place : Place) :
    Findings DefinitionDir :=
  ⟨(categoryDirsIn disk settings place).filterMap fun name =>
    (stemOf? name).map fun stem => ⟨stem, path.child name⟩, []⟩

/-- A directory has a subdirectory of the configured name that is not skipped. -/
def HasResourceDir (disk : Disk) (settings : IndexSettings) (place : Place) : Prop :=
  disk.get? (place ++ [settings.resourceDirName]) = some .directory
    ∧ isSkipped settings.skippedDirNames settings.resourceDirName = false

instance : Decidable (HasResourceDir disk settings place) := inferInstanceAs (Decidable (_ ∧ _))

/-- The directories that hold resources in the subdirectory of the configured name. -/
def definitionsFrom (disk : Disk) (settings : IndexSettings) (path : Path) (place : Place) :
    Findings DefinitionDir :=
  if HasResourceDir disk settings place then
    contribution disk (categoriesFrom disk settings) (path.child settings.resourceDirName)
  else
    .none

theorem categoryDirs_eq
    (hrefusal : ∀ error, disk.openDirectory path = .error error → error.isRefusal = true) :
    categoryDirs disk settings path
      = .ok (contribution disk (categoriesFrom disk settings) path) := by
  rw [categoryDirs, contribution]
  cases hopen : disk.openDirectory path with
  | ok place =>
      rw [Disk.listable_of_ok hopen]
      rfl
  | error error =>
      rw [Disk.listable_of_refusal hopen (hrefusal error hopen)]
      rfl

/-- There is at most one directory of the configured name. -/
theorem resourceDirs_eq (disk : Disk) (settings : IndexSettings) (place : Place) :
    ((disk.children place).filter fun child => isResourceDir settings child.1 child.2)
      = if HasResourceDir disk settings place then
          [(settings.resourceDirName, .directory)]
        else
          [] := by
  refine ((Disk.pairwise_children disk place).filter _).eq_of_mem_iff ?_ fun child => ?_
  · split
    · exact List.pairwise_singleton _ _
    · exact .nil
  · obtain ⟨name, entry⟩ := child
    simp only [List.mem_filter, Disk.mem_children, isResourceDir, Bool.and_eq_true,
      decide_eq_true_eq, Bool.not_eq_true']
    constructor
    · rintro ⟨hlies, ⟨rfl, hskipped⟩, rfl⟩
      rw [if_pos ⟨hlies, hskipped⟩]
      exact List.mem_singleton_self _
    · split
      · rename_i hhas
        intro hchild
        cases List.mem_singleton.mp hchild
        exact ⟨hhas.1, ⟨rfl, hhas.2⟩, rfl⟩
      · intro hchild
        cases hchild

theorem takes_definitionAim (disk : Disk) (settings : IndexSettings) :
    (definitionAim disk settings).Takes disk (definitionsFrom disk settings) := by
  intro path place hopen
  change (do return Findings.join (← ((disk.children place).filter fun child =>
    isResourceDir settings child.1 child.2).mapM fun child =>
      categoryDirs disk settings (path.child child.1)) : Except Disk.Error _) = _
  rw [resourceDirs_eq, definitionsFrom]
  split
  · rename_i hhas
    rw [List.mapM_cons, categoryDirs_eq]
    · exact congrArg Except.ok (Findings.append_none _)
    · intro error herror
      rcases Disk.openDirectory_descend_cases hopen hhas.1 with ⟨-, hdown⟩ | ⟨-, hdown⟩
      · cases hdown.symm.trans herror
      · obtain rfl := Except.error.inj (hdown.symm.trans herror)
        rfl
  · rfl

theorem mem_taken_categoriesFrom :
    directory ∈ (categoriesFrom disk settings path place).taken ↔
      ∃ inner, disk.get? (place ++ [inner]) = some .directory
        ∧ isSkipped settings.skippedDirNames inner = false ∧ stemOf? inner = some directory.stem
        ∧ directory.path = path.child inner := by
  obtain ⟨stem, goal⟩ := directory
  simp only [categoriesFrom, List.mem_filterMap, mem_categoryDirsIn, Option.map_eq_some_iff,
    DefinitionDir.mk.injEq]
  refine exists_congr fun inner => ?_
  constructor
  · rintro ⟨⟨hlies, hskipped, -⟩, _, hstem, rfl, rfl⟩
    exact ⟨hlies, hskipped, hstem, rfl⟩
  · rintro ⟨hlies, hskipped, hstem, rfl⟩
    exact ⟨⟨hlies, hskipped, by rw [hstem]; rfl⟩, _, hstem, rfl, rfl⟩

/-- What a directory contributes lies two levels down, in a directory of the configured name. -/
theorem mem_taken_contribution :
    directory ∈ (contribution disk (definitionsFrom disk settings) path).taken ↔
      ∃ place inner, disk.openDirectory path = .ok place
        ∧ isSkipped settings.skippedDirNames settings.resourceDirName = false
        ∧ IsLookedUp (descend path [settings.resourceDirName])
        ∧ disk.get? (place ++ [settings.resourceDirName, inner]) = some .directory
        ∧ isSkipped settings.skippedDirNames inner = false ∧ stemOf? inner = some directory.stem
        ∧ directory.path = descend path [settings.resourceDirName, inner] := by
  rw [contribution]
  cases hopen : disk.openDirectory path with
  | error error => simp [Findings.refusal]
  | ok place =>
      simp only [definitionsFrom]
      split
      · rename_i hhas
        have hsplit : ∀ inner, place ++ [settings.resourceDirName, inner]
            = place ++ [settings.resourceDirName] ++ [inner] := fun inner => by simp
        have hchild : ∀ inner, descend path [settings.resourceDirName, inner]
            = (path.child settings.resourceDirName).child inner := fun inner => by
          simp [descend, Path.child]
        rcases Disk.openDirectory_descend_cases hopen hhas.1 with ⟨hlooked, hdown⟩ | ⟨hlong, hdown⟩
        · change disk.openDirectory (path.child settings.resourceDirName) = _ at hdown
          rw [contribution, hdown]
          simp only [mem_taken_categoriesFrom, Except.ok.injEq, hhas.2, hlooked, hsplit, hchild,
            true_and, exists_and_left, exists_eq_left']
        · change disk.openDirectory (path.child settings.resourceDirName) = _ at hdown
          rw [contribution, hdown]
          refine iff_of_false List.not_mem_nil ?_
          rintro ⟨_, _, -, -, hlooked, -⟩
          exact hlong hlooked
      · rename_i hhas
        refine iff_of_false List.not_mem_nil ?_
        rintro ⟨_, inner, hplace, hskipped, -, hlies, -⟩
        cases hplace
        rw [List.append_cons] at hlies
        exact hhas ⟨Disk.get?_of_append (List.cons_ne_nil inner []) hlies, hskipped⟩

theorem mem_refused_contribution :
    error ∈ (contribution disk (definitionsFrom disk settings) path).refused ↔
      disk.openDirectory path = .error error
        ∨ ∃ place, disk.openDirectory path = .ok place ∧ HasResourceDir disk settings place
          ∧ disk.openDirectory (descend path [settings.resourceDirName]) = .error error := by
  rw [contribution]
  cases hopen : disk.openDirectory path with
  | error found => simp [Findings.refusal, eq_comm]
  | ok place =>
      simp only [definitionsFrom, reduceCtorEq, false_or, Except.ok.injEq, exists_eq_left']
      split
      · rename_i hhas
        simp only [hhas, true_and, contribution]
        change _ ↔ disk.openDirectory (path.child settings.resourceDirName) = .error error
        cases disk.openDirectory (path.child settings.resourceDirName) with
        | ok inner => simp [categoriesFrom]
        | error found => simp [Findings.refusal, eq_comm]
      · rename_i hhas
        simp [hhas, Findings.none]

/-! ## What is found -/

/-- The directories are those that hold resources and are reached through directories that can be
listed, each once. Reported are, each once, the directories on the way whose paths are too long, one
of the configured name being the last on its way. -/
structure FindsDefinitionDirs (disk : Disk) (settings : IndexSettings) (root : Path) (place : Place)
    (found : Findings DefinitionDir) : Prop where
  mem_taken : ∀ directory, directory ∈ found.taken ↔
    ∃ names, IsDefinitionDir settings directory.stem names ∧ directory.path = descend root names
      ∧ disk.get? (place ++ names) = some .directory
      ∧ ∀ front, front <+: names → front ≠ names → IsLookedUp (descend root front)
  nodup_taken : (found.taken.map (·.path)).Nodup
  mem_refused : ∀ error, error ∈ found.refused ↔
    ∃ names, error = ⟨.nameTooLong, descend root names⟩
      ∧ (∀ d ∈ names, isSkipped settings.skippedDirNames d = false)
      ∧ settings.resourceDirName ∉ names.dropLast ∧ disk.get? (place ++ names) = some .directory
      ∧ (∀ front, front <+: names → front ≠ names → IsLookedUp (descend root front))
      ∧ ¬ IsLookedUp (descend root names)
  nodup_refused : found.refused.Nodup

theorem forall_proper_iff {P : List Text → Prop} {way : List Text} {last : Text} :
    (∀ front, front <+: way ++ [last] → front ≠ way ++ [last] → P front)
      ↔ ∀ front, front <+: way → P front := by
  constructor
  · intro h front hfront
    refine h front (hfront.trans (List.prefix_append _ _)) ?_
    rintro rfl
    have hlength := hfront.length_le
    rw [List.length_append, List.length_singleton] at hlength
    omega
  · intro h front hfront hne
    exact h front ((List.prefix_concat_iff.mp hfront).resolve_left hne)

theorem isWay_definitionAim_iff {way : List Text}
    (hlies : disk.get? (place ++ way) = some .directory) :
    Disk.IsWay disk (definitionAim disk settings).enters place way ↔
      ∀ d ∈ way, isSkipped settings.skippedDirNames d = false ∧ d ≠ settings.resourceDirName := by
  constructor
  · intro hway d hd
    simpa [definitionAim] using hway.enter d hd
  · intro hskipped
    exact Disk.isWay_of_get? (fun d hd => by simp [definitionAim, hskipped d hd]) hlies

theorem nodup_paths_contribution (disk : Disk) (settings : IndexSettings) (path : Path) :
    ((contribution disk (definitionsFrom disk settings) path).taken.map (·.path)).Nodup := by
  have hcategories : ∀ (path : Path) (place : Place),
      ((categoriesFrom disk settings path place).taken.map (·.path)).Nodup := by
    intro path place
    refine List.pairwise_map.mpr (List.pairwise_filterMap.mpr ?_)
    refine List.pairwise_map.mpr (((Disk.pairwise_children disk place).filter _).imp ?_)
    rintro a b hless first hfirst second hsecond heq
    obtain ⟨_, -, rfl⟩ := Option.map_eq_some_iff.mp hfirst
    obtain ⟨_, -, rfl⟩ := Option.map_eq_some_iff.mp hsecond
    exact StrictOrder.ne_of_lt hless (Path.child_injective heq)
  rw [contribution]
  split
  · rw [definitionsFrom]
    split
    · rw [contribution]
      split
      · exact hcategories _ _
      · exact .nil
    · exact .nil
  · exact .nil

theorem nodup_refused_contribution (disk : Disk) (settings : IndexSettings) (path : Path) :
    (contribution disk (definitionsFrom disk settings) path).refused.Nodup := by
  rw [contribution]
  split
  · rw [definitionsFrom]
    split
    · rw [contribution]
      split
      · exact .nil
      · exact List.nodup_singleton _
    · exact .nil
  · exact List.nodup_singleton _

/-- What an exploration for resource directories comes to, by recursion. -/
def definitionHarvest (disk : Disk) (settings : IndexSettings) (root : Path) :
    Findings DefinitionDir :=
  disk.harvest (definitionAim disk settings).enters (definitionsFrom disk settings) disk.depthBound
    root

theorem exploreDefinitionDirs_eq_harvest (hopen : disk.openDirectory root = .ok place)
    (settings : IndexSettings) :
    exploreDefinitionDirs disk settings root = .ok (definitionHarvest disk settings root) :=
  Disk.explore_eq_harvest (takes_definitionAim disk settings) (Disk.isEnough_of_openDirectory hopen)

theorem exists_of_mem_taken (hopen : disk.openDirectory root = .ok place)
    (hdirectory : directory ∈ (definitionHarvest disk settings root).taken) :
    ∃ names, IsDefinitionDir settings directory.stem names ∧ directory.path = descend root names
      ∧ disk.get? (place ++ names) = some .directory
      ∧ ∀ front, front <+: names → front ≠ names → IsLookedUp (descend root front) := by
  obtain ⟨way, -, hmet, hdirectory⟩ := (Disk.mem_harvest Disk.isPart_taken).mp hdirectory
  obtain ⟨_, inner, hinner, hskipped, hlooked, hlies, hskipped', hstem, hpath⟩ :=
    mem_taken_contribution.mp hdirectory
  obtain ⟨rfl, hway, hfronts⟩ := (Disk.isMet_and_openDirectory_iff hopen).mp ⟨hmet, hinner⟩
  have habove := Disk.get?_of_append (List.cons_ne_nil _ _) hlies
  rw [Disk.descend_descend] at hlooked hpath
  refine ⟨way ++ [settings.resourceDirName, inner],
    ⟨way, inner, rfl, (isWay_definitionAim_iff habove).mp hway, hskipped, hskipped', hstem⟩,
    hpath, by rwa [← List.append_assoc], ?_⟩
  rw [List.append_cons, forall_proper_iff]
  intro front hfront
  rcases List.prefix_concat_iff.mp hfront with rfl | hfront
  · exact hlooked
  · exact hfronts front hfront

theorem mem_taken_of_isDefinitionDir {names : List Text}
    (hopen : disk.openDirectory root = .ok place)
    (hnames : IsDefinitionDir settings directory.stem names)
    (hpath : directory.path = descend root names)
    (hlies : disk.get? (place ++ names) = some .directory)
    (hfronts : ∀ front, front <+: names → front ≠ names → IsLookedUp (descend root front)) :
    directory ∈ (definitionHarvest disk settings root).taken := by
  obtain ⟨way, inner, rfl, hskips, hskipped, hskipped', hstem⟩ := hnames
  rw [← List.append_assoc] at hlies
  have habove := Disk.get?_of_append (List.cons_ne_nil _ _) hlies
  rw [List.append_cons, forall_proper_iff] at hfronts
  obtain ⟨hmet, hinner⟩ := (Disk.isMet_and_openDirectory_iff hopen).mpr
    ⟨rfl, (isWay_definitionAim_iff habove).mpr hskips,
      fun front hfront => hfronts front (hfront.trans (List.prefix_append _ _))⟩
  have hlooked := hfronts _ (List.prefix_refl _)
  rw [← Disk.descend_descend] at hlooked
  exact (Disk.mem_harvest Disk.isPart_taken).mpr ⟨way, Disk.length_way_lt_depthBound habove, hmet,
    mem_taken_contribution.mpr ⟨_, inner, hinner, hskipped, hlooked, hlies, hskipped', hstem,
      by rw [hpath, Disk.descend_descend]⟩⟩

theorem nodup_taken_definitionHarvest (disk : Disk) (settings : IndexSettings) (root : Path) :
    ((definitionHarvest disk settings root).taken.map (·.path)).Nodup := by
  have hpart : Disk.IsPart fun found : Findings DefinitionDir => found.taken.map (·.path) :=
    ⟨rfl, fun _ _ => List.map_append, fun _ => List.map_flatMap⟩
  refine Disk.nodup_harvest hpart (fun way => nodup_paths_contribution ..) ?_
  intro way way' goal _ _ hgoal hgoal'
  obtain ⟨directory, hdirectory, rfl⟩ := List.mem_map.mp hgoal
  obtain ⟨other, hother, heq⟩ := List.mem_map.mp hgoal'
  obtain ⟨_, inner, -, -, -, -, -, -, hpath⟩ := mem_taken_contribution.mp hdirectory
  obtain ⟨_, inner', -, -, -, -, -, -, hpath'⟩ := mem_taken_contribution.mp hother
  rw [hpath, hpath', Disk.descend_descend, Disk.descend_descend] at heq
  exact (List.append_inj' (Disk.descend_injective heq) rfl).1.symm

/-- A directory that is met and cannot be listed, or its subdirectory of the configured name. -/
theorem exists_of_mem_refused (hopen : disk.openDirectory root = .ok place)
    (herror : error ∈ (definitionHarvest disk settings root).refused) :
    ∃ names, error = ⟨.nameTooLong, descend root names⟩
      ∧ (∀ d ∈ names, isSkipped settings.skippedDirNames d = false)
      ∧ settings.resourceDirName ∉ names.dropLast ∧ disk.get? (place ++ names) = some .directory
      ∧ (∀ front, front <+: names → front ≠ names → IsLookedUp (descend root front))
      ∧ ¬ IsLookedUp (descend root names) := by
  obtain ⟨way, -, hmet, herror⟩ := (Disk.mem_harvest Disk.isPart_refused).mp herror
  rcases mem_refused_contribution.mp herror with hself | ⟨_, hplace, hhas, hinner⟩
  · obtain ⟨heq, hway, hfronts, hlong⟩ := (Disk.isMet_and_error_iff hopen).mp ⟨hmet, hself⟩
    have hlies := hway.get?_append (Disk.ne_nil_of_not_isLookedUp hopen hlong)
    have hskips := (isWay_definitionAim_iff hlies).mp hway
    exact ⟨way, heq, fun d hd => (hskips d hd).1,
      fun hmem => (hskips _ (List.dropLast_subset _ hmem)).2 rfl, hlies, hfronts, hlong⟩
  · obtain ⟨rfl, hway, hfronts⟩ := (Disk.isMet_and_openDirectory_iff hopen).mp ⟨hmet, hplace⟩
    have hskips := (isWay_definitionAim_iff
      (Disk.get?_of_append (List.cons_ne_nil _ _) hhas.1)).mp hway
    rcases Disk.openDirectory_descend_cases hplace hhas.1 with ⟨-, hdown⟩ | ⟨hlong, hdown⟩
    · cases hdown.symm.trans hinner
    · rw [Disk.descend_descend] at hinner hdown hlong
      refine ⟨way ++ [settings.resourceDirName], Except.error.inj (hinner.symm.trans hdown),
        List.forall_mem_append.mpr ⟨fun d hd => (hskips d hd).1,
          List.forall_mem_singleton.mpr hhas.2⟩, ?_, by rw [← List.append_assoc]; exact hhas.1,
        forall_proper_iff.mpr hfronts, hlong⟩
      rw [List.dropLast_concat]
      exact fun hmem => (hskips _ hmem).2 rfl

/-- The subdirectory of the configured name is tried from the directory that it lies in. -/
theorem mem_refused_of_resourceDir {way : List Text} (hopen : disk.openDirectory root = .ok place)
    (hways : ∀ d ∈ way, isSkipped settings.skippedDirNames d = false ∧ d ≠ settings.resourceDirName)
    (hhas : HasResourceDir disk settings (place ++ way))
    (hfronts : ∀ front, front <+: way → IsLookedUp (descend root front))
    (hlong : ¬ IsLookedUp (descend root (way ++ [settings.resourceDirName]))) :
    ⟨.nameTooLong, descend root (way ++ [settings.resourceDirName])⟩
      ∈ (definitionHarvest disk settings root).refused := by
  have habove := Disk.get?_of_append (List.cons_ne_nil _ _) hhas.1
  obtain ⟨hmet, hinner⟩ := (Disk.isMet_and_openDirectory_iff hopen).mpr
    ⟨rfl, (isWay_definitionAim_iff habove).mpr hways, hfronts⟩
  refine (Disk.mem_harvest Disk.isPart_refused).mpr
    ⟨way, Disk.length_way_lt_depthBound habove, hmet,
    mem_refused_contribution.mpr (.inr ⟨_, hinner, hhas, ?_⟩)⟩
  rw [← Disk.descend_descend] at hlong ⊢
  exact ((Disk.openDirectory_descend_cases hinner hhas.1).resolve_left fun h => hlong h.1).2

theorem mem_refused_of_not_isLookedUp {names : List Text}
    (hopen : disk.openDirectory root = .ok place)
    (hskipped : ∀ d ∈ names, isSkipped settings.skippedDirNames d = false)
    (hname : settings.resourceDirName ∉ names.dropLast)
    (hlies : disk.get? (place ++ names) = some .directory)
    (hfronts : ∀ front, front <+: names → front ≠ names → IsLookedUp (descend root front))
    (hlong : ¬ IsLookedUp (descend root names)) :
    ⟨.nameTooLong, descend root names⟩ ∈ (definitionHarvest disk settings root).refused := by
  obtain ⟨way, last, rfl⟩ := (List.eq_nil_or_concat names).resolve_left
    (Disk.ne_nil_of_not_isLookedUp hopen hlong)
  rw [List.concat_eq_append] at *
  rw [List.dropLast_concat] at hname
  obtain ⟨hskips, hlast⟩ := List.forall_mem_append.mp hskipped
  have hlast := hlast last (List.mem_singleton_self _)
  have hways : ∀ d ∈ way, isSkipped settings.skippedDirNames d = false
      ∧ d ≠ settings.resourceDirName :=
    fun d hd => ⟨hskips d hd, fun heq => hname (heq ▸ hd)⟩
  by_cases hresource : last = settings.resourceDirName
  · subst hresource
    rw [← List.append_assoc] at hlies
    exact mem_refused_of_resourceDir hopen hways ⟨hlies, hlast⟩ (forall_proper_iff.mp hfronts) hlong
  · have hall : ∀ d ∈ way ++ [last], isSkipped settings.skippedDirNames d = false
        ∧ d ≠ settings.resourceDirName :=
      List.forall_mem_append.mpr ⟨hways, List.forall_mem_singleton.mpr ⟨hlast, hresource⟩⟩
    obtain ⟨hmet, herror⟩ := (Disk.isMet_and_error_iff hopen).mpr
      ⟨rfl, (isWay_definitionAim_iff hlies).mpr hall, hfronts, hlong⟩
    exact (Disk.mem_harvest Disk.isPart_refused).mpr ⟨_, Disk.length_way_lt_depthBound hlies, hmet,
      mem_refused_contribution.mpr (.inl herror)⟩

theorem nodup_refused_definitionHarvest (disk : Disk) (settings : IndexSettings) (root : Path) :
    (definitionHarvest disk settings root).refused.Nodup := by
  refine Disk.nodup_harvest Disk.isPart_refused (fun way => nodup_refused_contribution ..) ?_
  intro way way' error hmet hmet' herror herror'
  have hpath : ∀ {way}, error ∈ (contribution disk (definitionsFrom disk settings)
      (descend root way)).refused → error.path = descend root way
        ∨ error.path = descend root (way ++ [settings.resourceDirName]) := by
    intro way herror
    rcases mem_refused_contribution.mp herror with hself | ⟨_, -, -, hinner⟩
    · exact .inl (Disk.path_of_openDirectory hself)
    · exact .inr ((Disk.path_of_openDirectory hinner).trans (Disk.descend_descend ..))
  have hname : ∀ {way more}, IsMet disk (definitionAim disk settings).enters root way →
      way ≠ more ++ [settings.resourceDirName] := by
    rintro _ more hmet rfl
    simpa [definitionAim] using hmet.enters settings.resourceDirName (by simp)
  rcases hpath herror with h | h <;> rcases hpath herror' with h' | h' <;>
    have heq := Disk.descend_injective (h.symm.trans h')
  · exact heq
  · exact absurd heq (hname hmet)
  · exact absurd heq.symm (hname hmet')
  · exact (List.append_inj' heq rfl).1

theorem findsDefinitionDirs (hopen : disk.openDirectory root = .ok place)
    (settings : IndexSettings) :
    FindsDefinitionDirs disk settings root place (definitionHarvest disk settings root) where
  mem_taken _ := by
    refine ⟨exists_of_mem_taken hopen, ?_⟩
    rintro ⟨names, hnames, hpath, hlies, hfronts⟩
    exact mem_taken_of_isDefinitionDir hopen hnames hpath hlies hfronts
  nodup_taken := nodup_taken_definitionHarvest disk settings root
  mem_refused _ := by
    refine ⟨exists_of_mem_refused hopen, ?_⟩
    rintro ⟨names, rfl, hskipped, hname, hlies, hfronts, hlong⟩
    exact mem_refused_of_not_isLookedUp hopen hskipped hname hlies hfronts hlong
  nodup_refused := nodup_refused_definitionHarvest disk settings root

/-! ## Where everything can be listed -/

theorem definitionDirsIn_eq (disk : Disk) (settings : IndexSettings) (place : Place) :
    definitionDirsIn disk settings place =
      if HasResourceDir disk settings place then
        (categoryDirsIn disk settings (place ++ [settings.resourceDirName])).map fun inner =>
          [settings.resourceDirName, inner]
      else
        [] := by
  have hresource := Disk.flatMap_filter (fun child => isResourceDir settings child.1 child.2)
    (fun child => (categoryDirsIn disk settings (place ++ [child.1])).map fun inner =>
      [child.1, inner]) (disk.children place)
  rw [definitionDirsIn, ← hresource, resourceDirs_eq]
  split
  · rw [List.flatMap_singleton]
  · rfl

/-- A path as that of a directory that holds resources. -/
def definitionDirAt? (path : Path) : Option DefinitionDir :=
  (stemOf? (path.parts.getLastD [])).map fun stem => ⟨stem, path⟩

theorem definitionDirAt?_descend {names : List Text} (hne : names ≠ []) :
    definitionDirAt? (descend root names)
      = (stemOf? (names.getLastD [])).map fun stem => ⟨stem, descend root names⟩ := by
  rw [definitionDirAt?, descend, List.getLastD_eq_getLast?, List.getLastD_eq_getLast?,
    List.getLast?_append_of_ne_nil _ hne]

/-- Where all directories can be listed that an exploration meets, the directories that hold
resources are those of the walk over the places, and nothing is reported. -/
theorem exploreDefinitionDirs_eq (hopen : disk.openDirectory root = .ok place)
    (hlooked : ∀ names, (∀ d ∈ names, isSkipped settings.skippedDirNames d = false) →
      settings.resourceDirName ∉ names.dropLast → disk.get? (place ++ names) = some .directory →
      IsLookedUp (descend root names)) :
    exploreDefinitionDirs disk settings root
      = (definitionDirs disk settings root).map fun directories => ⟨directories, []⟩ := by
  have hfinds := findsDefinitionDirs hopen settings
  have hrefused : (definitionHarvest disk settings root).refused = [] := by
    refine List.eq_nil_iff_forall_not_mem.mpr fun error herror => ?_
    obtain ⟨names, -, hskipped, hname, hlies, -, hlong⟩ := (hfinds.mem_refused error).mp herror
    exact hlong (hlooked names hskipped hname hlies)
  have hways : ∀ {way}, Disk.IsWay disk (definitionAim disk settings).enters place way →
      ∀ d ∈ way, isSkipped settings.skippedDirNames d = false ∧ d ≠ settings.resourceDirName :=
    fun hway d hd => by simpa [definitionAim] using hway.enter d hd
  have hlisted : ∀ way, Disk.IsWay disk (definitionAim disk settings).enters place way →
      IsLookedUp (descend root way) := by
    intro way hway
    by_contra hlong
    have hlies := hway.get?_append (Disk.ne_nil_of_not_isLookedUp hopen hlong)
    exact hlong (hlooked way (fun d hd => (hways hway d hd).1)
      (fun hmem => (hways hway _ (List.dropLast_subset _ hmem)).2 rfl) hlies)
  have htaken : (definitionHarvest disk settings root).taken
      = (definitionDirsBelow disk settings place).filterMap fun names =>
        definitionDirAt? (descend root names) := by
    refine Disk.taken_harvest_eq (definitionDirsIn disk settings)
      (fun path names => definitionDirAt? (descend path names))
      (fun path name rest => by rw [Disk.descend_cons]) hopen hlisted fun way hway => ?_
    rw [definitionDirsIn_eq, definitionsFrom]
    split
    · rename_i hhas
      have hlies : disk.get? (place ++ (way ++ [settings.resourceDirName])) = some .directory := by
        rw [← List.append_assoc]
        exact hhas.1
      have hinner : disk.openDirectory ((descend root way).child settings.resourceDirName)
          = .ok (place ++ way ++ [settings.resourceDirName]) := by
        rw [List.append_assoc, show (descend root way).child settings.resourceDirName
          = descend root (way ++ [settings.resourceDirName]) from Disk.descend_descend ..]
        refine Disk.openDirectory_descend hopen hlies (hlooked _ ?_ ?_ hlies)
        · exact List.forall_mem_append.mpr ⟨fun d hd => (hways hway d hd).1,
            List.forall_mem_singleton.mpr hhas.2⟩
        · rw [List.dropLast_concat]
          exact fun hmem => (hways hway _ hmem).2 rfl
      rw [contribution, hinner, List.filterMap_map]
      refine List.filterMap_congr fun inner _ => ?_
      rw [Function.comp, Disk.descend_cons]
      exact (definitionDirAt?_descend (List.cons_ne_nil inner [])).symm
    · rfl
  rw [exploreDefinitionDirs_eq_harvest hopen, definitionDirs, hopen]
  refine congrArg Except.ok (congrArg₂ Findings.mk (htaken.trans ?_) hrefused)
  refine List.filterMap_congr fun names hnames => definitionDirAt?_descend ?_
  obtain ⟨⟨_, way, inner, rfl, -⟩, -⟩ := mem_definitionDirsBelow.mp hnames
  simp

/-- An exploration for directories that hold resources finds those that can be reached. -/
structure ExploresDefinitionDirs (disk : Disk) (settings : IndexSettings) (root : Path) : Prop where
  goesDown : Disk.GoesDown disk (definitionAim disk settings) (definitionsFrom disk settings) root
  finds : ∀ place, disk.openDirectory root = .ok place →
    ∃ found, exploreDefinitionDirs disk settings root = .ok found
      ∧ FindsDefinitionDirs disk settings root place found
  inOneGo : ∀ place, disk.openDirectory root = .ok place →
    (∀ names, (∀ d ∈ names, isSkipped settings.skippedDirNames d = false) →
      settings.resourceDirName ∉ names.dropLast → disk.get? (place ++ names) = some .directory →
      IsLookedUp (descend root names)) →
    exploreDefinitionDirs disk settings root
      = (definitionDirs disk settings root).map fun directories => ⟨directories, []⟩

theorem exploresDefinitionDirs (disk : Disk) (settings : IndexSettings) (root : Path) :
    ExploresDefinitionDirs disk settings root where
  goesDown := Disk.goesDown (takes_definitionAim disk settings) root
  finds _ hopen :=
    ⟨_, exploreDefinitionDirs_eq_harvest hopen settings, findsDefinitionDirs hopen settings⟩
  inOneGo _ hopen hlooked := exploreDefinitionDirs_eq hopen hlooked

/-- What is sought in a project is found, each thing once and by name, and what cannot be listed is
reported. -/
theorem explores (disk : Disk) (settings : IndexSettings) (root : Path) (skipped : List Text) :
    Disk.ExploresFiles disk root skipped ∧ ExploresDefinitionDirs disk settings root :=
  ⟨Disk.exploresFiles disk root skipped, exploresDefinitionDirs disk settings root⟩

namespace Sample

def farName : Text := List.replicate 250 (.char 'n')

/-- A project with a file in a directory that has a long name. -/
def farDisk : Disk :=
  ((((Disk.empty []).put ["p"] .directory).put ["p", detour] .directory).put
    ["p", farName] .directory).put ["p", farName, "b.txt"] (.file strings)

end Sample

open Sample in
/-- The files of a directory are passed over if its path is too long. -/
theorem not_explores_far :
    farDisk.openDirectory longRoot = .ok ["p"] ∧ isSkipped [detour] farName = false
      ∧ farDisk.get? ["p", farName, "b.txt"] = some (.file strings)
      ∧ ∃ found, farDisk.exploreFiles longRoot [detour] = .ok found
        ∧ descend longRoot [farName, "b.txt"] ∉ found.taken := by
  have hopen : farDisk.openDirectory longRoot = .ok ["p"] := by decide +kernel
  obtain ⟨found, hran, hfinds⟩ := (Disk.exploresFiles farDisk longRoot [detour]).finds _ hopen
  refine ⟨hopen, by decide +kernel, by decide +kernel, found, hran, fun hmem => ?_⟩
  obtain ⟨way, name, -, heq, -, -, hfronts⟩ := (hfinds.mem_taken _).mp hmem
  have hsplit : [farName] ++ [("b.txt" : Text)] = way ++ [name] := Disk.descend_injective heq
  obtain ⟨rfl, -⟩ := List.append_inj' hsplit rfl
  exact absurd (hfronts [farName] (List.prefix_refl _)).2 (by decide +kernel)

end Index

end ResourcePruner
