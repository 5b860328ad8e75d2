import ResourcePruner.Proofs.Disk.Order
import ResourcePruner.Proofs.Prospect
import ResourcePruner.Proofs.Usage.Scan
import ResourcePruner.Proofs.Usage.Visits

/-!
# Counting on two disks

Backups below a search root are come to, and so is the log, but neither is searched as long as they
are of no dialect. So a scan counts the same on disks that differ by them (`Prospect.follows_scan`),
although it goes through different files on the way: the two lists of files are paired up, and what
is in one of them only makes no difference (`Prospect.scanFile_left`, `Prospect.scanFile_right`).
-/

namespace ResourcePruner.Prospect

open Disk (descend isSkipped)
open Usage (Progress TokenGroup dialectOf?)
open ResourcePruner.Task (Follows Answers Paired Runs IsLogged)

variable {prospect : Prospect} {alike : Catalog → Catalog → Prop} {settings : ScanSettings}
  {s d : Session} {path root goal : Path}

/-- The manifest and the roots lead alike on either disk, and what is found below a root by a path
of a dialect is neither the log nor a file of one disk only. -/
structure ScansAlike (prospect : Prospect) (settings : ScanSettings) (manifest : Path) : Prop where
  manifest : prospect.Steady manifest
  roots : ∀ root ∈ prospect.roots, prospect.Steady root
  log : ∀ root ∈ prospect.roots, ∀ reached, prospect.left.Locates root reached →
    prospect.right.Locates root reached → ∀ way name, (∀ inner ∈ way,
      isSkipped settings.skippedDirNames inner = false) →
    prospect.IsLog (reached.place ++ (way ++ [name])) →
    dialectOf? settings (descend root (way ++ [name])) = none
  differing : ∀ root ∈ prospect.roots, Disk.IsLookedUp root → ∀ reached,
    prospect.left.Locates root reached → prospect.right.Locates root reached → ∀ way name content,
    (∀ inner ∈ way, isSkipped settings.skippedDirNames inner = false) →
    prospect.left.get? (reached.place ++ (way ++ [name]))
      ≠ prospect.right.get? (reached.place ++ (way ++ [name])) →
    prospect.left.get? (reached.place ++ (way ++ [name])) = some (.file content)
      ∨ prospect.right.get? (reached.place ++ (way ++ [name])) = some (.file content) →
    dialectOf? settings (descend root (way ++ [name])) = none

theorem ScansAlike.swap {manifest : Path} (halike : prospect.ScansAlike settings manifest) :
    prospect.swap.ScansAlike settings manifest where
  manifest := halike.manifest.swap
  roots root hroot := (halike.roots root hroot).swap
  log root hroot reached hright hleft way name hway hlog :=
    halike.log root hroot reached hleft hright way name hway (isLog_swap.mp hlog)
  differing root hroot hlooked reached hright hleft way name content hway hne hfile :=
    halike.differing root hroot hlooked reached hleft hright way name content hway (Ne.symm hne)
      hfile.symm

/-! ## Lists of files -/

/-- The path leads to what can differ and is of no dialect. -/
structure Strays (prospect : Prospect) (settings : ScanSettings) (disk : Disk) (path : Path) :
    Prop where
  isAbsolute : path.isAbsolute = true
  areSpellable : Disk.AreSpellable path.parts
  dialect : dialectOf? settings path = none
  hides : ∃ goal, disk.Locates path goal ∧ prospect.Hides goal.place

/-- Two lists of files agree but for files that are of no dialect. -/
structure ListsAlike (prospect : Prospect) (settings : ScanSettings) (files files' : List Path) :
    Prop where
  paired : Paired prospect.Shows files files'
  left : ∀ path ∈ files, ¬ prospect.Shows path → prospect.Strays settings prospect.left path
  right : ∀ path ∈ files', ¬ prospect.Shows path → prospect.Strays settings prospect.right path

theorem ListsAlike.refl {files : List Path} (hshows : ∀ path ∈ files, prospect.Shows path) :
    prospect.ListsAlike settings files files where
  paired := .refl hshows
  left path hpath hnot := absurd (hshows path hpath) hnot
  right path hpath hnot := absurd (hshows path hpath) hnot

theorem Shows.not_hides (hshows : prospect.Shows path)
    (hgoal : prospect.left.Locates path goal ∨ prospect.right.Locates path goal) :
    ¬ prospect.Hides goal.place := by
  obtain ⟨found, _, hleft, hright, hshown, -⟩ := hshows.lies
  rcases hgoal with hgoal | hgoal
  · exact hleft.unique hgoal ▸ hshown
  · exact hright.unique hgoal ▸ hshown

namespace Agree

variable (hagree : prospect.Agree alike s d)

include hagree

/-- A steady path that leads to a file leads to the same on either disk. -/
theorem shows_of_isFile (hsteady : prospect.Steady path) (hfile : s.disk.isFile path = .ok true) :
    prospect.Shows path := by
  have hfile : (s.disk.isFile path).toOption = some true := by
    rw [hfile]
    rfl
  obtain ⟨hlooked, goal, content, hgoal, hlies⟩ := Usage.locates_of_isFile hsteady.isAbsolute hfile
  have hleft := hagree.left.locates_iff.mp hgoal
  have hlog := hsteady.not_log_left goal hleft
  have hlies := (hagree.left.elsewhere _ hlog).symm.trans hlies
  obtain ⟨hright, hsame⟩ := hsteady.locates_right hlooked hleft rfl hlies
  exact ⟨hsteady.isAbsolute, Disk.isSpellable_text_iff.mp hlooked.1, goal, content,
    hleft, hright, not_hides hlog (hlies.trans hsame.symm), hlies⟩

section

variable {manifest reached : Path} {names : List Text}
  (halike : prospect.ScansAlike settings manifest)
  (hroot : root ∈ prospect.roots) (hlooked : Disk.IsLookedUp root)
  (hleft : prospect.left.Locates root reached) (hright : prospect.right.Locates root reached)

include halike hroot hlooked hleft hright

/-- A file below a root on the one disk is shown unless it is hidden. -/
theorem shows_iff_left (hnames : names ∈ s.disk.filesBelow settings.skippedDirNames reached.place) :
    prospect.Shows (descend root names) ↔ ¬ prospect.Hides (reached.place ++ names) := by
  obtain ⟨_, _, content, -, -, hlies⟩ := Disk.mem_filesBelow.mp hnames
  have hgoal := (hagree.left.locates_iff.mpr hleft).descend_of_get? hlies rfl
  refine ⟨fun hshows => ?_, fun hshown => hagree.shows_descend (halike.roots root hroot).isAbsolute
    hlooked hleft hright hshown hlies⟩
  rw [← Disk.place_descend reached (Disk.isListed_of_get? hlies)]
  exact hshows.not_hides (.inl (hagree.left.locates_iff.mp hgoal))

/-- So is one on the other disk. -/
theorem shows_iff_right
    (hnames : names ∈ d.disk.filesBelow settings.skippedDirNames reached.place) :
    prospect.Shows (descend root names) ↔ ¬ prospect.Hides (reached.place ++ names) := by
  obtain ⟨_, _, content, -, -, hlies⟩ := Disk.mem_filesBelow.mp hnames
  have hgoal := (hagree.right.locates_iff.mpr hright).descend_of_get? hlies rfl
  refine ⟨fun hshows => ?_, fun hshown => hagree.shows_descend (halike.roots root hroot).isAbsolute
    hlooked hleft hright hshown ((hagree.get?_eq hshown).symm.trans hlies)⟩
  rw [← Disk.place_descend reached (Disk.isListed_of_get? hlies)]
  exact hshows.not_hides (.inr (hagree.right.locates_iff.mp hgoal))

/-- A file on the one disk that is hidden is of no dialect. -/
theorem strays_left (hnames : names ∈ s.disk.filesBelow settings.skippedDirNames reached.place)
    (hhides : prospect.Hides (reached.place ++ names)) :
    prospect.Strays settings prospect.left (descend root names) := by
  have habsolute := (halike.roots root hroot).isAbsolute
  obtain ⟨way, name, content, rfl, hway, hlies⟩ := Disk.mem_filesBelow.mp hnames
  have hplace := Disk.place_descend reached (Disk.isListed_of_get? hlies)
  have hgoal := (hagree.left.locates_iff.mpr hleft).descend_of_get? hlies rfl
  refine ⟨habsolute, Disk.areSpellable_descend hlooked hlies, ?_, _,
    hagree.left.locates_iff.mp hgoal, hplace.symm ▸ hhides⟩
  by_cases hlog : prospect.IsLog (reached.place ++ (way ++ [name]))
  · exact halike.log root hroot reached hleft hright way name hway hlog
  · exact halike.differing root hroot hlooked reached hleft hright way name content hway
      (hhides.resolve_left hlog) (.inl ((hagree.left.elsewhere _ hlog).symm.trans hlies))

/-- So is one on the other disk. -/
theorem strays_right (hnames : names ∈ d.disk.filesBelow settings.skippedDirNames reached.place)
    (hhides : prospect.Hides (reached.place ++ names)) :
    prospect.Strays settings prospect.right (descend root names) := by
  have habsolute := (halike.roots root hroot).isAbsolute
  obtain ⟨way, name, content, rfl, hway, hlies⟩ := Disk.mem_filesBelow.mp hnames
  have hplace := Disk.place_descend reached (Disk.isListed_of_get? hlies)
  have hgoal := (hagree.right.locates_iff.mpr hright).descend_of_get? hlies rfl
  refine ⟨habsolute, Disk.areSpellable_descend hlooked hlies, ?_, _,
    hagree.right.locates_iff.mp hgoal, hplace.symm ▸ hhides⟩
  by_cases hlog : prospect.IsLog (reached.place ++ (way ++ [name]))
  · exact halike.log root hroot reached hleft hright way name hway hlog
  · exact halike.differing root hroot hlooked reached hleft hright way name content hway
      (hhides.resolve_left hlog) (.inr ((hagree.right.elsewhere _ hlog).symm.trans hlies))

/-- The files below a root are listed alike. -/
theorem listsAlike_filesBelow : prospect.ListsAlike settings
    ((s.disk.filesBelow settings.skippedDirNames reached.place).map (descend root))
    ((d.disk.filesBelow settings.skippedDirNames reached.place).map (descend root)) := by
  classical
  have hiff : ∀ names ∈ s.disk.filesBelow settings.skippedDirNames reached.place,
      (prospect.Shows (descend root names) ↔ ¬ prospect.Hides (reached.place ++ names)) :=
    fun _ hnames => hagree.shows_iff_left halike hroot hlooked hleft hright hnames
  have hiff' : ∀ names ∈ d.disk.filesBelow settings.skippedDirNames reached.place,
      (prospect.Shows (descend root names) ↔ ¬ prospect.Hides (reached.place ++ names)) :=
    fun _ hnames => hagree.shows_iff_right halike hroot hlooked hleft hright hnames
  refine ⟨.of_filter ?_, fun path hpath hnot => ?_, fun path hpath hnot => ?_⟩
  · rw [List.filter_map, List.filter_map]
    congr 1
    have hfilter : ∀ {list : List (List Text)}, (∀ names ∈ list,
          (prospect.Shows (descend root names) ↔ ¬ prospect.Hides (reached.place ++ names))) →
        list.filter ((fun path => decide (prospect.Shows path)) ∘ descend root)
          = list.filter fun names => decide (¬ prospect.Hides (reached.place ++ names)) :=
            fun hlist =>
      List.filter_congr fun names hnames => decide_eq_decide.mpr (hlist names hnames)
    rw [hfilter hiff, hfilter hiff']
    exact Disk.filter_filesBelow_eq fun names htest => hagree.get?_eq (of_decide_eq_true htest)
  · obtain ⟨names, hnames, rfl⟩ := List.mem_map.mp hpath
    exact hagree.strays_left halike hroot hlooked hleft hright hnames
      (Classical.not_not.mp ((not_congr (hiff names hnames)).mp hnot))
  · obtain ⟨names, hnames, rfl⟩ := List.mem_map.mp hpath
    exact hagree.strays_right halike hroot hlooked hleft hright hnames
      (Classical.not_not.mp ((not_congr (hiff' names hnames)).mp hnot))

end

end Agree

theorem follows_filesOf {manifest : Path} (halike : prospect.ScansAlike settings manifest)
    (hroot : root ∈ prospect.roots) (hagree : prospect.Agree alike s d) :
    Follows (prospect.Agree alike) (prospect.ListsAlike settings) (Usage.filesOf settings root)
      (Usage.filesOf settings root) s d := by
  have hsteady := halike.roots root hroot
  refine .check_bind (hagree.leadsTo_eq hsteady _) fun isFile hfile => ?_
  cases isFile with
  | true =>
      refine .pure (.refl (List.forall_mem_singleton.mpr ?_)) hagree
      exact hagree.shows_of_isFile hsteady hfile
  | false =>
      have hanswers : Answers (prospect.ListsAlike settings)
          (s.disk.walkFiles root settings.skippedDirNames)
          (d.disk.walkFiles root settings.skippedDirNames) := by
        refine (Disk.openDirectory_of_gist (hagree.gist_reach hsteady)).map
          fun place _ hopen _ hsame => ?_
        subst hsame
        obtain ⟨hlooked, reached, -, hleft, hright, rfl⟩ :=
          hagree.locates_of_openDirectory hsteady hopen
        exact hagree.listsAlike_filesBelow halike hroot hlooked hleft hright
      refine .disk_bind (.refusable_bind hanswers ?_ fun error error' => ?_)
      · exact fun files files' hlists => .pure hlists hagree
      · exact (follows_warn hagree _ _ _ _ _ (by simp)).bind fun _ _ _ _ _ hagree =>
          .pure (.refl (List.forall_mem_nil _)) hagree

/-! ## Single files -/

/-- Two scans under way that have done the same, and met the same but for what can differ. -/
structure Alike (prospect : Prospect) (progress progress' : Progress) : Prop where
  stats : progress'.stats = progress.stats
  seen : ∀ path : Path, ¬ prospect.Hides path.place → (path ∈ progress'.seen ↔ path ∈ progress.seen)

variable {tables : Dialect → List TokenGroup} {progress progress' : Progress}

theorem Alike.see (halike : prospect.Alike progress progress') (path : Path) :
    prospect.Alike { progress with seen := progress.seen ++ [path] }
      { progress' with seen := progress'.seen ++ [path] } where
  stats := halike.stats
  seen other hother := by simp only [List.mem_append, halike.seen other hother]

/-- A shown file is scanned alike. -/
theorem follows_scanFile (hshows : prospect.Shows path) (halike : prospect.Alike progress progress')
    (hagree : prospect.Agree Eq s d) :
    Follows (prospect.Agree Eq) prospect.Alike (Usage.scanFile settings tables progress path)
      (Usage.scanFile settings tables progress' path) s d := by
  obtain ⟨goal, content, ⟨hgoal, hlies⟩, ⟨hgoal', hlies'⟩, hshown⟩ := hagree.locates_of_shows hshows
  refine .resolve_bind fun resolved hresolve => ⟨goal, ?_, ?_⟩
  · exact Disk.resolve_eq_of_locates (.refl _) hshows.isAbsolute hgoal' hagree.spellable
      hshows.areSpellable
  obtain rfl := Disk.eq_of_resolve (.refl _) hshows.isAbsolute hgoal hresolve
  have hseen : progress'.seen.contains resolved = progress.seen.contains resolved := by
    rw [Bool.eq_iff_iff, List.contains_iff_mem, List.contains_iff_mem, halike.seen resolved hshown]
  rw [hseen]
  refine .ite (fun _ => .pure halike hagree) fun _ => ?_
  have hsee := halike.see resolved
  cases hdialect : dialectOf? settings path with
  | none => exact .pure hsee hagree
  | some dialect =>
      refine (Follows.poll hagree.patience fun _ _ h => { hagree with patience := h }).bind
        fun _ _ s d _ hagree => .disk_bind ?_
      refine .refusable_bind (.of_eq (hagree.read_eq hshows).symm) ?_ fun error error' => ?_
      · rintro bytes _ rfl
        have hcount : Follows (prospect.Agree Eq) Eq
            (Usage.countLines dialect (tables dialect) (Index.searchedLines bytes) progress.stats)
            (Usage.countLines dialect (tables dialect) (Index.searchedLines bytes) progress'.stats)
            s d := by
          rw [halike.stats]
          refine .get_bind ?_
          rw [← hagree.catalog]
          exact .modify_bind (.pure rfl { hagree with catalog := rfl })
        refine hcount.bind ?_
        rintro stats _ s d rfl hagree
        exact .pure ⟨rfl, hsee.seen⟩ hagree
      · refine (follows_warn hagree _ _ _ _ _ (by simp)).bind fun _ _ _ _ _ hagree =>
          .pure ⟨?_, hsee.seen⟩ hagree
        simp only [halike.stats]

/-- A file of no dialect that is there on the one disk only makes no difference. -/
theorem scanFile_left (hstrays : prospect.Strays settings prospect.left path)
    (halike : prospect.Alike progress progress') (hagree : prospect.Agree Eq s d) :
    Follows (prospect.Agree Eq) prospect.Alike (Usage.scanFile settings tables progress path)
      (Pure.pure progress') s d := by
  obtain ⟨goal, hgoal, hhides⟩ := hstrays.hides
  refine .bind_left fun resolved t hresolve => ?_
  obtain ⟨hresolve, rfl⟩ := Task.runs_resolve.mp hresolve
  obtain rfl :=
    Disk.eq_of_resolve (.refl _) hstrays.isAbsolute (hagree.left.locates_iff.mpr hgoal) hresolve
  simp only [hstrays.dialect]
  split
  · exact .pure halike hagree
  · refine .pure ⟨halike.stats, fun other hother => ?_⟩ hagree
    have hne : other ≠ resolved := fun heq => hother (heq ▸ hhides)
    simp [halike.seen other hother, hne]

/-- One that is there on the other disk only makes no difference, either. -/
theorem scanFile_right (hstrays : prospect.Strays settings prospect.right path)
    (halike : prospect.Alike progress progress') (hagree : prospect.Agree Eq s d) :
    Follows (prospect.Agree Eq) prospect.Alike (Pure.pure progress)
      (Usage.scanFile settings tables progress' path) s d := by
  obtain ⟨goal, hgoal, hhides⟩ := hstrays.hides
  have hresolve := Disk.resolve_eq_of_locates (.refl _) hstrays.isAbsolute
    (hagree.right.locates_iff.mpr hgoal) hagree.spellable hstrays.areSpellable
  refine .bind_right ⟨goal, d, Task.runs_resolve.mpr ⟨hresolve, rfl⟩, ?_⟩
  simp only [hstrays.dialect]
  split
  · exact .pure halike hagree
  · refine .pure ⟨halike.stats, fun other hother => ?_⟩ hagree
    have hne : other ≠ goal := fun heq => hother (heq ▸ hhides)
    simp [halike.seen other hother, hne]

theorem follows_scanFiles {files files' : List Path}
    (hlists : prospect.ListsAlike settings files files')
    (halike : prospect.Alike progress progress') (hagree : prospect.Agree Eq s d) :
    Follows (prospect.Agree Eq) prospect.Alike
      (files.foldlM (Usage.scanFile settings tables) progress)
      (files'.foldlM (Usage.scanFile settings tables) progress') s d := by
  refine .foldlM_paired hlists.paired ?_ ?_ ?_ halike hagree
  · exact fun path _ _ hshows {_ _ _ _} halike hagree => follows_scanFile hshows halike hagree
  · exact fun path hpath hnot {_ _ _ _} halike hagree =>
      scanFile_left (hlists.left path hpath hnot) halike hagree
  · exact fun path hpath hnot {_ _ _ _} halike hagree =>
      scanFile_right (hlists.right path hpath hnot) halike hagree

/-! ## Scans -/

theorem follows_manifestFiles {manifest : Path} (hsteady : prospect.Steady manifest)
    (hagree : prospect.Agree alike s d) :
    Follows (prospect.Agree alike) (prospect.ListsAlike settings)
      (Usage.manifestFiles (some manifest))
      (Usage.manifestFiles (some manifest)) s d := by
  refine .check_bind (hagree.leadsTo_eq hsteady _) fun isFile hfile => ?_
  cases isFile with
  | true =>
      refine .pure (.refl (List.forall_mem_singleton.mpr ?_)) hagree
      exact hagree.shows_of_isFile hsteady hfile
  | false =>
      exact (follows_warn hagree _ _ _ _ _ (by simp)).bind fun _ _ _ _ _ hagree =>
        .pure (.refl (List.forall_mem_nil _)) hagree

/-- A scan does the same on either disk. -/
theorem follows_scan {manifest : Path} {roots : List Path}
    (halike : prospect.ScansAlike settings manifest) (hroots : roots ⊆ prospect.roots)
    (hagree : prospect.Agree Eq s d) :
    Follows (prospect.Agree Eq) Eq (Usage.scan settings roots (some manifest))
      (Usage.scan settings roots (some manifest)) s d := by
  refine .get_bind ?_
  rw [hagree.catalog]
  have hmanifest : Follows (prospect.Agree Eq) (prospect.ListsAlike settings)
      (Usage.manifestFiles (some manifest)) (Usage.manifestFiles (some manifest)) s d :=
    follows_manifestFiles halike.manifest hagree
  refine hmanifest.bind fun files files' s d hlists hagree => ?_
  have hstart : prospect.Alike .start .start := ⟨rfl, fun _ _ => Iff.rfl⟩
  refine (follows_scanFiles hlists hstart hagree).bind fun first first' s d hfirst hagree => ?_
  refine (Follows.foldlM (fun root hroot progress progress' s d hprogress hagree => ?_) hfirst
    hagree).bind fun progress progress' s d hprogress hagree => .pure hprogress.stats.symm hagree
  exact (follows_filesOf halike (hroots hroot) hagree).bind fun files files' s d hlists =>
    follows_scanFiles hlists hprogress

/-! ## Roots -/

/-- The same roots are found to exist. -/
theorem follows_existingRoots {list : List Path} (hsteady : ∀ root ∈ list, prospect.Steady root)
    (hagree : prospect.Agree alike s d) :
    Follows (prospect.Agree alike) Eq (Run.existingRoots list) (Run.existingRoots list) s d := by
  refine .filterM (fun root hmem s d hagree => ?_) hagree
  refine .check_bind (hagree.leadsTo_eq (hsteady root hmem) _) fun isPresent _ => ?_
  cases isPresent with
  | true => exact .pure rfl hagree
  | false =>
      exact (follows_warn hagree _ _ _ _ _ (by simp)).bind fun _ _ _ _ _ hagree => .pure rfl hagree

/-- The same roots are searched if neither session has determined them yet. -/
theorem follows_searchRoots {config : Config}
    (hsteady : ∀ root ∈ config.extraRoots, prospect.Steady root)
    (hleft : s.roots = none) (hright : d.roots = none) (hagree : prospect.Agree alike s d) :
    Follows (prospect.Agree alike) Eq (Run.searchRoots config) (Run.searchRoots config) s d := by
  refine .get_bind ?_
  rw [hleft, hright]
  refine (follows_existingRoots hsteady hagree).bind ?_
  rintro found _ s d rfl hagree
  exact .modify_bind (.pure rfl { hagree with })

/-- The roots that are there on the other disk are found to exist. -/
theorem exists_existingRoots {list : List Path} {isThere : Path → Bool}
    (hsteady : ∀ root ∈ list, prospect.Steady root)
    (hthere : ∀ root ∈ list, prospect.right.isPresent root = .ok (isThere root))
    (hagree : prospect.Agree alike s d) : ∃ d',
    Runs (Run.existingRoots list) d (list.filter isThere) d'
      ∧ prospect.Agree alike s d' := by
  have haux : ∀ found {d}, prospect.Agree alike s d → ∃ d', Runs (list.filterAuxM (fun root => do
        if ← Task.check (·.isPresent root) then
          return true
        Task.warn "scan_skip" "MISSING_ROOT"
          ("Extra search root " ++ root.text ++ " does not exist; skipped.") [("path", .path root)]
        return false) found) d ((list.filter isThere).reverse ++ found) d'
      ∧ prospect.Agree alike s d' := by
    induction list with
    | nil => exact fun found d hagree => ⟨d, Task.runs_pure.mpr ⟨rfl, rfl⟩, hagree⟩
    | cons root rest ih =>
        intro found d hagree
        obtain ⟨hroot, hrest⟩ := List.forall_mem_cons.mp hsteady
        obtain ⟨hpresent, hthere⟩ := List.forall_mem_cons.mp hthere
        have hlook : d.disk.isPresent root = .ok (isThere root) := by
          rw [← hpresent]
          exact Disk.leadsTo_eq_of_gist (Disk.gist_reach_of_writtenAt hagree.right hroot.isAbsolute
            hroot.not_log_right) _
        cases htest : isThere root with
        | true =>
            obtain ⟨d', hruns, hagree'⟩ := ih hrest hthere (root :: found) hagree
            refine ⟨d', Task.runs_bind.mpr ⟨true, d, Task.runs_check_bind.mpr
              ⟨true, htest ▸ hlook, Task.runs_pure.mpr ⟨rfl, rfl⟩⟩, ?_⟩, hagree'⟩
            simpa [htest] using hruns
        | false =>
            have hdata : Datum.AreShallow [("path", .path root)] := by simp
            obtain ⟨d₁, hwarn, hagree₁⟩ := exists_warn hagree "scan_skip" "MISSING_ROOT"
              ("Extra search root " ++ root.text ++ " does not exist; skipped.") hdata
            obtain ⟨d', hruns, hagree'⟩ := ih hrest hthere found hagree₁
            refine ⟨d',
              Task.runs_bind.mpr ⟨false, d₁, Task.runs_check_bind.mpr ⟨false, htest ▸ hlook,
              Task.runs_bind.mpr ⟨(), d₁, hwarn, Task.runs_pure.mpr ⟨rfl, rfl⟩⟩⟩, ?_⟩, hagree'⟩
            simpa [htest] using hruns
  obtain ⟨d', hruns, hagree'⟩ := haux [] hagree
  refine ⟨d', Task.runs_bind.mpr ⟨_, d', hruns, Task.runs_pure.mpr ⟨?_, rfl⟩⟩, hagree'⟩
  simp

/-- So the project root and these are searched if no roots have been determined yet. -/
theorem exists_searchRoots {config : Config} {isThere : Path → Bool}
    (hsteady : ∀ root ∈ config.extraRoots, prospect.Steady root)
    (hthere : ∀ root ∈ config.extraRoots, prospect.right.isPresent root = .ok (isThere root))
    (hnone : d.roots = none) (hagree : prospect.Agree alike s d) :
    ∃ d', Runs (Run.searchRoots config) d
    (config.projectRoot :: config.extraRoots.filter isThere) d'
      ∧ prospect.Agree alike s d' := by
  obtain ⟨d', hruns, hagree'⟩ := exists_existingRoots hsteady hthere hagree
  refine ⟨{ d' with roots := some (config.projectRoot :: config.extraRoots.filter isThere) },
    Task.runs_get_bind.mpr ?_, { hagree' with }⟩
  rw [hnone]
  exact Task.runs_bind.mpr ⟨_, d', hruns, Task.runs_bind.mpr ⟨(), _, Task.runs_modify.mpr rfl,
    Task.runs_pure.mpr ⟨rfl, rfl⟩⟩⟩

end ResourcePruner.Prospect
