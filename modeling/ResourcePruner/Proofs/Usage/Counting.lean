import ResourcePruner.Proofs.Frame
import ResourcePruner.Proofs.Usage.Tour

/-!
# What a scan counts

The events that a scan records change the log while it goes on, so that its files are listed and
read on several disks. A resource is used after a scan if a file that is not hidden is searched and
has a line that references it (`Usage.isUsed_of_searches`), and a resource that is used owes it to a
searched file (`Usage.searches_of_isUsed`).
-/

namespace ResourcePruner

open Disk (Extends Same IsChange)
open ResourcePruner.Task (Runs Steps IsLogged IsCounted)

instance {scene : Scene} {gone : Place → Prop} {change : Place → Bytes → Bytes → Prop}
    [IsChange change] : IsCounted (Frames scene gone change) where
  catalog _ _ _ := Frames.of_disk rfl rfl fun _ h => h
  roots s roots hnone := Frames.of_disk rfl rfl fun found h => by
    rw [hnone] at h
    cases h
  patience _ _ := Frames.of_disk rfl rfl fun _ h => h

namespace Catalog.Raises

variable {added : Resource → Nat} {catalog other : Catalog}

theorem isUsed_iff (hraises : Raises added catalog other) {r : Resource} :
    other.IsUsed r ↔ catalog.IsUsed r ∨ catalog.contains r = true ∧ 0 < added r := by
  rw [Catalog.IsUsed, hraises r, Catalog.IsUsed, Catalog.contains]
  cases catalog.get? r with
  | none => simp
  | some record =>
      simp only [Option.map_some, Option.some.injEq, exists_eq_left', Record.isUsed,
        decide_eq_true_eq, Option.isSome_some, true_and]
      omega

end Catalog.Raises

namespace Usage

/-! ## Visits that are searched -/

theorem mentions_pos_iff {settings : ScanSettings} {visit : Visit} {r : Resource} :
    0 < visit.mentions settings r ↔ ∃ dialect bytes line,
      dialectOf? settings visit.path = some dialect ∧ visit.disk.read visit.path = .ok bytes
        ∧ line ∈ Index.searchedLines bytes ∧ Reference.refers dialect line r = true := by
  rw [Visit.mentions, Visit.search?]
  cases dialectOf? settings visit.path with
  | none => simp
  | some dialect =>
      cases visit.disk.read visit.path with
      | error error => simp
      | ok bytes => simp [Reference.refers_iff]

theorem mentionsOn_pos_iff {settings : ScanSettings} {met : List Path} {visits : List Visit}
    {r : Resource} : 0 < mentionsOn settings met visits r ↔
      ∃ visit ∈ firstVisits met visits, 0 < visit.mentions settings r := by
  rw [mentionsOn]
  induction firstVisits met visits with
  | nil => simp
  | cons visit rest ih =>
      rw [List.map_cons, List.sum_cons, Nat.add_pos_iff_pos_or_pos, ih]
      simp

/-- If visits resolve to where their paths lead, the first path that leads there is searched. -/
theorem firstTo_iff_firstVisits {leads : Path → Path → Prop} {visits : List Visit} {met : List Path}
    {goal path : Path}
    (hleads : ∀ visit ∈ visits, ∀ goal, leads visit.path goal ↔ visit.resolved = goal)
    (hmet : goal ∉ met) : FirstTo (leads · goal) (visits.map Visit.path) path ↔
      ∃ visit ∈ firstVisits met visits, visit.path = path ∧ visit.resolved = goal := by
  induction visits generalizing met with
  | nil =>
      constructor
      · intro hfirst
        cases hfirst
      · rintro ⟨visit, hvisit, -⟩
        cases hvisit
  | cons visit rest ih =>
      obtain ⟨hvisit, hrest⟩ := List.forall_mem_cons.mp hleads
      rw [List.map_cons, firstVisits]
      by_cases hgoal : visit.resolved = goal
      · rw [if_neg (hgoal ▸ hmet)]
        constructor
        · intro hfirst
          cases hfirst with
          | here _ => exact ⟨visit, List.mem_cons_self, rfl, hgoal⟩
          | later hnot _ => exact absurd ((hvisit goal).mpr hgoal) hnot
        · rintro ⟨other, hother, rfl, hresolved⟩
          rcases List.mem_cons.mp hother with rfl | hlater
          · exact .here ((hvisit goal).mpr hgoal)
          · have hnot := (mem_firstVisits_of_mem hlater).2
            rw [hresolved, hgoal] at hnot
            exact absurd (List.mem_append_right _ (List.mem_singleton_self goal)) hnot
      · have hlater : FirstTo (leads · goal) (visit.path :: rest.map Visit.path) path ↔
            FirstTo (leads · goal) (rest.map Visit.path) path := by
          have hnot : ¬ leads visit.path goal := fun h => hgoal ((hvisit goal).mp h)
          refine ⟨fun h => ?_, .later hnot⟩
          cases h with
          | here h => exact absurd h hnot
          | later _ h => exact h
        rw [hlater]
        split
        · exact ih hrest hmet
        · have hmet' : goal ∉ met ++ [visit.resolved] := by
            simp [hmet, Ne.symm hgoal]
          rw [ih hrest hmet']
          constructor
          · rintro ⟨other, hother, h⟩
            exact ⟨other, List.mem_cons_of_mem _ hother, h⟩
          · rintro ⟨other, hother, hpath, hresolved⟩
            rcases List.mem_cons.mp hother with rfl | hother
            · exact absurd hresolved hgoal
            · exact ⟨other, hother, hpath, hresolved⟩

/-! ## Searched files and used resources -/

section

variable {scene : Scene} {settings : ScanSettings} {manifest : Path} {roots : List Path}
  {stats : ScanStats} {s s' : Session} {r : Resource}

/-- A session between two others, on the way between which no file changes. -/
structure During (scene : Scene) (start finish t : Session) : Prop where
  front : Frame scene Nowhere Same start t
  back : Frame scene Nowhere Same t finish

theorem during_of_passes (hhas : scene.Has s) {disk : Disk}
    (hpasses : Passes (Frames scene Nowhere Same) s s' disk) :
    ∃ t, During scene s s' t ∧ t.disk = disk := by
  obtain ⟨t, hst, hts', rfl⟩ := hpasses
  exact ⟨t, ⟨hst hhas, hts' (hst hhas).has⟩, rfl⟩

/-- What a scan has found used, it has found on the first visits, which resolve to where their paths
lead. -/
theorem exists_visits (hhas : scene.Has s) (hlast : Extends s'.disk scene.last)
    (hmanifest : manifest.isAbsolute = true) (hroots : ∀ root ∈ roots, root.isAbsolute = true)
    (hruns : Runs (scan settings roots (some manifest)) s stats s') :
    ∃ visits : List Visit,
      Lists settings (fun disk => ∃ t, During scene s s' t ∧ t.disk = disk) manifest roots
        (visits.map Visit.path)
      ∧ (∀ visit ∈ visits, ∃ t, During scene s s' t ∧ t.disk = visit.disk)
      ∧ (∀ visit ∈ visits, ∀ goal, scene.last.Locates visit.path goal ↔ visit.resolved = goal)
      ∧ ∀ r, s'.catalog.IsUsed r ↔ s.catalog.IsUsed r ∨ s.catalog.contains r = true
        ∧ ∃ visit ∈ firstVisits [] visits, 0 < visit.mentions settings r := by
  obtain ⟨visits, rest, next, hpaths, hlists, htour⟩ :=
    exists_tour (Frames scene Nowhere Same) hruns
  have hduring := fun visit hvisit => during_of_passes hhas (htour.during visit hvisit)
  have hself : ∃ t, During scene s s' t ∧ t.disk = s.disk :=
    ⟨s, ⟨.refl hhas, .of_steps hhas hruns (steps_scan _ _ _)⟩, rfl⟩
  have hlisted :
      Lists settings (fun disk => ∃ t, During scene s s' t ∧ t.disk = disk) manifest roots
      (visits.map Visit.path) := by
    rw [hpaths]
    exact .intro hself (hlists.mono fun disk => during_of_passes hhas)
  refine ⟨visits, hlisted, hduring, ?_, fun r => ?_⟩
  · intro visit hvisit
    obtain ⟨_, ⟨u, hu, rfl⟩, hmem⟩ := hlisted.exists_mem_visits (List.mem_map_of_mem hvisit)
    obtain ⟨habsolute, found, -, hfound, -⟩ := locates_of_mem_visits hmanifest hroots hmem
    have hthere := hfound.mono (hu.back.stays.trans hlast)
    obtain ⟨t, ht, hdisk⟩ := hduring visit hvisit
    obtain heq := Disk.eq_of_resolve (ht.back.stays.trans hlast) habsolute hthere
      (hdisk ▸ htour.resolves visit hvisit)
    intro goal
    rw [heq]
    exact ⟨fun h => hthere.unique h, fun h => h ▸ hthere⟩
  · rw [htour.raises.isUsed_iff, mentionsOn_pos_iff]
    rfl

/-- No line is searched that was not there before. -/
def Shrinks (_place : Place) (before after : Bytes) : Prop :=
  Index.searchedLines after ⊆ Index.searchedLines before

instance : IsChange Shrinks where
  refl _ _ := fun _ => id
  trans hfirst hsecond := fun _ hline => hfirst (hsecond hline)

/-- A known resource is used after a scan if a line references it that a later scan searches. -/
theorem isUsed_of_searches (hhas : scene.Has s) (hlast : Extends s'.disk scene.last)
    (hknown : Known s.disk manifest roots)
    (hruns : Runs (scan settings roots (some manifest)) s stats s')
    (hevolves : Disk.Evolves scene.hidden Anywhere Shrinks s'.disk scene.last) {goal : Path}
    (hshown : ¬ scene.hidden goal.place) {dialect : Dialect} {content : Bytes}
    (hsearches : Searches settings scene.last manifest roots goal dialect content) {line : Text}
    (hline : line ∈ Index.searchedLines content) (hrefers : Reference.refers dialect line r = true)
    (hcontains : s.catalog.contains r = true) : s'.catalog.IsUsed r := by
  obtain ⟨path, hfirst, hdialect, hread⟩ := hsearches
  obtain ⟨hmem, hgoal⟩ := hfirst.mem
  have hframe : Frame scene Nowhere Same s s' := .of_steps hhas hruns (steps_scan _ _ _)
  have hmore := hframe.stays.trans hlast
  obtain ⟨habsolute, -⟩ :=
    locates_of_mem_visits hknown.isAbsolute_manifest hknown.isAbsolute_roots hmem
  obtain ⟨hlooked, found, hfound, hlies⟩ := Disk.locates_of_read habsolute hread
  obtain rfl := hfound.unique hgoal
  obtain ⟨old, hold, hshrinks⟩ := hevolves.back found.place content hshown hlies
  -- The file is there all through the scan, so that it is come to by the same path.
  have hthere : ∀ t, During scene s s' t → t.disk.get? found.place = some (.file old) :=
    fun t ht => (ht.back.get?_file_iff hlast hshown).mp hold
  obtain ⟨visits, hlists, hduring, hleads, hused⟩ := exists_visits hhas hlast
    hknown.isAbsolute_manifest hknown.isAbsolute_roots hruns
  have hsame : ∀ path, FirstTo (scene.last.Locates · found) (visits.map Visit.path) path ↔
      FirstTo (scene.last.Locates · found) (Usage.visits settings scene.last manifest roots)
        path := by
    refine hlists.firstTo_iff (lists_visits settings (· = scene.last) rfl manifest roots)
      hknown ?_ ?_
    · rintro _ ⟨t, ht, rfl⟩
      exact ⟨ht.front.stays, ht.back.stays.trans hlast, old, hthere t ht⟩
    · rintro _ rfl
      exact ⟨hmore, .refl _, content, hlies⟩
  obtain ⟨visit, hvisit, rfl, -⟩ :=
    (firstTo_iff_firstVisits hleads List.not_mem_nil).mp ((hsame path).mpr hfirst)
  obtain ⟨t, ht, hdisk⟩ := hduring visit (mem_firstVisits_of_mem hvisit).1
  refine (hused r).mpr (.inr ⟨hcontains, visit, hvisit, mentions_pos_iff.mpr
    ⟨dialect, old, line, hdialect, ?_, hshrinks hline, hrefers⟩⟩)
  rw [← hdisk]
  exact Disk.read_of_locates habsolute hlooked
    (locates_of_visits hknown hmore hmem hgoal ht.front.stays (hthere t ht)) (hthere t ht)

/-- A resource that a scan has found used is referenced by a line that it searches, if it reaches
nothing that is hidden. -/
theorem searches_of_isUsed (hhas : scene.Has s) (hlast : s'.disk = scene.last)
    (hknown : Known s.disk manifest roots)
    (hruns : Runs (scan settings roots (some manifest)) s stats s')
    (hshown : ∀ place, Reaches settings s'.disk manifest roots place → ¬ scene.hidden place)
    (hused : s'.catalog.IsUsed r) (hnot : ¬ s.catalog.IsUsed r) :
    s.catalog.contains r = true ∧ ∃ goal dialect content, ¬ scene.hidden goal.place
      ∧ Searches settings s'.disk manifest roots goal dialect content
      ∧ ∃ line ∈ Index.searchedLines content, Reference.refers dialect line r = true := by
  have hextends : Extends s'.disk scene.last := hlast ▸ .refl _
  have hframe : Frame scene Nowhere Same s s' := .of_steps hhas hruns (steps_scan _ _ _)
  obtain ⟨visits, hlists, hduring, hleads, hfound⟩ := exists_visits hhas hextends
    hknown.isAbsolute_manifest hknown.isAbsolute_roots hruns
  obtain ⟨hcontains, visit, hvisit, hmentions⟩ := ((hfound r).mp hused).resolve_left hnot
  obtain ⟨dialect, content, line, hdialect, hread, hline, hrefers⟩ := mentions_pos_iff.mp hmentions
  have hmem := (mem_firstVisits_of_mem hvisit).1
  obtain ⟨t, ht, hdisk⟩ := hduring visit hmem
  have hgoal := (hleads visit hmem _).mpr rfl
  have hfirst := (firstTo_iff_firstVisits hleads List.not_mem_nil).mpr ⟨visit, hvisit, rfl, rfl⟩
  rw [← hlast] at hfirst hgoal
  -- The path that was read is visited on the last disk as well, so that the file is not hidden.
  obtain ⟨_, ⟨u, hu, rfl⟩, hvisits⟩ := hlists.exists_mem_visits (List.mem_map_of_mem hmem)
  obtain ⟨habsolute, found, old, hfound, hold⟩ :=
    locates_of_mem_visits hknown.isAbsolute_manifest hknown.isAbsolute_roots hvisits
  obtain heq := (hfound.mono hu.back.stays).unique hgoal
  rw [← heq] at hfirst hgoal
  obtain ⟨now, hnow⟩ := (hu.back.evolves hextends).forth found.place old (not_nowhere _) hold
  have hvisits' := mem_visits_mono (hknown.mono hu.front.stays) hu.back.stays hvisits hfound hnow
  have hshown' : ¬ scene.hidden found.place :=
    hshown _ ⟨visit.path, hvisits', found, hgoal, rfl, by rw [hdialect]; rfl⟩
  have hthere : ∀ t, During scene s s' t → t.disk.get? found.place = some (.file now) :=
    fun t ht => (ht.back.get?_file_iff hextends hshown').mp hnow
  have hsame : ∀ path, FirstTo (s'.disk.Locates · found) (visits.map Visit.path) path ↔
      FirstTo (s'.disk.Locates · found) (Usage.visits settings s'.disk manifest roots) path := by
    refine hlists.firstTo_iff (lists_visits settings (· = s'.disk) rfl manifest roots) hknown ?_ ?_
    · rintro _ ⟨t, ht, rfl⟩
      exact ⟨ht.front.stays, ht.back.stays, now, hthere t ht⟩
    · rintro _ rfl
      exact ⟨hframe.stays, .refl _, now, hnow⟩
  rw [← hdisk] at hread
  obtain ⟨hlooked, found', hfound', hlies⟩ := Disk.locates_of_read habsolute hread
  obtain rfl := (hfound'.mono ht.back.stays).unique hgoal
  obtain rfl : content = now := by
    have heq := hlies.symm.trans (hthere t ht)
    cases heq
    rfl
  exact ⟨hcontains, found', dialect, content, hshown', ⟨visit.path, (hsame _).mp hfirst, hdialect,
    Disk.read_of_locates habsolute hlooked hgoal hnow⟩, line, hline, hrefers⟩

end

end Usage

end ResourcePruner
