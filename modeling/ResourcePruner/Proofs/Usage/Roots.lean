import Mathlib.Data.List.Nodup
import ResourcePruner.Proofs.Run.Interruption
import ResourcePruner.Proofs.Usage.Coverage

/-!
# Roots in any order

Of the paths that resolve to the same file a scan searches the first only, so that the order of the
roots decides by which path a file is searched. It makes no difference to what is counted
(`Usage.scan_same_roots`): whatever path below whatever root leads to a file ends in the file's own
name (`Usage.Found.dialect_eq`), is found again whenever the root is listed (`Usage.Found.mem`), and
what is read by it is the same (`Usage.search?_eq_of_resolved`). So two scans search the same files,
though not in the same order (`Usage.searchesOn_perm`). The log must not be among them, since it is
longer by the events that were recorded before it is read; and a path may be too long to be opened
where another one is not.
-/

namespace ResourcePruner

open Session (Recorded)
open ResourcePruner.Task (Runs Finishes Steps)

/-- The records have the files that they had. -/
def KeepsFiles (s s' : Session) : Prop :=
  s.catalog.SameFiles s'.catalog

instance : Task.IsCounted KeepsFiles where
  refl s := .refl s.catalog
  trans hfirst hsecond := hfirst.trans hsecond
  trail s _ _ := .refl s.catalog
  append s _ _ _ _ _ := .refl s.catalog
  catalog _ _ hsame := hsame
  roots s _ _ := .refl s.catalog
  patience s _ := .refl s.catalog

/-- The disk is that of a session that has only recorded. -/
def Session.Along (s : Session) (disk : Disk) : Prop :=
  ∃ t, Recorded s t ∧ t.disk = disk

/-- What is picked from two lists is the same up to the order if the items from which something is
picked have the same keys, and what is picked depends on the key. -/
theorem filterMap_perm_of_keys {α β γ : Type} {key : α → β} {pick : α → Option γ}
    {list other : List α}
    (hnodup : (list.map key).Nodup) (hnodup' : (other.map key).Nodup)
    (hthere : ∀ a ∈ list, pick a ≠ none → ∃ b ∈ other, key b = key a)
    (hback : ∀ b ∈ other, pick b ≠ none → ∃ a ∈ list, key a = key b)
    (hsame : ∀ a ∈ list, ∀ b ∈ other, key b = key a → pick b = pick a) :
    (list.filterMap pick).Perm (other.filterMap pick) := by
  -- Each item that is picked is told apart by its key.
  let keyed (a : α) : Option (β × γ) := (pick a).map (key a, ·)
  have hsnd : ∀ list : List α, list.filterMap pick = (list.filterMap keyed).map Prod.snd := by
    intro list
    rw [List.map_filterMap]
    refine List.filterMap_congr fun a _ => ?_
    simp [keyed, Option.map_map, Function.comp_def]
  have hkeyed : ∀ {list : List α}, (list.map key).Nodup → (list.filterMap keyed).Nodup := by
    intro list hlist
    refine List.Pairwise.filterMap keyed ?_ (List.pairwise_map.mp hlist)
    rintro a b hne p hp q hq rfl
    obtain ⟨c, -, rfl⟩ := Option.map_eq_some_iff.mp hp
    obtain ⟨d, -, heq⟩ := Option.map_eq_some_iff.mp hq
    exact hne (congrArg Prod.fst heq).symm
  have hmem : ∀ {list : List α} {p : β × γ}, p ∈ list.filterMap keyed ↔
      ∃ a ∈ list, key a = p.1 ∧ pick a = some p.2 := by
    rintro list ⟨b, c⟩
    rw [List.mem_filterMap]
    refine exists_congr fun a => and_congr_right fun _ => ?_
    rw [Option.map_eq_some_iff]
    constructor
    · rintro ⟨d, hpick, heq⟩
      cases heq
      exact ⟨rfl, hpick⟩
    · rintro ⟨rfl, hpick⟩
      exact ⟨c, hpick, rfl⟩
  rw [hsnd list, hsnd other]
  refine List.Perm.map _
    ((List.perm_ext_iff_of_nodup (hkeyed hnodup) (hkeyed hnodup')).mpr fun p => ?_)
  rw [hmem, hmem]
  constructor
  · rintro ⟨a, ha, hkey, hpick⟩
    obtain ⟨b, hb, hkey'⟩ := hthere a ha (by simp [hpick])
    exact ⟨b, hb, hkey'.trans hkey, (hsame a ha b hb hkey').trans hpick⟩
  · rintro ⟨b, hb, hkey, hpick⟩
    obtain ⟨a, ha, hkey'⟩ := hback b hb (by simp [hpick])
    exact ⟨a, ha, hkey'.trans hkey, (hsame a ha b hb hkey'.symm).symm.trans hpick⟩

namespace Usage

open Disk (descend IsLookedUp)

/-! ## Searchable roots -/

/-- What is found below the roots is searched alike by whatever path it is found. -/
structure IsSearchable (settings : ScanSettings) (s : Session) (roots : List Path) : Prop where
  starts : ∀ path, s.disk.StartsInDirectory path
  links : s.disk.HasSpellableLinks
  /-- No root that is a file is a link. -/
  unlinked : ∀ root ∈ roots, s.disk.isFile root = .ok true → s.disk.isLink root = false
  /-- A file of a dialect that can be opened by one path by which it is found can be by any
  other. -/
  opened : ∀ root ∈ roots, ∀ path ∈ filesOn settings s.disk root, ∀ root' ∈ roots,
    ∀ other ∈ filesOn settings s.disk root', ∀ goal, s.disk.Attains path goal →
      s.disk.Attains other goal →
    dialectOf? settings path ≠ none → IsLookedUp path → IsLookedUp other
  /-- The log is not searched. -/
  unlogged : ∀ root ∈ roots, ∀ reached, s.disk.Attains root reached → ∀ path goal,
    Finds settings root reached path goal → dialectOf? settings path ≠ none → ¬ s.LogsAt goal.place

theorem IsSearchable.congr {settings : ScanSettings} {s : Session} {roots roots' : List Path}
    (hsearchable : IsSearchable settings s roots) (hroots : ∀ root, root ∈ roots' → root ∈ roots) :
    IsSearchable settings s roots' where
  starts := hsearchable.starts
  links := hsearchable.links
  unlinked root hroot := hsearchable.unlinked root (hroots root hroot)
  opened root hroot path hpath root' hroot' :=
    hsearchable.opened root (hroots root hroot) path hpath root' (hroots root' hroot')
  unlogged root hroot := hsearchable.unlogged root (hroots root hroot)

/-- A walk below one of the roots comes to the goal by the path. -/
structure Found (settings : ScanSettings) (s : Session) (roots : List Path) (path goal : Path) :
    Prop where
  finds : ∃ root ∈ roots, ∃ reached, s.disk.Attains root reached ∧ IsLookedUp root
    ∧ Finds settings root reached path goal
  attains : s.disk.Attains path goal
  areSpellable : Disk.AreSpellable path.parts

section

variable {settings : ScanSettings} {s t u : Session} {roots roots' : List Path}
  {root path other goal : Path}
  {content : Bytes}

/-- What a root stands for in a session that has only recorded is found from there. -/
theorem exists_found (hstarts : ∀ path, s.disk.StartsInDirectory path) (ht : Recorded s t)
    (hroot : root ∈ roots) (hmem : path ∈ filesOn settings t.disk root) :
    ∃ goal content, Found settings s roots path goal
      ∧ t.disk.get? goal.place = some (.file content) := by
  obtain ⟨reached, goal, content, hreached, hgoal, hlooked, hfinds, hlies⟩ :=
    exists_finds_of_mem_filesOn (ht.startsInDirectory hstarts root) hmem
  refine ⟨goal, content,
    ⟨⟨root, hroot, reached, (ht.attains_iff hstarts).mp hreached, hlooked, hfinds⟩,
    (ht.attains_iff hstarts).mp hgoal, ?_⟩, hlies⟩
  rcases hfinds with ⟨rfl, -⟩ | ⟨way, name, -, hlisted, rfl, rfl⟩
  · exact Disk.isSpellable_text_iff.mp hlooked.1
  · rw [Disk.place_descend _ hlisted] at hlies
    exact Disk.areSpellable_descend hlooked hlies

namespace Found

variable (hfound : Found settings s roots path goal) (hsearchable : IsSearchable settings s roots)

include hfound

/-- What has been found below a root is found again as long as it is there. -/
theorem mem (hstarts : ∀ path, s.disk.StartsInDirectory path) : ∃ root ∈ roots, ∀ t content,
    Recorded s t → t.disk.get? goal.place = some (.file content) →
      path ∈ filesOn settings t.disk root := by
  obtain ⟨root, hroot, reached, hreached, hlooked, hfinds⟩ := hfound.finds
  exact ⟨root, hroot, fun t content ht hlies =>
    (mem_filesOn_of_finds hlooked ((ht.attains_iff hstarts).mpr hreached) hfinds hlies).1⟩

theorem congr (hroots : ∀ root, root ∈ roots → root ∈ roots') :
    Found settings s roots' path goal where
  finds := hfound.finds.imp fun root h => ⟨hroots root h.1, h.2⟩
  attains := hfound.attains
  areSpellable := hfound.areSpellable

include hsearchable

/-- A path by which a file is found ends in the file's own name, but for the extension at least. -/
theorem dialect_eq (hlies : s.disk.get? goal.place = some (.file content)) :
    dialectOf? settings path = dialectOf? settings goal := by
  obtain ⟨root, hroot, reached, hreached, hlooked, hfinds⟩ := hfound.finds
  rcases hfinds with ⟨rfl, rfl⟩ | ⟨way, name, -, -, rfl, rfl⟩
  · have hfile := isFile_of_attains hlooked hreached hlies
    have hunlinked := hsearchable.unlinked path hroot (by
      cases hisFile : s.disk.isFile path with
      | ok answer => rw [hisFile] at hfile; exact congrArg Except.ok (Option.some.inj hfile)
      | error error => rw [hisFile] at hfile; cases hfile)
    exact dialectOf?_of_name settings (hreached.name_eq hlooked hlies hunlinked).symm
  · exact dialectOf?_descend settings _ _ _ _ _

/-- A file of a dialect stays what it is. -/
theorem get?_eq (hdialect : dialectOf? settings path ≠ none) (ht : Recorded s t) :
    t.disk.get? goal.place = s.disk.get? goal.place := by
  obtain ⟨root, hroot, reached, hreached, -, hfinds⟩ := hfound.finds
  exact ht.get?_eq hsearchable.starts
    (hsearchable.unlogged root hroot reached hreached path goal hfinds hdialect)

theorem resolve (ht : Recorded s t) : t.disk.resolve path = .ok goal :=
  ((ht.attains_iff hsearchable.starts).mpr hfound.attains).resolve
    (ht.hasSpellableLinks hsearchable.starts hsearchable.links) hfound.areSpellable

theorem isLookedUp (hother : Found settings s roots other goal)
    (hlies : s.disk.get? goal.place = some (.file content))
    (hdialect : dialectOf? settings path ≠ none)
    (hlooked : IsLookedUp path) : IsLookedUp other := by
  have hself : Recorded s s := Task.IsRun.refl s
  obtain ⟨root, hroot, hmem⟩ := hfound.mem hsearchable.starts
  obtain ⟨root', hroot', hmem'⟩ := hother.mem hsearchable.starts
  exact hsearchable.opened root hroot path (hmem s content hself hlies) root' hroot' other
    (hmem' s content hself hlies) goal hfound.attains hother.attains hdialect hlooked

end Found

end

/-! ## Two tours -/

/-- The visit is to what is found below one of the roots. -/
structure Visit.IsBelow (settings : ScanSettings) (s : Session) (roots : List Path)
    (visit : Visit) :
    Prop where
  found : Found settings s roots visit.path visit.resolved
  along : s.Along visit.disk
  lies : dialectOf? settings visit.path ≠ none →
    ∃ content, s.disk.get? visit.resolved.place = some (.file content)

namespace Visit.IsBelow

variable {settings : ScanSettings} {s : Session} {roots roots' : List Path} {visit other : Visit}
  (hsearchable : IsSearchable settings s roots) (hvisit : visit.IsBelow settings s roots)
  (hother : other.IsBelow settings s roots)

include hvisit

theorem congr (hroots : ∀ root, root ∈ roots → root ∈ roots') :
    visit.IsBelow settings s roots' where
  found := hvisit.found.congr hroots
  along := hvisit.along
  lies := hvisit.lies

include hsearchable

theorem search?_eq_some {dialect : Dialect} {content : Bytes} (hlooked : IsLookedUp visit.path)
    (hdialect : dialectOf? settings visit.path = some dialect)
    (hlies : s.disk.get? visit.resolved.place = some (.file content)) :
    visit.search? settings = some (dialect, Index.searchedLines content) := by
  obtain ⟨t, ht, hdisk⟩ := hvisit.along
  refine search?_of_read visit hdialect ?_
  rw [← hdisk]
  refine ((ht.attains_iff hsearchable.starts).mpr hvisit.found.attains).read hlooked ?_
  rw [hvisit.found.get?_eq hsearchable (by simp [hdialect]) ht, hlies]

theorem search?_eq_none (hlooked : ¬ IsLookedUp visit.path) : visit.search? settings = none := by
  obtain ⟨t, ht, hdisk⟩ := hvisit.along
  refine search?_of_none visit (.inr fun bytes hread => hlooked ?_)
  rw [← hdisk] at hread
  exact (Disk.exists_attains_of_read (ht.startsInDirectory hsearchable.starts _) hread).1

include hother

theorem dialect_eq (hsame : other.resolved = visit.resolved) :
    dialectOf? settings other.path = dialectOf? settings visit.path := by
  by_cases hnone : dialectOf? settings visit.path = none ∧ dialectOf? settings other.path = none
  · rw [hnone.1, hnone.2]
  · obtain ⟨content, hlies⟩ : ∃ content,
        s.disk.get? visit.resolved.place = some (.file content) := by
      rcases Classical.not_and_iff_not_or_not.mp hnone with h | h
      · exact hvisit.lies h
      · exact hsame ▸ hother.lies h
    rw [hvisit.found.dialect_eq hsearchable hlies,
      hother.found.dialect_eq hsearchable (hsame ▸ hlies), hsame]

/-- What is read of a file is the same by whatever path it is visited. -/
theorem search?_eq (hsame : other.resolved = visit.resolved) :
    other.search? settings = visit.search? settings := by
  have hdialects := hvisit.dialect_eq hsearchable hother hsame
  cases hdialect : dialectOf? settings visit.path with
  | none => rw [search?_of_none _ (.inl hdialect),
      search?_of_none _ (.inl (hdialects.trans hdialect))]
  | some dialect =>
      have hdialect' := hdialects.trans hdialect
      obtain ⟨content, hlies⟩ := hvisit.lies (by simp [hdialect])
      by_cases hlooked : IsLookedUp visit.path
      · have hlooked' := hvisit.found.isLookedUp hsearchable (hsame ▸ hother.found) hlies
          (by simp [hdialect]) hlooked
        rw [hvisit.search?_eq_some hsearchable hlooked hdialect hlies,
          hother.search?_eq_some hsearchable hlooked' hdialect' (hsame ▸ hlies)]
      · have hlooked' : ¬ IsLookedUp other.path := fun h => hlooked
          (hother.found.isLookedUp hsearchable (hsame ▸ hvisit.found) (hsame ▸ hlies)
            (by simp [hdialect']) h)
        rw [hvisit.search?_eq_none hsearchable hlooked, hother.search?_eq_none hsearchable hlooked']

end Visit.IsBelow

section

variable {settings : ScanSettings} {tables : Dialect → List TokenGroup} {s u u' v' : Session}
  {roots roots' : List Path} {visits visits' : List Visit} {visit : Visit} {met : List Path}
  {progress next next' : Progress}

theorem Tour.isBelow (hsearchable : IsSearchable settings s roots)
    (hlists : ListsRoots settings s.Along roots (visits.map Visit.path))
    (htour : Tour s.Along settings tables visits progress u next u') (hvisit : visit ∈ visits) :
    visit.IsBelow settings s roots := by
  obtain ⟨_, ⟨t, ht, rfl⟩, root, hroot, hmem⟩ := hlists.exists_root (List.mem_map_of_mem hvisit)
  obtain ⟨goal, content, hfound, hlies⟩ := exists_found hsearchable.starts ht hroot hmem
  have halong := htour.during visit hvisit
  have hresolves := htour.resolves visit hvisit
  obtain ⟨t', ht', hdisk⟩ := halong
  rw [← hdisk, hfound.resolve hsearchable ht'] at hresolves
  obtain rfl := Except.ok.inj hresolves
  exact ⟨hfound, ⟨t', ht', hdisk⟩, fun hdialect =>
    ⟨content, (hfound.get?_eq hsearchable hdialect ht).symm.trans hlies⟩⟩

/-- What is visited below one list of roots is visited below any other list with these roots. -/
theorem Visit.IsBelow.exists_visit (hsearchable : IsSearchable settings s roots)
    (hvisit : visit.IsBelow settings s roots) (hdialect : dialectOf? settings visit.path ≠ none)
    (hlists : ListsRoots settings s.Along roots' (visits'.map Visit.path))
    (hvisits : ∀ other ∈ visits', other.IsBelow settings s roots)
    (hroots : ∀ root, root ∈ roots → root ∈ roots') :
    ∃ other ∈ visits', other.resolved = visit.resolved := by
  obtain ⟨content, hlies⟩ := hvisit.lies hdialect
  obtain ⟨root, hroot, hmem⟩ := hvisit.found.mem hsearchable.starts
  obtain ⟨_, ⟨t, ht, rfl⟩, hfiles⟩ := hlists.exists_of_mem (hroots root hroot)
  have hpath := hmem t content ht ((hvisit.found.get?_eq hsearchable hdialect ht).trans hlies)
  obtain ⟨other, hother, hsame⟩ := List.mem_map.mp (hfiles _ hpath)
  exact ⟨other, hother, (hsame ▸ (hvisits other hother).found.attains).unique hvisit.found.attains⟩

/-- The same files are searched below two lists of the same roots. -/
theorem searchesOn_perm (hsearchable : IsSearchable settings s roots)
    (hlists : ListsRoots settings s.Along roots (visits.map Visit.path))
    (hlists' : ListsRoots settings s.Along roots' (visits'.map Visit.path))
    (hvisits : ∀ visit ∈ visits, visit.IsBelow settings s roots)
    (hvisits' : ∀ visit ∈ visits', visit.IsBelow settings s roots)
    (hroots : ∀ root, root ∈ roots ↔ root ∈ roots') (met : List Path) :
    (searchesOn settings met visits).Perm (searchesOn settings met visits') := by
  have hthere : ∀ {visits visits' : List Visit} {roots' : List Path},
      ListsRoots settings s.Along roots' (visits'.map Visit.path) →
      (∀ visit ∈ visits, visit.IsBelow settings s roots) →
      (∀ visit ∈ visits', visit.IsBelow settings s roots) → (∀ root, root ∈ roots → root ∈ roots') →
      ∀ visit ∈ firstVisits met visits, visit.search? settings ≠ none →
        ∃ other ∈ firstVisits met visits', other.resolved = visit.resolved := by
    intro visits visits' roots' hlists' hvisits hvisits' hroots visit hfirst hsearch
    obtain ⟨hvisit, hmet⟩ := mem_firstVisits_of_mem hfirst
    obtain ⟨other, hother, hsame⟩ := (hvisits visit hvisit).exists_visit hsearchable
      (fun hnone => hsearch (visit.search?_of_none (.inl hnone))) hlists' hvisits' hroots
    rw [← hsame] at hmet ⊢
    exact exists_firstVisit hother hmet
  refine filterMap_perm_of_keys (nodup_firstVisits met visits) (nodup_firstVisits met visits')
    (hthere hlists' hvisits hvisits' fun root => (hroots root).mp)
    (hthere hlists hvisits' hvisits fun _ => id) fun visit hvisit other hother hsame => ?_
  exact (hvisits visit (mem_firstVisits_of_mem hvisit).1).search?_eq hsearchable
    (hvisits' other (mem_firstVisits_of_mem hother).1) hsame

/-- How often a resource is mentioned depends on what is read only. -/
theorem mentionsOn_eq (met : List Path) (visits : List Visit) (r : Resource) :
    mentionsOn settings met visits r = ((searchesOn settings met visits).map fun search =>
      search.2.countP (Reference.Mentions search.1 · r)).sum := by
  rw [mentionsOn, searchesOn]
  induction firstVisits met visits with
  | nil => rfl
  | cons visit rest ih =>
      rw [List.map_cons, List.sum_cons, ih, Visit.mentions, List.filterMap_cons]
      cases visit.search? settings with
      | none => simp
      | some search => simp

/-- The scans have found the same references in as many lines of as many files. -/
structure ScanStats.Agree (stats other : ScanStats) : Prop where
  filesScanned : other.filesScanned = stats.filesScanned
  linesScanned : other.linesScanned = stats.linesScanned
  references : other.references = stats.references

/-- Two tours on which the same is read count the same. -/
theorem Tour.alike {during during' : Disk → Prop}
    (htour : Tour during settings tables visits progress u next u')
    (htour' : Tour during' settings tables visits' progress u next' v')
    (hperm : (searchesOn settings progress.seen visits).Perm
      (searchesOn settings progress.seen visits')) :
    (∀ r, v'.catalog.get? r = u'.catalog.get? r) ∧ next.stats.Agree next'.stats := by
  refine ⟨fun r => ?_, ?_, ?_, ?_⟩
  · rw [htour.raises r, htour'.raises r, mentionsOn_eq, mentionsOn_eq, (hperm.map _).sum_nat]
  · rw [htour.reads.filesScanned, htour'.reads.filesScanned, hperm.length_eq]
  · rw [htour.reads.linesScanned, htour'.reads.linesScanned, (hperm.map _).sum_nat]
  · rw [htour.reads.references, htour'.reads.references, (hperm.map _).sum_nat]

end

/-! ## Scans that succeed -/

/-- Why a path is not followed at all does not depend on what is written. -/
theorem failed_iff_of_alike {places : Place → Prop} {reach reach' : Disk.Reach}
    {code : Disk.ErrorCode}
    (halike : Disk.Reach.Alike places reach reach') (hentry : code ≠ .noEntry)
    (hdirectory : code ≠ .notDirectory) : reach' = .failed code ↔ reach = .failed code := by
  cases halike with
  | same => exact Iff.rfl
  | changed => simp
  | made => simp
  | blocked => simp [hentry.symm, hdirectory.symm]

section

variable {settings : ScanSettings} {tables : Dialect → List TokenGroup} {s t u t' : Session}
  {roots roots' : List Path} {root path resolved : Path} {progress : Progress} {files : List Path}

theorem exists_isFile_iff (disk : Disk) (path : Path) :
    (∃ answer, disk.isFile path = .ok answer) ↔ disk.reach .target path ≠ .failed .nameTooLong := by
  rw [Disk.isFile, Disk.leadsTo]
  split <;> simp_all

theorem isRefusal_of_openDirectory {disk : Disk} {error : Disk.Error}
    (hpossible : ∀ fault, disk.reach .target path ≠ .failed (.impossible fault))
    (hopen : disk.openDirectory path = .error error) : error.isRefusal = true := by
  rw [Disk.openDirectory] at hopen
  split at hopen
  · cases hopen
  · cases hopen
    rfl
  · cases hopen
    rfl
  · rename_i code hreach
    cases hopen
    cases code <;> first | rfl | exact absurd hreach (hpossible _)

/-- Where the files of a root have been listed, its path could be followed, or that it leads to no
directory has been recorded. -/
theorem reach_of_runs_filesOf (hruns : Runs (filesOf settings root) t files t') :
    t.disk.reach .target root ≠ .failed .nameTooLong
      ∧ (∀ fault, t.disk.reach .target root ≠ .failed (.impossible fault))
      ∧ (t.disk.isFile root = .ok true ∨ (∃ place, t.disk.openDirectory root = .ok place)
        ∨ t'.CanRecord) := by
  obtain ⟨isFile, hfile, hruns⟩ := Task.runs_check_bind.mp hruns
  refine ⟨(exists_isFile_iff _ _).mp ⟨isFile, hfile⟩, ?_⟩
  cases isFile with
  | true =>
      refine ⟨fun fault hreach => ?_, .inl hfile⟩
      rw [Disk.isFile, Disk.leadsTo, hreach] at hfile
      cases hfile
  | false =>
      simp only [Bool.false_eq_true, if_false] at hruns
      obtain ⟨found, v, hrefusable, hruns⟩ := Task.runs_bind.mp (Task.runs_disk_bind.mp hruns)
      obtain ⟨rfl, rfl⟩ := Task.runs_refusable hrefusable
      cases hopen : v.disk.openDirectory root with
      | ok place =>
          refine ⟨fun fault hreach => ?_, .inr (.inl ⟨place, rfl⟩)⟩
          rw [Disk.openDirectory, hreach] at hopen
          cases hopen
      | error error =>
          have hwalk : v.disk.walkFiles root settings.skippedDirNames = .error error := by
            rw [Disk.walkFiles, hopen]
            rfl
          have hrefusal := Task.isRefusal_of_runs_refusable hrefusable hwalk
          refine ⟨fun fault hreach => ?_, .inr (.inr ?_)⟩
          · rw [Disk.openDirectory, hreach] at hopen
            cases hopen
            cases hrefusal
          · rw [hwalk] at hruns
            obtain ⟨_, w, hwarn, hpure⟩ := Task.runs_bind.mp hruns
            obtain ⟨-, rfl⟩ := Task.runs_pure.mp hpure
            exact Task.canRecord_of_warn hwarn

/-- The caller's patience stays as it is. -/
def KeepsPatience (s s' : Session) : Prop :=
  s'.patience = s.patience

instance : Task.IsLogged KeepsPatience where
  refl _ := rfl
  trans hfirst hsecond := hsecond.trans hfirst
  trail _ _ _ := rfl
  append _ _ _ _ _ _ := rfl

/-- What could be recorded once can be recorded whenever it is to be. -/
theorem finishes_warn_of_canRecord (hrecords : s.CanRecord) (hpatience : s.patience = none)
    (action code message : Text) {data : List (Text × Datum)} (hdata : Datum.AreShallow data) :
    Finishes (Task.warn action code message data) s fun _ s' => s'.patience = none :=
  (Task.finishes_warn hrecords action code message hdata).imp fun _ _ hruns _ =>
    ((Task.steps_warn (R := KeepsPatience) _ _ _ _).runs hruns).trans hpatience

variable (hstarts : ∀ path, s.disk.StartsInDirectory path)

include hstarts in
/-- The files of a root can be listed in one session if they have been in another one, from the same
beginning. -/
theorem finishes_filesOf (hruns : Runs (filesOf settings root) t files t') (ht : Recorded s t)
    (ht' : Recorded s t') (hu : Recorded s u) (hpatience : u.patience = none) :
    Finishes (filesOf settings root) u fun _ u' => u'.patience = none := by
  obtain ⟨hshort, hpossible, hlisted⟩ := reach_of_runs_filesOf hruns
  have hreach : ∀ code, code ≠ .noEntry → code ≠ .notDirectory →
      (u.disk.reach .target root = .failed code ↔ t.disk.reach .target root = .failed code) :=
    fun code hentry hdirectory =>
      (failed_iff_of_alike (hu.reach_alike hstarts) hentry hdirectory).trans
        (failed_iff_of_alike (ht.reach_alike hstarts) hentry hdirectory).symm
  obtain ⟨isFile, hfile⟩ := (exists_isFile_iff u.disk root).mpr fun h =>
    hshort ((hreach .nameTooLong (by decide) (by decide)).mp h)
  refine .check_bind hfile ?_
  cases isFile with
  | true => exact .pure hpatience
  | false =>
      have hrefusal : ∀ error, u.disk.walkFiles root settings.skippedDirNames = .error error →
          error.isRefusal = true := by
        intro error herror
        rw [Disk.walkFiles] at herror
        cases hopen : u.disk.openDirectory root with
        | ok place =>
            rw [hopen] at herror
            cases herror
        | error found =>
            rw [hopen] at herror
            cases herror
            exact isRefusal_of_openDirectory
              (fun fault h => hpossible fault
                ((hreach (.impossible fault) (by simp) (by simp)).mp h)) hopen
      refine .disk_bind (.refusable_bind hrefusal ?_)
      cases hwalk : u.disk.walkFiles root settings.skippedDirNames with
      | ok files => exact .pure hpatience
      | error error =>
          have hrecords : u.CanRecord := by
            by_cases hrecords : s.CanRecord
            · exact (hu.canRecord_iff hstarts).mpr hrecords
            · -- Nothing has been recorded, so that both sessions have the same disk.
              have hsame : t.disk = u.disk := (ht.disk.resolve_right hrecords).trans
                (hu.disk.resolve_right hrecords).symm
              rw [hsame] at hlisted
              rcases hlisted with hisFile | ⟨place, hopen⟩ | hrecords'
              · rw [hfile] at hisFile
                cases hisFile
              · rw [Disk.walkFiles, hopen] at hwalk
                cases hwalk
              · exact absurd ((ht'.canRecord_iff hstarts).mp hrecords') hrecords
          exact (finishes_warn_of_canRecord hrecords hpatience _ _ _ (by simp)).bind fun _ _ _ h =>
            .pure h

/-- A file whose path resolves can be scanned if it can be read or it can be recorded that it
cannot. -/
theorem finishes_scanFile (hpatience : u.patience = none)
    (hresolve : u.disk.resolve path = .ok resolved)
    (hread : resolved ∉ progress.seen → dialectOf? settings path ≠ none →
      (∃ bytes, u.disk.read path = .ok bytes)
        ∨ u.CanRecord ∧ ∀ error, u.disk.read path = .error error → error.isRefusal = true) :
    Finishes (scanFile settings tables progress path) u fun next u' =>
      u'.patience = none ∧ ∀ met ∈ progress.seen, met ∈ next.seen := by
  refine .resolve_bind hresolve ?_
  split
  · exact .pure ⟨hpatience, fun _ => id⟩
  · rename_i hmet
    have hseen : ∀ met ∈ progress.seen, met ∈ progress.seen ++ [resolved] :=
      fun _ => List.mem_append_left _
    cases hdialect : dialectOf? settings path with
    | none => exact .pure ⟨hpatience, hseen⟩
    | some dialect =>
        replace hread := hread (by simpa using hmet) (by simp [hdialect])
        refine .poll_bind hpatience (.disk_bind (.refusable_bind (fun error herror => ?_) ?_))
        · exact (hread.resolve_left fun ⟨_, hbytes⟩ => by simp [herror] at hbytes).2 error herror
        · cases hbytes : u.disk.read path with
          | ok bytes =>
              exact .bind (.get_bind (.modify_bind (.pure hpatience))) fun _ _ _ h =>
                .pure ⟨h, hseen⟩
          | error error =>
              have hrecords := (hread.resolve_left fun ⟨_, h⟩ => by simp [hbytes] at h).1
              exact (finishes_warn_of_canRecord hrecords hpatience _ _ _ (by simp)).bind
                fun _ _ _ h =>
                .pure ⟨h, hseen⟩

/-- A path that a disk can have and that is too long to be looked up is refused. -/
theorem isRefusal_of_read (hspelled : Disk.AreSpellable path.parts) (hlooked : ¬ IsLookedUp path)
    {error : Disk.Error} (hread : u.disk.read path = .error error) : error.isRefusal = true := by
  have hfault := Disk.isSpellable_text_iff.mpr hspelled
  have hlong : Disk.maxPathBytes < Disk.byteCount path.text :=
    Nat.not_le.mp fun hshort => hlooked ⟨hfault, hshort⟩
  rw [Disk.read, Disk.reach, hfault] at hread
  simp only [if_pos hlong] at hread
  cases hread
  rfl

/-- The roots can be scanned in any order if they have been scanned in one. -/
theorem finishes_scanRoots {visits : List Visit} {next : Progress}
    (hsearchable : IsSearchable settings s roots) (hu : Recorded s u)
    (hpatience : u.patience = none)
    (hroots : ∀ root, root ∈ roots ↔ root ∈ roots')
    (hruns : Runs (roots.foldlM (fun progress root => do
      (← filesOf settings root).foldlM (scanFile settings tables) progress) progress) u next t')
    (hlists : ListsRoots settings s.Along roots (visits.map Visit.path))
    (htour : Tour s.Along settings tables visits progress u next t') :
    Finishes (roots'.foldlM (fun progress root => do
      (← filesOf settings root).foldlM (scanFile settings tables) progress) progress) u
      fun _ _ => True := by
  have hstarts := hsearchable.starts
  have hsteps : ∀ progress, ∀ root ∈ roots, Steps Recorded (do
      (← filesOf settings root).foldlM (scanFile settings tables) progress) :=
        fun progress root _ =>
    (steps_filesOf settings root).bind fun files =>
      Tour.steps_scanFiles settings tables files progress
  have ht' : Recorded s t' := hu.trans ((Steps.foldlM hsteps progress).runs hruns)
  -- What has been met before the roots were, stays met.
  let keeps (reached : Progress) (v : Session) : Prop :=
    Recorded s v ∧ v.patience = none ∧ ∀ met ∈ progress.seen, met ∈ reached.seen
  have hscan : ∀ {root path : Path} {v : Session}, root ∈ roots → Recorded s v →
      path ∈ filesOn settings v.disk root → ∀ reached w, keeps reached w →
      Finishes (scanFile settings tables reached path) w keeps := by
    rintro root path v hroot hv hpath reached w ⟨hw, hpatience, hmet⟩
    obtain ⟨goal, content, hfound, hlies⟩ := exists_found hstarts hv hroot hpath
    have hself : Visit.IsBelow settings s roots ⟨path, w.disk, goal⟩ := ⟨hfound, ⟨w, hw, rfl⟩,
      fun hdialect => ⟨content, (hfound.get?_eq hsearchable hdialect hv).symm.trans hlies⟩⟩
    refine (finishes_scanFile hpatience (hfound.resolve hsearchable hw)
      fun hgoal hdialect => ?_).imp
      fun next w' hruns ⟨hpatience', hseen⟩ => ⟨hw.trans ((steps_scanFile _ _ _ _).runs hruns),
        hpatience', fun met hmem => hseen met (hmet met hmem)⟩
    by_cases hlooked : IsLookedUp path
    · refine .inl ⟨content, ((hw.attains_iff hstarts).mpr hfound.attains).read hlooked ?_⟩
      rw [hfound.get?_eq hsearchable hdialect hw, ← hfound.get?_eq hsearchable hdialect hv, hlies]
    · -- The file cannot be opened by another path either, and this has been recorded.
      have hvisits : ∀ visit ∈ visits, Visit.IsBelow settings s roots visit := fun _ hvisit =>
        htour.isBelow hsearchable hlists hvisit
      obtain ⟨other, hother, hsame⟩ :=
        hself.exists_visit hsearchable hdialect hlists hvisits fun _ => id
      have hunmet : other.resolved ∉ progress.seen := by
        rw [hsame]
        exact fun h => hgoal (hmet goal h)
      obtain ⟨first, hfirst, hsame'⟩ := exists_firstVisit hother hunmet
      have hbelow := hvisits first (mem_firstVisits_of_mem hfirst).1
      have hskipped := htour.skips first hfirst
        (by rwa [hself.dialect_eq hsearchable hbelow (hsame'.trans hsame)])
        (by rw [hself.search?_eq hsearchable hbelow (hsame'.trans hsame),
          hself.search?_eq_none hsearchable hlooked])
      exact .inr ⟨(hw.canRecord_iff hstarts).mpr ((ht'.canRecord_iff hstarts).mp hskipped),
        fun error => isRefusal_of_read hfound.areSpellable hlooked⟩
  have hkept : keeps progress u := ⟨hu, hpatience, fun _ => id⟩
  refine (Finishes.foldlM (fun root hroot reached v ⟨hv, hpatience, hmet⟩ => ?_) hkept).imp
    fun _ _ _ _ => trivial
  have hroot := (hroots root).mpr hroot
  obtain ⟨reached', t, next', w, hut, hboth, hw⟩ := Task.exists_of_runs_foldlM hsteps hruns hroot
  obtain ⟨files, x, hfiles, -⟩ := Task.runs_bind.mp hboth
  have ht := hu.trans hut
  refine (finishes_filesOf hstarts hfiles ht
    (ht.trans ((steps_filesOf settings root).runs hfiles)) hv
    hpatience).bind fun files v' hlisted hpatience' => ?_
  obtain ⟨rfl, -⟩ := runs_filesOf hlisted
  exact .foldlM (fun path hpath => hscan hroot hv hpath)
    ⟨hv.trans ((steps_filesOf settings root).runs hlisted), hpatience', hmet⟩

end

/-! ## Scans of the same roots -/

section

variable {settings : ScanSettings} {s s' : Session} {roots roots' : List Path}
  {manifest : Option Path}
  {stats : ScanStats}

theorem exists_scan_same_roots (hsearchable : IsSearchable settings s roots)
    (hpatience : s.patience = none) (hroots : ∀ root, root ∈ roots ↔ root ∈ roots')
    (hruns : Runs (scan settings roots manifest) s stats s') :
    ∃ stats' s'', Runs (scan settings roots' manifest) s stats' s'' ∧ stats.Agree stats'
      ∧ ∀ r, s''.catalog.get? r = s'.catalog.get? r := by
  obtain ⟨files, t, hfiles, hruns⟩ := Task.runs_bind.mp (Task.runs_get_bind.mp hruns)
  obtain ⟨first, u, hfirst, hruns⟩ := Task.runs_bind.mp hruns
  obtain ⟨next, v, hrest, hpure⟩ := Task.runs_bind.mp hruns
  obtain ⟨rfl, rfl⟩ := Task.runs_pure.mp hpure
  -- Whatever the roots, the manifest comes first.
  have hsu : Recorded s u := Task.IsRun.trans ((steps_manifestFiles manifest).runs hfiles)
    ((Tour.steps_scanFiles settings _ files .start).runs hfirst)
  have hfilesKept : KeepsFiles s u := Task.IsRun.trans ((steps_manifestFiles manifest).runs hfiles)
    ((Tour.steps_scanFiles settings _ files .start).runs hfirst)
  have hpatience' : u.patience = none := by
    have ht := (heeds_manifestFiles manifest).patience_eq_none hpatience hfiles
    exact (Task.Heeds.foldlM (fun progress path _ => heeds_scanFile _ _ progress path)
      _).patience_eq_none
      ht hfirst
  have halong : ∀ {w w' : Session}, Recorded u w → Recorded w w' → s.Along w.disk :=
    fun hw _ => ⟨_, hsu.trans hw, rfl⟩
  obtain ⟨visits, hlists, htour⟩ := Tour.scanRoots
    (R := Recorded) (fun _ => halong) hfilesKept hrest
  obtain ⟨next', w, hrest', -⟩ :=
    finishes_scanRoots hsearchable hsu hpatience' hroots hrest hlists htour
  obtain ⟨visits', hlists', htour'⟩ := Tour.scanRoots
    (R := Recorded) (fun _ => halong) hfilesKept hrest'
  have hback : ∀ root, root ∈ roots' → root ∈ roots := fun root => (hroots root).mpr
  have hperm := searchesOn_perm hsearchable hlists hlists'
    (fun visit hvisit => htour.isBelow hsearchable hlists hvisit)
    (fun visit hvisit => (htour'.isBelow (hsearchable.congr hback) hlists' hvisit).congr hback)
    hroots first.seen
  obtain ⟨hcatalog, hagree⟩ := htour.alike htour' hperm
  refine ⟨next'.stats, w, ?_, hagree, hcatalog⟩
  exact Task.runs_get_bind.mpr (Task.runs_bind.mpr ⟨files, t, hfiles, Task.runs_bind.mpr
    ⟨first, u, hfirst, Task.runs_bind.mpr ⟨next', w, hrest', Task.runs_pure.mpr ⟨rfl, rfl⟩⟩⟩⟩)

/-- Whether a scan that succeeds is made of a list of roots or of another list of the same roots, it
counts the same and finds the same in as much, unless the caller stops the other one. -/
theorem scan_same_roots (hsearchable : IsSearchable settings s roots)
    (hroots : ∀ root, root ∈ roots ↔ root ∈ roots')
    (hruns : Runs (scan settings roots manifest) s stats s') :
    (∃ point, (Task.exec (scan settings roots' manifest) s).1 = .error (.cancelled point))
      ∨ ∃ stats' s'', Runs (scan settings roots' manifest) s stats' s'' ∧ stats.Agree stats'
        ∧ ∀ r, s''.catalog.get? r = s'.catalog.get? r := by
  cases hpatience : s.patience with
  | none => exact .inr (exists_scan_same_roots hsearchable hpatience hroots hruns)
  | some n =>
      -- Both scans do what they do for a caller without bound.
      let unbound : Session := { s with patience := none }
      have hlasting : s = unbound.lasting n := by
        rw [Session.lasting, ← hpatience]
      have hsearchable : IsSearchable settings unbound roots := { hsearchable with }
      rw [hlasting] at hruns
      obtain ⟨t, m, hunbound, rfl⟩ := (heeds_scan _ _ _).runs_of_lasting rfl hruns
      obtain ⟨stats', t', hruns', hagree, hcatalog⟩ :=
        exists_scan_same_roots hsearchable rfl hroots hunbound
      rw [hlasting]
      exact ((heeds_scan _ _ _).runs_lasting rfl hruns' n).imp_right fun ⟨k, h⟩ =>
        ⟨stats', t'.lasting k, h, hagree, hcatalog⟩

end

namespace Linked

/-- A link to the root. -/
def other : Path := ⟨.root, ["l"]⟩

/-- The file of code once more, below a root that there is a link to. -/
def twice : Session :=
  { start with disk := start.disk.put ["l"] (.link "a") }

theorem isSearchable : IsSearchable .default twice [other, root] := by
  have hok : (∀ link ∈ twice.disk.links, Disk.IsSpellable link.2)
      ∧ (∀ path ∈ [other, root], twice.disk.isLink path = true →
        (twice.disk.isFile path).toOption = some false)
      ∧ ∀ path ∈ [other, root], ∀ file ∈ filesOn .default twice.disk path,
        (pathFault? file.text).isNone = true ∧ Disk.byteCount file.text ≤ Disk.maxPathBytes := by
    decide +kernel
  obtain ⟨hlinks, hroots, hfiles⟩ := hok
  refine ⟨fun path start hstart => ?_, Disk.hasSpellableLinks_of_links hlinks,
    fun root hroot hfile => ?_, fun _ _ _ _ root hroot path hpath _ _ _ _ _ => ?_, ?_⟩
  · obtain rfl : start = [] := by
      cases hanchor : path.anchor <;> rw [Disk.startOf, hanchor] at hstart <;>
        exact (Option.some.inj hstart).symm
    rfl
  · by_contra hlink
    have hnot := hroots root hroot (by simpa using hlink)
    rw [hfile] at hnot
    cases hnot
  · obtain ⟨hfault, hshort⟩ := hfiles root hroot path hpath
    exact ⟨Option.isNone_iff_eq_none.mp hfault, hshort⟩
  · rintro root - reached - path goal - - ⟨log, -, hlog, -⟩
    cases hlog

end Linked

/-- A file below a root and below a link to it is searched once, whichever of them comes first. -/
theorem scan_same_roots_linked : ∃ stats s' stats' s'',
    Runs (scan .default [Linked.other, Linked.root] none) Linked.twice stats s'
      ∧ stats.references = 1
      ∧ Runs (scan .default [Linked.root, Linked.other, Linked.root] none) Linked.twice stats' s''
      ∧ stats.Agree stats' ∧ ∀ r, s''.catalog.get? r = s'.catalog.get? r := by
  have hok :
      ((Task.exec (scan .default [Linked.other, Linked.root] none) Linked.twice).1.toOption.map
        ScanStats.references) = some 1
      ∧ (Task.exec (scan .default [Linked.root, Linked.other, Linked.root] none)
        Linked.twice).1.toOption.isSome = true := by
    decide +kernel
  obtain ⟨hcount, hother⟩ := hok
  obtain ⟨stats, hstats, hcount⟩ := Option.map_eq_some_iff.mp hcount
  have hruns := Task.runs_of_toOption rfl hstats
  have hroots : ∀ root, root ∈ [Linked.other, Linked.root]
      ↔ root ∈ [Linked.root, Linked.other, Linked.root] := by
    simp [or_comm]
  rcases scan_same_roots Linked.isSearchable hroots hruns with ⟨point, hstopped⟩
    | ⟨stats', s'', hruns', h⟩
  · rw [hstopped] at hother
    cases hother
  · exact ⟨stats, _, stats', s'', hruns, hcount, hruns', h⟩

namespace Growing

def root : Path := ⟨.root, ["p"]⟩

/-- A root that is missing, of which it is recorded that it is. -/
def missing : Path := ⟨.root, ["R.string.s"]⟩

def settings : ScanSettings :=
  { ScanSettings.default with codeExtensions := [".jsonl"] }

/-- A session whose log lies below a root and is searched. -/
def start : Session where
  disk := (Disk.empty []).put ["p"] .directory
  clock := Linked.start.clock
  trail := .start (some ⟨.root, ["p", "audit.jsonl"]⟩) "run"
  catalog := Linked.start.catalog
  roots := none
  patience := none

end Growing

/-- What is recorded of a missing root is counted if the log is searched afterwards. -/
theorem not_scan_same_roots : ¬ ∀ settings s roots roots' manifest stats s' stats' s'',
    (∀ root, root ∈ roots ↔ root ∈ roots') → s.patience = none →
    (∀ root ∈ roots, s.disk.isFile root = .ok true → s.disk.isLink root = false) →
    Runs (scan settings roots manifest) s stats s' →
      Runs (scan settings roots' manifest) s stats' s'' →
    stats.Agree stats' ∧ ∀ r, s''.catalog.get? r = s'.catalog.get? r := by
  intro hall
  have hok : ((Task.exec (scan Growing.settings [Growing.root, Growing.missing] none)
        Growing.start).1.toOption.map ScanStats.references) = some 0
      ∧ ((Task.exec (scan Growing.settings [Growing.missing, Growing.root] none)
        Growing.start).1.toOption.map ScanStats.references) = some 1
      ∧ ∀ root ∈ [Growing.root, Growing.missing], Growing.start.disk.isLink root = false := by
    decide +kernel
  obtain ⟨hnone, hone, hlinks⟩ := hok
  obtain ⟨stats, hstats, hnone⟩ := Option.map_eq_some_iff.mp hnone
  obtain ⟨stats', hstats', hone⟩ := Option.map_eq_some_iff.mp hone
  obtain ⟨hagree, -⟩ := hall _ _ _ _ _ _ _ _ _ (by simp [or_comm]) rfl
    (fun root hroot _ => hlinks root hroot) (Task.runs_of_toOption rfl hstats)
    (Task.runs_of_toOption rfl hstats')
  rw [hagree.references, hnone] at hone
  cases hone

end Usage

end ResourcePruner
