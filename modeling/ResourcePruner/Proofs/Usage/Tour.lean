import Mathlib.Algebra.Ring.Nat
import ResourcePruner.Proofs.Usage.Credits
import ResourcePruner.Proofs.Usage.Recorded
import ResourcePruner.Proofs.Usage.Visits

/-!
# The tour of a scan

A scan comes to one path after the other. Of the paths that resolve to the same path only the first
is searched, and what it is searched for depends on that path's own extension
(`Usage.Visit.mentions`). Each count is raised by the lines that mention the resource on the visits
that are searched, and by nothing else (`Usage.exists_tour`). The disk may change on the way, since
events are added to the log.
-/

namespace ResourcePruner

open ResourcePruner.Task (Runs Steps IsLogged IsCounted Preserves)

/-- The catalog stays as it is. -/
def KeepsCatalog (s s' : Session) : Prop :=
  s'.catalog = s.catalog

instance : IsLogged KeepsCatalog where
  refl _ := rfl
  trans hfirst hsecond := hsecond.trans hfirst
  trail _ _ _ := rfl
  append _ _ _ _ _ _ := rfl

namespace Usage

/-! ## Stats -/

/-- The number of references on the lines of a text of a dialect. -/
def referencesIn (tables : Dialect → List TokenGroup) (search : Dialect × List Text) : Nat :=
  (search.2.map fun line => (credited search.1 (tables search.1) line).length).sum

theorem references_addLines (tally : Tally) (dialect : Dialect) (table : List TokenGroup)
    (lines : List Text) : (Tally.addLines tally dialect table lines).references
      = tally.references + (lines.map fun line => (credited dialect table line).length).sum := by
  induction lines generalizing tally with
  | nil => rfl
  | cons line rest ih =>
      rw [List.map_cons, List.sum_cons, ← Nat.add_assoc]
      exact ih (tally.add (credited dialect table line))

/-- The stats of a scan that has read some texts more. -/
structure ScanStats.Reads (tables : Dialect → List TokenGroup)
    (searches : List (Dialect × List Text))
    (before after : ScanStats) : Prop where
  filesScanned : after.filesScanned = before.filesScanned + searches.length
  linesScanned : after.linesScanned = before.linesScanned + (searches.map (·.2.length)).sum
  references : after.references = before.references + (searches.map (referencesIn tables)).sum

namespace ScanStats.Reads

variable {tables : Dialect → List TokenGroup} {searches more : List (Dialect × List Text)}
  {first second third : ScanStats}

theorem refl (tables : Dialect → List TokenGroup) (stats : ScanStats) : Reads tables
    [] stats stats :=
  ⟨rfl, rfl, rfl⟩

theorem trans (hfirst : Reads tables searches first second)
    (hsecond : Reads tables more second third) :
    Reads tables (searches ++ more) first third where
  filesScanned := by
    rw [hsecond.filesScanned, hfirst.filesScanned, List.length_append, Nat.add_assoc]
  linesScanned := by
    rw [hsecond.linesScanned, hfirst.linesScanned, List.map_append, List.sum_append, Nat.add_assoc]
  references := by
    rw [hsecond.references, hfirst.references, List.map_append, List.sum_append, Nat.add_assoc]

end ScanStats.Reads

section

variable {settings : ScanSettings} {tables : Dialect → List TokenGroup} {progress next : Progress}
  {path manifest root : Path} {files : List Path} {s s' : Session}

theorem runs_countLines {dialect : Dialect} {lines : List Text} {stats found : ScanStats}
    (hruns : Runs (countLines dialect (tables dialect) lines stats) s found s') :
    s'.catalog = (Tally.addLines ⟨s.catalog, 0⟩ dialect (tables dialect) lines).catalog
      ∧ stats.Reads tables [(dialect, lines)] found := by
  obtain ⟨_, t, hmodify, hpure⟩ := Task.runs_bind.mp (Task.runs_get_bind.mp hruns)
  obtain ⟨rfl, rfl⟩ := Task.runs_pure.mp hpure
  rw [Task.runs_modify.mp hmodify]
  refine ⟨rfl, by simp, by simp, ?_⟩
  simp [references_addLines, referencesIn]

/-- A file is passed over if its path resolves to one that has been met, and remembered
otherwise; then its lines are counted if it is of a dialect and can be read, and it is recorded
if it cannot. -/
theorem runs_scanFile (hruns : Runs (scanFile settings tables progress path) s next s') :
    ∃ resolved, s.disk.resolve path = .ok resolved ∧
      (resolved ∈ progress.seen ∧ next = progress ∧ s' = s
        ∨ resolved ∉ progress.seen ∧ next.seen = progress.seen ++ [resolved]
          ∧ ((∃ dialect bytes, dialectOf? settings path = some dialect
              ∧ s.disk.read path = .ok bytes
              ∧ s'.catalog = (Tally.addLines ⟨s.catalog, 0⟩ dialect (tables dialect)
                (Index.searchedLines bytes)).catalog
              ∧ progress.stats.Reads tables [(dialect, Index.searchedLines bytes)] next.stats)
            ∨ (dialectOf? settings path = none
                ∨ (∀ bytes, s.disk.read path ≠ .ok bytes) ∧ s'.CanRecord)
              ∧ s'.catalog = s.catalog ∧ progress.stats.Reads tables [] next.stats)) := by
  obtain ⟨resolved, hresolve, hruns⟩ := Task.runs_resolve_bind.mp hruns
  refine ⟨resolved, hresolve, ?_⟩
  split at hruns
  · rename_i hmet
    obtain ⟨rfl, rfl⟩ := Task.runs_pure.mp hruns
    exact .inl ⟨by simpa using hmet, rfl, rfl⟩
  · rename_i hmet
    refine .inr ⟨by simpa using hmet, ?_⟩
    cases hdialect : dialectOf? settings path with
    | none =>
        simp only [hdialect] at hruns
        obtain ⟨rfl, rfl⟩ := Task.runs_pure.mp hruns
        exact ⟨rfl, .inr ⟨.inl rfl, rfl, .refl _ _⟩⟩
    | some dialect =>
        simp only [hdialect] at hruns
        obtain ⟨_, t, hpoll, hruns⟩ := Task.runs_bind.mp hruns
        obtain ⟨_, rfl⟩ := Task.runs_poll hpoll
        have hruns := Task.runs_refusable_bind (Task.runs_disk_bind.mp hruns)
        cases hread : s.disk.read path with
        | ok bytes =>
            rw [hread] at hruns
            obtain ⟨_, u, hcount, hpure⟩ := Task.runs_bind.mp hruns
            obtain ⟨rfl, rfl⟩ := Task.runs_pure.mp hpure
            obtain ⟨hcatalog, hreads⟩ := runs_countLines hcount
            exact ⟨rfl, .inl ⟨dialect, bytes, rfl, rfl, hcatalog, hreads⟩⟩
        | error error =>
            rw [hread] at hruns
            obtain ⟨_, u, hwarn, hpure⟩ := Task.runs_bind.mp hruns
            obtain ⟨rfl, rfl⟩ := Task.runs_pure.mp hpure
            have hcatalog := (Task.steps_warn (R := KeepsCatalog) _ _ _ _).runs hwarn
            exact ⟨rfl,
              .inr ⟨.inr ⟨by simp, Task.canRecord_of_warn hwarn⟩, hcatalog, rfl, rfl, rfl⟩⟩

theorem runs_manifestFiles (hruns : Runs (manifestFiles (some manifest)) s files s') :
    files = manifestOn s.disk manifest ∧ s'.catalog = s.catalog := by
  obtain ⟨isFile, hfile, hruns⟩ := Task.runs_check_bind.mp hruns
  rw [manifestOn, hfile]
  cases isFile with
  | true =>
      obtain ⟨rfl, rfl⟩ := Task.runs_pure.mp hruns
      exact ⟨rfl, rfl⟩
  | false =>
      obtain ⟨_, t, hwarn, hpure⟩ := Task.runs_bind.mp hruns
      obtain ⟨rfl, rfl⟩ := Task.runs_pure.mp hpure
      exact ⟨rfl, (Task.steps_warn (R := KeepsCatalog) _ _ _ _).runs hwarn⟩

theorem runs_filesOf (hruns : Runs (filesOf settings root) s files s') :
    files = filesOn settings s.disk root ∧ s'.catalog = s.catalog := by
  obtain ⟨isFile, hfile, hruns⟩ := Task.runs_check_bind.mp hruns
  rw [filesOn, hfile]
  cases isFile with
  | true =>
      obtain ⟨rfl, rfl⟩ := Task.runs_pure.mp hruns
      exact ⟨rfl, rfl⟩
  | false =>
      have hruns := Task.runs_refusable_bind (Task.runs_disk_bind.mp hruns)
      cases hwalk : s.disk.walkFiles root settings.skippedDirNames with
      | ok found =>
          rw [hwalk] at hruns
          obtain ⟨rfl, rfl⟩ := Task.runs_pure.mp hruns
          exact ⟨rfl, rfl⟩
      | error error =>
          rw [hwalk] at hruns
          obtain ⟨_, t, hwarn, hpure⟩ := Task.runs_bind.mp hruns
          obtain ⟨rfl, rfl⟩ := Task.runs_pure.mp hpure
          exact ⟨rfl, (Task.steps_warn (R := KeepsCatalog) _ _ _ _).runs hwarn⟩

end

/-! ## Visits -/

/-- A path that a scan comes to, the disk at that time, and the path that it resolves to. -/
structure Visit where
  path : Path
  disk : Disk
  resolved : Path

namespace Visit

variable (settings : ScanSettings)

/-- What is read on a visit, if anything is: the dialect of the path and the lines of its file. -/
def search? (visit : Visit) : Option (Dialect × List Text) :=
  match dialectOf? settings visit.path, visit.disk.read visit.path with
  | some dialect, .ok bytes => some (dialect, Index.searchedLines bytes)
  | _, _ => none

/-- The number of lines read on a visit that mention a resource. -/
def mentions (r : Resource) (visit : Visit) : Nat :=
  match visit.search? settings with
  | some (dialect, lines) => lines.countP (Reference.Mentions dialect · r)
  | none => 0

variable {settings} (visit : Visit)

theorem search?_of_read {dialect : Dialect} {bytes : Bytes}
    (hdialect : dialectOf? settings visit.path = some dialect)
    (hread : visit.disk.read visit.path = .ok bytes) :
    visit.search? settings = some (dialect, Index.searchedLines bytes) := by
  rw [search?, hdialect, hread]

theorem search?_of_none (hnone : dialectOf? settings visit.path = none
    ∨ ∀ bytes, visit.disk.read visit.path ≠ .ok bytes) : visit.search? settings = none := by
  unfold search?
  split
  · rename_i hdialect hread
    rcases hnone with h | h
    · rw [h] at hdialect
      cases hdialect
    · exact absurd hread (h _)
  · rfl

end Visit

/-- The visits that are the first to the path that they resolve to, and not to one that has been
met. -/
def firstVisits (met : List Path) : List Visit → List Visit
  | [] => []
  | visit :: rest =>
    if visit.resolved ∈ met then firstVisits met rest
    else visit :: firstVisits (met ++ [visit.resolved]) rest

theorem firstVisits_append (met : List Path) (front back : List Visit) :
    firstVisits met (front ++ back)
      = firstVisits met front ++ firstVisits (met ++ (firstVisits met front).map Visit.resolved)
        back := by
  induction front generalizing met with
  | nil => simp [firstVisits]
  | cons visit rest ih =>
      rw [List.cons_append, firstVisits, firstVisits]
      split
      · exact ih met
      · rw [ih, List.cons_append, List.map_cons, List.append_assoc, List.singleton_append]

theorem mem_firstVisits_of_mem {met : List Path} {visits : List Visit} {visit : Visit}
    (hvisit : visit ∈ firstVisits met visits) : visit ∈ visits ∧ visit.resolved ∉ met := by
  induction visits generalizing met with
  | nil => cases hvisit
  | cons first rest ih =>
      rw [firstVisits] at hvisit
      split at hvisit
      · exact ⟨List.mem_cons_of_mem _ (ih hvisit).1, (ih hvisit).2⟩
      · rename_i hmet
        rcases List.mem_cons.mp hvisit with rfl | hvisit
        · exact ⟨List.mem_cons_self, hmet⟩
        · obtain ⟨hmem, hnot⟩ := ih hvisit
          exact ⟨List.mem_cons_of_mem _ hmem, fun h => hnot (List.mem_append_left _ h)⟩

/-- No path is searched twice. -/
theorem nodup_firstVisits (met : List Path) (visits : List Visit) :
    ((firstVisits met visits).map Visit.resolved).Nodup := by
  induction visits generalizing met with
  | nil => exact .nil
  | cons visit rest ih =>
      rw [firstVisits]
      split
      · exact ih met
      · refine List.nodup_cons.mpr ⟨fun hmem => ?_, ih _⟩
        obtain ⟨later, hlater, heq⟩ := List.mem_map.mp hmem
        exact (mem_firstVisits_of_mem hlater).2
          (List.mem_append_right _ (heq ▸ List.mem_singleton_self _))

/-- Every path that is come to and has not been met is searched on its first visit. -/
theorem exists_firstVisit {met : List Path} {visits : List Visit} {visit : Visit}
    (hvisit : visit ∈ visits) (hmet : visit.resolved ∉ met) :
    ∃ first ∈ firstVisits met visits, first.resolved = visit.resolved := by
  induction visits generalizing met with
  | nil => cases hvisit
  | cons other rest ih =>
      rw [firstVisits]
      by_cases hother : other.resolved = visit.resolved
      · rw [if_neg (hother ▸ hmet)]
        exact ⟨other, List.mem_cons_self, hother⟩
      · have hrest := (List.mem_cons.mp hvisit).resolve_left fun h => hother (h ▸ rfl)
        split
        · exact ih hrest hmet
        · have hmet' : visit.resolved ∉ met ++ [other.resolved] := by
            simp [hmet, Ne.symm hother]
          obtain ⟨first, hfirst, heq⟩ := ih hrest hmet'
          exact ⟨first, List.mem_cons_of_mem _ hfirst, heq⟩

end Usage

/-! ## Raised counts -/

/-- In the other catalog, each count has been raised by so much. -/
def Catalog.Raises (added : Resource → Nat) (catalog other : Catalog) : Prop :=
  ∀ r, other.get? r = (catalog.get? r).map fun record =>
    { record with uses := record.uses + added r }

namespace Catalog.Raises

variable {added more : Resource → Nat} {catalog other third : Catalog}

theorem refl (catalog : Catalog) : Raises (fun _ => 0) catalog catalog := by
  intro r
  simp

theorem trans (hfirst : Raises added catalog other) (hsecond : Raises more other third) :
    Raises (fun r => added r + more r) catalog third := by
  intro r
  rw [hsecond r, hfirst r, Option.map_map]
  refine Option.map_congr fun record _ => ?_
  simp only [Function.comp, Nat.add_assoc]

theorem sameFiles (hraises : Raises added catalog other) : catalog.SameFiles other := by
  intro r
  rw [hraises r, Option.map_map]
  rfl

end Catalog.Raises

namespace Usage

/-! ## Tours -/

/-- The number of lines that mention a resource on the visits that are searched. -/
def mentionsOn (settings : ScanSettings) (met : List Path) (visits : List Visit)
    (r : Resource) : Nat :=
  ((firstVisits met visits).map (·.mentions settings r)).sum

/-- What is read on the visits that are searched. -/
def searchesOn (settings : ScanSettings) (met : List Path) (visits : List Visit) :
    List (Dialect × List Text) :=
  (firstVisits met visits).filterMap (·.search? settings)

/-- What a stretch of a scan does along some visits, in the course of a session. -/
structure Tour (during : Disk → Prop) (settings : ScanSettings) (tables : Dialect → List TokenGroup)
    (visits : List Visit) (progress : Progress) (s : Session) (next : Progress) (s' : Session) :
    Prop where
  during : ∀ visit ∈ visits, during visit.disk
  resolves : ∀ visit ∈ visits, visit.disk.resolve visit.path = .ok visit.resolved
  seen : next.seen = progress.seen ++ (firstVisits progress.seen visits).map Visit.resolved
  raises : Catalog.Raises (mentionsOn settings progress.seen visits) s.catalog s'.catalog
  reads : progress.stats.Reads tables (searchesOn settings progress.seen visits) next.stats
  records : s.CanRecord → s'.CanRecord
  /-- A file that cannot be read has been recorded. -/
  skips : ∀ visit ∈ firstVisits progress.seen visits, dialectOf? settings visit.path ≠ none →
    visit.search? settings = none → s'.CanRecord

namespace Tour

variable {during : Disk → Prop} {settings : ScanSettings} {tables : Dialect → List TokenGroup}
  {start s t s' : Session} {visits more : List Visit} {progress middle next : Progress}

theorem refl (hcatalog : s'.catalog = s.catalog) (hrecords : s.CanRecord → s'.CanRecord) :
    Tour during settings tables [] progress s progress s' where
  during := List.forall_mem_nil _
  resolves := List.forall_mem_nil _
  seen := by simp [firstVisits]
  raises := hcatalog ▸ .refl s.catalog
  reads := .refl tables progress.stats
  records := hrecords
  skips := List.forall_mem_nil _

theorem trans (hfirst : Tour during settings tables visits progress s middle t)
    (hsecond : Tour during settings tables more middle t next s') :
    Tour during settings tables (visits ++ more) progress s next s' where
  during visit hvisit :=
    (List.mem_append.mp hvisit).elim (hfirst.during visit) (hsecond.during visit)
  resolves visit hvisit :=
    (List.mem_append.mp hvisit).elim (hfirst.resolves visit) (hsecond.resolves visit)
  seen := by
    rw [hsecond.seen, firstVisits_append, ← hfirst.seen]
    simp [hfirst.seen]
  raises := by
    have hsum : mentionsOn settings progress.seen (visits ++ more) = fun r =>
        mentionsOn settings progress.seen visits r + mentionsOn settings middle.seen more r := by
      funext r
      rw [mentionsOn, firstVisits_append, ← hfirst.seen, List.map_append, List.sum_append]
      rfl
    rw [hsum]
    exact hfirst.raises.trans hsecond.raises
  reads := by
    rw [searchesOn, firstVisits_append, ← hfirst.seen, List.filterMap_append]
    exact hfirst.reads.trans hsecond.reads
  records h := hsecond.records (hfirst.records h)
  skips visit hvisit hdialect hnone := by
    rw [firstVisits_append, ← hfirst.seen] at hvisit
    rcases List.mem_append.mp hvisit with hvisit | hvisit
    · exact hsecond.records (hfirst.skips visit hvisit hdialect hnone)
    · exact hsecond.skips visit hvisit hdialect hnone

theorem mentionsOn_singleton (met : List Path) (visit : Visit) (r : Resource) :
    mentionsOn settings met [visit] r
      = if visit.resolved ∈ met then 0 else visit.mentions settings r := by
  simp only [mentionsOn, firstVisits]
  split <;> simp

/-- A single path is searched unless what it resolves to has been met. -/
theorem scanFile {path : Path} (hduring : during s.disk)
    (hsame : start.catalog.SameFiles s.catalog)
    (hruns : Runs (Usage.scanFile settings (tokenTable start.catalog) progress path) s next s') :
    ∃ resolved,
      Tour during settings (tokenTable start.catalog) [⟨path, s.disk, resolved⟩] progress s
      next s' := by
  obtain ⟨resolved, hresolve, h⟩ := runs_scanFile hruns
  have hrecords : s.CanRecord → s'.CanRecord :=
    (steps_scanFile (R := Preserves Session.CanRecord) settings _ progress path).runs hruns
  refine ⟨resolved, List.forall_mem_singleton.mpr hduring, List.forall_mem_singleton.mpr hresolve,
    ?_, fun r => ?_, ?_, hrecords, fun visit hvisit hdialect' hnone' => ?_⟩
  · rcases h with ⟨hmet, rfl, -⟩ | ⟨hmet, hseen, -⟩
    · simp [firstVisits, hmet]
    · simp [firstVisits, hmet, hseen]
  · rw [mentionsOn_singleton]
    rcases h with ⟨hmet, -, hs⟩ | ⟨hmet, -, ⟨dialect, bytes, hdialect, hread, hcatalog, -⟩ |
      ⟨hnone, hcatalog, -⟩⟩
    · simp [hmet, hs]
    · rw [hcatalog, get?_addLines _ _ _ _ hsame, if_neg hmet, Visit.mentions,
        Visit.search?_of_read ⟨path, s.disk, resolved⟩ hdialect hread]
    · rw [if_neg hmet, Visit.mentions,
        Visit.search?_of_none ⟨path, s.disk, resolved⟩ (hnone.imp_right And.left)]
      simp [hcatalog]
  · rcases h with ⟨hmet, rfl, -⟩ | ⟨hmet, -, ⟨dialect, bytes, hdialect, hread, -, hreads⟩ |
      ⟨hnone, -, hreads⟩⟩
    · simpa [searchesOn, firstVisits, hmet] using ScanStats.Reads.refl _ next.stats
    · simpa [searchesOn, firstVisits, hmet,
        Visit.search?_of_read ⟨path, s.disk, resolved⟩ hdialect hread] using hreads
    · simpa [searchesOn, firstVisits, hmet,
        Visit.search?_of_none ⟨path, s.disk, resolved⟩ (hnone.imp_right And.left)] using hreads
  · obtain ⟨hvisit, hmet⟩ := mem_firstVisits_of_mem hvisit
    obtain rfl := List.mem_singleton.mp hvisit
    rcases h with ⟨hmet', -⟩ | ⟨-, -, ⟨dialect, bytes, hdialect, hread, -⟩ | ⟨hnone, -⟩⟩
    · exact absurd hmet' hmet
    · rw [Visit.search?_of_read ⟨path, s.disk, resolved⟩ hdialect hread] at hnone'
      cases hnone'
    · exact (hnone.resolve_left hdialect').2

theorem steps_scanFiles {R : Session → Session → Prop} [IsCounted R] (settings : ScanSettings)
    (tables : Dialect → List TokenGroup) (files : List Path) (progress : Progress) :
    Steps R (files.foldlM (Usage.scanFile settings tables) progress) :=
  .foldlM (fun progress path _ => steps_scanFile settings tables progress path) progress

theorem steps_scanRoots {R : Session → Session → Prop} [IsCounted R] (settings : ScanSettings)
    (tables : Dialect → List TokenGroup) (roots : List Path) (progress : Progress) :
    Steps R (roots.foldlM (fun progress root => do
      (← filesOf settings root).foldlM (Usage.scanFile settings tables) progress) progress) :=
  .foldlM (fun progress root _ => (steps_filesOf settings root).bind fun files =>
    steps_scanFiles settings tables files progress) progress

/-- The paths of a list are come to one after the other. -/
theorem scanFiles {R : Session → Session → Prop} [IsCounted R] {files : List Path}
    (hduring : ∀ t, R s t → R t s' → during t.disk) (hsame : start.catalog.SameFiles s.catalog)
    (hruns : Runs
      (files.foldlM (Usage.scanFile settings (tokenTable start.catalog)) progress) s next
      s') :
    ∃ visits, visits.map Visit.path = files
      ∧ Tour during settings (tokenTable start.catalog) visits progress s next s' := by
  induction files generalizing progress s with
  | nil =>
      obtain ⟨rfl, rfl⟩ := Task.runs_foldlM_nil.mp hruns
      exact ⟨[], rfl, .refl rfl id⟩
  | cons path rest ih =>
      obtain ⟨middle, t, hfile, hrest⟩ := Task.runs_foldlM_cons.mp hruns
      have hst : R s t := (steps_scanFile _ _ _ _).runs hfile
      have hts' : R t s' := (steps_scanFiles settings _ rest middle).runs hrest
      obtain ⟨resolved, hfirst⟩ := scanFile
        (hduring s (Task.IsRun.refl s) (Task.IsRun.trans hst hts')) hsame hfile
      obtain ⟨visits, rfl, htour⟩ :=
        ih (fun u htu hus' => hduring u (Task.IsRun.trans hst htu) hus')
        (hsame.trans hfirst.raises.sameFiles) hrest
      exact ⟨_, rfl, hfirst.trans htour⟩

/-- The roots of a list are come to one after the other, and the files of each are listed then. -/
theorem scanRoots {R : Session → Session → Prop} [IsCounted R] {roots : List Path}
    (hduring : ∀ t, R s t → R t s' → during t.disk) (hsame : start.catalog.SameFiles s.catalog)
    (hruns : Runs (roots.foldlM (fun progress root => do
        (← filesOf settings root).foldlM (Usage.scanFile settings (tokenTable start.catalog))
          progress)
      progress) s next s') :
    ∃ visits, ListsRoots settings during roots (visits.map Visit.path)
      ∧ Tour during settings (tokenTable start.catalog) visits progress s next s' := by
  induction roots generalizing progress s with
  | nil =>
      obtain ⟨rfl, rfl⟩ := Task.runs_foldlM_nil.mp hruns
      exact ⟨[], .nil, .refl rfl id⟩
  | cons root rest ih =>
      obtain ⟨middle, t, hroot, hrest⟩ := Task.runs_foldlM_cons.mp hruns
      obtain ⟨files, u, hfiles, hscan⟩ := Task.runs_bind.mp hroot
      have hsu : R s u := (steps_filesOf settings root).runs hfiles
      have hut : R u t := (steps_scanFiles settings _ files progress).runs hscan
      have hts' : R t s' := (steps_scanRoots settings _ rest middle).runs hrest
      have hus' : R u s' := Task.IsRun.trans hut hts'
      have hst : R s t := Task.IsRun.trans hsu hut
      obtain ⟨rfl, hcatalog⟩ := runs_filesOf hfiles
      obtain ⟨visits, hpaths, hfirst⟩ := scanFiles (R := R)
        (fun v huv hvt => hduring v (Task.IsRun.trans hsu huv) (Task.IsRun.trans hvt hts'))
        (by rwa [hcatalog]) hscan
      have hnone : Tour during settings (tokenTable start.catalog) [] progress s progress u :=
        .refl hcatalog
          ((steps_filesOf (R := Preserves Session.CanRecord) settings root).runs hfiles)
      have hboth := hnone.trans hfirst
      obtain ⟨more, hlists, hrests⟩ :=
        ih (fun v htv hvs' => hduring v (Task.IsRun.trans hst htv) hvs')
        (hsame.trans hboth.raises.sameFiles) hrest
      refine ⟨_, ?_, hboth.trans hrests⟩
      rw [List.nil_append, List.map_append, hpaths]
      exact .cons (hduring s (Task.IsRun.refl s) (Task.IsRun.trans hsu hus')) root hlists

end Tour

/-- The files that are come to first: the manifest, if there is to be one. -/
def manifestsOn (disk : Disk) : Option Path → List Path
  | none => []
  | some manifest => manifestOn disk manifest

theorem runs_manifests {manifest : Option Path} {files : List Path} {s s' : Session}
    (hruns : Runs (manifestFiles manifest) s files s') :
    files = manifestsOn s.disk manifest ∧ s'.catalog = s.catalog := by
  cases manifest with
  | none =>
      obtain ⟨rfl, rfl⟩ := Task.runs_pure.mp hruns
      exact ⟨rfl, rfl⟩
  | some manifest => exact runs_manifestFiles hruns

/-- The disk is one that there is in the course of a session. -/
def Passes (R : Session → Session → Prop) (s s' : Session) (disk : Disk) : Prop :=
  ∃ t, R s t ∧ R t s' ∧ t.disk = disk

/-- A scan makes a tour of the manifest and the files of the roots. -/
theorem exists_tour (R : Session → Session → Prop) [IsCounted R] {settings : ScanSettings}
    {roots : List Path} {manifest : Option Path} {stats : ScanStats} {s s' : Session}
    (hruns : Runs (scan settings roots manifest) s stats s') :
    ∃ visits rest next, visits.map Visit.path = manifestsOn s.disk manifest ++ rest
      ∧ ListsRoots settings (Passes R s s') roots rest
      ∧ Tour (Passes R s s') settings (tokenTable s.catalog) visits .start s next s' := by
  obtain ⟨files, t, hfiles, hruns⟩ := Task.runs_bind.mp (Task.runs_get_bind.mp hruns)
  obtain ⟨first, u, hscan, hruns⟩ := Task.runs_bind.mp hruns
  obtain ⟨next, v, hrest, hpure⟩ := Task.runs_bind.mp hruns
  obtain ⟨-, rfl⟩ := Task.runs_pure.mp hpure
  have hst : R s t := (steps_manifestFiles _).runs hfiles
  have htu : R t u := (Tour.steps_scanFiles settings _ files .start).runs hscan
  have hus' : R u s' := (Tour.steps_scanRoots settings _ roots first).runs hrest
  have hsu : R s u := Task.IsRun.trans hst htu
  obtain ⟨rfl, hcatalog⟩ := runs_manifests hfiles
  have hpasses : ∀ v, R t v → R v u → Passes R s s' v.disk := fun v htv hvu =>
    ⟨v, Task.IsRun.trans hst htv, Task.IsRun.trans hvu hus', rfl⟩
  have hpasses' : ∀ v, R u v → R v s' → Passes R s s' v.disk := fun v huv hvs' =>
    ⟨v, Task.IsRun.trans hsu huv, hvs', rfl⟩
  obtain ⟨visits, hpaths, hfirst⟩ := Tour.scanFiles hpasses (hcatalog ▸ .refl _) hscan
  have hnone : Tour (Passes R s s') settings (tokenTable s.catalog) [] .start s .start t :=
    .refl hcatalog ((steps_manifestFiles (R := Preserves Session.CanRecord) manifest).runs hfiles)
  have hboth := hnone.trans hfirst
  obtain ⟨more, hlists, hrests⟩ := Tour.scanRoots hpasses' hboth.raises.sameFiles hrest
  refine ⟨_, _, next, ?_, hlists, hboth.trans hrests⟩
  rw [List.nil_append, List.map_append, hpaths]

end Usage

end ResourcePruner
