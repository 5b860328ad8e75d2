import ResourcePruner.Proofs.Prospect
import ResourcePruner.Proofs.Removal.Outcome

/-!
# Passes that change nothing

A pass that has nothing to delete and rewrites no definition file leaves all files as they are, and
none of them could have been pruned (`Removal.not_isPrunable_of_idle`). On another disk with the
same files a pass comes to the same (`Prospect.exists_removeUnused`): it enters every unused
resource as failed, and adds to the log only.
-/

namespace ResourcePruner

open Disk (Extends Same)
open ResourcePruner.Task (Runs IsLogged IsRun)

namespace Removal

variable {s s' : Session} {entries : List (Resource × Record)}
  {init found : List (Path × List Resource)}
  {files : List Path} {removal next : Removal} {store : Backup.Store}

/-! ## A pass that has changed nothing -/

/-- Resources of the catalog are unused only if they are inline ones. -/
def IsInline (catalog : Catalog) : Prop :=
  ∀ entry ∈ catalog.unused, entry.1.category.isInline = true

/-- If no file has been pruned, no file has been written. -/
theorem runs_pruneEach_idle {R : Session → Session → Prop} [IsLogged R]
    (hruns : Runs (files.foldlM (pruneNext entries) init) s [] s') : R s s' := by
  induction files generalizing init s with
  | nil =>
      obtain ⟨-, rfl⟩ := Task.runs_foldlM_nil.mp hruns
      exact IsRun.refl _
  | cons file rest ih =>
      obtain ⟨pruned, t, hfirst, hrest⟩ := Task.runs_foldlM_cons.mp hruns
      obtain ⟨taken, hprune, rfl⟩ := runs_pruneNext hfirst
      rcases runs_pruneFile (R := R) hprune with ⟨-, hst, -⟩ | ⟨_, _, _, _, -, -, -, -, rfl, -⟩
      · exact IsRun.trans hst (ih hrest)
      · -- A file that was written would have been entered.
        cases mem_pruneEach_of_mem hrest (List.mem_append_right _ List.mem_cons_self)

/-- The parts of a pass that has nothing to delete and prunes no file. -/
theorem runs_removeUnused_idle (hruns : Runs (removeUnused store) s removal s')
    (hinline : IsInline s.catalog) (hpruned : removal.prunedFiles = []) : ∃ t u,
      Runs (pruneFiles (s.catalog.unused.filter (·.1.category.isInline))) s [] t
        ∧ Runs ((s.catalog.unused.filter (·.1.category.isInline)).foldlM (settleInline []) nothing)
            t removal u
        ∧ s' = { u with catalog :=
            (u.catalog.evictAll (s.catalog.unused.map Prod.fst)).resetUses } := by
  obtain ⟨pruned, settled, t, u, v, hprune, hsettle, hremove, rfl⟩ := runs_removeUnused hruns
  have hwhole : (s.catalog.unused.filter fun entry => !entry.1.category.isInline) = [] :=
    List.filter_eq_nil_iff.mpr fun entry hentry => by simp [hinline entry hentry]
  rw [hwhole] at hremove
  obtain ⟨rfl, rfl⟩ := Task.runs_foldlM_nil.mp hremove
  obtain rfl : pruned = [] :=
    List.map_eq_nil_iff.mp ((prunedFiles_of_settle hsettle).symm.trans hpruned)
  exact ⟨t, v, hprune, hsettle, rfl⟩

/-- Nothing has happened in such a pass but that events were added to the log. -/
theorem steps_of_idle {R : Session → Session → Prop} [IsLogged R]
    (hcatalog : ∀ t catalog, R t { t with catalog })
    (hruns : Runs (removeUnused store) s removal s')
    (hinline : IsInline s.catalog) (hpruned : removal.prunedFiles = []) : R s s' := by
  obtain ⟨t, u, hprune, hsettle, rfl⟩ := runs_removeUnused_idle hruns hinline hpruned
  have hst : R s t := runs_pruneEach_idle hprune
  have htu : R t u := (steps_settle _ _ _).runs hsettle
  exact IsRun.trans hst (IsRun.trans htu (hcatalog u _))

/-- None of the definition files could have been pruned of what is unused. -/
theorem not_isPrunable_of_idle {scene : Scene} (hhas : scene.Has s)
    (hlast : Extends s'.disk scene.last)
    (hlies : s.catalog.LiesOn scene.first) (hruns : Runs (removeUnused store) s removal s')
    (hinline : IsInline s.catalog) (hpruned : removal.prunedFiles = []) {entry : Resource × Record}
    (hentry : entry ∈ s.catalog.unused) {file : Path} (hfile : file ∈ entry.2.files) {place : Place}
    (hstands : scene.first.Stands file place) (hshown : ¬ scene.hidden place) {content : Bytes}
    (hcontent : s.disk.get? place = some (.file content)) (hlooked : Disk.IsLookedUp file) :
    ¬ IsPrunable (doomedBy s.catalog file) content := by
  obtain ⟨t, u, hprune, hsettle, rfl⟩ := runs_removeUnused_idle hruns hinline hpruned
  have htu : Frame scene Nowhere Same t u := (frames_of_settled hhas hlies hprune hsettle).2
  have hhas' := Catalog.has_of_mem_unused hentry hfile
  have hmem : file
      ∈ Path.sorted ((s.catalog.unused.filter (·.1.category.isInline)).flatMap (·.2.files)) := by
    refine (Path.mem_sorted fun path hpath => ?_).mpr
      (List.mem_flatMap.mpr ⟨entry, List.mem_filter.mpr ⟨hentry, hinline entry hentry⟩, hfile⟩)
    obtain ⟨other, hother, hpath⟩ := List.mem_flatMap.mp hpath
    obtain ⟨_, hstands⟩ := hlies.stands _ _
      (Catalog.has_of_mem_unused (List.mem_filter.mp hother).1 hpath)
    exact hstands.isAbsolute
  rcases pruneEach_cases hhas (htu.stays.trans hlast) (Path.nodup_sorted _) hstands hshown
      (stands_of_mem_sorted hlies hhas' hstands) hcontent hprune (fun _ => List.not_mem_nil) with
    ⟨-, -, hwhy⟩ | ⟨text, -, -, -, -, hremoved, -⟩
  · exact hwhy hmem hlooked
  · cases (hremoved _).mpr rfl

end Removal

/-! ## Another one -/

namespace Prospect

open Removal (IsPrunable IsInline)

variable {prospect : Prospect} {alike : Catalog → Catalog → Prop} {s d : Session}
  {entries : List (Resource × Record)} {removal : Removal} {path : Path} {doomed : Doomed}

theorem exists_pruneText (hagree : prospect.Agree alike s d) {text : Text}
    (hnot : (Pruning.ofLines doomed (Text.linesWithEnds text)).unterminated = none →
      (Pruning.ofLines doomed (Text.linesWithEnds text)).shouldWrite = false) :
    ∃ d', Runs (Removal.pruneText path doomed text) d none d' ∧ prospect.Agree alike s d' := by
  have hwarns : ∀ {d : Session}, prospect.Agree alike s d → ∀ code message, ∃ d',
      Runs (Removal.warnDefinition code message path) d () d' ∧ prospect.Agree alike s d' :=
    fun hagree code message => exists_warn hagree _ _ _ (by simp)
  unfold Removal.pruneText
  generalize Pruning.ofLines doomed (Text.linesWithEnds text) = pruning at hnot ⊢
  cases hopen : pruning.unterminated with
  | some block =>
      obtain ⟨d', hwarn, hagree'⟩ := hwarns hagree _ _
      simp only [hopen]
      exact ⟨d', Task.runs_bind.mpr ⟨(), d', hwarn, Task.runs_pure.mpr ⟨rfl, rfl⟩⟩, hagree'⟩
  | none =>
      have hwrites : ∀ {d}, prospect.Agree alike s d → ∃ d',
          Runs (Removal.writePruned path pruning) d none d' ∧ prospect.Agree alike s d' := by
        intro d hagree
        unfold Removal.writePruned
        simp only [hnot hopen, Bool.not_false, if_true]
        split
        · obtain ⟨d', hwarn, hagree'⟩ := hwarns hagree _ _
          exact ⟨d', Task.runs_bind.mpr ⟨(), d', hwarn, Task.runs_pure.mpr ⟨rfl, rfl⟩⟩, hagree'⟩
        · exact ⟨d, Task.runs_pure.mpr ⟨rfl, rfl⟩, hagree⟩
      simp only [hopen]
      split
      · obtain ⟨d₁, hwarn, hagree₁⟩ := hwarns hagree _ _
        obtain ⟨d', hwrite, hagree'⟩ := hwrites hagree₁
        exact ⟨d', Task.runs_bind.mpr ⟨(), d₁, hwarn, hwrite⟩, hagree'⟩
      · exact hwrites hagree

/-- A file that cannot be pruned stays as it is. -/
theorem exists_pruneFile (hagree : prospect.Agree alike s d) {content : Bytes}
    (hread : d.disk.read path = .ok content) (hnot : ¬ IsPrunable doomed content) :
    ∃ d', Runs (Removal.pruneFile path doomed) d none d' ∧ prospect.Agree alike s d' := by
  have hcontent : Runs (Task.refusable (d.disk.read path)) d (.ok content) d := by
    rw [hread]
    exact Task.runs_pure.mpr ⟨rfl, rfl⟩
  cases hdecode : Utf8.decode? content with
  | error fault =>
      have hdata : Datum.AreShallow [("path", .path path)] := by simp
      obtain ⟨d', hwarn, hagree'⟩ := exists_warn hagree "rewrite" "UNREADABLE_FILE" _ hdata
      refine ⟨d', Task.runs_disk_bind.mpr (Task.runs_bind.mpr ⟨_, d, hcontent, ?_⟩), hagree'⟩
      simp only [hdecode]
      exact Task.runs_bind.mpr ⟨(), d', hwarn, Task.runs_pure.mpr ⟨rfl, rfl⟩⟩
  | ok text =>
      have hunwritten : (Pruning.ofLines doomed (Text.linesWithEnds text)).unterminated = none →
          (Pruning.ofLines doomed (Text.linesWithEnds text)).shouldWrite = false := fun hended =>
        Bool.eq_false_iff.mpr fun hwrite => hnot ⟨text, hdecode, hended, hwrite⟩
      obtain ⟨d', hprune, hagree'⟩ := exists_pruneText hagree hunwritten
      refine ⟨d', Task.runs_disk_bind.mpr (Task.runs_bind.mpr ⟨_, d, hcontent, ?_⟩), hagree'⟩
      simpa only [hdecode] using hprune

/-- So do any number of them. -/
theorem exists_pruneEach {files : List Path} {init : List (Path × List Resource)}
    (hfiles : ∀ file ∈ files, ∃ content,
      (∀ {d}, prospect.Agree alike s d → d.disk.read file = .ok content)
      ∧ ¬ IsPrunable (Removal.doomedIn entries file) content)
    (hagree : prospect.Agree alike s d) :
    ∃ d', Runs (files.foldlM (Removal.pruneNext entries) init) d init d'
      ∧ prospect.Agree alike s d' := by
  induction files generalizing d with
  | nil => exact ⟨d, Task.runs_foldlM_nil.mpr ⟨rfl, rfl⟩, hagree⟩
  | cons file rest ih =>
      obtain ⟨⟨content, hread, hnot⟩, hrest⟩ := List.forall_mem_cons.mp hfiles
      obtain ⟨d₁, hprune, hagree₁⟩ := exists_pruneFile hagree (hread hagree) hnot
      obtain ⟨d', hothers, hagree'⟩ := ih hrest hagree₁
      refine ⟨d', Task.runs_foldlM_cons.mpr ⟨init, d₁, ?_, hothers⟩, hagree'⟩
      exact Task.runs_bind.mpr ⟨none, d₁, hprune, Task.runs_pure.mpr ⟨rfl, rfl⟩⟩

/-- If no file has been pruned, every inline resource has failed. -/
theorem exists_settle (hagree : prospect.Agree alike s d) (entries : List (Resource × Record))
    (removal : Removal) : ∃ next d',
    Runs (entries.foldlM (Removal.settleInline []) removal) d next d'
      ∧ next.removed = removal.removed ∧ prospect.Agree alike s d' := by
  induction entries generalizing d removal with
  | nil => exact ⟨removal, d, Task.runs_foldlM_nil.mpr ⟨rfl, rfl⟩, rfl, hagree⟩
  | cons entry rest ih =>
      obtain ⟨resource, record⟩ := entry
      have hnot : Removal.isTakenOut [] resource record.files = false := by
        cases hfiles : record.files <;> simp [Removal.isTakenOut]
      have hdata : Datum.AreShallow
          (("paths", .paths record.files) :: Removal.resourceData resource) := by
        simp [Removal.resourceData]
      obtain ⟨event, d₁, hrecord, hagree₁⟩ :=
        exists_record hagree "remove" false (some "REWRITE_INCOMPLETE") hdata
      obtain ⟨next, d', hothers, hremoved, hagree'⟩ := ih hagree₁
        { removal with failed := removal.failed ++ [resource] }
      refine ⟨next, d', Task.runs_foldlM_cons.mpr ⟨_, d₁, ?_, hothers⟩, hremoved, hagree'⟩
      simp only [Removal.settleInline, hnot, Bool.false_eq_true, if_false]
      exact Task.runs_bind.mpr ⟨(), d₁, Task.runs_discard.mpr ⟨event, hrecord⟩,
        Task.runs_pure.mpr ⟨rfl, rfl⟩⟩

/-- A pass in the other session removes nothing if it has nothing to delete and nothing can be
pruned. -/
theorem exists_removeUnused (store : Backup.Store) (hagree : prospect.Agree alike s d)
    (hinline : IsInline d.catalog) (hfiles : ∀ entry ∈ d.catalog.unused, ∀ file ∈ entry.2.files,
      ∃ content, (∀ {d}, prospect.Agree alike s d → d.disk.read file = .ok content)
        ∧ ¬ IsPrunable (Removal.doomedBy d.catalog file) content) :
    ∃ removal d', Runs (Removal.removeUnused store) d removal d' ∧ removal.removed = []
      ∧ prospect.Agree (fun _ _ => True) s d' := by
  obtain ⟨d₁, hprune, hagree₁⟩ : ∃ d₁,
      Runs (Removal.pruneFiles (d.catalog.unused.filter (·.1.category.isInline))) d [] d₁
        ∧ prospect.Agree alike s d₁ := by
    refine exists_pruneEach (fun file hfile => ?_) hagree
    obtain ⟨entry, hentry, hmem⟩ := List.mem_flatMap.mp (Path.mem_of_mem_sorted hfile)
    exact hfiles entry (List.mem_filter.mp hentry).1 file hmem
  obtain ⟨removal, d₂, hsettle, hremoved, hagree₂⟩ :=
    exists_settle hagree₁ (d.catalog.unused.filter (·.1.category.isInline)) .nothing
  have hwhole : (d.catalog.unused.filter fun entry => !entry.1.category.isInline) = [] :=
    List.filter_eq_nil_iff.mpr fun entry hentry => by simp [hinline entry hentry]
  refine ⟨removal, { d₂ with catalog :=
    (d₂.catalog.evictAll (d.catalog.unused.map Prod.fst)).resetUses }, ?_, hremoved,
    { hagree₂ with catalog := trivial }⟩
  refine Task.runs_get_bind.mpr (Task.runs_bind.mpr ⟨[], d₁, hprune,
    Task.runs_bind.mpr ⟨removal, d₂, hsettle, Task.runs_bind.mpr ⟨removal, d₂, ?_, ?_⟩⟩⟩)
  · rw [hwhole]
    exact Task.runs_foldlM_nil.mpr ⟨rfl, rfl⟩
  · exact Task.runs_bind.mpr ⟨(), _, Task.runs_modify.mpr rfl, Task.runs_pure.mpr ⟨rfl, rfl⟩⟩

end Prospect

end ResourcePruner
