import ResourcePruner.Proofs.Definition.Verdicts
import ResourcePruner.Proofs.Index.Order
import ResourcePruner.Proofs.Removal.Reindex

/-!
# What a pass accounts for

Whatever a pass takes away it reports: a resource in use keeps its files, one that the pass enters
as failed keeps at least one of them, and so a resource that is not found again is among those
removed (`Removal.accounts_of_isApart`).
-/

namespace ResourcePruner

open Disk (Extends Same IsChange Stands)
open Index (declaredIn)

/-! ## Lines that stay -/

/-- A resource that is declared and not taken out is declared still. -/
theorem Prunes.declared_of_not_mem_removed {doomed : Doomed} {before : Bytes} {text : Text}
    {r : Resource} (hdecode : Utf8.decode? before = .ok text)
    (hr : r ∉ (Pruning.ofLines doomed (Text.linesWithEnds text)).removed)
    (hdeclared : r ∈ declaredIn before) :
    r ∈ declaredIn (Utf8.encode (Pruning.ofLines doomed (Text.linesWithEnds text)).text) := by
  rw [declaredIn_of_decode? hdecode] at hdeclared
  obtain ⟨line, hline, hdeclared⟩ := List.mem_flatMap.mp hdeclared
  have hkept :
      line ∈ (Text.linesWithEnds text).filter (fun line => r ∈ Declaration.resourcesOn line) :=
    List.mem_filter.mpr ⟨hline, decide_eq_true hdeclared⟩
  rw [← Pruning.filter_lines_of_not_mem_removed hr] at hkept
  rw [Prunes.declaredIn_eq hdecode]
  exact List.mem_flatMap.mpr ⟨line, (List.mem_filter.mp hkept).1, hdeclared⟩

/-- A resource that is not doomed and declared before is declared afterwards. -/
theorem Prunes.declared_of_not_doomed {doomed : Doomed} {before after : Bytes} {r : Resource}
    (hprunes : Prunes doomed before after) (hr : doomed r = false)
    (hdeclared : r ∈ declaredIn before) : r ∈ declaredIn after := by
  obtain ⟨text, hdecode, rfl⟩ := hprunes
  refine declared_of_not_mem_removed hdecode (fun hremoved => ?_) hdeclared
  rw [Pruning.doomed_of_mem_removed hremoved] at hr
  cases hr

/-- A declared resource stays declared. -/
def StaysDeclared (r : Resource) (_place : Place) (before after : Bytes) : Prop :=
  r ∈ declaredIn before → r ∈ declaredIn after

instance (r : Resource) : IsChange (StaysDeclared r) where
  refl _ _ := id
  trans hfirst hsecond h := hsecond (hfirst h)

namespace Removal

open ResourcePruner.Task (Runs Steps IsRun)

/-! ## Removed or failed -/

section

variable {pruned : List (Path × List Resource)} {store : Backup.Store} {s s' : Session}
  {removal next : Removal} {r : Resource}

/-- The resource has been entered as removed or failed. -/
def Reports (removal : Removal) (r : Resource) : Prop :=
  r ∈ removal.removed ∨ r ∈ removal.failed

theorem reports_removed {other : Resource} (hr : removal.Reports r ∨ r = other) :
    Reports { removal with removed := removal.removed ++ [other] } r := by
  rcases hr with (h | h) | rfl
  · exact .inl (List.mem_append_left _ h)
  · exact .inr h
  · exact .inl (List.mem_append_right _ List.mem_cons_self)

theorem reports_failed {other : Resource} (hr : removal.Reports r ∨ r = other) :
    Reports { removal with failed := removal.failed ++ [other] } r := by
  rcases hr with (h | h) | rfl
  · exact .inl h
  · exact .inr (List.mem_append_left _ h)
  · exact .inr (List.mem_append_right _ List.mem_cons_self)

theorem reports_settleInline {entry : Resource × Record}
    (hruns : Runs (settleInline pruned removal entry) s next s')
    (hr : removal.Reports r ∨ r = entry.1) : next.Reports r := by
  rcases settleInline_cases hruns with ⟨-, rfl⟩ | ⟨-, rfl⟩
  · exact reports_removed hr
  · exact reports_failed hr

theorem reports_removeFiles {other : Resource} {record : Record} {left : List Path}
    (hruns : Runs (removeFiles store other record left removal) s next s')
    (hr : removal.Reports r ∨ r = other) : next.Reports r := by
  induction left generalizing removal s with
  | nil =>
      obtain ⟨_, t, -, hpure⟩ := Task.runs_bind.mp hruns
      obtain ⟨rfl, -⟩ := Task.runs_pure.mp hpure
      exact reports_removed hr
  | cons file rest ih =>
      obtain ⟨archived, t, -, hruns⟩ := Task.runs_bind.mp hruns
      cases archived with
      | error failure => exact eq_of_failFile hruns ▸ reports_failed hr
      | ok backup =>
          obtain ⟨unlinked, u, -, hruns⟩ := Task.runs_bind.mp hruns
          cases unlinked with
          | error failure => exact eq_of_failFile hruns ▸ reports_failed hr
          | ok _ =>
              obtain ⟨_, v, -, hruns⟩ := Task.runs_bind.mp hruns
              exact ih hruns hr

/-- Along a list, what was reported stays so, and each of the items is. -/
theorem reports_foldlM {f : Removal → Resource × Record → Task Removal}
    (hf : ∀ {removal entry s next s'}, Runs (f removal entry) s next s' →
      removal.Reports r ∨ r = entry.1 → next.Reports r)
    {entries : List (Resource × Record)} (hruns : Runs (entries.foldlM f removal) s next s')
    (hr : removal.Reports r ∨ ∃ record, (r, record) ∈ entries) : next.Reports r := by
  induction entries generalizing removal s with
  | nil =>
      obtain ⟨rfl, -⟩ := Task.runs_foldlM_nil.mp hruns
      exact hr.resolve_right (by simp)
  | cons entry rest ih =>
      obtain ⟨middle, t, hfirst, hrest⟩ := Task.runs_foldlM_cons.mp hruns
      refine ih hrest ?_
      rcases hr with h | ⟨record, hrecord⟩
      · exact .inl (hf hfirst (.inl h))
      · rcases List.mem_cons.mp hrecord with h | h
        · exact .inl (hf hfirst (.inr (congrArg Prod.fst h)))
        · exact .inr ⟨record, h⟩

/-- Every unused resource is entered as removed or failed. -/
theorem reports_of_mem_unused (hruns : Runs (removeUnused store) s removal s') {record : Record}
    (hunused : (r, record) ∈ s.catalog.unused) : removal.Reports r := by
  obtain ⟨pruned, settled, t, u, v, -, hsettle, hremove, -⟩ := runs_removeUnused hruns
  refine reports_foldlM (fun h => reports_removeFiles h) hremove ?_
  cases hkind : r.category.isInline with
  | true =>
      exact .inl (reports_foldlM (fun h => reports_settleInline h) hsettle
        (.inr ⟨record, List.mem_filter.mpr ⟨hunused, hkind⟩⟩))
  | false => exact .inr ⟨record, List.mem_filter.mpr ⟨hunused, by simp [hkind]⟩⟩

end

/-! ## Inline resources that failed -/

section

variable {pruned : List (Path × List Resource)} {store : Backup.Store} {scene : Scene}
  {s s' : Session} {removal next : Removal} {r : Resource}

theorem failed_of_settleInline {entry : Resource × Record}
    (hruns : Runs (settleInline pruned removal entry) s next s') (hr : r ∈ next.failed) :
    r ∈ removal.failed ∨ (r = entry.1 ∧ isTakenOut pruned r entry.2.files = false) := by
  rcases settleInline_cases hruns with ⟨-, rfl⟩ | ⟨hkept, rfl⟩
  · exact .inl hr
  · refine (List.mem_append.mp hr).imp_right fun h => ?_
    obtain rfl := List.mem_singleton.mp h
    exact ⟨rfl, hkept⟩

/-- An inline resource that is entered as failed was not taken out of all of its files. -/
theorem failed_of_settle {entries : List (Resource × Record)}
    (hruns : Runs (entries.foldlM (settleInline pruned) removal) s next s')
    (hr : r ∈ next.failed) :
    r ∈ removal.failed ∨
      ∃ record, (r, record) ∈ entries ∧ isTakenOut pruned r record.files = false := by
  induction entries generalizing removal s with
  | nil =>
      obtain ⟨rfl, -⟩ := Task.runs_foldlM_nil.mp hruns
      exact .inl hr
  | cons entry rest ih =>
      obtain ⟨middle, t, hfirst, hrest⟩ := Task.runs_foldlM_cons.mp hruns
      rcases ih hrest with h | ⟨record, hrecord, htaken⟩
      · refine (failed_of_settleInline hfirst h).imp_right ?_
        rintro ⟨rfl, htaken⟩
        exact ⟨entry.2, List.mem_cons_self, htaken⟩
      · exact .inr ⟨record, List.mem_cons_of_mem _ hrecord, htaken⟩

/-! ## Other resources that failed -/

theorem failed_failFile {other : Resource} {path : Path} {code : Text} {failure : Failure}
    (hruns : Runs (failFile other path code failure removal) s next s') (hr : r ∈ next.failed) :
    r ∈ removal.failed ∨ r = other := by
  obtain rfl := eq_of_failFile hruns
  exact (List.mem_append.mp hr).imp_right List.mem_singleton.mp

/-- Files that stand at no common place. -/
def StandApart (disk : Disk) (file file' : Path) : Prop :=
  ∀ place, disk.Stands file place → ¬ disk.Stands file' place

/-- A resource that is a file and is entered as failed keeps the file at which that happens. -/
theorem frame_of_failed (hhas : scene.Has s) (hbackups : scene.backups = some store.directory)
    {other : Resource} {record : Record} {left : List Path}
    (hleft : ∀ file ∈ left, ∃ place, scene.first.Stands file place)
    (hapart : left.Pairwise (StandApart scene.first))
    (hruns : Runs (removeFiles store other record left removal) s next s')
    (hr : r ∈ next.failed) :
    r ∈ removal.failed ∨ (r = other ∧ ∃ file ∈ left, ∃ place, scene.first.Stands file place
      ∧ Frame scene (· ≠ place) Same s s') := by
  induction left generalizing removal s with
  | nil =>
      obtain ⟨_, t, -, hpure⟩ := Task.runs_bind.mp hruns
      obtain ⟨rfl, -⟩ := Task.runs_pure.mp hpure
      exact .inl hr
  | cons file rest ih =>
      obtain ⟨⟨place, hstands⟩, hrest⟩ := List.forall_mem_cons.mp hleft
      obtain ⟨hfile, hapart'⟩ := List.pairwise_cons.mp hapart
      obtain ⟨goal, hgoal, -⟩ := hstands.locates
      obtain ⟨archived, t, harchive, hruns⟩ := Task.runs_bind.mp hruns
      have hframes : Steps (Frames scene Nowhere Same) (store.archive file) :=
        Backup.frames_archive hbackups hstands.isAbsolute hgoal hstands.isDown_name
      have hst : Frame scene Nowhere Same s t := .of_steps hhas harchive hframes.attempt
      cases archived with
      | error failure =>
          refine (failed_failFile hruns hr).imp_right fun heq => ⟨heq, file, List.mem_cons_self,
            place, hstands, hst.of_same.trans ?_⟩
          exact .of_steps hst.has hruns (steps_failFile _ _ _ _ _)
      | ok backup =>
          obtain ⟨unlinked, u, hunlink, hrest'⟩ := Task.runs_bind.mp hruns
          rcases Task.runs_attempt_changeDisk hunlink with
            ⟨error, -, rfl, rfl⟩ | ⟨disk, -, rfl, -⟩
          · refine (failed_failFile hrest' hr).imp_right fun heq =>
              ⟨heq, file, List.mem_cons_self, place, hstands, hst.of_same.trans ?_⟩
            exact .of_steps hst.has hrest' (steps_failFile _ _ _ _ _)
          · have hunlinks : Steps (Frames scene (· = place) Same)
                (Task.changeDisk (·.unlink file)) := frames_unlink hstands rfl
            have htu : Frame scene (· = place) Same t u :=
              .of_steps hst.has hunlink hunlinks.attempt
            obtain ⟨_, v, hnote, hrest'⟩ := Task.runs_bind.mp hrest'
            have huv : Frame scene (· = place) Same u v :=
              .of_steps htu.has hnote (Task.steps_succeed _ _)
            refine (ih huv.has hrest hapart' hrest').imp_right ?_
            rintro ⟨heq, file', hmem, place', hstands', hvs'⟩
            refine ⟨heq, file', List.mem_cons_of_mem _ hmem, place', hstands',
              hst.of_same.trans (Frame.trans ?_ hvs')⟩
            refine (htu.trans huv).imp (fun other hother => ?_) fun _ _ _ _ h => h
            rintro rfl
            exact hfile file' hmem other (hother ▸ hstands) hstands'

/-- Of several resources that are removed one after the other, too. -/
theorem frame_of_failedEach (hhas : scene.Has s) (hbackups : scene.backups = some store.directory)
    {entries : List (Resource × Record)}
    (hentries : ∀ entry ∈ entries, ∀ file ∈ entry.2.files, ∃ place, scene.first.Stands file place)
    (hown : ∀ entry ∈ entries, entry.2.files.Pairwise (StandApart scene.first))
    (hapart : entries.Pairwise fun a b => ∀ file ∈ a.2.files, ∀ file' ∈ b.2.files,
      StandApart scene.first file file')
    (hruns : Runs (entries.foldlM (removeNext store) removal) s next s') (hr : r ∈ next.failed) :
    r ∈ removal.failed ∨ ∃ record, (r, record) ∈ entries ∧ ∃ file ∈ record.files, ∃ place,
      scene.first.Stands file place ∧ Frame scene (· ≠ place) Same s s' := by
  induction entries generalizing removal s with
  | nil =>
      obtain ⟨rfl, -⟩ := Task.runs_foldlM_nil.mp hruns
      exact .inl hr
  | cons first rest ih =>
      obtain ⟨middle, t, hfirst, hrest⟩ := Task.runs_foldlM_cons.mp hruns
      obtain ⟨hentry, hentries'⟩ := List.forall_mem_cons.mp hentries
      obtain ⟨hownFirst, hown'⟩ := List.forall_mem_cons.mp hown
      obtain ⟨hless, hapart'⟩ := List.pairwise_cons.mp hapart
      have hst : Frame scene (fun place => ∃ file ∈ first.2.files, scene.first.Stands file place)
          Same s t := .of_steps hhas hfirst (frames_removeFiles hbackups _ _ (fun file hfile =>
            (hentry file hfile).imp fun _ hstands => ⟨hstands, file, hfile, hstands⟩) _)
      have hts' : Frame scene (fun place => ∃ entry ∈ rest, ∃ file ∈ entry.2.files,
          scene.first.Stands file place) Same t s' := by
        refine .of_steps hst.has hrest (.foldlM (fun removal entry hentry => ?_) middle)
        refine frames_removeFiles hbackups _ _ (fun file hfile => ?_) _
        exact (hentries' entry hentry file hfile).imp fun _ hstands =>
          ⟨hstands, entry, hentry, file, hfile, hstands⟩
      rcases ih hst.has hentries' hown' hapart' hrest with
        h | ⟨record, hrecord, file, hfile, place, hstands, hframe⟩
      · refine (frame_of_failed hhas hbackups hentry hownFirst hfirst h).imp_right ?_
        rintro ⟨rfl, file, hfile, place, hstands, hframe⟩
        refine ⟨first.2, List.mem_cons_self, file, hfile, place, hstands, hframe.trans ?_⟩
        refine hts'.imp ?_ fun _ _ _ _ h => h
        rintro other ⟨entry, hentry, file', hfile', hstands'⟩ rfl
        exact hless entry hentry file hfile file' hfile' other hstands hstands'
      · refine .inr ⟨record, List.mem_cons_of_mem _ hrecord, file, hfile, place, hstands,
          Frame.trans ?_ hframe⟩
        refine hst.imp ?_ fun _ _ _ _ h => h
        rintro other ⟨file', hfile', hstands'⟩ rfl
        exact hless _ hrecord file' hfile' file hfile other hstands' hstands

end

/-! ## A pass -/

section

variable {scene : Scene} {store : Backup.Store} {s s' : Session} {removal : Removal} {r : Resource}

/-- A resource in use is declared wherever it was, and its files stay. -/
theorem frame_of_used (hhas : scene.Has s)
    (hbackups : scene.backups = some store.directory) (hlies : s.catalog.LiesOn scene.first)
    {record : Record} (hget : s.catalog.get? r = some record) (hused : record.isUsed = true)
    (hruns : Runs (removeUnused store) s removal s') :
    Frame scene (Deletes s.catalog scene.first) (StaysDeclared r) s s' := by
  refine frame_removeUnused hhas hbackups hlies
    (fun _ file _ _ _ _ _ before after hprunes hdeclared => ?_) hruns
  refine hprunes.declared_of_not_doomed (Bool.eq_false_iff.mpr fun hdoomed => ?_) hdeclared
  obtain ⟨-, record', hunused, -⟩ := doomedBy_eq_true.mp hdoomed
  obtain ⟨hget', hnot⟩ := Catalog.mem_unused.mp hunused
  rw [hget] at hget'
  cases hget'
  rw [hused] at hnot
  cases hnot

theorem standApart_of_has (hlies : s.catalog.LiesOn scene.first) {r' : Resource} {file file' : Path}
    (hfile : s.catalog.Has r file) (hfile' : s.catalog.Has r' file') (hne : file ≠ file') :
    StandApart scene.first file file' :=
  fun _ hhere hhere' => hne (hlies.file_eq _ _ _ _ _ hfile hfile' hhere hhere')

/-- The files that a pass deletes stand at different places, those of one resource. -/
theorem pairwise_files_standApart (hlies : s.catalog.LiesOn scene.first)
    (hnodup : ∀ r record, s.catalog.get? r = some record → record.files.Nodup)
    {entry : Resource × Record} (hentry : entry ∈ s.catalog.unused) :
    entry.2.files.Pairwise (StandApart scene.first) := by
  refine (hnodup _ _ (Catalog.mem_unused.mp hentry).1).imp_of_mem fun ha hb hne => ?_
  exact standApart_of_has hlies (Catalog.has_of_mem_unused hentry ha)
    (Catalog.has_of_mem_unused hentry hb) hne

/-- So do those of different resources. -/
theorem pairwise_unused_standApart (hlies : s.catalog.LiesOn scene.first)
    (hone : ∀ r r' file, s.catalog.Has r file → s.catalog.Has r' file →
      r.category.isInline = false → r = r') :
    (s.catalog.unused.filter fun entry => !entry.1.category.isInline).Pairwise
      fun a b => ∀ file ∈ a.2.files, ∀ file' ∈ b.2.files, StandApart scene.first file file' := by
  refine (List.Pairwise.filter _ (List.Pairwise.filter _ s.catalog.records.ordered)).imp_of_mem ?_
  intro a b ha hb hless file hfile file' hfile'
  have hfound := Catalog.has_of_mem_unused (List.mem_filter.mp ha).1 hfile
  have hfound' := Catalog.has_of_mem_unused (List.mem_filter.mp hb).1 hfile'
  refine standApart_of_has hlies hfound hfound' ?_
  rintro rfl
  have hsame := hone _ _ _ hfound hfound' (by simpa using (List.mem_filter.mp ha).2)
  exact StrictOrder.ne_of_lt hless hsame

/-- A resource that was not taken out of each of its files has a file that it was not taken out
of. -/
theorem exists_file_of_not_isTakenOut {pruned : List (Path × List Resource)} {files : List Path}
    (hnonempty : files ≠ []) (htaken : isTakenOut pruned r files = false) :
    ∃ file ∈ files, ∀ removed, (file, removed) ∈ pruned → r ∉ removed := by
  refine Classical.byContradiction fun hall => ?_
  rw [isTakenOut_iff.mpr ⟨hnonempty, fun file hfile => ?_⟩] at htaken
  · cases htaken
  · exact Classical.byContradiction fun hnone => hall ⟨file, hfile, fun removed hmem hr =>
      hnone ⟨removed, hmem, hr⟩⟩

/-- A file that a resource was not taken out of declares it still. -/
theorem exists_declared_of_pruneFiles {pruned : List (Path × List Resource)} {t : Session}
    (hhas : scene.Has s) (hlast : Extends t.disk scene.last) (hlies : s.catalog.LiesOn scene.first)
    (hprune : Runs (pruneFiles (s.catalog.unused.filter fun entry => entry.1.category.isInline)) s
      pruned t) {file : Path} {place : Place} (hfile : s.catalog.Has r file)
    (hstands : scene.first.Stands file place) (hshown : ¬ scene.hidden place)
    (hnot : ∀ removed, (file, removed) ∈ pruned → r ∉ removed) {before : Bytes}
    (hbefore : s.disk.get? place = some (.file before)) :
    ∃ after, t.disk.get? place = some (.file after) ∧ StaysDeclared r place before after := by
  rcases pruneEach_cases hhas hlast (Path.nodup_sorted _) hstands hshown
      (stands_of_mem_sorted hlies hfile hstands) hbefore hprune (fun _ => List.not_mem_nil) with
    ⟨-, hcontent, -⟩ | ⟨text, -, hdecode, -, -, hremoved, hcontent⟩
  · exact ⟨before, hcontent, id⟩
  · exact ⟨_, hcontent, Prunes.declared_of_not_mem_removed hdecode (hnot _ ((hremoved _).mpr rfl))⟩

/-- No definition file is pruned at the place of a file that is a resource itself. -/
theorem spares_pruneFiles {pruned : List (Path × List Resource)} {t : Session} (hhas : scene.Has s)
    (hlies : s.catalog.LiesOn scene.first)
    (hprune : Runs (pruneFiles (s.catalog.unused.filter fun entry => entry.1.category.isInline)) s
      pruned t) {file : Path} {place : Place} (hfile : s.catalog.Has r file)
    (hkind : r.category.isInline = false) (hstands : scene.first.Stands file place) :
    Frame scene Nowhere (Disk.Spares place) s t := by
  refine frame_pruneFiles hhas hlies
    (fun r' file' place' hfile' hinline hstands' _ _ _ _ heq => ?_) hprune
  subst heq
  obtain rfl := hlies.file_eq _ _ _ _ _ hfile' hfile hstands' hstands
  rw [hlies.isInline_eq _ _ _ hfile' hfile, hkind] at hinline
  cases hinline

/-- A resource that failed keeps one of its files, in which it is declared still if it was. -/
theorem exists_file_of_failed (hhas : scene.Has s) (hlast : Extends s'.disk scene.last)
    (hbackups : scene.backups = some store.directory) (hlies : s.catalog.LiesOn scene.first)
    (hbacked : s.catalog.IsBacked)
    (hnodup : ∀ r record, s.catalog.get? r = some record → record.files.Nodup)
    (hone : ∀ r r' file, s.catalog.Has r file → s.catalog.Has r' file →
      r.category.isInline = false → r = r')
    (hruns : Runs (removeUnused store) s removal s') (hr : r ∈ removal.failed) :
    ∃ file place, s.catalog.Has r file ∧ scene.first.Stands file place ∧
      (¬ scene.hidden place → ∀ before, s.disk.get? place = some (.file before) →
        ∃ after, s'.disk.get? place = some (.file after) ∧ StaysDeclared r place before after) := by
  obtain ⟨pruned, settled, t, u, v, hprune, hsettle, hremove, rfl⟩ := runs_removeUnused hruns
  have htu : Frame scene Nowhere Same t u := (frames_of_settled hhas hlies hprune hsettle).2
  have huv : Frame scene (Deletes s.catalog scene.first) Same u v :=
    frame_removeEach htu.has hbackups hlies hremove
  have hlastu : Extends u.disk scene.last := huv.stays.trans hlast
  have hstands : ∀ {entry : Resource × Record}, entry ∈ s.catalog.unused →
      ∀ file ∈ entry.2.files, ∃ place, scene.first.Stands file place := fun hentry file hfile =>
    hlies.stands _ _ (Catalog.has_of_mem_unused hentry hfile)
  rcases frame_of_failedEach htu.has hbackups
      (fun entry hentry => hstands (List.mem_filter.mp hentry).1)
      (fun entry hentry => pairwise_files_standApart hlies hnodup (List.mem_filter.mp hentry).1)
      (pairwise_unused_standApart hlies hone) hremove hr with
    hsettled | ⟨record, hrecord, file, hfile, place, hplace, hframe⟩
  · -- An inline resource: one of its files was not pruned of it.
    obtain ⟨record, hrecord, htaken⟩ := (failed_of_settle hsettle hsettled).resolve_left nofun
    obtain ⟨hunused, hinline⟩ := List.mem_filter.mp hrecord
    have hget := (Catalog.mem_unused.mp hunused).1
    have hnonempty : record.files ≠ [] := by
      obtain ⟨file, record', hget', hfile⟩ := hbacked r (by rw [Catalog.contains, hget]; rfl)
      obtain rfl := Option.some.inj (hget.symm.trans hget')
      exact List.ne_nil_of_mem hfile
    obtain ⟨file, hfile, hnot⟩ := exists_file_of_not_isTakenOut hnonempty htaken
    have hhasFile : s.catalog.Has r file := ⟨record, hget, hfile⟩
    obtain ⟨place, hplace⟩ := hstands hunused file hfile
    refine ⟨file, place, hhasFile, hplace, fun hshown before hbefore => ?_⟩
    obtain ⟨after, hafter, hdeclared⟩ := exists_declared_of_pruneFiles hhas
      (htu.stays.trans hlastu) hlies hprune hhasFile hplace hshown hnot hbefore
    refine ⟨after, ?_, hdeclared⟩
    exact huv.get?_file hlast hshown (not_deletes_of_isInline hlies hinline hhasFile hplace)
      (fun _ _ hsame => hsame) ((htu.get?_file_iff hlastu hshown).mpr hafter)
  · -- Any other resource: the file at which it failed was left alone.
    obtain ⟨hunused, hkind⟩ := List.mem_filter.mp hrecord
    have hhasFile : s.catalog.Has r file := Catalog.has_of_mem_unused hunused hfile
    refine ⟨file, place, hhasFile, hplace, fun hshown before hbefore => ⟨before, ?_, id⟩⟩
    have hsu : Frame scene Nowhere (Disk.Spares place) s u :=
      (spares_pruneFiles hhas hlies hprune hhasFile (by simpa using hkind) hplace).trans htu.of_same
    have hbefore' := hsu.get?_file hlastu hshown (not_nowhere place) (fun _ _ h => h rfl) hbefore
    exact hframe.get?_file hlast hshown (fun h => h rfl) (fun _ _ hsame => hsame) hbefore'

end

/-! ## Between two builds -/

/-- Nothing is lost between a counted catalog and the one that is built after a pass but what the
pass reports as removed. -/
structure Accounts (counted : Catalog) (removal : Removal) (again : Catalog) : Prop where
  known : ∀ r, again.contains r = true → counted.contains r = true
  used : ∀ r record, counted.get? r = some record → record.isUsed = true →
    ∃ found, again.get? r = some found ∧ found.files = record.files
  failed : ∀ r ∈ removal.failed, ∃ record found, counted.get? r = some record
    ∧ again.get? r = some found ∧ ∃ file ∈ record.files, file ∈ found.files
  vanished : ∀ r, counted.contains r = true → again.contains r = false → r ∈ removal.removed

section

variable {settings : IndexSettings} {root goal : Path} {store : Backup.Store} {scene : Scene}
  {s s' : Session} {built counted again : Catalog} {removal : Removal} {r : Resource} {file : Path}

/-- What a file belongs to, it belongs to as long as it declares it. -/
theorem mem_resourcesOf_of_staysDeclared {stem : Text} {place : Place} {before after : Bytes}
    (hstays : StaysDeclared r place before after)
    (hr : r ∈ Index.resourcesOf settings stem file before) :
    r ∈ Index.resourcesOf settings stem file after := by
  unfold Index.resourcesOf at hr ⊢
  split
  · rwa [if_pos ‹_›] at hr
  · rw [if_neg ‹_›] at hr
    split
    · rwa [if_pos ‹_›] at hr
    · rw [if_neg ‹_›] at hr
      split
      · rw [if_pos ‹_›] at hr
        exact hstays hr
      · rwa [if_neg ‹_›] at hr

namespace Reindexes

/-- A resource that is a file is the only one that its file belongs to. -/
theorem eq_of_has (h : Reindexes settings root goal store scene s s' built again)
    (hcounted : ∀ r, (counted.get? r).map (·.files) = (built.get? r).map (·.files)) {r' : Resource}
    (hfile : counted.Has r file) (hfile' : counted.Has r' file)
    (hkind : r.category.isInline = false) : r = r' := by
  obtain ⟨stem, _, _, hindexes, -, hr⟩ :=
    (h.built_iff r file).mp ((Catalog.has_congr hcounted).mp hfile)
  obtain ⟨stem', _, _, hindexes', -, hr'⟩ :=
    (h.built_iff r' file).mp ((Catalog.has_congr hcounted).mp hfile')
  obtain ⟨rfl, -⟩ := hindexes.unique hindexes'
  exact Index.eq_of_mem_resourcesOf hr hr' hkind

/-- A resource in use keeps every file. -/
theorem has_of_used (h : Reindexes settings root goal store scene s s' built again)
    (hcounted : ∀ r, (counted.get? r).map (·.files) = (built.get? r).map (·.files))
    (hlies : counted.LiesOn scene.first)
    (hruns : Runs (removeUnused store) { s with catalog := counted } removal s') {record : Record}
    (hget : counted.get? r = some record) (hused : record.isUsed = true)
    (hfile : counted.Has r file) : again.Has r file := by
  have hframe : Frame scene (Deletes counted scene.first) (StaysDeclared r)
      { s with catalog := counted } s' :=
    frame_of_used (h.has_counted counted) h.backups hlies hget hused hruns
  obtain ⟨stem, place, before, hindexes, hbefore, hr⟩ :=
    (h.built_iff r file).mp ((Catalog.has_congr hcounted).mp hfile)
  have hshown := h.shown _ _ _ hindexes
  have hkept : ¬ Deletes counted scene.first place := by
    rintro ⟨entry, hentry, hkind, other, hother, hstands⟩
    have hfound := Catalog.has_of_mem_unused hentry hother
    obtain rfl := hlies.file_eq _ _ _ _ _ hfound hfile hstands (h.stands hindexes hbefore)
    have hsame := h.eq_of_has hcounted hfound hfile hkind
    obtain ⟨hget', hnot⟩ := Catalog.mem_unused.mp hentry
    rw [hsame, hget] at hget'
    cases hget'
    rw [hused] at hnot
    cases hnot
  obtain ⟨after, hafter⟩ := (hframe.evolves h.last).forth place before hkept hbefore
  obtain ⟨before', hbefore', hstays⟩ := (hframe.evolves h.last).back place after hshown hafter
  rw [show s.disk.get? place = _ from hbefore'] at hbefore
  cases hbefore
  exact (h.again_iff r file).mpr
    ⟨stem, place, after, hindexes, hafter, mem_resourcesOf_of_staysDeclared hstays hr⟩

/-- A resource that failed keeps a file. -/
theorem has_of_failed (h : Reindexes settings root goal store scene s s' built again)
    (hcounted : ∀ r, (counted.get? r).map (·.files) = (built.get? r).map (·.files))
    (hlies : counted.LiesOn scene.first) (hbacked : counted.IsBacked)
    (hnodup : ∀ r record, counted.get? r = some record → record.files.Nodup)
    (hruns : Runs (removeUnused store) { s with catalog := counted } removal s')
    (hr : r ∈ removal.failed) : ∃ file, counted.Has r file ∧ again.Has r file := by
  obtain ⟨file, place', hfile, hstands, hstays⟩ := exists_file_of_failed (r := r)
    (h.has_counted counted) h.last h.backups hlies hbacked hnodup
    (fun _ _ _ hfile hfile' => h.eq_of_has hcounted hfile hfile') hruns hr
  obtain ⟨stem, place, before, hindexes, hbefore, hr⟩ :=
    (h.built_iff r file).mp ((Catalog.has_congr hcounted).mp hfile)
  obtain rfl := h.eq_place hindexes hbefore hstands
  obtain ⟨after, hafter, hdeclared⟩ := hstays (h.shown _ _ _ hindexes) before hbefore
  exact ⟨file, hfile, (h.again_iff r file).mpr
    ⟨stem, place', after, hindexes, hafter, mem_resourcesOf_of_staysDeclared hdeclared hr⟩⟩

end Reindexes

end

section

variable {settings : IndexSettings} {root : Path} {store : Backup.Store}
  {s₀ s₁ s₂ s₃ : Session} {built counted again : Catalog} {removal : Removal}

/-- **What is lost was reported as removed.** The catalog is built, counted in any way and handed to
a pass, and the project is indexed again: nothing new is found, a resource in use is found with the
same files, one that the pass reports as failed is found with one of its files at least, and so what
is not found again is among the removed. -/
theorem accounts_of_isApart (habsolute : root.isAbsolute = true)
    (hapart : store.IsApart s₀.disk root) (hlog : s₀.KeepsLogApart settings root)
    (hbuild : Runs (Index.build settings root) s₀ built s₁)
    (hcounted : ∀ r, (counted.get? r).map (·.files) = (built.get? r).map (·.files))
    (hremove : Runs (removeUnused store) { s₁ with catalog := counted } removal s₂)
    (hagain : Runs (Index.build settings root) s₂ again s₃) : Accounts counted removal again := by
  obtain ⟨hlies, hbacked, ⟨goal, scene, h⟩ | ⟨hnone, hunknown, hdisk, rfl⟩⟩ :=
    exists_reindexes habsolute hapart hlog hbuild hcounted hremove hagain
  · have hlies : counted.LiesOn scene.first := h.first ▸ hlies
    have hfiles : ∀ {r record}, counted.get? r = some record →
        ∃ found, built.get? r = some found ∧ found.files = record.files := fun {r} _ hget =>
      Option.map_eq_some_iff.mp ((hcounted r).symm.trans (congrArg (Option.map (·.files)) hget))
    have hknown : ∀ r file, again.Has r file → counted.Has r file :=
      fun r file => h.has_of_again hcounted hlies hremove
    have hused : ∀ r record, counted.get? r = some record → record.isUsed = true →
        ∃ found, again.get? r = some found ∧ found.files = record.files := by
      intro r record hget hused
      have hiff : ∀ file, again.Has r file ↔ built.Has r file := fun file =>
        ⟨fun hfile => (Catalog.has_congr hcounted).mp (hknown r file hfile),
          fun hfile => h.has_of_used hcounted hlies hremove hget hused
            ((Catalog.has_congr hcounted).mpr hfile)⟩
      obtain ⟨file, hfile⟩ := hbacked r (by rw [Catalog.contains, hget]; rfl)
      obtain ⟨found, hfound, -⟩ := (hiff file).mpr ((Catalog.has_congr hcounted).mp hfile)
      obtain ⟨first, hfirst, hsame⟩ := hfiles hget
      exact ⟨found, hfound,
        (Index.files_eq_of_has_iff hagain hbuild hiff hfound hfirst).trans hsame⟩
    have hfailed : ∀ r ∈ removal.failed, ∃ record found, counted.get? r = some record
        ∧ again.get? r = some found ∧ ∃ file ∈ record.files, file ∈ found.files := by
      have hnodup : ∀ r record, counted.get? r = some record → record.files.Nodup := by
        intro r record hget
        obtain ⟨first, hfirst, hsame⟩ := hfiles hget
        rw [← hsame]
        exact Index.nodup_build hbuild hfirst
      intro r hr
      obtain ⟨file, ⟨record, hget, hfile⟩, found, hfound, hfile'⟩ :=
        h.has_of_failed hcounted hlies hbacked hnodup hremove hr
      exact ⟨record, found, hget, hfound, file, hfile, hfile'⟩
    refine ⟨fun r hcontains => ?_, hused, hfailed, fun r hcontains hlost => ?_⟩
    · obtain ⟨file, hfile⟩ := h.isBacked_again r hcontains
      exact Catalog.contains_of_has (hknown r file hfile)
    · obtain ⟨record, hget⟩ := Option.isSome_iff_exists.mp hcontains
      have hunused : (r, record) ∈ counted.unused := by
        refine Catalog.mem_unused.mpr ⟨hget, Bool.eq_false_iff.mpr fun h => ?_⟩
        obtain ⟨found, hfound, -⟩ := hused r record hget h
        rw [Catalog.contains, hfound] at hlost
        cases hlost
      refine (reports_of_mem_unused hremove hunused).resolve_right fun hr => ?_
      obtain ⟨_, found, -, hfound, -⟩ := hfailed r hr
      rw [Catalog.contains, hfound] at hlost
      cases hlost
  · -- The root is no directory, and so it stays.
    have hnothing : again = .empty := Index.eq_empty_of_build (hdisk ▸ hnone) hagain
    subst hnothing
    refine ⟨fun r hcontains => ?_, fun r record hget => ?_, fun r hr => ?_, fun r hcontains => ?_⟩
    · cases hcontains
    · rw [hunknown] at hget
      cases hget
    · cases hr
    · rw [Catalog.contains, hunknown] at hcontains
      cases hcontains

end

/-- The color that the pass reports as removed, and the dimension in use, are accounted for. -/
theorem accounts_of_twice :
    Accounts Twice.counted (Twice.pruned.1.toOption.getD nothing)
      (Twice.again.1.toOption.getD .empty)
      ∧ (Twice.counted.get? ⟨.dimen, "d"⟩).map (·.isUsed) = some true := by
  have hok : (Twice.built.1.toOption.isSome = true ∧ Twice.pruned.1.toOption.isSome = true
      ∧ Twice.again.1.toOption.isSome = true)
      ∧ (Twice.counted.get? ⟨.dimen, "d"⟩).map (·.isUsed) = some true := by
    decide +kernel
  obtain ⟨⟨hbuilt, hpruned, hagain⟩, hused⟩ := hok
  exact ⟨accounts_of_isApart rfl Twice.isApart Twice.keepsLogApart
    (Task.runs_of_exec (e := Twice.built) rfl .empty hbuilt) Twice.files_counted
    (Task.runs_of_exec (e := Twice.pruned) rfl nothing hpruned)
    (Task.runs_of_exec (e := Twice.again) rfl .empty hagain), hused⟩

/-! ## Resources that a pass brings about -/

namespace LoggedInside

def settings : IndexSettings := { IndexSettings.default with imageExtensions := [".jsonl"] }

def root : Path := ⟨.root, ["p"]⟩

def store : Backup.Store := ⟨root, ⟨.root, ["b"]⟩⟩

/-- A project with an unused color that would leave its file empty, and a log that will be among the
drawables. -/
def start : Session where
  disk := ((((((Disk.empty []).put ["p"] .directory).put ["p", "res"] .directory).put
    ["p", "res", "values"] .directory).put ["p", "res", "drawable"] .directory).put
    ["p", "res", "values", "a.xml"] (.file (Utf8.encode "<color name=\"x\"/>")))
  clock := Twice.start.clock
  trail := .start (some ⟨.root, ["p", "res", "drawable", "audit.jsonl"]⟩) "run"
  catalog := .empty
  roots := none
  patience := none

def built : Except Failure Catalog × Session :=
  Task.exec (Index.build settings root) start

def pruned : Except Failure Removal × Session :=
  Task.exec (removeUnused store) { built.2 with catalog := built.1.toOption.getD .empty }

def again : Except Failure Catalog × Session :=
  Task.exec (Index.build settings root) pruned.2

theorem isApart : store.IsApart start.disk root := by
  refine ⟨⟨rfl, ?_⟩, fun place hopen => ?_, store.directory, root, rfl, rfl, ?_, ?_⟩
  · refine List.forall_mem_singleton.mpr ⟨?_, ?_, ?_⟩ <;> decide
  · cases (show start.disk.openDirectory store.directory = .error ⟨.noEntry, store.directory⟩ from
      rfl).symm.trans hopen
  · decide +kernel
  · decide +kernel

end LoggedInside

namespace LinkedBack

def root : Path := ⟨.root, ["p"]⟩

/-- The backup path goes down into a missing directory and up again. -/
def store : Backup.Store := ⟨root, ⟨.root, ["q", "..", "o"]⟩⟩

/-- A project with an unused layout that would declare a color if it were a definition file, and a
directory beside it from which a link leads back to the definition files. -/
def start : Session where
  disk := (((((((((Disk.empty []).put ["p"] .directory).put ["p", "res"] .directory).put
    ["p", "res", "layout"] .directory).put ["p", "res", "values"] .directory).put
    ["p", "res", "layout", "m.xml"] (.file (Utf8.encode "<color name=\"x\"/>"))).put
    ["o"] .directory).put ["o", "res"] .directory).put
    ["o", "res", "layout"] (.link "/p/res/values"))
  clock := Twice.start.clock
  trail := .start none "run"
  catalog := .empty
  roots := none
  patience := none

def built : Except Failure Catalog × Session :=
  Task.exec (Index.build .default root) start

def pruned : Except Failure Removal × Session :=
  Task.exec (removeUnused store) { built.2 with catalog := built.1.toOption.getD .empty }

def again : Except Failure Catalog × Session :=
  Task.exec (Index.build .default root) pruned.2

theorem isMissing (place : Place) : start.disk.openDirectory store.directory ≠ .ok place := by
  rw [show start.disk.openDirectory store.directory = .error ⟨.noEntry, store.directory⟩ from rfl]
  exact nofun

theorem places : ∃ directory resolved, start.disk.resolve store.directory = .ok directory
    ∧ start.disk.resolve root = .ok resolved ∧ ¬ resolved.place <+: directory.place
    ∧ ¬ directory.place <+: resolved.place :=
  ⟨⟨.root, ["o"]⟩, root, rfl, rfl, by decide +kernel, by decide +kernel⟩

end LinkedBack

/-- A pass can bring about resources that were not known before: the log may be found among those
that are indexed, and a backup path with a step up may lead to a directory that was there all along
although the path led nowhere. -/
theorem not_accounts :
    (¬ ∀ (settings : IndexSettings) (root : Path) (store : Backup.Store) (s₀ s₁ s₂ s₃ : Session)
      (built counted again : Catalog) (removal : Removal), root.isAbsolute = true →
      store.IsApart s₀.disk root → Runs (Index.build settings root) s₀ built s₁ →
      (∀ r, (counted.get? r).map (·.files) = (built.get? r).map (·.files)) →
      Runs (removeUnused store) { s₁ with catalog := counted } removal s₂ →
      Runs (Index.build settings root) s₂ again s₃ → Accounts counted removal again)
    ∧ ¬ ∀ (settings : IndexSettings) (root : Path) (store : Backup.Store) (s₀ s₁ s₂ s₃ : Session)
      (built counted again : Catalog) (removal : Removal), root.isAbsolute = true →
      (∀ place, s₀.disk.openDirectory store.directory ≠ .ok place) →
      (∃ directory resolved, s₀.disk.resolve store.directory = .ok directory
        ∧ s₀.disk.resolve root = .ok resolved ∧ ¬ resolved.place <+: directory.place
        ∧ ¬ directory.place <+: resolved.place) →
      s₀.trail.log = none → Runs (Index.build settings root) s₀ built s₁ →
      (∀ r, (counted.get? r).map (·.files) = (built.get? r).map (·.files)) →
      Runs (removeUnused store) { s₁ with catalog := counted } removal s₂ →
      Runs (Index.build settings root) s₂ again s₃ → Accounts counted removal again := by
  constructor
  · intro haccounts
    have hok : (LoggedInside.built.1.toOption.isSome = true
        ∧ LoggedInside.pruned.1.toOption.isSome = true
        ∧ LoggedInside.again.1.toOption.isSome = true)
        ∧ (LoggedInside.again.1.toOption.getD .empty).contains ⟨.drawable, "audit"⟩ = true
        ∧ (LoggedInside.built.1.toOption.getD .empty).contains ⟨.drawable, "audit"⟩ = false := by
      decide +kernel
    obtain ⟨⟨hbuilt, hpruned, hagain⟩, hfound, hunknown⟩ := hok
    have hknown := (haccounts _ _ _ _ _ _ _ _ _ _ _ rfl LoggedInside.isApart
      (Task.runs_of_exec (e := LoggedInside.built) rfl .empty hbuilt) (fun _ => rfl)
      (Task.runs_of_exec (e := LoggedInside.pruned) rfl nothing hpruned)
      (Task.runs_of_exec (e := LoggedInside.again) rfl .empty hagain)).known _ hfound
    rw [hunknown] at hknown
    cases hknown
  · intro haccounts
    have hok : (LinkedBack.built.1.toOption.isSome = true
        ∧ LinkedBack.pruned.1.toOption.isSome = true
        ∧ LinkedBack.again.1.toOption.isSome = true)
        ∧ (LinkedBack.again.1.toOption.getD .empty).contains ⟨.color, "x"⟩ = true
        ∧ (LinkedBack.built.1.toOption.getD .empty).contains ⟨.color, "x"⟩ = false := by
      decide +kernel
    obtain ⟨⟨hbuilt, hpruned, hagain⟩, hfound, hunknown⟩ := hok
    have hknown := (haccounts _ _ _ _ _ _ _ _ _ _ _ rfl LinkedBack.isMissing LinkedBack.places rfl
      (Task.runs_of_exec (e := LinkedBack.built) rfl .empty hbuilt) (fun _ => rfl)
      (Task.runs_of_exec (e := LinkedBack.pruned) rfl nothing hpruned)
      (Task.runs_of_exec (e := LinkedBack.again) rfl .empty hagain)).known _ hfound
    rw [hunknown] at hknown
    cases hknown

end Removal

end ResourcePruner
