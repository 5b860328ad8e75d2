import ResourcePruner.Proofs.Index.Standing
import ResourcePruner.Proofs.Path
import ResourcePruner.Proofs.Removal.Files

/-!
# What a pass removes, and what is left

A pass keeps to a frame (`Removal.frame_removeUnused`). An inline resource that it enters as removed
was taken out of every file it had, which tells what each of these files holds now
(`Removal.get?_of_removed`); of any other such resource no file is left
(`Removal.lacks_of_removed`).
-/

namespace ResourcePruner

open Disk (Extends Same IsChange Stands)

/-- No file lies at the place. -/
def Disk.Lacks (disk : Disk) (place : Place) : Prop :=
  ∀ content, disk.get? place ≠ some (.file content)

/-- The content at the place stays as it is. -/
def Disk.Spares (place : Place) (other : Place) (before after : Bytes) : Prop :=
  other = place → after = before

instance (place : Place) : IsChange (Disk.Spares place) where
  refl _ _ _ := rfl
  trans hfirst hsecond h := (hsecond h).trans (hfirst h)

/-- The content may become any other. -/
def Disk.Anyhow (_place : Place) (_before _after : Bytes) : Prop :=
  True

instance : IsChange Disk.Anyhow where
  refl _ _ := trivial
  trans _ _ := trivial

/-- Where no file lies and nothing is hidden, none appears. -/
theorem Frame.lacks {scene : Scene} {gone : Place → Prop} {change : Place → Bytes → Bytes → Prop}
    {s t : Session} (hframe : Frame scene gone change s t) (hlast : Extends t.disk scene.last)
    {place : Place} (hshown : ¬ scene.hidden place) (hlacks : s.disk.Lacks place) :
    t.disk.Lacks place := by
  intro content hfile
  obtain ⟨old, hold, -⟩ := (hframe.evolves hlast).back place content hshown hfile
  exact hlacks old hold

namespace Removal

open ResourcePruner.Task (Runs Steps IsRun)

/-! ## Pruning -/

section

variable {scene : Scene} {entries : List (Resource × Record)} {s s' : Session}
  {found init : List (Path × List Resource)} {files : List Path} {file : Path} {place : Place}

/-- Only files that were to be pruned are. -/
theorem mem_of_mem_pruneEach {removed : List Resource}
    (hruns : Runs (files.foldlM (pruneNext entries) init) s found s')
    (hmem : (file, removed) ∈ found) : (file, removed) ∈ init ∨ file ∈ files := by
  induction files generalizing init s with
  | nil =>
      obtain ⟨rfl, -⟩ := Task.runs_foldlM_nil.mp hruns
      exact .inl hmem
  | cons first rest ih =>
      obtain ⟨next, t, hfirst, hrest⟩ := Task.runs_foldlM_cons.mp hruns
      obtain ⟨pruned, -, rfl⟩ := runs_pruneNext hfirst
      rcases ih hrest with hnext | hlater
      · rcases List.mem_append.mp hnext with h | h
        · exact .inl h
        · obtain ⟨taken, -, heq⟩ := Option.map_eq_some_iff.mp (Option.mem_toList.mp h)
          cases heq
          exact .inr List.mem_cons_self
      · exact .inr (List.mem_cons_of_mem _ hlater)

/-- Pruning other files leaves the file as it is. -/
theorem get?_pruneEach_of_ne (hhas : scene.Has s) (hlast : Extends s'.disk scene.last)
    (hshown : ¬ scene.hidden place)
    (hfiles : ∀ other ∈ files, ∃ place', scene.first.Stands other place' ∧ place' ≠ place)
    {content : Bytes} (hcontent : s.disk.get? place = some (.file content))
    (hruns : Runs (files.foldlM (pruneNext entries) init) s found s') :
    s'.disk.get? place = some (.file content) := by
  have hframe : Frame scene Nowhere (Disk.Spares place) s s' := by
    refine frame_pruneEach hhas (fun other hother => ?_) hruns
    obtain ⟨place', hstands, hne⟩ := hfiles other hother
    exact ⟨place', hstands, fun _ _ _ _ heq => absurd heq hne⟩
  exact hframe.get?_file hlast hshown (not_nowhere place) (fun _ _ hspares => hspares rfl) hcontent

theorem mem_pruneEach_of_mem {entry : Path × List Resource}
    (hruns : Runs (files.foldlM (pruneNext entries) init) s found s') (hentry : entry ∈ init) :
    entry ∈ found := by
  induction files generalizing init s with
  | nil =>
      obtain ⟨rfl, -⟩ := Task.runs_foldlM_nil.mp hruns
      exact hentry
  | cons first rest ih =>
      obtain ⟨next, t, hfirst, hrest⟩ := Task.runs_foldlM_cons.mp hruns
      obtain ⟨pruned, -, rfl⟩ := runs_pruneNext hfirst
      exact ih hrest (List.mem_append_left _ hentry)

/-- A file that is pruned along with others stays as it is and is not entered, or it is entered with
what was taken out of it. -/
theorem pruneEach_cases (hhas : scene.Has s) (hlast : Extends s'.disk scene.last)
    (hnodup : files.Nodup) (hstands : scene.first.Stands file place)
    (hshown : ¬ scene.hidden place)
    (hfiles : ∀ other ∈ files, ∃ place', scene.first.Stands other place'
      ∧ (other ≠ file → place' ≠ place))
    {before : Bytes} (hbefore : s.disk.get? place = some (.file before))
    (hruns : Runs (files.foldlM (pruneNext entries) init) s found s')
    (hinit : ∀ removed, (file, removed) ∉ init) :
    ((∀ removed, (file, removed) ∉ found) ∧ s'.disk.get? place = some (.file before)
      ∧ (file ∈ files → Disk.IsLookedUp file → ¬ IsPrunable (doomedIn entries file) before)) ∨
    ∃ text, Disk.IsLookedUp file ∧ Utf8.decode? before = .ok text
      ∧ (Pruning.ofLines (doomedIn entries file) (Text.linesWithEnds text)).unterminated = none
      ∧ (Pruning.ofLines (doomedIn entries file) (Text.linesWithEnds text)).shouldWrite = true
      ∧ (∀ removed, (file, removed) ∈ found ↔
        removed = (Pruning.ofLines (doomedIn entries file) (Text.linesWithEnds text)).removed)
      ∧ s'.disk.get? place = some (.file (Utf8.encode
          (Pruning.ofLines (doomedIn entries file) (Text.linesWithEnds text)).text)) := by
  induction files generalizing init s with
  | nil =>
      obtain ⟨rfl, rfl⟩ := Task.runs_foldlM_nil.mp hruns
      exact .inl ⟨hinit, hbefore, nofun⟩
  | cons first rest ih =>
      obtain ⟨hfirst, hnodup'⟩ := List.nodup_cons.mp hnodup
      obtain ⟨⟨place', hstands', hne⟩, hrest⟩ := List.forall_mem_cons.mp hfiles
      obtain ⟨next, t, hnext, hruns⟩ := Task.runs_foldlM_cons.mp hruns
      obtain ⟨pruned, hprune, rfl⟩ := runs_pruneNext hnext
      have hstands'' := hstands'.mono hhas.extends_first
      have hst : Frame scene Nowhere Disk.Anyhow s t :=
        frame_pruneFile hhas hstands'' (fun _ _ _ _ => trivial) hprune
      have hts' : Frame scene Nowhere Disk.Anyhow t s' := by
        refine frame_pruneEach hst.has (fun other hother => ?_) hruns
        obtain ⟨place'', hstands, -⟩ := hrest other hother
        exact ⟨place'', hstands, fun _ _ _ _ => trivial⟩
      have hlast' := hts'.stays.trans hlast
      by_cases hsame : first = file
      · -- The file is pruned now, and not again.
        subst hsame
        have hothers : ∀ other ∈ rest, ∃ place', scene.first.Stands other place'
            ∧ place' ≠ place := by
          intro other hother
          obtain ⟨place', hstands, hne⟩ := hrest other hother
          exact ⟨place', hstands, hne fun h => hfirst (h ▸ hother)⟩
        have hmem : ∀ removed, (first, removed) ∈ found ↔ pruned = some removed := by
          intro removed
          constructor
          · intro hmem
            have hnow := (mem_of_mem_pruneEach hruns hmem).resolve_right hfirst
            have htaken := (List.mem_append.mp hnow).resolve_left (hinit removed)
            obtain ⟨taken, hpruned, heq⟩ := Option.map_eq_some_iff.mp (Option.mem_toList.mp htaken)
            cases heq
            exact hpruned
          · rintro rfl
            exact mem_pruneEach_of_mem hruns (List.mem_append_right _ List.mem_cons_self)
        rcases get?_pruneFile hhas (hstands.mono hhas.extends_first) hlast' hshown hbefore
          hprune with
          ⟨rfl, hcontent, hwhy⟩ | ⟨text, hlooked, hdecode, hended, hwritten, rfl, hcontent⟩
        · refine .inl ⟨fun removed h => ?_,
            get?_pruneEach_of_ne hst.has hlast hshown hothers hcontent hruns, fun _ => hwhy⟩
          cases (hmem removed).mp h
        · refine .inr ⟨text, hlooked, hdecode, hended, hwritten, fun removed => ?_,
            get?_pruneEach_of_ne hst.has hlast hshown hothers hcontent hruns⟩
          rw [hmem, Option.some_inj, eq_comm]
      · have hspares : Frame scene Nowhere (Disk.Spares place) s t :=
          frame_pruneFile hhas hstands'' (fun _ _ _ _ heq => absurd heq (hne hsame)) hprune
        have hkept := hspares.get?_file hlast' hshown (not_nowhere place)
          (fun _ _ hspares => hspares rfl) hbefore
        have hinit' : ∀ removed, (file, removed) ∉ init ++ (pruned.map (first, ·)).toList := by
          intro removed hmem
          rcases List.mem_append.mp hmem with h | h
          · exact hinit removed h
          · obtain ⟨taken, -, heq⟩ := Option.map_eq_some_iff.mp (Option.mem_toList.mp h)
            cases heq
            exact hsame rfl
        refine (ih hst.has hnodup' hrest hkept hruns hinit').imp_left ?_
        rintro ⟨hnot, hcontent, hwhy⟩
        exact ⟨hnot, hcontent,
          fun hmem => hwhy ((List.mem_cons.mp hmem).resolve_left (Ne.symm hsame))⟩

end

/-! ## Settling -/

section

variable {pruned : List (Path × List Resource)} {s s' : Session} {removal next : Removal}
  {r : Resource}

theorem isTakenOut_iff {files : List Path} :
    isTakenOut pruned r files = true ↔
      files ≠ [] ∧ ∀ file ∈ files, ∃ removed, (file, removed) ∈ pruned ∧ r ∈ removed := by
  simp only [isTakenOut, Bool.and_eq_true, Bool.not_eq_true', List.isEmpty_eq_false_iff, ne_eq,
    List.all_eq_true, List.any_eq_true, decide_eq_true_eq, List.contains_iff_mem, Prod.exists]
  refine and_congr_right fun _ => forall₂_congr fun file _ => ?_
  constructor
  · rintro ⟨_, removed, hmem, rfl, hr⟩
    exact ⟨removed, hmem, hr⟩
  · rintro ⟨removed, hmem, hr⟩
    exact ⟨file, removed, hmem, rfl, hr⟩

/-- An inline resource is entered as removed if it was taken out of its files, as failed if not. -/
theorem settleInline_cases {entry : Resource × Record}
    (hruns : Runs (settleInline pruned removal entry) s next s') :
    isTakenOut pruned entry.1 entry.2.files = true
        ∧ next = { removal with removed := removal.removed ++ [entry.1] }
      ∨ isTakenOut pruned entry.1 entry.2.files = false
        ∧ next = { removal with failed := removal.failed ++ [entry.1] } := by
  unfold settleInline at hruns
  simp only at hruns
  split at hruns
  · rename_i htaken
    obtain ⟨_, t, -, hpure⟩ := Task.runs_bind.mp hruns
    exact .inl ⟨htaken, (Task.runs_pure.mp hpure).1⟩
  · rename_i htaken
    obtain ⟨_, t, -, hpure⟩ := Task.runs_bind.mp hruns
    exact .inr ⟨Bool.eq_false_iff.mpr htaken, (Task.runs_pure.mp hpure).1⟩

theorem removed_of_settleInline {entry : Resource × Record}
    (hruns : Runs (settleInline pruned removal entry) s next s') (hr : r ∈ next.removed) :
    r ∈ removal.removed ∨ (r = entry.1 ∧ isTakenOut pruned r entry.2.files = true) := by
  rcases settleInline_cases hruns with ⟨htaken, rfl⟩ | ⟨-, rfl⟩
  · refine (List.mem_append.mp hr).imp_right fun h => ?_
    obtain rfl := List.mem_singleton.mp h
    exact ⟨rfl, htaken⟩
  · exact .inl hr

/-- An inline resource that is entered as removed was taken out of each of its files. -/
theorem removed_of_settle {entries : List (Resource × Record)}
    (hruns : Runs (entries.foldlM (settleInline pruned) removal) s next s')
    (hr : r ∈ next.removed) :
    r ∈ removal.removed ∨
      ∃ record, (r, record) ∈ entries ∧ isTakenOut pruned r record.files = true := by
  induction entries generalizing removal s with
  | nil =>
      obtain ⟨rfl, -⟩ := Task.runs_foldlM_nil.mp hruns
      exact .inl hr
  | cons entry rest ih =>
      obtain ⟨middle, t, hfirst, hrest⟩ := Task.runs_foldlM_cons.mp hruns
      rcases ih hrest with h | ⟨record, hrecord, htaken⟩
      · refine (removed_of_settleInline hfirst h).imp_right ?_
        rintro ⟨rfl, htaken⟩
        exact ⟨entry.2, List.mem_cons_self, htaken⟩
      · exact .inr ⟨record, List.mem_cons_of_mem _ hrecord, htaken⟩

theorem prunedFiles_of_settle {entries : List (Resource × Record)}
    (hruns : Runs (entries.foldlM (settleInline pruned) removal) s next s') :
    next.prunedFiles = removal.prunedFiles := by
  induction entries generalizing removal s with
  | nil =>
      obtain ⟨rfl, -⟩ := Task.runs_foldlM_nil.mp hruns
      rfl
  | cons entry rest ih =>
      obtain ⟨middle, t, hfirst, hrest⟩ := Task.runs_foldlM_cons.mp hruns
      refine (ih hrest).trans ?_
      rcases settleInline_cases hfirst with ⟨-, rfl⟩ | ⟨-, rfl⟩ <;> rfl

end

/-! ## Deleting -/

section

variable {scene : Scene} {gone : Place → Prop} {store : Backup.Store} {s s' : Session}
  {removal next : Removal} {r : Resource}

/-- A resource of which a file stays is entered as failed. -/
theorem eq_of_failFile {other : Resource} {path : Path} {code : Text} {failure : Failure}
    (hruns : Runs (failFile other path code failure removal) s next s') :
    next = { removal with failed := removal.failed ++ [other] } := by
  obtain ⟨_, t, -, hpure⟩ := Task.runs_bind.mp hruns
  exact (Task.runs_pure.mp hpure).1

/-- No file is left of a resource that was removed by deleting its files. -/
theorem lacks_of_removeFiles (hhas : scene.Has s) (hlast : Extends s'.disk scene.last)
    (hbackups : scene.backups = some store.directory) {other : Resource} {record : Record}
    {left : List Path} (hleft : ∀ file ∈ left, ∃ place, scene.first.Stands file place)
    (hruns : Runs (removeFiles store other record left removal) s next s')
    (hr : r ∈ next.removed) :
    r ∈ removal.removed ∨ (r = other ∧ ∀ file ∈ left, ∀ place, scene.first.Stands file place →
      ¬ scene.hidden place → s'.disk.Lacks place) := by
  have hgone : ∀ {files : List Path}, (∀ file ∈ files, ∃ place, scene.first.Stands file place) →
      ∀ file ∈ files, ∃ place, scene.first.Stands file place ∧ Anywhere place :=
    fun hfiles file hfile => (hfiles file hfile).imp fun _ hstands => ⟨hstands, trivial⟩
  induction left generalizing removal s with
  | nil =>
      obtain ⟨_, t, -, hpure⟩ := Task.runs_bind.mp hruns
      obtain ⟨rfl, -⟩ := Task.runs_pure.mp hpure
      refine (List.mem_append.mp hr).imp_right fun h => ?_
      exact ⟨List.mem_singleton.mp h, nofun⟩
  | cons file rest ih =>
      obtain ⟨⟨place, hstands⟩, hrest⟩ := List.forall_mem_cons.mp hleft
      obtain ⟨goal, hgoal, -⟩ := hstands.locates
      obtain ⟨archived, t, harchive, hruns⟩ := Task.runs_bind.mp hruns
      have hframes : Steps (Frames scene Anywhere Same) (store.archive file) :=
        Backup.frames_archive hbackups hstands.isAbsolute hgoal hstands.isDown_name
      have hst : Frame scene Anywhere Same s t := .of_steps hhas harchive hframes.attempt
      cases archived with
      | error failure =>
          obtain rfl := eq_of_failFile hruns
          exact .inl hr
      | ok backup =>
          obtain ⟨unlinked, u, hunlink, hruns⟩ := Task.runs_bind.mp hruns
          have htu : Frame scene Anywhere Same t u :=
            .of_steps hst.has hunlink (frames_unlink hstands trivial).attempt
          cases unlinked with
          | error failure =>
              obtain rfl := eq_of_failFile hruns
              exact .inl hr
          | ok _ =>
              obtain ⟨disk, hdisk, hu⟩ := Task.runs_changeDisk.mp (Task.runs_attempt hunlink)
              obtain ⟨content, hfile, rfl⟩ :=
                Disk.unlink_of_stands (hstands.mono hst.has.extends_first) hdisk
              obtain ⟨_, v, hnote, hruns⟩ := Task.runs_bind.mp hruns
              have huv : Frame scene Anywhere Same u v :=
                .of_steps htu.has hnote (Task.steps_succeed _ _)
              have hvs' : Frame scene Anywhere Same v s' :=
                .of_steps huv.has hruns (frames_removeFiles hbackups _ _ (hgone hrest) _)
              refine (ih huv.has hrest hruns).imp_right ?_
              rintro ⟨rfl, hothers⟩
              refine ⟨rfl, List.forall_mem_cons.mpr ⟨fun place' hstands' hshown => ?_, hothers⟩⟩
              obtain rfl := hstands.unique hstands'
              refine (huv.trans hvs').lacks hlast hshown fun found hfound => ?_
              rw [hu, Disk.get?_remove_of_file hfile, if_pos rfl] at hfound
              cases hfound

/-- Of several resources that are removed one after the other, too. -/
theorem lacks_of_removeEach (hhas : scene.Has s) (hlast : Extends s'.disk scene.last)
    (hbackups : scene.backups = some store.directory) {entries : List (Resource × Record)}
    (hentries : ∀ entry ∈ entries, ∀ file ∈ entry.2.files, ∃ place, scene.first.Stands file place)
    (hruns : Runs (entries.foldlM (removeNext store) removal) s next s') (hr : r ∈ next.removed) :
    r ∈ removal.removed ∨ ∃ record, (r, record) ∈ entries ∧ ∀ file ∈ record.files, ∀ place,
      scene.first.Stands file place → ¬ scene.hidden place → s'.disk.Lacks place := by
  induction entries generalizing removal s with
  | nil =>
      obtain ⟨rfl, -⟩ := Task.runs_foldlM_nil.mp hruns
      exact .inl hr
  | cons first rest ih =>
      obtain ⟨middle, t, hfirst, hrest⟩ := Task.runs_foldlM_cons.mp hruns
      obtain ⟨hentry, hentries'⟩ := List.forall_mem_cons.mp hentries
      have hanywhere : ∀ entry ∈ first :: rest, ∀ file ∈ entry.2.files,
          ∃ place, scene.first.Stands file place ∧ Anywhere place :=
        fun entry hentry file hfile =>
          (hentries entry hentry file hfile).imp fun _ hstands => ⟨hstands, trivial⟩
      have hst : Frame scene Anywhere Same s t := .of_steps hhas hfirst
        (frames_removeFiles hbackups _ _ (hanywhere first List.mem_cons_self) _)
      have hts' : Frame scene Anywhere Same t s' := .of_steps hst.has hrest
        (.foldlM (fun removal entry hentry => frames_removeFiles hbackups _ _
          (hanywhere entry (List.mem_cons_of_mem _ hentry)) removal) middle)
      rcases ih hst.has hentries' hrest with h | ⟨record, hrecord, hlacks⟩
      · refine (lacks_of_removeFiles hhas (hts'.stays.trans hlast) hbackups hentry hfirst
          h).imp_right
          ?_
        rintro ⟨rfl, hlacks⟩
        exact ⟨first.2, List.mem_cons_self, fun file hfile place hstands hshown =>
          hts'.lacks hlast hshown (hlacks file hfile place hstands hshown)⟩
      · exact .inr ⟨record, List.mem_cons_of_mem _ hrecord, hlacks⟩

end

/-! ## A pass -/

/-- The doomed resources of a file in a pass. -/
def doomedBy (catalog : Catalog) (file : Path) : Doomed :=
  doomedIn (catalog.unused.filter (·.1.category.isInline)) file

theorem doomedBy_eq_true {catalog : Catalog} {file : Path} {r : Resource} :
    doomedBy catalog file r = true ↔
      r.category.isInline = true ∧ ∃ record, (r, record) ∈ catalog.unused
        ∧ file ∈ record.files := by
  simp only [doomedBy, doomedIn, List.any_eq_true, List.mem_filter, Bool.and_eq_true,
    decide_eq_true_eq, List.contains_iff_mem, Prod.exists]
  constructor
  · rintro ⟨_, record, ⟨hunused, hinline⟩, rfl, hfile⟩
    exact ⟨hinline, record, hunused, hfile⟩
  · rintro ⟨hinline, record, hunused, hfile⟩
    exact ⟨r, record, ⟨hunused, hinline⟩, rfl, hfile⟩

/-- A file of an unused resource that is one itself stands at the place. -/
def Deletes (catalog : Catalog) (disk : Disk) (place : Place) : Prop :=
  ∃ entry ∈ catalog.unused, entry.1.category.isInline = false
    ∧ ∃ file ∈ entry.2.files, disk.Stands file place

section

variable {scene : Scene} {store : Backup.Store} {s t s' : Session} {removal settled : Removal}

/-- Pruning the files of unused resources deletes nothing. -/
theorem frame_pruneFiles {gone : Place → Prop} {change : Place → Bytes → Bytes → Prop}
    [IsChange change] {catalog : Catalog} (hhas : scene.Has s) (hlies : catalog.LiesOn scene.first)
    (hchange : ∀ r file place, catalog.Has r file → r.category.isInline = true →
      scene.first.Stands file place → ¬ scene.hidden place → ∀ before after,
        Prunes (doomedBy catalog file) before after → change place before after)
    {pruned : List (Path × List Resource)}
    (hruns : Runs (pruneFiles (catalog.unused.filter (·.1.category.isInline))) s pruned s') :
    Frame scene gone change s s' := by
  refine frame_pruneEach hhas (fun file hfile => ?_) hruns
  obtain ⟨entry, hentry, hmem⟩ := List.mem_flatMap.mp (Path.mem_of_mem_sorted hfile)
  obtain ⟨hunused, hinline⟩ := List.mem_filter.mp hentry
  have hfound := Catalog.has_of_mem_unused hunused hmem
  obtain ⟨place, hstands⟩ := hlies.stands _ _ hfound
  exact ⟨place, hstands, hchange _ _ _ hfound hinline hstands⟩

/-- Pruning the files and settling the inline resources deletes nothing, and the latter changes
nothing. -/
theorem frames_of_settled {catalog : Catalog} {pruned : List (Path × List Resource)}
    {init : Removal} {u : Session} (hhas : scene.Has s) (hlies : catalog.LiesOn scene.first)
    (hprune : Runs (pruneFiles (catalog.unused.filter (·.1.category.isInline))) s pruned t)
    (hsettle : Runs
      ((catalog.unused.filter (·.1.category.isInline)).foldlM (settleInline pruned) init)
      t settled u) :
    Frame scene Nowhere Disk.Anyhow s t ∧ Frame scene Nowhere Same t u := by
  have hst : Frame scene Nowhere Disk.Anyhow s t :=
    frame_pruneFiles hhas hlies (fun _ _ _ _ _ _ _ _ _ _ => trivial) hprune
  exact ⟨hst, .of_steps hst.has hsettle (steps_settle _ _ _)⟩

/-- Deleting the files of unused resources deletes nothing else. -/
theorem frame_removeEach {change : Place → Bytes → Bytes → Prop} [IsChange change]
    {catalog : Catalog} (hhas : scene.Has s) (hbackups : scene.backups = some store.directory)
    (hlies : catalog.LiesOn scene.first)
    (hruns : Runs ((catalog.unused.filter fun entry => !entry.1.category.isInline).foldlM
      (removeNext store) settled) s removal s') :
    Frame scene (Deletes catalog scene.first) change s s' := by
  refine .of_steps hhas hruns (.foldlM (fun removal entry hentry => ?_) settled)
  obtain ⟨hunused, hfile⟩ := List.mem_filter.mp hentry
  refine frames_removeFiles hbackups _ _ (fun file hmem => ?_) removal
  obtain ⟨place, hstands⟩ := hlies.stands _ _ (Catalog.has_of_mem_unused hunused hmem)
  exact ⟨place, hstands, entry, hunused, by simpa using hfile, file, hmem, hstands⟩

/-- A pass prunes files of inline resources and deletes files of others. -/
theorem frame_removeUnused {change : Place → Bytes → Bytes → Prop} [IsChange change]
    (hhas : scene.Has s) (hbackups : scene.backups = some store.directory)
    (hlies : s.catalog.LiesOn scene.first)
    (hchange : ∀ r file place, s.catalog.Has r file → r.category.isInline = true →
      scene.first.Stands file place → ¬ scene.hidden place → ∀ before after,
        Prunes (doomedBy s.catalog file) before after → change place before after)
    (hruns : Runs (removeUnused store) s removal s') :
    Frame scene (Deletes s.catalog scene.first) change s s' := by
  obtain ⟨pruned, settled, t, u, v, hprune, hsettle, hremove, rfl⟩ := runs_removeUnused hruns
  have hst : Frame scene (Deletes s.catalog scene.first) change s t :=
    frame_pruneFiles hhas hlies hchange hprune
  have htu : Frame scene (Deletes s.catalog scene.first) change t u :=
    .of_steps hst.has hsettle (steps_settle _ _ _)
  have huv : Frame scene (Deletes s.catalog scene.first) change u v :=
    frame_removeEach htu.has hbackups hlies hremove
  refine (hst.trans (htu.trans huv)).trans (Frames.of_disk rfl rfl (fun _ h => h) huv.has)

/-- A removed resource is unused; an inline one was taken out of its files, of any other one no file
is left. -/
theorem removed_cases (hhas : scene.Has t) (hlast : Extends s'.disk scene.last)
    (hbackups : scene.backups = some store.directory) {catalog : Catalog}
    (hlies : catalog.LiesOn scene.first) {pruned : List (Path × List Resource)}
    (hsettle : Runs ((catalog.unused.filter (·.1.category.isInline)).foldlM (settleInline pruned)
      { nothing with prunedFiles := pruned.map Prod.fst }) s settled t)
    (hremove : Runs ((catalog.unused.filter fun entry => !entry.1.category.isInline).foldlM
      (removeNext store) settled) t removal s') {r : Resource} (hr : r ∈ removal.removed) :
    ∃ record, (r, record) ∈ catalog.unused ∧
      if r.category.isInline then isTakenOut pruned r record.files = true
      else ∀ file ∈ record.files, ∀ place, scene.first.Stands file place → ¬ scene.hidden place →
        s'.disk.Lacks place := by
  have hentries : ∀ entry ∈ catalog.unused.filter fun entry => !entry.1.category.isInline,
      ∀ file ∈ entry.2.files, ∃ place, scene.first.Stands file place :=
        fun entry hentry file hfile =>
    hlies.stands _ _ (Catalog.has_of_mem_unused (List.mem_filter.mp hentry).1 hfile)
  rcases lacks_of_removeEach hhas hlast hbackups hentries hremove hr with
    hsettled | ⟨record, hrecord, hlacks⟩
  · rcases removed_of_settle hsettle hsettled with hnothing | ⟨record, hrecord, htaken⟩
    · cases hnothing
    · obtain ⟨hunused, hinline⟩ := List.mem_filter.mp hrecord
      exact ⟨record, hunused, by rwa [if_pos hinline]⟩
  · obtain ⟨hunused, hfile⟩ := List.mem_filter.mp hrecord
    refine ⟨record, hunused, ?_⟩
    rwa [if_neg (by simpa using hfile)]

theorem unused_of_removed (hhas : scene.Has s) (hlast : Extends s'.disk scene.last)
    (hbackups : scene.backups = some store.directory) (hlies : s.catalog.LiesOn scene.first)
    (hruns : Runs (removeUnused store) s removal s') {r : Resource} (hr : r ∈ removal.removed) :
    ∃ record, (r, record) ∈ s.catalog.unused := by
  obtain ⟨pruned, settled, t, u, v, hprune, hsettle, hremove, rfl⟩ := runs_removeUnused hruns
  have hlast' : Extends v.disk scene.last := hlast
  have htu : Frame scene Nowhere Same t u := (frames_of_settled hhas hlies hprune hsettle).2
  obtain ⟨record, hunused, -⟩ := removed_cases htu.has hlast' hbackups hlies hsettle hremove hr
  exact ⟨record, hunused⟩

/-- Of a resource that is a file and was removed, no file is left. -/
theorem lacks_of_removed (hhas : scene.Has s) (hlast : Extends s'.disk scene.last)
    (hbackups : scene.backups = some store.directory) (hlies : s.catalog.LiesOn scene.first)
    (hruns : Runs (removeUnused store) s removal s') {r : Resource} (hr : r ∈ removal.removed)
    (hkind : r.category.isInline = false) {file : Path} (hfile : s.catalog.Has r file)
    {place : Place} (hstands : scene.first.Stands file place) (hshown : ¬ scene.hidden place) :
    s'.disk.Lacks place := by
  obtain ⟨pruned, settled, t, u, v, hprune, hsettle, hremove, rfl⟩ := runs_removeUnused hruns
  have hlast' : Extends v.disk scene.last := hlast
  have htu : Frame scene Nowhere Same t u := (frames_of_settled hhas hlies hprune hsettle).2
  obtain ⟨record, hunused, hlacks⟩ := removed_cases htu.has hlast' hbackups hlies hsettle hremove hr
  rw [if_neg (by simp [hkind])] at hlacks
  obtain ⟨record', hrecord', hmem⟩ := hfile
  obtain rfl := Option.some.inj (hrecord'.symm.trans (Catalog.mem_unused.mp hunused).1)
  exact hlacks file hmem place hstands hshown

/-- The files that are pruned in a pass stand at different places. -/
theorem stands_of_mem_sorted {catalog : Catalog} {disk : Disk} (hlies : catalog.LiesOn disk)
    {r : Resource} {file : Path} (hfile : catalog.Has r file) {place : Place}
    (hstands : disk.Stands file place) :
    ∀ other ∈ Path.sorted ((catalog.unused.filter (·.1.category.isInline)).flatMap (·.2.files)),
      ∃ place', disk.Stands other place' ∧ (other ≠ file → place' ≠ place) := by
  intro other hother
  obtain ⟨entry, hentry, hmem⟩ := List.mem_flatMap.mp (Path.mem_of_mem_sorted hother)
  have hfound := Catalog.has_of_mem_unused (List.mem_filter.mp hentry).1 hmem
  obtain ⟨place', hstands'⟩ := hlies.stands _ _ hfound
  refine ⟨place', hstands', fun hne heq => hne ?_⟩
  subst heq
  exact hlies.file_eq _ _ _ _ _ hfound hfile hstands' hstands

/-- No file of an inline resource is deleted. -/
theorem not_deletes_of_isInline {catalog : Catalog} {disk : Disk} (hlies : catalog.LiesOn disk)
    {r : Resource} (hkind : r.category.isInline = true) {file : Path} (hfile : catalog.Has r file)
    {place : Place} (hstands : disk.Stands file place) : ¬ Deletes catalog disk place := by
  rintro ⟨entry, hentry, hfileKind, other, hother, hstands'⟩
  have hfound := Catalog.has_of_mem_unused hentry hother
  obtain rfl := hlies.file_eq _ _ _ _ _ hfound hfile hstands' hstands
  rw [hlies.isInline_eq _ _ _ hfound hfile, hkind] at hfileKind
  cases hfileKind

theorem not_isPrunable_of_not_doomed {doomed : Doomed} (hnone : ∀ r, doomed r = false)
    (content : Bytes) : ¬ IsPrunable doomed content := by
  rintro ⟨text, -, -, hwritten⟩
  rw [Pruning.shouldWrite, Bool.and_eq_true, decide_eq_true_eq,
    Pruning.droppedCount_pos_iff] at hwritten
  obtain ⟨⟨g, -, hdrop⟩, -⟩ := hwritten
  obtain ⟨r, -, hdoomed⟩ := Group.exists_doomed_of_isDropped hdrop
  rw [hnone r] at hdoomed
  cases hdoomed

/-- What becomes of a file that no resource but its own is pruned with and that is not deleted: it
stays as it is, if pruning could not change it, or is pruned. -/
theorem pruned_cases {catalog : Catalog} {pruned : List (Path × List Resource)} {init : Removal}
    {t u : Session} (hhas : scene.Has s) (hlast : Extends s'.disk scene.last)
    (hbackups : scene.backups = some store.directory) (hlies : catalog.LiesOn scene.first)
    (hprune : Runs (pruneFiles (catalog.unused.filter (·.1.category.isInline))) s pruned t)
    (hsettle : Runs
      ((catalog.unused.filter (·.1.category.isInline)).foldlM (settleInline pruned) init)
      t settled u)
    (hremove : Runs ((catalog.unused.filter fun entry => !entry.1.category.isInline).foldlM
      (removeNext store) settled) u removal s')
    {file : Path} {place : Place} (hstands : scene.first.Stands file place)
    (hshown : ¬ scene.hidden place) (hkept : ¬ Deletes catalog scene.first place)
    (hapart : ∀ other ∈ Path.sorted
        ((catalog.unused.filter (·.1.category.isInline)).flatMap (·.2.files)),
      ∃ place', scene.first.Stands other place' ∧ (other ≠ file → place' ≠ place))
    {before : Bytes} (hbefore : s.disk.get? place = some (.file before)) :
    ((∀ removed, (file, removed) ∉ pruned) ∧ s'.disk.get? place = some (.file before)
      ∧ (Disk.IsLookedUp file → ¬ IsPrunable (doomedBy catalog file) before)) ∨
    ∃ text, Disk.IsLookedUp file ∧ Utf8.decode? before = .ok text
      ∧ (Pruning.ofLines (doomedBy catalog file) (Text.linesWithEnds text)).unterminated = none
      ∧ (Pruning.ofLines (doomedBy catalog file) (Text.linesWithEnds text)).shouldWrite = true
      ∧ (∃ removed, (file, removed) ∈ pruned)
      ∧ s'.disk.get? place = some (.file (Utf8.encode
        (Pruning.ofLines (doomedBy catalog file) (Text.linesWithEnds text)).text)) := by
  have htu : Frame scene Nowhere Same t u := (frames_of_settled hhas hlies hprune hsettle).2
  have hus' : Frame scene (Deletes catalog scene.first) Same u s' :=
    frame_removeEach htu.has hbackups hlies hremove
  have hlastu := hus'.stays.trans hlast
  -- The file is pruned once, and nothing touches it afterwards.
  have hlater : ∀ {content}, t.disk.get? place = some (.file content) →
      s'.disk.get? place = some (.file content) := fun hcontent =>
    hus'.get?_file hlast hshown hkept (fun _ _ hsame => hsame)
      ((htu.get?_file_iff hlastu hshown).mpr hcontent)
  rcases pruneEach_cases hhas (htu.stays.trans hlastu) (Path.nodup_sorted _) hstands hshown
      hapart hbefore hprune (fun _ => List.not_mem_nil) with
    ⟨hnot, hcontent, hwhy⟩ | ⟨text, hlooked, hdecode, hended, hwritten, hfound, hcontent⟩
  · refine .inl ⟨hnot, hlater hcontent, fun hlooked hprunable => ?_⟩
    by_cases hdoomed : ∃ r, doomedBy catalog file r = true
    · obtain ⟨r', hr'⟩ := hdoomed
      obtain ⟨hinline, record, hunused, hmem⟩ := doomedBy_eq_true.mp hr'
      refine hwhy ((Path.mem_sorted (fun path hpath => ?_)).mpr ?_) hlooked hprunable
      · obtain ⟨entry, hentry, hfile'⟩ := List.mem_flatMap.mp hpath
        obtain ⟨_, hstands'⟩ := hlies.stands _ _
          (Catalog.has_of_mem_unused (List.mem_filter.mp hentry).1 hfile')
        exact hstands'.isAbsolute
      · exact List.mem_flatMap.mpr ⟨_, List.mem_filter.mpr ⟨hunused, hinline⟩, hmem⟩
    · refine not_isPrunable_of_not_doomed (fun r => ?_) before hprunable
      exact Bool.eq_false_iff.mpr (not_exists.mp hdoomed r)
  · exact .inr ⟨text, hlooked, hdecode, hended, hwritten, ⟨_, (hfound _).mpr rfl⟩, hlater hcontent⟩

/-- What becomes of the definition files in a pass. Each stays as it is, if pruning could not change
it, or is pruned; the inline resources that are removed were taken out of all of theirs. -/
theorem exists_pruned (hhas : scene.Has s) (hlast : Extends s'.disk scene.last)
    (hbackups : scene.backups = some store.directory) (hlies : s.catalog.LiesOn scene.first)
    (hruns : Runs (removeUnused store) s removal s') :
    ∃ pruned : List (Path × List Resource),
      (∀ r ∈ removal.removed, r.category.isInline = true → ∃ record, (r, record) ∈ s.catalog.unused
        ∧ isTakenOut pruned r record.files = true)
      ∧ ∀ r file place before, s.catalog.Has r file → r.category.isInline = true →
        scene.first.Stands file place → ¬ scene.hidden place →
        s.disk.get? place = some (.file before) →
        ((∀ removed, (file, removed) ∉ pruned) ∧ s'.disk.get? place = some (.file before)
          ∧ (Disk.IsLookedUp file → ¬ IsPrunable (doomedBy s.catalog file) before)) ∨
        ∃ text, Disk.IsLookedUp file ∧ Utf8.decode? before = .ok text
          ∧ (Pruning.ofLines (doomedBy s.catalog file) (Text.linesWithEnds text)).unterminated
            = none
          ∧ (Pruning.ofLines (doomedBy s.catalog file) (Text.linesWithEnds text)).shouldWrite = true
          ∧ s'.disk.get? place = some (.file (Utf8.encode
            (Pruning.ofLines (doomedBy s.catalog file) (Text.linesWithEnds text)).text)) := by
  obtain ⟨pruned, settled, t, u, v, hprune, hsettle, hremove, rfl⟩ := runs_removeUnused hruns
  have htu : Frame scene Nowhere Same t u := (frames_of_settled hhas hlies hprune hsettle).2
  have hlast' : Extends v.disk scene.last := hlast
  refine ⟨pruned, fun r hr hkind => ?_,
    fun r file place before hfile hkind hstands hshown hbefore => ?_⟩
  · obtain ⟨record, hunused, htaken⟩ :=
      removed_cases htu.has hlast' hbackups hlies hsettle hremove hr
    exact ⟨record, hunused, by rwa [if_pos hkind] at htaken⟩
  · refine (pruned_cases hhas hlast' hbackups hlies hprune hsettle hremove hstands hshown
      (not_deletes_of_isInline hlies hkind hfile hstands) (stands_of_mem_sorted hlies hfile hstands)
      hbefore).imp_right ?_
    rintro ⟨text, hlooked, hdecode, hended, hwritten, -, hcontent⟩
    exact ⟨text, hlooked, hdecode, hended, hwritten, hcontent⟩

/-- What a file of an inline resource that was removed holds now. -/
theorem get?_of_removed (hhas : scene.Has s) (hlast : Extends s'.disk scene.last)
    (hbackups : scene.backups = some store.directory) (hlies : s.catalog.LiesOn scene.first)
    (hruns : Runs (removeUnused store) s removal s') {r : Resource} (hr : r ∈ removal.removed)
    (hkind : r.category.isInline = true) {file : Path} (hfile : s.catalog.Has r file)
    {place : Place} (hstands : scene.first.Stands file place) (hshown : ¬ scene.hidden place)
    {before : Bytes} (hbefore : s.disk.get? place = some (.file before)) :
    doomedBy s.catalog file r = true ∧ ∃ text, Disk.IsLookedUp file ∧ Utf8.decode? before = .ok text
      ∧ (Pruning.ofLines (doomedBy s.catalog file) (Text.linesWithEnds text)).unterminated = none
      ∧ (Pruning.ofLines (doomedBy s.catalog file) (Text.linesWithEnds text)).shouldWrite = true
      ∧ s'.disk.get? place = some (.file (Utf8.encode
          (Pruning.ofLines (doomedBy s.catalog file) (Text.linesWithEnds text)).text)) := by
  obtain ⟨pruned, hremoved, hfiles⟩ := exists_pruned hhas hlast hbackups hlies hruns
  obtain ⟨record, hunused, htaken⟩ := hremoved r hr hkind
  obtain ⟨record', hrecord', hmem⟩ := id hfile
  obtain rfl := Option.some.inj (hrecord'.symm.trans (Catalog.mem_unused.mp hunused).1)
  obtain ⟨removed, hpruned, -⟩ := (isTakenOut_iff.mp htaken).2 file hmem
  refine ⟨doomedBy_eq_true.mpr ⟨hkind, record', hunused, hmem⟩, ?_⟩
  refine (hfiles r file place before hfile hkind hstands hshown hbefore).resolve_left ?_
  rintro ⟨hnot, -⟩
  exact hnot removed hpruned

end

end Removal

end ResourcePruner
