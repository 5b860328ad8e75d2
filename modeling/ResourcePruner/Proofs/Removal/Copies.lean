import ResourcePruner.Proofs.Backup.Copies
import ResourcePruner.Proofs.Path
import ResourcePruner.Proofs.Removal.Files
import ResourcePruner.Proofs.Task.Done

/-!
# A pass keeps what holds of the backups

Pruning writes no file that is a resource itself, and a file that is one is deleted once its copy
has been made. The log may be such a file: then it is deleted, too, and made anew by the event that
tells of it (`Removal.has_of_delete`).
-/

namespace ResourcePruner

open Disk (Extends)

namespace Removal

open ResourcePruner.Task (Runs Steps IsLogged Keeps IsDone Preserves)

/-! ## Pruning -/

section

variable {R : Session → Session → Prop} [IsLogged R] {path : Path}

theorem steps_writeText (text : Text)
    (hwrite : ∀ s content disk, s.disk.write path content = .ok disk → R s { s with disk }) :
    Steps R (Task.writeText path text) := by
  unfold Task.writeText
  split
  · exact Task.steps_changeDisk fun s disk => hwrite s _ disk
  · exact (Task.steps_changeDisk fun s disk => hwrite s _ disk).bind fun _ => .throw _

theorem steps_writePruned (pruning : Pruning)
    (hwrite : ∀ s content disk, s.disk.write path content = .ok disk → R s { s with disk }) :
    Steps R (writePruned path pruning) := by
  unfold writePruned
  refine .ite (fun _ => ?_) fun _ => ?_
  · refine .ite (fun _ => ?_) fun _ => .pure _
    exact (steps_warnDefinition _ _ _).bind fun _ => .pure _
  · refine (steps_writeText _ hwrite).attempt.bind fun written => ?_
    cases written with
    | error failure => exact (steps_warnDefinition _ _ _).bind fun _ => .pure _
    | ok _ => exact (Task.steps_succeed _ _).bind fun _ => .pure _

theorem steps_pruneText (doomed : Doomed) (text : Text)
    (hwrite : ∀ s content disk, s.disk.write path content = .ok disk → R s { s with disk }) :
    Steps R (pruneText path doomed text) := by
  unfold pruneText
  simp only
  split
  · exact (steps_warnDefinition _ _ _).bind fun _ => .pure _
  · refine .ite (fun _ => ?_) fun _ => steps_writePruned _ hwrite
    exact (steps_warnDefinition _ _ _).bind fun _ => steps_writePruned _ hwrite

/-- Pruning a file writes it at most. -/
theorem steps_pruneFile (doomed : Doomed)
    (hwrite : ∀ s content disk, s.disk.write path content = .ok disk → R s { s with disk }) :
    Steps R (pruneFile path doomed) := by
  refine Task.steps_disk.bind fun disk => (Task.steps_refusable _).bind fun found => ?_
  cases found with
  | error error => exact (steps_warnDefinition _ _ _).bind fun _ => .pure _
  | ok bytes =>
      simp only
      split
      · exact (steps_warnDefinition _ _ _).bind fun _ => .pure _
      · exact steps_pruneText doomed _ hwrite

/-- Pruning files writes each of them at most. -/
theorem steps_pruneFiles (entries : List (Resource × Record))
    (hwrite : ∀ entry ∈ entries, ∀ file ∈ entry.2.files, ∀ s content disk,
      s.disk.write file content = .ok disk → R s { s with disk }) :
    Steps R (pruneFiles entries) := by
  refine .foldlM (fun pruned file hfile => ?_) _
  obtain ⟨entry, hentry, hmem⟩ := List.mem_flatMap.mp (Path.mem_of_mem_sorted hfile)
  refine (steps_pruneFile _ (hwrite entry hentry file hmem)).bind fun found => ?_
  cases found <;> exact .pure _

end

/-! ## Deleting -/

section

variable {custody : Custody} {store : Backup.Store} {first : Disk} {names : List Text}
  {file : Path} {s t : Session}

/-- Once the event has been recorded that tells of it, a deleted file has its copy, or it is the log
and there again. -/
theorem has_of_delete (hhas : custody.Has first s) {now : Bytes}
    (hfile : s.disk.get? (custody.goal.place ++ names) = some (.file now))
    (hwhole : custody.IsWhole (custody.goal.place ++ names))
    (hcopied : custody.IsCopied s.disk names now) {action : Text} {data : List (Text × Datum)}
    {u : Unit}
    (hruns : Runs (Task.succeed action data)
      { s with disk := s.disk.remove (custody.goal.place ++ names) } u t) :
    custody.Has first t := by
  have hstays := Disk.extends_remove hfile
  have hback := Disk.extends_of_remove hfile
  by_cases hlog : custody.IsLog s.disk (custody.goal.place ++ names)
  · obtain ⟨path, found, hpath, hfound, hplace⟩ := hlog
    have hlogged : s.trail.log = some path := hhas.log.trans hpath
    obtain ⟨hsame, event, happend⟩ := Task.exists_append_of_succeed hruns hlogged
    have habsolute := custody.isAbsolute_log path hpath
    have hwrite : (s.disk.remove (custody.goal.place ++ names)).writeWith path
        (fun old => old.getD [] ++ Utf8.encode event.line) = .ok t.disk := happend
    have hstays' := Disk.extends_of_writeWith habsolute hwrite
    have hback' := Disk.extends_back_of_writeWith habsolute hwrite
    obtain ⟨found', old, hfound', -, hput⟩ := Disk.writeWith_cases habsolute hwrite
    obtain rfl := hfound'.unique (hfound.mono hstays)
    rw [hplace] at hput
    have hget := Disk.get?_remove_of_file hfile
    have haccepts : (s.disk.remove (custody.goal.place ++ names)).accepts
        (custody.goal.place ++ names) = true := by
      have hplain : (custody.goal.place ++ names).getLast?.all isPlainName = true := by
        cases hlast : (custody.goal.place ++ names).getLast? with
        | none => rfl
        | some name => exact Disk.isPlainName_of_get? hfile name (List.mem_of_getLast? hlast)
      rw [Disk.accepts, hplain, hstays.directory _ (Disk.get?_dropLast hfile), decide_eq_true rfl,
        hget, if_pos rfl]
      rfl
    have hafter := fun other => Disk.get?_put _ _ other
      (.file (old.getD [] ++ Utf8.encode event.line)) haccepts
    rw [← hput] at hafter
    refine ⟨hsame.trans hpath.symm, ?_, hhas.fits.stays.trans (hstays.trans hstays')⟩
    refine hhas.fits.holds.of_file (hstays.trans hstays') (hback'.trans hback)
      (fun other hne => by rw [hafter, if_neg hne, hget, if_neg hne])
      (by rw [hafter, if_pos rfl]) ?_ fun _ => ⟨path, found', hpath, hfound, hplace⟩
    rw [← hplace]
    exact custody.not_below_log path _ found' hpath hhas.fits.holds.extends_base hfound
  · have hremoved : custody.Has first
        { s with disk := s.disk.remove (custody.goal.place ++ names) } :=
      ⟨hhas.log, hhas.fits.holds.of_remove hfile hwhole hlog hcopied, hhas.fits.stays.trans hstays⟩
    exact (Task.steps_succeed (R := Preserves (custody.Has first)) _ _).runs hruns hremoved

variable (hdirectory : store.directory = custody.directory)
  (hroot : store.projectRoot = custody.goal)
  (hlies : first.get? custody.goal.place = some .directory)

include hdirectory hroot hlies

/-- Files that are resources themselves are backed up and deleted. -/
theorem keeps_removeFiles (r : Resource) (record : Record) {left : List Path}
    (hleft : ∀ file ∈ left, ∃ names, custody.Finds first file names
      ∧ custody.IsWhole (custody.goal.place ++ names)) (removal : Removal) :
    Keeps (custody.Has first) (removeFiles store r record left removal) := by
  induction left generalizing removal with
  | nil =>
      have hsteps : Steps (Preserves (custody.Has first)) (removeFiles store r record [] removal) :=
        (Task.steps_succeed _ _).bind fun _ => .pure _
      exact .of_steps hsteps fun _ _ => id
  | cons file rest ih =>
      obtain ⟨⟨names, hfinds, hwhole⟩, hrest⟩ := List.forall_mem_cons.mp hleft
      have harchive : Steps (Preserves (custody.Has first))
          (Task.attempt keepsFile (store.archive file)) :=
        (Custody.steps_archive hdirectory hroot hfinds hlies).attempt
      refine (Keeps.of_steps harchive fun _ _ => id).bind_runs (fun _ => id)
        fun {s archived t} hruns hs ht hdone => ?_
      have hfail : ∀ code failure removal, custody.Has first
          (Task.exec (failFile r file code failure removal) t).2 := fun code failure removal =>
        steps_failFile (R := Preserves (custody.Has first)) r file code failure removal t ht
      cases archived with
      | error failure => exact hfail _ _ _
      | ok backup =>
          obtain ⟨now, hfile, hcopied⟩ := Custody.runs_archive hdirectory hroot hfinds hlies hs
            (Task.runs_attempt hruns)
          have hexec : Task.exec (Task.attempt keepsFile (Task.changeDisk (·.unlink file))) t = _ :=
            Task.exec_attempt _ _ t
          rw [Task.exec_changeDisk] at hexec
          rw [Task.exec_bind, hexec] at hdone ⊢
          cases hunlink : t.disk.unlink file with
          | error error =>
              simp only
              by_cases hkeeps : keepsFile (.disk error) = true
              · rw [if_pos hkeeps]
                exact hfail _ _ _
              · rw [if_neg hkeeps]
                exact ht
          | ok disk =>
              obtain ⟨content, -, rfl⟩ := Disk.unlink_of_stands (hfinds.stands ht.fits) hunlink
              rw [hunlink] at hdone
              exact Task.GoesOn.holds_of_bind (Task.Avoids.succeed _ _)
                (fun _ _ hnote => has_of_delete ht hfile hwhole hcopied hnote)
                  (fun _ => ih hrest _) hdone

end

/-! ## A pass -/

/-- A pass over the unused resources. -/
def removeAll (store : Backup.Store) (unused : List (Resource × Record)) : Task Removal := do
  let inline := unused.filter fun entry => entry.1.category.isInline
  let pruned ← pruneFiles inline
  let settled ← inline.foldlM (settleInline pruned)
      { nothing with prunedFiles := pruned.map Prod.fst }
  let removal ← (unused.filter fun entry => !entry.1.category.isInline).foldlM
      (removeNext store) settled
  modify fun session => { session with
    catalog := (session.catalog.evictAll (unused.map Prod.fst)).resetUses }
  return removal

theorem exec_removeUnused (store : Backup.Store) (s : Session) :
    Task.exec (removeUnused store) s = Task.exec (removeAll store s.catalog.unused) s := by
  rw [removeUnused, Task.exec_bind, Task.exec_get]
  rfl

section

variable {store : Backup.Store} {unused : List (Resource × Record)}

/-- A pass takes its steps by rewriting the files of unused inline resources and by deleting those
of the others. -/
theorem steps_removeAll {R : Session → Session → Prop} [IsLogged R]
    (hcatalog : ∀ s catalog, R s { s with catalog })
    (hwrite : ∀ entry ∈ unused, ∀ file ∈ entry.2.files, ∀ s content disk,
      s.disk.write file content = .ok disk → R s { s with disk })
    (hdelete : ∀ entry ∈ unused, ∀ removal, Steps R (removeNext store removal entry)) :
    Steps R (removeAll store unused) := by
  have hprune : Steps R (pruneFiles (unused.filter fun entry => entry.1.category.isInline)) :=
    steps_pruneFiles _ fun entry hentry => hwrite entry (List.mem_filter.mp hentry).1
  have hdelete' : ∀ removal, Steps R
      ((unused.filter fun entry => !entry.1.category.isInline).foldlM (removeNext store) removal) :=
    .foldlM fun removal entry hentry => hdelete entry (List.mem_filter.mp hentry).1 removal
  refine hprune.bind fun pruned => ?_
  refine (steps_settle pruned _ _).bind fun settled => (hdelete' settled).bind fun removal => ?_
  exact Steps.bind (fun s => hcatalog s _) fun _ => .pure _

/-- What no count affects, no rewriting of the files of an unused inline resource, and no deletion
of the files of another unused one, a pass keeps. -/
theorem keeps_removeAll {holds : Session → Prop} [IsLogged (Preserves holds)]
    (hcatalog : ∀ s catalog, holds s → holds { s with catalog })
    (hwrite : ∀ entry ∈ unused, entry.1.category.isInline = true → ∀ file ∈ entry.2.files,
      ∀ s content disk, s.disk.write file content = .ok disk → holds s → holds { s with disk })
    (hdelete : ∀ entry ∈ unused, entry.1.category.isInline = false →
      ∀ removal, Keeps holds (removeNext store removal entry)) :
    Keeps holds (removeAll store unused) := by
  have hprune : Steps (Preserves holds)
      (pruneFiles (unused.filter fun entry => entry.1.category.isInline)) := by
    refine steps_pruneFiles _ fun entry hentry file hfile s content disk hdisk => ?_
    obtain ⟨hunused, hinline⟩ := List.mem_filter.mp hentry
    exact hwrite entry hunused hinline file hfile s content disk hdisk
  have hdelete' : ∀ removal, Keeps holds
      ((unused.filter fun entry => !entry.1.category.isInline).foldlM (removeNext store)
        removal) := by
    refine Keeps.foldlM fun removal entry hentry => ?_
    obtain ⟨hunused, hfile⟩ := List.mem_filter.mp hentry
    exact hdelete entry hunused ((Bool.not_eq_true' _).mp hfile) removal
  have hsettle : ∀ pruned removal, Steps (Preserves holds)
      ((unused.filter fun entry => entry.1.category.isInline).foldlM (settleInline pruned)
        removal) :=
    fun pruned => steps_settle pruned _
  refine (Keeps.of_steps hprune fun _ _ => id).bind fun pruned => ?_
  refine (Keeps.of_steps (hsettle pruned _) fun _ _ => id).bind fun settled => ?_
  exact (hdelete' settled).bind fun removal s hs _ => hcatalog s _ hs

end

end Removal

end ResourcePruner
