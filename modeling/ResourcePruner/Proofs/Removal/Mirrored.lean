import ResourcePruner.Proofs.Definition.Verdicts
import ResourcePruner.Proofs.Removal.Concluded

/-!
# What a pass tells is what it has done

The events of a pass are those of its deeds (`Removal.mirrors_removeUnused`): one for each unused
resource, for each definition file that was rewritten and for each file that was deleted, in the
order in which its result lists them, and warnings about definition files. The deeds lead from the
disk before the pass to that behind it, so that nothing is rewritten or deleted without being told,
or told without being done.
-/

namespace ResourcePruner.Removal

open ResourcePruner.Task (Runs)

/-- The events of a pass are those of the deeds, and the deeds are what it has done. -/
structure Mirrors (deeds : List Deed) (s : Session) (removal : Removal) (s' : Session) : Prop where
  events : s'.trail.events = s.trail.events ++ deeds.map (Deed.event s)
  warnings : s'.trail.warnings = s.trail.warnings ++ deeds.filterMap Deed.warning?
  settled : (deeds.filterMap Deed.settled?).Perm (s.catalog.unused.map Prod.fst)
  settled_once : (deeds.filterMap Deed.settled?).Nodup
  ok_iff : ∀ deed ∈ deeds, ∀ r, deed.settled? = some r →
    ((deed.event s).ok = true ↔ r ∈ removal.removed)
  rewritten : deeds.filterMap Deed.rewritten? = removal.prunedFiles
  deleted : deeds.filterMap Deed.gone? = removal.deletedFiles
  /-- What is told of a rewritten file is told of the lines that it has lost. -/
  lines : ∀ path pruning, .rewrote path pruning ∈ deeds → ∃ lines : List Text,
    pruning = Pruning.ofLines (doomedBy s.catalog path) lines
      ∧ pruning.droppedCount
        = (Pruning.marked (doomedBy s.catalog path) lines).countP (fun mark => !mark.2)
      ∧ ∀ r, r ∈ pruning.removed ↔ ∃ line,
        (line, false) ∈ Pruning.marked (doomedBy s.catalog path) lines
          ∧ r ∈ Declaration.resourcesOn line
  /-- Nothing else is told but why a definition file is left as it is, which is a warning, too. -/
  others : ∀ deed ∈ deeds, deed.settled? = none → deed.rewritten? = none → deed.gone? = none →
    ∃ path code message, deed = .spared path code message ∧ message ∈ s'.trail.warnings
  follows : Follows (doomedBy s.catalog) s.disk deeds s'.disk

section

variable {doomed : Path → Doomed} {disk last : Disk} {store : Backup.Store} {s s' : Session}
  {removal : Removal} {deeds : List Deed} {deed : Deed} {path : Path} {pruning : Pruning}
  {r : Resource}

/-- A file is told to be rewritten only after its lines have been read. -/
theorem Follows.exists_lines (hfollows : Follows doomed disk deeds last)
    (hmem : .rewrote path pruning ∈ deeds) :
    ∃ lines : List Text, pruning = Pruning.ofLines (doomed path) lines := by
  induction hfollows with
  | done disk => cases hmem
  | keeps _ _ ih => exact ih hmem
  | tells hrewritten _ _ ih =>
      rcases List.mem_cons.mp hmem with rfl | hrest
      · cases hrewritten
      · exact ih hrest
  | rewrites _ _ _ _ hwarned _ _ _ ih =>
      rcases List.mem_append.mp hmem with hspared | hrest
      · obtain ⟨code, message, heq⟩ := hwarned _ hspared
        cases heq
      · rcases List.mem_cons.mp hrest with heq | hrest
        · cases heq
          exact ⟨_, rfl⟩
        · exact ih hrest
  | unlinks _ _ ih =>
      rcases List.mem_cons.mp hmem with heq | hrest
      · cases heq
      · exact ih hrest

/-- A deed that settles a resource is told to be a success if the resource is one of those
removed. -/
theorem ok_iff_of_settled? (honce : (deeds.filterMap Deed.settled?).Nodup) (hdeed : deed ∈ deeds)
    (hsettled : deed.settled? = some r) :
    (deed.event s).ok = true ↔ r ∈ deeds.filterMap Deed.removed? := by
  have hfailed : r ∈ deeds.filterMap Deed.failed? → r ∉ deeds.filterMap Deed.removed? := by
    intro hfailed hremoved
    have hboth := (perm_filterMap_or Deed.removed?_or_failed? deeds).nodup_iff.mpr honce
    exact (List.nodup_append.mp hboth).2.2 r hremoved r hfailed rfl
  cases deed with
  | spared path code message => cases hsettled
  | rewrote path pruning => cases hsettled
  | deleted path backup => cases hsettled
  | removed other files =>
      cases hsettled
      exact iff_of_true rfl (List.mem_filterMap.mpr ⟨_, hdeed, rfl⟩)
  | incomplete other files =>
      cases hsettled
      exact iff_of_false nofun (hfailed (List.mem_filterMap.mpr ⟨_, hdeed, rfl⟩))
  | kept other path code failure =>
      cases hsettled
      exact iff_of_false nofun (hfailed (List.mem_filterMap.mpr ⟨_, hdeed, rfl⟩))

theorem exists_mirrors_of_runs (hstarts : ∀ path, s.disk.StartsInDirectory path)
    (hruns : Runs (removeUnused store) s removal s') : ∃ deeds, Mirrors deeds s removal s' := by
  have hperm := settles_removeUnused hruns
  obtain ⟨t, hdisposes, rfl⟩ := disposes_removeUnused hruns
  obtain ⟨deeds, htells, henters, -⟩ := hdisposes
  have hfollows := htells.follows hstarts
  have hremoved : removal.removed = deeds.filterMap Deed.removed? := henters.removed
  have hfailed : removal.failed = deeds.filterMap Deed.failed? := henters.failed
  have hsettled : (deeds.filterMap Deed.settled?).Perm (s.catalog.unused.map Prod.fst) := by
    rw [hremoved, hfailed] at hperm
    exact (perm_filterMap_or Deed.removed?_or_failed? deeds).symm.trans hperm
  have honce := hsettled.nodup_iff.mpr s.catalog.nodup_unused
  have hwarnings : t.trail.warnings = s.trail.warnings ++ deeds.filterMap Deed.warning? := by
    rw [htells.trail]
  refine ⟨deeds, ?_, hwarnings, hsettled, honce, fun deed hdeed r hr => ?_,
    henters.prunedFiles.symm,
    henters.deletedFiles.symm, fun path pruning hmem => ?_, fun deed hdeed hnone hkept hstays => ?_,
    hfollows⟩
  · change t.trail.events = _
    rw [htells.trail]
  · rw [hremoved]
    exact ok_iff_of_settled? honce hdeed hr
  · obtain ⟨lines, rfl⟩ := hfollows.exists_lines hmem
    refine ⟨lines, rfl, Pruning.droppedCount_eq _ lines, fun r => ⟨fun hr => ?_, ?_⟩⟩
    · exact Pruning.exists_mem_marked_of_mem_removed hr
    · rintro ⟨line, hline, hr⟩
      exact Pruning.mem_removed_of_mem_marked hline r hr
  · cases deed with
    | spared path code message =>
        refine ⟨path, code, message, rfl, ?_⟩
        change message ∈ t.trail.warnings
        rw [hwarnings]
        exact List.mem_append_right _ (List.mem_filterMap.mpr ⟨_, hdeed, rfl⟩)
    | rewrote path pruning => cases hkept
    | deleted path backup => cases hstays
    | removed r files => cases hnone
    | incomplete r files => cases hnone
    | kept r path code failure => cases hnone

/-- **The trail mirrors the pass.** Unless an event cannot be added to the log, a pass succeeds, and
its events tell of what it has done and of nothing else. -/
theorem mirrors_removeUnused (hcan : CanRemove store s) :
    (∃ removal s' deeds, Runs (removeUnused store) s removal s' ∧ Mirrors deeds s removal s')
      ∨ s.trail.log ≠ none ∧ ∃ failure s', Task.exec (removeUnused store) s = (.error failure, s')
        ∧ ¬ s'.CanRecord := by
  refine (runs_or_stops hcan).imp_left ?_
  rintro ⟨removal, s', hruns⟩
  obtain ⟨deeds, hmirrors⟩ := exists_mirrors_of_runs hcan.starts hruns
  exact ⟨removal, s', deeds, hruns, hmirrors⟩

end

/-- A string is taken out of its file, a file below a link is deleted, and another one cannot be
backed up: two files and four resources are told of. -/
theorem mirrors_removeUnused_mixed : CanRemove Mixed.store Mixed.start
    ∧ ∃ removal s' deeds, Runs (removeUnused Mixed.store) Mixed.start removal s'
      ∧ Mirrors deeds Mixed.start removal s' ∧ deeds.length = 7 := by
  obtain ⟨removal, s', deeds, hruns, hmirrors⟩ :=
    (mirrors_removeUnused Mixed.canRemove).resolve_right fun h => h.1 rfl
  have hlength : (Task.exec (removeUnused Mixed.store) Mixed.start).2.trail.events.length = 7 := by
    decide +kernel
  rw [show Task.exec (removeUnused Mixed.store) Mixed.start = (.ok removal, s') from hruns,
    hmirrors.events, List.length_append, List.length_map] at hlength
  exact ⟨Mixed.canRemove, removal, s', deeds, hruns, hmirrors, (Nat.zero_add _).symm.trans hlength⟩

/-! ## Passes that are stopped -/

/-- Whether an event tells what has become of a resource. -/
def isOfResource (event : Event) : Bool :=
  event.action = Text.ofString "remove"

/-- As many events tell of resources as are unused. -/
def TellsOfAll (store : Backup.Store) (s : Session) : Prop :=
  (Task.exec (removeUnused store) s).2.trail.events.countP isOfResource
    = s.trail.events.countP isOfResource + s.catalog.unused.length

/-- A pass that is stopped does not tell of all unused resources. What stops it is not a link that
leads back to itself: such a one may come to be when another one has gone, no disk can have the
backup directory, or the log is one that events cannot be added to. -/
theorem not_mirrors_removeUnused :
    (¬ ∀ (store : Backup.Store) (s : Session), Stopped.IsOnward s →
      Disk.AreSpellable store.directory.parts → s.trail.log = none → TellsOfAll store s)
    ∧ (¬ ∀ (store : Backup.Store) (s : Session), Stopped.IsOnward s → s.trail.log = none →
      TellsOfAll store s)
    ∧ ¬ ∀ (store : Backup.Store) (s : Session), Stopped.IsOnward s →
      Disk.AreSpellable store.directory.parts → TellsOfAll store s := by
  refine ⟨fun hall => ?_, fun hall => ?_, fun hall => ?_⟩
  · have hok : Stopped.IsOnward Stopped.circling ∧ Disk.AreSpellable Stopped.inside.directory.parts
        ∧ ¬ TellsOfAll Stopped.inside Stopped.circling := by
      unfold Stopped.IsOnward Disk.AreSpellable TellsOfAll
      decide +kernel
    exact hok.2.2 (hall _ _ hok.1 hok.2.1 rfl)
  · have hok : Stopped.IsOnward Stopped.start ∧ ¬ TellsOfAll Stopped.impossible Stopped.start := by
      unfold Stopped.IsOnward TellsOfAll
      decide +kernel
    exact hok.2 (hall _ _ hok.1 rfl)
  · have hok : Stopped.IsOnward Stopped.unlogged ∧ Disk.AreSpellable Mixed.store.directory.parts
        ∧ ¬ TellsOfAll Mixed.store Stopped.unlogged := by
      unfold Stopped.IsOnward Disk.AreSpellable TellsOfAll
      decide +kernel
    exact hok.2.2 (hall _ _ hok.1 hok.2.1)

end ResourcePruner.Removal
