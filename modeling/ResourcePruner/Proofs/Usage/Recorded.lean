import ResourcePruner.Proofs.Task.Finishes
import ResourcePruner.Proofs.Usage.Scan

/-!
# Sessions that only record

A scan does nothing to the disk but to add events to the log, and nothing at all if the log cannot
be added to (`Session.Recorded`). So every path leads where it led, and what lies anywhere but at
the end of the log's path is what lay there.
-/

namespace ResourcePruner

open Disk (WrittenAt)
open ResourcePruner.Task (IsCounted Preserves)

instance : IsCounted (Preserves Session.CanRecord) where
  catalog _ _ _ h := h
  roots _ _ _ h := h
  patience _ _ h := h

namespace Session

/-- The log leads to the place. -/
def LogsAt (s : Session) (place : Place) : Prop :=
  ∃ log goal, s.trail.log = some log ∧ s.disk.Attains log goal ∧ goal.place = place

/-- From the one session to the other, events have been added to the log, if they could be. -/
structure Recorded (s s' : Session) : Prop where
  log : s'.trail.log = s.trail.log
  home : s'.disk.home = s.disk.home
  written : (∀ path, s.disk.StartsInDirectory path) → WrittenAt s.LogsAt s.disk s'.disk
  disk : s'.disk = s.disk ∨ s.CanRecord

namespace Recorded

variable {s t s' : Session} {path goal : Path} {place : Place}

theorem startOf_eq (hrecorded : Recorded s t) (path : Path) :
    t.disk.startOf path = s.disk.startOf path :=
  Disk.startOf_eq_of_home hrecorded.home path

theorem trans (hfirst : Recorded s t) (hsecond : Recorded t s') : Recorded s s' where
  log := hsecond.log.trans hfirst.log
  home := hsecond.home.trans hfirst.home
  written hstarts := by
    have hwritten := hfirst.written hstarts
    have hplaces : t.LogsAt = s.LogsAt := by
      funext place
      simp only [LogsAt, hfirst.log, hwritten.attains_iff (hfirst.startOf_eq _)]
    refine hwritten.trans (hplaces ▸ hsecond.written fun path => ?_)
    exact (hwritten.startsInDirectory_iff (hfirst.startOf_eq path)).mpr (hstarts path)
  disk := by
    rcases hfirst.disk with hsame | hrecords
    · rcases hsecond.disk with hsame' | hrecords
      · exact .inl (hsame'.trans hsame)
      · rw [CanRecord, hfirst.log, hsame] at hrecords
        exact .inr hrecords
    · exact .inr hrecords

/-- A session that differs from another one in what is counted and recorded only. -/
theorem of_disk (hlog : t.trail.log = s.trail.log) (hdisk : t.disk = s.disk) : Recorded s t where
  log := hlog
  home := hdisk ▸ rfl
  written _ := by
    rw [hdisk]
    exact .refl _ _
  disk := .inl hdisk

instance : IsCounted Recorded where
  refl _ := .of_disk rfl rfl
  trans := .trans
  trail _ _ _ := .of_disk rfl rfl
  append s log bytes disk hlog happend := by
    refine ⟨rfl, ?_, fun hstarts => ?_, .inr fun path hpath => ?_⟩
    · have hwrite : s.disk.writeWith log (fun old => old.getD [] ++ bytes) = .ok disk :=
        happend
      obtain ⟨place, old, -, rfl, -⟩ := Disk.exists_hasRoom_of_writeWith hwrite
      exact Disk.home_put _ _ _
    · exact (WrittenAt.refl _ _).append (hstarts log)
        (fun goal hgoal => ⟨log, goal, hlog, hgoal, rfl⟩)
        happend
    · obtain rfl : log = path := Option.some.inj (hlog.symm.trans hpath)
      exact Disk.exists_append happend []
  catalog _ _ _ := .of_disk rfl rfl
  roots _ _ _ := .of_disk rfl rfl
  patience _ _ := .of_disk rfl rfl

variable (hstarts : ∀ path, s.disk.StartsInDirectory path) (hrecorded : Recorded s t)

include hstarts hrecorded

theorem attains_iff : t.disk.Attains path goal ↔ s.disk.Attains path goal :=
  (hrecorded.written hstarts).attains_iff (hrecorded.startOf_eq path)

theorem startsInDirectory (path : Path) : t.disk.StartsInDirectory path :=
  ((hrecorded.written hstarts).startsInDirectory_iff (hrecorded.startOf_eq path)).mpr (hstarts path)

theorem get?_eq (hplace : ¬ s.LogsAt place) : t.disk.get? place = s.disk.get? place :=
  (hrecorded.written hstarts).elsewhere place hplace

theorem hasSpellableLinks (hlinks : s.disk.HasSpellableLinks) : t.disk.HasSpellableLinks :=
  fun place target hlink => hlinks place target
    (((hrecorded.written hstarts).back.link place target).mp hlink)

theorem reach_alike :
    Disk.Reach.Alike s.LogsAt (s.disk.reach .target path) (t.disk.reach .target path) :=
  Disk.reach_alike (hrecorded.written hstarts) (by decide) (hrecorded.startOf_eq path)

/-- Whether events can be recorded does not change. -/
theorem canRecord_iff : t.CanRecord ↔ s.CanRecord := by
  simp only [CanRecord, hrecorded.log,
    (hrecorded.written hstarts).exists_append_iff (hrecorded.startOf_eq _)]

end Recorded

end Session

end ResourcePruner
