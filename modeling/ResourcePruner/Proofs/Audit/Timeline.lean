import ResourcePruner.Proofs.Audit.Calendar
import ResourcePruner.Proofs.Audit.Trail

/-!
# The log as a timeline

Of a log of recorded events, what is read since a moment are the last of the events that were not
recorded before it (`Audit.reads_since`): the reader compares stamps, and they stand in the order of
time (`Instant.stamp_lt_iff`).

A log is followed through the steps of a session, from a new file or from one that earlier sessions
have left: it goes on to hold an event for each instant at which one was recorded
(`Audit.Keeps.exists_run`).
-/

namespace ResourcePruner

namespace Audit

open Json (IsUnpaired)

/-! ## Logs of recorded events -/

/-- An event and the instant at which it was recorded. -/
structure Dated where
  instant : Instant
  event : Event
  isStamped : event.timestamp = instant.stamp

/-- The text is a log of the events, in their order; there is no entry on the other lines. -/
inductive IsLogOf : List Dated → Text → Prop
  | empty : IsLogOf [] []
  | event {dated : List Dated} {text : Text} (hlog : IsLogOf dated text) {next : Dated}
    (hnext : next.event.IsReadable) : IsLogOf (dated ++ [next]) (text ++ next.event.line)
  | other {dated : List Dated} {text chunk : Text} (hlog : IsLogOf dated text)
    (hchunk : ArePassedOver chunk) (hwhole : ∀ s ∈ chunk, s.isHalf = false) :
    IsLogOf dated (text ++ chunk)

/-- The events that were not recorded before the instant, to the millisecond. -/
def datedSince (since : Instant) (dated : List Dated) : List Dated :=
  dated.filter fun d => 1000 * since.milliseconds ≤ d.instant.elapsed

/-- The last items of a list, at most `limit` of them. -/
def latest {α : Type} (limit : Int) (list : List α) : List α :=
  list.drop (list.length - limit.toNat)

section

variable {dated : List Dated} {text : Text}

namespace IsLogOf

theorem areLines (hlog : IsLogOf dated text) : Text.AreLines text := by
  induction hlog with
  | empty => exact .inl rfl
  | event _ _ ih => exact ih.append (Event.areLines_line _)
  | other _ hchunk _ ih => exact ih.append hchunk.1

theorem isHalf (hlog : IsLogOf dated text) : ∀ s ∈ text, s.isHalf = false := by
  induction hlog with
  | empty => exact List.forall_mem_nil _
  | event _ hnext ih => exact List.forall_mem_append.mpr ⟨ih, Event.isHalf_line hnext⟩
  | other _ _ hwhole ih => exact List.forall_mem_append.mpr ⟨ih, hwhole⟩

theorem entries (hlog : IsLogOf dated text) (since : Option Text) :
    Audit.entries since text = .ok (entriesOf since (dated.map Dated.event)) := by
  induction hlog with
  | empty => rfl
  | event hlog hnext ih =>
      rw [List.map_append, entriesOf_append]
      exact entries_append hlog.areLines ih (entries_line hnext)
  | other hlog hchunk _ ih =>
      have hboth := entries_append hlog.areLines ih (entries_of_passedOver hchunk)
      rwa [List.append_nil] at hboth

end IsLogOf

/-- The stamps of the events tell which of them were not recorded before the instant. -/
theorem entriesOf_stamp {since : Instant} (hsince : since.IsDate)
    (hdated : ∀ d ∈ dated, d.instant.IsDate) :
    entriesOf (some since.stamp) (dated.map Dated.event)
      = (datedSince since dated).map (·.event.toJson.sorted) := by
  rw [entriesOf, datedSince, List.filter_map, List.map_map]
  refine congrArg (List.map _) (List.filter_congr fun d hd => ?_)
  have hiff := Instant.stamp_lt_iff (hdated d hd) hsince
  rw [Function.comp, Event.isSince, Option.all_some, d.isStamped, ← decide_not,
    decide_eq_decide, hiff,
    Nat.not_lt, Instant.milliseconds, Instant.milliseconds, Nat.le_div_iff_mul_le (by decide),
    Nat.mul_comm]

end

/-! ## Recording on the timeline -/

/-- The instants at which a step records an event. -/
def Step.instants (now : Instant) : Step → List Instant
  | record .. | warn .. => [now]
  | raw _ | clock _ => []

/-- What the clock shows after a step. -/
def Step.clockAfter (now : Instant) : Step → Instant
  | clock next => next
  | record .. | warn .. | raw _ => now

/-- The instants at which the steps record events. -/
def instants : Instant → List Step → List Instant
  | _, [] => []
  | now, step :: steps => step.instants now ++ instants (step.clockAfter now) steps

/-- The event by which an action is recorded, at the time that the clock shows. -/
def datedOf (s : Session) (action : Text) (ok : Bool) (errorCode : Option Text)
    (data : List (Text × Datum)) : Dated where
  instant := s.clock
  event := eventOf s action ok errorCode data
  isStamped := rfl

/-- The log of the session holds the events; more can be recorded in it. -/
structure Keeps (log : Path) (s : Session) (dated : List Dated) : Prop where
  isLog : s.trail.log = some log
  runId : IsUnpaired s.trail.runId
  starts : s.disk.StartsInDirectory log
  written : ∃ text, IsLogOf dated text ∧ IsWritten s.disk log text

namespace Keeps

variable {log : Path} {s : Session} {dated : List Dated}

theorem of_vacant (hlog : s.trail.log = some log) (hrun : IsUnpaired s.trail.runId)
    (hstarts : s.disk.StartsInDirectory log) (hvacant : s.disk.IsVacant log) : Keeps log s [] :=
  ⟨hlog, hrun, hstarts, [], .empty, .inl ⟨rfl, hvacant⟩⟩

/-- What is added to the file, the log holds. -/
theorem exists_append (hkeeps : Keeps log s dated) (more : List Dated) (chunk : Text)
    (hchunk : ∀ {text}, IsLogOf dated text → IsLogOf (dated ++ more) (text ++ chunk)) :
    ∃ disk, s.disk.append log (Utf8.encode chunk) = .ok disk ∧
      ∀ t : Session, t.disk = disk → t.trail.log = s.trail.log → t.trail.runId = s.trail.runId →
        Keeps log t (dated ++ more) := by
  obtain ⟨text, htext, hwritten⟩ := hkeeps.written
  obtain ⟨disk, happend, hwritten, hstarts⟩ := hwritten.exists_append hkeeps.starts chunk
  refine ⟨disk, happend, fun t hdisk hlog hrun => ?_⟩
  exact ⟨hlog.trans hkeeps.isLog, hrun ▸ hkeeps.runId, hdisk ▸ hstarts, _, hchunk htext,
    hdisk ▸ hwritten⟩

/-- Recording an action adds one event. -/
theorem exists_record (hkeeps : Keeps log s dated) {action : Text} (ok : Bool)
    {errorCode : Option Text} {data : List (Text × Datum)} (haction : IsUnpaired action)
    (hcode : ∀ code ∈ errorCode, IsUnpaired code) (hdata : AreReadable data) :
    ∃ t, Task.Runs (Task.record action ok errorCode data) s (eventOf s action ok errorCode data) t
      ∧ Keeps log t (dated ++ [datedOf s action ok errorCode data])
      ∧ t.trail.events = s.trail.events ++ [eventOf s action ok errorCode data]
      ∧ t.clock = s.clock := by
  have hevent : (datedOf s action ok errorCode data).event.IsReadable :=
    isReadable_eventOf hkeeps.runId haction hcode hdata
  obtain ⟨disk, happend, hnext⟩ := hkeeps.exists_append [_] _ fun htext => htext.event hevent
  exact ⟨_, runs_record hkeeps.isLog hdata happend, hnext _ rfl rfl rfl, rfl, rfl⟩

/-- A step succeeds, and the log holds what it records. -/
theorem exists_step (hkeeps : Keeps log s dated) {step : Step} (hstep : step.IsReadable) :
    ∃ t more, Task.Runs step.run s () t ∧ Keeps log t (dated ++ more)
      ∧ t.trail.events = s.trail.events ++ more.map Dated.event
      ∧ more.map Dated.instant = step.instants s.clock ∧ t.clock = step.clockAfter s.clock := by
  cases step with
  | record action ok errorCode data =>
      obtain ⟨haction, hcode, hdata⟩ := hstep
      obtain ⟨t, hruns, hnext, hevents, hclock⟩ := hkeeps.exists_record ok haction hcode hdata
      exact ⟨t, [_], Task.runs_discard.mpr ⟨_, hruns⟩, hnext, hevents, rfl, hclock⟩
  | warn action errorCode message data =>
      obtain ⟨haction, hcode, hmessage, hdata⟩ := hstep
      have hwarned : Keeps log
          { s with trail := { s.trail with warnings := s.trail.warnings ++ [message] } } dated :=
        { hkeeps with }
      have hnamed : AreReadable (("message", .text message) :: data) :=
        List.forall_mem_cons.mpr ⟨⟨Json.isUnpaired_ofString _, .str hmessage⟩, hdata⟩
      obtain ⟨t, hruns, hnext, hevents, hclock⟩ := hwarned.exists_record false haction
        (fun code h => Option.some.inj h ▸ hcode) hnamed
      exact ⟨t, [_], Task.runs_bind.mpr ⟨(), _, Task.runs_modify.mpr rfl,
        Task.runs_discard.mpr ⟨_, hruns⟩⟩, hnext, hevents, rfl, hclock⟩
  | raw text =>
      obtain ⟨hwhole, hpassed⟩ := hstep
      obtain ⟨disk, happend, hnext⟩ := hkeeps.exists_append [] text fun htext => by
        rw [List.append_nil]
        exact htext.other hpassed hwhole
      refine ⟨{ s with disk }, [], ?_, hnext _ rfl rfl rfl, (List.append_nil _).symm, rfl, rfl⟩
      refine Task.runs_get_bind.mpr ?_
      simp only [hkeeps.isLog]
      exact Task.runs_changeDisk.mpr ⟨disk, happend, rfl⟩
  | clock now =>
      refine ⟨{ s with clock := now }, [], Task.runs_modify.mpr rfl, ?_,
        (List.append_nil _).symm, rfl, rfl⟩
      rw [List.append_nil]
      exact { hkeeps with }

theorem exists_run (hkeeps : Keeps log s dated) {steps : List Step}
    (hsteps : ∀ step ∈ steps, step.IsReadable) :
    ∃ t more, Task.Runs (runAll steps) s () t ∧ Keeps log t (dated ++ more)
      ∧ t.trail.events = s.trail.events ++ more.map Dated.event
      ∧ more.map Dated.instant = instants s.clock steps := by
  induction steps generalizing s dated with
  | nil =>
      refine ⟨s, [], runAll_nil.mpr rfl, ?_, (List.append_nil _).symm, rfl⟩
      rwa [List.append_nil]
  | cons step steps ih =>
      obtain ⟨hstep, hsteps⟩ := List.forall_mem_cons.mp hsteps
      obtain ⟨middle, first, hfirst, hkeeps, hevents, hinstants, hclock⟩ := hkeeps.exists_step hstep
      obtain ⟨t, rest, hrest, hkeeps, hevents', hinstants'⟩ := ih hkeeps hsteps
      refine ⟨t, first ++ rest, runAll_cons.mpr ⟨middle, hfirst, hrest⟩, ?_, ?_, ?_⟩
      · rwa [← List.append_assoc]
      · rw [hevents', hevents, List.map_append, List.append_assoc]
      · rw [List.map_append, hinstants, hinstants', hclock, instants]

theorem read_eq (hkeeps : Keeps log s dated) (since : Option Text) {limit : Int}
    (hlimit : 1 ≤ limit) :
    read s.disk log since limit = .ok (latest limit (entriesOf since (dated.map Dated.event))) := by
  obtain ⟨text, htext, hwritten⟩ := hkeeps.written
  exact read_of_written hwritten htext.isHalf (htext.entries since) hlimit

end Keeps

/-- **What is read since a moment is what was recorded since it.** For all instants, stamps are
compared as the instants are, to the millisecond. So, whatever a session records in a log, on a new
file or after events of earlier sessions: reading since the stamp of an instant yields the events
that were not recorded before it, the last ones up to the limit. -/
theorem reads_since {s : Session} {log : Path} {earlier : List Dated} (hkeeps : Keeps log s earlier)
    (hearlier : ∀ d ∈ earlier, d.instant.IsDate) {steps : List Step}
    (hsteps : ∀ step ∈ steps, step.IsReadable)
    (hdates : ∀ now ∈ instants s.clock steps, now.IsDate) :
    (∀ first second : Instant, first.IsDate → second.IsDate →
      (first.stamp < second.stamp ↔ first.milliseconds < second.milliseconds)
        ∧ (first.stamp = second.stamp ↔ first.milliseconds = second.milliseconds))
    ∧ ∃ t recorded, Task.Runs (runAll steps) s () t
      ∧ t.trail.events = s.trail.events ++ recorded.map Dated.event
      ∧ recorded.map Dated.instant = instants s.clock steps
      ∧ ∀ since : Instant, since.IsDate → ∀ limit, 1 ≤ limit →
        read t.disk log (some since.stamp) limit
          = .ok (latest limit
            ((datedSince since (earlier ++ recorded)).map (·.event.toJson.sorted))) := by
  refine ⟨fun _ _ hfirst hsecond =>
    ⟨Instant.stamp_lt_iff hfirst hsecond, Instant.stamp_eq_iff hfirst hsecond⟩, ?_⟩
  obtain ⟨t, recorded, hruns, hkeeps, hevents, hinstants⟩ := hkeeps.exists_run hsteps
  refine ⟨t, recorded, hruns, hevents, hinstants, fun since hsince limit hlimit => ?_⟩
  have hall : ∀ d ∈ earlier ++ recorded, d.instant.IsDate := by
    refine List.forall_mem_append.mpr ⟨hearlier, fun d hd => hdates d.instant ?_⟩
    rw [← hinstants]
    exact List.mem_map_of_mem hd
  rw [hkeeps.read_eq _ hlimit, entriesOf_stamp hsince hall]

/-! ## The sample, and a log of many events -/

theorem Sample.keeps : Keeps log start [] :=
  .of_vacant rfl (Json.isUnpaired_ofString _) (Disk.startsInDirectory_of_isAbsolute _ rfl) vacant

theorem Sample.isDate_of_mem_instants : ∀ now ∈ instants start.clock steps, now.IsDate := by
  simp only [steps, instants, Step.instants, Step.clockAfter, List.cons_append, List.nil_append,
    List.forall_mem_cons]
  exact ⟨by decide, by decide, by decide, List.forall_mem_nil _⟩

theorem reads_since_sample :
    (∀ first second : Instant, first.IsDate → second.IsDate →
      (first.stamp < second.stamp ↔ first.milliseconds < second.milliseconds)
        ∧ (first.stamp = second.stamp ↔ first.milliseconds = second.milliseconds))
    ∧ ∃ t recorded, Task.Runs (runAll Sample.steps) Sample.start () t
      ∧ t.trail.events = Sample.start.trail.events ++ recorded.map Dated.event
      ∧ recorded.map Dated.instant = instants Sample.start.clock Sample.steps
      ∧ ∀ since : Instant, since.IsDate → ∀ limit, 1 ≤ limit →
        read t.disk Sample.log (some since.stamp) limit
          = .ok (latest limit ((datedSince since ([] ++ recorded)).map (·.event.toJson.sorted))) :=
  reads_since Sample.keeps (List.forall_mem_nil _) Sample.isReadable_steps
    Sample.isDate_of_mem_instants

/-- An action, recorded so many times. -/
def Sample.ticks (times : Nat) : List Step :=
  List.replicate times (.record "tick" true none [])

theorem Sample.instants_ticks (now : Instant) (times : Nat) :
    instants now (ticks times) = List.replicate times now := by
  induction times with
  | zero => rfl
  | succ times ih => exact congrArg (now :: ·) ih

/-- Not all events since a moment are read: a reader that is not told how many yields the last
fifty. -/
theorem not_reads_all_since :
    ∃ t recorded, Task.Runs (runAll (Sample.ticks 51)) Sample.start () t
      ∧ t.trail.events = recorded.map Dated.event ∧ recorded.length = 51
      ∧ (∀ d ∈ recorded, d.instant = Sample.start.clock)
      ∧ read t.disk Sample.log (some Sample.start.clock.stamp) 50
        ≠ .ok ((datedSince Sample.start.clock recorded).map (·.event.toJson.sorted)) := by
  have hsteps : ∀ step ∈ Sample.ticks 51, step.IsReadable := by
    intro step hstep
    obtain rfl := List.eq_of_mem_replicate hstep
    exact ⟨Json.isUnpaired_ofString _, nofun, nofun⟩
  obtain ⟨t, recorded, hruns, hkeeps, hevents, hinstants⟩ := Sample.keeps.exists_run hsteps
  rw [Sample.instants_ticks] at hinstants
  have hlength : recorded.length = 51 := by
    rw [← List.length_map Dated.instant, hinstants, List.length_replicate]
  have hnow : ∀ d ∈ recorded, d.instant = Sample.start.clock := fun d hd =>
    List.eq_of_mem_replicate (hinstants ▸ List.mem_map_of_mem hd)
  have hsince : datedSince Sample.start.clock recorded = recorded :=
    List.filter_eq_self.mpr fun d hd => by
      rw [hnow d hd]
      exact decide_eq_true (Instant.mul_milliseconds_le _)
  refine ⟨t, recorded, hruns, hevents, hlength, hnow, fun hread => ?_⟩
  have hdate : Sample.start.clock.IsDate := by decide
  rw [hkeeps.read_eq _ (by decide), List.nil_append,
    entriesOf_stamp hdate fun d hd => hnow d hd ▸ hdate, hsince] at hread
  have hlengths := congrArg List.length (Except.ok.inj hread)
  rw [latest, List.length_drop, List.length_map, hlength] at hlengths
  exact absurd hlengths (by decide)

end Audit

end ResourcePruner
