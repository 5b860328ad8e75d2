import ResourcePruner.Proofs.Audit.Lines
import ResourcePruner.Proofs.Disk.Readback
import ResourcePruner.Proofs.Utf8

/-!
# What was recorded is read

A trail with a log on a new file is recorded in, while other lines that are no values may be added
to the file. Whatever is read from the log then is what the trail holds in memory: of the events
since the given moment, the last ones, in order (`Audit.read_recorded`).

The run keeps an invariant between the disk and the trail (`Audit.Logged`): the file spells a text
of whole lines, and the entries of the text are the recorded events. Each step adds lines and the
events on them.
-/

namespace ResourcePruner

open Json (IsUnpaired)

/-! ## Texts without halves -/

theorem Text.isHalf_ofString (text : String) : ∀ s ∈ ofString text, s.isHalf = false := by
  intro s hs
  obtain ⟨c, -, rfl⟩ := List.mem_map.mp hs
  rfl

theorem Text.isHalf_fixedDigits (base width n : Nat) :
    ∀ s ∈ fixedDigits base width n, s.isHalf = false := by
  induction width generalizing n with
  | zero => exact fun _ h => nomatch h
  | succ width ih =>
      exact List.forall_mem_append.mpr ⟨ih (n / base), List.forall_mem_singleton.mpr rfl⟩

theorem Json.isUnpaired_ofString (text : String) : IsUnpaired (Text.ofString text) :=
  isUnpaired_of_isHalf (Text.isHalf_ofString text)

theorem Instant.isUnpaired_stamp (instant : Instant) : IsUnpaired instant.stamp := by
  refine Json.isUnpaired_of_isHalf ?_
  simp only [stamp, List.forall_mem_append]
  and_intros
  all_goals first
    | exact Text.isHalf_fixedDigits 10 _ _
    | exact Text.isHalf_ofString _

namespace Audit

/-! ## Steps -/

/-- How deep data may nest. It is less than `Event.maxDepth`, so that six calls more may be open
when they are recorded, and half of what is read. -/
def maxDepth : Nat := 490

/-- Data that can be recorded and read back from the log. -/
def AreReadable (data : List (Text × Datum)) : Prop :=
  ∀ field ∈ data, IsUnpaired field.1 ∧ Json.IsReadable maxDepth field.2.plain

/-- What may happen between two readings of a log: an action is recorded, something else is added to
the file, or time passes. -/
inductive Step where
  | record (action : Text) (ok : Bool) (errorCode : Option Text) (data : List (Text × Datum))
  | warn (action errorCode message : Text) (data : List (Text × Datum))
  | raw (text : Text)
  | clock (now : Instant)

namespace Step

/-- A step, taken. -/
def run : Step → Task Unit
  | record action ok errorCode data => discard (Task.record action ok errorCode data)
  | warn action errorCode message data => Task.warn action errorCode message data
  | raw text => do
    match (← get).trail.log with
    | none => pure ()
    | some log => Task.changeDisk (·.append log (Utf8.encode text))
  | clock now => modify fun session => { session with clock := now }

/-- Whether a step records an event. -/
def isRecording : Step → Bool
  | record .. | warn .. => true
  | raw _ | clock _ => false

/-- What the step records can be read back; lines that it adds otherwise are blank or no values. -/
def IsReadable : Step → Prop
  | record action _ errorCode data =>
    IsUnpaired action ∧ (∀ code ∈ errorCode, IsUnpaired code) ∧ AreReadable data
  | warn action errorCode message data =>
    IsUnpaired action ∧ IsUnpaired errorCode ∧ IsUnpaired message ∧ AreReadable data
  | raw text => (∀ s ∈ text, s.isHalf = false) ∧ ArePassedOver text
  | clock _ => True

end Step

/-- The steps of a list, one after the other. -/
def runAll (steps : List Step) : Task Unit :=
  steps.foldlM (fun _ step => step.run) ()

/-! ## Recording -/

section

variable {s : Session} {log : Path} {disk : Disk}

theorem metadata_of_areReadable (s : Session) (action : Text) (ok : Bool) (errorCode : Option Text)
    {data : List (Text × Datum)} (hdata : AreReadable data) :
    ∀ field ∈ (eventOf s action ok errorCode data).metadata,
      IsUnpaired field.1 ∧ Json.IsReadable maxDepth field.2 := by
  intro field hfield
  obtain ⟨datum, hdatum, rfl⟩ := List.mem_map.mp (Json.mem_of_mem_sortFields hfield)
  exact hdata datum hdatum

theorem isReadable_eventOf (hrun : IsUnpaired s.trail.runId) {action : Text} {ok : Bool}
    {errorCode : Option Text} {data : List (Text × Datum)} (haction : IsUnpaired action)
    (hcode : ∀ code ∈ errorCode, IsUnpaired code) (hdata : AreReadable data) :
    (eventOf s action ok errorCode data).IsReadable := by
  suffices hevent : Json.IsReadable (maxDepth + 2) (eventOf s action ok errorCode data).toJson from
    hevent.mono (by decide)
  have hmetadata :
      Json.IsReadable (maxDepth + 1) (.obj (eventOf s action ok errorCode data).metadata) :=
    have hfields := metadata_of_areReadable s action ok errorCode hdata
    .obj (fun field h => (hfields field h).1) fun field h => (hfields field h).2
  have herror : Json.IsReadable (maxDepth + 1) ((errorCode.map Json.str).getD .null) := by
    cases errorCode with
    | none => exact .null
    | some code => exact .str (hcode code rfl)
  refine Json.IsReadable.obj ?_ ?_
  · simp only [List.forall_mem_cons]
    exact ⟨Json.isUnpaired_ofString _, Json.isUnpaired_ofString _, Json.isUnpaired_ofString _,
      Json.isUnpaired_ofString _, Json.isUnpaired_ofString _, Json.isUnpaired_ofString _, nofun⟩
  · simp only [List.forall_mem_cons]
    exact ⟨.str (Instant.isUnpaired_stamp _), .str hrun, .str haction, .bool ok, herror, hmetadata,
      nofun⟩

theorem runs_record (hlog : s.trail.log = some log) {action : Text} {ok : Bool}
    {errorCode : Option Text} {data : List (Text × Datum)} (hdata : AreReadable data)
    (happend : append s.disk log (eventOf s action ok errorCode data) = .ok disk) :
    Task.Runs (Task.record action ok errorCode data) s (eventOf s action ok errorCode data)
      { s with
        disk := disk
        trail := { s.trail with
          events := s.trail.events ++ [eventOf s action ok errorCode data] } } := by
  have hnest (limit : Nat) (hle : maxDepth ≤ limit) :
      Json.nestWithin limit (eventOf s action ok errorCode data).metadata = true :=
    Json.nestWithin_iff.mpr fun field hfield =>
      (metadata_of_areReadable s action ok errorCode hdata field hfield).2.depth_le.trans hle
  refine Task.runs_record.mpr ⟨rfl, hnest _ (by decide), Task.runs_note.mpr ⟨disk, ?_, rfl⟩⟩
  rw [Session.LogsOn, hlog]
  exact ⟨hnest _ (by decide), happend⟩

end

/-! ## The log and the trail -/

section

variable {start s : Session} {log : Path} {recorded more : List Event} {text chunk : Text}

/-- The entries of a log to which the events have been added. -/
def entriesOf (since : Option Text) (events : List Event) : List Json :=
  (events.filter (·.isSince since)).map (·.toJson.sorted)

theorem entriesOf_append (since : Option Text) (events more : List Event) :
    entriesOf since (events ++ more) = entriesOf since events ++ entriesOf since more := by
  rw [entriesOf, List.filter_append, List.map_append]
  rfl

/-- Since the start, the trail has recorded the events, and the text has been added to its log: the
events are the entries of the text. -/
structure Logged (log : Path) (start s : Session) (recorded : List Event) (text : Text) : Prop where
  isLog : s.trail.log = some log
  runId : s.trail.runId = start.trail.runId
  events : s.trail.events = start.trail.events ++ recorded
  starts : s.disk.StartsInDirectory log
  written : text = [] ∧ s.disk.IsVacant log ∨ s.disk.read log = .ok (Utf8.encode text)
  whole : ∀ s ∈ text, s.isHalf = false
  lines : Text.AreLines text
  entries : ∀ since, entries since text = .ok (entriesOf since recorded)

/-- A log is read as the last entries of the text that it spells. -/
theorem read_of_entries {disk : Disk} (hread : disk.read log = .ok (Utf8.encode text))
    (hwhole : ∀ s ∈ text, s.isHalf = false) {since : Option Text} {found : List Json}
    (hfound : entries since text = .ok found) {limit : Int} (hlimit : 1 ≤ limit) :
    read disk log since limit = .ok (found.drop (found.length - limit.toNat)) := by
  have hdecode := Utf8.decode?_encode hwhole
  rw [read, if_neg (Int.not_lt.mpr hlimit)]
  simp only [Disk.isPresent_of_read hread, hread, Except.mapError, bind, Except.bind,
    hdecode, hfound, Bool.not_true, Bool.false_eq_true, if_false]
  rfl

/-- The file of a log is new and the text is empty, or the file spells the text. -/
def IsWritten (disk : Disk) (log : Path) (text : Text) : Prop :=
  text = [] ∧ disk.IsVacant log ∨ disk.read log = .ok (Utf8.encode text)

theorem read_of_written {disk : Disk} (hwritten : IsWritten disk log text)
    (hwhole : ∀ s ∈ text, s.isHalf = false) {since : Option Text} {found : List Json}
    (hfound : entries since text = .ok found) {limit : Int} (hlimit : 1 ≤ limit) :
    read disk log since limit = .ok (found.drop (found.length - limit.toNat)) := by
  rcases hwritten with ⟨rfl, hvacant⟩ | hread
  · have hempty : found = [] := (Except.ok.inj hfound).symm
    rw [read, if_neg (Int.not_lt.mpr hlimit), Disk.isPresent_of_vacant hvacant, hempty,
      List.drop_nil]
    rfl
  · exact read_of_entries hread hwhole hfound hlimit

/-- A text can be added to the file of a log. -/
theorem IsWritten.exists_append (hwritten : IsWritten disk log text)
    (hstarts : disk.StartsInDirectory log) (chunk : Text) :
    ∃ more, disk.append log (Utf8.encode chunk) = .ok more ∧ IsWritten more log (text ++ chunk)
      ∧ more.StartsInDirectory log := by
  rcases hwritten with ⟨rfl, hvacant⟩ | hread
  · obtain ⟨more, happend, hread, hmore⟩ := Disk.exists_writeWith_of_vacant hstarts hvacant
      fun old => old.getD [] ++ Utf8.encode chunk
    exact ⟨more, happend, .inr hread, hmore⟩
  · obtain ⟨more, happend, hread, hmore⟩ := Disk.exists_writeWith_of_read hstarts hread
      fun old => old.getD [] ++ Utf8.encode chunk
    have hencode : Utf8.encode (text ++ chunk) = Utf8.encode text ++ Utf8.encode chunk :=
      List.flatMap_append
    exact ⟨more, happend, .inr (hencode ▸ hread), hmore⟩

namespace Logged

theorem refl (hlog : start.trail.log = some log) (hstarts : start.disk.StartsInDirectory log)
    (hvacant : start.disk.IsVacant log) : Logged log start start [] [] where
  isLog := hlog
  runId := rfl
  events := (List.append_nil _).symm
  starts := hstarts
  written := .inl ⟨rfl, hvacant⟩
  whole := fun _ h => nomatch h
  lines := .inl rfl
  entries := fun _ => rfl

/-- Lines can be added to the file; with the events that they hold, the log and the trail stay in
step. -/
theorem exists_append (hlogged : Logged log start s recorded text)
    (hlines : Text.AreLines chunk) (hwhole : ∀ s ∈ chunk, s.isHalf = false)
    (hentries : ∀ since, Audit.entries since chunk = .ok (entriesOf since more)) :
    ∃ disk, s.disk.append log (Utf8.encode chunk) = .ok disk ∧
      ∀ t : Session, t.disk = disk → t.trail.log = s.trail.log → t.trail.runId = s.trail.runId →
        t.trail.events = s.trail.events ++ more →
        Logged log start t (recorded ++ more) (text ++ chunk) := by
  obtain ⟨disk, happend, hwritten, hstarts⟩ :=
    IsWritten.exists_append hlogged.written hlogged.starts chunk
  refine ⟨disk, happend, fun t hdisk hlog hrun hevents => ?_⟩
  refine ⟨hlog.trans hlogged.isLog, hrun.trans hlogged.runId, ?_, hdisk ▸ hstarts, hdisk ▸ hwritten,
    List.forall_mem_append.mpr ⟨hlogged.whole, hwhole⟩, hlogged.lines.append hlines,
    fun since => ?_⟩
  · rw [hevents, hlogged.events, List.append_assoc]
  · rw [entriesOf_append]
    exact entries_append hlogged.lines (hlogged.entries since) (hentries since)

/-- An event that can be read back is recorded in the trail and in the log. -/
theorem exists_record (hlogged : Logged log start s recorded text)
    (hrun : IsUnpaired start.trail.runId) {action : Text} (ok : Bool) {errorCode : Option Text}
    {data : List (Text × Datum)} (haction : IsUnpaired action)
    (hcode : ∀ code ∈ errorCode, IsUnpaired code) (hdata : AreReadable data) :
    ∃ event t chunk, Task.Runs (Task.record action ok errorCode data) s event t
      ∧ Logged log start t (recorded ++ [event]) (text ++ chunk) := by
  have hevent : (eventOf s action ok errorCode data).IsReadable :=
    isReadable_eventOf (hlogged.runId ▸ hrun) haction hcode hdata
  obtain ⟨disk, happend, hnext⟩ := hlogged.exists_append (Event.areLines_line _)
    (Event.isHalf_line hevent) fun _ => entries_line hevent
  exact ⟨_, _, _, runs_record hlogged.isLog hdata happend, hnext _ rfl rfl rfl rfl⟩

/-- What is read are the last of the events recorded since the moment. -/
theorem read_eq (hlogged : Logged log start s recorded text) (since : Option Text) {limit : Int}
    (hlimit : 1 ≤ limit) :
    read s.disk log since limit = .ok ((entriesOf since recorded).drop
      ((entriesOf since recorded).length - limit.toNat)) :=
  read_of_written hlogged.written hlogged.whole (hlogged.entries since) hlimit

end Logged

/-! ## Runs -/

theorem runAll_nil {s t : Session} {u : Unit} : Task.Runs (runAll []) s u t ↔ t = s := by
  rw [runAll, Task.runs_foldlM_nil]
  exact and_iff_right rfl

theorem runAll_cons {step : Step} {steps : List Step} {s t : Session} {u : Unit} :
    Task.Runs (runAll (step :: steps)) s u t ↔
      ∃ middle, Task.Runs step.run s () middle ∧ Task.Runs (runAll steps) middle u t := by
  rw [runAll, Task.runs_foldlM_cons]
  constructor
  · rintro ⟨⟨⟩, middle, hstep, hsteps⟩
    exact ⟨middle, hstep, hsteps⟩
  · rintro ⟨middle, hstep, hsteps⟩
    exact ⟨(), middle, hstep, hsteps⟩

/-- A step succeeds and keeps the log and the trail in step. -/
theorem Logged.exists_step (hlogged : Logged log start s recorded text)
    (hrun : IsUnpaired start.trail.runId) {step : Step} (hstep : step.IsReadable) :
    ∃ t more chunk, Task.Runs step.run s () t
      ∧ Logged log start t (recorded ++ more) (text ++ chunk)
      ∧ more.length = if step.isRecording then 1 else 0 := by
  cases step with
  | record action ok errorCode data =>
      obtain ⟨haction, hcode, hdata⟩ := hstep
      obtain ⟨event, t, chunk, hruns, hnext⟩ := hlogged.exists_record hrun ok haction hcode hdata
      exact ⟨t, [event], chunk, Task.runs_discard.mpr ⟨event, hruns⟩, hnext, rfl⟩
  | warn action errorCode message data =>
      obtain ⟨haction, hcode, hmessage, hdata⟩ := hstep
      have hwarned : Logged log start
          { s with trail := { s.trail with warnings := s.trail.warnings ++ [message] } }
          recorded text := { hlogged with }
      have hnamed : AreReadable (("message", .text message) :: data) :=
        List.forall_mem_cons.mpr ⟨⟨Json.isUnpaired_ofString _, .str hmessage⟩, hdata⟩
      obtain ⟨event, t, chunk, hruns, hnext⟩ := hwarned.exists_record hrun false haction
        (fun code h => Option.some.inj h ▸ hcode) hnamed
      exact ⟨t, [event], chunk, Task.runs_bind.mpr ⟨(), _, Task.runs_modify.mpr rfl,
        Task.runs_discard.mpr ⟨event, hruns⟩⟩, hnext, rfl⟩
  | raw raw =>
      obtain ⟨hwhole, hpassed⟩ := hstep
      have hentries : ∀ since, Audit.entries since raw = .ok (entriesOf since []) :=
        fun _ => entries_of_passedOver hpassed
      obtain ⟨disk, happend, hnext⟩ := hlogged.exists_append hpassed.1 hwhole hentries
      refine ⟨{ s with disk }, [], raw, ?_, hnext _ rfl rfl rfl (List.append_nil _).symm, rfl⟩
      refine Task.runs_get_bind.mpr ?_
      simp only [hlogged.isLog]
      exact Task.runs_changeDisk.mpr ⟨disk, happend, rfl⟩
  | clock now =>
      refine ⟨{ s with clock := now }, [], [], Task.runs_modify.mpr rfl, ?_, rfl⟩
      rw [List.append_nil, List.append_nil]
      exact { hlogged with }

theorem Logged.exists_run (hlogged : Logged log start s recorded text)
    (hrun : IsUnpaired start.trail.runId) {steps : List Step}
    (hsteps : ∀ step ∈ steps, step.IsReadable) :
    ∃ t more chunk, Task.Runs (runAll steps) s () t
      ∧ Logged log start t (recorded ++ more) (text ++ chunk)
      ∧ more.length = steps.countP Step.isRecording := by
  induction steps generalizing s recorded text with
  | nil =>
      refine ⟨s, [], [], runAll_nil.mpr rfl, ?_, rfl⟩
      rwa [List.append_nil, List.append_nil]
  | cons step steps ih =>
      obtain ⟨hstep, hsteps⟩ := List.forall_mem_cons.mp hsteps
      obtain ⟨middle, first, chunk, hfirst, hlogged, hone⟩ := hlogged.exists_step hrun hstep
      obtain ⟨t, rest, chunks, hrest, hlogged, hcount⟩ := ih hlogged hsteps
      refine ⟨t, first ++ rest, chunk ++ chunks, runAll_cons.mpr ⟨middle, hfirst, hrest⟩, ?_, ?_⟩
      · rwa [← List.append_assoc, ← List.append_assoc]
      · rw [List.length_append, List.countP_cons, hone, hcount, Nat.add_comm]

/-- Whatever is recorded in a trail through a log on a new file, with blank lines and lines that are
no values added to the file in between: every step succeeds, and reading yields, of the events that
the trail recorded since the moment, the last ones up to the limit, in order, each as it is in
memory, its objects in the order of their names. -/
theorem read_recorded {s : Session} {log : Path} (hlog : s.trail.log = some log)
    (hrun : IsUnpaired s.trail.runId) (hstarts : s.disk.StartsInDirectory log)
    (hvacant : s.disk.IsVacant log) {steps : List Step} (hsteps : ∀ step ∈ steps, step.IsReadable) :
    ∃ t recorded, Task.Runs (runAll steps) s () t
      ∧ t.trail.events = s.trail.events ++ recorded
      ∧ recorded.length = steps.countP Step.isRecording
      ∧ ∀ since limit, 1 ≤ limit →
        read t.disk log since limit = .ok ((entriesOf since recorded).drop
          ((entriesOf since recorded).length - limit.toNat)) := by
  obtain ⟨t, recorded, text, hruns, hlogged, hcount⟩ :=
    (Logged.refl hlog hstarts hvacant).exists_run hrun hsteps
  exact ⟨t, recorded, hruns, hlogged.events, hcount,
    fun since limit hlimit => hlogged.read_eq since hlimit⟩

end

/-! ## A log of three events -/

namespace Sample

def log : Path := ⟨.root, ["log", "audit.jsonl"]⟩

def start : Session where
  disk := (Disk.empty []).put ["log"] .directory
  clock := ⟨2024, 1, 2, 3, 4, 5, 678000, by decide, by decide⟩
  trail := .start (some log) "run-0123456789ab"
  catalog := .empty
  roots := none
  patience := none

/-- A list with a number of more than 64 bits, and a path. -/
def sizes : List (Text × Datum) :=
  [("sizes", .list [.json (.int (-36893488147419103232)), .json .null, .json (.bool true)]),
    ("file", .path ⟨.root, ["app", "a b"]⟩)]

/-- An object with its fields out of order. -/
def inside : List (Text × Datum) :=
  [("inside", .object [("z", .json (.str "é")), ("a", .list [])])]

/-- A blank line and one that breaks off. -/
def junk : Text :=
  " \t\r\n\x7b\"n\":\n"

def steps : List Step :=
  [.record "scan" true none sizes, .raw junk,
    .clock ⟨2024, 1, 2, 3, 4, 6, 0, by decide, by decide⟩,
    .warn "read" "UNREADABLE" "a \"b\"\\\n\x00\u2028\u007F😀" inside, .record "done" true none []]

theorem vacant : start.disk.IsVacant log :=
  ⟨["log"], "audit.jsonl", rfl, by decide +kernel⟩

theorem areReadable_sizes : AreReadable sizes := by
  have hsizes : Json.IsReadable (489 + 1)
      (.arr [.int (-36893488147419103232), .null, .bool true]) := by
    refine .arr ?_
    simp only [List.forall_mem_cons]
    exact ⟨.int (by decide +kernel), .null, .bool true, nofun⟩
  have hfile : Json.IsReadable 490 (.str "/app/a b") := .str (Json.isUnpaired_ofString _)
  simp only [AreReadable, sizes, List.forall_mem_cons]
  exact ⟨⟨Json.isUnpaired_ofString _, hsizes⟩, ⟨Json.isUnpaired_ofString _, hfile⟩, nofun⟩

theorem areReadable_inside : AreReadable inside := by
  have hinside : Json.IsReadable (489 + 1) (.obj [("z", .str "é"), ("a", .arr [])]) := by
    refine .obj ?_ ?_ <;> simp only [List.forall_mem_cons]
    · exact ⟨Json.isUnpaired_ofString _, Json.isUnpaired_ofString _, nofun⟩
    · exact ⟨.str (Json.isUnpaired_ofString _), .arr nofun, nofun⟩
  simp only [AreReadable, inside, List.forall_mem_cons]
  exact ⟨⟨Json.isUnpaired_ofString _, hinside⟩, nofun⟩

theorem arePassedOver_junk : ArePassedOver junk := by
  have hlines : Text.splitAt '\n' (Text.withUniformBreaks junk)
      = ([" \t", "\x7b\"n\":", ""] : List Text) := by decide
  refine ⟨.inr ⟨" \t\r\n\x7b\"n\":", rfl⟩, ?_⟩
  simp only [hlines, List.forall_mem_cons]
  exact ⟨.inl (by decide), .inr rfl, .inl nofun, nofun⟩

theorem isReadable_steps : ∀ step ∈ steps, step.IsReadable := by
  simp only [steps, List.forall_mem_cons]
  exact ⟨⟨Json.isUnpaired_ofString _, nofun, areReadable_sizes⟩,
    ⟨Text.isHalf_ofString _, arePassedOver_junk⟩, trivial,
    ⟨Json.isUnpaired_ofString _, Json.isUnpaired_ofString _, Json.isUnpaired_ofString _,
      areReadable_inside⟩,
    ⟨Json.isUnpaired_ofString _, nofun, nofun⟩, nofun⟩

end Sample

theorem read_recorded_sample :
    ∃ t recorded, Task.Runs (runAll Sample.steps) Sample.start () t
      ∧ t.trail.events = Sample.start.trail.events ++ recorded
      ∧ recorded.length = 3
      ∧ ∀ since limit, 1 ≤ limit →
        read t.disk Sample.log since limit = .ok ((entriesOf since recorded).drop
          ((entriesOf since recorded).length - limit.toNat)) :=
  read_recorded rfl (Json.isUnpaired_ofString _)
    (Disk.startsInDirectory_of_isAbsolute _ rfl) Sample.vacant Sample.isReadable_steps

namespace Sample

/-- The fields are read one after the other, and the second takes the place of the first. -/
theorem parse_repeated :
    Json.parse "\x7b\"n\":NaN,\"n\":0\x7d" = .ok (.obj [("n", .int 0)]) := by
  have hlast (fuel room : Nat) :
      Json.readFields (fuel + 2) room [("n", .real "NaN")] "\"n\":0\x7d"
        = .ok ([("n", .int 0)], []) := by
    rw [Json.readFields.eq_def]
    rfl
  have hname : Json.readString "n\":NaN,\"n\":0\x7d" = .ok ("n", ":NaN,\"n\":0\x7d") := rfl
  have hcolon : Json.skipBlanks ":NaN,\"n\":0\x7d" = .char ':' :: "NaN,\"n\":0\x7d" := rfl
  have hstart : Json.skipBlanks "NaN,\"n\":0\x7d" = "NaN,\"n\":0\x7d" := rfl
  have hvalue (fuel room : Nat) : Json.readValue (fuel + 1) room "NaN,\"n\":0\x7d"
      = .ok (.real "NaN", ",\"n\":0\x7d") := by
    rw [Json.readValue.eq_def]
    rfl
  have hcomma : Json.skipBlanks ",\"n\":0\x7d" = .char ',' :: "\"n\":0\x7d" := rfl
  have hnext : Json.skipBlanks "\"n\":0\x7d" = "\"n\":0\x7d" := rfl
  have hfields (fuel room : Nat) :
      Json.readFields (fuel + 3) room [] (.char '"' :: "n\":NaN,\"n\":0\x7d")
        = .ok ([("n", .int 0)], []) := by
    rw [Json.readFields, hname]
    simp only [hcolon, hstart, hvalue (fuel + 1), hcomma, hnext]
    exact hlast fuel room
  have hquote : Json.HasStart "\"n\":NaN,\"n\":0\x7d" :=
    ⟨.char '"', "n\":NaN,\"n\":0\x7d", rfl, by decide⟩
  have hobject (fuel room : Nat) :
      Json.readValue (fuel + 4) (room + 1) (.char '\x7b' :: "\"n\":NaN,\"n\":0\x7d")
        = .ok (.obj [("n", .int 0)], []) := by
    rw [Json.readValue_obj hquote]
    exact congrArg (Except.map _) (hfields fuel room)
  have hbrace : Json.skipBlanks "\x7b\"n\":NaN,\"n\":0\x7d"
      = .char '\x7b' :: "\"n\":NaN,\"n\":0\x7d" := rfl
  have hlength : ("\x7b\"n\":NaN,\"n\":0\x7d" : Text).length = 15 := rfl
  rw [Json.parse, hbrace, hlength, Json.maxDepth, hobject 28 991]
  rfl

theorem entries_repeated :
    entries none "\x7b\"n\":NaN,\"n\":0\x7d\n" = .ok [.obj [("n", .int 0)]] := by
  have hlines : Text.splitAt '\n' (Text.withUniformBreaks "\x7b\"n\":NaN,\"n\":0\x7d\n")
      = (["\x7b\"n\":NaN,\"n\":0\x7d", ""] : List Text) := by decide
  have htrim : Text.trim "\x7b\"n\":NaN,\"n\":0\x7d" = ("\x7b\"n\":NaN,\"n\":0\x7d" : Text) := by
    decide
  have hline :
      entryOfLine none "\x7b\"n\":NaN,\"n\":0\x7d" = .ok (some (.obj [("n", .int 0)])) := by
    rw [entryOfLine, htrim, parse_repeated]
  have hlast : entryOfLine none "" = .ok none :=
    entryOfLine_of_passedOver (.inl (List.forall_mem_nil _))
  rw [entries_eq, hlines, entriesOfLines, List.mapM_cons, hline, List.mapM_cons, hlast]
  rfl

end Sample

/-- Not every line that is no JSON is passed over: a number that is not finite is read, and where
the name has a later value nothing is left of it. -/
theorem reads_unrecorded_line :
    ∃ t, Task.Runs (runAll [.raw "\x7b\"n\":NaN,\"n\":0\x7d\n"]) Sample.start () t
      ∧ t.trail.events = []
      ∧ read t.disk Sample.log none 50 = .ok [.obj [("n", .int 0)]] := by
  obtain ⟨disk, happend, hread, -⟩ := Disk.exists_writeWith_of_vacant
    (Disk.startsInDirectory_of_isAbsolute Sample.start.disk rfl) Sample.vacant
    fun old => old.getD [] ++ Utf8.encode "\x7b\"n\":NaN,\"n\":0\x7d\n"
  refine ⟨{ Sample.start with disk := disk }, ?_, rfl, ?_⟩
  · exact runAll_cons.mpr
      ⟨_, Task.runs_get_bind.mpr (Task.runs_changeDisk.mpr ⟨disk, happend, rfl⟩),
      runAll_nil.mpr rfl⟩
  · exact read_of_entries hread (Text.isHalf_ofString _) Sample.entries_repeated
      (show (1 : Int) ≤ 50 by decide)

end Audit

end ResourcePruner
