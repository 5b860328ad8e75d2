import ResourcePruner.Proofs.Audit.Trail
import ResourcePruner.Proofs.Backup.Ownership
import ResourcePruner.Proofs.Disk.Shedding
import ResourcePruner.Proofs.Removal.Outcome

/-!
# What a pass tells of

All that a pass does to files and resources is told of in an event. A `Removal.Deed` is what one
event tells of; a history of deeds leads from one disk to another (`Removal.Follows`) if each of
them does to the disk what it says, and nothing else is done but to add to the log and to make
backups. Each part of a pass has such a history, which its events tell (`Removal.Tells`) and its
result sums up (`Removal.Enters`); histories of one part after another are put together.
-/

namespace ResourcePruner

open Disk (Retains Retaining)
open ResourcePruner.Task (Runs Steps IsRun)

/-! ## Adding to the log and making backups -/

instance : Task.IsLogged (Backup.OnDisks Retaining) where
  trail s _ _ := IsRun.refl (R := Retaining) s.disk
  append s log bytes disk _ happend hstarts := by
    have hwrite : s.disk.writeWith log (fun old => old.getD [] ++ bytes) = .ok disk :=
      happend
    exact .writeWith (hstarts log) hwrite

theorem Backup.Store.retains_archive (store : Store) (path : Path) :
    Steps (OnDisks Retaining) (store.archive path) :=
  steps_archive_of (fun upper _ _ _ _ hmake hstarts => .makeDirectory (hstarts upper) hmake)
    fun target _ _ _ _ _ hwrite hstarts => .writeWith (hstarts target) hwrite

namespace Removal

/-! ## Deeds and their histories -/

/-- What a pass tells of in one event. -/
inductive Deed where
  /-- A definition file stays, or what is declared in it. -/
  | spared (path : Path) (code message : Text)
  /-- A definition file has lost the lines that the pruning drops. -/
  | rewrote (path : Path) (pruning : Pruning)
  /-- A file has gone, and there is a backup of it. -/
  | deleted (path backup : Path)
  /-- A resource has gone from all of its files, or with them. -/
  | removed (r : Resource) (files : List Path)
  /-- A resource was not taken out of all of its files. -/
  | incomplete (r : Resource) (files : List Path)
  /-- A resource stays because one of its files does. -/
  | kept (r : Resource) (path : Path) (code : Text) (failure : Failure)

namespace Deed

/-- Why a resource is kept. -/
def keptMessage (r : Resource) (path : Path) (failure : Failure) : Text :=
  "Kept " ++ r.category.key ++ " '" ++ r.name ++ "': " ++ path.text ++ " could not be removed ("
    ++ failure.message ++ ")."

/-- The event that tells of a deed. -/
def event (s : Session) : Deed → Event
  | spared path code message =>
    Audit.eventOf s "rewrite" false (some code) [("message", .text message), ("path", .path path)]
  | rewrote path pruning =>
    Audit.eventOf s "rewrite" true none
      [("path", .path path), ("removed_lines", .nat pruning.droppedCount),
        ("removed", .list (pruning.removed.map fun r => .text r.label))]
  | deleted path backup =>
    Audit.eventOf s "delete_file" true none [("path", .path path), ("backup", .path backup)]
  | removed r files =>
      Audit.eventOf s "remove" true none (("paths", .paths files) :: resourceData r)
  | incomplete r files =>
    Audit.eventOf s "remove" false (some "REWRITE_INCOMPLETE")
      (("paths", .paths files) :: resourceData r)
  | kept r path code failure =>
    Audit.eventOf s "remove" false (some code)
      (("message", .text (keptMessage r path failure)) :: ("path", .path path) :: resourceData r)

/-- The warning that goes with a deed. -/
def warning? : Deed → Option Text
  | spared _ _ message => some message
  | kept r path _ failure => some (keptMessage r path failure)
  | rewrote .. | deleted .. | removed .. | incomplete .. => none

/-- The file that a deed has changed. -/
def rewritten? : Deed → Option Path
  | rewrote path _ => some path
  | spared .. | deleted .. | removed .. | incomplete .. | kept .. => none

/-- The file that has gone with a deed. -/
def gone? : Deed → Option Path
  | deleted path _ => some path
  | spared .. | rewrote .. | removed .. | incomplete .. | kept .. => none

/-- The resource that a deed enters as removed. -/
def removed? : Deed → Option Resource
  | removed r _ => some r
  | spared .. | rewrote .. | deleted .. | incomplete .. | kept .. => none

/-- The resource that a deed enters as failed. -/
def failed? : Deed → Option Resource
  | incomplete r _ => some r
  | kept r _ _ _ => some r
  | spared .. | rewrote .. | deleted .. | removed .. => none

/-- The resource that a deed settles, one way or the other. -/
def settled? (deed : Deed) : Option Resource :=
  deed.removed?.or deed.failed?

/-- A deed that spares the definition file at the path, or something in it. -/
def Spares (path : Path) (deed : Deed) : Prop :=
  ∃ code message, deed = spared path code message

theorem event_congr {s t : Session} (hclock : t.clock = s.clock)
    (hrun : t.trail.runId = s.trail.runId) :
    event t = event s := by
  funext deed
  cases deed <;> simp only [event, Audit.eventOf, hclock, hrun]

end Deed

/-- The deeds lead from the one disk to the other. Between them, events are added to the log and
backups are made, by which nothing goes. -/
inductive Follows (doomed : Path → Doomed) : Disk → List Deed → Disk → Prop where
  | done (disk : Disk) : Follows doomed disk [] disk
  | keeps {disk more last : Disk} {deeds : List Deed} :
    disk.Retains more → Follows doomed more deeds last → Follows doomed disk deeds last
  | tells {disk last : Disk} {deed : Deed} {deeds : List Deed} :
    deed.rewritten? = none → deed.gone? = none → Follows doomed disk deeds last →
    Follows doomed disk (deed :: deeds) last
  /-- What is written is what pruning leaves of the text that the file had before any warning. -/
  | rewrites {disk more written last : Disk} {path : Path} {bytes : Bytes} {text : Text}
    {warned deeds : List Deed} :
    disk.read path = .ok bytes → Utf8.decode? bytes = .ok text →
    (Pruning.ofLines (doomed path) (Text.linesWithEnds text)).unterminated = none →
    (Pruning.ofLines (doomed path) (Text.linesWithEnds text)).shouldWrite = true →
    (∀ deed ∈ warned, deed.Spares path) → disk.Retains more →
    more.write path (Utf8.encode (Pruning.ofLines (doomed path) (Text.linesWithEnds text)).text)
      = .ok written →
    Follows doomed written deeds last →
    Follows doomed disk
      (warned ++ .rewrote path (Pruning.ofLines (doomed path) (Text.linesWithEnds text)) :: deeds)
        last
  | unlinks {disk more last : Disk} {path backup : Path} {deeds : List Deed} :
    disk.unlink path = .ok more → Follows doomed more deeds last →
    Follows doomed disk (.deleted path backup :: deeds) last

namespace Follows

variable {doomed : Path → Doomed} {disk more last : Disk} {deeds rest : List Deed}

theorem append (hfirst : Follows doomed disk deeds more) (hrest : Follows doomed more rest last) :
    Follows doomed disk (deeds ++ rest) last := by
  induction hfirst with
  | done disk => exact hrest
  | keeps hretains _ ih => exact .keeps hretains (ih hrest)
  | tells hrewritten hgone _ ih => exact .tells hrewritten hgone (ih hrest)
  | rewrites hread hdecode hended hwritten hwarned hretains hwrite _ ih =>
      rw [List.append_assoc, List.cons_append]
      exact .rewrites hread hdecode hended hwritten hwarned hretains hwrite (ih hrest)
  | unlinks hunlink _ ih => exact .unlinks hunlink (ih hrest)

/-- Deeds that do nothing to the disk. -/
theorem of_retains (hdeeds : ∀ deed ∈ deeds, deed.rewritten? = none ∧ deed.gone? = none)
    (hretains : disk.Retains more) : Follows doomed disk deeds more := by
  induction deeds with
  | nil => exact .keeps hretains (.done more)
  | cons deed rest ih =>
      obtain ⟨⟨hrewritten, hgone⟩, hrest⟩ := List.forall_mem_cons.mp hdeeds
      exact .tells hrewritten hgone (ih hrest)

theorem startsInDirectory (hfollows : Follows doomed disk deeds more)
    (hstarts : ∀ path, disk.StartsInDirectory path) : ∀ path, more.StartsInDirectory path := by
  induction hfollows with
  | done disk => exact hstarts
  | keeps hretains _ ih => exact ih fun path => hretains.startsInDirectory (hstarts path)
  | tells _ _ _ ih => exact ih hstarts
  | @rewrites disk more written last path _ _ _ _ _ _ _ _ _ hretains hwrite _ ih =>
      have hmore : ∀ path, more.StartsInDirectory path := fun path =>
        hretains.startsInDirectory (hstarts path)
      have hwritten : more.Retains written := .writeWith (hmore path) hwrite
      exact ih fun path => hwritten.startsInDirectory (hmore path)
  | unlinks hunlink _ ih =>
      have hsheds : Disk.Sheds (fun _ => True) _ _ := .unlink hstarts hunlink fun _ _ => trivial
      exact ih fun path => hsheds.startsInDirectory (hstarts path)

end Follows

/-! ## Histories that are told -/

/-- The trail of the one session tells of the deeds that came after the other one. -/
structure IsTold (deeds : List Deed) (s s' : Session) : Prop where
  clock : s'.clock = s.clock
  catalog : s'.catalog = s.catalog
  trail : s'.trail = { s.trail with
    events := s.trail.events ++ deeds.map (Deed.event s)
    warnings := s.trail.warnings ++ deeds.filterMap Deed.warning? }

/-- The deeds are told of, and nothing goes from the disk. -/
structure Notes (deeds : List Deed) (s s' : Session) : Prop extends IsTold deeds s s' where
  retaining : Retaining s.disk s'.disk

/-- The deeds are told of, and they lead from the one disk to the other. -/
structure Tells (doomed : Path → Doomed) (deeds : List Deed) (s s' : Session) : Prop
    extends IsTold deeds s s' where
  follows : (∀ path, s.disk.StartsInDirectory path) → Follows doomed s.disk deeds s'.disk

section

variable {doomed : Path → Doomed} {s t s' : Session} {deeds rest : List Deed}

theorem IsTold.trans (hfirst : IsTold deeds s t) (hrest : IsTold rest t s') :
    IsTold (deeds ++ rest) s s' where
  clock := hrest.clock.trans hfirst.clock
  catalog := hrest.catalog.trans hfirst.catalog
  trail := by
    have hrun : t.trail.runId = s.trail.runId := by rw [hfirst.trail]
    rw [hrest.trail, Deed.event_congr hfirst.clock hrun, hfirst.trail, List.map_append,
      List.filterMap_append]
    simp only [List.append_assoc]

/-- What is done to the disk before it is told changes nothing of what is told. -/
theorem IsTold.of_disk {disk : Disk} (htold : IsTold deeds { s with disk } s') :
    IsTold deeds s s' where
  clock := htold.clock
  catalog := htold.catalog
  trail := by
    have hevent : Deed.event { s with disk } = Deed.event s := Deed.event_congr rfl rfl
    rw [← hevent]
    exact htold.trail

theorem Notes.trans (hfirst : Notes deeds s t) (hrest : Notes rest t s') :
    Notes (deeds ++ rest) s s' :=
  ⟨hfirst.toIsTold.trans hrest.toIsTold, IsRun.trans hfirst.retaining hrest.retaining⟩

theorem Tells.trans (hfirst : Tells doomed deeds s t) (hrest : Tells doomed rest t s') :
    Tells doomed (deeds ++ rest) s s' where
  toIsTold := hfirst.toIsTold.trans hrest.toIsTold
  follows hstarts := by
    have hfollows := hfirst.follows hstarts
    exact hfollows.append (hrest.follows (hfollows.startsInDirectory hstarts))

theorem Notes.tells (hnotes : Notes deeds s s')
    (hdeeds : ∀ deed ∈ deeds, deed.rewritten? = none ∧ deed.gone? = none) :
    Tells doomed deeds s s' :=
  ⟨hnotes.toIsTold, fun hstarts => .of_retains hdeeds (hnotes.retaining hstarts)⟩

instance : IsRun (Notes []) where
  refl s := ⟨⟨rfl, rfl, by simp⟩, IsRun.refl s.disk⟩
  trans := Notes.trans

theorem Tells.refl (doomed : Path → Doomed) (s : Session) : Tells doomed [] s s :=
  Notes.tells (IsRun.refl s) (List.forall_mem_nil _)

end

/-! ## Recording -/

section

variable {s s' : Session} {action code message : Text} {ok : Bool} {errorCode : Option Text}
  {data : List (Text × Datum)} {u : Unit}

theorem told_record {event : Event}
    (hruns : Runs (Task.record action ok errorCode data) s event s') :
    s'.clock = s.clock ∧ s'.catalog = s.catalog
      ∧ s'.trail = { s.trail with
          events := s.trail.events ++ [Audit.eventOf s action ok errorCode data] }
      ∧ Retaining s.disk s'.disk := by
  have hretaining : Retaining s.disk s'.disk :=
    (Task.steps_record (R := Backup.OnDisks Retaining) _ _ _ _).runs hruns
  obtain ⟨rfl, -, hnote⟩ := Task.runs_record.mp hruns
  obtain ⟨disk, -, rfl⟩ := Task.runs_note.mp hnote
  exact ⟨rfl, rfl, rfl, hretaining⟩

theorem notes_record (deed : Deed) {event : Event} (hwarning : deed.warning? = none)
    (hevent : deed.event s = Audit.eventOf s action ok errorCode data)
    (hruns : Runs (Task.record action ok errorCode data) s event s') : Notes [deed] s s' := by
  obtain ⟨hclock, hcatalog, htrail, hretaining⟩ := told_record hruns
  refine ⟨⟨hclock, hcatalog, ?_⟩, hretaining⟩
  rw [htrail, List.map_singleton, hevent]
  simp [hwarning]

theorem notes_succeed (deed : Deed) (hwarning : deed.warning? = none)
    (hevent : deed.event s = Audit.eventOf s action true none data)
    (hruns : Runs (Task.succeed action data) s u s') : Notes [deed] s s' := by
  obtain ⟨event, hrecord⟩ := Task.runs_discard.mp hruns
  exact notes_record deed hwarning hevent hrecord

theorem notes_warn (deed : Deed) (hwarning : deed.warning? = some message)
    (hevent : deed.event s
      = Audit.eventOf s action false (some code) (("message", .text message) :: data))
    (hruns : Runs (Task.warn action code message data) s u s') : Notes [deed] s s' := by
  obtain ⟨_, t, hmodify, hruns⟩ := Task.runs_bind.mp hruns
  obtain rfl := Task.runs_modify.mp hmodify
  obtain ⟨event, hrecord⟩ := Task.runs_discard.mp hruns
  obtain ⟨hclock, hcatalog, htrail, hretaining⟩ := told_record hrecord
  refine ⟨⟨hclock, hcatalog, ?_⟩, hretaining⟩
  rw [htrail, List.map_singleton, hevent]
  simp [hwarning, Audit.eventOf]

end

/-! ## Pruning -/

section

variable {s s' : Session} {path : Path} {pruning : Pruning} {result : Option (List Resource)}

theorem notes_rewritten {u : Unit} (hruns : Runs (noteRewritten path pruning) s u s') :
    Notes [.rewrote path pruning] s s' :=
  notes_succeed (.rewrote path pruning) rfl rfl hruns

/-- Warnings about the definition file are all that is told. -/
def OnlySpares (path : Path) (s s' : Session) : Prop :=
  ∃ warned, (∀ deed ∈ warned, deed.Spares path) ∧ Notes warned s s'

theorem onlySpares_warnDefinition {code message : Text} {u : Unit}
    (hruns : Runs (warnDefinition code message path) s u s') : OnlySpares path s s' :=
  ⟨[.spared path code message], by simp [Deed.Spares],
    notes_warn (.spared path code message) rfl rfl hruns⟩

instance (path : Path) : IsRun (OnlySpares path) where
  refl s := ⟨[], List.forall_mem_nil _, IsRun.refl s⟩
  trans := by
    rintro s t u ⟨first, hfirst, hst⟩ ⟨rest, hrest, htu⟩
    exact ⟨first ++ rest, List.forall_mem_append.mpr ⟨hfirst, hrest⟩, hst.trans htu⟩

/-- Pruning a file is told of in warnings, or it is rewritten and that is told. -/
theorem exists_tells_pruneFile {doomed : Path → Doomed}
    (hruns : Runs (pruneFile path (doomed path)) s result s') :
    ∃ deeds, Tells doomed deeds s s' ∧ deeds.filterMap Deed.settled? = []
      ∧ deeds.filterMap Deed.gone? = []
      ∧ deeds.filterMap Deed.rewritten? = (result.map fun _ => path).toList := by
  have hspares : ∀ {warned : List Deed}, (∀ deed ∈ warned, deed.Spares path) →
      warned.filterMap Deed.settled? = [] ∧ warned.filterMap Deed.gone? = []
        ∧ warned.filterMap Deed.rewritten? = [] := by
    intro warned hwarned
    simp only [List.filterMap_eq_nil_iff]
    refine ⟨fun deed hdeed => ?_, fun deed hdeed => ?_, fun deed hdeed => ?_⟩
    all_goals
      obtain ⟨code, message, rfl⟩ := hwarned deed hdeed
      rfl
  rcases runs_pruneFile_told (R := OnlySpares path) onlySpares_warnDefinition hruns with
    ⟨rfl, ⟨warned, hwarned, hnotes⟩, -⟩
    | ⟨bytes, text, t, disk, u, hread, hdecode, hended, hshould, rfl, ⟨warned, hwarned, hst⟩,
        hwrite, hnote⟩
  · obtain ⟨hsettled, hgone, hrewritten⟩ := hspares hwarned
    refine ⟨warned, hnotes.tells fun deed hdeed => ?_, hsettled, hgone, hrewritten⟩
    exact ⟨List.filterMap_eq_nil_iff.mp hrewritten deed hdeed,
      List.filterMap_eq_nil_iff.mp hgone deed hdeed⟩
  · obtain ⟨hsettled, hgone, hrewritten⟩ := hspares hwarned
    have hlast := notes_rewritten hnote
    refine ⟨warned ++ [.rewrote path (Pruning.ofLines (doomed path) (Text.linesWithEnds text))],
      ⟨hst.toIsTold.trans hlast.toIsTold.of_disk, fun hstarts => ?_⟩, ?_, ?_, ?_⟩
    · have hretains := hst.retaining hstarts
      have hmore : ∀ path, t.disk.StartsInDirectory path := fun path =>
        hretains.startsInDirectory (hstarts path)
      have hwritten : t.disk.Retains disk := .writeWith (hmore path) hwrite
      have hafter := hlast.retaining fun path => hwritten.startsInDirectory (hmore path)
      exact .rewrites hread hdecode hended hshould hwarned hretains hwrite (.keeps hafter (.done _))
    · rw [List.filterMap_append, hsettled]
      rfl
    · rw [List.filterMap_append, hgone]
      rfl
    · rw [List.filterMap_append, hrewritten]
      rfl

end

/-! ## Settling -/

/-- Nothing but the disk has changed. -/
def OnlyDisk (s s' : Session) : Prop :=
  s' = { s with disk := s'.disk }

instance : IsRun OnlyDisk where
  refl _ := rfl
  trans {s t u} hfirst hsecond := by
    rw [OnlyDisk, hsecond, hfirst]

/-- What the deeds say of the resources and of the files is entered. -/
structure Enters (removal : Removal) (deeds : List Deed) (next : Removal) : Prop where
  removed : next.removed = removal.removed ++ deeds.filterMap Deed.removed?
  failed : next.failed = removal.failed ++ deeds.filterMap Deed.failed?
  deletedFiles : next.deletedFiles = removal.deletedFiles ++ deeds.filterMap Deed.gone?
  prunedFiles : next.prunedFiles = removal.prunedFiles ++ deeds.filterMap Deed.rewritten?

theorem Enters.trans {removal middle next : Removal} {deeds rest : List Deed}
    (hfirst : Enters removal deeds middle) (hrest : Enters middle rest next) :
    Enters removal (deeds ++ rest) next where
  removed := by rw [hrest.removed, hfirst.removed, List.filterMap_append, List.append_assoc]
  failed := by rw [hrest.failed, hfirst.failed, List.filterMap_append, List.append_assoc]
  deletedFiles := by
    rw [hrest.deletedFiles, hfirst.deletedFiles, List.filterMap_append, List.append_assoc]
  prunedFiles := by
    rw [hrest.prunedFiles, hfirst.prunedFiles, List.filterMap_append, List.append_assoc]

/-- A part of a pass settles the resources one after another; it tells of what it does, and enters
it. -/
def Disposes (doomed : Path → Doomed) (resources : List Resource) (s s' : Session)
    (removal next : Removal) : Prop :=
  ∃ deeds, Tells doomed deeds s s' ∧ Enters removal deeds next
    ∧ deeds.filterMap Deed.settled? = resources

section

variable {doomed : Path → Doomed} {store : Backup.Store} {s t s' : Session}
  {removal middle next : Removal}
  {resources more : List Resource} {r : Resource}

theorem Disposes.refl (doomed : Path → Doomed) (s : Session) (removal : Removal) :
    Disposes doomed [] s s removal removal :=
  ⟨[], .refl doomed s, ⟨by simp, by simp, by simp, by simp⟩, rfl⟩

theorem Disposes.trans (hfirst : Disposes doomed resources s t removal middle)
    (hrest : Disposes doomed more t s' middle next) :
    Disposes doomed (resources ++ more) s s' removal next := by
  obtain ⟨deeds, htells, henters, hsettled⟩ := hfirst
  obtain ⟨rest, htells', henters', hsettled'⟩ := hrest
  exact ⟨deeds ++ rest, htells.trans htells', henters.trans henters',
    by rw [List.filterMap_append, hsettled, hsettled']⟩

/-- A single deed that does nothing to the disk. -/
theorem disposes_of_notes {deed : Deed} (hnotes : Notes [deed] s s')
    (henters : Enters removal [deed] next)
    (hrewritten : deed.rewritten? = none) (hgone : deed.gone? = none)
    (hsettled : deed.settled? = some r) :
    Disposes doomed [r] s s' removal next :=
  ⟨[deed], hnotes.tells (List.forall_mem_singleton.mpr ⟨hrewritten, hgone⟩),
    henters, by simp [hsettled]⟩

/-- What happens before, if it is not told. -/
theorem Disposes.after (hnotes : Notes [] s t)
    (hrest : Disposes doomed resources t s' removal next) :
    Disposes doomed resources s s' removal next := by
  obtain ⟨deeds, htells, henters, hsettled⟩ := hrest
  exact ⟨deeds, (hnotes.tells (List.forall_mem_nil _)).trans htells, henters, hsettled⟩

theorem disposes_settleInline {pruned : List (Path × List Resource)} {entry : Resource × Record}
    (hruns : Runs (settleInline pruned removal entry) s next s') :
    Disposes doomed [entry.1] s s' removal next := by
  unfold settleInline at hruns
  simp only at hruns
  split at hruns
  · obtain ⟨_, t, hnote, hpure⟩ := Task.runs_bind.mp hruns
    obtain ⟨rfl, rfl⟩ := Task.runs_pure.mp hpure
    have hnotes := notes_succeed (.removed entry.1 entry.2.files) rfl rfl hnote
    exact disposes_of_notes hnotes ⟨rfl, by simp [Deed.failed?], by simp [Deed.gone?],
      by simp [Deed.rewritten?]⟩ rfl rfl rfl
  · obtain ⟨_, t, hnote, hpure⟩ := Task.runs_bind.mp hruns
    obtain ⟨rfl, rfl⟩ := Task.runs_pure.mp hpure
    obtain ⟨event, hrecord⟩ := Task.runs_discard.mp hnote
    have hnotes := notes_record (.incomplete entry.1 entry.2.files) rfl rfl hrecord
    exact disposes_of_notes hnotes ⟨by simp [Deed.removed?], rfl, by simp [Deed.gone?],
      by simp [Deed.rewritten?]⟩ rfl rfl rfl

theorem disposes_failFile {path : Path} {code : Text} {failure : Failure}
    (hruns : Runs (failFile r path code failure removal) s next s') :
    Disposes doomed [r] s s' removal next := by
  obtain ⟨_, t, hwarn, hpure⟩ := Task.runs_bind.mp hruns
  obtain ⟨rfl, rfl⟩ := Task.runs_pure.mp hpure
  have hnotes := notes_warn (.kept r path code failure) rfl rfl hwarn
  exact disposes_of_notes hnotes ⟨by simp [Deed.removed?], rfl, by simp [Deed.gone?],
    by simp [Deed.rewritten?]⟩ rfl rfl rfl

theorem notes_archive (store : Backup.Store) (path : Path) :
    Steps (Notes []) (store.archive path) := by
  intro s
  have hsame : OnlyDisk s _ := Backup.steps_archive (fun _ _ => rfl) store path s
  exact ⟨⟨by rw [hsame], by rw [hsame], by rw [hsame]; simp⟩, store.retains_archive path s⟩

/-- A file that is deleted is told of once it has gone. -/
theorem disposes_deleted {path backup : Path} {disk : Disk} {archived : List Path}
    (hunlink : s.disk.unlink path = .ok disk)
    (hnotes : Notes [.deleted path backup] { s with disk } s') :
    Disposes doomed [] s s' removal
      { removal with archived, deletedFiles := removal.deletedFiles ++ [path] } := by
  refine ⟨[.deleted path backup], ⟨hnotes.toIsTold.of_disk, fun hstarts => .unlinks hunlink ?_⟩,
    ⟨by simp [Deed.removed?], by simp [Deed.failed?], rfl, by simp [Deed.rewritten?]⟩, rfl⟩
  have hsheds : s.disk.Sheds (fun _ => True) disk := .unlink hstarts hunlink fun _ _ => trivial
  exact .of_retains (List.forall_mem_nil _)
    (hnotes.retaining fun path => hsheds.startsInDirectory (hstarts path))

/-- The backups are entered without being told. -/
theorem Disposes.of_archived {archived : List Path}
    (hdisposes : Disposes doomed resources s s' { removal with archived } next) :
    Disposes doomed resources s s' removal next := by
  obtain ⟨deeds, htells, henters, hsettled⟩ := hdisposes
  exact ⟨deeds, htells,
    ⟨henters.removed, henters.failed, henters.deletedFiles, henters.prunedFiles⟩, hsettled⟩

theorem disposes_removeFiles {record : Record} {left : List Path}
    (hruns : Runs (removeFiles store r record left removal) s next s') :
    Disposes doomed [r] s s' removal next := by
  induction left generalizing removal s with
  | nil =>
      obtain ⟨_, t, hnote, hpure⟩ := Task.runs_bind.mp hruns
      obtain ⟨rfl, rfl⟩ := Task.runs_pure.mp hpure
      have hnotes := notes_succeed (.removed r record.files) rfl rfl hnote
      exact disposes_of_notes hnotes ⟨rfl, by simp [Deed.failed?], by simp [Deed.gone?],
        by simp [Deed.rewritten?]⟩ rfl rfl rfl
  | cons path rest ih =>
      obtain ⟨archived, t, harchive, hruns⟩ := Task.runs_bind.mp hruns
      have hst : Notes [] s t := (notes_archive store path).attempt.runs harchive
      refine .after hst ?_
      cases archived with
      | error failure => exact disposes_failFile hruns
      | ok backup =>
          obtain ⟨unlinked, u, hunlink, hrest⟩ := Task.runs_bind.mp hruns
          rcases Task.runs_attempt_changeDisk hunlink with
            ⟨error, -, rfl, rfl⟩ | ⟨disk, hdisk, rfl, rfl⟩
          · exact (disposes_failFile hrest).of_archived
          · obtain ⟨_, v, hnote, hrest⟩ := Task.runs_bind.mp hrest
            have hnotes := notes_succeed (.deleted path backup) rfl rfl hnote
            exact (disposes_deleted hdisk hnotes).trans (ih hrest)

/-- A loop disposes of all of its resources. -/
theorem disposes_foldlM {f : Removal → Resource × Record → Task Removal}
    (hf : ∀ {removal entry s next s'}, Runs (f removal entry) s next s' →
      Disposes doomed [entry.1] s s' removal next)
    {entries : List (Resource × Record)} (hruns : Runs (entries.foldlM f removal) s next s') :
    Disposes doomed (entries.map Prod.fst) s s' removal next := by
  induction entries generalizing removal s with
  | nil =>
      obtain ⟨rfl, rfl⟩ := Task.runs_foldlM_nil.mp hruns
      exact .refl doomed s' next
  | cons entry rest ih =>
      obtain ⟨middle, t, hfirst, hrest⟩ := Task.runs_foldlM_cons.mp hruns
      exact (hf hfirst).trans (ih hrest)

/-- The files that are rewritten are entered. -/
theorem exists_tells_pruneEach {entries : List (Resource × Record)} {files : List Path}
    {init found : List (Path × List Resource)}
    (hruns : Runs (files.foldlM (pruneNext entries) init) s found s') :
    ∃ deeds, Tells (doomedIn entries) deeds s s' ∧ deeds.filterMap Deed.settled? = []
      ∧ deeds.filterMap Deed.gone? = []
      ∧ found.map Prod.fst = init.map Prod.fst ++ deeds.filterMap Deed.rewritten? := by
  induction files generalizing init s with
  | nil =>
      obtain ⟨rfl, rfl⟩ := Task.runs_foldlM_nil.mp hruns
      exact ⟨[], .refl _ s', rfl, rfl, by simp⟩
  | cons file rest ih =>
      obtain ⟨next, t, hfirst, hrest⟩ := Task.runs_foldlM_cons.mp hruns
      obtain ⟨pruned, hprune, rfl⟩ := runs_pruneNext hfirst
      obtain ⟨deeds, htells, hsettled, hgone, hrewritten⟩ := exists_tells_pruneFile hprune
      obtain ⟨more, htells', hsettled', hgone', hfound⟩ := ih hrest
      refine ⟨deeds ++ more, htells.trans htells', ?_, ?_, ?_⟩
      · rw [List.filterMap_append, hsettled, hsettled', List.append_nil]
      · rw [List.filterMap_append, hgone, hgone', List.append_nil]
      · rw [hfound, List.filterMap_append, hrewritten]
        cases pruned <;> simp

/-- Pruning disposes of no resource. -/
theorem disposes_pruneFiles {entries : List (Resource × Record)}
    {pruned : List (Path × List Resource)}
    (hruns : Runs (pruneFiles entries) s pruned s') :
    Disposes (doomedIn entries) [] s s' nothing
    { nothing with prunedFiles := pruned.map Prod.fst } := by
  obtain ⟨deeds, htells, hsettled, hgone, hfound⟩ := exists_tells_pruneEach hruns
  have hnone : ∀ deed ∈ deeds, deed.removed? = none ∧ deed.failed? = none := fun deed hdeed =>
    Option.or_eq_none_iff.mp (List.filterMap_eq_nil_iff.mp hsettled deed hdeed)
  refine ⟨deeds, htells, ⟨?_, ?_, ?_, hfound⟩, hsettled⟩
  · rw [List.filterMap_eq_nil_iff.mpr fun deed hdeed => (hnone deed hdeed).1]
    rfl
  · rw [List.filterMap_eq_nil_iff.mpr fun deed hdeed => (hnone deed hdeed).2]
    rfl
  · rw [hgone]
    rfl

/-- **A pass tells of what it does.** It disposes of the unused resources, inline ones first, and
takes them out of the catalog. -/
theorem disposes_removeUnused (hruns : Runs (removeUnused store) s removal s') :
    ∃ t, Disposes (doomedBy s.catalog)
        ((s.catalog.unused.filter (·.1.category.isInline)).map Prod.fst
          ++ (s.catalog.unused.filter fun entry => !entry.1.category.isInline).map Prod.fst)
        s t nothing removal
      ∧ s' = { t with catalog :=
        (s.catalog.evictAll (s.catalog.unused.map Prod.fst)).resetUses } := by
  obtain ⟨pruned, settled, t, u, v, hprune, hsettle, hremove, rfl⟩ := runs_removeUnused hruns
  have hpruned := disposes_pruneFiles hprune
  have hinline : Disposes (doomedBy s.catalog) _ t u _ settled :=
    disposes_foldlM disposes_settleInline hsettle
  have hwhole : Disposes (doomedBy s.catalog) _ u v settled removal :=
    disposes_foldlM (f := removeNext store) disposes_removeFiles hremove
  have hall := (hpruned.trans hinline).trans hwhole
  obtain ⟨deeds, htells, -⟩ := id hall
  exact ⟨v, hall, by rw [htells.catalog]⟩

end

end Removal

end ResourcePruner
