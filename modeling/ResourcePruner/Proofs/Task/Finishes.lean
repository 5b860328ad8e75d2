import ResourcePruner.Proofs.Disk.Written
import ResourcePruner.Proofs.Json.Sorting
import ResourcePruner.Proofs.Task

/-!
# Tasks that succeed

`Task.Finishes` says that a task succeeds, and what it promises of its result and of the session
that it leaves. A rule for each way of putting tasks together reduces it to their parts. Recording
data that do not nest too deep (`Datum.AreShallow`) succeeds in every session whose log can be added
to (`Session.CanRecord`), and leaves it one of these.
-/

namespace ResourcePruner

/-- Something can be added to the log, if there is one. -/
def Session.CanRecord (s : Session) : Prop :=
  ∀ log, s.trail.log = some log → ∃ more, s.disk.append log [] = .ok more

/-! ## Data that can be recorded -/

namespace Datum

/-- None of the data nests deeper than what is printed. -/
def AreShallow (data : List (Text × Datum)) : Prop :=
  ∀ field ∈ data, field.2.plain.depth ≤ Event.maxDepth

variable {name : Text} {datum : Datum} {data : List (Text × Datum)}

@[simp] theorem areShallow_nil : AreShallow [] := List.forall_mem_nil _

@[simp] theorem areShallow_cons :
    AreShallow ((name, datum) :: data) ↔ datum.plain.depth ≤ Event.maxDepth ∧ AreShallow data :=
  List.forall_mem_cons

@[simp] theorem depth_text (t : Text) : (text t).plain.depth = 0 := rfl

@[simp] theorem depth_nat (n : Nat) : (nat n).plain.depth = 0 := rfl

@[simp] theorem depth_int (n : Int) : (json (.int n)).plain.depth = 0 := rfl

@[simp] theorem depth_bool (b : Bool) : (json (.bool b)).plain.depth = 0 := rfl

@[simp] theorem depth_path (p : Path) : (path p).plain.depth = 0 := rfl

/-- A list of data that hold nothing is flat. -/
theorem depth_list_le {α : Type} {f : α → Datum} (hf : ∀ a, (f a).plain.depth = 0)
    (items : List α) :
    (list (items.map f)).plain.depth ≤ Event.maxDepth := by
  refine Nat.le_trans (Json.itemsDepth_le_iff.mpr ?_)
    (Nat.one_le_of_lt (by decide : 0 < Event.maxDepth))
  induction items with
  | nil => exact List.forall_mem_nil _
  | cons a rest ih => exact List.forall_mem_cons.mpr ⟨Nat.succ_le_of_lt (by simp [hf]), ih⟩

/-- So is an object of such data. -/
theorem depth_object_le {α : Type} {name : α → Text} {f : α → Datum}
    (hf : ∀ a, (f a).plain.depth = 0) (fields : List α) :
    (object (fields.map fun a => (name a, f a))).plain.depth ≤ Event.maxDepth := by
  refine Nat.le_trans (Json.fieldsDepth_le_iff.mpr ?_)
    (Nat.one_le_of_lt (by decide : 0 < Event.maxDepth))
  induction fields with
  | nil => exact List.forall_mem_nil _
  | cons a rest ih => exact List.forall_mem_cons.mpr ⟨Nat.succ_le_of_lt (by simp [hf]), ih⟩

@[simp] theorem depth_texts_le {α : Type} (f : α → Text) (items : List α) :
    (list (items.map fun a => text (f a))).plain.depth ≤ Event.maxDepth :=
  depth_list_le (fun _ => rfl) items

@[simp] theorem depth_paths_le (items : List Path) : (paths items).plain.depth ≤ Event.maxDepth :=
  depth_list_le (fun _ => rfl) items

/-- Data that are printed are recorded as well. -/
theorem AreShallow.nestWithin (hdata : AreShallow data) (s : Session) (action : Text) (ok : Bool)
    (code : Option Text) {limit : Nat} (hlimit : Event.maxDepth ≤ limit) :
    Json.nestWithin limit (Audit.eventOf s action ok code data).metadata = true := by
  refine Json.nestWithin_iff.mpr fun field hfield => ?_
  obtain ⟨⟨name, datum⟩, hmem, rfl⟩ := List.mem_map.mp (Json.mem_of_mem_sortFields hfield)
  exact Nat.le_trans (hdata _ hmem) hlimit

end Datum

namespace Task

variable {α β : Type} {s s' : Session} {promised : α → Session → Prop} {after : β → Session → Prop}

/-- The task succeeds with a result and in a session that are as promised. -/
def Finishes (task : Task α) (s : Session) (promised : α → Session → Prop) : Prop :=
  ∃ a s', Runs task s a s' ∧ promised a s'

namespace Finishes

theorem pure {a : α} (ha : promised a s) : Finishes (Pure.pure a) s promised :=
  ⟨a, s, runs_pure.mpr ⟨rfl, rfl⟩, ha⟩

theorem imp {task : Task α} {other : α → Session → Prop} (htask : Finishes task s promised)
    (himp : ∀ a s', Runs task s a s' → promised a s' → other a s') : Finishes task s other := by
  obtain ⟨a, s', hruns, ha⟩ := htask
  exact ⟨a, s', hruns, himp a s' hruns ha⟩

theorem bind {task : Task α} {next : α → Task β} (htask : Finishes task s promised)
    (hnext : ∀ a s', Runs task s a s' → promised a s' → Finishes (next a) s' after) :
    Finishes (task >>= next) s after := by
  obtain ⟨a, t, hruns, ha⟩ := htask
  obtain ⟨b, s', hrest, hb⟩ := hnext a t hruns ha
  exact ⟨b, s', runs_bind.mpr ⟨a, t, hruns, hrest⟩, hb⟩

theorem get_bind {next : Session → Task β} (hnext : Finishes (next s) s after) :
    Finishes (get >>= next) s after := by
  obtain ⟨b, s', hrest, hb⟩ := hnext
  exact ⟨b, s', runs_get_bind.mpr hrest, hb⟩

theorem disk_bind {next : Disk → Task β} (hnext : Finishes (next s.disk) s after) :
    Finishes (Task.disk >>= next) s after := by
  obtain ⟨b, s', hrest, hb⟩ := hnext
  exact ⟨b, s', runs_disk_bind.mpr hrest, hb⟩

theorem modify_bind {f : Session → Session} {next : Unit → Task β}
    (hnext : Finishes (next ()) (f s) after) : Finishes (modify f >>= next) s after := by
  obtain ⟨b, s', hrest, hb⟩ := hnext
  exact ⟨b, s', runs_bind.mpr ⟨(), f s, runs_modify.mpr rfl, hrest⟩, hb⟩

theorem check_bind {question : Disk → Except Disk.Error Bool} {next : Bool → Task β} {answer : Bool}
    (hanswer : question s.disk = .ok answer) (hnext : Finishes (next answer) s after) :
    Finishes (check question >>= next) s after := by
  obtain ⟨b, s', hrest, hb⟩ := hnext
  exact ⟨b, s', runs_check_bind.mpr ⟨answer, hanswer, hrest⟩, hb⟩

theorem resolve_bind {path resolved : Path} {next : Path → Task β}
    (hresolve : s.disk.resolve path = .ok resolved) (hnext : Finishes (next resolved) s after) :
    Finishes (resolve path >>= next) s after := by
  obtain ⟨b, s', hrest, hb⟩ := hnext
  exact ⟨b, s', runs_resolve_bind.mpr ⟨resolved, hresolve, hrest⟩, hb⟩

/-- What the disk yields or refuses is what comes next; it must be a path that a disk can have. -/
theorem refusable_bind {result : Except Disk.Error α} {next : Except Disk.Error α → Task β}
    (hrefusal : ∀ error, result = .error error → error.isRefusal = true)
    (hnext : Finishes (next result) s after) : Finishes (refusable result >>= next) s after := by
  obtain ⟨b, s', hrest, hb⟩ := hnext
  refine ⟨b, s', runs_bind.mpr ⟨result, s, ?_, hrest⟩, hb⟩
  cases result with
  | ok a => exact runs_pure.mpr ⟨rfl, rfl⟩
  | error error =>
      rw [refusable, if_pos (hrefusal error rfl)]
      exact runs_pure.mpr ⟨rfl, rfl⟩

/-- A caller without bound is not in the way. -/
theorem poll_bind {point : StopPoint} {next : Unit → Task β} (hpatience : s.patience = none)
    (hnext : Finishes (next ()) s after) : Finishes (poll point >>= next) s after := by
  obtain ⟨b, s', hrest, hb⟩ := hnext
  exact ⟨b, s', runs_bind.mpr ⟨(), s, (runs_poll_iff hpatience).mpr rfl, hrest⟩, hb⟩

theorem discard {task : Task α} {after : Unit → Session → Prop} (htask : Finishes task s promised)
    (himp : ∀ a s', Runs task s a s' → promised a s' → after () s') :
    Finishes (Functor.discard task) s after := by
  obtain ⟨a, s', hruns, ha⟩ := htask
  exact ⟨(), s', runs_discard.mpr ⟨a, hruns⟩, himp a s' hruns ha⟩

/-- A loop each step of which succeeds as long as what it keeps holds. -/
theorem foldlM {f : β → α → Task β} {list : List α} {keeps : β → Session → Prop}
    (hstep : ∀ a ∈ list, ∀ b t, keeps b t → Finishes (f b a) t keeps) {init : β}
    (hinit : keeps init s) : Finishes (list.foldlM f init) s keeps := by
  induction list generalizing init s with
  | nil => exact .pure hinit
  | cons a rest ih =>
      rw [List.foldlM_cons]
      exact (hstep a List.mem_cons_self init s hinit).bind fun b t _ hb =>
        ih (fun a ha => hstep a (List.mem_cons_of_mem _ ha)) hb

end Finishes

/-! ## Recording -/

/-- What could be recorded can be recorded again. -/
instance : IsLogged (Preserves Session.CanRecord) where
  trail _ _ _ h := h
  append s log bytes disk hlog happend _ path hpath := by
    obtain rfl : path = log := Option.some.inj (hpath.symm.trans hlog)
    exact Disk.exists_append_again happend []

variable (hrecords : s.CanRecord) {data : List (Text × Datum)}

include hrecords

/-- An event that can be printed is added to the log, if there is one. -/
theorem exists_logsOn {event : Event}
    (hevent : Json.nestWithin Event.maxDepth event.metadata = true) :
    ∃ disk, s.LogsOn event disk := by
  cases hlog : s.trail.log with
  | none => exact ⟨s.disk, by rw [Session.LogsOn, hlog]⟩
  | some log =>
      obtain ⟨_, hmore⟩ := hrecords log hlog
      obtain ⟨more, happend⟩ := Disk.exists_append hmore (Utf8.encode event.line)
      refine ⟨more, ?_⟩
      rw [Session.LogsOn, hlog]
      exact ⟨hevent, happend⟩

theorem finishes_record (action : Text) (ok : Bool) (code : Option Text)
    (hdata : Datum.AreShallow data) :
    Finishes (record action ok code data) s fun _ s' => s'.CanRecord := by
  obtain ⟨disk, hlogs⟩ :=
    exists_logsOn hrecords (hdata.nestWithin s action ok code (Nat.le_refl _))
  have hruns := runs_record.mpr ⟨rfl, hdata.nestWithin s action ok code (by decide),
    runs_note.mpr ⟨disk, hlogs, rfl⟩⟩
  exact ⟨_, _, hruns,
    (steps_record (R := Preserves Session.CanRecord) action ok code data).runs hruns hrecords⟩

theorem finishes_warn (action code message : Text) (hdata : Datum.AreShallow data) :
    Finishes (warn action code message data) s fun _ s' => s'.CanRecord := by
  refine Finishes.modify_bind ?_
  have hwarned : Session.CanRecord
      { s with trail := { s.trail with warnings := s.trail.warnings ++ [message] } } := hrecords
  have hnamed : Datum.AreShallow (("message", .text message) :: data) := by simpa using hdata
  exact (finishes_record hwarned _ _ _ hnamed).discard fun _ _ _ h => h

omit hrecords

/-- What has been recorded can be recorded again. -/
theorem canRecord_of_note {event : Event} {u : Unit} (hruns : Runs (note event) s u s') :
    s'.CanRecord := by
  obtain ⟨more, hlogs, rfl⟩ := runs_note.mp hruns
  intro log hlog
  rw [Session.LogsOn, show s.trail.log = some log from hlog] at hlogs
  exact Disk.exists_append_again hlogs.2 []

theorem canRecord_of_warn {action code message : Text} {data : List (Text × Datum)} {u : Unit}
    (hruns : Runs (warn action code message data) s u s') : s'.CanRecord := by
  obtain ⟨_, t, -, hruns⟩ := runs_bind.mp hruns
  obtain ⟨_, hrecord⟩ := runs_discard.mp hruns
  exact canRecord_of_note (runs_record.mp hrecord).2.2

end Task

end ResourcePruner
