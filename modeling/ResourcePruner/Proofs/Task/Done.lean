import ResourcePruner.Proofs.Task

/-!
# Tasks that are done

A task is done when it has succeeded or its caller has stopped it. `Task.Brings` says what holds
after a task that is done, and `Task.Keeps` that it is what held before; any other failure may leave
a task undone. Only a task that asks the caller can be stopped; of most others it is enough to say
that they are not (`Task.GoesOn`).
-/

namespace ResourcePruner

namespace Task

variable {α β : Type}

/-- The task has succeeded, or the caller has stopped it. -/
def IsDone (outcome : Except Failure α) : Prop :=
  ∀ failure, outcome = .error failure → ∃ point, failure = .cancelled point

theorem isDone_ok (a : α) : IsDone (.ok a) := nofun

/-- The task does not end with an unwanted failure. -/
def Avoids (unwanted : Failure → Prop) (task : Task α) : Prop :=
  ∀ s failure, (exec task s).1 = .error failure → ¬ unwanted failure

/-- The caller does not stop the task. -/
def GoesOn (task : Task α) : Prop :=
  Avoids (fun failure => ∃ point, failure = .cancelled point) task

/-- Begun where one thing holds, the task ends where another one does if it is done then. -/
def Brings (before after : Session → Prop) (task : Task α) : Prop :=
  ∀ s, before s → IsDone (exec task s).1 → after (exec task s).2

/-- What holds before the task holds afterwards if it is done then. -/
def Keeps (holds : Session → Prop) (task : Task α) : Prop :=
  Brings holds holds task

/-! ## Tasks that go on -/

/-- Failures that come neither of files nor of paths nor of texts nor of the log. -/
class IsRemote (unwanted : Failure → Prop) : Prop where
  disk : ∀ error, ¬ unwanted (.disk error)
  unresolved : ∀ fault, ¬ unwanted (.unresolved fault)
  unencodable : ∀ fault, ¬ unwanted (.unencodable fault)
  log : ∀ fault, ¬ unwanted (.log fault)

instance : IsRemote fun failure => ∃ point, failure = .cancelled point :=
  ⟨by simp, by simp, by simp, by simp⟩

instance {unwanted : Failure → Prop} [IsRemote unwanted] {other : Failure → Prop} :
    IsRemote fun failure => unwanted failure ∧ other failure :=
  ⟨fun error h => IsRemote.disk error h.1, fun fault h => IsRemote.unresolved fault h.1,
    fun fault h => IsRemote.unencodable fault h.1, fun fault h => IsRemote.log fault h.1⟩

/-- Remote failures by which no caller stops a task, either. -/
class IsForeign (unwanted : Failure → Prop) : Prop extends IsRemote unwanted where
  cancelled : ∀ point, ¬ unwanted (.cancelled point)

instance : IsForeign (· = Failure.endless) where
  disk := by simp
  unresolved := by simp
  unencodable := by simp
  log := by simp
  cancelled := by simp

namespace Avoids

variable {unwanted : Failure → Prop}

theorem pure (a : α) : Avoids unwanted (Pure.pure a : Task α) := fun _ _ => nofun

theorem throw {failure : Failure} (hfailure : ¬ unwanted failure) :
    Avoids unwanted (MonadExcept.throw failure : Task α) :=
  fun _ _ h => Except.error.inj h ▸ hfailure

theorem bind {task : Task α} {next : α → Task β} (htask : Avoids unwanted task)
    (hnext : ∀ a, Avoids unwanted (next a)) : Avoids unwanted (task >>= next) := by
  intro s failure
  rw [exec_bind]
  have hfirst := htask s
  cases hexec : exec task s with
  | mk result t =>
      rw [hexec] at hfirst
      cases result with
      | ok a => exact hnext a t failure
      | error failure' => exact fun h => hfirst failure (congrArg Except.error (Except.error.inj h))

theorem ite {p : Prop} [Decidable p] {task other : Task α} (htask : p → Avoids unwanted task)
    (hother : ¬ p → Avoids unwanted other) : Avoids unwanted (if p then task else other) := by
  split
  · exact htask ‹p›
  · exact hother ‹¬ p›

theorem foldlM {f : β → α → Task β} {list : List α} (hf : ∀ b, ∀ a ∈ list, Avoids unwanted (f b a))
    (init : β) : Avoids unwanted (list.foldlM f init) := by
  induction list generalizing init with
  | nil => exact pure init
  | cons a rest ih =>
      rw [List.foldlM_cons]
      exact (hf init a List.mem_cons_self).bind fun b =>
        ih (fun b a ha => hf b a (List.mem_cons_of_mem _ ha)) b

theorem filterM {test : α → Task Bool} (htest : ∀ a, Avoids unwanted (test a)) (list : List α) :
    Avoids unwanted (list.filterM test) := by
  have haux : ∀ (list found : List α), Avoids unwanted (list.filterAuxM test found) := by
    intro list
    induction list with
    | nil => exact fun found => pure found
    | cons a rest ih => exact fun found => (htest a).bind fun _ => ih _
  exact (haux list []).bind fun _ => pure _

theorem get : Avoids unwanted (MonadState.get : Task Session) := fun _ _ => nofun

theorem modify (f : Session → Session) : Avoids unwanted (modify f : Task Unit) := fun _ _ => nofun

theorem disk : Avoids unwanted Task.disk := fun _ _ => nofun

/-- A failure that is caught is none, and one that is not was there before. -/
theorem attempt {isCaught : Failure → Bool} {task : Task α}
    (htask : Avoids (fun failure => unwanted failure ∧ isCaught failure = false) task) :
    Avoids unwanted (Task.attempt isCaught task) := by
  intro s failure
  rw [exec_attempt]
  have hfirst := htask s
  cases hexec : exec task s with
  | mk result t =>
      rw [hexec] at hfirst
      cases result with
      | ok a => exact nofun
      | error failure' =>
          simp only
          split
          · exact nofun
          · rename_i hcaught
            rintro h hunwanted
            obtain rfl : failure' = failure := Except.error.inj h
            exact hfirst failure' rfl ⟨hunwanted, Bool.eq_false_iff.mpr hcaught⟩

theorem discard {task : Task α} (htask : Avoids unwanted task) :
    Avoids unwanted (Functor.discard task) := by
  rw [discard_eq]
  exact htask.bind fun _ => pure ()

variable [IsRemote unwanted]

theorem check (question : Disk → Except Disk.Error Bool) : Avoids unwanted (Task.check question) :=
  get.bind fun s => by
    split
    · exact pure _
    · exact throw (IsRemote.disk _)

theorem changeDisk (f : Disk → Except Disk.Error Disk) : Avoids unwanted (Task.changeDisk f) := by
  refine get.bind fun s => ?_
  split
  · exact modify _
  · exact throw (IsRemote.disk _)

theorem onDisk (action : Disk.Action α) : Avoids unwanted (Task.onDisk action) := by
  intro s failure
  rw [exec_onDisk]
  cases exec action s.disk with
  | mk result disk =>
      cases result with
      | ok a => exact nofun
      | error error => exact fun h => Except.error.inj h ▸ IsRemote.disk error

theorem refusable (result : Except Disk.Error α) : Avoids unwanted (Task.refusable result) := by
  unfold Task.refusable
  split
  · exact pure _
  · exact ite (fun _ => pure _) fun _ => throw (IsRemote.disk _)

theorem resolve (path : Path) : Avoids unwanted (Task.resolve path) := by
  refine get.bind fun s => ?_
  split
  · exact pure _
  · exact throw (IsRemote.unresolved _)

theorem writeText (path : Path) (text : Text) : Avoids unwanted (Task.writeText path text) := by
  unfold Task.writeText
  split
  · exact changeDisk _
  · exact (changeDisk _).bind fun _ => throw (IsRemote.unencodable _)

theorem note (event : Event) : Avoids unwanted (Task.note event) := by
  refine (modify _).bind fun _ => get.bind fun s => ?_
  cases s.trail.log with
  | none => exact pure ()
  | some log =>
      exact .ite (fun _ => changeDisk _) fun _ =>
        (changeDisk _).bind fun _ => throw (IsRemote.log _)

theorem record (action : Text) (ok : Bool) (errorCode : Option Text) (data : List (Text × Datum)) :
    Avoids unwanted (Task.record action ok errorCode data) :=
  get.bind fun _ =>
    .ite (fun _ => (note _).bind fun _ => pure _) fun _ => throw (IsRemote.log _)

theorem succeed (action : Text) (data : List (Text × Datum)) :
    Avoids unwanted (Task.succeed action data) :=
  (record _ _ _ _).discard

theorem warn (action errorCode message : Text) (data : List (Text × Datum)) :
    Avoids unwanted (Task.warn action errorCode message data) :=
  (modify _).bind fun _ => (record _ _ _ _).discard

end Avoids

/-! ## What a failure leaves -/

/-- Nothing has been done. -/
def Unchanged (s s' : Session) : Prop := s' = s

instance : IsRun Unchanged where
  refl _ := rfl
  trans hfirst hsecond := Eq.trans hsecond hfirst

/-- When the task ends with an unwanted failure, it has done only what the relation allows. -/
def Leaves (unwanted : Failure → Prop) (R : Session → Session → Prop) (task : Task α) : Prop :=
  ∀ s failure, (exec task s).1 = .error failure → unwanted failure → R s (exec task s).2

namespace Leaves

variable {unwanted : Failure → Prop} {R : Session → Session → Prop}

theorem of_avoids {task : Task α} (havoids : Avoids unwanted task) : Leaves unwanted R task :=
  fun s failure hfails hunwanted => absurd hunwanted (havoids s failure hfails)

theorem of_steps {task : Task α} (hsteps : Steps R task) : Leaves unwanted R task :=
  fun s _ _ _ => hsteps s

/-- What can end so comes after what does only what is allowed. -/
theorem bind_steps [IsRun R] {task : Task α} {next : α → Task β} (hsteps : Steps R task)
    (hnext : ∀ a, Leaves unwanted R (next a)) : Leaves unwanted R (task >>= next) := by
  intro s failure hfails hunwanted
  have hfirst := hsteps s
  rw [exec_bind] at hfails ⊢
  cases hexec : exec task s with
  | mk result t =>
      rw [hexec] at hfails hfirst
      cases result with
      | ok a => exact IsRun.trans hfirst (hnext a t failure hfails hunwanted)
      | error other => exact hfirst

/-- What comes after what can end so cannot. -/
theorem bind {task : Task α} {next : α → Task β} (htask : Leaves unwanted R task)
    (hnext : ∀ a, Avoids unwanted (next a)) : Leaves unwanted R (task >>= next) := by
  intro s failure hfails hunwanted
  have hfirst := htask s
  rw [exec_bind] at hfails ⊢
  cases hexec : exec task s with
  | mk result t =>
      rw [hexec] at hfails hfirst
      cases result with
      | ok a => exact absurd hunwanted (hnext a t failure hfails)
      | error other =>
          cases hfails
          exact hfirst failure rfl hunwanted

theorem ite {p : Prop} [Decidable p] {task other : Task α} (htask : p → Leaves unwanted R task)
    (hother : ¬ p → Leaves unwanted R other) : Leaves unwanted R (if p then task else other) := by
  split
  · exact htask ‹p›
  · exact hother ‹¬ p›

end Leaves

/-! ## What is kept -/

namespace Keeps

variable {holds : Session → Prop}

theorem of_steps {R : Session → Session → Prop} {task : Task α} (hsteps : Steps R task)
    (hholds : ∀ s s', R s s' → holds s → holds s') : Keeps holds task :=
  fun s hs _ => hholds s _ (hsteps s) hs

theorem pure (a : α) : Keeps holds (Pure.pure a : Task α) := fun _ hs _ => hs

/-- What comes after a task is asked about only where the task can end. -/
theorem bind_runs {after : Session → Prop} {task : Task α} {next : α → Task β}
    (htask : Keeps holds task) (hafter : ∀ s, holds s → after s)
    (hnext : ∀ {s a s'}, Runs task s a s' → holds s → holds s' → IsDone (exec (next a) s').1 →
      after (exec (next a) s').2) : Brings holds after (task >>= next) := by
  intro s hs
  have hfirst := htask s hs
  rw [exec_bind]
  cases hexec : exec task s with
  | mk result t =>
      rw [hexec] at hfirst
      cases result with
      | ok a => exact hnext hexec hs (hfirst (isDone_ok a))
      | error failure =>
          intro hdone
          exact hafter t (hfirst fun other hother =>
            hdone other (congrArg Except.error (Except.error.inj hother)))

theorem bind_brings {after : Session → Prop} {task : Task α} {next : α → Task β}
    (htask : Keeps holds task) (hafter : ∀ s, holds s → after s)
    (hnext : ∀ a, Brings holds after (next a)) : Brings holds after (task >>= next) :=
  htask.bind_runs hafter fun {_ a s'} _ _ hs' => hnext a s' hs'

theorem bind {task : Task α} {next : α → Task β} (htask : Keeps holds task)
    (hnext : ∀ a, Keeps holds (next a)) : Keeps holds (task >>= next) :=
  htask.bind_brings (fun _ => id) hnext

theorem foldlM {f : β → α → Task β} {list : List α} (hf : ∀ b, ∀ a ∈ list, Keeps holds (f b a))
    (init : β) : Keeps holds (list.foldlM f init) := by
  induction list generalizing init with
  | nil => exact pure init
  | cons a rest ih =>
      rw [List.foldlM_cons]
      exact (hf init a List.mem_cons_self).bind fun b =>
        ih (fun b a ha => hf b a (List.mem_cons_of_mem _ ha)) b

end Keeps

theorem Brings.bind {before after : Session → Prop} {task : Task α} {next : α → Task β}
    (htask : Brings before after task) (hnext : ∀ a, Keeps after (next a)) :
    Brings before after (task >>= next) := by
  intro s hs
  have hfirst := htask s hs
  rw [exec_bind]
  cases hexec : exec task s with
  | mk result t =>
      rw [hexec] at hfirst
      cases result with
      | ok a => exact hnext a t (hfirst (isDone_ok a))
      | error failure =>
          intro hdone
          exact hfirst fun other hother =>
            hdone other (congrArg Except.error (Except.error.inj hother))

/-- An unwanted failure of what comes after a task is none of the task. -/
theorem Avoids.runs_of_bind {unwanted : Failure → Prop} {task : Task α} {next : α → Task β}
    (havoids : Avoids unwanted task) {s : Session} {failure : Failure}
    (hfails : (exec (task >>= next) s).1 = .error failure) (hunwanted : unwanted failure) :
    ∃ a s', Runs task s a s' ∧ exec (task >>= next) s = exec (next a) s' := by
  have hfirst := havoids s failure
  rw [exec_bind] at hfails ⊢
  cases hexec : exec task s with
  | mk result t =>
      rw [hexec] at hfails hfirst
      cases result with
      | ok a => exact ⟨a, t, hexec, rfl⟩
      | error other =>
          cases hfails
          exact absurd hunwanted (hfirst rfl)

/-- An unwanted failure that comes of nothing after a task comes of the task. -/
theorem Avoids.fails_of_bind {unwanted : Failure → Prop} {task : Task α} {next : α → Task β}
    (havoids : ∀ a, Avoids unwanted (next a)) {s : Session} {failure : Failure}
    (hfails : (exec (task >>= next) s).1 = .error failure) (hunwanted : unwanted failure) :
    (exec task s).1 = .error failure := by
  rw [exec_bind] at hfails
  cases hexec : exec task s with
  | mk result t =>
      rw [hexec] at hfails
      cases result with
      | ok a => exact absurd hunwanted (havoids a t failure hfails)
      | error other =>
          cases hfails
          rfl

/-- A task after which the caller stops nothing was stopped itself. -/
theorem GoesOn.fails_of_bind {task : Task α} {next : α → Task β} (hnext : ∀ a, GoesOn (next a))
    {s : Session} {point : StopPoint}
    (hstops : (exec (task >>= next) s).1 = .error (.cancelled point)) :
    (exec task s).1 = .error (.cancelled point) :=
  Avoids.fails_of_bind hnext hstops ⟨point, rfl⟩

/-- What comes after a task that goes on is done only where that task has succeeded. -/
theorem GoesOn.runs_of_bind {task : Task α} {next : α → Task β} (hgoes : GoesOn task) {s : Session}
    (hdone : IsDone (exec (task >>= next) s).1) :
    ∃ a s', Runs task s a s' ∧ exec (task >>= next) s = exec (next a) s' := by
  have hfirst := hgoes s
  rw [exec_bind] at hdone ⊢
  cases hexec : exec task s with
  | mk result t =>
      rw [hexec] at hdone hfirst
      cases result with
      | ok a => exact ⟨a, t, hexec, rfl⟩
      | error failure =>
          exact absurd (hdone failure rfl) (hfirst failure rfl)

/-- Where a task goes on to what it ends in, what comes after it keeps that. -/
theorem GoesOn.holds_of_bind {holds : Session → Prop} {task : Task α} {next : α → Task β}
    (hgoes : GoesOn task) {s : Session} (htask : ∀ a s', Runs task s a s' → holds s')
    (hnext : ∀ a, Keeps holds (next a)) (hdone : IsDone (exec (task >>= next) s).1) :
    holds (exec (task >>= next) s).2 := by
  obtain ⟨a, t, hruns, hexec⟩ := hgoes.runs_of_bind hdone
  rw [hexec] at hdone ⊢
  exact hnext a t (htask a t hruns) hdone

end Task

end ResourcePruner
