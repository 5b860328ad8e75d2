import ResourcePruner.Proofs.Task.Finishes

/-!
# How a task fails

`Task.FailsAs` says of every failure with which a task can end from some state that it is a wanted
one, in the state that the task then leaves. A task of which no failure is wanted succeeds
(`Task.exists_runs_or_failure`). A rule for each way of putting tasks together reduces the statement
to their parts; what comes after a task is asked about only where the task can end. Recording data
that do not nest too deep fails only where nothing can be added to the log (`Task.fails_record`).
-/

namespace ResourcePruner

namespace Task

section

variable {ε σ α β : Type} {s s' : σ} {wanted other : ε → σ → Prop}

/-- If the computation fails, it does so with a wanted failure. -/
def FailsAs (wanted : ε → σ → Prop) (task : ExceptT ε (StateM σ) α) (s : σ) : Prop :=
  ∀ failure s', exec task s = (.error failure, s') → wanted failure s'

/-- A computation succeeds or fails. -/
theorem exists_runs_or_failure {task : ExceptT ε (StateM σ) α} (hfails : FailsAs wanted task s) :
    (∃ a s', Runs task s a s') ∨ ∃ failure s', exec task s = (.error failure, s')
      ∧ wanted failure s' := by
  cases hexec : exec task s with
  | mk result s' =>
      cases result with
      | ok a => exact .inl ⟨a, s', hexec⟩
      | error failure => exact .inr ⟨failure, s', rfl, hfails failure s' hexec⟩

namespace FailsAs

theorem pure (a : α) : FailsAs wanted (Pure.pure a : ExceptT ε (StateM σ) α) s := by
  intro failure s' hexec
  rw [exec_pure] at hexec
  cases hexec

theorem throw {failure : ε} (hfailure : wanted failure s) :
    FailsAs wanted (MonadExcept.throw failure : ExceptT ε (StateM σ) α) s := by
  intro other s' hexec
  rw [exec_throw] at hexec
  cases hexec
  exact hfailure

theorem imp {task : ExceptT ε (StateM σ) α} (htask : FailsAs wanted task s)
    (himp : ∀ failure s', wanted failure s' → other failure s') : FailsAs other task s :=
  fun failure s' hexec => himp failure s' (htask failure s' hexec)

theorem bind {task : ExceptT ε (StateM σ) α} {next : α → ExceptT ε (StateM σ) β}
    (htask : FailsAs wanted task s)
    (hnext : ∀ a s', Runs task s a s' → FailsAs wanted (next a) s') :
    FailsAs wanted (task >>= next) s := by
  intro failure s' hexec
  rw [exec_bind] at hexec
  cases hfirst : exec task s with
  | mk result t =>
      rw [hfirst] at hexec
      cases result with
      | ok a => exact hnext a t hfirst failure s' hexec
      | error failed =>
          cases hexec
          exact htask failure s' hfirst

theorem get_bind {next : σ → ExceptT ε (StateM σ) β} (hnext : FailsAs wanted (next s) s) :
    FailsAs wanted (get >>= next) s :=
  hnext

theorem modify_bind {f : σ → σ} {next : Unit → ExceptT ε (StateM σ) β}
    (hnext : FailsAs wanted (next ()) (f s)) : FailsAs wanted (modify f >>= next) s :=
  hnext

theorem ite {p : Prop} [Decidable p] {task next : ExceptT ε (StateM σ) α}
    (htask : p → FailsAs wanted task s) (hnext : ¬ p → FailsAs wanted next s) :
    FailsAs wanted (if p then task else next) s := by
  split
  · exact htask ‹p›
  · exact hnext ‹¬ p›

/-- A loop fails as its steps do, from the states that they keep to. -/
theorem foldlM {R : σ → σ → Prop} [IsRun R] {f : β → α → ExceptT ε (StateM σ) β} {list : List α}
    (hsteps : ∀ b, ∀ a ∈ list, Steps R (f b a))
    (hstep : ∀ b, ∀ a ∈ list, ∀ t, R s t → FailsAs wanted (f b a) t) (init : β) :
    FailsAs wanted (list.foldlM f init) s := by
  have hloop : ∀ t, R s t → FailsAs wanted (list.foldlM f init) t := by
    induction list generalizing init with
    | nil => exact fun t _ => .pure init
    | cons a rest ih =>
        intro t ht
        rw [List.foldlM_cons]
        refine (hstep init a List.mem_cons_self t ht).bind fun b u hruns => ?_
        refine ih (fun b a ha => hsteps b a (List.mem_cons_of_mem _ ha))
          (fun b a ha => hstep b a (List.mem_cons_of_mem _ ha)) b u ?_
        exact IsRun.trans ht ((hsteps init a List.mem_cons_self).runs hruns)
  exact hloop s (IsRun.refl s)

end FailsAs

end

/-! ## The operations of a session -/

variable {α β : Type} {s : Session} {wanted : Failure → Session → Prop}

namespace FailsAs

theorem disk_bind {next : Disk → Task β} (hnext : FailsAs wanted (next s.disk) s) :
    FailsAs wanted (Task.disk >>= next) s :=
  hnext

theorem changeDisk {f : Disk → Except Disk.Error Disk}
    (hf : ∀ error, f s.disk = .error error → wanted (.disk error) s) :
    FailsAs wanted (Task.changeDisk f) s := by
  intro failure s' hexec
  rw [exec_changeDisk] at hexec
  cases hdisk : f s.disk with
  | ok disk =>
      rw [hdisk] at hexec
      cases hexec
  | error error =>
      rw [hdisk] at hexec
      cases hexec
      exact hf error hdisk

theorem onDisk {action : Disk.Action α}
    (haction : FailsAs (fun error disk => wanted (.disk error) { s with disk }) action s.disk) :
    FailsAs wanted (Task.onDisk action) s := by
  intro failure s' hexec
  rw [exec_onDisk] at hexec
  cases hresult : exec action s.disk with
  | mk result disk =>
      rw [hresult] at hexec
      cases result with
      | ok a => cases hexec
      | error error =>
          cases hexec
          exact haction error disk hresult

theorem check {question : Disk → Except Disk.Error Bool}
    (hquestion : ∀ error, question s.disk = .error error → wanted (.disk error) s) :
    FailsAs wanted (Task.check question) s := by
  intro failure s' hexec
  rw [Task.check, exec_bind, exec_get] at hexec
  cases hanswer : question s.disk with
  | ok answer =>
      simp only [hanswer] at hexec
      cases hexec
  | error error =>
      simp only [hanswer] at hexec
      cases hexec
      exact hquestion error hanswer

theorem resolve {path : Path}
    (hresolve : ∀ fault, s.disk.resolve path = .error fault → wanted (.unresolved fault) s) :
    FailsAs wanted (Task.resolve path) s := by
  intro failure s' hexec
  rw [Task.resolve, exec_bind, exec_get] at hexec
  cases hresolved : s.disk.resolve path with
  | ok resolved =>
      simp only [hresolved] at hexec
      cases hexec
  | error fault =>
      simp only [hresolved] at hexec
      cases hexec
      exact hresolve fault hresolved

/-- An operation that the disk can only have refused does not end a task. -/
theorem refusable {result : Except Disk.Error α}
    (hrefusal : ∀ error, result = .error error → error.isRefusal = true) :
    FailsAs wanted (Task.refusable result) s := by
  cases result with
  | ok a => exact .pure _
  | error error =>
      rw [Task.refusable, if_pos (hrefusal error rfl)]
      exact .pure _

/-- Failures that are caught do not end a task. -/
theorem attempt {isCaught : Failure → Bool} {task : Task α}
    (htask : FailsAs (fun failure s' => isCaught failure = true ∨ wanted failure s') task s) :
    FailsAs wanted (Task.attempt isCaught task) s := by
  intro failure s' hexec
  rw [exec_attempt] at hexec
  cases hresult : exec task s with
  | mk result t =>
      rw [hresult] at hexec
      cases result with
      | ok a => cases hexec
      | error failed =>
          simp only at hexec
          split at hexec
          · cases hexec
          · cases hexec
            exact (htask failure s' hresult).resolve_left ‹_›

theorem discard {task : Task α} (htask : FailsAs wanted task s) :
    FailsAs wanted (Functor.discard task) s := by
  rw [discard_eq]
  exact htask.bind fun _ _ _ => .pure ()

end FailsAs

/-! ## Recording -/

/-- Nothing can be added to the log, whatever the failure is. -/
def Unrecorded (_failure : Failure) (s : Session) : Prop :=
  ¬ s.CanRecord

theorem fails_note {event : Event}
    (hevent : Json.nestWithin Event.maxDepth event.metadata = true) :
    FailsAs Unrecorded (note event) s := by
  by_cases hrecords : s.CanRecord
  · obtain ⟨disk, hlogs⟩ := exists_logsOn hrecords hevent
    intro failure t hexec
    rw [show exec (note event) s = (.ok (), _) from runs_note.mpr ⟨disk, hlogs, rfl⟩] at hexec
    cases hexec
  · refine FailsAs.modify_bind (FailsAs.get_bind ?_)
    simp only
    split
    · exact .pure ()
    · rw [addToLog, if_pos hevent]
      exact .changeDisk fun _ _ => hrecords

variable {data : List (Text × Datum)} (hdata : Datum.AreShallow data)

include hdata

theorem fails_record (action : Text) (ok : Bool) (code : Option Text) :
    FailsAs Unrecorded (record action ok code data) s := by
  refine .get_bind ?_
  dsimp only
  rw [if_pos (hdata.nestWithin s action ok code (by decide))]
  exact (fails_note (hdata.nestWithin s action ok code (Nat.le_refl _))).bind fun _ _ _ => .pure _

theorem fails_succeed (action : Text) : FailsAs Unrecorded (succeed action data) s :=
  (fails_record hdata _ _ _).discard

theorem fails_warn (action code message : Text) :
    FailsAs Unrecorded (warn action code message data) s := by
  have hnamed : Datum.AreShallow (("message", .text message) :: data) := by simpa using hdata
  exact FailsAs.modify_bind (fails_record hnamed _ _ _).discard

end Task

end ResourcePruner
