import ResourcePruner.Proofs.Task.Done

/-!
# Tasks that heed their caller

A caller who would stop a task later makes no difference to what the task does before: with patience
for all of its questions a task does what it does for a caller without bound, and with less it is
stopped (`Task.Heeds`). The rules here are those of `Task.Avoids`, one for each way of making a
task.
-/

namespace ResourcePruner

/-- The session of a caller who answers `n` times that the task may go on, and then stops it. -/
def Session.lasting (s : Session) (n : Nat) : Session :=
  { s with patience := some n }

@[simp] theorem Session.lasting_disk (s : Session) (n : Nat) : (s.lasting n).disk = s.disk := rfl

namespace Task

variable {α β : Type}

/-- A task asks its caller a number of times. One who goes on so often gets what one without bound
gets; any other one stops the task. -/
def Heeds (task : Task α) : Prop :=
  ∀ s, s.patience = none → (exec task s).2.patience = none ∧ ∃ calls, ∀ n,
    (calls ≤ n → exec task (s.lasting n) = ((exec task s).1, (exec task s).2.lasting (n - calls)))
      ∧ (n < calls → ∃ point, (exec task (s.lasting n)).1 = .error (.cancelled point))

/-- What comes after a task that succeeds is begun where that has ended. -/
theorem exec_bind_of_ok {task : Task α} {next : α → Task β} {s t : Session} {a : α}
    (hexec : exec task s = (.ok a, t)) : exec (task >>= next) s = exec (next a) t := by
  rw [exec_bind, hexec]

/-- What comes after a task that fails is not begun. -/
theorem exec_bind_of_error {task : Task α} {next : α → Task β} {s : Session} {failure : Failure}
    (hfails : (exec task s).1 = .error failure) :
    exec (task >>= next) s = (.error failure, (exec task s).2) := by
  rw [exec_bind]
  cases hexec : exec task s with
  | mk result t =>
      rw [hexec] at hfails
      cases hfails
      rfl

namespace Heeds

theorem patience_eq_none {task : Task α} (htask : Heeds task) {s s' : Session} {a : α}
    (hpatience : s.patience = none) (hruns : Runs task s a s') : s'.patience = none := by
  have hnone := (htask s hpatience).1
  rwa [show exec task s = (.ok a, s') from hruns] at hnone

/-- What succeeds for a caller with some patience does the same for one without bound. -/
theorem runs_of_lasting {task : Task α} (htask : Heeds task) {s s' : Session} {a : α} {n : Nat}
    (hpatience : s.patience = none) (hruns : Runs task (s.lasting n) a s') :
    ∃ t m, Runs task s a t ∧ s' = t.lasting m := by
  obtain ⟨-, calls, hcalls⟩ := htask s hpatience
  have hexec : exec task (s.lasting n) = (.ok a, s') := hruns
  rcases Nat.lt_or_ge n calls with hn | hn
  · obtain ⟨point, hstopped⟩ := (hcalls n).2 hn
    rw [hexec] at hstopped
    cases hstopped
  · rw [(hcalls n).1 hn] at hexec
    obtain ⟨hresult, rfl⟩ := Prod.ext_iff.mp hexec
    exact ⟨(exec task s).2, n - calls, Prod.ext hresult rfl, rfl⟩

/-- What succeeds for a caller without bound does the same for one with some patience, or is
stopped. -/
theorem runs_lasting {task : Task α} (htask : Heeds task) {s t : Session} {a : α}
    (hpatience : s.patience = none) (hruns : Runs task s a t) (n : Nat) :
    (∃ point, (exec task (s.lasting n)).1 = .error (.cancelled point))
      ∨ ∃ m, Runs task (s.lasting n) a (t.lasting m) := by
  obtain ⟨-, calls, hcalls⟩ := htask s hpatience
  have hexec : exec task s = (.ok a, t) := hruns
  rcases Nat.lt_or_ge n calls with hn | hn
  · exact .inl ((hcalls n).2 hn)
  · refine .inr ⟨n - calls, ?_⟩
    rw [Runs, (hcalls n).1 hn, hexec]

/-- A task that asks nothing. -/
theorem of_silent {task : Task α} (hpatience : ∀ s, (exec task s).2.patience = s.patience)
    (hsame : ∀ s n, exec task (s.lasting n) = ((exec task s).1, (exec task s).2.lasting n)) :
    Heeds task :=
  fun s hs => ⟨(hpatience s).trans hs, 0, fun n => ⟨fun _ => hsame s n, nofun⟩⟩

theorem pure (a : α) : Heeds (Pure.pure a : Task α) := .of_silent (fun _ => rfl) fun _ _ => rfl

theorem throw (failure : Failure) : Heeds (MonadExcept.throw failure : Task α) :=
  .of_silent (fun _ => rfl) fun _ _ => rfl

theorem modify {f : Session → Session} (hpatience : ∀ s, (f s).patience = s.patience)
    (hsame : ∀ s n, f (s.lasting n) = (f s).lasting n) : Heeds (modify f : Task Unit) :=
  .of_silent hpatience fun s n => by rw [exec_modify, exec_modify, hsame]

/-- What is made of the session takes no notice of the caller's patience. -/
theorem get_bind {next : Session → Task β} (hsame : ∀ s n, next (s.lasting n) = next s)
    (hnext : ∀ s, Heeds (next s)) : Heeds (MonadState.get >>= next) := by
  intro s hs
  obtain ⟨hnone, calls, hcalls⟩ := hnext s s hs
  refine ⟨hnone, calls, fun n => ?_⟩
  have hget : exec (MonadState.get >>= next) (s.lasting n) = exec (next s) (s.lasting n) := by
    rw [exec_bind, exec_get, ← hsame s n]
  rw [hget]
  exact hcalls n

theorem bind {task : Task α} {next : α → Task β} (htask : Heeds task)
    (hnext : ∀ a, Heeds (next a)) :
    Heeds (task >>= next) := by
  intro s hs
  obtain ⟨hnone, calls, hcalls⟩ := htask s hs
  have hstops : ∀ n < calls, ∃ point,
      (exec (task >>= next) (s.lasting n)).1 = .error (.cancelled point) :=
    fun n hn => ((hcalls n).2 hn).imp fun point hpoint => by rw [exec_bind_of_error hpoint]
  rw [exec_bind]
  cases hexec : exec task s with
  | mk result t =>
      have hlasting : ∀ n, calls ≤ n →
          exec task (s.lasting n) = (result, t.lasting (n - calls)) := by
        intro n hn
        rw [(hcalls n).1 hn, hexec]
      rw [hexec] at hnone
      cases result with
      | error failure =>
          refine ⟨hnone, calls, fun n => ⟨fun hn => ?_, hstops n⟩⟩
          rw [exec_bind, hlasting n hn]
      | ok a =>
          have hfirst : ∀ n, calls ≤ n →
              exec (task >>= next) (s.lasting n) = exec (next a) (t.lasting (n - calls)) :=
            fun n hn => exec_bind_of_ok (hlasting n hn)
          obtain ⟨hafter, more, hmore⟩ := hnext a t hnone
          refine ⟨hafter, calls + more, fun n => ⟨fun hn => ?_, fun hn => ?_⟩⟩
          · rw [hfirst n (by omega), (hmore (n - calls)).1 (by omega), Nat.sub_sub]
          · by_cases hcall : calls ≤ n
            · rw [hfirst n hcall]
              exact (hmore (n - calls)).2 (by omega)
            · exact hstops n (by omega)

theorem ite {p : Prop} [Decidable p] {task other : Task α} (htask : p → Heeds task)
    (hother : ¬ p → Heeds other) : Heeds (if p then task else other) := by
  split
  · exact htask ‹p›
  · exact hother ‹¬ p›

theorem foldlM {f : β → α → Task β} {list : List α} (hf : ∀ b, ∀ a ∈ list, Heeds (f b a))
    (init : β) : Heeds (list.foldlM f init) := by
  induction list generalizing init with
  | nil => exact pure init
  | cons a rest ih =>
      rw [List.foldlM_cons]
      exact (hf init a List.mem_cons_self).bind fun b =>
        ih (fun b a ha => hf b a (List.mem_cons_of_mem _ ha)) b

theorem filterM {test : α → Task Bool} (htest : ∀ a, Heeds (test a)) (list : List α) :
    Heeds (list.filterM test) := by
  have haux : ∀ (list found : List α), Heeds (list.filterAuxM test found) := by
    intro list
    induction list with
    | nil => exact fun found => pure found
    | cons a rest ih => exact fun found => (htest a).bind fun _ => ih _
  exact (haux list []).bind fun _ => pure _

theorem discard {task : Task α} (htask : Heeds task) : Heeds (Functor.discard task) := by
  rw [discard_eq]
  exact htask.bind fun _ => pure ()

/-- No caller's stop is caught. -/
theorem attempt {isCaught : Failure → Bool} (hcaught : ∀ point, isCaught (.cancelled point) = false)
    {task : Task α} (htask : Heeds task) : Heeds (Task.attempt isCaught task) := by
  intro s hs
  obtain ⟨hnone, calls, hcalls⟩ := htask s hs
  have hafter : ∀ s, (exec (Task.attempt isCaught task) s).2 = (exec task s).2 := by
    intro s
    rw [exec_attempt]
    split
    · rename_i hexec
      rw [hexec]
    · rename_i hexec
      rw [hexec]
      split <;> rfl
  refine ⟨by rw [hafter]; exact hnone, calls, fun n => ⟨fun hn => ?_, fun hn => ?_⟩⟩
  · refine Prod.ext ?_ ?_
    · rw [exec_attempt, exec_attempt, (hcalls n).1 hn]
      cases (exec task s) with
      | mk result t =>
          cases result with
          | ok a => rfl
          | error failure => simp only; split <;> rfl
    · rw [hafter, (hcalls n).1 hn, hafter]
  · obtain ⟨point, hpoint⟩ := (hcalls n).2 hn
    refine ⟨point, ?_⟩
    rw [exec_attempt]
    cases hshort : exec task (s.lasting n) with
    | mk outcome u =>
        rw [hshort] at hpoint
        cases hpoint
        simp [hcaught]

/-! ## The operations of a session -/

theorem disk : Heeds Task.disk := .of_silent (fun _ => rfl) fun _ _ => rfl

theorem changeDisk (f : Disk → Except Disk.Error Disk) : Heeds (Task.changeDisk f) := by
  refine .of_silent (fun s => ?_) fun s n => ?_
  · rw [exec_changeDisk]
    split <;> rfl
  · rw [exec_changeDisk, exec_changeDisk, Session.lasting_disk]
    cases f s.disk <;> rfl

theorem onDisk (action : Disk.Action α) : Heeds (Task.onDisk action) := by
  refine .of_silent (fun s => ?_) fun s n => ?_
  · rw [exec_onDisk]
    split <;> rfl
  · rw [exec_onDisk, exec_onDisk, Session.lasting_disk]
    cases exec action s.disk with
    | mk result disk => cases result <;> rfl

theorem check (question : Disk → Except Disk.Error Bool) : Heeds (Task.check question) :=
  get_bind (fun _ _ => rfl) fun s => by
    split
    · exact pure _
    · exact throw _

theorem resolve (path : Path) : Heeds (Task.resolve path) :=
  get_bind (fun _ _ => rfl) fun s => by
    split
    · exact pure _
    · exact throw _

theorem refusable (result : Except Disk.Error α) : Heeds (Task.refusable result) := by
  unfold Task.refusable
  split
  · exact pure _
  · exact ite (fun _ => pure _) fun _ => throw _

theorem writeText (path : Path) (text : Text) : Heeds (Task.writeText path text) := by
  unfold Task.writeText
  split
  · exact changeDisk _
  · exact (changeDisk _).bind fun _ => throw _

theorem note (event : Event) : Heeds (Task.note event) := by
  refine bind (modify (fun _ => rfl) fun _ _ => rfl) fun _ => ?_
  refine get_bind (fun _ _ => rfl) fun s => ?_
  cases s.trail.log with
  | none => exact pure ()
  | some log =>
      exact ite (fun _ => changeDisk _) fun _ => (changeDisk _).bind fun _ => throw _

theorem record (action : Text) (ok : Bool) (errorCode : Option Text) (data : List (Text × Datum)) :
    Heeds (Task.record action ok errorCode data) := by
  refine get_bind (fun _ _ => rfl) fun s => ?_
  exact ite (fun _ => (note _).bind fun _ => pure _) fun _ => throw _

theorem succeed (action : Text) (data : List (Text × Datum)) : Heeds (Task.succeed action data) :=
  (record _ _ _ _).discard

theorem warn (action errorCode message : Text) (data : List (Text × Datum)) :
    Heeds (Task.warn action errorCode message data) := by
  refine bind (modify (fun _ => rfl) fun _ _ => rfl) fun _ => ?_
  exact (record _ _ _ _).discard

theorem poll (point : StopPoint) : Heeds (Task.poll point) := by
  intro s hs
  have hexec : exec (Task.poll point) s = (.ok (), s) := (runs_poll_iff hs).mpr rfl
  rw [hexec]
  refine ⟨hs, 1, fun n => ?_⟩
  cases n with
  | zero => exact ⟨nofun, fun _ => ⟨point, rfl⟩⟩
  | succ n => exact ⟨fun _ => rfl, fun hn => absurd hn (by omega)⟩

end Heeds

end Task

end ResourcePruner
