import ResourcePruner.Session

/-!
# Reasoning about tasks

Two ways of speaking about a task. `Task.Runs` says with what result and in which session a task
ends when it does not fail; a rule for each way of putting tasks together takes such a statement
apart. `Task.Steps` says that a task, whether it fails or not, takes every session only to sessions
that a relation allows; it holds of a task when it holds of its parts. Both are stated for any
state, so that they serve for computations on a disk as well.
-/

namespace ResourcePruner

namespace Task

variable {ε σ α β : Type}

/-- What a computation yields in a state, and the state after it. -/
def exec (task : ExceptT ε (StateM σ) α) (s : σ) : Except ε α × σ :=
  (task.run.run s).run

/-- The computation succeeds with that value and ends in the state `s'`. -/
def Runs (task : ExceptT ε (StateM σ) α) (s : σ) (a : α) (s' : σ) : Prop :=
  exec task s = (.ok a, s')

/-! ## Execution, piece by piece -/

theorem exec_pure (a : α) (s : σ) : exec (pure a : ExceptT ε (StateM σ) α) s = (.ok a, s) := rfl

theorem exec_throw (failure : ε) (s : σ) :
    exec (throw failure : ExceptT ε (StateM σ) α) s = (.error failure, s) := rfl

theorem exec_get (s : σ) : exec (get : ExceptT ε (StateM σ) σ) s = (.ok s, s) := rfl

theorem exec_modify (f : σ → σ) (s : σ) :
    exec (modify f : ExceptT ε (StateM σ) Unit) s = (.ok (), f s) := rfl

theorem exec_bind (task : ExceptT ε (StateM σ) α) (next : α → ExceptT ε (StateM σ) β) (s : σ) :
    exec (task >>= next) s =
      match exec task s with
      | (.ok a, s') => exec (next a) s'
      | (.error failure, s') => (.error failure, s') := by
  change (StateT.run (ExceptT.run (task >>= next)) s) = match StateT.run (ExceptT.run task) s with
      | (.ok a, s') => exec (next a) s'
      | (.error failure, s') => (.error failure, s')
  rw [ExceptT.run_bind, StateT.run_bind]
  cases (StateT.run (ExceptT.run task) s : Except ε α × σ) with
  | mk result s' => cases result <;> rfl

theorem exec_tryCatch (task : ExceptT ε (StateM σ) α) (handle : ε → ExceptT ε (StateM σ) α)
    (s : σ) :
    exec (tryCatch task handle : ExceptT ε (StateM σ) α) s =
      match exec task s with
      | (.ok a, s') => (.ok a, s')
      | (.error failure, s') => exec (handle failure) s' := by
  change (StateT.run (ExceptT.run (tryCatch task handle)) s)
    = match StateT.run (ExceptT.run task) s with
      | (.ok a, s') => (.ok a, s')
      | (.error failure, s') => exec (handle failure) s'
  rw [ExceptT.run_tryCatch, StateT.run_bind]
  cases (StateT.run (ExceptT.run task) s : Except ε α × σ) with
  | mk result s' => cases result <;> rfl

theorem exec_attempt (isCaught : Failure → Bool) (task : Task α) (s : Session) :
    exec (attempt isCaught task) s =
      match exec task s with
      | (.ok a, s') => (.ok (.ok a), s')
      | (.error failure, s') =>
        if isCaught failure then (.ok (.error failure), s') else (.error failure, s') := by
  rw [attempt, exec_tryCatch, exec_bind]
  cases exec task s with
  | mk result s' =>
      cases result with
      | ok a => rfl
      | error failure => simp only; split <;> rfl

theorem discard_eq (task : Task α) : discard task = task >>= fun _ => pure () := by
  rw [discard, LawfulFunctor.map_const, Function.comp_apply, map_eq_pure_bind]

/-! ## Tasks that succeed -/

theorem runs_pure {a b : α} {s s' : σ} :
    Runs (pure a : ExceptT ε (StateM σ) α) s b s' ↔ b = a ∧ s' = s := by
  rw [Runs, exec_pure, Prod.mk.injEq, Except.ok.injEq, eq_comm (a := a), eq_comm (a := s)]

theorem runs_throw {failure : ε} {a : α} {s s' : σ} :
    ¬ Runs (throw failure : ExceptT ε (StateM σ) α) s a s' := by
  rw [Runs, exec_throw]
  exact fun h => nomatch h

theorem runs_get {s t s' : σ} : Runs (get : ExceptT ε (StateM σ) σ) s t s' ↔ t = s ∧ s' = s := by
  rw [Runs, exec_get, Prod.mk.injEq, Except.ok.injEq, eq_comm (a := s), eq_comm (a := s)]

theorem runs_modify {f : σ → σ} {u : Unit} {s s' : σ} :
    Runs (modify f : ExceptT ε (StateM σ) Unit) s u s' ↔ s' = f s := by
  rw [Runs, exec_modify, Prod.mk.injEq, eq_comm (b := s')]
  exact and_iff_right rfl

theorem runs_bind {task : ExceptT ε (StateM σ) α} {next : α → ExceptT ε (StateM σ) β} {b : β}
    {s s' : σ} : Runs (task >>= next) s b s' ↔ ∃ a t, Runs task s a t ∧ Runs (next a) t b s' := by
  simp only [Runs, exec_bind]
  cases exec task s with
  | mk result t =>
      cases result with
      | ok a =>
          constructor
          · exact fun h => ⟨a, t, rfl, h⟩
          · rintro ⟨_, _, h, hnext⟩
            cases h
            exact hnext
      | error failure => simp

theorem runs_get_bind {next : σ → ExceptT ε (StateM σ) β} {b : β} {s s' : σ} :
    Runs (get >>= next) s b s' ↔ Runs (next s) s b s' := by
  rw [runs_bind]
  simp only [runs_get]
  constructor
  · rintro ⟨_, _, ⟨rfl, rfl⟩, h⟩
    exact h
  · exact fun h => ⟨s, s, ⟨rfl, rfl⟩, h⟩

theorem runs_foldlM_nil {f : β → α → ExceptT ε (StateM σ) β} {init b : β} {s s' : σ} :
    Runs (([] : List α).foldlM f init) s b s' ↔ b = init ∧ s' = s := by
  rw [List.foldlM_nil, runs_pure]

theorem runs_foldlM_cons {f : β → α → ExceptT ε (StateM σ) β} {init b : β} {a : α}
    {rest : List α} {s s' : σ} :
    Runs ((a :: rest).foldlM f init) s b s' ↔
      ∃ next t, Runs (f init a) s next t ∧ Runs (rest.foldlM f next) t b s' := by
  rw [List.foldlM_cons, runs_bind]

/-- What a computation that succeeds yields is found by running it. -/
theorem runs_of_exec {task : ExceptT ε (StateM σ) α} {s : σ} {e : Except ε α × σ}
    (hexec : exec task s = e) (default : α) (hok : e.1.toOption.isSome = true) :
    Runs task s (e.1.toOption.getD default) e.2 := by
  rw [Runs, hexec]
  obtain ⟨result, s'⟩ := e
  cases result with
  | ok a => rfl
  | error failure => cases hok

theorem runs_of_toOption {task : ExceptT ε (StateM σ) α} {s : σ} {e : Except ε α × σ}
    (hexec : exec task s = e) {a : α} (hok : e.1.toOption = some a) : Runs task s a e.2 := by
  rw [Runs, hexec]
  obtain ⟨result, s'⟩ := e
  cases result with
  | ok b =>
      cases hok
      rfl
  | error failure => cases hok

/-! ## The operations of a session -/

theorem runs_disk {disk : Disk} {s s' : Session} :
    Runs Task.disk s disk s' ↔ disk = s.disk ∧ s' = s := by
  rw [Task.disk, runs_bind]
  simp only [runs_get, runs_pure]
  constructor
  · rintro ⟨_, _, ⟨rfl, rfl⟩, rfl, rfl⟩
    exact ⟨rfl, rfl⟩
  · rintro ⟨rfl, rfl⟩
    exact ⟨_, _, ⟨rfl, rfl⟩, rfl, rfl⟩

theorem exec_changeDisk (f : Disk → Except Disk.Error Disk) (s : Session) :
    exec (changeDisk f) s =
      match f s.disk with
      | .ok disk => (.ok (), { s with disk })
      | .error error => (.error (.disk error), s) := by
  rw [changeDisk, exec_bind, exec_get]
  simp only
  cases f s.disk <;> rfl

theorem runs_changeDisk {f : Disk → Except Disk.Error Disk} {u : Unit} {s s' : Session} :
    Runs (changeDisk f) s u s' ↔
      ∃ disk, f s.disk = .ok disk ∧ s' = { s with disk := disk } := by
  rw [Runs, exec_changeDisk]
  cases f s.disk with
  | ok disk => simp [eq_comm]
  | error error => simp

theorem exec_check (question : Disk → Except Disk.Error Bool) (s : Session) :
    (exec (check question) s).2 = s := by
  rw [check, exec_bind, exec_get]
  simp only
  cases question s.disk <;> rfl

theorem runs_check {question : Disk → Except Disk.Error Bool} {answer : Bool} {s s' : Session} :
    Runs (check question) s answer s' ↔ question s.disk = .ok answer ∧ s' = s := by
  rw [check, runs_bind]
  simp only [runs_get]
  constructor
  · rintro ⟨_, _, ⟨rfl, rfl⟩, h⟩
    split at h
    · rename_i found hfound
      obtain ⟨rfl, rfl⟩ := runs_pure.mp h
      exact ⟨hfound, rfl⟩
    · exact absurd h runs_throw
  · rintro ⟨hanswer, rfl⟩
    refine ⟨s', s', ⟨rfl, rfl⟩, ?_⟩
    rw [hanswer]
    exact runs_pure.mpr ⟨rfl, rfl⟩

theorem runs_resolve {path resolved : Path} {s s' : Session} :
    Runs (resolve path) s resolved s' ↔ s.disk.resolve path = .ok resolved ∧ s' = s := by
  rw [resolve, runs_bind]
  simp only [runs_get]
  constructor
  · rintro ⟨_, _, ⟨rfl, rfl⟩, h⟩
    split at h
    · rename_i found hfound
      obtain ⟨rfl, rfl⟩ := runs_pure.mp h
      exact ⟨hfound, rfl⟩
    · exact absurd h runs_throw
  · rintro ⟨hresolved, rfl⟩
    refine ⟨s', s', ⟨rfl, rfl⟩, ?_⟩
    rw [hresolved]
    exact runs_pure.mpr ⟨rfl, rfl⟩

/-- An operation on the disk that it may refuse yields what it yields, and changes nothing. -/
theorem runs_refusable {result : Except Disk.Error α} {got : Except Disk.Error α}
    {s s' : Session} (hruns : Runs (refusable result) s got s') : got = result ∧ s' = s := by
  unfold refusable at hruns
  split at hruns
  · exact runs_pure.mp hruns
  · split at hruns
    · exact runs_pure.mp hruns
    · exact absurd hruns runs_throw

/-- An operation that the disk has refused was given a path that a disk can have. -/
theorem isRefusal_of_runs_refusable {result got : Except Disk.Error α} {s s' : Session}
    (hruns : Runs (refusable result) s got s') {error : Disk.Error}
    (herror : result = .error error) :
    error.isRefusal = true := by
  subst herror
  rw [refusable] at hruns
  split at hruns
  · assumption
  · exact absurd hruns runs_throw

theorem runs_disk_bind {next : Disk → Task β} {b : β} {s s' : Session} :
    Runs (Task.disk >>= next) s b s' ↔ Runs (next s.disk) s b s' := by
  rw [runs_bind]
  simp only [runs_disk]
  constructor
  · rintro ⟨_, _, ⟨rfl, rfl⟩, h⟩
    exact h
  · exact fun h => ⟨_, _, ⟨rfl, rfl⟩, h⟩

theorem runs_refusable_bind {result : Except Disk.Error α} {next : Except Disk.Error α → Task β}
    {b : β} {s s' : Session} (hruns : Runs (refusable result >>= next) s b s') :
    Runs (next result) s b s' := by
  obtain ⟨_, _, hresult, hnext⟩ := runs_bind.mp hruns
  obtain ⟨rfl, rfl⟩ := runs_refusable hresult
  exact hnext

theorem runs_check_bind {question : Disk → Except Disk.Error Bool} {next : Bool → Task β} {b : β}
    {s s' : Session} :
    Runs (check question >>= next) s b s' ↔
      ∃ answer, question s.disk = .ok answer ∧ Runs (next answer) s b s' := by
  rw [runs_bind]
  simp only [runs_check]
  constructor
  · rintro ⟨answer, _, ⟨hanswer, rfl⟩, h⟩
    exact ⟨answer, hanswer, h⟩
  · rintro ⟨answer, hanswer, h⟩
    exact ⟨answer, _, ⟨hanswer, rfl⟩, h⟩

theorem runs_resolve_bind {path : Path} {next : Path → Task β} {b : β} {s s' : Session} :
    Runs (resolve path >>= next) s b s' ↔
      ∃ resolved, s.disk.resolve path = .ok resolved ∧ Runs (next resolved) s b s' := by
  rw [runs_bind]
  simp only [runs_resolve]
  constructor
  · rintro ⟨resolved, _, ⟨hresolved, rfl⟩, h⟩
    exact ⟨resolved, hresolved, h⟩
  · rintro ⟨resolved, hresolved, h⟩
    exact ⟨resolved, _, ⟨hresolved, rfl⟩, h⟩

/-- A task whose failures are caught either succeeds or ends with a failure that is. -/
theorem runs_attempt {isCaught : Failure → Bool} {task : Task α} {result : Except Failure α}
    {s s' : Session} (hruns : Runs (attempt isCaught task) s result s') :
    exec task s = (result, s') := by
  rw [Runs, exec_attempt] at hruns
  cases hexec : exec task s with
  | mk outcome t =>
      rw [hexec] at hruns
      cases outcome with
      | ok a =>
          cases hruns
          rfl
      | error failure =>
          simp only at hruns
          split at hruns
          · cases hruns
            rfl
          · cases hruns

/-- A change of the disk that is refused leaves everything as it was. -/
theorem runs_attempt_changeDisk {isCaught : Failure → Bool} {f : Disk → Except Disk.Error Disk}
    {result : Except Failure Unit} {s s' : Session}
    (hruns : Runs (attempt isCaught (changeDisk f)) s result s') :
    (∃ error, f s.disk = .error error ∧ result = .error (.disk error) ∧ s' = s)
      ∨ ∃ disk, f s.disk = .ok disk ∧ result = .ok () ∧ s' = { s with disk } := by
  have hexec := runs_attempt hruns
  rw [exec_changeDisk] at hexec
  cases hdisk : f s.disk with
  | error error =>
      rw [hdisk] at hexec
      cases hexec
      exact .inl ⟨error, rfl, rfl, rfl⟩
  | ok disk =>
      rw [hdisk] at hexec
      cases hexec
      exact .inr ⟨disk, rfl, rfl, rfl⟩

theorem exec_onDisk (action : Disk.Action α) (s : Session) :
    exec (onDisk action) s =
      match exec action s.disk with
      | (.ok a, disk) => (.ok a, { s with disk })
      | (.error error, disk) => (.error (.disk error), { s with disk }) := by
  rw [onDisk, exec_bind, exec_get]
  simp only [exec]
  cases (StateT.run (ExceptT.run action) s.disk : Except Disk.Error α × Disk) with
  | mk result disk => cases result <;> rfl

theorem runs_onDisk {action : Disk.Action α} {a : α} {s s' : Session} :
    Runs (onDisk action) s a s' ↔
      ∃ disk, Runs action s.disk a disk ∧ s' = { s with disk := disk } := by
  simp only [Runs, exec_onDisk]
  cases exec action s.disk with
  | mk result disk =>
      cases result with
      | ok b =>
          constructor
          · intro h
            cases h
            exact ⟨disk, rfl, rfl⟩
          · rintro ⟨_, h, rfl⟩
            cases h
            rfl
      | error error => simp

theorem runs_discard {task : Task α} {u : Unit} {s s' : Session} :
    Runs (discard task) s u s' ↔ ∃ a, Runs task s a s' := by
  rw [discard_eq, runs_bind]
  constructor
  · rintro ⟨a, _, h, hpure⟩
    rw [(runs_pure.mp hpure).2]
    exact ⟨a, h⟩
  · rintro ⟨a, h⟩
    exact ⟨a, s', h, runs_pure.mpr ⟨rfl, rfl⟩⟩

/-- Asking whether to go on changes nothing but how often the caller says so. -/
theorem runs_poll {point : StopPoint} {u : Unit} {s s' : Session}
    (hruns : Runs (poll point) s u s') : ∃ patience, s' = { s with patience } := by
  have hruns := runs_get_bind.mp hruns
  split at hruns
  · obtain ⟨-, rfl⟩ := runs_pure.mp hruns
    exact ⟨s'.patience, rfl⟩
  · exact absurd hruns runs_throw
  · exact ⟨_, runs_modify.mp hruns⟩

/-- A caller without bound always says so. -/
theorem runs_poll_iff {point : StopPoint} {u : Unit} {s s' : Session}
    (hpatience : s.patience = none) : Runs (poll point) s u s' ↔ s' = s := by
  rw [poll, runs_get_bind]
  simp only [hpatience]
  exact runs_pure.trans (and_iff_right rfl)

/-! ## Steps -/

/-- A relation between states that runs of any number of steps stay in. -/
class IsRun (R : σ → σ → Prop) : Prop where
  refl : ∀ s, R s s
  trans : ∀ {s t u}, R s t → R t u → R s u

/-- The computation takes every state only to those that the relation allows, even when it fails. -/
def Steps (R : σ → σ → Prop) (task : ExceptT ε (StateM σ) α) : Prop :=
  ∀ s, R s (exec task s).2

/-- What holds after a task, and after what comes next wherever the task can end, holds after
both. -/
theorem holds_of_bind {holds : σ → Prop} {task : ExceptT ε (StateM σ) α}
    {next : α → ExceptT ε (StateM σ) β} {s : σ} (htask : holds (exec task s).2)
    (hnext : ∀ a s', Runs task s a s' → holds (exec (next a) s').2) :
    holds (exec (task >>= next) s).2 := by
  rw [exec_bind]
  cases hexec : exec task s with
  | mk result t =>
      rw [hexec] at htask
      cases result with
      | ok a => exact hnext a t hexec
      | error failure => exact htask

theorem Steps.runs {R : σ → σ → Prop} {task : ExceptT ε (StateM σ) α} (hsteps : Steps R task)
    {s s' : σ} {a : α} (hruns : Runs task s a s') : R s s' := by
  have h := hsteps s
  rwa [show exec task s = (.ok a, s') from hruns] at h

namespace Steps

section

variable {R : σ → σ → Prop} [IsRun R]

theorem pure (a : α) : Steps R (Pure.pure a : ExceptT ε (StateM σ) α) := fun s => IsRun.refl s

theorem throw (failure : ε) : Steps R (MonadExcept.throw failure : ExceptT ε (StateM σ) α) :=
  fun s => IsRun.refl s

theorem get : Steps R (MonadState.get : ExceptT ε (StateM σ) σ) := fun s => IsRun.refl s

/-- What comes after a task is asked about only where the task can end. -/
theorem bind_runs {task : ExceptT ε (StateM σ) α} {next : α → ExceptT ε (StateM σ) β}
    (htask : Steps R task) (hnext : ∀ {s a s'}, Runs task s a s' → R s' (exec (next a) s').2) :
    Steps R (task >>= next) :=
  fun s => holds_of_bind (htask s) fun _ _ hruns => IsRun.trans (htask.runs hruns) (hnext hruns)

theorem bind {task : ExceptT ε (StateM σ) α} {next : α → ExceptT ε (StateM σ) β}
    (htask : Steps R task) (hnext : ∀ a, Steps R (next a)) : Steps R (task >>= next) :=
  bind_runs htask fun {_ a s'} _ => hnext a s'

omit [IsRun R] in
/-- A task that changes nothing comes first; the relation has to allow that only. -/
theorem bind_same (hrefl : ∀ s, R s s) {task : ExceptT ε (StateM σ) α}
    {next : α → ExceptT ε (StateM σ) β} (htask : ∀ s, (exec task s).2 = s)
    (hnext : ∀ a, Steps R (next a)) : Steps R (task >>= next) := by
  intro s
  have hsame := htask s
  rw [exec_bind]
  cases hexec : exec task s with
  | mk result t =>
      rw [hexec] at hsame
      obtain rfl : t = s := hsame
      cases result with
      | ok a => exact hnext a t
      | error failure => exact hrefl t

omit [IsRun R] in
theorem ite {p : Prop} [Decidable p] {task other : ExceptT ε (StateM σ) α}
    (htask : p → Steps R task) (hother : ¬ p → Steps R other) :
    Steps R (if p then task else other) := by
  split
  · exact htask ‹p›
  · exact hother ‹¬ p›

theorem foldlM {f : β → α → ExceptT ε (StateM σ) β} {list : List α}
    (hf : ∀ b, ∀ a ∈ list, Steps R (f b a)) (init : β) : Steps R (list.foldlM f init) := by
  induction list generalizing init with
  | nil => exact Steps.pure init
  | cons a rest ih =>
      rw [List.foldlM_cons]
      exact (hf init a List.mem_cons_self).bind
        (ih fun b a ha => hf b a (List.mem_cons_of_mem _ ha))

end

variable {R : Session → Session → Prop}

theorem attempt {isCaught : Failure → Bool} {task : Task α} (htask : Steps R task) :
    Steps R (Task.attempt isCaught task) := by
  intro s
  have h := htask s
  rw [exec_attempt]
  cases hexec : exec task s with
  | mk result t =>
      rw [hexec] at h
      cases result with
      | ok a => exact h
      | error failure =>
          simp only
          split <;> exact h

theorem discard [IsRun R] {task : Task α} (htask : Steps R task) :
    Steps R (Functor.discard task) := by
  rw [discard_eq]
  exact htask.bind fun _ => Steps.pure ()

end Steps

/-- Each step of a loop that succeeds has succeeded. -/
theorem exists_of_runs_foldlM {R : σ → σ → Prop} [IsRun R] {f : β → α → ExceptT ε (StateM σ) β}
    {list : List α} (hf : ∀ b, ∀ a ∈ list, Steps R (f b a)) {init b : β} {s s' : σ}
    (hruns : Runs (list.foldlM f init) s b s') {a : α} (ha : a ∈ list) :
    ∃ c t d t', R s t ∧ Runs (f c a) t d t' ∧ R t' s' := by
  induction list generalizing init s with
  | nil => cases ha
  | cons first rest ih =>
      obtain ⟨d, t, hfirst, hrest⟩ := runs_foldlM_cons.mp hruns
      have hst : R s t := (hf init first List.mem_cons_self).runs hfirst
      have hlater : ∀ b, ∀ a ∈ rest, Steps R (f b a) := fun b a ha =>
        hf b a (List.mem_cons_of_mem _ ha)
      rcases List.mem_cons.mp ha with rfl | ha
      · exact ⟨init, s, d, t, IsRun.refl s, hfirst, (Steps.foldlM hlater d).runs hrest⟩
      · obtain ⟨c, u, e, u', htu, hruns, hu⟩ := ih hlater hrest ha
        exact ⟨c, u, e, u', IsRun.trans hst htu, hruns, hu⟩

/-! ## What steps preserve -/

/-- What is true before is true afterwards. -/
def Preserves {σ : Type} (holds : σ → Prop) (s s' : σ) : Prop :=
  holds s → holds s'

instance {σ : Type} (holds : σ → Prop) : IsRun (Preserves holds) where
  refl _ := id
  trans hfirst hsecond h := hsecond (hfirst h)

/-- What a task preserves is there for what comes next; the whole is asked for less. -/
theorem Steps.preserves_bind {holds after : σ → Prop} {task : ExceptT ε (StateM σ) α}
    {next : α → ExceptT ε (StateM σ) β} (htask : Steps (Preserves holds) task)
    (hafter : ∀ s, holds s → after s) {s : σ} (hs : holds s)
    (hnext : ∀ a s', Runs task s a s' → holds s' → after (exec (next a) s').2) :
    after (exec (task >>= next) s).2 :=
  holds_of_bind (hafter _ (htask s hs)) fun a s' hruns => hnext a s' hruns (htask.runs hruns hs)

/-! ## The operations of a session, as steps -/

variable {R : Session → Session → Prop}

section

variable [IsRun R]

theorem steps_disk : Steps R Task.disk := fun s => IsRun.refl s

theorem steps_check (question : Disk → Except Disk.Error Bool) : Steps R (check question) := by
  intro s
  rw [exec_check]
  exact IsRun.refl s

theorem steps_resolve (path : Path) : Steps R (resolve path) :=
  Steps.get.bind fun s => by
    split
    · exact Steps.pure _
    · exact Steps.throw _

theorem steps_refusable (result : Except Disk.Error α) : Steps R (refusable result) := by
  unfold refusable
  split
  · exact Steps.pure _
  · exact Steps.ite (fun _ => Steps.pure _) fun _ => Steps.throw _

theorem steps_changeDisk {f : Disk → Except Disk.Error Disk}
    (hf : ∀ s disk, f s.disk = .ok disk → R s { s with disk := disk }) :
    Steps R (changeDisk f) := by
  intro s
  rw [exec_changeDisk]
  cases hdisk : f s.disk with
  | ok disk => exact hf s disk hdisk
  | error error => exact IsRun.refl s

omit [IsRun R] in
theorem steps_onDisk {action : Disk.Action α}
    (haction : ∀ s, R s { s with disk := (exec action s.disk).2 }) : Steps R (onDisk action) := by
  intro s
  have h := haction s
  rw [exec_onDisk]
  cases hexec : exec action s.disk with
  | mk result disk =>
      rw [hexec] at h
      cases result with
      | ok a => exact h
      | error error => exact h

end

/-- A relation that takes no notice of what is recorded: neither of the events and warnings of the
trail nor of what is added to the log. -/
class IsLogged (R : Session → Session → Prop) : Prop extends IsRun R where
  trail : ∀ (s : Session) (events : List Event) (warnings : List Text),
    R s { s with trail := { s.trail with events, warnings } }
  append : ∀ (s : Session) (log : Path) (bytes : Bytes) (disk : Disk), s.trail.log = some log →
    s.disk.append log bytes = .ok disk → R s { s with disk }

section

variable [IsLogged R]

theorem steps_note (event : Event) : Steps R (note event) := by
  refine Steps.bind (fun s => IsLogged.trail s _ s.trail.warnings) fun _ => ?_
  intro s
  rw [exec_bind, exec_get]
  simp only
  cases hlog : s.trail.log with
  | none => exact IsRun.refl s
  | some log =>
      have hadd : ∀ bytes, R s (exec (changeDisk (·.append log bytes)) s).2 := by
        intro bytes
        rw [exec_changeDisk]
        cases hdisk : s.disk.append log bytes with
        | ok disk => exact IsLogged.append s log bytes disk hlog hdisk
        | error error => exact IsRun.refl s
      simp only [addToLog]
      split
      · exact hadd _
      · refine holds_of_bind (hadd []) fun _ t hruns => ?_
        have hadded := hadd []
        rwa [show exec _ s = _ from hruns] at hadded

theorem steps_record (action : Text) (ok : Bool) (errorCode : Option Text)
    (data : List (Text × Datum)) : Steps R (record action ok errorCode data) :=
  Steps.get.bind fun _ =>
    .ite (fun _ => (steps_note _).bind fun _ => Steps.pure _) fun _ => Steps.throw _

theorem steps_succeed (action : Text) (data : List (Text × Datum)) :
    Steps R (succeed action data) :=
  Steps.discard (steps_record _ _ _ _)

theorem steps_warn (action errorCode message : Text) (data : List (Text × Datum)) :
    Steps R (warn action errorCode message data) :=
  Steps.bind (fun s => IsLogged.trail s s.trail.events _) fun _ =>
    Steps.discard (steps_record _ _ _ _)

end

end Task

/-! ## What is recorded -/

/-- On the disk, the event has been added to the log of the session, if there is one. -/
def Session.LogsOn (s : Session) (event : Event) (disk : Disk) : Prop :=
  match s.trail.log with
  | none => disk = s.disk
  | some log =>
    Json.nestWithin Event.maxDepth event.metadata = true
      ∧ Audit.append s.disk log event = .ok disk

namespace Task

variable {s s' : Session} {event : Event} {u : Unit}

theorem runs_note : Runs (note event) s u s' ↔ ∃ disk, s.LogsOn event disk
    ∧ s' = { s with
      disk := disk
      trail := { s.trail with events := s.trail.events ++ [event] } } := by
  refine runs_bind.trans ?_
  simp only [runs_modify]
  constructor
  · rintro ⟨_, _, rfl, hruns⟩
    have hruns := runs_get_bind.mp hruns
    cases hlog : s.trail.log with
    | none =>
        simp only [hlog] at hruns
        obtain ⟨-, rfl⟩ := runs_pure.mp hruns
        exact ⟨s.disk, by rw [Session.LogsOn, hlog], rfl⟩
    | some log =>
        simp only [hlog, addToLog] at hruns
        split at hruns
        · obtain ⟨disk, happend, rfl⟩ := runs_changeDisk.mp hruns
          refine ⟨disk, ?_, rfl⟩
          rw [Session.LogsOn, hlog]
          exact ⟨‹_›, happend⟩
        · obtain ⟨_, _, -, hthrow⟩ := runs_bind.mp hruns
          exact absurd hthrow runs_throw
  · rintro ⟨disk, hlogs, rfl⟩
    refine ⟨(), _, rfl, runs_get_bind.mpr ?_⟩
    cases hlog : s.trail.log with
    | none =>
        rw [Session.LogsOn, hlog] at hlogs
        simp only [hlogs]
        exact runs_pure.mpr ⟨rfl, rfl⟩
    | some log =>
        rw [Session.LogsOn, hlog] at hlogs
        simp only [addToLog, if_pos hlogs.1]
        exact runs_changeDisk.mpr ⟨disk, hlogs.2, rfl⟩

theorem runs_record {action : Text} {ok : Bool} {errorCode : Option Text}
    {data : List (Text × Datum)} :
    Runs (record action ok errorCode data) s event s' ↔
      event = Audit.eventOf s action ok errorCode data
        ∧ Json.nestWithin Datum.maxDepth event.metadata = true ∧ Runs (note event) s () s' := by
  refine runs_get_bind.trans ?_
  dsimp only
  split
  · refine runs_bind.trans ?_
    simp only [runs_pure]
    constructor
    · rintro ⟨_, _, hnote, rfl, rfl⟩
      exact ⟨rfl, ‹_›, hnote⟩
    · rintro ⟨rfl, -, hnote⟩
      exact ⟨(), s', hnote, rfl, rfl⟩
  · refine iff_of_false runs_throw ?_
    rintro ⟨rfl, hnest, -⟩
    exact ‹¬ _› hnest

/-- An event that is recorded is added to the log. -/
theorem exists_append_of_succeed {action : Text} {data : List (Text × Datum)} {log : Path}
    (hruns : Runs (succeed action data) s u s') (hlog : s.trail.log = some log) :
    s'.trail.log = some log ∧ ∃ event, Audit.append s.disk log event = .ok s'.disk := by
  obtain ⟨event, hrecord⟩ := runs_discard.mp hruns
  obtain ⟨disk, hlogs, rfl⟩ := runs_note.mp (runs_record.mp hrecord).2.2
  rw [Session.LogsOn, hlog] at hlogs
  exact ⟨hlog, event, hlogs.2⟩

end Task

end ResourcePruner
