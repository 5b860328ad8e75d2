import ResourcePruner.Proofs.Task

/-!
# One task after the model of another

`Task.Follows` compares two tasks in two sessions: wherever the one succeeds, so does the other,
with related results and in related sessions. A rule for each way of putting tasks together reduces
it to their parts. Tasks need not go step by step: what only the one or only the other does is left
aside as long as the sessions stay related. So it is for loops, too, over lists that agree but for
items of which neither takes notice (`Task.Paired`, `Task.Follows.foldlM_paired`).
-/

namespace ResourcePruner.Task

variable {α β γ δ : Type} {R : Session → Session → Prop} {s d : Session}

/-- Where the one task succeeds, the other does, with a related result and in a related session. -/
def Follows (R : Session → Session → Prop) (Q : α → β → Prop) (task : Task α) (other : Task β)
    (s d : Session) : Prop :=
  ∀ a s', Runs task s a s' → ∃ b d', Runs other d b d' ∧ Q a b ∧ R s' d'

/-- Results of two operations that the disk may refuse: it yields related values, or refuses both,
or neither could be asked for. -/
inductive Answers (Q : α → β → Prop) : Except Disk.Error α → Except Disk.Error β → Prop
  | ok {a : α} {b : β} (hab : Q a b) : Answers Q (.ok a) (.ok b)
  | error {error other : Disk.Error} (hsame : error.isRefusal = other.isRefusal) :
      Answers Q (.error error) (.error other)

theorem Answers.of_eq {result other : Except Disk.Error α} (heq : result = other) :
    Answers Eq result other := by
  subst heq
  cases result with
  | ok a => exact .ok rfl
  | error error => exact .error rfl

theorem Answers.map {Q : α → β → Prop} {P : γ → δ → Prop} {f : α → γ} {g : β → δ}
    {result : Except Disk.Error α} {other : Except Disk.Error β} (hanswers : Answers Q result other)
    (hmap : ∀ a b, result = .ok a → other = .ok b → Q a b → P (f a) (g b)) :
    Answers P (result.map f) (other.map g) := by
  cases hanswers with
  | ok hab => exact .ok (hmap _ _ rfl rfl hab)
  | error hsame => exact .error hsame

namespace Follows

variable {Q : α → β → Prop} {P : γ → δ → Prop} {task : Task α} {other : Task β}

theorem pure {a : α} {b : β} (hab : Q a b) (hsd : R s d) :
    Follows R Q (Pure.pure a) (Pure.pure b) s d := by
  rintro _ _ hruns
  obtain ⟨rfl, rfl⟩ := runs_pure.mp hruns
  exact ⟨b, d, runs_pure.mpr ⟨rfl, rfl⟩, hab, hsd⟩

theorem bind {next : α → Task γ} {other' : β → Task δ} (htask : Follows R Q task other s d)
    (hnext : ∀ a b s' d', Q a b → R s' d' → Follows R P (next a) (other' b) s' d') :
    Follows R P (task >>= next) (other >>= other') s d := by
  intro c s'' hruns
  obtain ⟨a, s', hfirst, hrest⟩ := runs_bind.mp hruns
  obtain ⟨b, d', hother, hab, hsd⟩ := htask a s' hfirst
  obtain ⟨e, d'', hother', hce, hsd'⟩ := hnext a b s' d' hab hsd c s'' hrest
  exact ⟨e, d'', runs_bind.mpr ⟨b, d', hother, hother'⟩, hce, hsd'⟩

/-- What only the first one does is left aside. -/
theorem bind_left {ε : Type} {first : Task ε} {next : ε → Task α}
    (hfirst : ∀ e s', Runs first s e s' → Follows R Q (next e) other s' d) :
    Follows R Q (first >>= next) other s d := by
  intro a s'' hruns
  obtain ⟨e, s', hfirst', hrest⟩ := runs_bind.mp hruns
  exact hfirst e s' hfirst' a s'' hrest

/-- What only the other one does is left aside. -/
theorem bind_right {ε : Type} {first : Task ε} {next : ε → Task β}
    (hfirst : ∃ e d', Runs first d e d' ∧ Follows R Q task (next e) s d') :
    Follows R Q task (first >>= next) s d := by
  intro a s' hruns
  obtain ⟨e, d', hfirst, hrest⟩ := hfirst
  obtain ⟨b, d'', hother, hab, hsd⟩ := hrest a s' hruns
  exact ⟨b, d'', runs_bind.mpr ⟨e, d', hfirst, hother⟩, hab, hsd⟩

/-! ## The operations of a session -/

theorem get_bind {next : Session → Task α} {other' : Session → Task β}
    (hnext : Follows R Q (next s) (other' d) s d) :
    Follows R Q (get >>= next) (get >>= other') s d := by
  intro a s' hruns
  obtain ⟨b, d', hother, h⟩ := hnext a s' (runs_get_bind.mp hruns)
  exact ⟨b, d', runs_get_bind.mpr hother, h⟩

theorem disk_bind {next : Disk → Task α} {other' : Disk → Task β}
    (hnext : Follows R Q (next s.disk) (other' d.disk) s d) :
    Follows R Q (Task.disk >>= next) (Task.disk >>= other') s d := by
  intro a s' hruns
  obtain ⟨b, d', hother, h⟩ := hnext a s' (runs_disk_bind.mp hruns)
  exact ⟨b, d', runs_disk_bind.mpr hother, h⟩

theorem modify_bind {f g : Session → Session} {next : Unit → Task α} {other' : Unit → Task β}
    (hnext : Follows R Q (next ()) (other' ()) (f s) (g d)) :
    Follows R Q (modify f >>= next) (modify g >>= other') s d := by
  refine bind_left fun u s' hmodify => ?_
  obtain rfl := runs_modify.mp hmodify
  exact bind_right ⟨(), g d, runs_modify.mpr rfl, hnext⟩

theorem check_bind {question : Disk → Except Disk.Error Bool} {next : Bool → Task α}
    {other' : Bool → Task β} (hsame : question d.disk = question s.disk)
    (hnext : ∀ answer, question s.disk = .ok answer →
      Follows R Q (next answer) (other' answer) s d) :
    Follows R Q (check question >>= next) (check question >>= other') s d := by
  intro a s' hruns
  obtain ⟨answer, hanswer, hrest⟩ := runs_check_bind.mp hruns
  obtain ⟨b, d', hother, h⟩ := hnext answer hanswer a s' hrest
  exact ⟨b, d', runs_check_bind.mpr ⟨answer, hsame.trans hanswer, hother⟩, h⟩

theorem refusable_bind {ε ζ : Type} {A : ε → ζ → Prop} {result : Except Disk.Error ε}
    {result' : Except Disk.Error ζ} {next : Except Disk.Error ε → Task α}
    {other' : Except Disk.Error ζ → Task β} (hanswers : Answers A result result')
    (hok : ∀ a b, A a b → Follows R Q (next (.ok a)) (other' (.ok b)) s d)
    (herror : ∀ error error', Follows R Q (next (.error error)) (other' (.error error')) s d) :
    Follows R Q (refusable result >>= next) (refusable result' >>= other') s d := by
  intro a s' hruns
  cases hanswers with
  | ok hab => exact hok _ _ hab a s' hruns
  | @error error error' hsame =>
      by_cases hrefusal : error.isRefusal = true
      · rw [refusable, if_pos hrefusal] at hruns
        rw [refusable, if_pos (hsame ▸ hrefusal)]
        exact herror error error' a s' hruns
      · rw [refusable, if_neg hrefusal] at hruns
        obtain ⟨_, _, hthrow, -⟩ := runs_bind.mp hruns
        exact absurd hthrow runs_throw

theorem resolve_bind {path : Path} {next : Path → Task α} {other' : Path → Task β}
    (hnext : ∀ resolved, s.disk.resolve path = .ok resolved →
      ∃ resolved', d.disk.resolve path = .ok resolved'
        ∧ Follows R Q (next resolved) (other' resolved') s d) :
    Follows R Q (resolve path >>= next) (resolve path >>= other') s d := by
  intro a s' hruns
  obtain ⟨resolved, hresolve, hrest⟩ := runs_resolve_bind.mp hruns
  obtain ⟨resolved', hresolve', hnext⟩ := hnext resolved hresolve
  obtain ⟨b, d', hother, h⟩ := hnext a s' hrest
  exact ⟨b, d', runs_resolve_bind.mpr ⟨resolved', hresolve', hother⟩, h⟩

theorem ite {p : Prop} [Decidable p] {task' : Task α} {other' : Task β}
    (hthen : p → Follows R Q task other s d) (helse : ¬ p → Follows R Q task' other' s d) :
    Follows R Q (if p then task else task') (if p then other else other') s d := by
  split
  · exact hthen ‹p›
  · exact helse ‹¬ p›

/-- If the other of two related sessions is no less patient, and they are still related when both
lose patience, asking for permission succeeds in the one if it does in the other. -/
theorem poll {point : StopPoint} (hpatience : d.patience = s.patience ∨ d.patience = none)
    (hsd : ∀ patience patience', patience' = patience ∨ patience' = none →
      R { s with patience } { d with patience := patience' }) :
    Follows R (fun _ _ => True) (Task.poll point) (Task.poll point) s d := by
  intro u s' hruns
  obtain ⟨left, rfl, hleft⟩ : ∃ left, s' = { s with patience := left }
      ∧ (s.patience = left ∧ left = none ∨ ∃ n, s.patience = some (n + 1) ∧ left = some n) := by
    have hruns := runs_get_bind.mp hruns
    split at hruns
    · rename_i hnone
      obtain ⟨-, rfl⟩ := runs_pure.mp hruns
      exact ⟨none, by rw [← hnone], .inl ⟨hnone, rfl⟩⟩
    · exact absurd hruns runs_throw
    · rename_i n hsome
      exact ⟨some n, runs_modify.mp hruns, .inr ⟨n, hsome, rfl⟩⟩
  have hstays : d.patience = none → Runs (Task.poll point) d () { d with patience := none } :=
    fun hnone => (runs_poll_iff hnone).mpr (by rw [← hnone])
  rcases hpatience with hsame | hnone
  · rcases hleft with ⟨hknown, rfl⟩ | ⟨n, hknown, rfl⟩
    · exact ⟨(), _, hstays (hsame.trans hknown), trivial, hsd _ _ (.inr rfl)⟩
    · refine ⟨(), { d with patience := some n }, runs_get_bind.mpr ?_, trivial, hsd _ _ (.inl rfl)⟩
      rw [hsame, hknown]
      exact runs_modify.mpr rfl
  · exact ⟨(), _, hstays hnone, trivial, hsd _ _ (.inr rfl)⟩

end Follows

/-! ## Loops -/

/-- The lists agree but for items that are not shown. -/
inductive Paired (shown : α → Prop) : List α → List α → Prop
  | nil : Paired shown [] []
  | both {a : α} {list list' : List α} (hshown : shown a) (hrest : Paired shown list list') :
      Paired shown (a :: list) (a :: list')
  | left {a : α} {list list' : List α} (hhidden : ¬ shown a) (hrest : Paired shown list list') :
      Paired shown (a :: list) list'
  | right {a : α} {list list' : List α} (hhidden : ¬ shown a) (hrest : Paired shown list list') :
      Paired shown list (a :: list')

namespace Paired

variable {shown : α → Prop} {list list' : List α}

theorem refl (hshown : ∀ a ∈ list, shown a) : Paired shown list list := by
  induction list with
  | nil => exact .nil
  | cons a rest ih =>
      obtain ⟨ha, hrest⟩ := List.forall_mem_cons.mp hshown
      exact .both ha (ih hrest)

theorem of_nil (hhidden : ∀ a ∈ list', ¬ shown a) : Paired shown [] list' := by
  induction list' with
  | nil => exact .nil
  | cons a rest ih =>
      obtain ⟨ha, hrest⟩ := List.forall_mem_cons.mp hhidden
      exact .right ha (ih hrest)

theorem of_filter [DecidablePred shown]
    (hfilter : list.filter (shown ·) = list'.filter (shown ·)) : Paired shown list list' := by
  induction list generalizing list' with
  | nil => exact .of_nil fun a ha hshown =>
      List.not_mem_nil (hfilter ▸ List.mem_filter.mpr ⟨ha, by simpa⟩)
  | cons a rest ih =>
      by_cases hshown : shown a
      · rw [List.filter_cons_of_pos (by simpa)] at hfilter
        induction list' with
        | nil => cases hfilter
        | cons b rest' ih' =>
            by_cases hshown' : shown b
            · rw [List.filter_cons_of_pos (by simpa)] at hfilter
              obtain ⟨rfl, hrest⟩ := List.cons.inj hfilter
              exact .both hshown (ih hrest)
            · rw [List.filter_cons_of_neg (by simpa)] at hfilter
              exact .right hshown' (ih' hfilter)
      · rw [List.filter_cons_of_neg (by simpa)] at hfilter
        exact .left hshown (ih hfilter)

end Paired

namespace Follows

variable {Q : β → γ → Prop} {f : β → α → Task β} {g : γ → α → Task γ} {list list' : List α}

/-- Loops follow each other over lists that agree but for items that make no difference. -/
theorem foldlM_paired {shown : α → Prop} (hpaired : Paired shown list list')
    (hboth : ∀ a ∈ list, a ∈ list' → shown a → ∀ {b c s d}, Q b c → R s d →
      Follows R Q (f b a) (g c a) s d)
    (hleft : ∀ a ∈ list, ¬ shown a → ∀ {b c s d}, Q b c → R s d →
      Follows R Q (f b a) (Pure.pure c) s d)
    (hright : ∀ a ∈ list', ¬ shown a → ∀ {b c s d}, Q b c → R s d →
      Follows R Q (Pure.pure b) (g c a) s d)
    {b : β} {c : γ} (hbc : Q b c) (hsd : R s d) :
    Follows R Q (list.foldlM f b) (list'.foldlM g c) s d := by
  induction hpaired generalizing b c s d with
  | nil => exact pure hbc hsd
  | both hshown _ ih =>
      rw [List.foldlM_cons, List.foldlM_cons]
      refine (hboth _ List.mem_cons_self List.mem_cons_self hshown hbc hsd).bind
        fun b' c' s' d' hbc hsd =>
        ih (fun a ha ha' => hboth a (List.mem_cons_of_mem _ ha) (List.mem_cons_of_mem _ ha'))
          (fun a ha => hleft a (List.mem_cons_of_mem _ ha))
          (fun a ha => hright a (List.mem_cons_of_mem _ ha)) hbc hsd
  | @left a list list' hhidden _ ih =>
      have hlater : ∀ {b c s d}, Q b c → R s d →
          Follows R Q (list.foldlM f b) (list'.foldlM g c) s d :=
        ih (fun a ha => hboth a (List.mem_cons_of_mem _ ha))
          (fun a ha => hleft a (List.mem_cons_of_mem _ ha)) hright
      rw [List.foldlM_cons, ← pure_bind c (list'.foldlM g)]
      exact (hleft _ List.mem_cons_self hhidden hbc hsd).bind fun _ _ _ _ => hlater
  | @right a list list' hhidden _ ih =>
      have hlater : ∀ {b c s d}, Q b c → R s d →
          Follows R Q (list.foldlM f b) (list'.foldlM g c) s d :=
        ih (fun a ha ha' => hboth a ha (List.mem_cons_of_mem _ ha')) hleft
          (fun a ha => hright a (List.mem_cons_of_mem _ ha))
      rw [List.foldlM_cons, ← pure_bind b (list.foldlM f)]
      exact (hright _ List.mem_cons_self hhidden hbc hsd).bind fun _ _ _ _ => hlater

/-- Loops over the same list follow each other if their steps do. -/
theorem foldlM (hstep : ∀ a ∈ list, ∀ {b c s d}, Q b c → R s d → Follows R Q (f b a) (g c a) s d)
    {b : β} {c : γ} (hbc : Q b c) (hsd : R s d) :
    Follows R Q (list.foldlM f b) (list.foldlM g c) s d := by
  have hpaired : Paired (fun _ => True) list list := .refl fun _ _ => trivial
  exact foldlM_paired hpaired (fun a ha _ _ => hstep a ha)
    (fun _ _ hhidden => absurd trivial hhidden) (fun _ _ hhidden => absurd trivial hhidden) hbc hsd

theorem filterM {test test' : α → Task Bool}
    (htest : ∀ a ∈ list, ∀ {s d}, R s d → Follows R Eq (test a) (test' a) s d) (hsd : R s d) :
    Follows R Eq (list.filterM test) (list.filterM test') s d := by
  have haux : ∀ (list found : List α), (∀ a ∈ list, ∀ {s d}, R s d →
      Follows R Eq (test a) (test' a) s d) → ∀ {s d}, R s d →
        Follows R Eq (list.filterAuxM test found) (list.filterAuxM test' found) s d := by
    intro list
    induction list with
    | nil => exact fun found _ _ _ hsd => pure rfl hsd
    | cons a rest ih =>
        intro found htest s d hsd
        obtain ⟨ha, hrest⟩ := List.forall_mem_cons.mp htest
        refine (ha hsd).bind ?_
        rintro passes _ s' d' rfl hsd
        exact ih _ hrest hsd
  refine (haux list [] htest hsd).bind ?_
  rintro found _ s' d' rfl hsd
  exact pure rfl hsd

end Follows

end ResourcePruner.Task
