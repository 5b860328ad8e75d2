import ResourcePruner.Proofs.Catalog
import ResourcePruner.Proofs.Task
import ResourcePruner.Run.Rounds

/-!
# What counting leaves alone

Determining the search roots and scanning them touch nothing but the log, the counts in the catalog,
the roots themselves and the caller's patience (`Usage.steps_scan`, `Run.steps_searchRoots`). A
counted catalog has the files that it had before.
-/

namespace ResourcePruner

open ResourcePruner.Task (Runs Steps IsLogged)

/-- The resources of one catalog are those of the other, with the same files. -/
def Catalog.SameFiles (catalog other : Catalog) : Prop :=
  ∀ r, (other.get? r).map (·.files) = (catalog.get? r).map (·.files)

namespace Catalog.SameFiles

theorem refl (catalog : Catalog) : catalog.SameFiles catalog := fun _ => rfl

theorem trans {first second third : Catalog} (hfirst : first.SameFiles second)
    (hsecond : second.SameFiles third) : first.SameFiles third :=
  fun r => (hsecond r).trans (hfirst r)

theorem contains_eq {catalog other : Catalog} (hsame : catalog.SameFiles other) (r : Resource) :
    other.contains r = catalog.contains r := by
  have hisSome := congrArg Option.isSome (hsame r)
  rwa [Option.isSome_map, Option.isSome_map] at hisSome

theorem markUsed (catalog : Catalog) (r : Resource) : catalog.SameFiles (catalog.markUsed r) := by
  intro other
  rw [get?_markUsed]
  split
  · rw [Option.map_map]
    rfl
  · rfl

theorem foldl_markUsed (resources : List Resource) (catalog : Catalog) :
    catalog.SameFiles (resources.foldl Catalog.markUsed catalog) := by
  induction resources generalizing catalog with
  | nil => exact refl catalog
  | cons r rest ih => exact (markUsed catalog r).trans (ih _)

theorem addLines (dialect : Dialect) (table : List Usage.TokenGroup) (lines : List Text)
    (tally : Usage.Tally) :
    tally.catalog.SameFiles (Usage.Tally.addLines tally dialect table lines).catalog := by
  induction lines generalizing tally with
  | nil => exact refl _
  | cons line rest ih => exact (foldl_markUsed _ _).trans (ih _)

end Catalog.SameFiles

/-- A relation that takes no notice of what is counted, either: neither of the counts, nor of the
roots that are searched, nor of the caller's patience. -/
class Task.IsCounted (R : Session → Session → Prop) : Prop extends IsLogged R where
  catalog : ∀ (s : Session) (catalog : Catalog), s.catalog.SameFiles catalog →
    R s { s with catalog }
  roots : ∀ (s : Session) (roots : List Path), s.roots = none → R s { s with roots := some roots }
  patience : ∀ (s : Session) (patience : Option Nat), R s { s with patience }

section

variable {R : Session → Session → Prop} [Task.IsCounted R]

theorem Task.steps_poll (point : StopPoint) : Steps R (Task.poll point) := by
  intro s
  rw [Task.poll, Task.exec_bind, Task.exec_get]
  simp only
  split
  · exact IsRun.refl s
  · exact IsRun.refl s
  · exact IsCounted.patience s _

namespace Usage

theorem steps_countLines (dialect : Dialect) (table : List TokenGroup) (lines : List Text)
    (stats : ScanStats) : Steps R (countLines dialect table lines stats) := by
  intro s
  exact Task.IsCounted.catalog s _ (.addLines dialect table lines ⟨s.catalog, 0⟩)

theorem steps_scanFile (settings : ScanSettings) (tables : Dialect → List TokenGroup)
    (progress : Progress) (path : Path) : Steps R (scanFile settings tables progress path) := by
  refine (Task.steps_resolve _).bind fun resolved => ?_
  refine .ite (fun _ => .pure _) fun _ => ?_
  cases dialectOf? settings path with
  | none => exact .pure _
  | some dialect =>
      refine (Task.steps_poll _).bind fun _ => Task.steps_disk.bind fun disk =>
        (Task.steps_refusable _).bind fun found => ?_
      cases found with
      | ok bytes => exact (steps_countLines _ _ _ _).bind fun _ => .pure _
      | error error => exact (Task.steps_warn _ _ _ _).bind fun _ => .pure _

theorem steps_filesOf (settings : ScanSettings) (root : Path) :
    Steps R (filesOf settings root) := by
  refine (Task.steps_check _).bind fun isFile => ?_
  refine .ite (fun _ => .pure _) fun _ => ?_
  refine Task.steps_disk.bind fun disk => (Task.steps_refusable _).bind fun found => ?_
  cases found with
  | ok files => exact .pure _
  | error error => exact (Task.steps_warn _ _ _ _).bind fun _ => .pure _

theorem steps_manifestFiles (manifest : Option Path) : Steps R (manifestFiles manifest) := by
  cases manifest with
  | none => exact .pure _
  | some manifest =>
      refine (Task.steps_check _).bind fun isFile => ?_
      refine .ite (fun _ => .pure _) fun _ => ?_
      exact (Task.steps_warn _ _ _ _).bind fun _ => .pure _

theorem steps_scan (settings : ScanSettings) (roots : List Path) (manifest : Option Path) :
    Steps R (scan settings roots manifest) := by
  refine Steps.get.bind fun s => (steps_manifestFiles manifest).bind fun files => ?_
  refine (Steps.foldlM (fun progress path _ => steps_scanFile settings _ progress path) _).bind
    fun progress => ?_
  refine (Steps.foldlM (fun progress root _ => ?_) _).bind fun _ => .pure _
  exact (steps_filesOf settings root).bind fun files =>
    .foldlM (fun progress path _ => steps_scanFile settings _ progress path) _

end Usage

namespace Run

theorem steps_filterM {σ α : Type} {R : σ → σ → Prop} [Task.IsRun R] {ε : Type}
    {test : α → ExceptT ε (StateM σ) Bool} (htest : ∀ a, Steps R (test a)) (list : List α) :
    Steps R (list.filterM test) := by
  have haux : ∀ (list found : List α), Steps R (list.filterAuxM test found) := by
    intro list
    induction list with
    | nil => exact fun found => .pure found
    | cons a rest ih => exact fun found => (htest a).bind fun _ => ih _
  exact (haux list []).bind fun _ => .pure _

/-- Each item that is picked out passed the test at some time. -/
theorem exists_of_mem_filterM {σ α : Type} {R : σ → σ → Prop} [Task.IsRun R] {ε : Type}
    {test : α → ExceptT ε (StateM σ) Bool} (htest : ∀ a, Steps R (test a)) {list found : List α}
    {s s' : σ} (hruns : Runs (list.filterM test) s found s') :
    ∀ a ∈ found, a ∈ list ∧ ∃ t t', R s t ∧ Runs (test a) t true t' ∧ R t' s' := by
  have haux : ∀ (list init : List α) {found : List α} {s : σ} {s' : σ},
      Runs (list.filterAuxM test init) s found s' → R s s' ∧
        ∀ a ∈ found, a ∈ init ∨ a ∈ list ∧ ∃ t t', R s t ∧ Runs (test a) t true t' ∧ R t' s' := by
    intro list
    induction list with
    | nil =>
        intro init found s s' hruns
        obtain ⟨rfl, rfl⟩ := Task.runs_pure.mp hruns
        exact ⟨Task.IsRun.refl _, fun a => .inl⟩
    | cons a rest ih =>
        intro init found s s' hruns
        obtain ⟨passes, t, hfirst, hrest⟩ := Task.runs_bind.mp hruns
        have hst : R s t := (htest a).runs hfirst
        obtain ⟨hts, hmem⟩ := ih _ hrest
        refine ⟨Task.IsRun.trans hst hts, fun b hb => ?_⟩
        have hlater : b ∈ rest ∧ (∃ u u', R t u ∧ Runs (test b) u true u' ∧ R u' s') →
            b ∈ a :: rest ∧ ∃ u u', R s u ∧ Runs (test b) u true u' ∧ R u' s' := by
          rintro ⟨hb, u, u', hu, hrest⟩
          exact ⟨List.mem_cons_of_mem _ hb, u, u', Task.IsRun.trans hst hu, hrest⟩
        rcases hmem b hb with hb | hb
        · cases passes with
          | false => exact .inl hb
          | true =>
              rcases List.mem_cons.mp hb with rfl | hb
              · exact .inr ⟨List.mem_cons_self, s, t, Task.IsRun.refl s, hfirst, hts⟩
              · exact .inl hb
        · exact .inr (hlater hb)
  obtain ⟨reversed, t, hfilter, hpure⟩ := Task.runs_bind.mp hruns
  obtain ⟨rfl, rfl⟩ := Task.runs_pure.mp hpure
  intro a ha
  exact ((haux list [] hfilter).2 a (List.mem_reverse.mp ha)).resolve_left List.not_mem_nil

theorem steps_existingRoots {R : Session → Session → Prop} [IsLogged R] (roots : List Path) :
    Steps R (existingRoots roots) := by
  refine steps_filterM (fun root => (Task.steps_check _).bind fun isPresent => ?_) roots
  refine .ite (fun _ => .pure _) fun _ => ?_
  exact (Task.steps_warn _ _ _ _).bind fun _ => .pure _

/-- The roots stay as they are. -/
def KeepsRoots (s s' : Session) : Prop :=
  s'.roots = s.roots

instance : IsLogged KeepsRoots where
  refl _ := rfl
  trans hfirst hsecond := hsecond.trans hfirst
  trail _ _ _ := rfl
  append _ _ _ _ _ _ := rfl

/-- An extra root that is searched was there at some time. -/
theorem exists_of_mem_existingRoots {R : Session → Session → Prop} [IsLogged R]
    {roots found : List Path} {s s' : Session} (hruns : Runs (existingRoots roots) s found s') :
    ∀ root ∈ found, root ∈ roots ∧ ∃ t, R s t ∧ R t s' ∧ t.disk.isPresent root = .ok true := by
  have hmem := exists_of_mem_filterM
    (R := R) (fun root => (Task.steps_check _).bind fun isPresent =>
    .ite (fun _ => .pure _) fun _ => (Task.steps_warn _ _ _ _).bind fun _ => .pure _) hruns
  intro root hroot
  obtain ⟨hroot, t, t', hst, htest, hts⟩ := hmem root hroot
  obtain ⟨isPresent, hpresent, htest⟩ := Task.runs_check_bind.mp htest
  cases isPresent with
  | true =>
      obtain ⟨-, rfl⟩ := Task.runs_pure.mp htest
      exact ⟨hroot, t', hst, hts, hpresent⟩
  | false =>
      obtain ⟨_, u, -, hpure⟩ := Task.runs_bind.mp htest
      obtain ⟨heq, -⟩ := Task.runs_pure.mp hpure
      cases heq

/-- The roots to search are those that have been determined; if none have been, they are the project
root and the extra roots that are there. -/
theorem runs_searchRoots {R : Session → Session → Prop} [IsLogged R] {config : Config}
    {roots : List Path} {s s' : Session} (hruns : Runs (searchRoots config) s roots s') :
    s.roots = some roots ∧ s' = s ∨ s.roots = none ∧ ∃ t,
    R s t ∧ s' = { t with roots := some roots }
      ∧ ∀ root ∈ roots, root = config.projectRoot ∨ root ∈ config.extraRoots
        ∧ ∃ u, R s u ∧ R u t ∧ u.disk.isPresent root = .ok true := by
  have hruns := Task.runs_get_bind.mp hruns
  cases hroots : s.roots with
  | some known =>
      rw [hroots] at hruns
      obtain ⟨rfl, rfl⟩ := Task.runs_pure.mp hruns
      exact .inl ⟨rfl, rfl⟩
  | none =>
      rw [hroots] at hruns
      obtain ⟨extra, t, hextra, hruns⟩ := Task.runs_bind.mp hruns
      obtain ⟨_, u, hmodify, hpure⟩ := Task.runs_bind.mp hruns
      obtain ⟨rfl, rfl⟩ := Task.runs_pure.mp hpure
      refine .inr ⟨rfl, t, (steps_existingRoots _).runs hextra, Task.runs_modify.mp hmodify,
        List.forall_mem_cons.mpr ⟨.inl rfl, fun root hroot => .inr ?_⟩⟩
      exact exists_of_mem_existingRoots hextra root hroot

theorem steps_searchRoots (config : Config) : Steps R (searchRoots config) := by
  refine Steps.get.bind_runs fun {_ _ s} hget => ?_
  obtain ⟨rfl, rfl⟩ := Task.runs_get.mp hget
  cases hroots : s.roots with
  | some roots =>
      simp only
      exact Task.IsRun.refl _
  | none =>
      simp only
      rw [Task.exec_bind]
      have hextra := steps_existingRoots (R := R) config.extraRoots s
      cases hexec : Task.exec (existingRoots config.extraRoots) s with
      | mk result u =>
          rw [hexec] at hextra
          cases result with
          | error failure => exact hextra
          | ok extra =>
              have hsame : KeepsRoots s u := (steps_existingRoots _).runs hexec
              exact Task.IsRun.trans hextra (Task.IsCounted.roots u _ (hsame.trans hroots))

end Run

end

end ResourcePruner
