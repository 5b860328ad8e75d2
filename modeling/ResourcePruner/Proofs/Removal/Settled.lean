import Mathlib.Data.List.Basic
import ResourcePruner.Proofs.Removal.Deeds

/-!
# Every unused resource is settled

A pass enters each unused resource once, as removed or as failed (`Removal.settles_removeUnused`),
however its pruning, backing up and deleting went. What it enters is read off its deeds: each
settles at most one resource, one way or the other.
-/

namespace ResourcePruner.Removal

open ResourcePruner.Task (Runs)

/-- A list is split by two choices of which one at most takes each of its items. -/
theorem perm_filterMap_or {α β : Type} {f g : α → Option β} (hapart : ∀ a, f a = none ∨ g a = none)
    (list : List α) :
    (list.filterMap f ++ list.filterMap g).Perm (list.filterMap fun a => (f a).or (g a)) := by
  induction list with
  | nil => exact .refl _
  | cons a rest ih =>
      cases hf : f a with
      | some b =>
          obtain hg : g a = none := (hapart a).resolve_left (by simp [hf])
          simpa [hf, hg] using ih
      | none =>
          cases hg : g a with
          | none => simpa [hf, hg] using ih
          | some b => simpa [hf, hg] using List.perm_middle.trans (ih.cons b)

/-- A choice that agrees with another one takes what comes of it in the same order. -/
theorem filterMap_sublist {α β : Type} {f g : α → Option β}
    (hfg : ∀ a b, f a = some b → g a = some b)
    (list : List α) : (list.filterMap f).Sublist (list.filterMap g) := by
  induction list with
  | nil => exact .refl _
  | cons a rest ih =>
      cases hf : f a with
      | some b => simpa [hf, hfg a b hf] using ih
      | none =>
          cases hg : g a with
          | none => simpa [hf, hg] using ih
          | some b => simpa [hf, hg] using ih.cons b

namespace Deed

theorem removed?_or_failed? (deed : Deed) : deed.removed? = none ∨ deed.failed? = none := by
  cases deed
  case removed => exact .inr rfl
  all_goals exact .inl rfl

theorem settled?_of_removed? (deed : Deed) (r : Resource) (hr : deed.removed? = some r) :
    deed.settled? = some r := by
  rw [settled?, hr, Option.some_or]

theorem settled?_of_failed? (deed : Deed) (r : Resource) (hr : deed.failed? = some r) :
    deed.settled? = some r := by
  rw [settled?, deed.removed?_or_failed?.resolve_right (by simp [hr]), Option.none_or, hr]

end Deed

section

variable {doomed : Path → Doomed} {store : Backup.Store} {s s' : Session} {removal : Removal}
  {resources : List Resource}

/-- What a part of a pass that begins with nothing has listed are its resources. -/
theorem Disposes.settled (hdisposes : Disposes doomed resources s s' nothing removal) :
    (removal.removed ++ removal.failed).Perm resources ∧ removal.removed.Sublist resources
      ∧ removal.failed.Sublist resources := by
  obtain ⟨deeds, -, henters, rfl⟩ := hdisposes
  rw [henters.removed, henters.failed]
  exact ⟨perm_filterMap_or Deed.removed?_or_failed? deeds,
    filterMap_sublist Deed.settled?_of_removed? deeds,
    filterMap_sublist Deed.settled?_of_failed? deeds⟩

/-- Of the unused resources, each is removed or has failed, and it is one of the two only. -/
theorem settles_removeUnused (hruns : Runs (removeUnused store) s removal s') :
    (removal.removed ++ removal.failed).Perm (s.catalog.unused.map Prod.fst) := by
  obtain ⟨t, hdisposes, -⟩ := disposes_removeUnused hruns
  refine hdisposes.settled.1.trans ?_
  rw [← List.map_append]
  exact (List.filter_append_perm _ _).map Prod.fst

end

end ResourcePruner.Removal
