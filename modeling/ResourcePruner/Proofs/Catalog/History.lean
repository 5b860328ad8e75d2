import Mathlib.Data.List.DropRight
import Mathlib.Data.List.Sort
import ResourcePruner.Catalog

/-!
# The history of a catalog

What a catalog knows is told by the changes that it has been through. A resource is known if it has
been registered and not evicted since (`Catalog.contains_after`); its record is made of the changes
that came after the one that created it (`Catalog.get?_after`).

The history is followed from its end: one more change either creates the record or comes behind its
creation (`Catalog.isSinceCreation_concat`), and what it makes of the record is what the longer
history tells of (`Catalog.Change.onRecord_recordOf`).
-/

namespace ResourcePruner

namespace Catalog

/-! ## Changes -/

/-- A change of a catalog. -/
inductive Change where
  | register (r : Resource)
  | mark (r : Resource)
  | addFile (r : Resource) (file : Path)
  | evict (r : Resource)
  | reset
  deriving DecidableEq

namespace Change

/-- A catalog, changed. -/
def apply (catalog : Catalog) : Change → Catalog
  | register r => catalog.register r
  | mark r => catalog.markUsed r
  | addFile r file => catalog.addFile r file
  | evict r => catalog.evict r
  | reset => catalog.resetUses

/-- The resource that a change is about; setting the counts to zero is about all of them. -/
def resource? : Change → Option Resource
  | register r | mark r | addFile r _ | evict r => some r
  | reset => none

/-- The file that a change adds to the record of a resource. -/
def fileFor? (r : Resource) : Change → Option Path
  | addFile other file => if r = other then some file else none
  | register _ | mark _ | evict _ | reset => none

/-- What a change makes of the record of a resource. -/
def onRecord (r : Resource) : Change → Option Record → Option Record
  | register other, found => if r = other then some (found.getD .fresh) else found
  | mark other, found => if r = other then found.map .mark else found
  | addFile other file, found => if r = other then found.map (·.addFile file) else found
  | evict other, found => if r = other then none else found
  | reset, found => found.map .reset

theorem get?_apply (catalog : Catalog) (change : Change) (r : Resource) :
    (change.apply catalog).get? r = change.onRecord r (catalog.get? r) := by
  cases change with
  | register other =>
      rw [apply, get?_register, onRecord]
      by_cases hother : r = other
      · rw [if_pos hother, if_pos hother, hother]
      · rw [if_neg hother, if_neg hother]
  | mark other => exact get?_markUsed ..
  | addFile other file => exact get?_addFile ..
  | evict other => exact get?_evict ..
  | reset => exact get?_resetUses ..

/-- A change leaves the records of all resources as they are that it is not about. -/
theorem get?_apply_of_ne {catalog : Catalog} {change : Change} {r other : Resource}
    (hresource : change.resource? = some r) (hother : other ≠ r) :
    (change.apply catalog).get? other = catalog.get? other := by
  rw [get?_apply]
  cases change with
  | reset => cases hresource
  | register | mark | addFile | evict =>
      cases hresource
      exact if_neg hother

end Change

/-- The catalog that has been through a history, from the one that knows no resource on. -/
def after (history : List Change) : Catalog :=
  history.foldl Change.apply empty

theorem after_concat (history : List Change) (change : Change) :
    after (history ++ [change]) = change.apply (after history) :=
  List.foldl_concat ..

/-! ## What a history tells of a resource -/

/-- The resource has been registered, and not evicted since. -/
def IsKnownAfter (history : List Change) (r : Resource) : Prop :=
  ∃ before later, history = before ++ .register r :: later ∧ .evict r ∉ later

/-- The record of the resource was created by registering the resource, which was not known before;
these are the changes that came later, and the resource has not been evicted. -/
def IsSinceCreation (history : List Change) (r : Resource) (later : List Change) : Prop :=
  ∃ before, history = before ++ .register r :: later ∧ ¬ IsKnownAfter before r ∧ .evict r ∉ later

/-- The record that changes make, after its creation: the marks since the last time that the counts
were set to zero, and each added file once, first seen first. -/
def recordOf (r : Resource) (later : List Change) : Record where
  uses := (later.rtakeWhile (· ≠ .reset)).count (.mark r)
  files := (later.filterMap (Change.fileFor? r)).eraseDups

/-- The history tells of the resource, and that this is its record. -/
def Tells (history : List Change) (r : Resource) (record : Record) : Prop :=
  ∃ later, IsSinceCreation history r later ∧ record = recordOf r later

/-! ## One more change -/

section

variable {history front later : List Change} {change : Change} {r : Resource} {record : Record}

/-- What stands behind an item of a list that ends with another one. -/
theorem concat_eq_append_cons_iff {α : Type} {list before behind : List α} {a b : α} :
    list ++ [b] = before ++ a :: behind ↔
      (behind = [] ∧ b = a ∧ list = before)
        ∨ ∃ front, behind = front ++ [b] ∧ list = before ++ a :: front := by
  constructor
  · intro heq
    rcases List.eq_nil_or_concat behind with rfl | ⟨front, last, rfl⟩
    · obtain ⟨hlist, hb⟩ := List.append_inj' heq rfl
      exact .inl ⟨rfl, (List.cons.inj hb).1, hlist⟩
    · rw [List.concat_eq_append, ← List.cons_append, ← List.append_assoc] at heq
      obtain ⟨hlist, hb⟩ := List.append_inj' heq rfl
      rw [List.concat_eq_append, ← (List.cons.inj hb).1]
      exact .inr ⟨front, rfl, hlist⟩
  · rintro (⟨rfl, rfl, rfl⟩ | ⟨front, rfl, rfl⟩)
    · rfl
    · rw [List.append_assoc, List.cons_append]

theorem isKnownAfter_concat :
    IsKnownAfter (history ++ [change]) r ↔
      change = .register r ∨ IsKnownAfter history r ∧ change ≠ .evict r := by
  constructor
  · rintro ⟨before, later, heq, hevict⟩
    rcases concat_eq_append_cons_iff.mp heq with ⟨-, hchange, -⟩ | ⟨front, rfl, hhistory⟩
    · exact .inl hchange
    · rw [List.mem_append, List.mem_singleton, not_or] at hevict
      exact .inr ⟨⟨before, front, hhistory, hevict.1⟩, fun h => hevict.2 h.symm⟩
  · rintro (rfl | ⟨⟨before, later, rfl, hevict⟩, hchange⟩)
    · exact ⟨history, [], rfl, List.not_mem_nil⟩
    · refine ⟨before, later ++ [change], by rw [List.append_assoc, List.cons_append], ?_⟩
      rw [List.mem_append, List.mem_singleton, not_or]
      exact ⟨hevict, fun h => hchange h.symm⟩

theorem not_isKnownAfter_nil : ¬ IsKnownAfter [] r := by
  rintro ⟨before, later, heq, -⟩
  exact List.append_ne_nil_of_right_ne_nil _ (List.cons_ne_nil _ _) heq.symm

/-- A change creates the record, or it comes behind the creation. -/
theorem isSinceCreation_concat :
    IsSinceCreation (history ++ [change]) r later ↔
      (later = [] ∧ change = .register r ∧ ¬ IsKnownAfter history r)
        ∨ ∃ front, later = front ++ [change] ∧ IsSinceCreation history r front
            ∧ change ≠ .evict r := by
  constructor
  · rintro ⟨before, heq, hnew, hevict⟩
    rcases concat_eq_append_cons_iff.mp heq with ⟨hlater, hchange, rfl⟩ | ⟨front, rfl, hhistory⟩
    · exact .inl ⟨hlater, hchange, hnew⟩
    · rw [List.mem_append, List.mem_singleton, not_or] at hevict
      exact .inr ⟨front, rfl, ⟨before, hhistory, hnew, hevict.1⟩, fun h => hevict.2 h.symm⟩
  · rintro (⟨rfl, rfl, hnew⟩ | ⟨front, rfl, ⟨before, rfl, hnew, hevict⟩, hchange⟩)
    · exact ⟨history, rfl, hnew, List.not_mem_nil⟩
    · refine ⟨before, by rw [List.append_assoc, List.cons_append], hnew, ?_⟩
      rw [List.mem_append, List.mem_singleton, not_or]
      exact ⟨hevict, fun h => hchange h.symm⟩

theorem not_isSinceCreation_nil : ¬ IsSinceCreation [] r later := by
  rintro ⟨before, heq, -⟩
  exact List.append_ne_nil_of_right_ne_nil _ (List.cons_ne_nil _ _) heq.symm

theorem IsSinceCreation.isKnownAfter (hlater : IsSinceCreation history r later) :
    IsKnownAfter history r := by
  obtain ⟨before, rfl, -, hevict⟩ := hlater
  exact ⟨before, later, rfl, hevict⟩

/-- No history has two changes that created the record. -/
theorem IsSinceCreation.unique {behind : List Change} (hlater : IsSinceCreation history r later)
    (hbehind : IsSinceCreation history r behind) : later = behind := by
  induction history using List.reverseRecOn generalizing later behind with
  | nil => exact absurd hlater not_isSinceCreation_nil
  | append_singleton front change ih =>
      rcases isSinceCreation_concat.mp hlater with ⟨rfl, -, hnew⟩ | ⟨fore, rfl, hfore, -⟩ <;>
        rcases isSinceCreation_concat.mp hbehind with ⟨rfl, -, hnew'⟩ | ⟨fore', rfl, hfore', -⟩
      · rfl
      · exact absurd hfore'.isKnownAfter hnew
      · exact absurd hfore.isKnownAfter hnew'
      · rw [ih hfore hfore']

/-! ## The record that a history tells of -/

/-- A change that is neither a mark of the resource nor a file for it, nor sets the counts to zero,
does not show in the record. -/
theorem recordOf_concat_of_other (hmark : change ≠ .mark r) (hfile : change.fileFor? r = none)
    (hreset : change ≠ .reset) : recordOf r (front ++ [change]) = recordOf r front := by
  rw [recordOf, recordOf, List.rtakeWhile_concat_pos _ _ _ (by simpa using hreset),
    List.count_append, List.count_singleton, List.filterMap_append, List.filterMap_cons_none hfile]
  simp [hmark]

theorem recordOf_concat_mark : recordOf r (front ++ [.mark r]) = (recordOf r front).mark := by
  rw [recordOf, recordOf, Record.mark, List.rtakeWhile_concat_pos _ _ _ (by simp),
    List.count_append, List.count_singleton_self, List.filterMap_append]
  simp [List.filterMap_cons, Change.fileFor?]

theorem recordOf_concat_addFile (file : Path) :
    recordOf r (front ++ [.addFile r file]) = (recordOf r front).addFile file := by
  have hsame : Change.fileFor? r (.addFile r file) = some file := if_pos rfl
  rw [recordOf, recordOf, Record.addFile, List.rtakeWhile_concat_pos _ _ _ (by simp),
    List.count_append, List.filterMap_append, List.eraseDups_append,
    List.filterMap_cons_some hsame, List.filterMap_nil]
  simp only [List.mem_eraseDups, List.removeAll]
  split <;> simp_all [List.eraseDups_cons]

theorem recordOf_concat_reset : recordOf r (front ++ [.reset]) = (recordOf r front).reset := by
  rw [recordOf, recordOf, Record.reset, List.rtakeWhile_concat_neg _ _ _ (by simp),
    List.filterMap_append]
  simp [List.filterMap_cons, Change.fileFor?]

/-- What a change makes of the record that a history tells of is what the history with the change
tells of. -/
theorem Change.onRecord_recordOf (hevict : change ≠ .evict r) :
    change.onRecord r (some (recordOf r front)) = some (recordOf r (front ++ [change])) := by
  cases change with
  | register other =>
      rw [recordOf_concat_of_other (by simp) rfl (by simp), onRecord, Option.getD_some, ite_self]
  | mark other =>
      by_cases hother : r = other
      · rw [← hother, recordOf_concat_mark, onRecord, if_pos rfl, Option.map_some]
      · rw [recordOf_concat_of_other (by simpa using Ne.symm hother) rfl (by simp), onRecord,
          if_neg hother]
  | addFile other file =>
      by_cases hother : r = other
      · rw [← hother, recordOf_concat_addFile, onRecord, if_pos rfl, Option.map_some]
      · have hnone : fileFor? r (.addFile other file) = none := if_neg hother
        rw [recordOf_concat_of_other (by simp) hnone (by simp), onRecord, if_neg hother]
  | evict other =>
      have hother : r ≠ other := fun h => hevict (h ▸ rfl)
      rw [recordOf_concat_of_other (by simp) rfl (by simp), onRecord, if_neg hother]
  | reset => rw [recordOf_concat_reset, onRecord, Option.map_some]

/-! ## The record that a catalog has -/

/-- Which changes leave a resource known. -/
theorem Change.isSome_onRecord (change : Change) (r : Resource) (found : Option Record) :
    (change.onRecord r found).isSome = true ↔
      change = .register r ∨ found.isSome = true ∧ change ≠ .evict r := by
  cases change with
  | register other | mark other | addFile other _ | evict other =>
      by_cases hother : r = other
      · simp [onRecord, hother]
      · simp [onRecord, hother, Ne.symm hother]
  | reset => simp [onRecord]

/-- A resource is known if it has been registered and not evicted since. -/
theorem contains_after (history : List Change) (r : Resource) :
    (after history).contains r = true ↔ IsKnownAfter history r := by
  induction history using List.reverseRecOn with
  | nil => exact iff_of_false Bool.false_ne_true not_isKnownAfter_nil
  | append_singleton front change ih =>
      rw [after_concat, contains, Change.get?_apply, Change.isSome_onRecord,
        isKnownAfter_concat, ← ih, contains]

theorem not_isKnownAfter_iff : ¬ IsKnownAfter history r ↔ (after history).get? r = none := by
  rw [← contains_after, contains, Bool.not_eq_true, Option.isSome_eq_false_iff,
    Option.isNone_iff_eq_none]

/-- The record of a resource is the one that the history tells of. -/
theorem get?_after (history : List Change) (r : Resource) (record : Record) :
    (after history).get? r = some record ↔ Tells history r record := by
  induction history using List.reverseRecOn generalizing record with
  | nil =>
      refine iff_of_false nofun ?_
      rintro ⟨later, hlater, -⟩
      exact not_isSinceCreation_nil hlater
  | append_singleton front change ih =>
      rw [after_concat, Change.get?_apply]
      constructor
      · intro hget
        have hknown := (change.isSome_onRecord r _).mp (Option.isSome_of_mem hget)
        cases hfound : (after front).get? r with
        | none =>
            rw [hfound] at hget hknown
            obtain rfl := hknown.resolve_right nofun
            rw [Change.onRecord, if_pos rfl] at hget
            exact ⟨[], isSinceCreation_concat.mpr
              (.inl ⟨rfl, rfl, not_isKnownAfter_iff.mpr hfound⟩), (Option.some.inj hget).symm⟩
        | some found =>
            have hchange : change ≠ .evict r := by
              rintro rfl
              rcases hknown with hknown | hknown
              · cases hknown
              · exact hknown.2 rfl
            obtain ⟨later, hlater, rfl⟩ := (ih found).mp hfound
            rw [hfound, Change.onRecord_recordOf hchange] at hget
            exact ⟨later ++ [change],
              isSinceCreation_concat.mpr (.inr ⟨later, rfl, hlater, hchange⟩),
              (Option.some.inj hget).symm⟩
      · rintro ⟨later, hlater, rfl⟩
        rcases isSinceCreation_concat.mp hlater with ⟨rfl, rfl, hnew⟩
          | ⟨front, rfl, hfront, hchange⟩
        · rw [not_isKnownAfter_iff.mp hnew, Change.onRecord, if_pos rfl]
          rfl
        · rw [(ih _).mpr ⟨front, hfront, rfl⟩, Change.onRecord_recordOf hchange]

end

end Catalog

end ResourcePruner
