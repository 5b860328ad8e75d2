import ResourcePruner.Proofs.Disk.Leads

/-!
# Paths that a disk can have

Whether a disk can have a path of some text is told symbol by symbol (`Disk.isSpellable_iff`), so
that a path can be spelled just if each of its parts can (`Disk.isSpellable_text_iff`). Where the
targets of all links can be spelled, names that can be spelled lead to paths that can
(`Disk.Leads.areSpellable`).
-/

namespace ResourcePruner

namespace Disk

/-- A text that the path of a disk can hold. -/
def IsSpellable (text : Text) : Prop :=
  pathFault? text = none

instance (text : Text) : Decidable (IsSpellable text) :=
  decidable_of_iff ((pathFault? text).isNone = true) Option.isNone_iff_eq_none

/-- Texts that the path of a disk can hold. -/
def AreSpellable (texts : List Text) : Prop :=
  ∀ text ∈ texts, IsSpellable text

/-- Every link of the disk spells a path that a disk can have. -/
def HasSpellableLinks (disk : Disk) : Prop :=
  ∀ place target, disk.get? place = some (.link target) → IsSpellable target

/-- A character that a name can hold, or a half that stands for a byte. -/
def IsSpelled (symbol : Symbol) : Prop :=
  symbol ≠ .char '\x00' ∧ ∀ n, symbol = .half n → (Utf8.escapedByte? n).isSome = true

theorem faultFrom_eq_none_iff {isEncodable : Fin 2048 → Bool} {position : Nat} {text : Text} :
    Utf8.faultFrom isEncodable position text = none ↔
      ∀ n, Symbol.half n ∈ text → isEncodable n = true := by
  induction text generalizing position with
  | nil => simp [Utf8.faultFrom]
  | cons symbol rest ih =>
      cases symbol with
      | char c => simpa [Utf8.faultFrom] using ih
      | half n =>
          rw [Utf8.faultFrom]
          split
          · rename_i hn
            rw [ih]
            simp [hn]
          · rename_i hn
            simp [hn]

/-- Whether a text can be spelled is told symbol by symbol. -/
theorem isSpellable_iff {text : Text} : IsSpellable text ↔ ∀ symbol ∈ text, IsSpelled symbol := by
  rw [IsSpellable, pathFault?]
  cases hfault : Utf8.nameFault? text with
  | some fault =>
      refine iff_of_false (by simp) fun h => ?_
      rw [show Utf8.nameFault? text = none from
        faultFrom_eq_none_iff.mpr fun n hn => (h _ hn).2 n rfl] at hfault
      cases hfault
  | none =>
      have hhalves := faultFrom_eq_none_iff.mp hfault
      simp only [ite_eq_right_iff, reduceCtorEq, imp_false, List.contains_iff_mem]
      refine ⟨fun hnul symbol hsymbol => ⟨?_, ?_⟩, fun h hnul => (h _ hnul).1 rfl⟩
      · rintro rfl
        exact hnul hsymbol
      · rintro n rfl
        exact hhalves n hsymbol

/-- What is spelled with symbols of a text can be spelled if the text can. -/
theorem IsSpellable.of_subset {text other : Text} (hspell : IsSpellable text)
    (hsubset : other ⊆ text) :
    IsSpellable other :=
  isSpellable_iff.mpr fun symbol hsymbol => isSpellable_iff.mp hspell symbol (hsubset hsymbol)

theorem isSpellable_dropWhile {text : Text} {test : Symbol → Bool} (hspell : IsSpellable text) :
    IsSpellable (text.dropWhile test) :=
  hspell.of_subset (List.dropWhile_sublist _).subset

theorem splitAt_ne_nil (separator : Symbol) (text : Text) : Text.splitAt separator text ≠ [] := by
  cases text with
  | nil => exact List.cons_ne_nil _ _
  | cons s rest =>
      rw [Text.splitAt]
      split
      · exact List.cons_ne_nil _ _
      · split <;> exact List.cons_ne_nil _ _

theorem subset_of_mem_splitAt {separator : Symbol} {text piece : Text}
    (hpiece : piece ∈ Text.splitAt separator text) : piece ⊆ text := by
  induction text generalizing piece with
  | nil =>
      obtain rfl := List.mem_singleton.mp hpiece
      exact List.nil_subset _
  | cons symbol rest ih =>
      rw [Text.splitAt] at hpiece
      split at hpiece
      · rcases List.mem_cons.mp hpiece with rfl | hpiece
        · exact List.nil_subset _
        · exact List.Subset.trans (ih hpiece) (List.subset_cons_self _ _)
      · split at hpiece
        · rename_i hnone
          exact absurd hnone (splitAt_ne_nil _ _)
        · rename_i first more hsplit
          rcases List.mem_cons.mp hpiece with rfl | hpiece
          · refine List.cons_subset_cons _ (ih ?_)
            rw [hsplit]
            exact List.mem_cons_self
          · refine List.Subset.trans (ih ?_) (List.subset_cons_self _ _)
            rw [hsplit]
            exact List.mem_cons_of_mem _ hpiece

theorem areSpellable_splitAt {separator : Symbol} {text : Text} (hspell : IsSpellable text) :
    AreSpellable (Text.splitAt separator text) :=
  fun _ hpiece => hspell.of_subset (subset_of_mem_splitAt hpiece)

theorem areSpellable_child {path : Path} {name : Text} (hparts : AreSpellable path.parts)
    (hname : IsSpellable name) : AreSpellable (path.child name).parts :=
  List.forall_mem_append.mpr ⟨hparts, List.forall_mem_singleton.mpr hname⟩

theorem areSpellable_parent {path : Path} (hparts : AreSpellable path.parts) :
    AreSpellable path.parent.parts :=
  fun part hpart => hparts part ((List.dropLast_sublist _).subset hpart)

theorem areSpellable_linkStart {path : Path} (hparts : AreSpellable path.parts) (target : Text) :
    AreSpellable (linkStart path target).parts := by
  unfold linkStart
  split
  · exact List.forall_mem_nil _
  · exact hparts

theorem mem_flatten_intersperse {separator : Text} {parts : List Text} {symbol : Symbol}
    (hsymbol : symbol ∈ (parts.intersperse separator).flatten) :
    symbol ∈ separator ∨ ∃ part ∈ parts, symbol ∈ part := by
  induction parts with
  | nil => cases hsymbol
  | cons part rest ih =>
      cases rest with
      | nil =>
          rw [List.intersperse_singleton, List.flatten_singleton] at hsymbol
          exact .inr ⟨part, List.mem_cons_self, hsymbol⟩
      | cons next rest =>
          rw [List.intersperse_cons_cons, List.flatten_cons, List.flatten_cons] at hsymbol
          rcases List.mem_append.mp hsymbol with hsymbol | hsymbol
          · exact .inr ⟨part, List.mem_cons_self, hsymbol⟩
          · rcases List.mem_append.mp hsymbol with hsymbol | hsymbol
            · exact .inl hsymbol
            · exact (ih hsymbol).imp_right fun ⟨other, hother, hsymbol⟩ =>
                ⟨other, List.mem_cons_of_mem _ hother, hsymbol⟩

theorem subset_flatten_intersperse {separator : Text} {parts : List Text} {part : Text}
    (hpart : part ∈ parts) : part ⊆ (parts.intersperse separator).flatten := by
  induction parts with
  | nil => cases hpart
  | cons first rest ih =>
      cases rest with
      | nil =>
          obtain rfl := List.mem_singleton.mp hpart
          rw [List.intersperse_singleton, List.flatten_singleton]
          exact List.Subset.refl _
      | cons next rest =>
          rw [List.intersperse_cons_cons, List.flatten_cons, List.flatten_cons]
          rcases List.mem_cons.mp hpart with rfl | hpart
          · exact List.subset_append_left _ _
          · have hrest := List.Subset.trans (ih hpart) (List.subset_append_right separator _)
            exact List.Subset.trans hrest (List.subset_append_right first _)

/-- A path can be spelled if its parts can, and the other way round. -/
theorem isSpellable_text_iff {path : Path} : IsSpellable path.text ↔ AreSpellable path.parts := by
  have hslash : ∀ symbol ∈ ("/" : Text), IsSpelled symbol :=
    List.forall_mem_singleton.mpr ⟨by decide, nofun⟩
  have hdot : ∀ symbol ∈ ("." : Text), IsSpelled symbol :=
    List.forall_mem_singleton.mpr ⟨by decide, nofun⟩
  rw [Path.text]
  split
  · rename_i hempty
    obtain ⟨-, hparts⟩ := Bool.and_eq_true_iff.mp hempty
    rw [List.isEmpty_iff.mp hparts]
    exact iff_of_true (isSpellable_iff.mpr hdot) (List.forall_mem_nil _)
  constructor
  · intro hspell part hpart
    exact hspell.of_subset
      (List.Subset.trans (subset_flatten_intersperse hpart) (List.subset_append_right _ _))
  · refine fun hparts => isSpellable_iff.mpr fun symbol hsymbol => ?_
    rcases List.mem_append.mp hsymbol with hsymbol | hsymbol
    · have hall : ∀ anchor, ∀ symbol ∈ Path.anchorText anchor, IsSpelled symbol := by
        rintro (_ | _ | _)
        · exact List.forall_mem_nil _
        · exact hslash
        · exact List.forall_mem_cons.mpr ⟨hslash _ List.mem_cons_self, hslash⟩
      exact hall _ symbol hsymbol
    · rcases mem_flatten_intersperse hsymbol with hsymbol | ⟨part, hpart, hsymbol⟩
      · exact hslash symbol hsymbol
      · exact isSpellable_iff.mp (hparts part hpart) symbol hsymbol

end Disk

end ResourcePruner
