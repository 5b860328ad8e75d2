import ResourcePruner.Proofs.Definition.Again
import Mathlib.Data.List.Forall2

/-!
# Pruning in two steps

A definition file may lose some of its resources first and more of them later; it ends up as if all
had been removed at once (`Pruning.composes_ofLines`). The lines that stay are laid out as before,
less the groups that went (`Layout.ofLines_lines`). Two prunings of one layout are therefore
compared part by part, and a part that goes with fewer resources goes with more
(`Part.stays_of_stays`).
-/

namespace ResourcePruner

/-! ## Fewer and more -/

variable {fewer more doomed : Doomed}

theorem Group.isDropped_mono (hle : ∀ r, fewer r = true → more r = true) {group : Group}
    (hdrop : group.isDropped fewer = true) : group.isDropped more = true := by
  rw [isDropped, Bool.and_eq_true] at hdrop ⊢
  exact ⟨hdrop.1, List.all_eq_true.mpr fun r hr => hle r (List.all_eq_true.mp hdrop.2 r hr)⟩

theorem Group.doomedResources_of_isDropped {group : Group} (hdrop : group.isDropped doomed = true) :
    group.doomedResources doomed = group.declared := by
  rw [isDropped, Bool.and_eq_true] at hdrop
  exact List.filter_eq_self.mpr (List.all_eq_true.mp hdrop.2)

namespace Part

/-- A part that stays when more is removed stays when less is. -/
theorem stays_of_stays (hle : ∀ r, fewer r = true → more r = true) {part : Part}
    (hstays : part.stays more = true) : part.stays fewer = true := by
  cases part with
  | filler line => rfl
  | group g =>
      rw [stays, Bool.not_eq_true'] at hstays ⊢
      exact Bool.eq_false_iff.mpr fun hdrop =>
        Bool.eq_false_iff.mp hstays (Group.isDropped_mono hle hdrop)

theorem kept_of_not_stays {part : Part} (hgoes : part.stays doomed = false) :
    part.kept doomed = [] := by
  rw [kept_eq_ite, hgoes, if_neg Bool.false_ne_true]

theorem shared_of_not_stays {part : Part} (hgoes : part.stays doomed = false) :
    part.shared doomed = [] := by
  cases part with
  | filler line => rfl
  | group g => rw [shared, if_pos (by simpa [stays] using hgoes)]

theorem removed_of_stays {part : Part} (hstays : part.stays doomed = true) :
    part.removed doomed = [] := by
  cases part with
  | filler line => rfl
  | group g => rw [removed, if_neg (by simpa [stays] using hstays)]

theorem droppedCount_of_stays {part : Part} (hstays : part.stays doomed = true) :
    part.droppedCount doomed = 0 := by
  cases part with
  | filler line => rfl
  | group g => rw [droppedCount, if_neg (by simpa [stays] using hstays)]

/-- What goes with fewer resources goes with more, as it is. -/
theorem removed_of_not_stays (hle : ∀ r, fewer r = true → more r = true) {part : Part}
    (hgoes : part.stays fewer = false) :
    part.removed fewer = part.removed more ∧ part.droppedCount fewer = part.droppedCount more := by
  cases part with
  | filler line => cases hgoes
  | group g =>
      have hdrop : g.isDropped fewer = true := by simpa [stays] using hgoes
      have hdrop' := Group.isDropped_mono hle hdrop
      simp only [removed, droppedCount, if_pos hdrop, if_pos hdrop',
        Group.doomedResources_of_isDropped hdrop, Group.doomedResources_of_isDropped hdrop',
        and_self]

end Part

namespace Pruning

/-- Elements that contribute nothing can be left out beforehand. -/
theorem flatMap_filter_of_eq_nil {α β : Type} {p : α → Bool} {f : α → List β} (l : List α)
    (hnil : ∀ a, p a = false → f a = []) : (l.filter p).flatMap f = l.flatMap f := by
  induction l with
  | nil => rfl
  | cons a rest ih =>
      rw [List.filter_cons, List.flatMap_cons]
      cases hp : p a with
      | true => simp only [if_true, List.flatMap_cons, ih]
      | false => simp only [Bool.false_eq_true, if_false, hnil a hp, List.nil_append, ih]

/-- A pruning and another one of what it leaves make up a third: they leave the same, and together
they take the same away. -/
structure Composes (first again once : Pruning) : Prop where
  lines : again.lines = once.lines
  shared : again.shared = once.shared
  unterminated : again.unterminated = once.unterminated
  removed : ∀ r, r ∈ once.removed ↔ r ∈ first.removed ∨ r ∈ again.removed
  droppedCount : first.droppedCount + again.droppedCount = once.droppedCount

theorem composes_ofLayout (hle : ∀ r, fewer r = true → more r = true) (layout : Layout) :
    Composes (ofLayout fewer layout)
      (ofLayout more ⟨layout.parts.filter (Part.stays fewer), layout.tail⟩)
        (ofLayout more layout) := by
  have hgoes : ∀ part : Part, part.stays fewer = false → part.stays more = false := fun part h =>
    Bool.eq_false_iff.mpr fun hstays => Bool.eq_false_iff.mp h (Part.stays_of_stays hle hstays)
  constructor
  case lines =>
    exact congrArg (· ++ layout.tailLines)
      (flatMap_filter_of_eq_nil layout.parts fun part h => Part.kept_of_not_stays (hgoes part h))
  case shared =>
    exact congrArg List.eraseDups
      (flatMap_filter_of_eq_nil layout.parts fun part h => Part.shared_of_not_stays (hgoes part h))
  case unterminated => rfl
  case removed =>
    intro r
    simp only [ofLayout, List.mem_eraseDups, List.mem_flatMap, List.mem_filter]
    constructor
    · rintro ⟨part, hpart, hr⟩
      cases hstays : part.stays fewer with
      | true => exact .inr ⟨part, ⟨hpart, hstays⟩, hr⟩
      | false => exact .inl ⟨part, hpart, (Part.removed_of_not_stays hle hstays).1 ▸ hr⟩
    · rintro (⟨part, hpart, hr⟩ | ⟨part, ⟨hpart, -⟩, hr⟩)
      · cases hstays : part.stays fewer with
        | true => rw [Part.removed_of_stays hstays] at hr; cases hr
        | false => exact ⟨part, hpart, (Part.removed_of_not_stays hle hstays).1 ▸ hr⟩
      · exact ⟨part, hpart, hr⟩
  case droppedCount =>
    simp only [ofLayout]
    induction layout.parts with
    | nil => rfl
    | cons part rest ih =>
        rw [List.filter_cons, List.map_cons, List.map_cons, List.sum_cons, List.sum_cons, ← ih]
        cases hstays : part.stays fewer with
        | true =>
            simp only [if_true, List.map_cons, List.sum_cons, Part.droppedCount_of_stays hstays]
            omega
        | false =>
            simp only [Bool.false_eq_true, if_false, (Part.removed_of_not_stays hle hstays).2]
            omega

/-- Once pruned, a file has nothing more to lose of the same resources. -/
theorem ofLayout_filter_stays (doomed : Doomed) (layout : Layout) :
    ofLayout doomed ⟨layout.parts.filter (Part.stays doomed), layout.tail⟩
      = { ofLayout doomed layout with removed := [], droppedCount := 0 } := by
  have hcomposes :=
    composes_ofLayout (show ∀ r, doomed r = true → doomed r = true from fun _ h => h) layout
  have hstays : ∀ part ∈ layout.parts.filter (Part.stays doomed), part.stays doomed = true :=
    fun part hpart => (List.mem_filter.mp hpart).2
  have hremoved : (layout.parts.filter (Part.stays doomed)).flatMap (Part.removed doomed) = [] :=
    List.flatMap_eq_nil_iff.mpr fun part hpart => Part.removed_of_stays (hstays part hpart)
  have hcount := hcomposes.droppedCount
  refine Pruning.mk.injEq .. |>.mpr ⟨hcomposes.lines, ?_, ?_, rfl, hcomposes.shared⟩
  · rw [hremoved]
    rfl
  · exact Nat.add_left_cancel (hcount.trans (Nat.add_zero _).symm)

/-- Line by line, what goes with fewer resources goes with more. -/
theorem marked_mono (hle : ∀ r, fewer r = true → more r = true) (lines : List Text) :
    List.Forall₂ (fun less all => less.1 = all.1 ∧ (less.2 = false → all.2 = false))
      (marked fewer lines) (marked more lines) := by
  have hpart : ∀ part : Part, List.Forall₂
      (fun less all => less.1 = all.1 ∧ (less.2 = false → all.2 = false))
      (part.marked fewer) (part.marked more) := by
    intro part
    refine List.forall₂_map_left_iff.mpr (List.forall₂_map_right_iff.mpr
      (List.forall₂_same.mpr fun line _ => ⟨rfl, fun hgoes => ?_⟩))
    cases part with
    | filler _ => cases hgoes
    | group g =>
        rw [Bool.not_eq_false'] at hgoes ⊢
        exact Group.isDropped_mono hle hgoes
  unfold marked
  refine List.rel_append ?_ (List.forall₂_same.mpr fun mark _ => ⟨rfl, id⟩)
  exact List.rel_flatMap (List.forall₂_same.mpr fun _ _ => rfl) fun part _ h => h ▸ hpart part

/-- **Pruning composes.** Removing some resources first and more of them from what is left is
removing all of them at once. So removing the same once more takes nothing away, and a line that
goes with fewer resources goes with more. -/
theorem composes_ofLines (hle : ∀ r, fewer r = true → more r = true) (lines : List Text) :
    Composes (ofLines fewer lines) (ofLines more (ofLines fewer lines).lines) (ofLines more lines)
      ∧ (∀ doomed, ofLines doomed (ofLines doomed lines).lines
          = { ofLines doomed lines with removed := [], droppedCount := 0 })
      ∧ (∀ doomed, (marked doomed lines).map Prod.fst = lines
          ∧ (ofLines doomed lines).lines = ((marked doomed lines).filter Prod.snd).map Prod.fst)
      ∧ List.Forall₂ (fun less all => less.1 = all.1 ∧ (less.2 = false → all.2 = false))
          (marked fewer lines) (marked more lines) := by
  refine ⟨?_, fun doomed => ?_, fun doomed => ⟨map_fst_marked doomed lines, lines_eq doomed lines⟩,
    marked_mono hle lines⟩
  · have hlayout := composes_ofLayout hle (Layout.ofLines lines)
    rwa [← Layout.ofLines_lines] at hlayout
  · rw [ofLines, Layout.ofLines_lines]
    exact ofLayout_filter_stays doomed (Layout.ofLines lines)

/-- A file whose second declaration runs over two lines. -/
def threeStrings : List Text :=
  [Text.ofString "<resources>\n", Text.ofString "<string name=\"a\">A</string>\n",
    Text.ofString "<string name=\"b\">B\n", Text.ofString "</string><string name=\"c\"/>\n",
    Text.ofString "</resources>\n"]

theorem composes_threeStrings :
    let named : Doomed := fun r => r.category == .string && r.name == Text.ofString "a"
    let strings : Doomed := fun r => r.category == .string
    (∀ r, named r = true → strings r = true)
      ∧ (ofLines named threeStrings).droppedCount = 1
      ∧ (ofLines strings threeStrings).droppedCount = 3
      ∧ Composes (ofLines named threeStrings) (ofLines strings (ofLines named threeStrings).lines)
          (ofLines strings threeStrings) := by
  intro named strings
  have hle : ∀ r, named r = true → strings r = true := fun r h => (Bool.and_eq_true_iff.mp h).1
  exact ⟨hle, by decide, by decide, (composes_ofLines hle threeStrings).1⟩

end Pruning

end ResourcePruner
