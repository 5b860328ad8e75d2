import Mathlib.Data.List.TakeWhile
import ResourcePruner.Proofs.Text.Lines
import ResourcePruner.Text.Blank

/-!
# Parts of a text

A text is cut at its line feeds part by part: what stands behind a line feed is cut as if it stood
alone (`Text.withUniformBreaks_append`, `Text.splitAt_append`). Trimming keeps a text whose ends are
not blank and leaves nothing of one that is blank throughout (`Text.trim_eq_self`,
`Text.trim_of_blank`).
-/

namespace ResourcePruner.Text

/-! ## Cutting at line feeds -/

/-- The text is empty, or a line feed ends it. -/
def AreLines (text : Text) : Prop :=
  text = [] ∨ ∃ front, text = front ++ [.char '\n']

theorem AreLines.append {text more : Text} (htext : AreLines text) (hmore : AreLines more) :
    AreLines (text ++ more) := by
  rcases hmore with rfl | ⟨front, rfl⟩
  · rwa [List.append_nil]
  · exact .inr ⟨text ++ front, (List.append_assoc ..).symm⟩

theorem withUniformBreaks_return {s : Symbol} (hs : s ≠ '\n') (rest : Text) :
    withUniformBreaks (.char '\r' :: s :: rest) = .char '\n' :: withUniformBreaks (s :: rest) := by
  rw [withUniformBreaks]
  rintro more h
  exact hs (List.cons.inj h).1

/-- A line feed keeps what is before it from what is after it. -/
theorem withUniformBreaks_append (front back : Text) :
    withUniformBreaks (front ++ .char '\n' :: back)
      = withUniformBreaks (front ++ [.char '\n']) ++ withUniformBreaks back := by
  fun_induction withUniformBreaks front with
  | case1 => rfl
  | case2 rest ih => exact congrArg (.char '\n' :: ·) ih
  | case3 rest hfeed ih =>
      cases rest with
      | nil => rfl
      | cons s more =>
          have hs : s ≠ '\n' := fun h => hfeed more (by rw [h])
          simp only [List.cons_append, withUniformBreaks_return hs] at ih ⊢
          rw [ih]
  | case4 s rest hreturn hne ih =>
      rw [List.cons_append, withUniformBreaks_cons hne, ih, List.cons_append,
        withUniformBreaks_cons hne]
      rfl

theorem withUniformBreaks_of_not_mem {text : Text} (htext : .char '\r' ∉ text) :
    withUniformBreaks text = text := by
  induction text with
  | nil => rfl
  | cons s rest ih =>
      rw [List.mem_cons, not_or] at htext
      rw [withUniformBreaks_cons fun h => htext.1 h.symm, ih htext.2]

theorem exists_withUniformBreaks_eq (front : Text) :
    ∃ body, withUniformBreaks (front ++ [.char '\n']) = body ++ [.char '\n'] := by
  fun_induction withUniformBreaks front with
  | case1 => exact ⟨[], rfl⟩
  | case2 rest ih =>
      obtain ⟨body, ih⟩ := ih
      refine ⟨.char '\n' :: body, ?_⟩
      rw [List.cons_append, List.cons_append, withUniformBreaks, ih]
      rfl
  | case3 rest hfeed ih =>
      cases rest with
      | nil => exact ⟨[], rfl⟩
      | cons s more =>
          have hs : s ≠ '\n' := fun h => hfeed more (by rw [h])
          obtain ⟨body, ih⟩ := ih
          refine ⟨.char '\n' :: body, ?_⟩
          rw [List.cons_append] at ih
          rw [List.cons_append, List.cons_append, withUniformBreaks_return hs, ih]
          rfl
  | case4 s rest hreturn hne ih =>
      obtain ⟨body, ih⟩ := ih
      refine ⟨s :: body, ?_⟩
      rw [List.cons_append, withUniformBreaks_cons hne, ih]
      rfl

theorem splitAt_ne_nil (separator : Symbol) (text : Text) : splitAt separator text ≠ [] := by
  cases text with
  | nil => exact List.cons_ne_nil [] []
  | cons s rest =>
      rw [splitAt]
      split
      · exact List.cons_ne_nil [] _
      · cases splitAt separator rest with
        | nil => exact List.cons_ne_nil [s] []
        | cons piece others => exact List.cons_ne_nil (s :: piece) others

theorem splitAt_append (separator : Symbol) (front back : Text) :
    splitAt separator (front ++ separator :: back)
      = splitAt separator front ++ splitAt separator back := by
  induction front with
  | nil =>
      simp [splitAt]
  | cons s front ih =>
      rw [List.cons_append, splitAt, splitAt, ih]
      split
      · rfl
      · obtain ⟨piece, others, hsplit⟩ :=
          List.exists_cons_of_ne_nil (splitAt_ne_nil separator front)
        rw [hsplit]
        rfl

theorem splitAt_of_not_mem {separator : Symbol} {text : Text} (htext : separator ∉ text) :
    splitAt separator text = [text] := by
  induction text with
  | nil => rfl
  | cons s rest ih =>
      rw [List.mem_cons, not_or] at htext
      rw [splitAt, if_neg fun h => htext.1 h.symm, ih htext.2]

/-! ## Trimming -/

/-- A text between symbols that are not blank stays as it is. -/
theorem trim_eq_self {first last : Symbol} (hfirst : isBlank first = false)
    (hlast : isBlank last = false) (middle : Text) :
    trim (first :: (middle ++ [last])) = first :: (middle ++ [last]) := by
  have hstart (s : Symbol) (hs : isBlank s = false) (text : Text) : trimStart
      (s :: text) = s :: text :=
    List.dropWhile_cons_of_neg (by simp [hs])
  rw [trim, hstart first hfirst, List.reverse_cons, List.reverse_append, List.reverse_singleton,
    List.singleton_append, List.cons_append, hstart last hlast]
  simp

theorem trim_of_blank {text : Text} (hblank : ∀ s ∈ text, isBlank s = true) : trim text = [] := by
  have hstart : trimStart text = [] := List.dropWhile_eq_nil_iff.mpr hblank
  rw [trim, hstart]
  rfl

end ResourcePruner.Text
