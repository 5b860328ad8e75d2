import ResourcePruner.Text.Symbol

/-!
# Text

Lines, file contents and names are lists of symbols, so that positions count symbols and the laws of
lists apply. This module holds the search that everything else is built on: the first place of a
text from which on a condition holds (`Text.firstSuffix?`), and with it the first occurrence of a
given text (`Text.indexOf?`).

Main statements: `Text.firstSuffix?_eq_some_iff` (the found place is the least one) and
`Text.firstSuffix?_eq_none_iff` (nothing is found exactly when there is no such place).
-/

namespace ResourcePruner

/-- A piece of text as the list of its symbols. -/
abbrev Text := List Symbol

namespace Text

/-- The text of some characters. -/
def ofChars (chars : List Char) : Text := chars.map .char

/-- The text of a string. -/
def ofString (s : String) : Text := ofChars s.toList

instance : Coe String Text := ⟨ofString⟩

/-- The characters of a text; the replacement character stands in for each half of a surrogate
pair. -/
def shown (text : Text) : String :=
  String.ofList (text.map fun
    | .char c => c
    | .half _ => '\uFFFD')

/-- The number of symbols before the first suffix of a text that `p` accepts; the text itself and
the empty suffix take part. -/
def firstSuffix? (p : Text → Bool) : Text → Option Nat
  | [] => if p [] then some 0 else none
  | c :: rest => if p (c :: rest) then some 0 else (firstSuffix? p rest).map (· + 1)

theorem firstSuffix?_eq_some_iff {p : Text → Bool} {text : Text} {n : Nat} :
    firstSuffix? p text = some n ↔
      n ≤ text.length ∧ p (text.drop n) = true ∧ ∀ m < n, p (text.drop m) = false := by
  induction text generalizing n with
  | nil =>
    simp only [firstSuffix?, List.length_nil, Nat.le_zero, List.drop_nil]
    constructor
    · intro h
      split at h
      · rename_i here
        cases h
        exact ⟨rfl, here, by simp⟩
      · cases h
    · rintro ⟨rfl, here, -⟩
      simp [here]
  | cons c rest ih =>
    rw [firstSuffix?]
    split
    · rename_i here
      constructor
      · intro h
        cases h
        exact ⟨Nat.zero_le _, here, by simp⟩
      · rintro ⟨-, -, least⟩
        cases n with
        | zero => rfl
        | succ n =>
          have first := least 0 (Nat.succ_pos n)
          rw [List.drop_zero, here] at first
          cases first
    · rename_i here
      cases n with
      | zero =>
        simp only [Option.map_eq_some_iff, Nat.add_one_ne_zero, and_false, exists_const,
          List.drop_zero, here, Bool.false_eq_true, false_and]
      | succ n =>
        simp only [Option.map_eq_some_iff, Nat.add_right_cancel_iff, exists_eq_right, ih,
          List.length_cons, Nat.add_le_add_iff_right, List.drop_succ_cons]
        refine and_congr_right fun _ => and_congr_right fun _ => ?_
        constructor
        · intro least m hm
          cases m with
          | zero => simpa using here
          | succ m => exact least m (by omega)
        · intro least m hm
          exact least (m + 1) (by omega)

theorem firstSuffix?_eq_none_iff {p : Text → Bool} {text : Text} :
    firstSuffix? p text = none ↔ ∀ n ≤ text.length, p (text.drop n) = false := by
  induction text with
  | nil => simp [firstSuffix?]
  | cons c rest ih =>
    rw [firstSuffix?]
    split
    · rename_i here
      simp only [reduceCtorEq, false_iff]
      intro h
      simpa [here] using h 0 (Nat.zero_le _)
    · rename_i here
      rw [Option.map_eq_none_iff, ih]
      constructor
      · intro h n hn
        cases n with
        | zero => simpa using here
        | succ n => exact h n (by simpa using hn)
      · intro h n hn
        exact h (n + 1) (by simpa using hn)

/-- The first position at which `sought` occurs in a text. -/
def indexOf? (sought text : Text) : Option Nat :=
  firstSuffix? sought.isPrefixOf text

/-- The first position from `start` on at which `sought` occurs; none when `start` lies beyond the
end of the text. -/
def indexFrom? (sought text : Text) (start : Nat) : Option Nat :=
  if start ≤ text.length then (indexOf? sought (text.drop start)).map (start + ·) else none

/-- Whether `sought` occurs anywhere in a text. -/
def occursIn (sought text : Text) : Bool :=
  (indexOf? sought text).isSome

/-- Whether `n` lies in one of the closed ranges. -/
def inRanges (ranges : List (Nat × Nat)) (n : Nat) : Bool :=
  ranges.any fun range => range.1 ≤ n && n ≤ range.2

end Text

end ResourcePruner
