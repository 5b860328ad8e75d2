import Mathlib.Algebra.Ring.Nat
import Mathlib.Tactic.Tauto
import ResourcePruner.Text.Digits
import ResourcePruner.Text.Order

/-!
# The order of numerals

Numerals of the same width stand in the order of their numbers (`Text.fixedDigits_lt_iff`), since
texts of the same length are compared part by part (`Text.append_lt_append_iff`). So fields of a
fixed width, written one after the other, are compared like the numbers in them.
-/

namespace ResourcePruner.Text

/-- Where the first parts are of the same length, they decide, and only if they are the same does
the rest. -/
theorem append_lt_append_iff {first second : Text} (hlength : first.length = second.length)
    (rest more : Text) :
    first ++ rest < second ++ more ↔ first < second ∨ first = second ∧ rest < more := by
  induction first generalizing second with
  | nil =>
      obtain rfl := List.eq_nil_of_length_eq_zero hlength.symm
      simp
  | cons s first ih =>
      cases second with
      | nil => cases hlength
      | cons t second =>
          rw [List.cons_append, List.cons_append, List.cons_lt_cons_iff, List.cons_lt_cons_iff,
            ih (Nat.succ.inj hlength), List.cons.injEq]
          tauto

theorem append_lt_append_left_iff (front rest more : Text) :
    front ++ rest < front ++ more ↔ rest < more := by
  rw [append_lt_append_iff rfl, or_iff_right (StrictOrder.irrefl front), and_iff_right rfl]

theorem digitChar_lt_iff {m n : Nat} (hm : m < 10) (hn : n < 10) :
    ([.char m.digitChar] : Text) < [.char n.digitChar] ↔ m < n := by
  have hall : ∀ m n : Fin 10, ([.char m.val.digitChar] : Text) < [.char n.val.digitChar] ↔
      m < n := by
    decide
  exact hall ⟨m, hm⟩ ⟨n, hn⟩

theorem digitChar_inj {m n : Nat} (hm : m < 10) (hn : n < 10) :
    m.digitChar = n.digitChar ↔ m = n := by
  have hall : ∀ m n : Fin 10, m.val.digitChar = n.val.digitChar ↔ m.val = n.val := by decide
  exact hall ⟨m, hm⟩ ⟨n, hn⟩

variable {width m n : Nat}

theorem fixedDigits_inj (hm : m < 10 ^ width) (hn : n < 10 ^ width) :
    fixedDigits 10 width m = fixedDigits 10 width n ↔ m = n := by
  refine ⟨fun heq => ?_, fun heq => heq ▸ rfl⟩
  induction width generalizing m n with
  | zero => omega
  | succ width ih =>
      rw [Nat.pow_succ] at hm hn
      rw [fixedDigits, fixedDigits] at heq
      obtain ⟨hfront, hlast⟩ := List.append_inj' heq rfl
      have hdigit : m % 10 = n % 10 :=
        (digitChar_inj (Nat.mod_lt _ (by decide)) (Nat.mod_lt _ (by decide))).mp
          (by simpa using hlast)
      have hrest : m / 10 = n / 10 := ih (by omega) (by omega) hfront
      omega

/-- Numerals of one width stand in the order of their numbers. -/
theorem fixedDigits_lt_iff (hm : m < 10 ^ width) (hn : n < 10 ^ width) :
    fixedDigits 10 width m < fixedDigits 10 width n ↔ m < n := by
  induction width generalizing m n with
  | zero =>
      refine iff_of_false (StrictOrder.irrefl _) ?_
      omega
  | succ width ih =>
      rw [Nat.pow_succ] at hm hn
      have hfirst : m / 10 < 10 ^ width := by omega
      have hsecond : n / 10 < 10 ^ width := by omega
      rw [fixedDigits, fixedDigits, append_lt_append_iff (by simp), ih hfirst hsecond,
        fixedDigits_inj hfirst hsecond,
        digitChar_lt_iff (Nat.mod_lt _ (by decide)) (Nat.mod_lt _ (by decide))]
      omega

/-- A field that begins two texts decides, unless it is the same in both. -/
theorem fixedDigits_append_lt_iff (hm : m < 10 ^ width) (hn : n < 10 ^ width) (rest more : Text) :
    fixedDigits 10 width m ++ rest < fixedDigits 10 width n ++ more ↔
      m < n ∨ m = n ∧ rest < more := by
  rw [append_lt_append_iff (by simp), fixedDigits_lt_iff hm hn, fixedDigits_inj hm hn]

end ResourcePruner.Text
