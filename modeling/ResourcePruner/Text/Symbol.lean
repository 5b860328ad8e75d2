import ResourcePruner.OrderedMap

/-!
# Symbols

What texts are made of. An escape can name half of a surrogate pair without the other half beside
it; such a half is no character, yet texts hold it as they hold characters. Symbols stand in the
order of their numbers.
-/

namespace ResourcePruner

/-- A character, or half of a surrogate pair that stands alone. -/
inductive Symbol where
  | char (c : Char)
  /-- The first halves are counted from 0 on, the second ones from 1024 on. -/
  | half (n : Fin 2048)
  deriving DecidableEq, Repr

namespace Symbol

instance : Coe Char Symbol := ⟨char⟩

/-- The number of the first half of a surrogate pair. -/
def firstHalf : Nat := 0xD800

/-- The number by which a symbol is put in order and escaped. -/
def code : Symbol → Nat
  | char c => c.toNat
  | half n => firstHalf + n

/-- The symbol of a number. -/
def ofCode (n : Nat) : Symbol :=
  if isHalf : n - firstHalf < 2048 ∧ firstHalf ≤ n then half ⟨n - firstHalf, isHalf.1⟩
  else char (Char.ofNat n)

/-- Whether a symbol is a character of which a condition holds. -/
def satisfies (p : Char → Bool) : Symbol → Bool
  | char c => p c
  | half _ => false

/-- Whether a symbol is half of a surrogate pair. -/
def isHalf : Symbol → Bool
  | char _ => false
  | half _ => true

theorem code_injective {a b : Symbol} (same : a.code = b.code) : a = b := by
  have apart (c : Char) (n : Fin 2048) : c.toNat ≠ firstHalf + n := by
    have valid : c.toNat < 0xD800 ∨ 0xDFFF < c.toNat ∧ c.toNat < 0x110000 := c.valid
    have small := n.isLt
    unfold firstHalf
    omega
  cases a with
  | char c =>
    cases b with
    | char d => exact congrArg char (Char.toNat_inj.1 same)
    | half m => exact absurd same (apart c m)
  | half n =>
    cases b with
    | char d => exact absurd same.symm (apart d n)
    | half m => exact congrArg half (Fin.ext (Nat.add_left_cancel same))

instance : LT Symbol := ⟨fun a b => a.code < b.code⟩

instance : StrictOrder Symbol where
  decideLess := fun a b => inferInstanceAs (Decidable (a.code < b.code))
  decideSame := inferInstance
  irrefl a := Nat.lt_irrefl a.code
  trans := Nat.lt_trans
  connected {_ _} not_less different :=
    Nat.lt_of_le_of_ne (Nat.le_of_not_lt not_less) fun same => different (code_injective same.symm)

end Symbol

end ResourcePruner
