import ResourcePruner.Text.Basic

/-!
# Digits

Numerals of a fixed width, padded with zeros, for dates and for the numbers of characters; and how
many digits a numeral may have to be read.
-/

namespace ResourcePruner.Text

/-- The last `width` digits of `n` in base `base`, small letters standing for digits beyond nine. -/
def fixedDigits (base : Nat) : (width n : Nat) → Text
  | 0, _ => []
  | width + 1, n => fixedDigits base width (n / base) ++ [.char (Nat.digitChar (n % base))]

@[simp] theorem length_fixedDigits (base width n : Nat) :
    (fixedDigits base width n).length = width := by
  induction width generalizing n with
  | zero => rfl
  | succ width ih => simp [fixedDigits, ih]

/-- Whether a symbol is one of the ten digits of ASCII. -/
def isDigit (s : Symbol) : Bool := s.satisfies Char.isDigit

/-- The number that digits write in decimal; all else counts for nothing. -/
def decimalNumber (digits : Text) : Nat :=
  digits.foldl (fun n s => if isDigit s then 10 * n + (s.code - 0x30) else n) 0

/-- A number in decimal. -/
def decimal (n : Nat) : Text := ofChars (Nat.toDigits 10 n)

/-- The value of a hexadecimal digit in either case. -/
def hexValue? (s : Symbol) : Option Nat :=
  if 0x30 ≤ s.code && s.code ≤ 0x39 then some (s.code - 0x30)
  else if 0x61 ≤ s.code && s.code ≤ 0x66 then some (s.code - 0x61 + 10)
  else if 0x41 ≤ s.code && s.code ≤ 0x46 then some (s.code - 0x41 + 10)
  else none

/-- The number written by hexadecimal digits, none when another symbol is among them. -/
def hexNumber? (digits : Text) : Option Nat :=
  digits.foldlM (fun n s => (hexValue? s).map (16 * n + ·)) 0

/-- The most digits that a whole number in decimal may have to be read. -/
def maxDigits : Nat := 4300

/-- What a numeral of too many digits is told. -/
def tooManyDigits (digits : Nat) : Text :=
  "Exceeds the limit (" ++ decimal maxDigits ++ " digits) for integer string conversion: " ++
    "value has " ++ decimal digits ++
    " digits; use sys.set_int_max_str_digits() to increase the limit"

end ResourcePruner.Text
