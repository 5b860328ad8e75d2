import ResourcePruner.Json.Parser
import ResourcePruner.Json.Printer

/-!
# Numbers read back

A number takes all of a text up to a comma or a closing bracket, so that what is printed of one is
read back whatever comes after it (`Json.readAtom_printInt`, `Json.readAtom_numeral`). A whole
number has to be of no more digits than are read; a number with a fraction or an exponent is read as
it is spelled, which has to follow the grammar of numerals.
-/

namespace ResourcePruner.Json

/-! ## Where numbers end -/

/-- What may come after a value inside others: the end, a comma or a closing bracket. -/
def IsDelimited (rest : Text) : Prop :=
  ∀ s ∈ rest.head?, s = ',' ∨ s = ']' ∨ s = '}'

theorem isDelimited_nil : IsDelimited [] := fun _ h => nomatch h

/-- What is left does not go on with a digit, nor with one of some other symbols. -/
def Stops (others : List Symbol) (rest : Text) : Prop :=
  ∀ s ∈ rest.head?, Text.isDigit s = false ∧ s ∉ others

theorem IsDelimited.stops {rest : Text} (hrest : IsDelimited rest) : Stops
    ['.', 'e', 'E'] rest := by
  intro s hs
  rcases hrest s hs with rfl | rfl | rfl <;> decide

theorem Stops.mono {others fewer : List Symbol} {rest : Text} (hrest : Stops others rest)
    (hfewer : fewer ⊆ others) : Stops fewer rest :=
  fun s hs => ⟨(hrest s hs).1, fun hmem => (hrest s hs).2 (hfewer hmem)⟩

/-! ## Digits -/

/-- Some digits. -/
def AreDigits (digits : Text) : Prop :=
  digits ≠ [] ∧ ∀ s ∈ digits, Text.isDigit s = true

theorem spanDigits_append {digits rest : Text} (hdigits : ∀ s ∈ digits, Text.isDigit s = true)
    (hrest : Stops [] rest) : spanDigits (digits ++ rest) = (digits, rest) := by
  have hstop : rest.takeWhile Text.isDigit = [] ∧ rest.dropWhile Text.isDigit = rest := by
    cases rest with
    | nil => exact ⟨rfl, rfl⟩
    | cons s more =>
        have hs : ¬ Text.isDigit s = true := by simp [(hrest s rfl).1]
        exact ⟨List.takeWhile_cons_of_neg hs, List.dropWhile_cons_of_neg hs⟩
  rw [spanDigits, List.takeWhile_append_of_pos hdigits, List.dropWhile_append_of_pos hdigits,
    hstop.1, hstop.2, List.append_nil]

/-- Digits of which the first is a zero only if there are no others. -/
def AreWholeDigits (digits : Text) : Prop :=
  digits = "0" ∨ AreDigits digits ∧ digits.head? ≠ some (.char '0')

theorem AreWholeDigits.areDigits {digits : Text} (hdigits : AreWholeDigits digits) :
    AreDigits digits := by
  rcases hdigits with rfl | hdigits
  · exact ⟨by decide, by decide⟩
  · exact hdigits.1

theorem wholeDigits_append {digits rest : Text} (hdigits : AreWholeDigits digits)
    (hrest : Stops [] rest) : wholeDigits (digits ++ rest) = (digits, rest) := by
  rcases hdigits with rfl | ⟨⟨hnonempty, hall⟩, hzero⟩
  · rfl
  · obtain ⟨s, more, rfl⟩ := List.exists_cons_of_ne_nil hnonempty
    rw [List.cons_append, wholeDigits]
    · exact spanDigits_append hall hrest
    · rintro left h
      exact hzero (congrArg List.head? (congrArg (List.take 1) h))

/-! ## Fractions and exponents -/

/-- Nothing, or a point and digits. -/
inductive IsFraction : Text → Prop
  | nil : IsFraction []
  | point {digits : Text} (hdigits : AreDigits digits) : IsFraction ('.' :: digits)

theorem spanFraction_append {fraction rest : Text} (hfraction : IsFraction fraction)
    (hrest : Stops ['.'] rest) : spanFraction (fraction ++ rest) = (fraction, rest) := by
  cases hfraction with
  | nil =>
      rw [List.nil_append, spanFraction]
      rintro more rfl
      exact (hrest '.' rfl).2 List.mem_cons_self
  | point hdigits =>
      rw [List.cons_append, spanFraction, spanDigits_append hdigits.2 (hrest.mono (by simp))]
      obtain ⟨s, more, rfl⟩ := List.exists_cons_of_ne_nil hdigits.1
      rfl

/-- Nothing, or a letter and digits between which a sign may stand. -/
inductive IsExponent : Text → Prop
  | nil : IsExponent []
  | power {e : Symbol} {sign digits : Text} (he : e = 'e' ∨ e = 'E')
      (hsign : sign = [] ∨ sign = "+" ∨ sign = "-") (hdigits : AreDigits digits) :
      IsExponent (e :: sign ++ digits)

theorem spanExponent_append {exponent rest : Text} (hexponent : IsExponent exponent)
    (hrest : Stops ['e', 'E'] rest) : spanExponent (exponent ++ rest) = (exponent, rest) := by
  cases hexponent with
  | nil =>
      cases rest with
      | nil => rfl
      | cons s more =>
          have hs := (hrest s rfl).2
          rw [List.nil_append, spanExponent, if_neg]
          simpa using hs
  | @power e sign digits he hsign hdigits =>
      have hspan := spanDigits_append hdigits.2 (hrest.mono (by simp))
      obtain ⟨d, more, rfl⟩ := List.exists_cons_of_ne_nil hdigits.1
      have hd := hdigits.2 d List.mem_cons_self
      have hsigned : ((sign ++ (d :: more ++ rest)).take 1).filter
          (fun s : Symbol => s = '+' || s = '-')
          = sign := by
        rcases hsign with rfl | rfl | rfl
        · have hplus : d ≠ '+' := by rintro rfl; exact absurd hd (by decide)
          have hminus : d ≠ '-' := by rintro rfl; exact absurd hd (by decide)
          simp [hplus, hminus]
        · rfl
        · rfl
      rw [List.cons_append, List.cons_append, List.append_assoc, spanExponent,
        if_pos (by simpa using he)]
      simp only [hsigned, List.drop_left, hspan]
      rfl

/-! ## Numbers -/

theorem IsFraction.stops {fraction rest : Text} (hfraction : IsFraction fraction)
    (hrest : Stops [] rest) : Stops [] (fraction ++ rest) := by
  cases hfraction with
  | nil => exact hrest
  | point hdigits => exact fun s hs => by cases hs; decide

theorem IsExponent.stops {exponent rest : Text} (hexponent : IsExponent exponent)
    (hrest : Stops ['.'] rest) : Stops ['.'] (exponent ++ rest) := by
  cases hexponent with
  | nil => exact hrest
  | power he hsign hdigits => exact fun s hs => by cases hs; rcases he with rfl | rfl <;> decide

/-- A minus sign, if the number is negative. -/
def signOf (negative : Bool) : Text :=
  if negative then "-" else ""

theorem readNumber_eq {negative : Bool} {whole fraction exponent rest : Text}
    (hwhole : AreWholeDigits whole) (hfraction : IsFraction fraction)
    (hexponent : IsExponent exponent) (hrest : IsDelimited rest) :
    readNumber (signOf negative ++ (whole ++ (fraction ++ (exponent ++ rest)))) =
      if fraction = [] && exponent = [] then
        if Text.maxDigits < whole.length then
          .error (.tooLong whole.length)
        else
          .ok
            (.int (if negative then -Text.decimalNumber whole else Text.decimalNumber whole), rest)
      else
        .ok (.real (signOf negative ++ whole ++ fraction ++ exponent), rest) := by
  have hexponentStops := hexponent.stops (hrest.stops.mono (by simp))
  have hspanWhole := wholeDigits_append hwhole (hfraction.stops (hexponentStops.mono (by simp)))
  have hspanFraction := spanFraction_append hfraction hexponentStops
  have hspanExponent := spanExponent_append hexponent (hrest.stops.mono (by simp))
  obtain ⟨d, more, rfl⟩ := List.exists_cons_of_ne_nil hwhole.areDigits.1
  have hd : d ≠ '-' := by
    rintro rfl
    exact absurd (hwhole.areDigits.2 '-' List.mem_cons_self) (by decide)
  have hnegative : (Text.ofString "-").isPrefixOf
      (signOf negative ++ (d :: more ++ (fraction ++ (exponent ++ rest)))) = negative := by
    cases negative with
    | true => rfl
    | false => simp [signOf, Text.ofString, Text.ofChars, List.isPrefixOf, hd.symm]
  have hunsigned : (if negative then
        (signOf negative ++ (d :: more ++ (fraction ++ (exponent ++ rest)))).drop 1
      else signOf negative ++ (d :: more ++ (fraction ++ (exponent ++ rest))))
        = d :: more ++ (fraction ++ (exponent ++ rest)) := by
    cases negative <;> rfl
  rw [readNumber]
  simp only [hnegative, hunsigned, hspanWhole, hspanFraction, hspanExponent]
  simp [signOf]

/-! ## Decimal numerals -/

theorem isDigit_of_mem_decimal {n : Nat} : ∀ s ∈ Text.decimal n, Text.isDigit s = true := by
  intro s hs
  obtain ⟨c, hc, rfl⟩ := List.mem_map.mp hs
  exact Nat.isDigit_of_mem_toDigits (by decide) (by decide) hc

theorem head?_toDigits_ne_zero {n : Nat} (hn : n ≠ 0) : (Nat.toDigits 10 n).head? ≠ some '0' := by
  induction n using Nat.strongRecOn with
  | ind n ih =>
      rcases Nat.lt_or_ge n 10 with hlt | hge
      · rw [Nat.toDigits_of_lt_base hlt]
        simpa [Nat.digitChar_eq_zero] using hn
      · rw [Nat.toDigits_of_base_le (by decide) hge,
          List.head?_append, Option.or_of_isSome (by simp [Nat.toDigits_ne_nil])]
        exact ih (n / 10) (by omega) (by omega)

theorem areWholeDigits_decimal (n : Nat) : AreWholeDigits (Text.decimal n) := by
  by_cases hn : n = 0
  · subst hn
    exact .inl rfl
  · refine .inr ⟨⟨?_, isDigit_of_mem_decimal⟩, ?_⟩
    · simp [Text.decimal, Text.ofChars, Nat.toDigits_ne_nil]
    · intro hzero
      rw [Text.decimal, Text.ofChars, List.head?_map, Option.map_eq_some_iff] at hzero
      obtain ⟨c, hc, hzero⟩ := hzero
      cases hzero
      exact head?_toDigits_ne_zero hn hc

theorem foldl_decimal {chars : List Char} (hdigits : ∀ c ∈ chars, c.isDigit = true) (init : Nat) :
    (Text.ofChars chars).foldl
        (fun n s => if Text.isDigit s then 10 * n + (s.code - 0x30) else n) init
      = Nat.ofDigitChars 10 chars init := by
  induction chars generalizing init with
  | nil => rfl
  | cons c chars ih =>
      obtain ⟨hc, hdigits⟩ := List.forall_mem_cons.mp hdigits
      have hfirst : Text.isDigit (.char c) = true := hc
      rw [Text.ofChars, List.map_cons, List.foldl_cons, if_pos hfirst]
      exact ih hdigits _

theorem decimalNumber_decimal (n : Nat) : Text.decimalNumber (Text.decimal n) = n := by
  rw [Text.decimalNumber, Text.decimal,
    foldl_decimal (fun c hc => Nat.isDigit_of_mem_toDigits (by decide) (by decide) hc)]
  exact Nat.ofDigitChars_toDigits (by decide) (by decide)

/-! ## Numbers among words -/

/-- What begins with a digit, after a minus sign if there is one, is none of the words. -/
theorem readAtom_eq_readNumber {negative : Bool} {digits : Text} (hdigits : AreDigits digits)
    (rest : Text) :
    readAtom (signOf negative ++ (digits ++ rest))
      = readNumber (signOf negative ++ (digits ++ rest)) := by
  obtain ⟨d, more, rfl⟩ := List.exists_cons_of_ne_nil hdigits.1
  have hd := hdigits.2 d List.mem_cons_self
  have hletter : ∀ s : Symbol, Text.isDigit s = false → s ≠ d := by
    rintro s hs rfl
    rw [hd] at hs
    cases hs
  have hword : words.find? (·.1.isPrefixOf (signOf negative ++ (d :: more ++ rest))) = none := by
    rw [List.find?_eq_none]
    cases negative <;>
      simp [words, signOf, Text.ofString, Text.ofChars,
        hletter 'n' (by decide), hletter 't' (by decide), hletter 'f' (by decide),
        hletter 'N' (by decide), hletter 'I' (by decide), hletter '-' (by decide)]
  rw [readAtom]
  exact hword ▸ rfl

theorem readAtom_printInt {n : Int} (hn : (Text.decimal n.natAbs).length ≤ Text.maxDigits)
    {rest : Text} (hrest : IsDelimited rest) :
    readAtom (printInt n ++ rest) = .ok (.int n, rest) := by
  have hread (negative : Bool) (m : Nat) (hm : (Text.decimal m).length ≤ Text.maxDigits) :
      readAtom (signOf negative ++ (Text.decimal m ++ rest))
        = .ok (.int (if negative then -m else m), rest) := by
    have hwhole := areWholeDigits_decimal m
    rw [readAtom_eq_readNumber hwhole.areDigits]
    exact (readNumber_eq hwhole .nil .nil hrest).trans
      (by rw [if_pos (by rfl), if_neg (Nat.not_lt.mpr hm), decimalNumber_decimal])
  cases n with
  | ofNat m => exact hread false m hn
  | negSucc m => exact hread true (m + 1) hn

/-- A numeral with a fraction or an exponent. -/
inductive IsNumeral : Text → Prop
  | mk (negative : Bool) {whole fraction exponent : Text} (hwhole : AreWholeDigits whole)
      (hfraction : IsFraction fraction) (hexponent : IsExponent exponent)
      (hreal : ¬ (fraction = [] ∧ exponent = [])) :
      IsNumeral (signOf negative ++ whole ++ fraction ++ exponent)

theorem readAtom_numeral {spelling : Text} (hspelling : IsNumeral spelling) {rest : Text}
    (hrest : IsDelimited rest) : readAtom (spelling ++ rest) = .ok (.real spelling, rest) := by
  obtain ⟨negative, hwhole, hfraction, hexponent, hreal⟩ := hspelling
  rw [List.append_assoc, List.append_assoc, List.append_assoc,
    readAtom_eq_readNumber hwhole.areDigits, readNumber_eq hwhole hfraction hexponent hrest,
    if_neg (by simpa using hreal)]

end ResourcePruner.Json
