import Mathlib.Data.List.Chain
import ResourcePruner.Json.Parser
import ResourcePruner.Json.Printer

/-!
# Strings read back

A string that has been printed is read back as it was (`Json.readString_printed`), unless the second
half of a surrogate pair stands behind a first one in it: escaped, the two are one character. What
is printed is visible ASCII whatever the text (`Json.isVisible_printString`).
-/

namespace ResourcePruner

theorem Symbol.ofCode_code (s : Symbol) : ofCode s.code = s := by
  cases s with
  | char c =>
      have hvalid : c.toNat < 0xD800 ∨ 0xDFFF < c.toNat ∧ c.toNat < 0x110000 := c.valid
      rw [ofCode, dif_neg, code, Char.ofNat_toNat]
      rw [code, firstHalf]
      omega
  | half n =>
      have hcode : (half n).code - firstHalf = n := by
        rw [code]
        omega
      rw [ofCode, dif_pos ⟨hcode ▸ n.isLt, Nat.le_add_right _ _⟩]
      exact congrArg half (Fin.ext hcode)

theorem Symbol.code_lt (s : Symbol) : s.code < 0x110000 := by
  cases s with
  | char c =>
      have hvalid : c.toNat < 0xD800 ∨ 0xDFFF < c.toNat ∧ c.toNat < 0x110000 := c.valid
      rw [code]
      omega
  | half n =>
      rw [code, firstHalf]
      omega

namespace Text

/-! ## Hexadecimal digits -/

theorem hexValue?_digitChar {n : Nat} (hn : n < 16) :
    hexValue? (.char (Nat.digitChar n)) = some n := by
  have hall : ∀ digit : Fin 16,
      hexValue? (.char (Nat.digitChar digit)) = some digit.val := by decide
  exact hall ⟨n, hn⟩

theorem hexNumber?_fixedDigits (width n : Nat) :
    hexNumber? (fixedDigits 16 width n) = some (n % Nat.pow 16 width) := by
  induction width generalizing n with
  | zero => simp [fixedDigits, hexNumber?, Nat.mod_one]
  | succ width ih =>
      have hlast := hexValue?_digitChar (Nat.mod_lt n (show 0 < 16 by decide))
      have hpow : Nat.pow 16 (width + 1) = 16 * Nat.pow 16 width := Nat.mul_comm _ _
      have hsplit : n % Nat.pow 16 (width + 1) = 16 * (n / 16 % Nat.pow 16 width) + n % 16 := by
        rw [hpow, Nat.mod_mul, Nat.add_comm]
      have ih := ih (n / 16)
      rw [hexNumber?] at ih
      rw [fixedDigits, hexNumber?, List.foldlM_append, ih, hsplit]
      simp [hlast]

end Text

namespace Json

/-! ## Escapes -/

/-- A visible symbol of ASCII, or a blank. -/
def IsVisible (s : Symbol) : Prop :=
  0x20 ≤ s.code ∧ s.code < 0x7F

instance (s : Symbol) : Decidable (IsVisible s) := inferInstanceAs (Decidable (_ ∧ _))

/-- What a symbol becomes: a short escape, itself, or one or two escapes by number. -/
theorem escapeSymbol_cases (s : Symbol) :
    (∃ e, shortEscape? (.char e) = some s ∧ IsVisible (.char e) ∧ s.code < 0x10000
      ∧ escapeSymbol s = [.char '\\', .char e])
    ∨ (s ≠ '"' ∧ s ≠ '\\' ∧ IsVisible s ∧ escapeSymbol s = [s])
    ∨ (s.code < 0x10000 ∧ escapeSymbol s = unitEscape s.code)
    ∨ 0x10000 ≤ s.code ∧ escapeSymbol s = unitEscape (0xD800 + (s.code - 0x10000) / 0x400)
      ++ unitEscape (0xDC00 + (s.code - 0x10000) % 0x400) := by
  by_cases hquote : s = '"'
  · subst hquote
    exact .inl ⟨'"', rfl, by decide, by decide, rfl⟩
  by_cases hslash : s = '\\'
  · subst hslash
    exact .inl ⟨'\\', rfl, by decide, by decide, rfl⟩
  by_cases hfeed : s = '\n'
  · subst hfeed
    exact .inl ⟨'n', rfl, by decide, by decide, rfl⟩
  by_cases hreturn : s = '\r'
  · subst hreturn
    exact .inl ⟨'r', rfl, by decide, by decide, rfl⟩
  by_cases htab : s = '\t'
  · subst htab
    exact .inl ⟨'t', rfl, by decide, by decide, rfl⟩
  by_cases hback : s = '\x08'
  · subst hback
    exact .inl ⟨'b', rfl, by decide, by decide, rfl⟩
  by_cases hpage : s = '\x0c'
  · subst hpage
    exact .inl ⟨'f', rfl, by decide, by decide, rfl⟩
  rw [escapeSymbol, if_neg hquote, if_neg hslash, if_neg hfeed, if_neg hreturn, if_neg htab,
    if_neg hback, if_neg hpage]
  split
  · rename_i hvisible
    exact .inr (.inl ⟨hquote, hslash, by simpa [IsVisible] using hvisible, rfl⟩)
  split
  · rename_i hcode
    exact .inr (.inr (.inl ⟨hcode, rfl⟩))
  · rename_i hcode
    exact .inr (.inr (.inr ⟨Nat.le_of_not_lt hcode, rfl⟩))

/-- What the escapes of a symbol name: the symbol, or the halves of a surrogate pair if it is beyond
the first plane. -/
def units (s : Symbol) : Text :=
  if s.code < 0x10000 then [s]
  else [.ofCode (0xD800 + (s.code - 0x10000) / 0x400),
    .ofCode (0xDC00 + (s.code - 0x10000) % 0x400)]

theorem stringSymbols_unitEscape {n : Nat} (hn : n < 0x10000) (rest : Text) :
    stringSymbols (unitEscape n ++ rest)
      = (stringSymbols rest).map fun (symbols, left) => (.ofCode n :: symbols, left) := by
  have hdigits : ∃ a b c d, Text.fixedDigits 16 4 n = [a, b, c, d] := ⟨_, _, _, _, rfl⟩
  obtain ⟨a, b, c, d, hdigits⟩ := hdigits
  have hnumber := Text.hexNumber?_fixedDigits 4 n
  have hmod : n % Nat.pow 16 4 = n := Nat.mod_eq_of_lt hn
  rw [hdigits, hmod] at hnumber
  have htext : unitEscape n ++ rest = .char '\\' :: .char 'u' :: a :: b :: c :: d :: rest := by
    rw [unitEscape, hdigits]
    rfl
  rw [htext, stringSymbols, hnumber]

theorem stringSymbols_shortEscape {e : Char} {s : Symbol} (he : shortEscape? (.char e) = some s)
    (rest : Text) :
    stringSymbols (.char '\\' :: .char e :: rest)
      = (stringSymbols rest).map fun (symbols, left) => (s :: symbols, left) := by
  rw [stringSymbols]
  · rw [he]
  · rintro a b c d more h
    cases h
    cases he

theorem stringSymbols_plain {s : Symbol} (hquote : s ≠ '"') (hslash : s ≠ '\\')
    (hcode : 0x20 ≤ s.code)
    (rest : Text) :
    stringSymbols (s :: rest)
      = (stringSymbols rest).map fun (symbols, left) => (s :: symbols, left) := by
  rw [stringSymbols]
  · rw [if_neg]
    simp [hslash, Nat.not_lt.mpr hcode]
  · exact hquote
  · exact fun _ _ _ _ _ h => absurd h hslash
  · exact fun _ _ h => absurd h hslash

/-- Reading an escaped symbol yields its units. -/
theorem stringSymbols_escapeSymbol (s : Symbol) (rest : Text) :
    stringSymbols (escapeSymbol s ++ rest)
      = (stringSymbols rest).map fun (symbols, left) => (units s ++ symbols, left) := by
  have hunits : s.code < 0x10000 → units s = [s] := fun hs => if_pos hs
  obtain ⟨e, he, -, hcode, hescape⟩ | ⟨hquote, hslash, hvisible, hescape⟩ | ⟨hcode, hescape⟩
    | ⟨hcode, hescape⟩ := escapeSymbol_cases s
  · rw [hescape, hunits hcode]
    exact stringSymbols_shortEscape he rest
  · rw [hescape, hunits (Nat.lt_trans hvisible.2 (by decide))]
    exact stringSymbols_plain hquote hslash hvisible.1 rest
  · rw [hescape, stringSymbols_unitEscape hcode, s.ofCode_code, hunits hcode]
    rfl
  · have hlimit := s.code_lt
    have hpair : units s = [.ofCode (0xD800 + (s.code - 0x10000) / 0x400),
        .ofCode (0xDC00 + (s.code - 0x10000) % 0x400)] := if_neg (Nat.not_lt.mpr hcode)
    rw [hescape, hpair, List.append_assoc, stringSymbols_unitEscape (by omega),
      stringSymbols_unitEscape (by omega)]
    cases stringSymbols rest <;> rfl

theorem stringSymbols_escaped (text rest : Text) :
    stringSymbols (text.flatMap escapeSymbol ++ .char '"' :: rest)
      = .ok (text.flatMap units, rest) := by
  induction text with
  | nil => rfl
  | cons s text ih =>
      rw [List.flatMap_cons, List.append_assoc, stringSymbols_escapeSymbol, ih]
      rfl

/-! ## Surrogate pairs -/

/-- No second half of a surrogate pair stands right behind a first one. -/
def IsUnpaired : Text → Prop :=
  List.IsChain fun s t => pairedChar? s t = none

theorem isUnpaired_of_isHalf {text : Text} (hwhole : ∀ s ∈ text, s.isHalf = false) :
    IsUnpaired text := by
  induction text with
  | nil => exact .nil
  | cons s text ih =>
      obtain ⟨hs, hrest⟩ := List.forall_mem_cons.mp hwhole
      cases text with
      | nil => exact .singleton s
      | cons t rest =>
          refine List.isChain_cons_cons.mpr ⟨?_, ih hrest⟩
          cases s with
          | char c => rfl
          | half n => cases hs

theorem units_of_lt {s : Symbol} (hs : s.code < 0x10000) : units s = [s] :=
  if_pos hs

/-- What is beyond the first plane is made of its halves, the first of which completes no pair. -/
theorem exists_units_of_le {s : Symbol} (hs : 0x10000 ≤ s.code) :
    ∃ first second c, units s = [first, second] ∧ s = .char c ∧ pairedChar? first second = some c
      ∧ ∀ before, pairedChar? before first = none := by
  cases s with
  | half n =>
      have hn := n.isLt
      rw [Symbol.code, Symbol.firstHalf] at hs
      omega
  | char c =>
      have hcode : (Symbol.char c).code < 0x110000 := Symbol.code_lt _
      rw [Symbol.code] at hs hcode
      obtain ⟨n, hn⟩ : ∃ n, c.toNat = 0x10000 + n := Nat.exists_eq_add_of_le hs
      have hfirst : n / 0x400 < 0x400 := by omega
      have hsecond : n % 0x400 < 0x400 := Nat.mod_lt _ (by decide)
      refine ⟨.half ⟨n / 0x400, by omega⟩, .half ⟨0x400 + n % 0x400, by omega⟩, c, ?_, rfl, ?_, ?_⟩
      · rw [units, Symbol.code, if_neg (by omega), hn, Nat.add_sub_cancel_left,
          ← Symbol.ofCode_code (.half ⟨n / 0x400, _⟩),
          ← Symbol.ofCode_code (.half ⟨0x400 + n % 0x400, _⟩),
          Symbol.code, Symbol.code, Symbol.firstHalf, ← Nat.add_assoc]
      · have hsum : 0x10000 + n / 0x400 * 0x400 + n % 0x400 = c.toNat := by omega
        simp [pairedChar?, hfirst, hsum]
      · intro before
        cases before with
        | char _ => rfl
        | half m =>
            refine if_neg ?_
            simp only [Bool.and_eq_true, decide_eq_true_eq]
            omega

theorem exists_units_eq_cons (t : Symbol) :
    ∃ first more, units t = first :: more
      ∧ ∀ s, pairedChar? s t = none → pairedChar? s first = none := by
  rcases Nat.lt_or_ge t.code 0x10000 with ht | ht
  · exact ⟨t, [], units_of_lt ht, fun _ h => h⟩
  · obtain ⟨first, second, c, hunits, -, -, hfirst⟩ := exists_units_of_le ht
    exact ⟨first, [second], hunits, fun s _ => hfirst s⟩

theorem joinPairs_cons_of_none {s t : Symbol} (hpair : pairedChar? s t = none) (rest : Text) :
    joinPairs (s :: t :: rest) = s :: joinPairs (t :: rest) := by
  rw [joinPairs, hpair]

theorem joinPairs_cons_of_some {s t : Symbol} {c : Char} (hpair : pairedChar? s t = some c)
    (rest : Text) : joinPairs (s :: t :: rest) = .char c :: joinPairs rest := by
  rw [joinPairs, hpair]

/-- Put together again, the units of a text are the text. -/
theorem joinPairs_units {text : Text} (hunpaired : IsUnpaired text) :
    joinPairs (text.flatMap units) = text := by
  induction text with
  | nil => rfl
  | cons s rest ih =>
      have ih := ih hunpaired.tail
      rw [List.flatMap_cons]
      rcases Nat.lt_or_ge s.code 0x10000 with hs | hs
      · rw [units_of_lt hs]
        cases rest with
        | nil => rfl
        | cons t rest =>
            obtain ⟨first, more, hunits, hfirst⟩ := exists_units_eq_cons t
            have hpair := hfirst s (List.isChain_cons_cons.mp hunpaired).1
            rw [List.flatMap_cons, hunits] at ih ⊢
            exact (joinPairs_cons_of_none hpair _).trans (congrArg (s :: ·) ih)
      · obtain ⟨first, second, c, hunits, rfl, hpair, -⟩ := exists_units_of_le hs
        rw [hunits]
        exact (joinPairs_cons_of_some hpair _).trans (congrArg (.char c :: ·) ih)

/-- A string that has been printed is read back. -/
theorem readString_printed {text : Text} (hunpaired : IsUnpaired text) (rest : Text) :
    readString (text.flatMap escapeSymbol ++ .char '"' :: rest) = .ok (text, rest) := by
  rw [readString, stringSymbols_escaped]
  exact congrArg (fun joined => Except.ok (joined, rest)) (joinPairs_units hunpaired)

/-! ## What is printed can be seen -/

theorem isVisible_digitChar {n : Nat} (hn : n < 16) : IsVisible (.char (Nat.digitChar n)) := by
  have hall : ∀ digit : Fin 16, IsVisible (.char (Nat.digitChar digit)) := by decide
  exact hall ⟨n, hn⟩

theorem isVisible_unitEscape (n : Nat) : ∀ s ∈ unitEscape n, IsVisible s := by
  have hdigits : ∀ width n, ∀ s ∈ Text.fixedDigits 16 width n, IsVisible s := by
    intro width
    induction width with
    | zero => exact fun _ _ h => nomatch h
    | succ width ih =>
        intro n s hs
        rcases List.mem_append.mp hs with hs | hs
        · exact ih (n / 16) s hs
        · rw [List.mem_singleton.mp hs]
          exact isVisible_digitChar (Nat.mod_lt n (by decide))
  intro s hs
  rcases List.mem_append.mp hs with hs | hs
  · exact (by decide : ∀ s ∈ Text.ofString "\\u", IsVisible s) s hs
  · exact hdigits 4 n s hs

theorem isVisible_escapeSymbol (s : Symbol) : ∀ t ∈ escapeSymbol s, IsVisible t := by
  obtain ⟨e, -, hvisible, -, hescape⟩ | ⟨-, -, hvisible, hescape⟩ | ⟨-, hescape⟩ | ⟨-, hescape⟩ :=
    escapeSymbol_cases s <;> rw [hescape]
  · exact List.forall_mem_cons.mpr ⟨by decide, List.forall_mem_singleton.mpr hvisible⟩
  · exact List.forall_mem_singleton.mpr hvisible
  · exact isVisible_unitEscape s.code
  · exact List.forall_mem_append.mpr ⟨isVisible_unitEscape _, isVisible_unitEscape _⟩

theorem isVisible_printString (text : Text) : ∀ s ∈ printString text, IsVisible s := by
  have hquote : ∀ s ∈ Text.ofString "\"", IsVisible s := by decide
  refine List.forall_mem_append.mpr ⟨List.forall_mem_append.mpr ⟨hquote, fun t ht => ?_⟩, hquote⟩
  obtain ⟨s, -, ht⟩ := List.mem_flatMap.mp ht
  exact isVisible_escapeSymbol s t ht

end Json

end ResourcePruner
