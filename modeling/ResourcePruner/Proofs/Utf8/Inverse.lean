import ResourcePruner.Proofs.Utf8

/-!
# Text written back

The text that the strict decoder reads has the bytes that were read (`Utf8.encode_of_decode?`):
there is one way only to spell a character. What carries the reading over the bytes is that whatever
ends an open sequence makes the bytes seen so far those of a character (`Utf8.Sequence.Leads`).
-/

namespace ResourcePruner.Utf8

/-! ## Open sequences -/

/-- A sequence that has taken in one more byte. -/
def Sequence.grown (s : Sequence) (b : UInt8) : Sequence :=
  ⟨s.seen ++ [b], s.bits * 64 + (b.toNat - 0x80), s.missing - 1, 0x80, 0xBF⟩

/-- However the sequence is ended by that many bytes, all of its bytes spell the character read. -/
def Sequence.Leads (s : Sequence) : Nat → Prop
  | 0 => False
  | 1 => ∀ b : UInt8, s.low ≤ b.toNat → b.toNat ≤ s.high →
      encodeChar (Char.ofNat (s.bits * 64 + (b.toNat - 0x80))) = s.seen ++ [b]
  | n + 2 => ∀ b : UInt8, s.low ≤ b.toNat → b.toNat ≤ s.high → (s.grown b).Leads (n + 1)

theorem ofNat_eq_of_toNat_eq {b : UInt8} {n : Nat} (hb : b.toNat = n) : UInt8.ofNat n = b := by
  rw [← hb, UInt8.ofNat_toNat]

/-- The bytes of the character of a number. -/
theorem encodeChar_ofNat {n : Nat} (hvalid : n < 0xD800 ∨ 0xDFFF < n ∧ n < 0x110000) :
    encodeChar (Char.ofNat n) =
      if n < 0x80 then [UInt8.ofNat n]
      else if n < 0x800 then [UInt8.ofNat (0xC0 + n / 64), UInt8.ofNat (0x80 + n % 64)]
      else if n < 0x10000 then
        [UInt8.ofNat (0xE0 + n / 4096), UInt8.ofNat (0x80 + n / 64 % 64),
          UInt8.ofNat (0x80 + n % 64)]
      else
        [UInt8.ofNat (0xF0 + n / 262144), UInt8.ofNat (0x80 + n / 4096 % 64),
          UInt8.ofNat (0x80 + n / 64 % 64), UInt8.ofNat (0x80 + n % 64)] := by
  have hn : (Char.ofNat n).toNat = n := by
    rw [Char.ofNat, dif_pos hvalid]
    rfl
  rw [encodeChar, hn]

/-- A byte that begins a sequence is seen in it, and bounds its next byte so that it leads to a
character. -/
theorem leads_of_begin? {b : UInt8} {s : Sequence} (hbegin : Sequence.begin? b = some s) :
    s.seen = [b] ∧ s.Leads s.missing := by
  simp only [Sequence.begin?] at hbegin
  split at hbegin
  · cases hbegin
  split at hbegin
  · cases hbegin
    refine ⟨rfl, fun c hlow hhigh => ?_⟩
    dsimp only at hlow hhigh ⊢
    rw [encodeChar_ofNat (by omega), if_neg (by omega), if_pos (by omega),
      ofNat_eq_of_toNat_eq (b := b) (by omega), ofNat_eq_of_toNat_eq (b := c) (by omega)]
    rfl
  split at hbegin
  · cases hbegin
    refine ⟨rfl, fun c hlow hhigh d hlow' hhigh' => ?_⟩
    dsimp only [Sequence.grown] at hlow hhigh hlow' hhigh' ⊢
    have hfirst : b.toNat = 0xE0 → 0xA0 ≤ c.toNat := fun h => by rwa [if_pos h] at hlow
    have hsecond : b.toNat = 0xED → c.toNat ≤ 0x9F := fun h => by rwa [if_pos h] at hhigh
    have hc : 0x80 ≤ c.toNat ∧ c.toNat ≤ 0xBF := by
      constructor
      · split at hlow <;> omega
      · split at hhigh <;> omega
    clear hlow hhigh
    rw [encodeChar_ofNat (by omega), if_neg (by omega), if_neg (by omega), if_pos (by omega),
      ofNat_eq_of_toNat_eq (b := b) (by omega), ofNat_eq_of_toNat_eq (b := c) (by omega),
      ofNat_eq_of_toNat_eq (b := d) (by omega)]
    rfl
  split at hbegin
  · cases hbegin
    refine ⟨rfl, fun c hlow hhigh d hlow' hhigh' e hlow'' hhigh'' => ?_⟩
    dsimp only [Sequence.grown] at hlow hhigh hlow' hhigh' hlow'' hhigh'' ⊢
    have hfirst : b.toNat = 0xF0 → 0x90 ≤ c.toNat := fun h => by rwa [if_pos h] at hlow
    have hsecond : b.toNat = 0xF4 → c.toNat ≤ 0x8F := fun h => by rwa [if_pos h] at hhigh
    have hc : 0x80 ≤ c.toNat ∧ c.toNat ≤ 0xBF := by
      constructor
      · split at hlow <;> omega
      · split at hhigh <;> omega
    clear hlow hhigh
    rw [encodeChar_ofNat (by omega), if_neg (by omega), if_neg (by omega), if_neg (by omega),
      ofNat_eq_of_toNat_eq (b := b) (by omega), ofNat_eq_of_toNat_eq (b := c) (by omega),
      ofNat_eq_of_toNat_eq (b := d) (by omega), ofNat_eq_of_toNat_eq (b := e) (by omega)]
    rfl
  · cases hbegin

/-! ## Bytes -/

theorem encode_cons (c : Char) (chars : List Char) :
    encode ((c :: chars).map .char) = encodeChar c ++ encode (chars.map .char) :=
  rfl

/-- Where the pieces are characters only, the bytes are those of the characters. -/
theorem append_eq_encode_of_piecesAfter {opened : Option Sequence} {bytes : Bytes}
    {chars : List Char}
    (hopened : ∀ s, opened = some s → s.Leads s.missing)
    (hpieces : piecesAfter opened bytes = chars.map .char) :
    ((opened.map Sequence.seen).getD []) ++ bytes = encode (chars.map .char) := by
  have hsome : ∀ {s : Sequence}, s.Leads s.missing → ∀ t, some s = some t → t.Leads t.missing := by
    rintro s hleads _ ⟨⟩
    exact hleads
  induction bytes generalizing opened chars with
  | nil =>
      cases opened with
      | none =>
          rw [List.map_eq_nil_iff.mp hpieces.symm]
          rfl
      | some s => cases chars <;> cases hpieces
  | cons b rest ih =>
      rw [piecesAfter_cons] at hpieces
      have hnone : ∀ {chars : List Char}, piecesAfter none rest = chars.map .char →
          rest = encode (chars.map .char) :=
        fun {chars} hrest => @ih none chars (by simp) hrest
      cases opened with
      | none =>
          simp only [step, start] at hpieces
          split at hpieces
          · rename_i hsmall
            cases chars with
            | nil => cases hpieces
            | cons c chars =>
                obtain ⟨hc, hrest⟩ := List.cons.inj hpieces
                obtain rfl := Piece.char.inj hc
                rw [encode_cons, ← hnone hrest, encodeChar_ofNat (by omega), if_pos hsmall,
                  UInt8.ofNat_toNat]
                rfl
          · split at hpieces
            · rename_i s hbegin
              obtain ⟨hseen, hleads⟩ := leads_of_begin? hbegin
              have hbytes := ih (hsome hleads) hpieces
              rwa [Option.map_some, Option.getD_some, hseen] at hbytes
            · cases chars <;> cases hpieces
      | some s =>
          have hleads := hopened s rfl
          by_cases hin : s.low ≤ b.toNat ∧ b.toNat ≤ s.high
          · rw [step_some hin.1 hin.2] at hpieces
            generalize hmissing : s.missing = n at hleads hpieces
            rcases n with _ | _ | n
            · exact hleads.elim
            · rw [if_pos (Nat.le_refl 1)] at hpieces
              cases chars with
              | nil => cases hpieces
              | cons c chars =>
                  obtain ⟨hc, hrest⟩ := List.cons.inj hpieces
                  obtain rfl := Piece.char.inj hc
                  rw [encode_cons, ← hnone hrest, hleads b hin.1 hin.2, List.append_assoc]
                  rfl
            · rw [if_neg (by omega)] at hpieces
              have hgrown : (s.grown b).missing = n + 1 := by
                rw [Sequence.grown, hmissing]
                rfl
              have hrest : piecesAfter (some (s.grown b)) rest = chars.map .char := by
                rw [Sequence.grown, hmissing]
                exact hpieces
              have hbytes := ih (hsome (hgrown ▸ hleads b hin.1 hin.2)) hrest
              rwa [Option.map_some, Option.getD_some, Sequence.grown, List.append_assoc] at hbytes
          · -- A byte that the sequence does not admit would have made the sequence a defect.
            have hdefect : step (some s) b
                = (.defect .invalidContinuation s.seen :: (start b).1, (start b).2) := by
              have hnot : (s.low ≤ b.toNat && b.toNat ≤ s.high) = false := by simpa using hin
              simp only [step, hnot]
              rfl
            rw [hdefect] at hpieces
            cases chars <;> cases hpieces

/-- **A text read strictly is written back as it was.** -/
theorem encode_of_decode? {bytes : Bytes} {text : Text} (hdecode : decode? bytes = .ok text) :
    encode text = bytes := by
  obtain ⟨chars, hpieces, rfl⟩ := decode?_eq_ok_iff.mp hdecode
  exact (@append_eq_encode_of_piecesAfter none _ _ (by simp) hpieces).symm

end ResourcePruner.Utf8
