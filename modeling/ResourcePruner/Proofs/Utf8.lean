import ResourcePruner.Utf8

/-!
# Bytes read back

The bytes of a text that holds no halves of surrogate pairs spell that text again
(`Utf8.decode?_encode`), and where the strict decoder accepts bytes, the other one reads the same
text (`Utf8.decodeReplacing_of_decode?`).
-/

namespace ResourcePruner.Utf8

/-! ## Characters -/

theorem toNat_ofNat_of_lt {n : Nat} (hn : n < 256) : (UInt8.ofNat n).toNat = n := by
  rw [UInt8.toNat_ofNat', Nat.mod_eq_of_lt hn]

theorem piecesAfter_cons (opened : Option Sequence) (b : UInt8) (rest : Bytes) :
    piecesAfter opened (b :: rest) = (step opened b).1 ++ piecesAfter (step opened b).2 rest :=
  rfl

/-- A byte that a sequence admits goes on with it. -/
theorem step_some {s : Sequence} {b : UInt8} (hlow : s.low ≤ b.toNat) (hhigh : b.toNat ≤ s.high) :
    step (some s) b =
      if s.missing ≤ 1 then ([.char (Char.ofNat (s.bits * 64 + (b.toNat - 0x80)))], none)
      else
        ([], some ⟨s.seen ++ [b], s.bits * 64 + (b.toNat - 0x80), s.missing - 1, 0x80, 0xBF⟩) := by
  simp [step, hlow, hhigh]

/-- The last byte of a sequence closes it. -/
theorem piecesAfter_last {s : Sequence} {n : Nat} {c : Char} (hn : n < 64)
    (hlow : s.low ≤ 0x80 + n) (hhigh : 0x80 + n ≤ s.high) (hmissing : s.missing = 1)
    (hbits : s.bits * 64 + n = c.toNat) (rest : Bytes) :
    piecesAfter (some s) (UInt8.ofNat (0x80 + n) :: rest) = .char c :: piecesAfter none rest := by
  have hb : (UInt8.ofNat (0x80 + n)).toNat = 0x80 + n := toNat_ofNat_of_lt (by omega)
  rw [piecesAfter_cons, step_some (by omega) (by omega), if_pos (by omega), hb,
    Nat.add_sub_cancel_left, hbits, Char.ofNat_toNat]
  rfl

/-- A byte that is not the last of a sequence is taken into it. -/
theorem piecesAfter_more {s : Sequence} {n : Nat} (hn : n < 64) (hlow : s.low ≤ 0x80 + n)
    (hhigh : 0x80 + n ≤ s.high) (hmissing : 1 < s.missing) (rest : Bytes) :
    piecesAfter (some s) (UInt8.ofNat (0x80 + n) :: rest) =
      piecesAfter (some ⟨s.seen ++ [UInt8.ofNat (0x80 + n)], s.bits * 64 + n, s.missing - 1,
        0x80, 0xBF⟩) rest := by
  have hb : (UInt8.ofNat (0x80 + n)).toNat = 0x80 + n := toNat_ofNat_of_lt (by omega)
  rw [piecesAfter_cons, step_some (by omega) (by omega), if_neg (by omega), hb,
    Nat.add_sub_cancel_left]
  rfl

theorem piecesAfter_begin {b : UInt8} {s : Sequence} (hlarge : 0x80 ≤ b.toNat)
    (hbegin : Sequence.begin? b = some s) (rest : Bytes) :
    piecesAfter none (b :: rest) = piecesAfter (some s) rest := by
  rw [piecesAfter_cons, step, start, if_neg (by omega), hbegin]
  rfl

/-- The bytes of a character are read as that character. -/
theorem piecesAfter_encodeChar (c : Char) (rest : Bytes) :
    piecesAfter none (encodeChar c ++ rest) = .char c :: piecesAfter none rest := by
  have hvalid : c.toNat < 0xD800 ∨ 0xDFFF < c.toNat ∧ c.toNat < 0x110000 := c.valid
  simp only [encodeChar]
  split
  · rename_i hn
    have hb : (UInt8.ofNat c.toNat).toNat = c.toNat := toNat_ofNat_of_lt (by omega)
    rw [List.singleton_append, piecesAfter_cons, step, start, if_pos (by omega), hb,
      Char.ofNat_toNat]
    rfl
  · split
    · rename_i hlarge hn
      have hb : (UInt8.ofNat (0xC0 + c.toNat / 64)).toNat = 0xC0 + c.toNat / 64 :=
        toNat_ofNat_of_lt (by omega)
      have hbegin : Sequence.begin? (UInt8.ofNat (0xC0 + c.toNat / 64))
          = some ⟨[UInt8.ofNat (0xC0 + c.toNat / 64)], c.toNat / 64, 1, 0x80, 0xBF⟩ := by
        simp only [Sequence.begin?, hb]
        rw [if_neg (by omega), if_pos (by omega), Nat.add_sub_cancel_left]
      simp only [List.cons_append, List.nil_append]
      rw [piecesAfter_begin (by omega) hbegin]
      exact piecesAfter_last (by omega) (by show 0x80 ≤ _; omega) (by show _ ≤ 0xBF; omega) rfl
        (by show _ / 64 * 64 + _ = _; omega) rest
    · split
      · rename_i hlarge hn
        have hb : (UInt8.ofNat (0xE0 + c.toNat / 4096)).toNat = 0xE0 + c.toNat / 4096 :=
          toNat_ofNat_of_lt (by omega)
        have hbegin : Sequence.begin? (UInt8.ofNat (0xE0 + c.toNat / 4096))
            = some ⟨[UInt8.ofNat (0xE0 + c.toNat / 4096)], c.toNat / 4096, 2,
                if 0xE0 + c.toNat / 4096 = 0xE0 then 0xA0 else 0x80,
                if 0xE0 + c.toNat / 4096 = 0xED then 0x9F else 0xBF⟩ := by
          simp only [Sequence.begin?, hb]
          rw [if_neg (by omega), if_neg (by omega), if_pos (by omega), Nat.add_sub_cancel_left]
        simp only [List.cons_append, List.nil_append]
        rw [piecesAfter_begin (by omega) hbegin,
          piecesAfter_more (by omega) (by dsimp only; split <;> omega)
            (by dsimp only; split <;> omega) (by show 1 < 2; omega)]
        exact piecesAfter_last (by omega) (by show 0x80 ≤ _; omega) (by show _ ≤ 0xBF; omega) rfl
          (by dsimp only; omega) rest
      · rename_i hlarge
        have hb : (UInt8.ofNat (0xF0 + c.toNat / 262144)).toNat = 0xF0 + c.toNat / 262144 :=
          toNat_ofNat_of_lt (by omega)
        have hbegin : Sequence.begin? (UInt8.ofNat (0xF0 + c.toNat / 262144))
            = some ⟨[UInt8.ofNat (0xF0 + c.toNat / 262144)], c.toNat / 262144, 3,
                if 0xF0 + c.toNat / 262144 = 0xF0 then 0x90 else 0x80,
                if 0xF0 + c.toNat / 262144 = 0xF4 then 0x8F else 0xBF⟩ := by
          simp only [Sequence.begin?, hb]
          rw [if_neg (by omega), if_neg (by omega), if_neg (by omega), if_pos (by omega),
            Nat.add_sub_cancel_left]
        simp only [List.cons_append, List.nil_append]
        rw [piecesAfter_begin (by omega) hbegin,
          piecesAfter_more (by omega) (by dsimp only; split <;> omega)
            (by dsimp only; split <;> omega) (by show 1 < 3; omega),
          piecesAfter_more (by omega) (by show 0x80 ≤ _; omega) (by show _ ≤ 0xBF; omega)
            (by show 1 < 2; omega)]
        exact piecesAfter_last (by omega) (by show 0x80 ≤ _; omega) (by show _ ≤ 0xBF; omega) rfl
          (by dsimp only; omega) rest

/-! ## Texts -/

theorem pieces_encode (chars : List Char) :
    pieces (encode (chars.map .char)) = chars.map .char := by
  rw [pieces, encode, List.flatMap_map]
  induction chars with
  | nil => rfl
  | cons c rest ih =>
      rw [List.flatMap_cons, List.map_cons, ← ih]
      exact piecesAfter_encodeChar c _

theorem collect_eq_ok_iff {position : Nat} {found : List Piece} {text : Text} :
    collect position found = .ok text ↔
      ∃ chars : List Char, found = chars.map .char ∧ text = chars.map .char := by
  induction found generalizing position text with
  | nil =>
      constructor
      · intro h
        cases h
        exact ⟨[], rfl, rfl⟩
      · rintro ⟨chars, hfound, rfl⟩
        rw [List.map_eq_nil_iff.mp hfound.symm]
        rfl
  | cons piece rest ih =>
      cases piece with
      | defect cause bytes =>
          refine ⟨(by cases ·), ?_⟩
          rintro ⟨chars, hfound, -⟩
          cases chars <;> cases hfound
      | char c =>
          rw [collect]
          constructor
          · intro h
            cases hrest : collect (position + c.utf8Size) rest with
            | error fault => rw [hrest] at h; cases h
            | ok text' =>
                rw [hrest] at h
                cases h
                obtain ⟨chars, rfl, rfl⟩ := ih.mp hrest
                exact ⟨c :: chars, rfl, rfl⟩
          · rintro ⟨chars, hfound, rfl⟩
            cases chars with
            | nil => cases hfound
            | cons c' chars =>
                obtain ⟨hc, hrest⟩ := List.cons.inj hfound
                cases hc
                rw [ih.mpr ⟨chars, hrest, rfl⟩]
                rfl

theorem decode?_eq_ok_iff {bytes : Bytes} {text : Text} :
    decode? bytes = .ok text ↔
      ∃ chars : List Char, pieces bytes = chars.map .char ∧ text = chars.map .char :=
  collect_eq_ok_iff

/-- A text without halves consists of characters. -/
theorem exists_chars {text : Text} (hwhole : ∀ s ∈ text, s.isHalf = false) :
    ∃ chars : List Char, text = chars.map .char := by
  induction text with
  | nil => exact ⟨[], rfl⟩
  | cons s rest ih =>
      obtain ⟨hs, hrest⟩ := List.forall_mem_cons.mp hwhole
      obtain ⟨chars, rfl⟩ := ih hrest
      cases s with
      | char c => exact ⟨c :: chars, rfl⟩
      | half n => cases hs

/-- The bytes of a text without halves spell that text. -/
theorem decode?_encode {text : Text} (hwhole : ∀ s ∈ text, s.isHalf = false) :
    decode? (encode text) = .ok text := by
  obtain ⟨chars, rfl⟩ := exists_chars hwhole
  exact decode?_eq_ok_iff.mpr ⟨chars, pieces_encode chars, rfl⟩

/-- What the strict decoder reads holds no halves. -/
theorem isHalf_of_decode? {bytes : Bytes} {text : Text} (hdecode : decode? bytes = .ok text) :
    ∀ s ∈ text, s.isHalf = false := by
  obtain ⟨chars, -, rfl⟩ := decode?_eq_ok_iff.mp hdecode
  intro s hs
  obtain ⟨c, -, rfl⟩ := List.mem_map.mp hs
  rfl

theorem decodeReplacing_of_decode? {bytes : Bytes} {text : Text}
    (hdecode : decode? bytes = .ok text) : decodeReplacing bytes = text := by
  obtain ⟨chars, hpieces, rfl⟩ := decode?_eq_ok_iff.mp hdecode
  rw [decodeReplacing, hpieces, List.map_map]
  rfl

theorem textFault?_eq_none {text : Text} (hwhole : ∀ s ∈ text, s.isHalf = false) :
    textFault? text = none := by
  have h : ∀ position, faultFrom (fun _ => false) position text = none := by
    induction text with
    | nil => exact fun _ => rfl
    | cons s rest ih =>
        obtain ⟨hs, hrest⟩ := List.forall_mem_cons.mp hwhole
        cases s with
        | char c => exact fun position => ih hrest (position + 1)
        | half n => cases hs
  exact h 0

end ResourcePruner.Utf8
