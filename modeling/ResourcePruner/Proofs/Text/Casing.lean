import Mathlib.Tactic.NormNum
import ResourcePruner.Text.Casing

/-!
# Small forms are small

The small form of a text is its own small form (`Text.lower_lower`): every symbol in it is one, and
none of them is a capital sigma, the only letter whose form depends on its place.

That the table of small forms maps none of the characters to which it maps others is checked run by
run (`Text.areSettled_lowerRuns`): the two runs do not overlap, or where they do, the one has the
characters between those of the other.
-/

namespace ResourcePruner

theorem Symbol.code_ofCode {n : Nat} (hn : n < 0x110000) : (ofCode n).code = n := by
  unfold ofCode
  split
  · rename_i hhalf
    exact Nat.add_sub_of_le hhalf.2
  · rename_i hhalf
    have hvalid : n.isValidChar := by
      rw [firstHalf] at hhalf
      rw [Nat.isValidChar]
      omega
    rw [code, Char.ofNat, dif_pos hvalid]
    rfl

namespace Text

/-- The symbol is its own small form wherever it stands. -/
def IsSmall (s : Symbol) : Prop :=
  lowerSymbol s = [s] ∧ s ≠ 'Σ'

instance (s : Symbol) : Decidable (IsSmall s) :=
  inferInstanceAs (Decidable (_ ∧ _))

/-! ## Runs of the table -/

namespace CaseRun

/-- The characters to which a run maps its own, as a run. -/
def forms (run : CaseRun) : CaseRun where
  first := (run.first + run.shift).toNat
  last := (run.last + run.shift).toNat
  stride := run.stride
  shift := 0

/-- The runs have no character in common: one ends before the other begins, each has every other
character and they begin differently, or the one is a single character that the other leaves out. -/
def isApart (run other : CaseRun) : Bool :=
  run.last.blt other.first || other.last.blt run.first
    || run.stride == 2 && other.stride == 2 && run.first % 2 != other.first % 2
    || run.first == run.last && !other.maps run.first

variable {run other : CaseRun} {n : Nat}

theorem maps_iff : run.maps n = true ↔ run.first ≤ n ∧ n ≤ run.last
    ∧ (n - run.first) % run.stride = 0 := by
  simp [maps, and_assoc]

theorem not_maps_of_isApart (hapart : run.isApart other = true) (hmaps : run.maps n = true) :
    other.maps n = false := by
  refine Bool.eq_false_iff.mpr fun hother => ?_
  have hfirst := maps_iff.mp hmaps
  have hsecond := maps_iff.mp hother
  simp only [isApart, Bool.or_eq_true, Bool.and_eq_true, Nat.blt_eq, beq_iff_eq, bne_iff_ne,
    Bool.not_eq_true'] at hapart
  rcases hapart with ((hbefore | hbehind) | ⟨⟨hstride, hstride'⟩, hparity⟩) | ⟨hsingle, hout⟩
  · omega
  · omega
  · rw [hstride] at hfirst
    rw [hstride'] at hsecond
    omega
  · obtain rfl : n = run.first := by omega
    rw [hout] at hother
    cases hother

theorem maps_forms (hpositive : 0 < run.forms.first) (hmaps : run.maps n = true) :
    run.forms.maps (n + run.shift).toNat = true := by
  obtain ⟨hfirst, hlast, hstride⟩ := maps_iff.mp hmaps
  have hshift : (n + run.shift).toNat - run.forms.first = n - run.first := by
    rw [forms] at hpositive ⊢
    simp only at hpositive ⊢
    omega
  rw [maps_iff, hshift]
  refine ⟨?_, ?_, hstride⟩ <;> simp only [forms] <;> omega

/-- The table maps none of the characters of the run, nor is the dotted capital I among them; the
run is that of the letter k alone, which is the form of the sign for kelvins, if it has a character
of ASCII. -/
def isSettled (run : CaseRun) : Bool :=
  run.first == 0x6B && run.last == 0x6B
    || (0x7F).blt run.first && run.last.blt 0x110000 && !run.maps 0x130 && lowerRuns.all run.isApart

end CaseRun

theorem areSettled_lowerRuns : (lowerRuns.map CaseRun.forms).all CaseRun.isSettled = true := by
  decide +kernel

variable {s t : Symbol} {text : Text} {run : CaseRun} {n : Nat} {afterCased : Bool}

theorem isSettled_forms (hrun : run ∈ lowerRuns) : run.forms.isSettled = true :=
  List.all_eq_true.mp areSettled_lowerRuns _ (List.mem_map_of_mem hrun)

/-! ## Small symbols -/

theorem mapByRuns_of_forall (hmaps : ∀ run ∈ lowerRuns, run.maps s.code = false) :
    mapByRuns lowerRuns s = s := by
  have hnone : lowerRuns.find? (·.maps s.code) = none :=
    List.find?_eq_none.mpr fun run hrun => by rw [hmaps run hrun]; exact Bool.false_ne_true
  rw [mapByRuns, hnone]

/-- Beyond ASCII, a symbol that no run maps is small. -/
theorem isSmall_of_forall (hcode : 0x80 ≤ s.code) (hdotted : s ≠ '\u0130')
    (hmaps : ∀ run ∈ lowerRuns, run.maps s.code = false) : IsSmall s := by
  constructor
  · rw [lowerSymbol, if_neg (Nat.not_lt.mpr hcode), if_neg hdotted, mapByRuns_of_forall hmaps]
  · rintro rfl
    have hsigma : ∃ run ∈ lowerRuns, run.maps (Symbol.code 'Σ') = true := by decide +kernel
    obtain ⟨run, hrun, hmapped⟩ := hsigma
    rw [hmaps run hrun] at hmapped
    cases hmapped

theorem isSmall_ascii : ∀ n < 0x80, IsSmall (.ofCode (Char.ofNat n).toLower.toNat) := by
  decide +kernel

/-- What a run of the table maps a symbol to is small. -/
theorem isSmall_of_maps (hrun : run ∈ lowerRuns) (hmaps : run.maps n = true) :
    IsSmall (.ofCode (n + run.shift).toNat) := by
  have hsettled := isSettled_forms hrun
  simp only [CaseRun.isSettled, Bool.or_eq_true, Bool.and_eq_true, Nat.blt_eq, beq_iff_eq,
    Bool.not_eq_true'] at hsettled
  have hpositive : 0 < run.forms.first := by omega
  have hforms := CaseRun.maps_forms hpositive hmaps
  obtain ⟨hfirst, hlast, -⟩ := CaseRun.maps_iff.mp hforms
  rcases hsettled with ⟨hk, hk'⟩ | ⟨⟨⟨hlarge, hvalid⟩, hdotted⟩, hapart⟩
  · have heq : (n + run.shift).toNat = 0x6B := by omega
    rw [heq]
    decide
  · have hcode : (Symbol.ofCode (n + run.shift).toNat).code = (n + run.shift).toNat :=
      Symbol.code_ofCode (by omega)
    refine isSmall_of_forall (by omega) ?_ fun other hother => ?_
    · intro heq
      rw [heq] at hcode
      rw [← hcode] at hforms
      rw [show Symbol.code '\u0130' = 0x130 from rfl, hdotted] at hforms
      cases hforms
    · rw [hcode]
      exact CaseRun.not_maps_of_isApart (List.all_eq_true.mp hapart other hother) hforms

/-- The small form of a symbol is made of small ones. -/
theorem isSmall_of_mem_lowerSymbol (ht : t ∈ lowerSymbol s) : IsSmall t := by
  rw [lowerSymbol] at ht
  split at ht
  · rename_i hascii
    rw [List.mem_singleton.mp ht]
    exact isSmall_ascii _ hascii
  · rename_i hlarge
    split at ht
    · have hboth : ∀ t ∈ (['i', '\u0307'] : Text), IsSmall t := by decide +kernel
      exact hboth t ht
    · rename_i hdotted
      rw [List.mem_singleton.mp ht, mapByRuns]
      cases hfound : lowerRuns.find? (·.maps s.code) with
      | none =>
          refine isSmall_of_forall (Nat.le_of_not_lt hlarge) hdotted fun run hrun => ?_
          exact Bool.eq_false_iff.mpr (List.find?_eq_none.mp hfound run hrun)
      | some run =>
          have hmaps := List.find?_some hfound
          exact isSmall_of_maps (List.mem_of_find?_eq_some hfound) hmaps

/-! ## Small texts -/

theorem isSmall_of_mem_lowerAfter (ht : t ∈ lowerAfter afterCased text) : IsSmall t := by
  induction text generalizing afterCased with
  | nil => cases ht
  | cons s rest ih =>
      rw [lowerAfter] at ht
      rcases List.mem_append.mp ht with ht | ht
      · split at ht
        · have hfinal : ∀ t ∈ ("ς" : Text), IsSmall t := by decide +kernel
          have hinner : ∀ t ∈ ("σ" : Text), IsSmall t := by decide +kernel
          split at ht
          · exact hfinal t ht
          · exact hinner t ht
        · exact isSmall_of_mem_lowerSymbol ht
      · exact ih ht

/-- A text of small symbols is its own small form. -/
theorem lowerAfter_eq_self (htext : ∀ s ∈ text, IsSmall s) : lowerAfter afterCased text = text := by
  induction text generalizing afterCased with
  | nil => rfl
  | cons s rest ih =>
      obtain ⟨hs, hrest⟩ := List.forall_mem_cons.mp htext
      rw [lowerAfter, if_neg hs.2, hs.1, ih hrest]
      rfl

theorem lower_lower (text : Text) : lower (lower text) = lower text :=
  lowerAfter_eq_self fun _ => isSmall_of_mem_lowerAfter

theorem lowerSymbol_ne_nil (s : Symbol) : lowerSymbol s ≠ [] := by
  rw [lowerSymbol]
  split
  · exact List.cons_ne_nil _ _
  · split <;> exact List.cons_ne_nil _ _

/-- No symbol is lost. -/
theorem length_le_lowerAfter (afterCased : Bool) (text : Text) :
    text.length ≤ (lowerAfter afterCased text).length := by
  induction text generalizing afterCased with
  | nil => exact Nat.le_refl _
  | cons s rest ih =>
      rw [lowerAfter, List.length_append, List.length_cons, Nat.add_comm]
      refine Nat.add_le_add ?_ (ih _)
      split
      · split <;> exact Nat.le_refl _
      · exact List.length_pos_iff.mpr (lowerSymbol_ne_nil s)

theorem head?_lower_of_dot (hhead : text.head? = some '.') : (lower text).head? = some '.' := by
  cases text with
  | nil => cases hhead
  | cons s rest =>
      obtain rfl : s = '.' := Option.some.inj hhead
      have hdot : lowerSymbol '.' = "." := by decide
      rw [lower, lowerAfter, if_neg (by decide), hdot]
      rfl

end Text

end ResourcePruner
