import Mathlib.Order.Bounds.Basic
import ResourcePruner.Reference.Boundary

/-!
# The search for a token

`Reference.StandsAt` says without any search where a token stands on a line: it occurs there, and
behind it the line ends or goes on with a symbol that no name holds. The search finds the least such
place from its start on, and none only where there is none (`Reference.findsFirst`).

It does so by way of the plain search for the token as a text: an occurrence that runs on into a
longer name is passed over by one symbol, so that a token which begins inside of such an occurrence
is not missed (`Reference.findToken?_eq_elim`).
-/

namespace ResourcePruner

/-- The first occurrence of a text from a place on is the least one. -/
theorem Text.indexFrom?_eq_some_iff {sought text : Text} {start n : Nat} :
    indexFrom? sought text start = some n ↔
      start ≤ n ∧ n ≤ text.length ∧ sought <+: text.drop n ∧
        ∀ m, start ≤ m → m < n → ¬ sought <+: text.drop m := by
  unfold indexFrom?
  split
  · simp only [indexOf?, Option.map_eq_some_iff, firstSuffix?_eq_some_iff, List.drop_drop,
      List.length_drop, List.isPrefixOf_iff_prefix, ← Bool.not_eq_true]
    constructor
    · rintro ⟨k, ⟨hk, hhere, hleast⟩, rfl⟩
      refine ⟨Nat.le_add_right start k, by omega, hhere, fun m hstart hm => ?_⟩
      have := hleast (m - start) (by omega)
      rwa [Nat.add_sub_cancel' hstart] at this
    · rintro ⟨hstart, hn, hhere, hleast⟩
      refine ⟨n - start, ⟨by omega, ?_, fun m hm => ?_⟩, by omega⟩
      · rwa [Nat.add_sub_cancel' hstart]
      · exact hleast _ (Nat.le_add_right start m) (by omega)
  · refine iff_of_false (by simp) ?_
    rintro ⟨hstart, hn, -, -⟩
    omega

theorem Text.indexFrom?_eq_none_iff {sought text : Text} {start : Nat} (hne : sought ≠ []) :
    indexFrom? sought text start = none ↔ ∀ m, start ≤ m → ¬ sought <+: text.drop m := by
  unfold indexFrom?
  split
  · simp only [indexOf?, Option.map_eq_none_iff, firstSuffix?_eq_none_iff, List.drop_drop,
      List.length_drop, List.isPrefixOf_iff_prefix, ← Bool.not_eq_true]
    constructor
    · intro hnowhere m hstart hoccurs
      have hpos := List.length_pos_iff.mpr hne
      have hlength := hoccurs.length_le
      rw [List.length_drop] at hlength
      refine hnowhere (m - start) (by omega) ?_
      rwa [Nat.add_sub_cancel' hstart]
    · exact fun hnowhere k _ => hnowhere _ (Nat.le_add_right start k)
  · rename_i hbeyond
    refine iff_of_true rfl fun m hstart hoccurs => hne ?_
    rwa [List.drop_eq_nil_of_le (by omega), List.prefix_nil] at hoccurs

namespace Reference

variable {token line : Text} {start : Int} {p : Nat}

/-! ## Places of a token -/

/-- A token stands at a place of a line: it occurs there, and it ends the line or is followed by a
symbol that is neither a letter nor a digit, and neither `_` nor `.`. -/
def StandsAt (token line : Text) (p : Nat) : Prop :=
  token <+: line.drop p
    ∧ (p + token.length = line.length
      ∨ ∃ s, (line.drop (p + token.length)).head? = some s
        ∧ Text.isAlphanumeric s = false ∧ s ≠ '_' ∧ s ≠ '.')

instance : Decidable (StandsAt token line p) :=
  decidable_of_iff (token <+: line.drop p
      ∧ (p + token.length = line.length
        ∨ (line.drop (p + token.length)).head?.any
          (fun s => !Text.isAlphanumeric s && s ≠ '_' && s ≠ '.') = true))
    (by simp [StandsAt, Option.any_eq_true, and_assoc])

theorem standsAt_iff (hne : token ≠ []) :
    StandsAt token line p ↔ startsWithToken token (line.drop p) = true := by
  rw [startsWithToken, Bool.and_eq_true, List.isPrefixOf_iff_prefix, List.drop_drop, StandsAt]
  refine and_congr_right fun hoccurs => ?_
  have hinside : p + token.length ≤ line.length := by
    have hlength := hoccurs.length_le
    have hpos := List.length_pos_iff.mpr hne
    rw [List.length_drop] at hlength
    omega
  rcases Nat.eq_or_lt_of_le hinside with hend | hwithin
  · simp [hend, endsIdentifier]
  · rw [List.drop_eq_getElem_cons hwithin, List.head?_cons]
    simp [hwithin.ne, endsIdentifier, isIdentifierSymbol, and_assoc]

/-- A place is not before the start of a search. A negative start counts from the end of the line;
if it leads to before the line, every place will do. -/
def IsFrom (line : Text) (start : Int) (p : Nat) : Prop :=
  (if start < 0 then line.length + start else start) ≤ p

theorem isFrom_iff : IsFrom line start p ↔ startPosition line start ≤ p := by
  unfold IsFrom startPosition
  split <;> exact Int.toNat_le.symm

/-! ## The search by way of occurrences -/

/-- Places at which the token does not stand may be left out of the search. -/
theorem findToken?_eq_of_skipped (hne : token ≠ []) {later : Int}
    (hle : startPosition line start ≤ startPosition line later)
    (hskipped : ∀ q, startPosition line start ≤ q → q < startPosition line later →
      startsWithToken token (line.drop q) = false) :
    findToken? line token start = findToken? line token later := by
  refine Option.ext fun p => ?_
  rw [findToken?_eq_some_iff hne, findToken?_eq_some_iff hne]
  constructor
  · rintro ⟨hfrom, hthere, hbefore⟩
    refine ⟨Nat.le_of_not_lt fun hlt => ?_, hthere, fun q hq => hbefore q (hle.trans hq)⟩
    rw [hskipped p hfrom hlt] at hthere
    cases hthere
  · rintro ⟨hfrom, hthere, hbefore⟩
    refine ⟨hle.trans hfrom, hthere, fun q hq hlt => ?_⟩
    rcases Nat.lt_or_ge q (startPosition line later) with hearly | hlate
    · exact hskipped q hq hearly
    · exact hbefore q hlate hlt

/-- The search looks for the next occurrence of the token. One that ends on an identifier boundary
is what is sought; behind one that does not, the search goes on with the next symbol. -/
theorem findToken?_eq_elim (hne : token ≠ []) (start : Int) :
    findToken? line token start
      = (Text.indexFrom? token line (startPosition line start)).elim none fun p =>
        if endsIdentifier (line.drop (p + token.length)) then some p
        else findToken? line token (p + 1 : Nat) := by
  have hstands {q : Nat} : startsWithToken token (line.drop q) = true ↔
      token <+: line.drop q ∧ endsIdentifier (line.drop (q + token.length)) = true := by
    rw [startsWithToken, Bool.and_eq_true, List.isPrefixOf_iff_prefix, List.drop_drop]
  cases hfirst : Text.indexFrom? token line (startPosition line start) with
  | none =>
      refine (findToken?_eq_none_iff hne).mpr fun q hq => Bool.eq_false_iff.mpr fun hthere => ?_
      exact (Text.indexFrom?_eq_none_iff hne).mp hfirst q hq (hstands.mp hthere).1
  | some p =>
      obtain ⟨hstart, -, hhere, hleast⟩ := Text.indexFrom?_eq_some_iff.mp hfirst
      have hbefore (q : Nat) (hq : startPosition line start ≤ q) (hlt : q < p) :
          startsWithToken token (line.drop q) = false :=
        Bool.eq_false_iff.mpr fun hthere => hleast q hq hlt (hstands.mp hthere).1
      rw [Option.elim_some]
      split
      · rename_i hends
        exact (findToken?_eq_some_iff hne).mpr ⟨hstart, hstands.mpr ⟨hhere, hends⟩, hbefore⟩
      · rename_i hgoes
        have hrejected : startsWithToken token (line.drop p) = false :=
          Bool.eq_false_iff.mpr fun hthere => hgoes (hstands.mp hthere).2
        have hnext : startPosition line (p + 1 : Nat) = p + 1 := by
          rw [startPosition, if_neg (by omega), Int.toNat_natCast]
        refine findToken?_eq_of_skipped hne (by omega) fun q hq hlt => ?_
        rcases Nat.lt_or_eq_of_le (Nat.le_of_lt_succ (hnext ▸ hlt)) with hless | rfl
        · exact hbefore q hq hless
        · exact hrejected

/-! ## What is found -/

/-- From a place on, the search finds the least place at which the token stands, and nothing exactly
when the token stands nowhere. -/
structure FindsFirst (line token : Text) (start : Int) : Prop where
  found (p : Nat) : findToken? line token start = some p ↔
    IsLeast {q | IsFrom line start q ∧ StandsAt token line q} p
  missed : findToken? line token start = none ↔ ∀ q, IsFrom line start q → ¬ StandsAt token line q
  /-- An occurrence that runs on into a longer name is passed over by one symbol. -/
  resumed : findToken? line token start
    = (Text.indexFrom? token line (startPosition line start)).elim none fun p =>
      if endsIdentifier (line.drop (p + token.length)) then some p
      else findToken? line token (p + 1 : Nat)

/-- The search for a token finds its first place from the start on. -/
theorem findsFirst (hne : token ≠ []) (line : Text) (start : Int) :
    FindsFirst line token start where
  found p := by
    simp only [findToken?_eq_some_iff hne, IsLeast, mem_lowerBounds, Set.mem_ofPred_eq, isFrom_iff,
      standsAt_iff hne, and_assoc, and_imp]
    refine and_congr_right fun _ => and_congr_right fun _ => forall₂_congr fun q _ => ?_
    rw [← Bool.not_eq_true, imp_not_comm, Nat.not_lt]
  missed := by
    simp only [findToken?_eq_none_iff hne, isFrom_iff, standsAt_iff hne, Bool.not_eq_true]
  resumed := findToken?_eq_elim hne start

/-- In the text `aaa` the token `aa` occurs twice, once inside of a longer name and once at the end.
The second place is found, also from the second last symbol on. -/
theorem findsFirst_overlap :
    Text.ofString "aa" ≠ [] ∧ findToken? "aaa" "aa" 0 = some 1 ∧ findToken? "aaa" "aa" (-2) = some 1
      ∧ FindsFirst "aaa" "aa" (-2) := by
  have hne : Text.ofString "aa" ≠ [] := by decide
  exact ⟨hne, by decide, by decide, findsFirst hne _ _⟩

end Reference

end ResourcePruner
