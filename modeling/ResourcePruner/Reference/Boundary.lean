import ResourcePruner.Text.Alphanumeric
import ResourcePruner.Text.Blank

/-!
# Tokens on identifier boundaries

A token stands on a line where it occurs and does not run on into a longer identifier: what follows
it is the end of the line or a symbol that cannot be part of a name. `Reference.findToken?` is
the first such place.

Main statements: `Reference.findToken?_eq_some_iff` and `Reference.findToken?_eq_none_iff`, the
place found is the least one at or after the start, and none is found exactly when there is none.
-/

namespace ResourcePruner.Reference

/-- Whether a symbol can be part of a resource name: a letter, a digit, `_` or `.`. -/
def isIdentifierSymbol (s : Symbol) : Bool :=
  Text.isAlphanumeric s || s = '_' || s = '.'

/-- Whether a name could not go on in `rest`. -/
def endsIdentifier : Text → Bool
  | [] => true
  | s :: _ => !isIdentifierSymbol s

/-- Whether `token` begins `rest` and ends there on an identifier boundary. -/
def startsWithToken (token rest : Text) : Bool :=
  token.isPrefixOf rest && endsIdentifier (rest.drop token.length)

/-- The position that `start` means on a line: a negative one counts from the end, and one before
the line means its beginning. -/
def startPosition (line : Text) (start : Int) : Nat :=
  if start < 0 then (line.length + start).toNat else start.toNat

/-- The first position from `start` on at which `token` stands on an identifier boundary. An empty
token stands nowhere. -/
def findToken? (line token : Text) (start : Int) : Option Nat :=
  if token = [] then
    none
  else
    let first := startPosition line start
    (Text.firstSuffix? (startsWithToken token) (line.drop first)).map (first + ·)

/-- Whether `token` stands anywhere on the line. -/
def containsToken (line token : Text) : Bool :=
  (findToken? line token 0).isSome

/-- Whether any of the tokens stands on the line. -/
def containsAnyToken (line : Text) (tokens : List Text) : Bool :=
  tokens.any (containsToken line)

/-- Whether a line of code is nothing but a line comment. -/
def isLineComment (line : Text) : Bool :=
  (Text.ofString "//").isPrefixOf (Text.trimStart line)

theorem not_startsWithToken_nil {token : Text} (nonempty : token ≠ []) :
    startsWithToken token [] = false := by
  cases token with
  | nil => exact absurd rfl nonempty
  | cons c rest => rfl

theorem findToken?_eq_some_iff {line token : Text} {start : Int} {p : Nat}
    (nonempty : token ≠ []) :
    findToken? line token start = some p ↔
      startPosition line start ≤ p ∧ startsWithToken token (line.drop p) = true ∧
        ∀ q, startPosition line start ≤ q → q < p →
          startsWithToken token (line.drop q) = false := by
  simp only [findToken?, nonempty, if_false, Option.map_eq_some_iff, Text.firstSuffix?_eq_some_iff,
    List.drop_drop, List.length_drop]
  constructor
  · rintro ⟨n, ⟨-, here, least⟩, rfl⟩
    refine ⟨Nat.le_add_right _ _, here, fun q from_start before => ?_⟩
    have := least (q - startPosition line start) (by omega)
    rwa [Nat.add_sub_cancel' from_start] at this
  · rintro ⟨from_start, here, least⟩
    refine ⟨p - startPosition line start, ⟨?_, ?_, fun m before => ?_⟩, by omega⟩
    · have inside : p < line.length := by
        rcases Nat.lt_or_ge p line.length with inside | beyond
        · exact inside
        · rw [List.drop_eq_nil_of_le beyond, not_startsWithToken_nil nonempty] at here
          cases here
      omega
    · rwa [Nat.add_sub_cancel' from_start]
    · exact least _ (Nat.le_add_right _ _) (by omega)

theorem findToken?_eq_none_iff {line token : Text} {start : Int} (nonempty : token ≠ []) :
    findToken? line token start = none ↔
      ∀ q, startPosition line start ≤ q → startsWithToken token (line.drop q) = false := by
  simp only [findToken?, nonempty, if_false, Option.map_eq_none_iff, Text.firstSuffix?_eq_none_iff,
    List.drop_drop, List.length_drop]
  constructor
  · intro nowhere q from_start
    rcases Nat.lt_or_ge q line.length with inside | beyond
    · have := nowhere (q - startPosition line start) (by omega)
      rwa [Nat.add_sub_cancel' from_start] at this
    · rw [List.drop_eq_nil_of_le beyond, not_startsWithToken_nil nonempty]
  · intro nowhere n _
    exact nowhere _ (Nat.le_add_right _ _)

end ResourcePruner.Reference
