/-!
# Finite maps in the order of their keys

An `OrderedMap` lists its entries in strictly increasing order of key, as part of its type, so that
a key occurs once, every listing of a map comes out in order, and two maps with the same entries are
equal.

Main statements, each an equation of the view `OrderedMap.get?`: `get?_insert`, `get?_erase`,
`get?_mapValues`, `get?_filter`; `mem_entries_iff` ties the view to the listing.
-/

namespace ResourcePruner

/-- A strict total order with a decision procedure: of a linear order what maps ask of their keys,
and nothing of the library, on which what runs does not depend. -/
class StrictOrder (κ : Type) extends LT κ where
  decideLess : DecidableRel (α := κ) (· < ·)
  decideSame : DecidableEq κ
  irrefl : ∀ a : κ, ¬ a < a
  trans : ∀ {a b c : κ}, a < b → b < c → a < c
  connected : ∀ {a b : κ}, ¬ a < b → a ≠ b → b < a

namespace StrictOrder

instance decidableLess (κ : Type) [StrictOrder κ] : DecidableRel (α := κ) (· < ·) :=
  decideLess

instance decidableSame (κ : Type) [StrictOrder κ] : DecidableEq κ :=
  decideSame

variable {κ : Type} [StrictOrder κ]

theorem asymm {a b : κ} (less : a < b) : ¬ b < a :=
  fun more => irrefl a (trans less more)

theorem ne_of_lt {a b : κ} (less : a < b) : a ≠ b :=
  fun same => irrefl b (same ▸ less)

/-- What stands in order by a key, and by something else where the keys are equal, does not stand in
the opposite order. -/
theorem asymm_lex {a b : κ} {p q : Prop} (apart : p → ¬ q) (before : a < b ∨ a = b ∧ p) :
    ¬ (b < a ∨ b = a ∧ q) := by
  rintro (more | ⟨same, hq⟩)
  · exact before.elim (asymm more) fun same => irrefl a (same.1 ▸ more)
  · exact before.elim (fun less => ne_of_lt less same.symm) fun hp => apart hp.2 hq

instance : Std.Irrefl (α := κ) (· < ·) := ⟨irrefl⟩

instance : Trans (α := κ) (· < ·) (· < ·) (· < ·) := ⟨trans⟩

instance : Std.Asymm (α := κ) (· < ·) := ⟨fun _ _ => asymm⟩

instance : Std.Antisymm (α := κ) (¬ · < ·) :=
  ⟨fun _ _ not_less not_more =>
    Decidable.byContradiction fun different => not_more (connected not_less different)⟩

instance : Std.Total (α := κ) (¬ · < ·) :=
  ⟨fun a b => (Decidable.em (a < b)).elim (fun less => .inr (asymm less)) .inl⟩

/-! By a key of theirs, items stand in such an order but for those with the same key. -/

instance {α : Type} (key : α → κ) : Std.Irrefl fun a b : α => key a < key b :=
  ⟨fun a => irrefl (key a)⟩

instance {α : Type} (key : α → κ) : Std.Asymm fun a b : α => key a < key b :=
  ⟨fun _ _ => asymm⟩

end StrictOrder

/-- Entries in strictly increasing order of key. -/
structure OrderedMap (κ ν : Type) [StrictOrder κ] where
  entries : List (κ × ν)
  ordered : entries.Pairwise fun a b => a.1 < b.1

namespace OrderedMap

variable {κ ν : Type} [StrictOrder κ]

@[ext] theorem ext {m n : OrderedMap κ ν} (same : m.entries = n.entries) : m = n := by
  cases m
  cases n
  cases same
  rfl

/-- The map without entries. -/
def empty : OrderedMap κ ν := ⟨[], .nil⟩

/-- The keys of a map, in order. -/
def keys (m : OrderedMap κ ν) : List κ := m.entries.map Prod.fst

theorem nodup_keys (m : OrderedMap κ ν) : m.keys.Nodup :=
  List.pairwise_map.mpr (m.ordered.imp StrictOrder.ne_of_lt)

/-- The value found first under a key in a list of entries. -/
def find? (key : κ) : List (κ × ν) → Option ν
  | [] => none
  | entry :: rest => if entry.1 = key then some entry.2 else find? key rest

/-- The value of a key. -/
def get? (m : OrderedMap κ ν) (key : κ) : Option ν := find? key m.entries

/-- Entries with one more put in its place, instead of any entry with the same key there. -/
def insertEntry (key : κ) (value : ν) : List (κ × ν) → List (κ × ν)
  | [] => [(key, value)]
  | entry :: rest =>
    if key < entry.1 then (key, value) :: entry :: rest
    else if key = entry.1 then (key, value) :: rest
    else entry :: insertEntry key value rest

theorem eq_or_mem_of_mem_insertEntry {key : κ} {value : ν} {entries : List (κ × ν)} {entry : κ × ν}
    (member : entry ∈ insertEntry key value entries) : entry = (key, value) ∨ entry ∈ entries := by
  induction entries with
  | nil => simpa [insertEntry] using member
  | cons first rest ih =>
    unfold insertEntry at member
    split at member
    · simpa using member
    · split at member
      · rcases List.mem_cons.1 member with h | h
        · exact .inl h
        · exact .inr (List.mem_cons_of_mem _ h)
      · rcases List.mem_cons.1 member with h | h
        · exact .inr (h ▸ List.mem_cons_self ..)
        · exact (ih h).imp id (List.mem_cons_of_mem _)

theorem ordered_insertEntry (key : κ) (value : ν) {entries : List (κ × ν)}
    (ordered : entries.Pairwise fun a b => a.1 < b.1) :
    (insertEntry key value entries).Pairwise fun a b => a.1 < b.1 := by
  induction entries with
  | nil => simp [insertEntry]
  | cons first rest ih =>
    obtain ⟨above, rest_ordered⟩ := List.pairwise_cons.1 ordered
    unfold insertEntry
    split
    · rename_i less
      refine List.pairwise_cons.2 ⟨fun entry member => ?_, ordered⟩
      rcases List.mem_cons.1 member with rfl | member
      · exact less
      · exact StrictOrder.trans less (above entry member)
    · split
      · rename_i same
        exact List.pairwise_cons.2 ⟨fun entry member => same ▸ above entry member, rest_ordered⟩
      · rename_i not_less different
        refine List.pairwise_cons.2 ⟨fun entry member => ?_, ih rest_ordered⟩
        rcases eq_or_mem_of_mem_insertEntry member with rfl | member
        · exact StrictOrder.connected not_less different
        · exact above entry member

/-- A map with a value for a key, in place of any earlier one. -/
def insert (m : OrderedMap κ ν) (key : κ) (value : ν) : OrderedMap κ ν where
  entries := insertEntry key value m.entries
  ordered := ordered_insertEntry key value m.ordered

/-- The entries that a condition on the key keeps. -/
def filter (keep : κ → Bool) (m : OrderedMap κ ν) : OrderedMap κ ν where
  entries := m.entries.filter fun entry => keep entry.1
  ordered := m.ordered.filter _

/-- A map without a key. -/
def erase (m : OrderedMap κ ν) (key : κ) : OrderedMap κ ν :=
  m.filter (· ≠ key)

/-- Every value replaced by a function of its key and itself. -/
def mapValues {μ : Type} (f : κ → ν → μ) (m : OrderedMap κ ν) : OrderedMap κ μ where
  entries := m.entries.map fun entry => (entry.1, f entry.1 entry.2)
  ordered := m.ordered.map _ fun _ _ less => less

/-- The value of a key replaced by a function of it, if there is one. -/
def modify (m : OrderedMap κ ν) (key : κ) (f : ν → ν) : OrderedMap κ ν :=
  m.mapValues fun k value => if k = key then f value else value

theorem find?_eq_none_of_above {key : κ} {entries : List (κ × ν)}
    (above : ∀ entry ∈ entries, key < entry.1) : find? key entries = none := by
  induction entries with
  | nil => rfl
  | cons first rest ih =>
    have different : first.1 ≠ key := fun same =>
      StrictOrder.irrefl key (same ▸ above first (List.mem_cons_self ..))
    rw [find?, if_neg different]
    exact ih fun entry member => above entry (List.mem_cons_of_mem _ member)

theorem mem_entries_iff {m : OrderedMap κ ν} {key : κ} {value : ν} :
    (key, value) ∈ m.entries ↔ m.get? key = some value := by
  obtain ⟨entries, ordered⟩ := m
  change _ ∈ entries ↔ find? key entries = some value
  induction entries with
  | nil => simp [find?]
  | cons first rest ih =>
    obtain ⟨above, rest_ordered⟩ := List.pairwise_cons.1 ordered
    rw [List.mem_cons, find?]
    split
    · rename_i same
      have absent : (key, value) ∉ rest := fun member =>
        StrictOrder.irrefl first.1 (same ▸ above (key, value) member)
      simp only [absent, or_false, Option.some.injEq]
      exact ⟨fun h => h ▸ rfl, fun h => by rw [← same, ← h]⟩
    · rename_i different
      have other : (key, value) ≠ first := fun h => different (h ▸ rfl)
      simp only [other, false_or]
      exact ih rest_ordered

theorem get?_insert (m : OrderedMap κ ν) (key : κ) (value : ν) (other : κ) :
    (m.insert key value).get? other = if key = other then some value else m.get? other := by
  obtain ⟨entries, ordered⟩ := m
  change find? other (insertEntry key value entries) = if _ then _ else find? other entries
  induction entries with
  | nil => simp [insertEntry, find?]
  | cons first rest ih =>
    obtain ⟨-, rest_ordered⟩ := List.pairwise_cons.1 ordered
    unfold insertEntry
    split
    · rfl
    · split
      · rename_i same
        by_cases here : key = other
        · simp [find?, here]
        · simp [find?, here, ← same]
      · rename_i different
        rw [find?, find?, ih rest_ordered]
        by_cases here : first.1 = other
        · have : ¬ key = other := fun h => different (h.trans here.symm)
          simp [here, this]
        · simp [here]

theorem get?_filter (m : OrderedMap κ ν) (keep : κ → Bool) (key : κ) :
    (m.filter keep).get? key = if keep key then m.get? key else none := by
  obtain ⟨entries, ordered⟩ := m
  change find? key (entries.filter _) = if _ then find? key entries else _
  clear ordered
  induction entries with
  | nil => simp [find?]
  | cons first rest ih =>
    rw [List.filter_cons]
    by_cases here : first.1 = key
    · split <;> rename_i kept <;> simp [here] at kept <;> simp_all [find?]
    · split <;> simp [find?, here, ih]

theorem get?_erase (m : OrderedMap κ ν) (key other : κ) :
    (m.erase key).get? other = if other = key then none else m.get? other := by
  rw [erase, get?_filter]
  by_cases here : other = key <;> simp [here]

theorem get?_mapValues {μ : Type} (f : κ → ν → μ) (m : OrderedMap κ ν) (key : κ) :
    (m.mapValues f).get? key = (m.get? key).map (f key) := by
  obtain ⟨entries, ordered⟩ := m
  change find? key (entries.map _) = (find? key entries).map _
  clear ordered
  induction entries with
  | nil => rfl
  | cons first rest ih =>
    rw [List.map_cons, find?, find?, ih]
    by_cases here : first.1 = key <;> simp [here]

theorem get?_modify (m : OrderedMap κ ν) (key : κ) (f : ν → ν) (other : κ) :
    (m.modify key f).get? other = if other = key then (m.get? other).map f else m.get? other := by
  rw [modify, get?_mapValues]
  by_cases here : other = key
  · subst here
    simp
  · simp [here]

end OrderedMap

end ResourcePruner
