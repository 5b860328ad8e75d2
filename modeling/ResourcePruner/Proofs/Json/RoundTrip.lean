import ResourcePruner.Proofs.Json.Numbers
import ResourcePruner.Proofs.Json.Sorting
import ResourcePruner.Proofs.Json.Strings

/-!
# Values read back

A value printed on one line is read back, its objects in the order of their names
(`Json.parse_compact`). `Json.IsReadable` says of which values: those whose numerals and nesting
stay below the reader's limits, and whose texts keep the halves of surrogate pairs apart. Such a
value nests no deeper than there is room for (`Json.IsReadable.depth_le`).

The reader is recursive in the text, but the induction is on the value: each value says what is read
of it (`Json.IsRead`), and the lists inside arrays and objects are read item by item. What is
printed is visible ASCII (`Json.IsReadable.isVisible`), so that it stays on its line.
-/

namespace ResourcePruner.Json

/-- The value can be read where so many more arrays and objects may be inside one another. -/
inductive IsReadable : (room : Nat) → Json → Prop
  | null {room : Nat} : IsReadable room .null
  | bool {room : Nat} (b : Bool) : IsReadable room (.bool b)
  | int {room : Nat} {n : Int} (hn : (Text.decimal n.natAbs).length ≤ Text.maxDigits) :
      IsReadable room (.int n)
  | real {room : Nat} {spelling : Text} (hspelling : IsNumeral spelling) :
      IsReadable room (.real spelling)
  | str {room : Nat} {text : Text} (htext : IsUnpaired text) : IsReadable room (.str text)
  | arr {room : Nat} {items : List Json} (hitems : ∀ item ∈ items, IsReadable room item) :
      IsReadable (room + 1) (.arr items)
  | obj {room : Nat} {fields : List (Text × Json)} (hnames : ∀ field ∈ fields, IsUnpaired field.1)
      (hvalues : ∀ field ∈ fields, IsReadable room field.2) : IsReadable (room + 1) (.obj fields)

theorem IsReadable.mono {room more : Nat} {value : Json} (hvalue : IsReadable room value)
    (hle : room ≤ more) : IsReadable more value := by
  induction hvalue generalizing more with
  | null => exact .null
  | bool b => exact .bool b
  | int hn => exact .int hn
  | real hspelling => exact .real hspelling
  | str htext => exact .str htext
  | arr hitems ih =>
      obtain ⟨more, rfl⟩ := Nat.exists_eq_add_of_le' (Nat.one_le_of_lt hle)
      exact .arr fun item hitem => ih item hitem (Nat.le_of_succ_le_succ hle)
  | obj hnames hvalues ih =>
      obtain ⟨more, rfl⟩ := Nat.exists_eq_add_of_le' (Nat.one_le_of_lt hle)
      exact .obj hnames fun field hfield => ih field hfield (Nat.le_of_succ_le_succ hle)

theorem IsReadable.depth_le {room : Nat} {value : Json} (hvalue : IsReadable room value) :
    value.depth ≤ room := by
  induction hvalue with
  | null | bool _ | int _ | real _ | str _ => exact Nat.zero_le _
  | arr hitems ih => exact itemsDepth_le_iff.mpr fun item hitem => Nat.succ_le_succ (ih item hitem)
  | obj hnames hvalues ih =>
      exact fieldsDepth_le_iff.mpr fun field hfield => Nat.succ_le_succ (ih field hfield)

/-- Printed, the value is read back in order, and what comes after it is left. -/
def IsRead (room : Nat) (value : Json) : Prop :=
  ∀ fuel rest, IsDelimited rest → 2 * (compact value).length + 1 ≤ fuel →
    readValue fuel room (compact value ++ rest) = .ok (value.sorted, rest)

/-! ## Where values start -/

theorem skipBlanks_cons (s : Symbol) (hs : s ≠ ' ' ∧ s ≠ '\t' ∧ s ≠ '\n' ∧ s ≠ '\r') (rest : Text) :
    skipBlanks (s :: rest) = s :: rest := by
  refine List.dropWhile_cons_of_neg ?_
  simpa [and_assoc] using hs

/-- The text starts neither with a blank nor with a closing bracket. -/
def HasStart (text : Text) : Prop :=
  ∃ s rest, text = s :: rest ∧ (s ≠ ' ' ∧ s ≠ '\t' ∧ s ≠ '\n' ∧ s ≠ '\r') ∧ s ≠ ']' ∧ s ≠ '}'

theorem HasStart.append {text : Text} (htext : HasStart text) (rest : Text) :
    HasStart (text ++ rest) := by
  obtain ⟨s, more, rfl, hs⟩ := htext
  exact ⟨s, more ++ rest, rfl, hs⟩

theorem HasStart.skipBlanks {text : Text} (htext : HasStart text) : skipBlanks text = text := by
  obtain ⟨s, rest, rfl, hs, -⟩ := htext
  exact skipBlanks_cons s hs rest

/-- The text starts as a number does. -/
def StartsNumber (text : Text) : Prop :=
  ∃ s rest, text = s :: rest ∧ (s = '-' ∨ Text.isDigit s = true)

theorem startsNumber_signOf (negative : Bool) {digits : Text} (hdigits : AreDigits digits)
    (rest : Text) : StartsNumber (signOf negative ++ (digits ++ rest)) := by
  cases negative with
  | true => exact ⟨'-', digits ++ rest, rfl, .inl rfl⟩
  | false =>
      obtain ⟨d, more, rfl⟩ := List.exists_cons_of_ne_nil hdigits.1
      exact ⟨d, more ++ rest, rfl, .inr (hdigits.2 d List.mem_cons_self)⟩

theorem startsNumber_printInt (n : Int) : StartsNumber (printInt n) := by
  cases n with
  | ofNat m =>
      have h := startsNumber_signOf false (areWholeDigits_decimal m).areDigits []
      rwa [List.append_nil] at h
  | negSucc m =>
      have h := startsNumber_signOf true (areWholeDigits_decimal (m + 1)).areDigits []
      rwa [List.append_nil] at h

theorem IsNumeral.startsNumber {spelling : Text} (hspelling : IsNumeral spelling) :
    StartsNumber spelling := by
  obtain ⟨negative, hwhole, -, -, -⟩ := hspelling
  rw [List.append_assoc, List.append_assoc]
  exact startsNumber_signOf negative hwhole.areDigits _

theorem StartsNumber.ne_of_not {s : Symbol} (hs : s = '-' ∨ Text.isDigit s = true) {c : Char}
    (hc : c ≠ '-' ∧ Text.isDigit (.char c) = false) : s ≠ c := by
  rintro rfl
  rcases hs with hs | hs
  · exact hc.1 (Symbol.char.inj hs)
  · rw [hc.2] at hs
    cases hs

theorem StartsNumber.hasStart {text : Text} (htext : StartsNumber text) : HasStart text := by
  obtain ⟨s, rest, rfl, hs⟩ := htext
  have hne (c : Char) := @StartsNumber.ne_of_not s hs c
  exact ⟨s, rest, rfl, ⟨hne ' ' (by decide), hne '\t' (by decide), hne '\n' (by decide),
    hne '\r' (by decide)⟩, hne ']' (by decide), hne '}' (by decide)⟩

/-- What starts as a number does is read as a word or a number. -/
theorem StartsNumber.readValue_eq {text : Text} (htext : StartsNumber text) (fuel room : Nat)
    (rest : Text) : readValue (fuel + 1) room (text ++ rest) = readAtom (text ++ rest) := by
  obtain ⟨s, more, rfl, hs⟩ := htext
  have hne (c : Char) := @StartsNumber.ne_of_not s hs c
  rw [List.cons_append, readValue]
  · intro left h
    exact hne '"' (by decide) (List.cons.inj h).1
  · intro left h
    exact hne '[' (by decide) (List.cons.inj h).1
  · intro left h
    exact hne '{' (by decide) (List.cons.inj h).1

theorem IsReadable.hasStart {room : Nat} {value : Json} (hvalue : IsReadable room value) :
    HasStart (compact value) := by
  cases hvalue with
  | null => rw [compact]; exact ⟨'n', _, rfl, by decide⟩
  | bool b =>
      cases b with
      | true => rw [compact]; exact ⟨'t', _, rfl, by decide⟩
      | false => rw [compact]; exact ⟨'f', _, rfl, by decide⟩
  | @int _ n _ => rw [compact]; exact (startsNumber_printInt n).hasStart
  | real hspelling => rw [compact]; exact hspelling.startsNumber.hasStart
  | str => rw [compact]; exact ⟨'"', _, rfl, by decide⟩
  | arr => rw [compact_arr]; exact ⟨'[', _, rfl, by decide⟩
  | obj => rw [compact_obj]; exact ⟨'{', _, rfl, by decide⟩

/-! ## Items and fields, one after another -/

theorem separated_cons (separator first second : Text) (rest : List Text) :
    separated separator (first :: second :: rest)
      = first ++ (separator ++ separated separator (second :: rest)) := by
  rw [separated, List.append_assoc]
  exact nofun

theorem hasStart_separated {first : Text} (hfirst : HasStart first) (separator : Text)
    (rest : List Text) : HasStart (separated separator (first :: rest)) := by
  cases rest with
  | nil => exact hfirst
  | cons second rest =>
      rw [separated_cons]
      exact hfirst.append _

theorem readItems_last {fuel room : Nat} {text left : Text} {item : Json}
    (hitem : readValue fuel room text = .ok (item, .char ']' :: left)) :
    readItems (fuel + 1) room text = .ok ([item], left) := by
  rw [readItems, hitem]
  simp only [skipBlanks_cons (.char ']') (by decide)]

theorem readItems_next {fuel room : Nat} {text left : Text} {item : Json}
    (hitem : readValue fuel room text = .ok (item, .char ',' :: .char ' ' :: left))
    (hleft : HasStart left) :
    readItems (fuel + 1) room text
      = (readItems fuel room left).map fun (items, left) => (item :: items, left) := by
  have hblank : skipBlanks (.char ' ' :: left) = left := hleft.skipBlanks
  rw [readItems, hitem]
  simp only [skipBlanks_cons (.char ',') (by decide), hblank]

theorem readItems_compact {room : Nat} {items : List Json} (hnonempty : items ≠ [])
    (hreadable : ∀ item ∈ items, IsReadable room item) (hread : ∀ item ∈ items, IsRead room item)
    (fuel : Nat) (rest : Text)
    (hfuel : 2 * (separated ", " (items.map compact)).length + 2 ≤ fuel) :
    readItems fuel room (separated ", " (items.map compact) ++ .char ']' :: rest)
      = .ok (items.map sorted, rest) := by
  induction items generalizing fuel with
  | nil => exact absurd rfl hnonempty
  | cons item items ih =>
      obtain ⟨hitem, hread⟩ := List.forall_mem_cons.mp hread
      obtain ⟨-, hreadable⟩ := List.forall_mem_cons.mp hreadable
      obtain ⟨fuel, rfl⟩ : ∃ less, fuel = less + 1 := ⟨fuel - 1, by omega⟩
      cases items with
      | nil =>
          have hlength : 2 * (compact item).length + 1 ≤ fuel := Nat.le_of_succ_le_succ hfuel
          exact readItems_last
            (hitem fuel _ (fun s hs => .inr (.inl (Option.some.inj hs).symm)) hlength)
      | cons next items =>
          have hstart : HasStart (separated ", " ((next :: items).map compact)) :=
            hasStart_separated (hreadable next List.mem_cons_self).hasStart _ _
          rw [List.map_cons, List.map_cons, separated_cons, ← List.map_cons] at hfuel ⊢
          have hcomma : (Text.ofString ", ").length = 2 := rfl
          simp only [List.length_append, hcomma] at hfuel
          have hitem := hitem fuel
            (.char ',' :: .char ' ' :: (separated ", " ((next :: items).map compact)
              ++ .char ']' :: rest))
            (fun s hs => .inl (Option.some.inj hs).symm) (by omega)
          have hitems := ih (List.cons_ne_nil next items) hreadable hread fuel (by omega)
          rw [List.append_assoc, List.append_assoc]
          refine (readItems_next hitem (hstart.append _)).trans ?_
          rw [hitems]
          rfl

theorem printField_append (name : Text) (value : Json) (rest : Text) :
    printField (name, value) ++ rest
      = .char '"' :: (name.flatMap escapeSymbol
          ++ .char '"' :: .char ':' :: .char ' ' :: (compact value ++ rest)) := by
  simp [printField, printString, Text.ofString, Text.ofChars]

theorem readFields_last {fuel room : Nat} {before : List (Text × Json)} {name left : Text}
    {value printed : Json} (hname : IsUnpaired name) (hstart : HasStart (compact printed))
    (hvalue : readValue fuel room (compact printed ++ .char '}' :: left)
      = .ok (value, .char '}' :: left)) :
    readFields (fuel + 1) room before (printField (name, printed) ++ .char '}' :: left)
      = .ok (setField name value before, left) := by
  have hblank : skipBlanks (.char ' ' :: (compact printed ++ .char '}' :: left))
      = compact printed ++ .char '}' :: left := (hstart.append _).skipBlanks
  rw [printField_append, readFields, readString_printed hname]
  simp only [skipBlanks_cons (.char ':') (by decide), hblank, hvalue,
    skipBlanks_cons (.char '}') (by decide)]

theorem readFields_next {fuel room : Nat} {before : List (Text × Json)} {name left : Text}
    {value printed : Json} (hname : IsUnpaired name) (hstart : HasStart (compact printed))
    (hvalue : readValue fuel room (compact printed ++ .char ',' :: .char ' ' :: left)
      = .ok (value, .char ',' :: .char ' ' :: left)) (hleft : HasStart left) :
    readFields (fuel + 1) room before (printField (name, printed) ++ .char ',' :: .char ' ' :: left)
      = readFields fuel room (setField name value before) left := by
  have hblank : skipBlanks (.char ' ' :: (compact printed ++ .char ',' :: .char ' ' :: left))
      = compact printed ++ .char ',' :: .char ' ' :: left := (hstart.append _).skipBlanks
  have hnext : skipBlanks (.char ' ' :: left) = left := hleft.skipBlanks
  rw [printField_append, readFields, readString_printed hname]
  simp only [skipBlanks_cons (.char ':') (by decide), hblank, hvalue,
    skipBlanks_cons (.char ',') (by decide), hnext]

/-- A name that the fields do not have yet is put after them. -/
theorem setField_of_not_mem {name : Text} {fields : List (Text × Json)}
    (hname : name ∉ fields.map Prod.fst) (value : Json) :
    setField name value fields = fields ++ [(name, value)] := by
  induction fields with
  | nil => rfl
  | cons field fields ih =>
      rw [List.map_cons, List.mem_cons, not_or] at hname
      rw [setField, if_neg fun h => hname.1 h.symm, ih hname.2, List.cons_append]

theorem setField_of_nodup {before fields : List (Text × Json)} {name : Text} {old : Json}
    (hdistinct : ((before ++ (name, old) :: fields).map Prod.fst).Nodup) (value : Json) :
    setField name value before = before ++ [(name, value)] := by
  refine setField_of_not_mem (fun hmem => ?_) value
  rw [List.map_append, List.nodup_append] at hdistinct
  exact hdistinct.2.2 name hmem name List.mem_cons_self rfl

theorem length_compact_le (name : Text) (value : Json) :
    (compact value).length ≤ (printField (name, value)).length := by
  simp only [printField, List.length_append]
  omega

theorem readFields_compact {room : Nat} {fields : List (Text × Json)} (hnonempty : fields ≠ [])
    (hnames : ∀ field ∈ fields, IsUnpaired field.1)
    (hreadable : ∀ field ∈ fields, IsReadable room field.2)
    (hread : ∀ field ∈ fields, IsRead room field.2) (before : List (Text × Json))
    (hdistinct : ((before ++ fields).map Prod.fst).Nodup)
    (fuel : Nat) (rest : Text)
    (hfuel : 2 * (separated ", " (fields.map printField)).length + 2 ≤ fuel) :
    readFields fuel room before (separated ", " (fields.map printField) ++ .char '}' :: rest)
      = .ok (before ++ fields.map fun field => (field.1, field.2.sorted), rest) := by
  induction fields generalizing fuel before with
  | nil => exact absurd rfl hnonempty
  | cons field fields ih =>
      obtain ⟨name, value⟩ := field
      have hvalue : IsRead room value := hread (name, value) List.mem_cons_self
      have hstart : HasStart (compact value) :=
        (hreadable (name, value) List.mem_cons_self).hasStart
      have hname : IsUnpaired name := hnames (name, value) List.mem_cons_self
      obtain ⟨fuel, rfl⟩ : ∃ less, fuel = less + 1 := ⟨fuel - 1, by omega⟩
      have hlength := length_compact_le name value
      have hset := setField_of_nodup hdistinct value.sorted
      cases fields with
      | nil =>
          have hfuel : 2 * (compact value).length + 1 ≤ fuel := by
            simp only [List.map_cons, List.map_nil, separated] at hfuel
            omega
          have hvalue := hvalue fuel (.char '}' :: rest)
            (fun s hs => .inr (.inr (Option.some.inj hs).symm)) hfuel
          rw [List.map_cons, List.map_nil, separated,
            readFields_last hname hstart hvalue, hset]
          rfl
      | cons next fields =>
          have hnext : HasStart (separated ", " ((next :: fields).map printField)) :=
            hasStart_separated ⟨'"', _, rfl, by decide⟩ _ _
          rw [List.map_cons, List.map_cons, separated_cons, ← List.map_cons] at hfuel ⊢
          have hcomma : (Text.ofString ", ").length = 2 := rfl
          simp only [List.length_append, hcomma] at hfuel
          have hvalue := hvalue fuel
            (.char ',' :: .char ' ' :: (separated ", " ((next :: fields).map printField)
              ++ .char '}' :: rest))
            (fun s hs => .inl (Option.some.inj hs).symm) (by omega)
          have hdistinct :
              ((before ++ [(name, value.sorted)] ++ next :: fields).map Prod.fst).Nodup := by
            simpa using hdistinct
          have hfields := ih (List.cons_ne_nil next fields)
            (fun field hfield => hnames field (List.mem_cons_of_mem _ hfield))
            (fun field hfield => hreadable field (List.mem_cons_of_mem _ hfield))
            (fun field hfield => hread field (List.mem_cons_of_mem _ hfield)) _ hdistinct fuel
            (by omega)
          rw [List.append_assoc, List.append_assoc]
          refine (readFields_next hname hstart hvalue (hnext.append _)).trans ?_
          rw [hset, hfields, List.append_assoc]
          rfl

/-! ## Values -/

theorem readValue_arr {fuel room : Nat} {text : Text} (htext : HasStart text) :
    readValue (fuel + 1) (room + 1) (.char '[' :: text)
      = (readItems fuel room text).map fun (items, left) => (.arr items, left) := by
  obtain ⟨s, rest, rfl, hblank, hbracket, -⟩ := htext
  rw [readValue]
  simp only [skipBlanks_cons s hblank]
  split
  · rename_i h
    exact absurd (List.cons.inj h).1 hbracket
  · rfl

theorem readValue_obj {fuel room : Nat} {text : Text} (htext : HasStart text) :
    readValue (fuel + 1) (room + 1) (.char '{' :: text)
      = (readFields fuel room [] text).map fun (fields, left) => (.obj fields, left) := by
  obtain ⟨s, rest, rfl, hblank, -, hbrace⟩ := htext
  rw [readValue]
  simp only [skipBlanks_cons s hblank]
  split
  · rename_i h
    exact absurd (List.cons.inj h).1 hbrace
  · rfl

/-- Reading a value takes at least one step. -/
theorem isRead_of_succ {room : Nat} {value : Json}
    (hread : ∀ fuel rest, IsDelimited rest → 2 * (compact value).length ≤ fuel →
      readValue (fuel + 1) room (compact value ++ rest) = .ok (value.sorted, rest)) :
    IsRead room value := by
  intro fuel rest hrest hfuel
  obtain ⟨fuel, rfl⟩ : ∃ less, fuel = less + 1 := ⟨fuel - 1, by omega⟩
  exact hread fuel rest hrest (by omega)

theorem isRead_arr {room : Nat} {items : List Json} (hitems : ∀ item ∈ items, IsReadable room item)
    (hread : ∀ item ∈ items, IsRead room item) : IsRead (room + 1) (.arr items) := by
  refine isRead_of_succ fun fuel rest _ hfuel => ?_
  have hprinted : compact (.arr items) ++ rest
      = .char '[' :: (separated ", " (items.map compact) ++ .char ']' :: rest) := by
    simp [compact_arr, Text.ofString, Text.ofChars]
  have hlength : (compact (.arr items)).length
      = (separated ", " (items.map compact)).length + 2 := by
    simp [compact_arr, Text.ofString, Text.ofChars]
  rw [hprinted]
  cases items with
  | nil => rfl
  | cons item items =>
      have hstart := hasStart_separated (hitems item List.mem_cons_self).hasStart ", "
        (items.map compact)
      refine (readValue_arr (hstart.append _)).trans ?_
      have hread :=
        readItems_compact (List.cons_ne_nil item items) hitems hread fuel rest (by omega)
      rw [← List.map_cons, hread, sorted_arr]
      rfl

theorem isRead_obj {room : Nat} {fields : List (Text × Json)}
    (hnames : ∀ field ∈ fields, IsUnpaired field.1)
    (hvalues : ∀ field ∈ fields, IsReadable room field.2)
    (hread : ∀ field ∈ fields, IsRead room field.2) : IsRead (room + 1) (.obj fields) := by
  refine isRead_of_succ fun fuel rest _ hfuel => ?_
  have hprinted : compact (.obj fields) ++ rest
      = .char '{' :: (separated ", " ((sortFields fields).map printField)
          ++ .char '}' :: rest) := by
    simp [compact_obj, Text.ofString, Text.ofChars]
  have hlength : (compact (.obj fields)).length
      = (separated ", " ((sortFields fields).map printField)).length + 2 := by
    simp [compact_obj, Text.ofString, Text.ofChars]
  have hsub : ∀ field ∈ sortFields fields, field ∈ fields := fun _ => mem_of_mem_sortFields
  have hdistinct := nodup_sortFields fields
  rw [hprinted, sorted_obj]
  generalize sortFields fields = inOrder at *
  cases inOrder with
  | nil => rfl
  | cons field others =>
      have hstart : HasStart (separated ", " ((field :: others).map printField)) :=
        hasStart_separated ⟨'"', _, rfl, by decide⟩ _ _
      refine (readValue_obj (hstart.append _)).trans ?_
      have hread := readFields_compact (List.cons_ne_nil field others)
        (fun field hfield => hnames field (hsub field hfield))
        (fun field hfield => hvalues field (hsub field hfield))
        (fun field hfield => hread field (hsub field hfield)) [] hdistinct fuel rest (by omega)
      rw [hread]
      rfl

theorem IsReadable.isRead {room : Nat} {value : Json} (hvalue : IsReadable room value) :
    IsRead room value := by
  induction hvalue with
  | null =>
      refine isRead_of_succ fun fuel rest _ _ => ?_
      rw [compact]
      rfl
  | bool b =>
      refine isRead_of_succ fun fuel rest _ _ => ?_
      cases b <;> (rw [compact]; rfl)
  | @int room n hn =>
      refine isRead_of_succ fun fuel rest hrest _ => ?_
      rw [compact, (startsNumber_printInt n).readValue_eq, readAtom_printInt hn hrest]
      rfl
  | real hspelling =>
      refine isRead_of_succ fun fuel rest hrest _ => ?_
      rw [compact, hspelling.startsNumber.readValue_eq, readAtom_numeral hspelling hrest]
      rfl
  | @str room text htext =>
      refine isRead_of_succ fun fuel rest _ _ => ?_
      have hprinted : compact (.str text) ++ rest
          = .char '"' :: (text.flatMap escapeSymbol ++ .char '"' :: rest) := by
        simp [compact, printString, Text.ofString, Text.ofChars]
      rw [hprinted, readValue, readString_printed htext]
      rfl
  | arr hitems ih => exact isRead_arr hitems ih
  | obj hnames hvalues ih => exact isRead_obj hnames hvalues ih

/-- A value printed on one line is read back, its objects in the order of their names. -/
theorem parse_compact {value : Json} (hvalue : IsReadable maxDepth value) :
    parse (compact value) = .ok value.sorted := by
  have hread := hvalue.isRead (2 * (compact value).length + 2) [] isDelimited_nil (by omega)
  rw [List.append_nil] at hread
  rw [parse, hvalue.hasStart.skipBlanks, hread]
  rfl

/-! ## What is printed can be seen -/

theorem isVisible_of_isDigit {s : Symbol} (hs : Text.isDigit s = true) : IsVisible s := by
  cases s with
  | half n => cases hs
  | char c =>
      have hc : c.isDigit = true := hs
      simp only [Char.isDigit, Bool.and_eq_true, decide_eq_true_eq, UInt32.le_iff_toNat_le] at hc
      rw [IsVisible, Symbol.code]
      have hlow : 48 ≤ c.toNat := hc.1
      have hhigh : c.toNat ≤ 57 := hc.2
      omega

theorem AreDigits.isVisible {digits : Text} (hdigits : AreDigits digits) :
    ∀ s ∈ digits, IsVisible s :=
  fun s hs => isVisible_of_isDigit (hdigits.2 s hs)

theorem isVisible_signOf (negative : Bool) : ∀ s ∈ signOf negative, IsVisible s := by
  cases negative <;> decide

theorem isVisible_printInt (n : Int) : ∀ s ∈ printInt n, IsVisible s := by
  have hdecimal (m : Nat) := (areWholeDigits_decimal m).areDigits.isVisible
  cases n with
  | ofNat m => exact hdecimal m
  | negSucc m => exact List.forall_mem_cons.mpr ⟨by decide, hdecimal (m + 1)⟩

theorem IsNumeral.isVisible {spelling : Text} (hspelling : IsNumeral spelling) :
    ∀ s ∈ spelling, IsVisible s := by
  obtain ⟨negative, hwhole, hfraction, hexponent, -⟩ := hspelling
  refine List.forall_mem_append.mpr ⟨List.forall_mem_append.mpr ⟨List.forall_mem_append.mpr
    ⟨isVisible_signOf negative, hwhole.areDigits.isVisible⟩, ?_⟩, ?_⟩
  · cases hfraction with
    | nil => exact fun _ h => nomatch h
    | point hdigits => exact List.forall_mem_cons.mpr ⟨by decide, hdigits.isVisible⟩
  · cases hexponent with
    | nil => exact fun _ h => nomatch h
    | power he hsign hdigits =>
        refine List.forall_mem_append.mpr ⟨List.forall_mem_cons.mpr ⟨?_, ?_⟩, hdigits.isVisible⟩
        · rcases he with rfl | rfl <;> decide
        · rcases hsign with rfl | rfl | rfl <;> decide

theorem isVisible_separated {texts : List Text} (htexts : ∀ text ∈ texts, ∀ s ∈ text, IsVisible s) :
    ∀ s ∈ separated ", " texts, IsVisible s := by
  induction texts with
  | nil => exact fun _ h => nomatch h
  | cons first rest ih =>
      obtain ⟨hfirst, hrest⟩ := List.forall_mem_cons.mp htexts
      cases rest with
      | nil => exact hfirst
      | cons second rest =>
          rw [separated_cons]
          exact List.forall_mem_append.mpr
            ⟨hfirst, List.forall_mem_append.mpr ⟨by decide, ih hrest⟩⟩

/-- A printed value is on one line: it is made of visible symbols of ASCII and blanks. -/
theorem IsReadable.isVisible {room : Nat} {value : Json} (hvalue : IsReadable room value) :
    ∀ s ∈ compact value, IsVisible s := by
  have hinside (opening closing : Text) (hopening : ∀ s ∈ opening, IsVisible s)
      (hclosing : ∀ s ∈ closing, IsVisible s) {texts : List Text}
      (htexts : ∀ text ∈ texts, ∀ s ∈ text, IsVisible s) :
      ∀ s ∈ opening ++ separated ", " texts ++ closing, IsVisible s :=
    List.forall_mem_append.mpr
      ⟨List.forall_mem_append.mpr ⟨hopening, isVisible_separated htexts⟩, hclosing⟩
  induction hvalue with
  | null => rw [compact]; decide
  | bool b => cases b <;> (rw [compact]; decide)
  | @int room n _ => rw [compact]; exact isVisible_printInt n
  | real hspelling => rw [compact]; exact hspelling.isVisible
  | @str room text _ => rw [compact]; exact isVisible_printString text
  | @arr room items hitems ih =>
      rw [compact_arr]
      refine hinside "[" "]" (by decide) (by decide) ?_
      intro text htext
      obtain ⟨item, hitem, rfl⟩ := List.mem_map.mp htext
      exact ih item hitem
  | @obj room fields hnames hvalues ih =>
      rw [compact_obj]
      refine hinside "\x7b" "\x7d" (by decide) (by decide) ?_
      intro text htext
      obtain ⟨field, hfield, rfl⟩ := List.mem_map.mp htext
      refine List.forall_mem_append.mpr ⟨List.forall_mem_append.mpr
        ⟨isVisible_printString field.1, by decide⟩, ih field (mem_of_mem_sortFields hfield)⟩

end ResourcePruner.Json
