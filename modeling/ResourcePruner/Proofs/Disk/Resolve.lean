import ResourcePruner.Proofs.Disk.Spelling

/-!
# Resolved paths lead where the path leads

A path that leads somewhere resolves to the path at which it ends, unless no disk could have one of
the paths on the way (`Disk.resolve_of_leads`). So two such paths resolve to the same path only if
they lead to the same place, and the resolved path stays the same as long as no link changes.

The bound on nested links is no hindrance since every link entered is one of those followed; and no
link is met again while its own target is being followed, since the way through its target would
then be longer than itself.
-/

namespace ResourcePruner

/-- An absolute path all of whose parts go down. -/
def Path.IsPlain (path : Path) : Prop :=
  path.anchor = .root ∧ ∀ part ∈ path.parts, IsDown part

theorem Path.IsPlain.isAbsolute {path : Path} (hplain : path.IsPlain) : path.isAbsolute = true := by
  simp [Path.isAbsolute, hplain.1]

namespace Disk

theorem isPlain_rootPath : rootPath.IsPlain := ⟨rfl, nofun⟩

theorem isPlain_child {path : Path} (hplain : path.IsPlain) {name : Text} (hname : IsDown name) :
    (path.child name).IsPlain := by
  refine ⟨hplain.1, fun part hpart => ?_⟩
  rcases List.mem_append.mp hpart with h | h
  · exact hplain.2 part h
  · rw [List.mem_singleton.mp h]
    exact hname

theorem isPlain_parent {path : Path} (hplain : path.IsPlain) : path.parent.IsPlain :=
  ⟨hplain.1, fun part hpart => hplain.2 part ((List.dropLast_sublist _).subset hpart)⟩

theorem isPlain_linkStart {path : Path} (hplain : path.IsPlain) (target : Text) :
    (linkStart path target).IsPlain := by
  unfold linkStart
  split
  · exact isPlain_rootPath
  · exact hplain

theorem Leads.isPlain {disk : Disk} {n : Nat} {path goal : Path} {names : List Text}
    (hleads : Leads disk n path names goal) (hplain : path.IsPlain) : goal.IsPlain := by
  induction hleads with
  | done path => exact hplain
  | stay _ _ ih => exact ih hplain
  | up _ ih => exact ih (isPlain_parent hplain)
  | enter hname _ _ ih => exact ih (isPlain_child hplain hname)
  | last hname _ => exact isPlain_child hplain hname
  | follow _ _ _ _ _ iht ihr => exact ihr (iht (isPlain_linkStart hplain _))

/-! ## Spellings -/

/-- While names are followed, the path reached so far spells a plain path: it is that path, or it
goes on from the working directory, first up and then down. -/
inductive Spells (disk : Disk) : (path plain : Path) → Prop
  | root : Spells disk rootPath rootPath
  | here {start : Place} (hhome : disk.home = some start) (hstart : ∀ part ∈ start, IsDown part) :
      Spells disk ⟨.here, []⟩ ⟨.root, start⟩
  | back {path plain : Path} (hspells : Spells disk path plain) (hhere : path.anchor = .here)
      (hup : path.parts.all (· = "..") = true) : Spells disk (path.child "..") plain.parent
  | child {path plain : Path} (hspells : Spells disk path plain) {name : Text}
      (hname : IsDown name) :
      Spells disk (path.child name) (plain.child name)

namespace Spells

variable {disk : Disk} {path plain other : Path}

theorem isPlain (hspells : disk.Spells path plain) : plain.IsPlain := by
  induction hspells with
  | root => exact isPlain_rootPath
  | here _ hstart => exact ⟨rfl, hstart⟩
  | back _ _ _ ih => exact isPlain_parent ih
  | child _ hname ih => exact isPlain_child ih hname

theorem anchor (hspells : disk.Spells path plain) : path.anchor = .here ∨ path.anchor = .root := by
  induction hspells with
  | root => exact .inr rfl
  | here => exact .inl rfl
  | back _ hhere _ => exact .inl hhere
  | child _ _ ih => exact ih

theorem spelledPlace? (hspells : disk.Spells path plain) :
    disk.spelledPlace? path = some plain.parts := by
  have hchild : ∀ {path plain : Path} {name : Text}, disk.spelledPlace? path = some plain.parts →
      disk.spelledPlace? (path.child name)
        = some (if name = "" || name = "." then plain.parts
          else if name = ".." then plain.parts.dropLast else plain.parts ++ [name]) := by
    intro path plain name hplace
    obtain ⟨start, hstart, hfold⟩ := Option.map_eq_some_iff.mp hplace
    have hstart' : disk.startOf (path.child name) = some start := hstart
    rw [Disk.spelledPlace?, hstart', Option.map_some, Path.child, List.foldl_append, hfold]
    rfl
  induction hspells with
  | root => rfl
  | here hhome =>
      rw [Disk.spelledPlace?, startOf, hhome]
      rfl
  | back _ _ _ ih => exact hchild ih
  | child _ hname ih =>
      rw [hchild ih, if_neg (by simp [hname.1, hname.2.1]), if_neg hname.2.2]
      rfl

theorem unique (hspells : disk.Spells path plain) (hother : disk.Spells path other) :
    plain = other := by
  have hparts := hspells.spelledPlace?.symm.trans hother.spelledPlace?
  obtain ⟨anchor, parts⟩ := plain
  obtain ⟨anchor', parts'⟩ := other
  obtain rfl : anchor = .root := hspells.isPlain.1
  obtain rfl : anchor' = .root := hother.isPlain.1
  obtain rfl : parts = parts' := Option.some.inj hparts
  rfl

theorem stepBack (hspells : disk.Spells path plain) : disk.Spells (stepBack path) plain.parent := by
  cases hspells with
  | root => exact .root
  | here hhome hstart => exact .back (.here hhome hstart) rfl rfl
  | back hspells hhere hup =>
      have hagain := Spells.back hspells hhere hup
      rw [Disk.stepBack, if_pos]
      · exact .back hagain hhere (by simpa [Path.child] using hup)
      · simpa [Path.child, hhere] using hup
  | @child path plain hspells name hname =>
      rw [Disk.stepBack, if_neg, Path.parent_child, Path.parent_child]
      · exact hspells
      · simp [Path.child, hname.2.2]

theorem linkStart (hspells : disk.Spells path plain) (target : Text) :
    disk.Spells (linkStart path target) (linkStart plain target) := by
  unfold Disk.linkStart
  split
  · exact .root
  · exact hspells

theorem entryOf (hspells : disk.Spells path plain) : disk.entryOf path = disk.get? plain.place := by
  rw [Disk.entryOf, hspells.spelledPlace?]
  rfl

theorem spelled (hspells : disk.Spells path plain) : disk.spelled path = .ok plain := by
  have hanchor : (if path.anchor = .here then .root else path.anchor) = Anchor.root := by
    rcases hspells.anchor with h | h <;> simp [h]
  obtain ⟨anchor, parts⟩ := plain
  obtain rfl : anchor = .root := hspells.isPlain.1
  rw [Disk.spelled, hspells.spelledPlace?]
  simp only [hanchor]

end Spells

/-- A step back can be spelled. -/
theorem areSpellable_stepBack {path : Path} (hparts : AreSpellable path.parts) :
    AreSpellable (stepBack path).parts := by
  have hdot : IsSpelled (.char '.') := ⟨by decide, nofun⟩
  have hup : IsSpellable ".." := isSpellable_iff.mpr
    (List.forall_mem_cons.mpr ⟨hdot, List.forall_mem_singleton.mpr hdot⟩)
  rw [stepBack]
  split
  · exact areSpellable_child hparts hup
  · exact areSpellable_parent hparts

/-! ## Empty names -/

/-- Names without the empty ones, but for one at the end. -/
def squeeze (names : List Text) : List Text :=
  names.filter (· ≠ []) ++ if names.getLastD [] = [] then [[]] else []

theorem squeeze_cons_empty (rest : List Text) : squeeze ([] :: rest) = squeeze rest := by
  cases rest <;> rfl

theorem squeeze_cons {name : Text} (hname : name ≠ []) {rest : List Text} (hrest : rest ≠ []) :
    squeeze (name :: rest) = name :: squeeze rest := by
  obtain ⟨first, more, rfl⟩ := List.exists_cons_of_ne_nil hrest
  simp [squeeze, hname]

theorem squeeze_ne_nil {names : List Text} (hnames : names ≠ []) : squeeze names ≠ [] := by
  induction names with
  | nil => exact absurd rfl hnames
  | cons name rest ih =>
      by_cases hname : name = []
      · subst hname
        rw [squeeze_cons_empty]
        cases rest with
        | nil => decide
        | cons _ _ => exact ih (List.cons_ne_nil _ _)
      · simp [squeeze, hname]

/-- Empty names on the way make no difference. -/
theorem Leads.of_squeeze {disk : Disk} {n : Nat} {path goal : Path} {names : List Text}
    (hleads : Leads disk n path (squeeze names) goal) : Leads disk n path names goal := by
  induction names generalizing n path with
  | nil => exact hleads.of_stay (.inl rfl)
  | cons name rest ih =>
      by_cases hname : name = []
      · subst hname
        rw [squeeze_cons_empty] at hleads
        exact .stay (.inl rfl) (ih hleads)
      · by_cases hrest : rest = []
        · subst hrest
          simpa [squeeze, hname] using hleads
        · rw [squeeze_cons hname hrest] at hleads
          generalize hmore : squeeze rest = more at hleads
          cases hleads with
          | stay hstay hleads => exact .stay hstay (ih (hmore ▸ hleads))
          | up hleads => exact .up (ih (hmore ▸ hleads))
          | enter hdown hentry hleads => exact .enter hdown hentry (ih (hmore ▸ hleads))
          | last => exact absurd hmore (squeeze_ne_nil hrest)
          | follow hdown hentry htarget hmiddle hleads =>
              refine .follow hdown hentry htarget (.inr ?_) (ih (hmore ▸ hleads))
              exact hmiddle.resolve_left (hmore ▸ squeeze_ne_nil hrest)

/-- The names that a resolution follows through a link are those of its target, but for empty
ones. -/
theorem squeeze_splitAt_dropWhile (target : Text) :
    squeeze (Text.splitAt '/' (target.dropWhile (· = .char '/'))) = targetParts target := by
  change _ = squeeze (Text.splitAt '/' target)
  induction target with
  | nil => rfl
  | cons s rest ih =>
      by_cases hs : s = .char '/'
      · subst hs
        rw [List.dropWhile_cons_of_pos (by simp), ih, Text.splitAt, if_pos rfl, squeeze_cons_empty]
      · rw [List.dropWhile_cons_of_neg (by simpa using hs)]

/-! ## Resolution -/

/-- The way through the target of the link at a path is at least so many links long. -/
def Outlasts (disk : Disk) (n : Nat) (link : Path) : Prop :=
  ∃ m target middle, disk.get? link.place = some (.link target)
    ∧ Leads disk m (linkStart link.parent target) (targetParts target) middle ∧ n ≤ m

theorem Outlasts.mono {disk : Disk} {n m : Nat} {link : Path} (houtlasts : Outlasts disk n link)
    (hm : m ≤ n) : Outlasts disk m link := by
  obtain ⟨k, target, middle, hentry, hleads, hn⟩ := houtlasts
  exact ⟨k, target, middle, hentry, hleads, Nat.le_trans hm hn⟩

/-- A resolution that yields a spelling of the given path, or stops at a path that no disk can have,
which does not happen if everything on the way can be spelled. -/
def Yields (disk : Disk) (spelled : Prop) (resolution : Resolution) (goal : Path) : Prop :=
  (∃ reached, resolution = .reached reached ∧ disk.Spells reached goal
      ∧ (spelled → AreSpellable reached.parts))
    ∨ ¬ spelled ∧ ∃ fault, resolution = .impossible fault

theorem resolveNames_cons_stay {disk : Disk}
    {expand : (link start : Path) → List Text → Resolution} {path : Path} {name : Text}
    {rest : List Text} (hname : name = "" ∨ name = ".") :
    disk.resolveNames expand path (name :: rest) = disk.resolveNames expand path rest := by
  rw [resolveNames]
  simp [hname]

theorem resolveNames_cons_up {disk : Disk}
    {expand : (link start : Path) → List Text → Resolution} {path : Path} {rest : List Text} :
    disk.resolveNames expand path
    (".." :: rest) = disk.resolveNames expand (stepBack path) rest := by
  rw [resolveNames, if_neg (by decide), if_pos rfl]

/-- A name that goes down is entered, or followed if a link lies there, unless no disk can have the
path. -/
theorem resolveNames_cons_down {disk : Disk}
    {expand : (link start : Path) → List Text → Resolution} {path plain : Path}
    (hspells : disk.Spells path plain) {name : Text} {rest : List Text} (hname : IsDown name) :
    (¬ IsSpellable (path.child name).text
        ∧ ∃ fault, disk.resolveNames expand path (name :: rest) = .impossible fault)
      ∨ (∀ target, disk.get? (plain.child name).place ≠ some (.link target))
          ∧ disk.resolveNames expand path (name :: rest)
            = disk.resolveNames expand (path.child name) rest
      ∨ ∃ target, disk.get? (plain.child name).place = some (.link target)
          ∧ disk.resolveNames expand path (name :: rest) =
            match expand (path.child name) (linkStart path target)
                (Text.splitAt '/' (target.dropWhile (· = .char '/'))) with
            | .reached inner => disk.resolveNames expand inner rest
            | .looped way => .looped (followedBy way rest)
            | .impossible fault => .impossible fault := by
  rw [resolveNames, if_neg (by simp [hname.1, hname.2.1]), if_neg hname.2.2]
  simp only [(hspells.child hname).entryOf]
  cases hfault : pathFault? (path.child name).text with
  | some fault => exact .inl ⟨by simp [IsSpellable, hfault], fault, rfl⟩
  | none =>
      refine .inr ?_
      cases disk.get? (plain.child name).place with
      | none => exact .inl ⟨by simp, rfl⟩
      | some entry =>
          cases entry with
          | directory => exact .inl ⟨by simp, rfl⟩
          | file content => exact .inl ⟨by simp, rfl⟩
          | link target => exact .inr ⟨target, rfl, rfl⟩

/-- A resolution looks at links only, so that it may be one on an earlier disk. -/
theorem resolveFrom_of_leads {disk more : Disk} (hextends : Extends disk more) {spelled : Prop}
    (hlinks : spelled → more.HasSpellableLinks) {n : Nat} {path plain goal : Path}
    {names : List Text}
    (hleads : Leads more n plain names goal) (hspells : disk.Spells path plain)
    (hparts : spelled → AreSpellable path.parts) (hnames : spelled → AreSpellable names)
    {depth : Nat}
    (hn : n ≤ depth) {entered : List Path}
    (hentered : ∀ link ∈ entered, ∃ plain, disk.Spells link plain ∧ Outlasts more n plain) :
    Yields disk spelled (disk.resolveFrom (depth + 1) entered path names) goal := by
  induction n using Nat.strongRecOn generalizing path plain names goal depth entered with
  | ind n ihn =>
  induction names generalizing path plain with
  | nil =>
      obtain ⟨-, rfl⟩ := hleads.of_nil
      exact .inl ⟨path, rfl, hspells, hparts⟩
  | cons name rest ih =>
      rw [resolveFrom]
      have hrest : spelled → AreSpellable rest := fun h => (List.forall_mem_cons.mp (hnames h)).2
      have hchild : spelled → AreSpellable (path.child name).parts := fun h =>
        areSpellable_child (hparts h) (List.forall_mem_cons.mp (hnames h)).1
      rcases isDown_cases name with hname | rfl | hname
      · rw [resolveNames_cons_stay hname]
        exact ih (hleads.of_stay hname) hspells hparts hrest
      · rw [resolveNames_cons_up]
        exact ih hleads.of_up hspells.stepBack (fun h => areSpellable_stepBack (hparts h)) hrest
      · have hnext := hspells.child hname
        rcases resolveNames_cons_down hspells hname with ⟨hspelling, hfault⟩ | ⟨hlink, hsame⟩
          | ⟨target, hold, hsame⟩
        · exact .inr ⟨fun h => hspelling (isSpellable_text_iff.mpr (hchild h)), hfault⟩
        · rw [hsame]
          by_cases hdirectory : more.get? (plain.child name).place = some .directory
          · exact ih (hleads.of_directory hname hdirectory) hnext hchild hrest
          · have hend : IsEnd (more.get? (plain.child name).place) :=
              ⟨hdirectory, fun target h => hlink target ((hextends.link _ target).mpr h)⟩
            obtain ⟨-, rfl, rfl⟩ := hleads.of_end hname hend
            exact .inl ⟨path.child name, rfl, hnext, hchild⟩
        · rw [hsame]
          have hlies := (hextends.link _ _).mp hold
          obtain ⟨m, k, middle, rfl, htarget, -, hbehind⟩ := hleads.of_link hname hlies
          -- A link met again would have a way longer than itself.
          have hfresh : path.child name ∉ entered := by
            intro hmem
            obtain ⟨again, hagain, m', target', middle', hlies', htarget', hle⟩ := hentered _ hmem
            obtain rfl := hnext.unique hagain
            rw [hlies] at hlies'
            cases hlies'
            rw [Path.parent_child] at htarget'
            have := (htarget.unique htarget').1
            omega
          simp only [if_neg hfresh]
          have hwithin : ∀ link ∈ path.child name :: entered,
              ∃ plain, disk.Spells link plain ∧ Outlasts more m plain := by
            refine List.forall_mem_cons.mpr ⟨⟨_, hnext, ?_⟩, fun link hlink =>
              (hentered link hlink).imp fun _ h => ⟨h.1, h.2.mono (by omega)⟩⟩
            refine ⟨m, target, middle, hlies, ?_, Nat.le_refl m⟩
            rw [Path.parent_child]
            exact htarget
          obtain ⟨depth, rfl⟩ : ∃ d, depth = d + 1 := ⟨depth - 1, by omega⟩
          have hway : Leads more m (linkStart plain target)
              (Text.splitAt '/' (target.dropWhile (· = .char '/'))) middle := by
            refine Leads.of_squeeze ?_
            rw [squeeze_splitAt_dropWhile]
            exact htarget
          have hpieces : spelled →
              AreSpellable (Text.splitAt '/' (target.dropWhile (· = .char '/'))) := fun h =>
            areSpellable_splitAt (isSpellable_dropWhile (hlinks h _ _ hlies))
          have hinner := ihn m (by omega) hway (hspells.linkStart target)
            (fun h => areSpellable_linkStart (hparts h) target) hpieces
            (by omega : m ≤ depth) hwithin
          rcases hinner with ⟨inner, hreached, hinner, hspelled⟩ | ⟨hspelling, fault, hfault⟩
          · rw [hreached]
            exact ihn k (by omega) hbehind hinner hspelled hrest (by omega : k ≤ depth + 1)
              fun link hlink => (hentered link hlink).imp fun _ h => ⟨h.1, h.2.mono (by omega)⟩
          · rw [hfault]
            exact .inr ⟨hspelling, fault, rfl⟩

theorem isAbsolute_of_spelled {disk : Disk} {path resolved : Path}
    (hspelled : disk.spelled path = .ok resolved) : resolved.isAbsolute = true := by
  rw [spelled] at hspelled
  split at hspelled
  · cases hspelled
    rw [Path.isAbsolute, decide_eq_true_iff]
    simp only
    split
    · decide
    · assumption
  · cases hspelled

theorem isAbsolute_cutAtNul {path : Path} (habsolute : path.isAbsolute = true) :
    (cutAtNul path).isAbsolute = true := by
  have htext : ∃ rest, path.text = .char '/' :: rest := by
    obtain ⟨anchor, parts⟩ := path
    cases anchor with
    | here => cases habsolute
    | root => exact ⟨_, rfl⟩
    | doubleRoot => exact ⟨_, rfl⟩
  obtain ⟨rest, hrest⟩ := htext
  have hcut : ∃ rest, path.text.takeWhile (· ≠ .char '\x00') = .char '/' :: rest := by
    rw [hrest]
    exact ⟨_, rfl⟩
  obtain ⟨rest, hrest⟩ := hcut
  rw [cutAtNul, hrest, Path.isAbsolute, decide_eq_true_iff, Path.ofText, Path.anchorOf]
  simp only [List.takeWhile_cons, decide_true, if_true, List.length_cons]
  split <;> first | omega | decide

/-- A resolved path is absolute. -/
theorem isAbsolute_of_resolve {disk : Disk} {path resolved : Path}
    (hresolve : disk.resolve path = .ok resolved) : resolved.isAbsolute = true := by
  rw [resolve] at hresolve
  simp only at hresolve
  split at hresolve
  · exact isAbsolute_of_spelled hresolve
  · rename_i way _
    cases hspelled : disk.spelled way with
    | error fault =>
        rw [hspelled] at hresolve
        cases hresolve
    | ok spelling =>
        rw [hspelled] at hresolve
        simp only [bind, Except.bind] at hresolve
        have habsolute := isAbsolute_cutAtNul (isAbsolute_of_spelled hspelled)
        split at hresolve
        · cases hresolve
        · cases hresolve
        · cases hresolve
          exact habsolute
  · cases hresolve

/-- A path resolves to the path that its resolution yields, unless no disk can have a path on the
way. -/
theorem resolve_of_yields {disk : Disk} {path goal : Path} {spelled : Prop}
    (hyields : Yields disk spelled (disk.resolveFrom disk.spellingBound []
      ⟨if path.isAbsolute then .root else .here, []⟩ path.parts) goal) :
    disk.resolve path = .ok goal
      ∨ ¬ spelled ∧ ∃ fault, disk.resolve path = .error (.impossible fault) := by
  rw [resolve]
  simp only
  rcases hyields with ⟨reached, hreached, hspells, -⟩ | ⟨hspelling, fault, hfault⟩
  · rw [hreached]
    exact .inl hspells.spelled
  · rw [hfault]
    exact .inr ⟨hspelling, fault, rfl⟩

/-- A path that leads somewhere from where it starts resolves to the path at which it ends, even
before all directories on the way are made, unless no disk can have a path on the way. -/
theorem resolve_of_leads {disk more : Disk} (hextends : Extends disk more) {path base goal : Path}
    (hbase : disk.Spells ⟨if path.isAbsolute then .root else .here, []⟩ base) {n : Nat}
    (hn : n ≤ maxLinks) (hleads : Leads more n base path.parts goal) {spelled : Prop}
    (hlinks : spelled → more.HasSpellableLinks) (hparts : spelled → AreSpellable path.parts) :
    disk.resolve path = .ok goal
      ∨ ¬ spelled ∧ ∃ fault, disk.resolve path = .error (.impossible fault) := by
  have hbound : n ≤ disk.linkCount * ((disk.home.getD []).length + 2) + maxLinks := by omega
  exact resolve_of_yields <|
    resolveFrom_of_leads hextends hlinks hleads hbase (fun _ => List.forall_mem_nil _) hparts
      hbound nofun

theorem resolve_of_locates {disk more : Disk} (hextends : Extends disk more) {path goal : Path}
    (habsolute : path.isAbsolute = true) (hlocates : more.Locates path goal) {spelled : Prop}
    (hlinks : spelled → more.HasSpellableLinks) (hparts : spelled → AreSpellable path.parts) :
    disk.resolve path = .ok goal
      ∨ ¬ spelled ∧ ∃ fault, disk.resolve path = .error (.impossible fault) := by
  obtain ⟨n, hn, hleads⟩ := hlocates
  have hbase : disk.Spells ⟨if path.isAbsolute then .root else .here, []⟩ rootPath := by
    rw [if_pos habsolute]
    exact .root
  exact resolve_of_leads hextends hbase hn hleads hlinks hparts

/-- A path that leads somewhere resolves if it can be spelled and so can the targets of all
links. -/
theorem resolve_eq_of_locates {disk more : Disk} (hextends : Extends disk more) {path goal : Path}
    (habsolute : path.isAbsolute = true) (hlocates : more.Locates path goal)
    (hlinks : more.HasSpellableLinks) (hparts : AreSpellable path.parts) :
    disk.resolve path = .ok goal :=
  (resolve_of_locates hextends habsolute hlocates (fun _ => hlinks) fun _ => hparts).resolve_right
    fun h => h.1 trivial

/-- What a path resolves to is where it leads, now or later. -/
theorem eq_of_resolve {disk more : Disk} (hextends : Extends disk more) {path goal resolved : Path}
    (habsolute : path.isAbsolute = true) (hlocates : more.Locates path goal)
    (hresolve : disk.resolve path = .ok resolved) : resolved = goal := by
  rcases resolve_of_locates hextends habsolute hlocates False.elim False.elim with
    hgoal | ⟨-, fault, hfault⟩
  · rw [hgoal] at hresolve
    exact (Except.ok.inj hresolve).symm
  · rw [hfault] at hresolve
    cases hresolve

end Disk

end ResourcePruner
