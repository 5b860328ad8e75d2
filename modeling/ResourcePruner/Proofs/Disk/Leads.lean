import ResourcePruner.Disk.Resolve

/-!
# Where names lead

`Disk.Leads` says where names lead on a disk without a bound on the links followed, and counts them.
It speaks of paths without links as they are spelled; the place of such a path (`Path.place`) is
what looking it up finds. Looking a path up yields what `Leads` says, within the bound on links
(`Disk.ends_reachFrom`, `Disk.reachFrom_of_leads`), so that two statements about looking up follow
by induction on one relation: where names lead is determined (`Leads.unique`), and it stays the same
when directories are added (`Leads.mono`).
-/

namespace ResourcePruner

/-- A name that goes down from a directory. -/
def IsDown (name : Text) : Prop :=
  name ≠ "" ∧ name ≠ "." ∧ name ≠ ".."

/-- The place of an absolute path none of whose names is a link. -/
def Path.place (path : Path) : Place :=
  path.parts.map Utf8.canonicalName

@[simp] theorem Path.place_child (path : Path) (name : Text) :
    (path.child name).place = path.place ++ [Utf8.canonicalName name] := by
  simp [Path.place, Path.child]

@[simp] theorem Path.place_parent (path : Path) : path.parent.place = path.place.dropLast := by
  simp [Path.place, Path.parent, List.map_dropLast]

@[simp] theorem Path.parent_child (path : Path) (name : Text) :
    (path.child name).parent = path := by
  simp [Path.parent, Path.child]

namespace Disk

/-- Where the root is spelled. -/
def rootPath : Path := ⟨.root, []⟩

/-- The path from which the target of a link is followed that lies in the directory at `path`. -/
def linkStart (path : Path) (target : Text) : Path :=
  if (Text.ofString "/").isPrefixOf target then rootPath else path

theorem place_linkStart (path : Path) (target : Text) :
    (linkStart path target).place = targetStart path.place target := by
  unfold linkStart targetStart
  split <;> rfl

/-- An entry that ends the way: not a directory, and no link. -/
def IsEnd (entry : Option Entry) : Prop :=
  entry ≠ some .directory ∧ ∀ target, entry ≠ some (.link target)

theorem isEnd_none : IsEnd none := ⟨nofun, nofun⟩

theorem isEnd_file (content : Bytes) : IsEnd (some (.file content)) := ⟨nofun, nofun⟩

/-- From the directory at a path, names lead to the path `goal` through so many links. What lies at
the end may be missing. -/
inductive Leads (disk : Disk) : (links : Nat) → (path : Path) → List Text → (goal : Path) → Prop
  | done (path : Path) : Leads disk 0 path [] path
  | stay {n : Nat} {path goal : Path} {name : Text} {rest : List Text}
      (hname : name = "" ∨ name = ".") (hrest : Leads disk n path rest goal) :
      Leads disk n path (name :: rest) goal
  | up {n : Nat} {path goal : Path} {rest : List Text}
      (hrest : Leads disk n path.parent rest goal) : Leads disk n path (".." :: rest) goal
  | enter {n : Nat} {path goal : Path} {name : Text} {rest : List Text} (hname : IsDown name)
      (hentry : disk.get? (path.child name).place = some .directory)
      (hrest : Leads disk n (path.child name) rest goal) : Leads disk n path (name :: rest) goal
  | last {path : Path} {name : Text} (hname : IsDown name)
      (hentry : IsEnd (disk.get? (path.child name).place)) :
      Leads disk 0 path [name] (path.child name)
  | follow {m n : Nat} {path middle goal : Path} {name target : Text} {rest : List Text}
      (hname : IsDown name) (hentry : disk.get? (path.child name).place = some (.link target))
      (htarget : Leads disk m (linkStart path target) (targetParts target) middle)
      (hmiddle : rest = [] ∨ disk.get? middle.place = some .directory)
      (hrest : Leads disk n middle rest goal) : Leads disk (m + n + 1) path (name :: rest) goal

theorem isDown_cases (name : Text) : (name = "" ∨ name = ".") ∨ name = ".." ∨ IsDown name := by
  unfold IsDown
  by_cases h1 : name = ""
  · exact .inl (.inl h1)
  · by_cases h2 : name = "."
    · exact .inl (.inr h2)
    · by_cases h3 : name = ".."
      · exact .inr (.inl h3)
      · exact .inr (.inr ⟨h1, h2, h3⟩)

theorem not_isDown_stay {name : Text} (hname : name = "" ∨ name = ".") : ¬ IsDown name := by
  rintro ⟨h1, h2, -⟩
  exact hname.elim h1 h2

theorem not_isDown_up : ¬ IsDown ".." := fun h => h.2.2 rfl

theorem up_ne_stay : ¬ ((".." : Text) = "" ∨ (".." : Text) = ".") := by decide

namespace Leads

variable {disk : Disk}

/-! ## Taking steps back -/

theorem of_nil {n : Nat} {path goal : Path} (hleads : Leads disk n path [] goal) :
    n = 0 ∧ goal = path := by
  cases hleads
  exact ⟨rfl, rfl⟩

theorem of_stay {n : Nat} {path goal : Path} {name : Text} {rest : List Text}
    (hname : name = "" ∨ name = ".") (hleads : Leads disk n path (name :: rest) goal) :
    Leads disk n path rest goal := by
  cases hleads with
  | stay _ hrest => exact hrest
  | up => exact absurd hname up_ne_stay
  | enter hdown => exact absurd hdown (not_isDown_stay hname)
  | last hdown => exact absurd hdown (not_isDown_stay hname)
  | follow hdown => exact absurd hdown (not_isDown_stay hname)

theorem of_up {n : Nat} {path goal : Path} {rest : List Text}
    (hleads : Leads disk n path (".." :: rest) goal) : Leads disk n path.parent rest goal := by
  cases hleads with
  | stay hname => exact absurd hname up_ne_stay
  | up hrest => exact hrest
  | enter hdown => exact absurd hdown not_isDown_up
  | last hdown => exact absurd hdown not_isDown_up
  | follow hdown => exact absurd hdown not_isDown_up

theorem of_directory {n : Nat} {path goal : Path} {name : Text} {rest : List Text}
    (hname : IsDown name) (hentry : disk.get? (path.child name).place = some .directory)
    (hleads : Leads disk n path (name :: rest) goal) :
    Leads disk n (path.child name) rest goal := by
  cases hleads with
  | stay hstay => exact absurd hname (not_isDown_stay hstay)
  | up => exact absurd hname not_isDown_up
  | enter _ _ hrest => exact hrest
  | last _ hend => exact absurd hentry hend.1
  | follow _ hlink => rw [hentry] at hlink; cases hlink

theorem of_end {n : Nat} {path goal : Path} {name : Text} {rest : List Text}
    (hname : IsDown name) (hentry : IsEnd (disk.get? (path.child name).place))
    (hleads : Leads disk n path (name :: rest) goal) :
    n = 0 ∧ rest = [] ∧ goal = path.child name := by
  cases hleads with
  | stay hstay => exact absurd hname (not_isDown_stay hstay)
  | up => exact absurd hname not_isDown_up
  | enter _ hdirectory => exact absurd hdirectory hentry.1
  | last => exact ⟨rfl, rfl, rfl⟩
  | follow _ hlink => exact absurd hlink (hentry.2 _)

theorem of_link {n : Nat} {path goal : Path} {name target : Text} {rest : List Text}
    (hname : IsDown name) (hentry : disk.get? (path.child name).place = some (.link target))
    (hleads : Leads disk n path (name :: rest) goal) :
    ∃ m k middle, n = m + k + 1 ∧ Leads disk m (linkStart path target) (targetParts target) middle
      ∧ (rest = [] ∨ disk.get? middle.place = some .directory) ∧ Leads disk k middle rest goal := by
  cases hleads with
  | stay hstay => exact absurd hname (not_isDown_stay hstay)
  | up => exact absurd hname not_isDown_up
  | enter _ hdirectory => rw [hentry] at hdirectory; cases hdirectory
  | last _ hend => exact absurd hentry (hend.2 _)
  | @follow m k _ middle _ _ target' _ _ hlink htarget hmiddle hrest =>
      rw [hentry] at hlink
      cases hlink
      exact ⟨m, k, middle, rfl, htarget, hmiddle, hrest⟩

/-- Where names lead, and through how many links, is determined. -/
theorem unique {n m : Nat} {path goal other : Path} {names : List Text}
    (hleads : Leads disk n path names goal) (hother : Leads disk m path names other) :
    n = m ∧ goal = other := by
  induction hleads generalizing m other with
  | done path =>
      obtain ⟨rfl, rfl⟩ := hother.of_nil
      exact ⟨rfl, rfl⟩
  | stay hname _ ih => exact ih (hother.of_stay hname)
  | up _ ih => exact ih hother.of_up
  | enter hname hentry _ ih => exact ih (hother.of_directory hname hentry)
  | last hname hentry =>
      obtain ⟨rfl, -, rfl⟩ := hother.of_end hname hentry
      exact ⟨rfl, rfl⟩
  | follow hname hentry _ _ _ iht ihr =>
      obtain ⟨m', k, middle, rfl, htarget, -, hrest⟩ := hother.of_link hname hentry
      obtain ⟨rfl, rfl⟩ := iht htarget
      obtain ⟨rfl, rfl⟩ := ihr hrest
      exact ⟨rfl, rfl⟩

/-! ## Several stretches of a way -/

theorem linkStart_directory {path : Path} (hpath : disk.get? path.place = some .directory)
    (target : Text) : disk.get? (linkStart path target).place = some .directory := by
  unfold linkStart
  split
  · rfl
  · exact hpath

/-- From a directory, names do not lead to a link but through it. -/
theorem ne_link {n : Nat} {path goal : Path} {names : List Text}
    (hleads : Leads disk n path names goal)
    (hpath : disk.get? path.place = some .directory) (other : Text) :
    disk.get? goal.place ≠ some (.link other) := by
  induction hleads with
  | done path => simp [hpath]
  | stay _ _ ih => exact ih hpath
  | up _ ih =>
      refine ih ?_
      rw [Path.place_parent]
      exact get?_dropLast hpath
  | enter _ hentry _ ih => exact ih hentry
  | last _ hentry => exact hentry.2 other
  | follow _ _ _ hmiddle hrest iht ihr =>
      rcases hmiddle with rfl | hmiddle
      · obtain ⟨-, rfl⟩ := hrest.of_nil
        exact iht (linkStart_directory hpath _)
      · exact ihr hmiddle

/-- One way after another, the first of which ends in a directory unless the second is empty. -/
theorem append {n m : Nat} {path middle goal : Path} {names more : List Text}
    (hfirst : Leads disk n path names middle)
    (hmiddle : more = [] ∨ disk.get? middle.place = some .directory)
    (hsecond : Leads disk m middle more goal) : Leads disk (n + m) path (names ++ more) goal := by
  induction hfirst with
  | done path => simpa using hsecond
  | stay hname _ ih => exact .stay hname (ih hmiddle hsecond)
  | up _ ih => exact .up (ih hmiddle hsecond)
  | enter hname hentry _ ih => exact .enter hname hentry (ih hmiddle hsecond)
  | @last path name hname hentry =>
      obtain rfl := hmiddle.resolve_right hentry.1
      obtain ⟨rfl, rfl⟩ := hsecond.of_nil
      exact .last hname hentry
  | @follow k l path inner _ name target rest hname hentry htarget hinner hrest _ ihr =>
      have hgoal := ihr hmiddle hsecond
      have hjoined : Leads disk (k + (l + m) + 1) path (name :: (rest ++ more)) goal := by
        refine .follow hname hentry htarget ?_ hgoal
        rcases hinner with rfl | hinner
        · obtain ⟨-, rfl⟩ := hrest.of_nil
          exact hmiddle.imp_left fun h => by simp [h]
        · exact .inr hinner
      have hcount : k + l + 1 + m = k + (l + m) + 1 := by omega
      rw [hcount]
      exact hjoined

/-- A way falls into two wherever its names do. -/
theorem split {n : Nat} {path goal : Path} (names more : List Text)
    (hpath : disk.get? path.place = some .directory)
    (hleads : Leads disk n path (names ++ more) goal) :
    ∃ m k middle, n = m + k ∧ Leads disk m path names middle
      ∧ (more = [] ∨ disk.get? middle.place = some .directory) ∧ Leads disk k middle more goal := by
  generalize hall : names ++ more = all at hleads
  induction hleads generalizing names with
  | done path =>
      obtain ⟨rfl, rfl⟩ := List.append_eq_nil_iff.mp hall
      exact ⟨0, 0, path, rfl, .done path, .inl rfl, .done path⟩
  | @stay n path goal name rest hname hrest ih =>
      cases names with
      | nil =>
          subst hall
          exact ⟨0, n, path, by omega, .done path, .inr hpath, .stay hname hrest⟩
      | cons _ names =>
          obtain ⟨rfl, htail⟩ := List.cons.inj hall
          obtain ⟨m, k, middle, hn, hfirst, hmiddle, hsecond⟩ := ih names hpath htail
          exact ⟨m, k, middle, hn, .stay hname hfirst, hmiddle, hsecond⟩
  | @up n path goal rest hrest ih =>
      cases names with
      | nil =>
          subst hall
          exact ⟨0, n, path, by omega, .done path, .inr hpath, .up hrest⟩
      | cons _ names =>
          obtain ⟨rfl, htail⟩ := List.cons.inj hall
          have hparent : disk.get? path.parent.place = some .directory := by
            rw [Path.place_parent]
            exact get?_dropLast hpath
          obtain ⟨m, k, middle, hn, hfirst, hmiddle, hsecond⟩ := ih names hparent htail
          exact ⟨m, k, middle, hn, .up hfirst, hmiddle, hsecond⟩
  | @enter n path goal name rest hname hentry hrest ih =>
      cases names with
      | nil =>
          subst hall
          exact ⟨0, n, path, by omega, .done path, .inr hpath, .enter hname hentry hrest⟩
      | cons _ names =>
          obtain ⟨rfl, htail⟩ := List.cons.inj hall
          obtain ⟨m, k, middle, hn, hfirst, hmiddle, hsecond⟩ := ih names hentry htail
          exact ⟨m, k, middle, hn, .enter hname hentry hfirst, hmiddle, hsecond⟩
  | @last path name hname hentry =>
      cases names with
      | nil =>
          subst hall
          exact ⟨0, 0, path, rfl, .done path, .inr hpath, .last hname hentry⟩
      | cons _ names =>
          obtain ⟨rfl, htail⟩ := List.cons.inj hall
          obtain ⟨rfl, rfl⟩ := List.append_eq_nil_iff.mp htail
          exact ⟨0, 0, _, rfl, .last hname hentry, .inl rfl, .done _⟩
  | @follow l n path inner goal name target rest hname hentry htarget hinner hrest _ ihr =>
      cases names with
      | nil =>
          subst hall
          exact ⟨0, _, path, by omega, .done path, .inr hpath,
            .follow hname hentry htarget hinner hrest⟩
      | cons _ names =>
          obtain ⟨rfl, htail⟩ := List.cons.inj hall
          rcases hinner with rfl | hinner
          · obtain ⟨rfl, rfl⟩ := List.append_eq_nil_iff.mp htail
            exact ⟨_, 0, goal, rfl, .follow hname hentry htarget (.inl rfl) hrest, .inl rfl,
              .done goal⟩
          · obtain ⟨m, k, middle, rfl, hfirst, hmiddle, hsecond⟩ := ihr names hinner htail
            exact ⟨l + m + 1, k, middle, by omega,
              .follow hname hentry htarget (.inr hinner) hfirst, hmiddle, hsecond⟩

end Leads

/-! ## Looking up -/

/-- The last of the names is that of a link in the directory to which the others lead. -/
def EndsAtLink (disk : Disk) (path : Path) (names : List Text) (place : Place) : Prop :=
  ∃ n init last middle, names = init ++ [last] ∧ Leads disk n path init middle
    ∧ disk.get? middle.place = some .directory ∧ place = (middle.child last).place
    ∧ ∃ target, disk.get? place = some (.link target)

/-- What looking names up finds is where they lead, through fewer than `bound` links; only where a
link itself is asked for, it may be found instead. -/
def Ends (disk : Disk) (ending : Ending) (bound : Nat) (path : Path) (names : List Text) :
    Reach → Prop
  | .found place entry =>
    (ending = .entry ∧ isLinkEntry entry = true ∧ EndsAtLink disk path names place) ∨
      ∃ n goal, n < bound ∧ Leads disk n path names goal ∧ goal.place = place
        ∧ disk.get? place = some entry
  | .missing directory name =>
    ∃ n goal, n < bound ∧ Leads disk n path names goal ∧ goal.place = directory ++ [name]
      ∧ disk.get? (directory ++ [name]) = none
  | .failed _ => True

/-- What is found behind the first names is found behind all of them. -/
theorem Ends.imp {disk : Disk} {ending : Ending} {bound more : Nat} {path next : Path}
    {names rest : List Text} {reach : Reach} (hends : Ends disk ending bound next rest reach)
    (himp : ∀ n goal, n < bound → Leads disk n next rest goal →
      ∃ m, m < more ∧ Leads disk m path names goal)
    (hlink : ∀ n init last middle, rest = init ++ [last] → Leads disk n next init middle →
      ∃ m init', names = init' ++ [last] ∧ Leads disk m path init' middle) :
    Ends disk ending more path names reach := by
  cases reach with
  | failed code => trivial
  | found place entry =>
      rcases hends with ⟨hending, hentry, n, init, last, middle, hnames, hleads, hplace⟩
        | ⟨n, goal, hn, hleads, hplace⟩
      · obtain ⟨m, init', hnames, hleads⟩ := hlink n init last middle hnames hleads
        exact .inl ⟨hending, hentry, m, init', last, middle, hnames, hleads, hplace⟩
      · obtain ⟨m, hm, hleads⟩ := himp n goal hn hleads
        exact .inr ⟨m, goal, hm, hleads, hplace⟩
  | missing directory name =>
      obtain ⟨n, goal, hn, hleads, hplace⟩ := hends
      obtain ⟨m, hm, hleads⟩ := himp n goal hn hleads
      exact ⟨m, goal, hm, hleads, hplace⟩

/-- What is found behind a name that is no link is found behind it and the names after it. -/
theorem Ends.cons {disk : Disk} {ending : Ending} {bound : Nat} {path next : Path} {name : Text}
    {rest : List Text} {reach : Reach} (hends : Ends disk ending bound next rest reach)
    (hcons : ∀ n goal names, Leads disk n next names goal → Leads disk n path
      (name :: names) goal) :
    Ends disk ending bound path (name :: rest) reach :=
  hends.imp (fun n goal hn hleads => ⟨n, hn, hcons n goal rest hleads⟩)
    fun n init last middle hrest hleads =>
      ⟨n, name :: init, by rw [hrest]; rfl, hcons n middle init hleads⟩

/-- What is found behind the target of a link and some names is found behind the link and these
names. -/
theorem Ends.follow {disk : Disk} {ending : Ending} {bound : Nat} {path : Path} {name : Text}
    {target : Text} {rest : List Text} {reach : Reach}
    (hends : Ends disk ending bound (linkStart path target) (targetParts target ++ rest) reach)
    (hstart : disk.get? (linkStart path target).place = some .directory)
    (hname : IsDown name) (hentry : disk.get? (path.child name).place = some (.link target))
    (hlast : rest ≠ [] ∨ ending ≠ .entry) :
    Ends disk ending (bound + 1) path (name :: rest) reach := by
  cases reach with
  | failed code => trivial
  | missing directory last =>
      obtain ⟨n, goal, hn, hleads, hplace⟩ := hends
      obtain ⟨m, k, middle, rfl, hfirst, hmiddle, hrest⟩ := Leads.split _ _ hstart hleads
      exact ⟨m + k + 1, goal, by omega, .follow hname hentry hfirst hmiddle hrest, hplace⟩
  | found place entry =>
      rcases hends with ⟨hending, hlink, n, init, last, inner, hnames, hleads, hplace⟩
        | ⟨n, goal, hn, hleads, hplace⟩
      · -- The last name is that of the names behind the link.
        obtain ⟨init', last', rfl⟩ :=
          List.eq_nil_or_concat rest |>.resolve_left (hlast.resolve_right (· hending))
        rw [List.concat_eq_append, ← List.append_assoc] at hnames
        obtain ⟨rfl, hsame⟩ := List.append_inj' hnames rfl
        obtain rfl := List.singleton_inj.mp hsame
        obtain ⟨m, k, middle, rfl, hfirst, hmiddle, hrest⟩ := Leads.split _ _ hstart hleads
        exact .inl ⟨hending, hlink, m + k + 1, name :: init', last', inner,
          by rw [List.concat_eq_append]; rfl, .follow hname hentry hfirst hmiddle hrest, hplace⟩
      · obtain ⟨m, k, middle, rfl, hfirst, hmiddle, hrest⟩ := Leads.split _ _ hstart hleads
        exact .inr ⟨m + k + 1, goal, by omega, .follow hname hentry hfirst hmiddle hrest, hplace⟩

theorem followNames_cons_down {disk : Disk} {ending : Ending}
    {expand : Place → List Text → Reach} {place : Place} {name : Text} {rest : List Text}
    (hname : IsDown name) :
    followNames disk ending expand place (name :: rest) =
      if ending = .newFile && rest = [[]] then .failed .isDirectory
      else
        match disk.get? (place ++ [Utf8.canonicalName name]) with
        | none => reachAbsent place (Utf8.canonicalName name) rest.isEmpty
        | some .directory =>
          followNames disk ending expand (place ++ [Utf8.canonicalName name]) rest
        | some (.file content) =>
          if rest.isEmpty then .found (place ++ [Utf8.canonicalName name]) (.file content)
          else .failed .notDirectory
        | some (.link target) =>
          if rest.isEmpty && ending = .entry then
            .found (place ++ [Utf8.canonicalName name]) (.link target)
          else expand (targetStart place target) (targetParts target ++ rest) := by
  obtain ⟨h1, h2, h3⟩ := hname
  rw [followNames]
  exact (if_neg (by simp [h1, h2])).trans (if_neg h3)

theorem followNames_cons_stay {disk : Disk} {ending : Ending}
    {expand : Place → List Text → Reach} {place : Place} {name : Text} {rest : List Text}
    (hname : name = "" ∨ name = ".") :
    followNames disk ending expand place (name :: rest)
      = followNames disk ending expand place rest := by
  rw [followNames]
  simp [hname]

theorem followNames_cons_up {disk : Disk} {ending : Ending}
    {expand : Place → List Text → Reach} {place : Place} {rest : List Text} :
    followNames disk ending expand place (".." :: rest)
      = followNames disk ending expand place.dropLast rest := by
  rw [followNames]
  simp only [show ¬ ((".." : Text) = "" || (".." : Text) = ".") by decide]
  rfl

theorem ends_followNames {disk : Disk} {ending : Ending} {expand : Place → List Text → Reach}
    {bound : Nat}
    (hexpand : ∀ path names, disk.get? path.place = some .directory →
      Ends disk ending bound path names (expand path.place names))
    (path : Path) (names : List Text) (hpath : disk.get? path.place = some .directory) :
    Ends disk ending (bound + 1) path names
      (followNames disk ending expand path.place names) := by
  induction names generalizing path with
  | nil => exact .inr ⟨0, path, Nat.succ_pos bound, .done path, rfl, hpath⟩
  | cons name rest ih =>
      rcases isDown_cases name with hname | rfl | hname
      · rw [followNames_cons_stay hname]
        exact (ih path hpath).cons fun n goal names hleads => .stay hname hleads
      · rw [followNames_cons_up, ← Path.place_parent]
        refine (ih path.parent ?_).cons fun n goal names hleads => .up hleads
        rw [Path.place_parent]
        exact get?_dropLast hpath
      · rw [followNames_cons_down hname, ← Path.place_child]
        split
        · trivial
        · split
          · rename_i hnone
            unfold reachAbsent
            split
            · trivial
            · split
              · rename_i hlast
                obtain rfl := List.isEmpty_iff.mp hlast
                have hend : IsEnd (disk.get? (path.child name).place) := hnone ▸ isEnd_none
                rw [Path.place_child] at hnone
                exact ⟨0, path.child name, Nat.succ_pos bound, .last hname hend,
                  Path.place_child path name, hnone⟩
              · trivial
          · rename_i hentry
            exact (ih (path.child name) hentry).cons fun n goal names hleads =>
              .enter hname hentry hleads
          · rename_i content hentry
            split
            · rename_i hlast
              obtain rfl := List.isEmpty_iff.mp hlast
              have hend : IsEnd (disk.get? (path.child name).place) := hentry ▸ isEnd_file content
              exact .inr ⟨0, path.child name, Nat.succ_pos bound, .last hname hend, rfl, hentry⟩
            · trivial
          · rename_i target hentry
            split
            · rename_i hlast
              obtain ⟨hempty, hending⟩ := Bool.and_eq_true_iff.mp hlast
              obtain rfl := List.isEmpty_iff.mp hempty
              exact .inl ⟨of_decide_eq_true hending, rfl, 0, [], name, path, rfl, .done path, hpath,
                rfl, target, hentry⟩
            · rename_i hnotLast
              rw [← place_linkStart]
              have hstart := Leads.linkStart_directory hpath target
              cases hending : decide (ending = .entry) with
              | false =>
                  refine (hexpand _ _ hstart).follow hstart hname hentry (.inr ?_)
                  exact of_decide_eq_false hending
              | true =>
                  refine (hexpand _ _ hstart).follow hstart hname hentry (.inl fun hrest => ?_)
                  rw [hrest, hending] at hnotLast
                  exact hnotLast rfl

theorem ends_reachFrom (disk : Disk) (ending : Ending) (links : Nat) (path : Path)
    (names : List Text) (hpath : disk.get? path.place = some .directory) :
    Ends disk ending (links + 1) path names (disk.reachFrom ending links path.place names) := by
  induction links generalizing path names with
  | zero =>
      refine ends_followNames (fun _ _ _ => ?_) path names hpath
      trivial
  | succ links ih => exact ends_followNames ih path names hpath

/-- Names behind the last of which stands a slash lead to a directory. -/
theorem Leads.directory_of_slash {disk : Disk} {n : Nat} {path goal : Path} {name : Text}
    (hname : IsDown name) (hleads : Leads disk n path (name :: [""]) goal) :
    disk.get? goal.place = some .directory := by
  have hstay : ∀ {m : Nat} {middle : Path}, Leads disk m middle [""] goal → goal = middle :=
    fun h => (h.of_stay (.inl rfl)).of_nil.2
  cases hleads with
  | stay hstay _ => exact absurd hname (not_isDown_stay hstay)
  | up _ => exact absurd hname not_isDown_up
  | enter _ hentry hrest => exact hstay hrest ▸ hentry
  | follow _ _ _ hmiddle hrest =>
      exact hstay hrest ▸ hmiddle.resolve_left (List.cons_ne_nil _ _)

/-- What names lead to is found, within the bound on links, if anything lies there; where a file is
to be made, it is no directory. -/
theorem reachFrom_of_leads {disk : Disk} {ending : Ending} (hending : ending ≠ .entry)
    {n links : Nat}
    {path goal : Path} {names : List Text} {entry : Entry} (hleads : Leads disk n path names goal)
    (hn : n ≤ links) (hpath : disk.get? path.place = some .directory)
    (hentry : disk.get? goal.place = some entry) (hkind : ending = .newFile → entry ≠ .directory) :
    disk.reachFrom ending links path.place names = .found goal.place entry := by
  induction n using Nat.strongRecOn generalizing links path names with
  | ind n ihn =>
  -- The names left are fewer while no link is followed; behind a link, the links left are.
  have hstep : ∀ names path, disk.get? path.place = some .directory →
      Leads disk n path names goal →
      ∀ expand, (n ≠ 0 → ∃ links', n ≤ links' + 1 ∧ expand = disk.reachFrom ending links') →
        followNames disk ending expand path.place names = .found goal.place entry := by
    intro names
    induction names with
    | nil =>
        intro path hpath hleads expand _
        obtain ⟨-, rfl⟩ := hleads.of_nil
        rw [hpath] at hentry
        cases hentry
        rfl
    | cons name rest ih =>
        intro path hpath hleads expand hexpand
        rcases isDown_cases name with hname | rfl | hname
        · rw [followNames_cons_stay hname]
          exact ih path hpath (hleads.of_stay hname) expand hexpand
        · rw [followNames_cons_up, ← Path.place_parent]
          refine ih path.parent ?_ hleads.of_up expand hexpand
          rw [Path.place_parent]
          exact get?_dropLast hpath
        · have hfile : ¬ (ending = .newFile && rest = [[]]) = true := by
            simp only [Bool.and_eq_true, decide_eq_true_eq]
            rintro ⟨hnew, rfl⟩
            have hdirectory := Leads.directory_of_slash hname hleads
            rw [hentry] at hdirectory
            exact hkind hnew (Option.some.inj hdirectory)
          rw [followNames_cons_down hname, if_neg hfile, ← Path.place_child]
          cases hlies : disk.get? (path.child name).place with
          | none =>
              obtain ⟨-, rfl, rfl⟩ := hleads.of_end hname (hlies ▸ isEnd_none)
              rw [hlies] at hentry
              cases hentry
          | some found =>
              cases found with
              | directory => exact ih _ hlies (hleads.of_directory hname hlies) expand hexpand
              | file content =>
                  obtain ⟨-, rfl, rfl⟩ := hleads.of_end hname (hlies ▸ isEnd_file content)
                  rw [hlies] at hentry
                  cases hentry
                  rfl
              | link target =>
                  obtain ⟨m, k, middle, rfl, hfirst, hmiddle, hrest⟩ :=
                    hleads.of_link hname hlies
                  obtain ⟨links', hlinks', rfl⟩ := hexpand (by omega)
                  have hjoined := hfirst.append hmiddle hrest
                  have hstart := Leads.linkStart_directory hpath target
                  simp only [hending, decide_false, Bool.and_false, Bool.false_eq_true, if_false]
                  rw [← place_linkStart]
                  exact ihn (m + k) (by omega) hjoined (by omega) hstart
  cases links with
  | zero => exact hstep names path hpath hleads _ fun hne => absurd (Nat.le_zero.mp hn) hne
  | succ links => exact hstep names path hpath hleads _ fun _ => ⟨links, hn, rfl⟩

/-- A link is found if it is asked for and no more links lead to its directory than are followed. -/
theorem reachFrom_entry_of_leads {disk : Disk} {n links : Nat} {path middle : Path}
    {init : List Text}
    {last target : Text} (hleads : Leads disk n path init middle) (hn : n ≤ links)
    (hpath : disk.get? path.place = some .directory)
    (hmiddle : disk.get? middle.place = some .directory)
    (hlast : IsDown last) (hlink : disk.get? (middle.child last).place = some (.link target)) :
    disk.reachFrom .entry links path.place (init ++ [last])
      = .found (middle.child last).place (.link target) := by
  induction n using Nat.strongRecOn generalizing links path init with
  | ind n ihn =>
  have hstep : ∀ init path, disk.get? path.place = some .directory →
      Leads disk n path init middle →
      ∀ expand, (n ≠ 0 → ∃ links', n ≤ links' + 1 ∧ expand = disk.reachFrom .entry links') →
        followNames disk .entry expand path.place (init ++ [last])
          = .found (middle.child last).place (.link target) := by
    intro init
    induction init with
    | nil =>
        intro path hpath hleads expand _
        obtain ⟨-, rfl⟩ := hleads.of_nil
        rw [Path.place_child] at hlink ⊢
        rw [List.nil_append, followNames_cons_down hlast]
        simp [hlink]
    | cons name rest ih =>
        intro path hpath hleads expand hexpand
        rw [List.cons_append]
        rcases isDown_cases name with hname | rfl | hname
        · rw [followNames_cons_stay hname]
          exact ih path hpath (hleads.of_stay hname) expand hexpand
        · rw [followNames_cons_up, ← Path.place_parent]
          refine ih path.parent ?_ hleads.of_up expand hexpand
          rw [Path.place_parent]
          exact get?_dropLast hpath
        · rw [followNames_cons_down hname, if_neg (by simp), ← Path.place_child]
          cases hlies : disk.get? (path.child name).place with
          | none =>
              obtain ⟨-, -, rfl⟩ := hleads.of_end hname (hlies ▸ isEnd_none)
              rw [hlies] at hmiddle
              cases hmiddle
          | some found =>
              cases found with
              | directory => exact ih _ hlies (hleads.of_directory hname hlies) expand hexpand
              | file content =>
                  obtain ⟨-, -, rfl⟩ := hleads.of_end hname (hlies ▸ isEnd_file content)
                  rw [hlies] at hmiddle
                  cases hmiddle
              | link more =>
                  obtain ⟨m, k, inner, rfl, hfirst, hinner, hrest⟩ := hleads.of_link hname hlies
                  obtain ⟨links', hlinks', rfl⟩ := hexpand (by omega)
                  have hjoined := hfirst.append hinner hrest
                  have hfollowed := ihn (m + k) (by omega) hjoined (by omega : m + k ≤ links')
                    (Leads.linkStart_directory hpath more)
                  rw [place_linkStart, List.append_assoc] at hfollowed
                  simpa using hfollowed
  cases links with
  | zero => exact hstep init path hpath hleads _ fun hne => absurd (Nat.le_zero.mp hn) hne
  | succ links => exact hstep init path hpath hleads _ fun _ => ⟨links, hn, rfl⟩

/-! ## Disks with more directories -/

/-- Every directory of the one disk is one of the other, and the two have the same links. -/
structure Extends (disk more : Disk) : Prop where
  directory : ∀ place, disk.get? place = some .directory → more.get? place = some .directory
  link : ∀ place target,
    disk.get? place = some (.link target) ↔ more.get? place = some (.link target)

theorem Extends.refl (disk : Disk) : Extends disk disk :=
  ⟨fun _ h => h, fun _ _ => Iff.rfl⟩

theorem Extends.trans {first second third : Disk} (hfirst : Extends first second)
    (hsecond : Extends second third) : Extends first third :=
  ⟨fun place h => hsecond.directory place (hfirst.directory place h),
    fun place target => (hfirst.link place target).trans (hsecond.link place target)⟩

/-- Where names lead stays the same when directories are added. -/
theorem Leads.mono {disk more : Disk} (hextends : Extends disk more) {n : Nat}
    {path goal : Path} {names : List Text} (hleads : Leads disk n path names goal) :
    Leads more n path names goal := by
  induction hleads with
  | done path => exact .done path
  | stay hname _ ih => exact .stay hname ih
  | up _ ih => exact .up ih
  | enter hname hentry _ ih => exact .enter hname (hextends.directory _ hentry) ih
  | @last path name hname hentry =>
      by_cases hdirectory : more.get? (path.child name).place = some .directory
      · exact .enter hname hdirectory (.done _)
      · refine .last hname ⟨hdirectory, fun target hlink => ?_⟩
        exact hentry.2 target ((hextends.link _ target).mpr hlink)
  | follow hname hentry _ hmiddle _ iht ihr =>
      refine .follow hname ((hextends.link _ _).mp hentry) iht ?_ ihr
      exact hmiddle.imp_right fun h => hextends.directory _ h

/-! ## Absolute paths -/

/-- The absolute path leads to `goal` through no more links than are followed. -/
def Locates (disk : Disk) (path goal : Path) : Prop :=
  ∃ n, n ≤ maxLinks ∧ Leads disk n rootPath path.parts goal

theorem Locates.unique {disk : Disk} {path goal other : Path} (hlocates : disk.Locates path goal)
    (hother : disk.Locates path other) : goal = other := by
  obtain ⟨_, -, hleads⟩ := hlocates
  obtain ⟨_, -, hleads'⟩ := hother
  exact (hleads.unique hleads').2

theorem Locates.mono {disk more : Disk} (hextends : Extends disk more) {path goal : Path}
    (hlocates : disk.Locates path goal) : more.Locates path goal := by
  obtain ⟨n, hn, hleads⟩ := hlocates
  exact ⟨n, hn, hleads.mono hextends⟩

/-- A path leads on from where its first parts lead, which is a directory if more parts follow. -/
theorem Locates.split {disk : Disk} {path upper goal : Path} {rest : List Text}
    (hpath : disk.Locates path goal) (hparts : upper.parts ++ rest = path.parts) :
    ∃ k middle, disk.Locates upper middle
      ∧ (rest = [] ∨ disk.get? middle.place = some .directory) ∧ Leads disk k middle rest goal := by
  obtain ⟨n, hn, hleads⟩ := hpath
  rw [← hparts] at hleads
  obtain ⟨m, k, middle, rfl, hfirst, hmiddle, hrest⟩ := Leads.split upper.parts rest rfl hleads
  exact ⟨k, middle, ⟨m, Nat.le_trans (Nat.le_add_right m k) hn, hfirst⟩, hmiddle, hrest⟩

/-- A disk can have a path of that text, and it is not too long to be looked up. -/
def IsLookedUp (path : Path) : Prop :=
  pathFault? path.text = none ∧ byteCount path.text ≤ maxPathBytes

theorem startOf_of_isAbsolute (disk : Disk) {path : Path} (habsolute : path.isAbsolute = true) :
    disk.startOf path = some [] := by
  unfold startOf
  split
  · rename_i hhere
    simp [Path.isAbsolute, hhere] at habsolute
  · rfl

/-- The path starts nowhere, or in a directory. -/
def StartsInDirectory (disk : Disk) (path : Path) : Prop :=
  ∀ start, disk.startOf path = some start → disk.get? start = some .directory

theorem startsInDirectory_of_isAbsolute (disk : Disk) {path : Path}
    (habsolute : path.isAbsolute = true) : disk.StartsInDirectory path := by
  intro start hstart
  rw [startOf_of_isAbsolute disk habsolute] at hstart
  cases hstart
  rfl

theorem ends_reach {disk : Disk} {ending : Ending} {path : Path}
    (habsolute : path.isAbsolute = true) (hlooked : IsLookedUp path) :
    Ends disk ending (maxLinks + 1) rootPath path.parts (disk.reach ending path) := by
  rw [reach, hlooked.1]
  simp only
  rw [if_neg (Nat.not_lt.mpr hlooked.2), startOf_of_isAbsolute disk habsolute]
  exact ends_reachFrom disk ending maxLinks rootPath path.parts rfl

theorem isLookedUp_of_reach {disk : Disk} {ending : Ending} {path : Path} {reached : Reach}
    (hreached : disk.reach ending path = reached) (hreach : ∀ code, reached ≠ .failed code) :
    IsLookedUp path := by
  subst hreached
  unfold reach at hreach
  constructor
  · cases hfault : pathFault? path.text with
    | none => rfl
    | some fault =>
        rw [hfault] at hreach
        exact absurd rfl (hreach _)
  · refine Nat.not_lt.mp fun hlong => ?_
    cases hfault : pathFault? path.text with
    | none =>
        rw [hfault] at hreach
        simp only [if_pos hlong] at hreach
        exact absurd rfl (hreach _)
    | some fault =>
        rw [hfault] at hreach
        exact absurd rfl (hreach _)

/-- What is looked up starts somewhere. -/
theorem reach_cases {disk : Disk} {ending : Ending} {path : Path} {reached : Reach}
    (hreached : disk.reach ending path = reached) (hreach : ∀ code, reached ≠ .failed code) :
    IsLookedUp path ∧ ∃ start, disk.startOf path = some start
      ∧ disk.reachFrom ending maxLinks start path.parts = reached := by
  have hlooked : IsLookedUp path := isLookedUp_of_reach hreached hreach
  refine ⟨hlooked, ?_⟩
  rw [reach, hlooked.1] at hreached
  simp only [if_neg (Nat.not_lt.mpr hlooked.2)] at hreached
  cases hstart : disk.startOf path with
  | none =>
      rw [hstart] at hreached
      exact absurd hreached.symm (hreach _)
  | some start =>
      rw [hstart] at hreached
      exact ⟨start, rfl, hreached⟩

theorem reach_of_reachFrom {disk : Disk} {ending : Ending} {path : Path} {start : Place}
    (hlooked : IsLookedUp path) (hstart : disk.startOf path = some start) :
    disk.reach ending path = disk.reachFrom ending maxLinks start path.parts := by
  rw [reach, hlooked.1]
  simp only [if_neg (Nat.not_lt.mpr hlooked.2), hstart]

/-- Why a path cannot be looked up does not depend on the disk. -/
theorem reach_eq_of_not_isLookedUp {disk other : Disk} {ending : Ending} {path : Path}
    (hlooked : ¬ IsLookedUp path) : other.reach ending path = disk.reach ending path := by
  rw [reach, reach]
  cases hfault : pathFault? path.text with
  | some fault => rfl
  | none =>
      have hlong : maxPathBytes < byteCount path.text :=
        Nat.not_le.mp fun hshort => hlooked ⟨hfault, hshort⟩
      simp only [if_pos hlong]

/-- What a path is found to lead to lies where it leads. -/
theorem locates_of_found {disk : Disk} {ending : Ending} {path : Path} {place : Place}
    {entry : Entry} (habsolute : path.isAbsolute = true)
    (hfound : disk.reach ending path = .found place entry) (hentry : isLinkEntry entry = false) :
    IsLookedUp path ∧ ∃ goal, disk.Locates path goal ∧ goal.place = place
      ∧ disk.get? place = some entry := by
  have hlooked : IsLookedUp path := isLookedUp_of_reach hfound nofun
  have hends : Ends disk ending _ _ _ _ := ends_reach habsolute hlooked
  rw [hfound] at hends
  rcases hends with ⟨-, hlink, -⟩ | ⟨n, goal, hn, hleads, hplace, hlies⟩
  · rw [hentry] at hlink
    cases hlink
  · exact ⟨hlooked, goal, ⟨n, Nat.le_of_lt_succ hn, hleads⟩, hplace, hlies⟩

theorem locates_of_missing {disk : Disk} {ending : Ending} {path : Path} {directory : Place}
    {name : Text} (habsolute : path.isAbsolute = true)
    (hmissing : disk.reach ending path = .missing directory name) :
    IsLookedUp path ∧ ∃ goal, disk.Locates path goal ∧ goal.place = directory ++ [name]
      ∧ disk.get? (directory ++ [name]) = none := by
  have hlooked : IsLookedUp path := isLookedUp_of_reach hmissing nofun
  have hends : Ends disk ending _ _ _ _ := ends_reach habsolute hlooked
  rw [hmissing] at hends
  obtain ⟨n, goal, hn, hleads, hplace, hnone⟩ := hends
  exact ⟨hlooked, goal, ⟨n, Nat.le_of_lt_succ hn, hleads⟩, hplace, hnone⟩

/-- A path that leads to something leads somewhere. -/
theorem locates_of_isPresent {disk : Disk} {path : Path} (habsolute : path.isAbsolute = true)
    (hpresent : disk.isPresent path = .ok true) : ∃ goal, disk.Locates path goal := by
  rw [isPresent, leadsTo] at hpresent
  split at hpresent
  · rename_i place entry hfound
    have hends : Ends disk .target _ _ _ _ :=
      ends_reach habsolute (isLookedUp_of_reach hfound (by simp))
    rw [hfound] at hends
    rcases hends with ⟨hending, -⟩ | ⟨n, goal, hn, hleads, -⟩
    · cases hending
    · exact ⟨goal, n, Nat.le_of_lt_succ hn, hleads⟩
  · cases hpresent
  · cases hpresent

theorem reach_of_locates {disk : Disk} {ending : Ending} (hending : ending ≠ .entry)
    {path goal : Path} {entry : Entry} (habsolute : path.isAbsolute = true)
    (hlooked : IsLookedUp path) (hlocates : disk.Locates path goal)
    (hentry : disk.get? goal.place = some entry) (hkind : ending = .newFile → entry ≠ .directory) :
    disk.reach ending path = .found goal.place entry := by
  obtain ⟨n, hn, hleads⟩ := hlocates
  rw [reach, hlooked.1]
  simp only
  rw [if_neg (Nat.not_lt.mpr hlooked.2), startOf_of_isAbsolute disk habsolute]
  exact reachFrom_of_leads hending hleads hn rfl hentry hkind

/-- Whatever lies where a path leads is found. -/
theorem found_of_locates {disk : Disk} {path goal : Path} {entry : Entry}
    (habsolute : path.isAbsolute = true) (hlooked : IsLookedUp path)
    (hlocates : disk.Locates path goal) (hentry : disk.get? goal.place = some entry) :
    disk.reach .target path = .found goal.place entry :=
  reach_of_locates (by decide) habsolute hlooked hlocates hentry (by rintro ⟨⟩)

/-- A path that leads to the same on two disks is followed alike. -/
theorem reach_eq_of_locates {disk other : Disk} {path goal : Path} {entry : Entry}
    (habsolute : path.isAbsolute = true) (hlocates : disk.Locates path goal)
    (hentry : disk.get? goal.place = some entry) (hother : other.Locates path goal)
    (hsame : other.get? goal.place = some entry) :
    other.reach .target path = disk.reach .target path := by
  by_cases hlooked : IsLookedUp path
  · rw [found_of_locates habsolute hlooked hlocates hentry,
      found_of_locates habsolute hlooked hother hsame]
  · exact reach_eq_of_not_isLookedUp hlooked

/-- The directory that a path is found to lead to lies where it leads. -/
theorem locates_of_openDirectory {disk : Disk} {path : Path} {place : Place}
    (habsolute : path.isAbsolute = true) (hopen : disk.openDirectory path = .ok place) :
    IsLookedUp path ∧ ∃ goal, disk.Locates path goal ∧ goal.place = place
      ∧ disk.get? place = some .directory := by
  rw [openDirectory] at hopen
  split at hopen
  · rename_i found hfound
    cases hopen
    exact locates_of_found habsolute hfound rfl
  · cases hopen
  · cases hopen
  · cases hopen

theorem openDirectory_of_locates {disk : Disk} {path goal : Path}
    (habsolute : path.isAbsolute = true) (hlooked : IsLookedUp path)
    (hlocates : disk.Locates path goal) (hdirectory : disk.get? goal.place = some .directory) :
    disk.openDirectory path = .ok goal.place := by
  rw [openDirectory, found_of_locates habsolute hlooked hlocates hdirectory]

/-- What is read from a path is the content of the file to which it leads. -/
theorem locates_of_read {disk : Disk} {path : Path} {content : Bytes}
    (habsolute : path.isAbsolute = true) (hread : disk.read path = .ok content) :
    IsLookedUp path ∧ ∃ goal, disk.Locates path goal
      ∧ disk.get? goal.place = some (.file content) := by
  rw [read] at hread
  split at hread
  · rename_i place found hfound
    cases hread
    obtain ⟨hlooked, goal, hlocates, rfl, hlies⟩ := locates_of_found habsolute hfound rfl
    exact ⟨hlooked, goal, hlocates, hlies⟩
  · cases hread
  · cases hread
  · cases hread

theorem read_of_locates {disk : Disk} {path goal : Path} {content : Bytes}
    (habsolute : path.isAbsolute = true) (hlooked : IsLookedUp path)
    (hlocates : disk.Locates path goal) (hfile : disk.get? goal.place = some (.file content)) :
    disk.read path = .ok content := by
  rw [read, found_of_locates habsolute hlooked hlocates hfile]

end Disk

end ResourcePruner
