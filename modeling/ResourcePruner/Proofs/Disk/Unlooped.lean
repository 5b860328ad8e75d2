import Mathlib.Data.List.FinRange
import Mathlib.Data.List.Perm.Subperm
import ResourcePruner.Proofs.Disk.Attains

/-!
# Disks without link loops

`Disk.Follows` says where names lead when links are followed and every other name is taken as it is
spelled, whether or not anything lies there; it counts how deep links are nested on the way. On a
disk on which every link can be followed (`Disk.IsLoopFree`), all names can be
(`Disk.exists_follows`), and every path resolves to where its names lead
(`Disk.resolve_of_isLoopFree`).

The bound on nested links is no hindrance, since a nest holds for each depth below its own a link
that is nested so deep, and no link is nested in two depths (`Disk.Follows.depth_le_linkCount`); and
no link is met again while its own target is being followed, since it would then be nested deeper
than itself.
-/

namespace ResourcePruner

namespace Disk

/-- From a path, names lead to the path `goal`, by ways through links that are nested at most so
deep. -/
inductive Follows (disk : Disk) : (depth : Nat) → (path : Path) → List Text → (goal : Path) → Prop
  | done (path : Path) : Follows disk 0 path [] path
  | stay {depth : Nat} {path goal : Path} {name : Text} {rest : List Text}
      (hname : name = "" ∨ name = ".") (hrest : Follows disk depth path rest goal) :
      Follows disk depth path (name :: rest) goal
  | up {depth : Nat} {path goal : Path} {rest : List Text}
      (hrest : Follows disk depth path.parent rest goal) : Follows disk depth path
      (".." :: rest) goal
  | enter {depth : Nat} {path goal : Path} {name : Text} {rest : List Text} (hname : IsDown name)
      (hentry : ∀ target, disk.get? (path.child name).place ≠ some (.link target))
      (hrest : Follows disk depth (path.child name) rest goal) : Follows disk depth path
      (name :: rest) goal
  | follow {inner depth : Nat} {path middle goal : Path} {name target : Text} {rest : List Text}
      (hname : IsDown name) (hentry : disk.get? (path.child name).place = some (.link target))
      (htarget : Follows disk inner (linkStart path target) (Text.splitAt '/' target) middle)
      (hrest : Follows disk depth middle rest goal) :
      Follows disk (max (inner + 1) depth) path (name :: rest) goal

/-- Every link can be followed: none leads back to itself. What it leads to may be missing. -/
def IsLoopFree (disk : Disk) : Prop :=
  ∀ place name target, disk.get? (place ++ [name]) = some (.link target) →
    ∃ depth goal,
      Follows disk depth (linkStart ⟨.root, place⟩ target) (Text.splitAt '/' target) goal

variable {disk : Disk}

theorem length_links (disk : Disk) : disk.links.length = disk.linkCount := by
  rw [links, List.length_filterMap_eq_countP, linkCount]
  refine List.countP_congr fun entry _ => ?_
  obtain ⟨place, found⟩ := entry
  cases found <;> simp [isLinkEntry]

namespace Follows

variable {depth : Nat} {path other goal : Path} {name target : Text} {names rest : List Text}

/-! ## Taking steps back -/

theorem of_nil (hfollows : Follows disk depth path [] goal) : depth = 0 ∧ goal = path := by
  cases hfollows
  exact ⟨rfl, rfl⟩

theorem of_stay (hname : name = "" ∨ name = ".")
    (hfollows : Follows disk depth path (name :: rest) goal) :
    Follows disk depth path rest goal := by
  cases hfollows with
  | stay _ hrest => exact hrest
  | up => exact absurd hname up_ne_stay
  | enter hdown => exact absurd hdown (not_isDown_stay hname)
  | follow hdown => exact absurd hdown (not_isDown_stay hname)

theorem of_up (hfollows : Follows disk depth path (".." :: rest) goal) :
    Follows disk depth path.parent rest goal := by
  cases hfollows with
  | stay hname => exact absurd hname up_ne_stay
  | up hrest => exact hrest
  | enter hdown => exact absurd hdown not_isDown_up
  | follow hdown => exact absurd hdown not_isDown_up

theorem of_enter (hname : IsDown name)
    (hentry : ∀ target, disk.get? (path.child name).place ≠ some (.link target))
    (hfollows : Follows disk depth path (name :: rest) goal) :
    Follows disk depth (path.child name) rest goal := by
  cases hfollows with
  | stay hstay => exact absurd hname (not_isDown_stay hstay)
  | up => exact absurd hname not_isDown_up
  | enter _ _ hrest => exact hrest
  | follow _ hlink => exact absurd hlink (hentry _)

theorem of_link (hname : IsDown name)
    (hentry : disk.get? (path.child name).place = some (.link target))
    (hfollows : Follows disk depth path (name :: rest) goal) :
    ∃ inner outer middle, depth = max (inner + 1) outer
      ∧ Follows disk inner (linkStart path target) (Text.splitAt '/' target) middle
      ∧ Follows disk outer middle rest goal := by
  cases hfollows with
  | stay hstay => exact absurd hname (not_isDown_stay hstay)
  | up => exact absurd hname not_isDown_up
  | enter _ hother => exact absurd hentry (hother _)
  | @follow inner outer _ middle _ _ _ _ _ hlink htarget hrest =>
      rw [hentry] at hlink
      cases hlink
      exact ⟨inner, outer, middle, rfl, htarget, hrest⟩

/-- Where names lead, and how deep links are nested on the way, is determined. -/
theorem unique {depth' : Nat} {goal' : Path} (hfollows : Follows disk depth path names goal)
    (hother : Follows disk depth' path names goal') : depth = depth' ∧ goal = goal' := by
  induction hfollows generalizing depth' goal' with
  | done path =>
      obtain ⟨rfl, rfl⟩ := hother.of_nil
      exact ⟨rfl, rfl⟩
  | stay hname _ ih => exact ih (hother.of_stay hname)
  | up _ ih => exact ih hother.of_up
  | enter hname hentry _ ih => exact ih (hother.of_enter hname hentry)
  | follow hname hentry _ _ iht ihr =>
      obtain ⟨inner', outer', middle', rfl, htarget, hrest⟩ := hother.of_link hname hentry
      obtain ⟨rfl, rfl⟩ := iht htarget
      obtain ⟨rfl, rfl⟩ := ihr hrest
      exact ⟨rfl, rfl⟩

theorem isPlain (hfollows : Follows disk depth path names goal) (hplain : path.IsPlain) :
    goal.IsPlain := by
  induction hfollows with
  | done path => exact hplain
  | stay _ _ ih => exact ih hplain
  | up _ ih => exact ih (isPlain_parent hplain)
  | enter hname _ _ ih => exact ih (isPlain_child hplain hname)
  | follow _ _ _ _ iht ihr => exact ihr (iht (isPlain_linkStart hplain _))

/-- From another spelling of the path, the names lead to another spelling of the goal. -/
theorem exists_of_place_eq (hfollows : Follows disk depth path names goal)
    (hplace : other.place = path.place) :
    ∃ goal', Follows disk depth other names goal' ∧ goal'.place = goal.place := by
  induction hfollows generalizing other with
  | done path => exact ⟨other, .done other, hplace⟩
  | stay hname _ ih =>
      obtain ⟨goal', hrest, hgoal⟩ := ih hplace
      exact ⟨goal', .stay hname hrest, hgoal⟩
  | @up _ path _ _ _ ih =>
      have hparent : other.parent.place = path.parent.place := by
        rw [Path.place_parent, Path.place_parent, hplace]
      obtain ⟨goal', hrest, hgoal⟩ := ih hparent
      exact ⟨goal', .up hrest, hgoal⟩
  | @enter _ path _ name _ hname hentry _ ih =>
      have hchild : (other.child name).place = (path.child name).place := by
        rw [Path.place_child, Path.place_child, hplace]
      obtain ⟨goal', hrest, hgoal⟩ := ih hchild
      exact ⟨goal', .enter hname (hchild ▸ hentry) hrest, hgoal⟩
  | @follow _ _ path _ _ name target _ hname hentry _ _ iht ihr =>
      have hchild : (other.child name).place = (path.child name).place := by
        rw [Path.place_child, Path.place_child, hplace]
      have hstart : (linkStart other target).place = (linkStart path target).place := by
        rw [place_linkStart, place_linkStart, hplace]
      obtain ⟨middle', htarget, hmiddle⟩ := iht hstart
      obtain ⟨goal', hrest, hgoal⟩ := ihr hmiddle
      exact ⟨goal', .follow hname (hchild ▸ hentry) htarget hrest, hgoal⟩

/-! ## The depth of links -/

/-- The link lies at the place, and links are nested so deep on the way through its target. -/
def Nests (disk : Disk) (depth : Nat) (place : Place) : Prop :=
  ∃ front name target goal, place = front ++ [name] ∧ disk.get? place = some (.link target)
    ∧ Follows disk depth (linkStart ⟨.root, front⟩ target) (Text.splitAt '/' target) goal

theorem Nests.unique {depth' : Nat} {place : Place} (hnests : Nests disk depth place)
    (hother : Nests disk depth' place) : depth = depth' := by
  obtain ⟨front, name, target, goal, rfl, hlink, hfollows⟩ := hnests
  obtain ⟨front', name', target', goal', heq, hlink', hfollows'⟩ := hother
  obtain ⟨rfl, -⟩ := List.append_inj' heq rfl
  rw [hlink] at hlink'
  cases hlink'
  exact (hfollows.unique hfollows').1

/-- A link that is followed from some spelling of its directory is nested as deep from any other. -/
theorem nests_child (hentry : disk.get? (path.child name).place = some (.link target))
    (hfollows : Follows disk depth (linkStart path target) (Text.splitAt '/' target) goal) :
    Nests disk depth (path.child name).place := by
  have hdirectory : disk.get? path.place = some .directory := by
    have h := get?_dropLast hentry
    rwa [Path.place_child, List.dropLast_concat] at h
  have hplace : (linkStart ⟨.root, path.place⟩ target).place = (linkStart path target).place := by
    rw [place_linkStart, place_linkStart, place_of_get? hdirectory]
  obtain ⟨goal', hfollows', -⟩ := hfollows.exists_of_place_eq hplace
  exact ⟨path.place, _, target, goal', Path.place_child .., hentry, hfollows'⟩

/-- For each depth below that of a way, there is a link that is nested so deep. -/
theorem exists_nests (hfollows : Follows disk depth path names goal) :
    ∀ d < depth, ∃ place, Nests disk d place := by
  induction hfollows with
  | done path => exact fun d hd => absurd hd (Nat.not_lt_zero d)
  | stay _ _ ih => exact ih
  | up _ ih => exact ih
  | enter _ _ _ ih => exact ih
  | @follow inner outer _ _ _ _ _ _ _ hentry htarget _ iht ihr =>
      intro d hd
      rcases Nat.lt_trichotomy d inner with hinner | rfl | hinner
      · exact iht d hinner
      · exact ⟨_, nests_child hentry htarget⟩
      · exact ihr d (by omega)

/-- Links are nested no deeper than there are links. -/
theorem depth_le_linkCount (hfollows : Follows disk depth path names goal) :
    depth ≤ disk.linkCount := by
  choose place hplace using hfollows.exists_nests
  have hnodup : (List.ofFn fun d : Fin depth => place d d.isLt).Nodup := by
    refine List.nodup_ofFn.mpr fun d e heq => Fin.ext ?_
    have hsame := hplace e e.isLt
    rw [← heq] at hsame
    exact (hplace d d.isLt).unique hsame
  have hsubset : (List.ofFn fun d : Fin depth => place d d.isLt) ⊆ disk.links.map Prod.fst := by
    intro found hfound
    obtain ⟨d, rfl⟩ := (List.mem_ofFn' _ _).mp hfound
    obtain ⟨front, name, target, goal, -, hlink, -⟩ := hplace d d.isLt
    exact List.mem_map_of_mem (mem_links hlink)
  have hle := (List.subperm_of_subset hnodup hsubset).length_le
  rwa [List.length_ofFn, List.length_map, length_links] at hle

end Follows

/-- Where every link can be followed, all names can. -/
theorem exists_follows (hfree : disk.IsLoopFree) (path : Path) (names : List Text) :
    ∃ depth goal, Follows disk depth path names goal := by
  induction names generalizing path with
  | nil => exact ⟨0, path, .done path⟩
  | cons name rest ih =>
      rcases isDown_cases name with hname | rfl | hname
      · obtain ⟨depth, goal, hrest⟩ := ih path
        exact ⟨depth, goal, .stay hname hrest⟩
      · obtain ⟨depth, goal, hrest⟩ := ih path.parent
        exact ⟨depth, goal, .up hrest⟩
      · by_cases hentry : ∃ target, disk.get? (path.child name).place = some (.link target)
        · obtain ⟨target, hentry⟩ := hentry
          have hlies := hentry
          rw [Path.place_child] at hlies
          have hdirectory : disk.get? path.place = some .directory := by
            have h := get?_dropLast hlies
            rwa [List.dropLast_concat] at h
          obtain ⟨inner, goal, hfollows⟩ := hfree _ _ _ hlies
          have hplace :
              (linkStart path target).place = (linkStart ⟨.root, path.place⟩ target).place := by
            rw [place_linkStart, place_linkStart, place_of_get? hdirectory]
          obtain ⟨middle, htarget, -⟩ := hfollows.exists_of_place_eq hplace
          obtain ⟨depth, goal, hrest⟩ := ih middle
          exact ⟨_, goal, .follow hname hentry htarget hrest⟩
        · obtain ⟨depth, goal, hrest⟩ := ih (path.child name)
          exact ⟨depth, goal, .enter hname (fun target h => hentry ⟨target, h⟩) hrest⟩

/-! ## Resolution -/

/-- Links are nested at least so deep on the way through the target of the link at a path. -/
def OutlastsDepth (disk : Disk) (depth : Nat) (link : Path) : Prop :=
  ∃ inner target middle, disk.get? link.place = some (.link target)
    ∧ Follows disk inner (linkStart link.parent target) (Text.splitAt '/' target) middle
    ∧ depth ≤ inner

theorem OutlastsDepth.mono {depth less : Nat} {link : Path}
    (houtlasts : OutlastsDepth disk depth link)
    (hless : less ≤ depth) : OutlastsDepth disk less link := by
  obtain ⟨inner, target, middle, hentry, hfollows, hdepth⟩ := houtlasts
  exact ⟨inner, target, middle, hentry, hfollows, hless.trans hdepth⟩

/-- The slashes that a target begins with make no difference to the names behind them. -/
theorem resolveFrom_splitAt_dropWhile (depth : Nat) (entered : List Path) (path : Path)
    (target : Text) :
    disk.resolveFrom (depth + 1) entered path (Text.splitAt '/' (target.dropWhile (· = .char '/')))
      = disk.resolveFrom (depth + 1) entered path (Text.splitAt '/' target) := by
  induction target with
  | nil => rfl
  | cons s rest ih =>
      by_cases hs : s = .char '/'
      · subst hs
        rw [List.dropWhile_cons_of_pos (by simp), ih, Text.splitAt, if_pos rfl, resolveFrom,
          resolveFrom]
        exact (resolveNames_cons_stay (.inl rfl)).symm
      · rw [List.dropWhile_cons_of_neg (by simpa using hs)]

/-- A resolution comes to where the names lead. -/
theorem resolveFrom_of_follows {spelled : Prop} (hlinks : spelled → disk.HasSpellableLinks)
    {d : Nat}
    {path plain goal : Path} {names : List Text} (hfollows : Follows disk d plain names goal)
    (hspells : disk.Spells path plain) (hparts : spelled → AreSpellable path.parts)
    (hnames : spelled → AreSpellable names) {depth : Nat} (hd : d ≤ depth) {entered : List Path}
    (hentered : ∀ link ∈ entered, ∃ plain, disk.Spells link plain ∧ OutlastsDepth disk d plain) :
    Yields disk spelled (disk.resolveFrom (depth + 1) entered path names) goal := by
  induction hfollows generalizing path depth entered with
  | done plain => exact .inl ⟨path, rfl, hspells, hparts⟩
  | stay hname _ ih =>
      rw [resolveFrom, resolveNames_cons_stay hname]
      exact ih hspells hparts (fun h => (List.forall_mem_cons.mp (hnames h)).2) hd hentered
  | up _ ih =>
      rw [resolveFrom, resolveNames_cons_up]
      exact ih hspells.stepBack (fun h => areSpellable_stepBack (hparts h))
        (fun h => (List.forall_mem_cons.mp (hnames h)).2) hd hentered
  | enter hname hentry _ ih =>
      obtain ⟨hspelling, hrest⟩ := forall_and.mp fun h => List.forall_mem_cons.mp (hnames h)
      have hchild : spelled → AreSpellable (path.child _).parts := fun h =>
        areSpellable_child (hparts h) (hspelling h)
      rw [resolveFrom]
      rcases resolveNames_cons_down hspells hname with ⟨hno, hfault⟩ | ⟨-, hsame⟩
        | ⟨target, hlink, -⟩
      · exact .inr ⟨fun h => hno (isSpellable_text_iff.mpr (hchild h)), hfault⟩
      · rw [hsame]
        exact ih (hspells.child hname) hchild hrest hd hentered
      · exact absurd hlink (hentry target)
  | @follow inner outer plain middle goal name target rest hname hentry htarget _ iht ihr =>
      obtain ⟨hspelling, hrest⟩ := forall_and.mp fun h => List.forall_mem_cons.mp (hnames h)
      have hnext := hspells.child hname
      rw [resolveFrom]
      rcases resolveNames_cons_down hspells hname with ⟨hno, hfault⟩ | ⟨hother, -⟩
        | ⟨target', hlink, hsame⟩
      · refine .inr ⟨fun h => hno (isSpellable_text_iff.mpr ?_), hfault⟩
        exact areSpellable_child (hparts h) (hspelling h)
      · exact absurd hentry (hother target)
      · rw [hentry] at hlink
        cases hlink
        have hnests : OutlastsDepth disk inner (plain.child name) := by
          refine ⟨inner, target, middle, hentry, ?_, Nat.le_refl _⟩
          rw [Path.parent_child]
          exact htarget
        -- A link met again would be nested deeper than itself.
        have hfresh : path.child name ∉ entered := by
          intro hmem
          obtain ⟨again, hagain, inner', target', middle', hentry', htarget', hle⟩ :=
            hentered _ hmem
          obtain rfl := hnext.unique hagain
          rw [hentry] at hentry'
          cases hentry'
          rw [Path.parent_child] at htarget'
          have := (htarget.unique htarget').1
          omega
        have hwithin : ∀ link ∈ path.child name :: entered,
            ∃ plain, disk.Spells link plain ∧ OutlastsDepth disk inner plain :=
          List.forall_mem_cons.mpr ⟨⟨_, hnext, hnests⟩, fun link hlink =>
            (hentered link hlink).imp fun _ h => ⟨h.1, h.2.mono (by omega)⟩⟩
        obtain ⟨depth, rfl⟩ : ∃ below, depth = below + 1 := ⟨depth - 1, by omega⟩
        rw [hsame, if_neg hfresh, resolveFrom_splitAt_dropWhile]
        have hinner :=
          iht (hspells.linkStart target) (fun h => areSpellable_linkStart (hparts h) target)
          (fun h => areSpellable_splitAt (hlinks h _ _ hentry)) (by omega : inner ≤ depth) hwithin
        rcases hinner with ⟨reached, hreached, hinner, hspelled⟩ | ⟨hno, fault, hfault⟩
        · rw [hreached]
          exact ihr hinner hspelled hrest (by omega : outer ≤ depth + 1)
            fun link hlink => (hentered link hlink).imp fun _ h => ⟨h.1, h.2.mono (by omega)⟩
        · rw [hfault]
          exact .inr ⟨hno, fault, rfl⟩

/-- A resolution comes to where its names lead within its bound. -/
theorem yields_of_follows {path base goal : Path} {d : Nat}
    (hbase : disk.Spells ⟨if path.isAbsolute then .root else .here, []⟩ base)
    (hfollows : Follows disk d base path.parts goal) {spelled : Prop}
    (hlinks : spelled → disk.HasSpellableLinks) (hparts : spelled → AreSpellable path.parts) :
    Yields disk spelled (disk.resolveFrom disk.spellingBound []
      ⟨if path.isAbsolute then .root else .here, []⟩ path.parts) goal := by
  have hbound : d ≤ disk.linkCount * ((disk.home.getD []).length + 2) + maxLinks := by
    have hcount := hfollows.depth_le_linkCount
    have hmul := Nat.le_mul_of_pos_right disk.linkCount
      (by omega : 0 < (disk.home.getD []).length + 2)
    omega
  exact resolveFrom_of_follows hlinks hfollows hbase (fun _ => List.forall_mem_nil _) hparts
    hbound nofun

/-- A path resolves to where its names lead, unless no disk can have a path on the way. -/
theorem resolve_of_follows {path base goal : Path} {d : Nat}
    (hbase : disk.Spells ⟨if path.isAbsolute then .root else .here, []⟩ base)
    (hfollows : Follows disk d base path.parts goal) {spelled : Prop}
    (hlinks : spelled → disk.HasSpellableLinks) (hparts : spelled → AreSpellable path.parts) :
    disk.resolve path = .ok goal
      ∨ ¬ spelled ∧ ∃ fault, disk.resolve path = .error (.impossible fault) :=
  resolve_of_yields (yields_of_follows hbase hfollows hlinks hparts)

/-- Relative paths start in a directory. -/
def HasHome (disk : Disk) : Prop :=
  ∃ home, disk.home = some home ∧ disk.get? home = some .directory

theorem HasHome.exists_startOf (hhome : disk.HasHome) (path : Path) :
    ∃ start, disk.startOf path = some start ∧ disk.get? start = some .directory := by
  rw [startOf]
  split
  · exact hhome
  · exact ⟨[], rfl, rfl⟩

/-- The names of a relative path are followed from the directory in which it starts, those of an
absolute one from the root. -/
theorem spells_start {path : Path} {start : Place} (hstart : disk.startOf path = some start)
    (hdirectory : disk.get? start = some .directory) :
    disk.Spells ⟨if path.isAbsolute then .root else .here, []⟩ ⟨.root, start⟩ := by
  rw [startOf] at hstart
  split at hstart
  · rename_i hhere
    rw [Path.isAbsolute, hhere]
    exact .here hstart (Attains.isPlain_start hdirectory).2
  · rename_i hhere
    obtain rfl := Option.some.inj hstart
    have habsolute : path.isAbsolute = true := decide_eq_true hhere
    rw [if_pos habsolute]
    exact .root

/-- Where every link can be followed, every path that starts somewhere resolves to an absolute path
whose parts all go down, unless no disk can have a path on the way. -/
theorem resolve_of_isLoopFree (hfree : disk.IsLoopFree) (hhome : disk.HasHome) (path : Path) :
    ∃ start depth goal, disk.startOf path = some start
      ∧ Follows disk depth ⟨.root, start⟩ path.parts goal ∧ goal.IsPlain
      ∧ (disk.resolve path = .ok goal
        ∨ ¬ (disk.HasSpellableLinks ∧ AreSpellable path.parts)
          ∧ ∃ fault, disk.resolve path = .error (.impossible fault)) := by
  obtain ⟨start, hstart, hdirectory⟩ := hhome.exists_startOf path
  obtain ⟨depth, goal, hfollows⟩ := exists_follows hfree ⟨.root, start⟩ path.parts
  exact ⟨start, depth, goal, hstart, hfollows, hfollows.isPlain (Attains.isPlain_start hdirectory),
    resolve_of_follows (spells_start hstart hdirectory) hfollows And.left And.right⟩

end Disk

end ResourcePruner
