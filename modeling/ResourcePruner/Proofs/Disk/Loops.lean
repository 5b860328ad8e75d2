import Mathlib.Data.List.Nodup
import Mathlib.Data.List.Perm.Subperm
import ResourcePruner.Proofs.Disk.Order
import ResourcePruner.Proofs.Disk.Refusals
import ResourcePruner.Proofs.Disk.Shedding

/-!
# Why a path is not resolved

On a disk whose links can all be spelled, a path that can be spelled resolves to one that can,
whether or not it leads anywhere. It is left unresolved only where links lead back to themselves or
where it has nowhere to start (`Disk.resolve_cases`).
-/

namespace ResourcePruner

namespace Disk

variable {disk : Disk} {path resolved : Path} {names : List Text}

/-- What a resolution comes to is a path that a disk can have. -/
def Resolution.IsSpelled : Resolution → Prop
  | .reached path => AreSpellable path.parts
  | .looped path => AreSpellable path.parts
  | .impossible _ => False

theorem areSpellable_partsOf {text : Text} (hspell : IsSpellable text) :
    AreSpellable (Path.partsOf text) :=
  fun part hpart => areSpellable_splitAt hspell part (List.mem_filter.mp hpart).1

theorem areSpellable_followedBy (hpath : AreSpellable path.parts) (hnames : AreSpellable names) :
    AreSpellable (followedBy path names).parts := by
  have htext : IsSpellable (names.intersperse ("/" : Text)).flatten := by
    refine isSpellable_iff.mpr fun symbol hsymbol => ?_
    rcases mem_flatten_intersperse hsymbol with hslash | ⟨name, hname, hsymbol⟩
    · rw [List.mem_singleton.mp hslash]
      exact ⟨by decide, by simp⟩
    · exact isSpellable_iff.mp (hnames name hname) symbol hsymbol
  rw [followedBy, Path.join]
  split
  · exact areSpellable_partsOf htext
  · exact List.forall_mem_append.mpr ⟨hpath, areSpellable_partsOf htext⟩

theorem areSpellable_cutAtNul (hpath : AreSpellable path.parts) :
    AreSpellable (cutAtNul path).parts :=
  areSpellable_partsOf <|
    (isSpellable_text_iff.mpr hpath).of_subset (List.takeWhile_sublist _).subset

/-- Names are followed to a path that a disk can have, if links are. -/
theorem isSpelled_resolveNames (hlinks : disk.HasSpellableLinks)
    {expand : (link start : Path) → List Text → Resolution}
    (hexpand : ∀ link start names, AreSpellable link.parts → AreSpellable start.parts →
      AreSpellable names → (expand link start names).IsSpelled)
    (hpath : AreSpellable path.parts) (hnames : AreSpellable names) :
    (disk.resolveNames expand path names).IsSpelled := by
  induction names generalizing path with
  | nil => exact hpath
  | cons name rest ih =>
      obtain ⟨hname, hrest⟩ := List.forall_mem_cons.mp hnames
      rw [resolveNames]
      split
      · exact ih hpath hrest
      · split
        · exact ih (areSpellable_stepBack hpath) hrest
        · have hnext := areSpellable_child hpath hname
          have hfault : pathFault? (path.child name).text = none := isSpellable_text_iff.mpr hnext
          simp only [hfault]
          cases hentry : disk.entryOf (path.child name) with
          | none => exact ih hnext hrest
          | some entry =>
              cases entry with
              | file content => exact ih hnext hrest
              | directory => exact ih hnext hrest
              | link target =>
                  obtain ⟨place, -, hlies⟩ := Option.bind_eq_some_iff.mp hentry
                  have hshorn : IsSpellable (target.dropWhile (· = .char '/')) :=
                    isSpellable_dropWhile (hlinks _ _ hlies)
                  have hpieces :
                      AreSpellable (Text.splitAt '/' (target.dropWhile (· = .char '/'))) :=
                    areSpellable_splitAt hshorn
                  have hstart : AreSpellable
                      (if (Text.ofString "/").isPrefixOf target then ⟨.root, []⟩ else path :
                        Path).parts :=
                    areSpellable_linkStart hpath target
                  have hinner := hexpand (path.child name) _ _ hnext hstart hpieces
                  simp only
                  generalize expand (path.child name) _ _ = inner at hinner ⊢
                  cases inner with
                  | reached inner => exact ih hinner hrest
                  | looped way => exact areSpellable_followedBy hinner hrest
                  | impossible fault => exact hinner

theorem isSpelled_resolveFrom (hlinks : disk.HasSpellableLinks) (depth : Nat) (entered : List Path)
    (hpath : AreSpellable path.parts) (hnames : AreSpellable names) :
    (disk.resolveFrom depth entered path names).IsSpelled := by
  induction depth generalizing entered path names with
  | zero => exact areSpellable_followedBy hpath hnames
  | succ depth ih =>
      refine isSpelled_resolveNames hlinks (fun link start names hlink hstart hnames => ?_)
        hpath hnames
      split
      · exact hlink
      · exact ih _ hstart hnames

/-- The names of the directory in which relative paths start can be spelled. -/
theorem areSpellable_home (hstarts : ∀ path, disk.StartsInDirectory path) {home : Place}
    (hhome : disk.home = some home) : AreSpellable home := by
  intro name hname
  have hplain := isPlainName_of_get? (hstarts ⟨.here, []⟩ home hhome) name hname
  simp only [isPlainName, Bool.and_eq_true] at hplain
  exact Option.isNone_iff_eq_none.mp hplain.1.2

theorem areSpellable_of_spelled (hstarts : ∀ path, disk.StartsInDirectory path)
    (hpath : AreSpellable path.parts) (hspelled : disk.spelled path = .ok resolved) :
    AreSpellable resolved.parts := by
  have hfold : ∀ {parts : List Text} {start : Place}, AreSpellable parts → AreSpellable start →
      AreSpellable (parts.foldl (fun place (name : Text) =>
        if name = "" || name = "." then place
        else if name = ".." then place.dropLast
        else place ++ [name]) start) := by
    intro parts
    induction parts with
    | nil => exact fun _ hstart => hstart
    | cons name rest ih =>
        intro start hparts hstart
        obtain ⟨hname, hrest⟩ := List.forall_mem_cons.mp hparts
        refine ih hrest ?_
        simp only
        split
        · exact hstart
        · split
          · exact fun part hpart => hstart part ((List.dropLast_sublist _).subset hpart)
          · exact List.forall_mem_append.mpr ⟨hstart, List.forall_mem_singleton.mpr hname⟩
  rw [spelled] at hspelled
  split at hspelled
  · rename_i place hplace
    cases hspelled
    obtain ⟨start, hstart, rfl⟩ := Option.map_eq_some_iff.mp hplace
    refine hfold hpath ?_
    rw [startOf] at hstart
    split at hstart
    · exact areSpellable_home hstarts hstart
    · cases hstart
      exact List.forall_mem_nil _
  · cases hspelled

theorem eq_noHome_of_spelled {fault : ResolveFault} (hspelled : disk.spelled path = .error fault) :
    fault = .noHome := by
  rw [spelled] at hspelled
  split at hspelled <;> cases hspelled
  rfl

/-- A path is resolved to what is spelled on the way; or it is not, because it has nowhere to start
or because links lead back. -/
theorem resolve_cases (hstarts : ∀ path, disk.StartsInDirectory path)
    (hlinks : disk.HasSpellableLinks)
    (hparts : AreSpellable path.parts) :
    (∃ resolved, AreSpellable resolved.parts ∧ disk.resolve path = .ok resolved)
      ∨ disk.resolve path = .error .noHome ∨ ∃ found,
      disk.resolve path = .error (.linkLoop found) := by
  have hstart : AreSpellable (⟨if path.isAbsolute then .root else .here, []⟩ : Path).parts :=
    List.forall_mem_nil _
  have hresult := isSpelled_resolveFrom hlinks disk.spellingBound [] hstart hparts
  rw [resolve]
  simp only
  generalize disk.resolveFrom disk.spellingBound [] _ path.parts = result at hresult ⊢
  have hwhere : ∀ {way}, AreSpellable way.parts → disk.spelled way = .error .noHome
      ∨ ∃ resolved, AreSpellable resolved.parts ∧ disk.spelled way = .ok resolved := by
    intro way hway
    cases hspelled : disk.spelled way with
    | error fault => exact .inl (eq_noHome_of_spelled hspelled ▸ rfl)
    | ok resolved => exact .inr ⟨resolved, areSpellable_of_spelled hstarts hway hspelled, rfl⟩
  cases result with
  | impossible fault => exact hresult.elim
  | reached way =>
      rcases hwhere hresult with hnone | ⟨resolved, hresolved, hspelled⟩
      · exact .inr (.inl hnone)
      · exact .inl ⟨resolved, hresolved, hspelled⟩
  | looped way =>
      rcases hwhere hresult with hnone | ⟨spelling, hspelling, hspelled⟩
      · simp only [hnone]
        exact .inr (.inl rfl)
      · have hcut := areSpellable_cutAtNul hspelling
        simp only [hspelled, bind, Except.bind]
        split
        · exact .inr (.inr ⟨_, rfl⟩)
        · exact absurd ‹_› (reach_ne_impossible hcut .target)
        · exact .inl ⟨_, hcut, rfl⟩

/-! ## Disks with the same links -/

variable {more : Disk}

/-- The two disks have the same links, and relative paths start at the same place. -/
structure LinksAlike (disk more : Disk) : Prop where
  home : more.home = disk.home
  link : ∀ place target, disk.get? place = some (.link target) ↔
    more.get? place = some (.link target)

namespace LinksAlike

theorem linkCount_le (halike : LinksAlike disk more) : disk.linkCount ≤ more.linkCount := by
  rw [linkCount, linkCount, List.countP_eq_length_filter, List.countP_eq_length_filter]
  refine ((Listing.nodup_contents disk.proper []).filter _).subperm ?_ |>.length_le
  rintro ⟨place, entry⟩ hmem
  obtain ⟨hmem, hlink⟩ := List.mem_filter.mp hmem
  cases entry with
  | file content => cases hlink
  | directory => cases hlink
  | link target =>
      have hmore := (halike.link place target).mp (get?_of_mem_contents hmem)
      exact List.mem_filter.mpr ⟨mem_contents (ne_nil_of_get? (by simp) hmore) hmore, rfl⟩

theorem symm (halike : LinksAlike disk more) : LinksAlike more disk :=
  ⟨halike.home.symm, fun place target => (halike.link place target).symm⟩

theorem spellingBound_eq (halike : LinksAlike disk more) :
    more.spellingBound = disk.spellingBound := by
  rw [spellingBound, spellingBound, halike.home,
    Nat.le_antisymm halike.symm.linkCount_le halike.linkCount_le]

theorem entryOf_link_iff (halike : LinksAlike disk more) (path : Path) (target : Text) :
    disk.entryOf path = some (.link target) ↔ more.entryOf path = some (.link target) := by
  have hplace : more.spelledPlace? path = disk.spelledPlace? path := by
    rw [spelledPlace?, spelledPlace?, startOf_eq_of_home halike.home]
  rw [entryOf, entryOf, hplace]
  cases disk.spelledPlace? path with
  | none => exact Iff.rfl
  | some place => exact halike.link _ target

theorem cases_of_not_link {entry : Option Entry} (hlink : ¬ ∃ target, entry = some (.link target)) :
    entry = none ∨ entry = some .directory ∨ ∃ content, entry = some (.file content) := by
  cases entry with
  | none => exact .inl rfl
  | some found =>
      cases found with
      | link target => exact absurd ⟨target, rfl⟩ hlink
      | file content => exact .inr (.inr ⟨content, rfl⟩)
      | directory => exact .inr (.inl rfl)

theorem resolveNames_eq (halike : LinksAlike disk more)
    (expand : (link start : Path) → List Text → Resolution)
    (path : Path) (names : List Text) :
    more.resolveNames expand path names = disk.resolveNames expand path names := by
  induction names generalizing path with
  | nil => rfl
  | cons name rest ih =>
      rw [resolveNames, resolveNames]
      simp only [ih]
      have hentry := halike.entryOf_link_iff (path.child name)
      cases pathFault? (path.child name).text with
      | some fault => rfl
      | none =>
          by_cases hlink : ∃ target, disk.entryOf (path.child name) = some (.link target)
          · obtain ⟨target, hlink⟩ := hlink
            rw [hlink, (hentry target).mp hlink]
          · have hother : ¬ ∃ target, more.entryOf (path.child name) = some (.link target) := by
              rintro ⟨target, h⟩
              exact hlink ⟨target, (hentry target).mpr h⟩
            rcases cases_of_not_link hlink with h | h | ⟨_, h⟩ <;>
              rcases cases_of_not_link hother with h' | h' | ⟨_, h'⟩ <;> rw [h, h']

theorem resolveFrom_eq (halike : LinksAlike disk more) (depth : Nat) (entered : List Path)
    (path : Path)
    (names : List Text) :
    more.resolveFrom depth entered path names = disk.resolveFrom depth entered path names := by
  induction depth generalizing entered path names with
  | zero => rfl
  | succ depth ih => simp only [resolveFrom, halike.resolveNames_eq, ih]

end LinksAlike

/-- Whether the end of a path has been reached. -/
def Resolution.isReached : Resolution → Bool
  | .reached _ => true
  | .looped _ | .impossible _ => false

/-- None of the links that are met where the path is followed leads back to itself. -/
def LeadsAhead (disk : Disk) (path : Path) : Prop :=
  (disk.resolveFrom disk.spellingBound [] ⟨if path.isAbsolute then .root else .here, []⟩
    path.parts).isReached = true

instance (disk : Disk) (path : Path) : Decidable (disk.LeadsAhead path) :=
  inferInstanceAs (Decidable (_ = true))

/-- What else there is on a disk has nothing to do with where links lead. -/
theorem LeadsAhead.resolve_ne_linkLoop (hahead : disk.LeadsAhead path)
    (halike : LinksAlike disk more)
    (found : Path) : more.resolve path ≠ .error (.linkLoop found) := by
  rw [LeadsAhead, ← halike.spellingBound_eq, ← halike.resolveFrom_eq] at hahead
  intro hloop
  rw [resolve] at hloop
  simp only at hloop
  generalize more.resolveFrom more.spellingBound [] _ path.parts = result at hahead hloop
  cases result with
  | reached way => cases eq_noHome_of_spelled hloop
  | looped way => cases hahead
  | impossible fault => cases hahead

/-- Where no link may go, all stay. -/
theorem Sheds.linksAlike {taken : Place → Prop} (hsheds : disk.Sheds taken more)
    (hnone : ∀ link ∈ disk.links, ¬ taken link.1) : LinksAlike disk more :=
  ⟨hsheds.home, fun place target =>
    ⟨fun h => hsheds.kept place target h (hnone _ (mem_links h)), hsheds.back place target⟩⟩

end Disk

end ResourcePruner
