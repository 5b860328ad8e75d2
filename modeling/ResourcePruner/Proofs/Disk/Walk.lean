import ResourcePruner.Disk.Walk
import ResourcePruner.Proofs.Disk.Spelling

/-!
# What a walk meets

Walks are described by names: a walk meets what lies at the end of a way whose directories it enters
(`Disk.mem_preorder`). The files that a walk yields are thereby told by where they lie and by the
names on the way there (`Disk.mem_walkFiles`). The bound on depth excludes nothing, since a disk
holds at least as many entries as there are names on the way to any of them.
-/

namespace ResourcePruner

/-! ## Entries and children -/

namespace Listing

theorem mem_entries_iff {listing : Listing} (hproper : listing.IsProper) {name : Text}
    {entry : Entry} : (name, entry) ∈ listing.entries ↔ listing.get? [name] = some entry := by
  induction listing with
  | nil => simp [entries]
  | cons first old inside rest _ ih =>
      obtain ⟨-, -, habove, -, hrest⟩ := hproper
      rw [entries, List.mem_cons, ih hrest, get?]
      by_cases hname : name = first
      · subst hname
        rw [if_pos rfl, if_pos rfl, get?_eq_none_of_above habove]
        simp [eq_comm]
      · rw [if_neg hname]
        simp [hname]

theorem mem_entries_within {listing : Listing} (hproper : listing.IsProper) (place : Place)
    {name : Text} {entry : Entry} :
    (name, entry) ∈ (listing.within place).entries
      ↔ listing.get? (place ++ [name]) = some entry := by
  induction listing generalizing place with
  | nil => cases place <;> simp [within, entries]
  | cons first old inside rest ihi ihr =>
      cases place with
      | nil => exact mem_entries_iff hproper
      | cons step more =>
          obtain ⟨-, -, -, hinside, hrest⟩ := hproper
          rw [within, List.cons_append, get?]
          by_cases hstep : step = first
          · rw [if_pos hstep, if_pos hstep, if_neg (by simp)]
            exact ihi hinside more
          · rw [if_neg hstep, if_neg hstep, ← List.cons_append]
            exact ihr hrest (step :: more)

/-- The names on the way to an entry are plain. -/
theorem isPlainName_of_get? {listing : Listing} (hproper : listing.IsProper) {place : Place}
    {entry : Entry} (hlies : listing.get? place = some entry) :
    ∀ name ∈ place, isPlainName name = true := by
  induction listing generalizing place with
  | nil => simp at hlies
  | cons first old inside rest ihi ihr =>
      obtain ⟨hplain, -, -, hinside, hrest⟩ := hproper
      cases place with
      | nil => cases hlies
      | cons step more =>
          rw [get?] at hlies
          split at hlies
          · rename_i hstep
            subst hstep
            split at hlies
            · rename_i hlast
              subst hlast
              exact List.forall_mem_singleton.mpr hplain
            · exact List.forall_mem_cons.mpr ⟨hplain, ihi hinside hlies⟩
          · exact ihr hrest hlies

theorem length_le_of_get? {listing : Listing} {place : Place} {entry : Entry}
    (hlies : listing.get? place = some entry) (above : Place) :
    place.length ≤ (listing.contents above).length := by
  induction listing generalizing place above with
  | nil => simp at hlies
  | cons first old inside rest ihi ihr =>
      cases place with
      | nil => cases hlies
      | cons step more =>
          simp only [contents, List.length_append, List.length_cons]
          rw [get?] at hlies
          split at hlies
          · split at hlies
            · rename_i hlast
              subst hlast
              simp only [List.length_nil]
              omega
            · have := ihi hlies (above ++ [first])
              omega
          · have := ihr hlies above
            simp only [List.length_cons] at this
            omega

theorem mem_contents {listing : Listing} {below : Place} {entry : Entry}
    (hlies : listing.get? below = some entry) (place : Place) :
    (place ++ below, entry) ∈ listing.contents place := by
  fun_induction Listing.get? listing below generalizing place with
  | case1 => cases hlies
  | case2 => cases hlies
  | case3 found inside rest name =>
      cases hlies
      exact List.mem_append_left _ List.mem_cons_self
  | case4 found inside rest name more hmore ih =>
      have hmem := ih hlies (place ++ [name])
      rw [List.append_assoc, List.singleton_append] at hmem
      exact List.mem_append_left _ (List.mem_cons_of_mem _ hmem)
  | case5 name found inside rest first more hne ih =>
      exact List.mem_append_right _ (ih hlies place)

end Listing

namespace Disk

variable {disk : Disk}

theorem mem_children {place : Place} {name : Text} {entry : Entry} :
    (name, entry) ∈ disk.children place ↔ disk.get? (place ++ [name]) = some entry := by
  rw [children, Listing.mem_entries_within disk.proper, get?, if_neg (by simp)]

theorem isPlainName_of_get? {place : Place} {entry : Entry}
    (hlies : disk.get? place = some entry) : ∀ name ∈ place, isPlainName name = true := by
  rw [get?] at hlies
  split at hlies
  · rename_i hroot
    subst hroot
    exact List.forall_mem_nil _
  · exact Listing.isPlainName_of_get? disk.proper hlies

theorem length_lt_depthBound {place : Place} {entry : Entry}
    (hlies : disk.get? place = some entry) : place.length < disk.depthBound := by
  rw [depthBound, contents]
  rw [get?] at hlies
  split at hlies
  · rename_i hroot
    simp [hroot]
  · exact Nat.lt_succ_of_le (Listing.length_le_of_get? hlies [])

theorem length_way_lt_depthBound {place way : Place} {entry : Entry}
    (hlies : disk.get? (place ++ way) = some entry) : way.length < disk.depthBound := by
  have hlength := length_lt_depthBound hlies
  rw [List.length_append] at hlength
  omega

theorem mem_contents {place : Place} {entry : Entry} (hplace : place ≠ [])
    (hlies : disk.get? place = some entry) : (place, entry) ∈ disk.contents := by
  rw [get?, if_neg hplace] at hlies
  exact Listing.mem_contents hlies []

theorem ne_nil_of_get? {place : Place} {entry : Entry} (hentry : entry ≠ .directory)
    (hlies : disk.get? place = some entry) : place ≠ [] := by
  rintro rfl
  exact hentry (Option.some.inj hlies).symm

/-- The links of a disk, each with what it spells. -/
def links (disk : Disk) : List (Place × Text) :=
  disk.contents.filterMap fun
    | (place, .link target) => some (place, target)
    | _ => none

theorem mem_links {place : Place} {target : Text} (hlink : disk.get? place = some (.link target)) :
    (place, target) ∈ disk.links :=
  List.mem_filterMap.mpr ⟨_, mem_contents (ne_nil_of_get? (by simp) hlink) hlink, rfl⟩

theorem hasSpellableLinks_of_links (hlinks : ∀ link ∈ disk.links, IsSpellable link.2) :
    disk.HasSpellableLinks :=
  fun _ _ hlink => hlinks _ (mem_links hlink)

/-- What lies above an entry are directories. -/
theorem get?_of_append {place more : Place} {entry : Entry} (hmore : more ≠ [])
    (hlies : disk.get? (place ++ more) = some entry) : disk.get? place = some .directory := by
  induction hlength : more.length generalizing more entry with
  | zero => exact absurd (List.length_eq_zero_iff.mp hlength) hmore
  | succ n ih =>
      have habove := get?_dropLast hlies
      rw [List.dropLast_append_of_ne_nil hmore] at habove
      by_cases hlast : more.dropLast = []
      · rwa [hlast, List.append_nil] at habove
      · exact ih hlast habove (by rw [List.length_dropLast, hlength]; rfl)

/-! ## Going down -/

/-- A name as a directory lists it. -/
def IsListed (name : Text) : Prop :=
  IsDown name ∧ Utf8.canonicalName name = name

theorem isListed_of_isPlainName {name : Text} (hplain : isPlainName name = true) :
    IsListed name := by
  simp only [isPlainName, Bool.and_eq_true, decide_eq_true_eq] at hplain
  obtain ⟨⟨⟨⟨⟨h1, h2⟩, h3⟩, -⟩, -⟩, hcanonical⟩ := hplain
  exact ⟨⟨h1, h2, h3⟩, hcanonical⟩

theorem isListed_of_get? {place names : Place} {entry : Entry}
    (hlies : disk.get? (place ++ names) = some entry) : ∀ name ∈ names, IsListed name :=
  fun name hname => isListed_of_isPlainName
    (isPlainName_of_get? hlies name (List.mem_append_right _ hname))

theorem place_descend (path : Path) {names : List Text} (hnames : ∀ name ∈ names, IsListed name) :
    (descend path names).place = path.place ++ names := by
  have hmap : names.map Utf8.canonicalName = names :=
    (List.map_congr_left fun name hname => (hnames name hname).2).trans names.map_id
  rw [Path.place, descend, List.map_append, hmap, Path.place]

@[simp] theorem descend_descend (path : Path) (names more : List Text) :
    descend (descend path names) more = descend path (names ++ more) := by
  simp [descend]

theorem descend_injective {path : Path} {names more : List Text}
    (heq : descend path names = descend path more) : names = more :=
  List.append_cancel_left (congrArg Path.parts heq)

theorem parent_descend (path : Path) {names : List Text} (hne : names ≠ []) :
    (descend path names).parent = descend path names.dropLast := by
  rw [Path.parent, descend, descend, List.dropLast_append_of_ne_nil hne]

theorem eq_descend_of_append {path upper : Path} {names : List Text}
    (hanchor : upper.anchor = path.anchor) (hparts : path.parts ++ names = upper.parts) :
    upper = descend path names := by
  obtain ⟨anchor, parts⟩ := upper
  obtain rfl : path.parts ++ names = parts := hparts
  exact congrArg (Path.mk · _) hanchor

theorem name_descend (path : Path) (names : List Text) (name : Text) :
    (descend path (names ++ [name])).name = name := by
  rw [Path.name, descend, ← List.append_assoc, List.getLastD_concat]

theorem descend_nil (path : Path) : descend path [] = path := by
  simp [descend]

theorem descend_cons (path : Path) (name : Text) (rest : List Text) :
    descend path (name :: rest) = descend (path.child name) rest := by
  simp [descend, Path.child]

/-- Names lead down through directories to what is no link. -/
theorem leads_descend {path : Path} {names : List Text} (hnames : ∀ name ∈ names, IsListed name)
    (habove : names ≠ [] → disk.get? (path.place ++ names.dropLast) = some .directory)
    (hlink : ∀ target, disk.get? (path.place ++ names) ≠ some (.link target)) :
    Leads disk 0 path names (descend path names) := by
  induction names generalizing path with
  | nil =>
      rw [descend_nil]
      exact .done path
  | cons name rest ih =>
      obtain ⟨⟨hname, hcanonical⟩, hrest⟩ := List.forall_mem_cons.mp hnames
      have hplace : (path.child name).place = path.place ++ [name] := by
        rw [Path.place_child, hcanonical]
      have happend : ∀ more, path.place ++ name :: more = (path.child name).place ++ more := by
        intro more
        rw [hplace, List.append_assoc, List.singleton_append]
      rw [happend] at hlink
      rw [descend_cons]
      by_cases hlast : rest = []
      · subst hlast
        rw [List.append_nil] at hlink
        rw [descend_nil]
        by_cases hdirectory : disk.get? (path.child name).place = some .directory
        · exact .enter hname hdirectory (.done _)
        · exact .last hname ⟨hdirectory, hlink⟩
      · have hmiddle := habove (List.cons_ne_nil _ _)
        rw [List.dropLast_cons_of_ne_nil hlast, happend] at hmiddle
        refine .enter hname ?_ (ih hrest (fun _ => hmiddle) hlink)
        by_cases hempty : rest.dropLast = []
        · rwa [hempty, List.append_nil] at hmiddle
        · exact get?_of_append hempty hmiddle

/-- What lies below a directory is located by the names on the way there, also once it is gone. -/
theorem Locates.descend {root goal : Path} {names : List Text} (hroot : disk.Locates root goal)
    (hnames : ∀ name ∈ names, IsListed name)
    (habove : names ≠ [] → disk.get? (goal.place ++ names.dropLast) = some .directory)
    (hlink : ∀ target, disk.get? (goal.place ++ names) ≠ some (.link target)) :
    disk.Locates (Disk.descend root names) (Disk.descend goal names) := by
  obtain ⟨n, hn, hleads⟩ := hroot
  refine ⟨n, hn, hleads.append ?_ (leads_descend hnames habove hlink)⟩
  by_cases hempty : names = []
  · exact .inl hempty
  · by_cases hlast : names.dropLast = []
    · rw [hlast, List.append_nil] at habove
      exact .inr (habove hempty)
    · exact .inr (get?_of_append hlast (habove hempty))

theorem get?_append_dropLast {place names : Place} {entry : Entry} (hnames : names ≠ [])
    (hlies : disk.get? (place ++ names) = some entry) :
    disk.get? (place ++ names.dropLast) = some .directory := by
  rw [← List.dropLast_append_of_ne_nil hnames]
  exact get?_dropLast hlies

theorem Locates.descend_of_get? {root goal : Path} {names : List Text} {entry : Entry}
    (hroot : disk.Locates root goal) (hlies : disk.get? (goal.place ++ names) = some entry)
    (hentry : isLinkEntry entry = false) :
    disk.Locates (Disk.descend root names) (Disk.descend goal names) := by
  refine hroot.descend (isListed_of_get? hlies) (fun hne => get?_append_dropLast hne hlies) ?_
  rintro target hlink
  rw [hlies] at hlink
  cases hlink
  cases hentry

/-! ## Looking up -/

theorem flatten_intersperse_append (separator : Text) (front back : List Text) :
    ∃ rest, ((front ++ back).intersperse separator).flatten
      = (front.intersperse separator).flatten ++ rest := by
  induction front with
  | nil => exact ⟨_, rfl⟩
  | cons part front ih =>
      cases front with
      | nil =>
          cases back with
          | nil => exact ⟨[], by simp⟩
          | cons name more => exact ⟨_, by simp; rfl⟩
      | cons next front =>
          obtain ⟨rest, hrest⟩ := ih
          refine ⟨rest, ?_⟩
          simp only [List.cons_append, List.intersperse_cons_cons, List.flatten_cons] at hrest ⊢
          rw [hrest]
          simp

theorem text_descend {path : Path} (habsolute : path.isAbsolute = true) (names : List Text) :
    ∃ rest, (descend path names).text = path.text ++ rest := by
  have hanchor : path.anchor ≠ .here := of_decide_eq_true habsolute
  obtain ⟨rest, hrest⟩ := flatten_intersperse_append ("/" : Text) path.parts names
  refine ⟨rest, ?_⟩
  rw [Path.text, if_neg (by simp [descend, hanchor]), Path.text, if_neg (by simp [hanchor]),
    List.append_assoc, ← hrest]
  rfl

/-- A path can be looked up if one further down can. -/
theorem IsLookedUp.of_descend {path : Path} (habsolute : path.isAbsolute = true)
    {names : List Text} (hlooked : IsLookedUp (descend path names)) : IsLookedUp path := by
  obtain ⟨rest, hrest⟩ := text_descend habsolute names
  obtain ⟨hfault, hbytes⟩ := hlooked
  rw [hrest] at hfault hbytes
  refine ⟨IsSpellable.of_subset hfault (List.subset_append_left _ _), Nat.le_trans ?_ hbytes⟩
  rw [byteCount_append]
  exact Nat.le_add_right _ _

/-- What lies on a disk has names that a disk can have. -/
theorem areSpellable_descend {path : Path} (hlooked : IsLookedUp path) {place names : Place}
    {entry : Entry}
    (hlies : disk.get? (place ++ names) = some entry) :
    AreSpellable (descend path names).parts := by
  refine List.forall_mem_append.mpr ⟨isSpellable_text_iff.mp hlooked.1, fun name hname => ?_⟩
  have hplain := isPlainName_of_get? hlies name (List.mem_append_right _ hname)
  simp only [isPlainName, Bool.and_eq_true, Option.isNone_iff_eq_none] at hplain
  exact hplain.1.2

/-! ## Ways -/

/-- From a place, the names go down through directories that are entered. -/
def IsWay (disk : Disk) (enter : Text → Bool) : Place → List Text → Prop
  | _, [] => True
  | place, name :: rest =>
    disk.get? (place ++ [name]) = some .directory ∧ enter name = true
      ∧ IsWay disk enter (place ++ [name]) rest

theorem isWay_of_get? {enter : Text → Bool} {place : Place} {names : List Text}
    (henter : ∀ name ∈ names, enter name = true)
    (hlies : disk.get? (place ++ names) = some .directory) : IsWay disk enter place names := by
  induction names generalizing place with
  | nil => trivial
  | cons name rest ih =>
      obtain ⟨hname, hrest⟩ := List.forall_mem_cons.mp henter
      rw [← List.singleton_append, ← List.append_assoc] at hlies
      refine ⟨?_, hname, ih hrest hlies⟩
      by_cases hlast : rest = []
      · rwa [hlast, List.append_nil] at hlies
      · exact get?_of_append hlast hlies

theorem IsWay.enter {enter : Text → Bool} {place : Place} {names : List Text}
    (hway : IsWay disk enter place names) : ∀ name ∈ names, enter name = true := by
  induction names generalizing place with
  | nil => exact nofun
  | cons name rest ih => exact List.forall_mem_cons.mpr ⟨hway.2.1, ih hway.2.2⟩

/-- A walk takes what it takes from the directories at the end of ways. -/
theorem mem_preorder {enter : Text → Bool} {take : Place → List (List Text)} {depth : Nat}
    {place : Place} {names : List Text} :
    names ∈ disk.preorder enter take depth place ↔
      ∃ way more, names = way ++ more ∧ way.length < depth ∧ IsWay disk enter place way
        ∧ more ∈ take (place ++ way) := by
  induction depth generalizing place names with
  | zero => simp [preorder]
  | succ depth ih =>
      rw [preorder, List.mem_append, List.mem_flatMap]
      constructor
      · rintro (htake | ⟨⟨name, entry⟩, hchild, hmem⟩)
        · exact ⟨[], names, rfl, Nat.succ_pos depth, trivial, by rwa [List.append_nil]⟩
        · simp only at hmem
          split at hmem
          · rename_i henter
            obtain ⟨hentry, henter⟩ := Bool.and_eq_true_iff.mp henter
            obtain ⟨inner, hinner, rfl⟩ := List.mem_map.mp hmem
            obtain ⟨way, more, rfl, hlength, hway, hmore⟩ := ih.mp hinner
            refine ⟨name :: way, more, rfl, Nat.succ_lt_succ hlength, ⟨?_, henter, hway⟩, ?_⟩
            · rw [mem_children.mp hchild, of_decide_eq_true hentry]
            · rwa [List.append_assoc] at hmore
          · cases hmem
      · rintro ⟨way, more, rfl, hlength, hway, hmore⟩
        cases way with
        | nil => exact .inl (by rwa [List.append_nil] at hmore)
        | cons name way =>
            obtain ⟨hlies, henter, hway⟩ := hway
            refine .inr ⟨(name, .directory), mem_children.mpr hlies, ?_⟩
            simp only [henter, decide_true, Bool.and_true, if_true]
            refine List.mem_map.mpr ⟨way ++ more, ih.mpr ⟨way, more, rfl, ?_, hway, ?_⟩, rfl⟩
            · exact Nat.lt_of_succ_lt_succ hlength
            · rwa [List.append_assoc]

/-! ## Files -/

theorem mem_filesBelow {skipped : List Text} {place : Place} {names : List Text} :
    names ∈ disk.filesBelow skipped place ↔
      ∃ way name content, names = way ++ [name] ∧ (∀ d ∈ way, isSkipped skipped d = false)
        ∧ disk.get? (place ++ names) = some (.file content) := by
  rw [filesBelow, mem_preorder]
  constructor
  · rintro ⟨way, more, rfl, -, hway, hmore⟩
    obtain ⟨⟨name, entry⟩, hchild, rfl⟩ := List.mem_map.mp hmore
    obtain ⟨hchild, hfile⟩ := List.mem_filter.mp hchild
    rw [mem_children, List.append_assoc] at hchild
    cases entry with
    | file content =>
        exact ⟨way, name, content, rfl, fun d hd => by simpa using hway.enter d hd, hchild⟩
    | link _ => cases hfile
    | directory => cases hfile
  · rintro ⟨way, name, content, rfl, henter, hlies⟩
    rw [← List.append_assoc] at hlies
    have hdirectory := get?_of_append (List.cons_ne_nil name []) hlies
    refine ⟨way, [name], rfl, length_way_lt_depthBound hdirectory,
      isWay_of_get? (fun d hd => by simp [henter d hd]) hdirectory, ?_⟩
    refine List.mem_map.mpr ⟨(name, .file content), List.mem_filter.mpr ⟨?_, rfl⟩, rfl⟩
    exact mem_children.mpr hlies

/-- The files that a walk yields, by where they lie. -/
theorem mem_walkFiles {root file : Path} {skipped : List Text} {files : List Path} {place : Place}
    (hopen : disk.openDirectory root = .ok place)
    (hwalk : disk.walkFiles root skipped = .ok files) :
    file ∈ files ↔
      ∃ way name content, file = descend root (way ++ [name])
        ∧ (∀ d ∈ way, isSkipped skipped d = false)
        ∧ disk.get? (place ++ way ++ [name]) = some (.file content) := by
  rw [walkFiles, hopen] at hwalk
  cases hwalk
  rw [List.mem_map]
  constructor
  · rintro ⟨names, hnames, rfl⟩
    obtain ⟨way, name, content, rfl, henter, hlies⟩ := mem_filesBelow.mp hnames
    exact ⟨way, name, content, rfl, henter, by rwa [List.append_assoc]⟩
  · rintro ⟨way, name, content, rfl, henter, hlies⟩
    rw [List.append_assoc] at hlies
    exact ⟨_, mem_filesBelow.mpr ⟨way, name, content, rfl, henter, hlies⟩, rfl⟩

end Disk

end ResourcePruner
