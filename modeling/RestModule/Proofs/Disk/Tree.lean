import RestModule.Disk.Basic
import RestModule.Proofs.Except
import RestModule.Proofs.FilePath.Steps

/-!
# Disks as trees

On a disk whose entries all stand in directories, a path that leads to an entry leads to the place
that its steps add up to (`Disk.find_eq_ok`). That there is an entry at this place is enough as far as
the path goes up only from directories that exist (`Disk.HasAscents`, `Disk.Keeps.has_of_entry`):
every other directory on its way is one above the entry. -/

namespace RestModule.Disk

/-! ## Places -/

/-- Whether a place is that of a directory. -/
def isDirectoryAt (disk : Disk) (place : Place) : Bool :=
  match disk.entryAt? place with
  | some .directory => true
  | _ => false

theorem isDirectoryAt_iff {disk : Disk} {place : Place} :
    disk.isDirectoryAt place = true ↔ disk.entryAt? place = some .directory := by
  unfold isDirectoryAt
  split
  · next h => exact iff_of_true rfl h
  · next h => exact iff_of_false Bool.false_ne_true h

/-- Every entry stands in a directory, and so does whoever works on the disk. -/
structure IsTree (disk : Disk) : Prop where
  working : disk.isDirectoryAt disk.working = true
  parents : ∀ entry ∈ disk.entries, disk.isDirectoryAt entry.1.dropLast = true

/-- The place that a name leads to from another place. -/
def move (place : Place) (name : String) : Place :=
  if name = "." then place else if name = ".." then place.dropLast else place ++ [name]

/-- The place that a path leads to if every directory on its way exists. -/
def placeOf (disk : Disk) (path : FilePath) : Place :=
  (names path).foldl move (disk.start path)

theorem foldl_move_of_plain {names : List String} (h : ∀ name ∈ names, name ≠ "." ∧ name ≠ "..")
    (place : Place) : names.foldl move place = place ++ names := by
  induction names generalizing place with
  | nil => exact (List.append_nil _).symm
  | cons name rest ih =>
    obtain ⟨⟨hdot, hup⟩, hrest⟩ := List.forall_mem_cons.mp h
    rw [List.foldl_cons, ih hrest, move, if_neg hdot, if_neg hup, List.append_assoc]
    rfl

/-- The steps of a path are its names but the idle ones. -/
theorem steps_eq_names (path : FilePath) : path.steps = (names path).filter (· != ".") := by
  rw [FilePath.steps, names, List.filter_filter]
  refine List.filter_congr fun piece _ => ?_
  rw [Bool.eq_iff_iff]
  simp [FilePath.isIdle, and_comm]

theorem placeOf_eq_steps (disk : Disk) (path : FilePath) :
    disk.placeOf path = path.steps.foldl move (disk.start path) := by
  rw [steps_eq_names, List.foldl_filter, placeOf]
  congr
  funext place name
  by_cases hdot : name = "." <;> simp [move, hdot]

/-- A path within a directory leads to a place below that of the directory. -/
theorem placeOf_within {path base : FilePath} {parts : List String} (disk : Disk)
    (h : path.components = base.components ++ parts)
    (hparts : ∀ part ∈ parts, FilePath.IsOrdinary part ∧ part ≠ "..") :
    disk.placeOf path = disk.placeOf base ++ parts := by
  obtain ⟨hsteps, habs⟩ := FilePath.steps_of_components h fun part hpart => (hparts part hpart).1
  have hplain : ∀ part ∈ parts, part ≠ "." ∧ part ≠ ".." := by
    intro part hpart
    obtain ⟨⟨-, hidle⟩, hup⟩ := hparts part hpart
    refine ⟨?_, hup⟩
    rintro rfl
    cases hidle
  rw [placeOf_eq_steps, placeOf_eq_steps, hsteps, List.foldl_append, foldl_move_of_plain hplain,
    start, habs]
  rfl

theorem placeOf_congr {left right : FilePath} (disk : Disk) (h : left.components = right.components) :
    disk.placeOf left = disk.placeOf right := by
  rw [disk.placeOf_within (h.trans (List.append_nil _).symm) nofun, List.append_nil]

/-! ## Entries -/

theorem lookup_put (place : Place) (entry : DiskEntry) (other : Place)
    (entries : List (Place × DiskEntry)) :
    (put place entry entries).lookup other =
      if other = place then some entry else entries.lookup other := by
  induction entries with
  | nil =>
    rw [put, List.lookup_cons]
    by_cases h : other = place <;> simp [h, beq_false_of_ne]
  | cons first rest ih =>
    obtain ⟨key, old⟩ := first
    rw [put]
    by_cases hkey : key = place
    · subst hkey
      rw [if_pos (beq_self_eq_true _), List.lookup_cons, List.lookup_cons]
      by_cases h : other = key <;> simp [h, beq_false_of_ne]
    · rw [if_neg (by simpa using hkey), List.lookup_cons, List.lookup_cons, ih]
      by_cases h : other = key
      · subst h
        simp [hkey]
      · rw [beq_false_of_ne h]

theorem mem_put {place : Place} {entry : DiskEntry} {entries : List (Place × DiskEntry)}
    {item : Place × DiskEntry} (h : item ∈ put place entry entries) :
    item = (place, entry) ∨ item ∈ entries := by
  induction entries with
  | nil => exact .inl (List.mem_singleton.mp h)
  | cons first rest ih =>
    obtain ⟨key, old⟩ := first
    rw [put] at h
    split at h
    · exact (List.mem_cons.mp h).imp_right (List.mem_cons_of_mem _)
    · rcases List.mem_cons.mp h with rfl | h
      · exact .inr List.mem_cons_self
      · exact (ih h).imp_right (List.mem_cons_of_mem _)

/-- What stands at a place after an entry has been set somewhere below the root. -/
theorem entryAt?_withEntry (disk : Disk) {place : Place} (hne : place ≠ []) (entry : DiskEntry)
    (other : Place) :
    (disk.withEntry place entry).entryAt? other =
      if other = place then some entry else disk.entryAt? other := by
  by_cases hroot : other = []
  · subst hroot
    rw [if_neg hne.symm]
    rfl
  · simp only [entryAt?, withEntry, List.isEmpty_iff, hroot, if_false, lookup_put]

namespace IsTree

variable {disk : Disk}

theorem isDirectoryAt_dropLast (h : disk.IsTree) {place : Place}
    (hentry : disk.entryAt? place ≠ none) : disk.isDirectoryAt place.dropLast = true := by
  by_cases hroot : place = []
  · subst hroot
    rfl
  · obtain ⟨entry, hlookup⟩ := Option.ne_none_iff_exists'.mp hentry
    rw [entryAt?, List.isEmpty_eq_false_iff.mpr hroot, if_neg Bool.false_ne_true] at hlookup
    obtain ⟨before, after, heq, -⟩ := List.lookup_eq_some_iff.mp hlookup
    exact h.parents (place, entry) (heq ▸ List.mem_append_right _ List.mem_cons_self)

/-- Every place above an entry is that of a directory. -/
theorem isDirectoryAt_above (h : disk.IsTree) {place : Place} {names : List String}
    (hne : names ≠ []) (hentry : disk.entryAt? (place ++ names) ≠ none) :
    disk.isDirectoryAt place = true := by
  induction names using List.reverseRecOn with
  | nil => exact absurd rfl hne
  | append_singleton before last ih =>
    have hparent := h.isDirectoryAt_dropLast hentry
    rw [← List.append_assoc, List.dropLast_concat] at hparent
    by_cases hbefore : before = []
    · subst hbefore
      rwa [List.append_nil] at hparent
    · exact ih hbefore (by rw [isDirectoryAt_iff.mp hparent]; simp)

theorem isDirectoryAt_start (h : disk.IsTree) (path : FilePath) :
    disk.isDirectoryAt (disk.start path) = true := by
  unfold start
  split
  · rfl
  · exact h.working

/-- An entry that is set in a directory, and not in the place of one unless it is one itself,
leaves a tree. -/
theorem withEntry (h : disk.IsTree) {place : Place} (hne : place ≠ []) {entry : DiskEntry}
    (hparent : disk.isDirectoryAt place.dropLast = true)
    (hkept : disk.isDirectoryAt place = true → entry = .directory) :
    (disk.withEntry place entry).IsTree := by
  have hdirectory : ∀ other, disk.isDirectoryAt other = true →
      (disk.withEntry place entry).isDirectoryAt other = true := by
    intro other hother
    rw [isDirectoryAt_iff, entryAt?_withEntry disk hne]
    split
    · next heq => rw [hkept (heq ▸ hother)]
    · exact isDirectoryAt_iff.mp hother
  refine ⟨hdirectory _ h.working, fun item hitem => hdirectory _ ?_⟩
  rcases mem_put hitem with rfl | hitem
  · exact hparent
  · exact h.parents item hitem

end IsTree

/-! ## Following names -/

theorem enter_eq_ok {disk : Disk} {place next : Place} {name : String} :
    disk.enter place name = .ok next ↔
      next = move place name ∧ (name = "." ∨ name = ".." ∨
        name.utf8ByteSize ≤ nameLimit ∧ disk.isDirectoryAt (place ++ [name]) = true) := by
  unfold enter move
  simp only [beq_iff_eq]
  by_cases hdot : name = "."
  · simp only [hdot, if_true, true_or, and_true, Except.ok.injEq]
    exact eq_comm
  · by_cases hup : name = ".."
    · rw [if_neg hdot, if_pos hup, if_neg hdot, if_pos hup]
      simp only [hup, true_or, or_true, and_true, Except.ok.injEq]
      exact eq_comm
    · simp only [hdot, hup, if_false, false_or]
      by_cases hlimit : nameLimit < name.utf8ByteSize
      · simp [hlimit, Nat.not_le_of_lt hlimit]
      · rw [if_neg hlimit, isDirectoryAt_iff]
        have hle := Nat.not_lt.mp hlimit
        split
        · next h => simp [h]
        · next h => simp [h]
        · next h => simp [h, hle, eq_comm]

/-- Following names from a place, each of them into a directory. -/
def follow (disk : Disk) (place : Place) (names : List String) : Except Fault Place :=
  names.foldlM disk.enter place

theorem follow_cons {disk : Disk} {place next : Place} {name : String} {rest : List String} :
    disk.follow place (name :: rest) = .ok next ↔
      ∃ first, disk.enter place name = .ok first ∧ disk.follow first rest = .ok next := by
  rw [follow, List.foldlM_cons]
  constructor
  · exact Except.bind_ok
  · rintro ⟨first, hfirst, hrest⟩
    rw [hfirst]
    exact hrest

theorem follow_append {disk : Disk} {place next : Place} {first rest : List String} :
    disk.follow place (first ++ rest) = .ok next ↔
      ∃ middle, disk.follow place first = .ok middle ∧ disk.follow middle rest = .ok next := by
  rw [follow, List.foldlM_append]
  constructor
  · exact Except.bind_ok
  · rintro ⟨middle, hmiddle, hrest⟩
    change disk.follow place first >>= _ = _
    rw [hmiddle]
    exact hrest

theorem follow_place {disk : Disk} {place next : Place} {names : List String}
    (h : disk.follow place names = .ok next) : next = names.foldl move place := by
  induction names generalizing place with
  | nil => exact (Except.ok.inj h).symm
  | cons name rest ih =>
    obtain ⟨first, hfirst, hrest⟩ := follow_cons.mp h
    rw [List.foldl_cons, ← (enter_eq_ok.mp hfirst).1]
    exact ih hrest

theorem IsTree.isDirectoryAt_follow {disk : Disk} (htree : disk.IsTree) {place next : Place}
    {names : List String} (hplace : disk.isDirectoryAt place = true)
    (h : disk.follow place names = .ok next) : disk.isDirectoryAt next = true := by
  induction names generalizing place with
  | nil => exact Except.ok.inj h ▸ hplace
  | cons name rest ih =>
    obtain ⟨first, hfirst, hrest⟩ := follow_cons.mp h
    obtain ⟨rfl, hname⟩ := enter_eq_ok.mp hfirst
    refine ih ?_ hrest
    unfold move
    split
    · exact hplace
    · split
      · refine htree.isDirectoryAt_dropLast ?_
        rw [isDirectoryAt_iff.mp hplace]
        simp
      · next hdot hup => exact ((hname.resolve_left hdot).resolve_left hup).2

/-- Idle names do not matter. -/
theorem follow_filter (disk : Disk) (place : Place) (names : List String) :
    disk.follow place (names.filter (· != ".")) = disk.follow place names := by
  rw [follow, List.foldlM_filter, follow]
  congr
  funext place name
  by_cases hdot : name = "." <;> simp [enter, hdot]
  rfl

/-! ## Finding entries -/

/-- Where the names of a path lead: the directory that all but the last one lead to, and what the
last one is looked up as. -/
inductive Located (disk : Disk) (path : FilePath) : Place → Option String → Prop where
  | start (h : names path = []) : Located disk path (disk.start path) none
  | idle {before : List String} {last : String} {place next : Place}
    (hnames : names path = before ++ [last]) (hlast : last = "." ∨ last = "..")
    (h : disk.follow (disk.start path) before = .ok place) (hnext : next = move place last) :
    Located disk path next none
  | name {before : List String} {last : String} {place : Place}
    (hnames : names path = before ++ [last]) (hdot : last ≠ ".") (hup : last ≠ "..")
    (hlimit : last.utf8ByteSize ≤ nameLimit)
    (h : disk.follow (disk.start path) before = .ok place) : Located disk path place (some last)

/-- Whether a path is one that the system takes. -/
def IsTaken (path : FilePath) : Prop :=
  '\x00' ∉ path.text.toList ∧ path.text.utf8ByteSize ≤ pathLimit ∧ path.text ≠ ""

theorem located_of_locate {disk : Disk} {path : FilePath} {place : Place} {last? : Option String}
    (h : disk.locate path = .ok (place, last?)) :
    IsTaken path ∧ Located disk path place last? := by
  unfold locate at h
  split at h
  · cases h
  · next hnul =>
    split at h
    · cases h
    · next hlimit =>
      split at h
      · cases h
      · next hempty =>
        refine ⟨⟨by simpa using hnul, Nat.not_lt.mp hlimit, by simpa using hempty⟩, ?_⟩
        split at h
        · next heq =>
          cases h
          exact .start (List.reverse_eq_nil_iff.mp heq)
        · next last before heq =>
          have hnames : names path = before.reverse ++ [last] := by
            rw [← List.reverse_reverse (names path), heq, List.reverse_cons]
          obtain ⟨directory, hdirectory, h⟩ := Except.bind_ok h
          simp only [beq_iff_eq] at h
          split at h
          · next hdot =>
            cases h
            exact .idle hnames (.inl hdot) hdirectory (if_pos hdot).symm
          · next hdot =>
            split at h
            · next hup =>
              cases h
              exact .idle hnames (.inr hup) hdirectory (by rw [move, if_neg hdot, if_pos hup])
            · next hup =>
              split at h
              · cases h
              · next hsize =>
                cases h
                exact .name hnames hdot hup (Nat.not_lt.mp hsize) hdirectory

theorem Located.locate_eq {disk : Disk} {path : FilePath} {place : Place} {last? : Option String}
    (h : Located disk path place last?) (htaken : IsTaken path) :
    disk.locate path = .ok (place, last?) := by
  obtain ⟨hnul, hlimit, hempty⟩ := htaken
  unfold locate
  rw [if_neg (by simpa using hnul), if_neg (Nat.not_lt.mpr hlimit), if_neg (by simpa using hempty)]
  cases h with
  | start h => rw [h]; rfl
  | idle hnames hlast h hnext =>
    rw [hnames, List.reverse_append, hnext]
    simp only [List.reverse_cons, List.reverse_nil, List.nil_append, List.singleton_append,
      List.reverse_reverse, beq_iff_eq]
    change disk.follow _ _ >>= _ = _
    rw [h]
    rcases hlast with rfl | rfl <;> rfl
  | name hnames hdot hup hsize h =>
    rw [hnames, List.reverse_append]
    simp only [List.reverse_cons, List.reverse_nil, List.nil_append, List.singleton_append,
      List.reverse_reverse, beq_iff_eq]
    change disk.follow _ _ >>= _ = _
    rw [h]
    change (if _ then _ else _) = _
    rw [if_neg hdot, if_neg hup, if_neg (Nat.not_lt.mpr hsize)]

theorem locate_eq_ok {disk : Disk} {path : FilePath} {place : Place} {last? : Option String} :
    disk.locate path = .ok (place, last?) ↔ IsTaken path ∧ Located disk path place last? :=
  ⟨located_of_locate, fun ⟨htaken, hlocated⟩ => hlocated.locate_eq htaken⟩

namespace Located

variable {disk : Disk} {path : FilePath} {place : Place} {last? : Option String}

/-- What a path leads to lies at its place. -/
theorem place_eq (h : Located disk path place last?) :
    place ++ last?.toList = disk.placeOf path := by
  cases h with
  | start h => rw [placeOf, h]; exact List.append_nil _
  | idle hnames hlast h hnext =>
    rw [placeOf, hnames, List.foldl_append, ← follow_place h, hnext]
    exact List.append_nil _
  | name hnames hdot hup hlimit h =>
    rw [placeOf, hnames, List.foldl_append, ← follow_place h]
    simp [move, hdot, hup]

/-- What a path leads to is looked up in a directory. -/
theorem isDirectoryAt (htree : disk.IsTree) (h : Located disk path place last?) :
    disk.isDirectoryAt place = true := by
  have hstart := htree.isDirectoryAt_start path
  cases h with
  | start h => exact hstart
  | @idle before last middle _ hnames hlast h hnext =>
    have hfollow : disk.follow middle [last] = .ok place :=
      follow_cons.mpr ⟨place, enter_eq_ok.mpr ⟨hnext, hlast.imp_right .inl⟩, rfl⟩
    exact htree.isDirectoryAt_follow (htree.isDirectoryAt_follow hstart h) hfollow
  | name hnames hdot hup hlimit h => exact htree.isDirectoryAt_follow hstart h

end Located

/-- A path leads to the entry at its place if its names can be followed, unless it is written like a
directory and leads to a file. -/
theorem find_eq_ok {disk : Disk} (htree : disk.IsTree) {path : FilePath} {place : Place}
    {entry : DiskEntry} :
    disk.find path = .ok (place, entry) ↔
      place = disk.placeOf path ∧ disk.entryAt? place = some entry ∧ IsTaken path ∧
        (∃ above last?, Located disk path above last?) ∧
        ∀ contents, entry = .file contents → endsInSlash path = false := by
  constructor
  · intro h
    obtain ⟨⟨above, last?⟩, hlocate, h⟩ := Except.bind_ok h
    obtain ⟨htaken, hlocated⟩ := locate_eq_ok.mp hlocate
    have hplace := hlocated.place_eq
    cases last? with
    | none =>
      cases h
      rw [Option.toList_none, List.append_nil] at hplace
      exact ⟨hplace, isDirectoryAt_iff.mp (hlocated.isDirectoryAt htree), htaken, ⟨_, _, hlocated⟩,
        fun _ heq => nomatch heq⟩
    | some name =>
      dsimp only at h
      split at h
      · cases h
      · next hentry =>
        cases h
        exact ⟨hplace, hentry, htaken, ⟨_, _, hlocated⟩, fun _ heq => nomatch heq⟩
      · next contents hentry =>
        split at h
        · cases h
        · next hslash =>
          cases h
          exact ⟨hplace, hentry, htaken, ⟨_, _, hlocated⟩, fun _ _ => Bool.eq_false_iff.mpr hslash⟩
  · rintro ⟨hplace, hentry, htaken, ⟨above, last?, hlocated⟩, hslash⟩
    have heq := hlocated.place_eq
    rw [← hplace] at heq
    unfold find
    rw [locate_eq_ok.mpr ⟨htaken, hlocated⟩]
    subst heq
    cases last? with
    | none =>
      have hdirectory := isDirectoryAt_iff.mp (hlocated.isDirectoryAt htree)
      rw [Option.toList_none, List.append_nil] at hentry ⊢
      cases hentry.symm.trans hdirectory
      rfl
    | some name =>
      replace hentry : disk.entryAt? (above ++ [name]) = some entry := hentry
      simp only [Except.bind, hentry]
      cases entry with
      | directory => rfl
      | file contents => exact if_neg (Bool.eq_false_iff.mp (hslash contents rfl))

theorem has_iff {disk : Disk} {path : FilePath} :
    disk.has path = true ↔ ∃ place entry, disk.find path = .ok (place, entry) := by
  unfold has
  split
  · next found h => exact iff_of_true rfl ⟨_, _, h⟩
  · next h => exact iff_of_false Bool.false_ne_true fun ⟨_, _, hfound⟩ => nomatch h.symm.trans hfound

/-! ## Disks that keep what is there -/

/-- A later disk has the directories and files of an earlier one. -/
structure Keeps (disk later : Disk) : Prop where
  working : later.working = disk.working
  directory : ∀ place, disk.entryAt? place = some .directory →
    later.entryAt? place = some .directory
  file : ∀ place contents, disk.entryAt? place = some (.file contents) →
    ∃ contents, later.entryAt? place = some (.file contents)

namespace Keeps

variable {disk later : Disk} {path : FilePath} {place : Place} {last? : Option String}

theorem start_eq (h : disk.Keeps later) (path : FilePath) : later.start path = disk.start path := by
  rw [start, start, h.working]

theorem placeOf_eq (h : disk.Keeps later) (path : FilePath) :
    later.placeOf path = disk.placeOf path := by
  rw [placeOf, placeOf, h.start_eq]

theorem exists_entry (h : disk.Keeps later) {entry : DiskEntry}
    (hentry : disk.entryAt? place = some entry) :
    ∃ entry', later.entryAt? place = some entry' ∧
      ((∃ contents, entry' = .file contents) → ∃ contents, entry = .file contents) := by
  cases entry with
  | directory => exact ⟨_, h.directory place hentry, fun ⟨_, heq⟩ => nomatch heq⟩
  | file contents =>
    obtain ⟨contents', hlater⟩ := h.file place contents hentry
    exact ⟨_, hlater, fun _ => ⟨contents, rfl⟩⟩

/-- An entry that is a directory later is one already. -/
theorem isDirectoryAt_of_later (h : disk.Keeps later) (hentry : disk.entryAt? place ≠ none)
    (hlater : later.isDirectoryAt place = true) : disk.isDirectoryAt place = true := by
  obtain ⟨entry, hentry⟩ := Option.ne_none_iff_exists'.mp hentry
  cases entry with
  | directory => exact isDirectoryAt_iff.mpr hentry
  | file contents =>
    obtain ⟨contents', hfile⟩ := h.file place contents hentry
    cases hfile.symm.trans (isDirectoryAt_iff.mp hlater)

theorem follow (h : disk.Keeps later) {names : List String} {next : Place}
    (hfollow : disk.follow place names = .ok next) : later.follow place names = .ok next := by
  induction names generalizing place with
  | nil => exact hfollow
  | cons name rest ih =>
    obtain ⟨first, hfirst, hrest⟩ := follow_cons.mp hfollow
    refine follow_cons.mpr ⟨first, ?_, ih hrest⟩
    obtain ⟨hmove, hname⟩ := enter_eq_ok.mp hfirst
    refine enter_eq_ok.mpr ⟨hmove, hname.imp_right (.imp_right (.imp_right fun hdirectory => ?_))⟩
    exact isDirectoryAt_iff.mpr (h.directory _ (isDirectoryAt_iff.mp hdirectory))

/-- A path that can be followed can be followed later, too. -/
theorem located (h : disk.Keeps later) (hlocated : Located disk path place last?) :
    Located later path place last? := by
  have hstart := h.start_eq path
  cases hlocated with
  | start hnames => exact hstart ▸ .start hnames
  | idle hnames hlast hfollow hnext =>
    exact .idle hnames hlast (by rw [hstart]; exact h.follow hfollow) hnext
  | name hnames hdot hup hlimit hfollow =>
    exact .name hnames hdot hup hlimit (by rw [hstart]; exact h.follow hfollow)

/-- A path leads to the same place later. -/
theorem find (h : disk.Keeps later) (htree : disk.IsTree) (hlater : later.IsTree)
    {entry : DiskEntry} (hfind : disk.find path = .ok (place, entry)) :
    ∃ entry', later.entryAt? place = some entry' ∧ later.find path = .ok (place, entry') := by
  obtain ⟨hplace, hentry, htaken, ⟨above, last?, hlocated⟩, hslash⟩ := (find_eq_ok htree).mp hfind
  obtain ⟨entry', hentry', hkind⟩ := h.exists_entry hentry
  refine ⟨entry', hentry', (find_eq_ok hlater).mpr ⟨by rw [h.placeOf_eq, hplace], hentry', htaken,
    ⟨above, last?, h.located hlocated⟩, fun contents heq => ?_⟩⟩
  obtain ⟨old, hold⟩ := hkind ⟨contents, heq⟩
  exact hslash old hold

theorem has (h : disk.Keeps later) (htree : disk.IsTree) (hlater : later.IsTree)
    (hhas : disk.has path = true) : later.has path = true := by
  obtain ⟨place, entry, hfind⟩ := has_iff.mp hhas
  obtain ⟨entry', -, hlaterFind⟩ := h.find htree hlater hfind
  exact has_iff.mpr ⟨place, entry', hlaterFind⟩

end Keeps

/-! ## Paths that go up -/

/-- Every directory that a path goes up from exists. -/
def HasAscents (disk : Disk) (path : FilePath) : Prop :=
  ∀ before after, path.steps = before ++ ".." :: after →
    ∃ place, disk.follow (disk.start path) before = .ok place

theorem HasAscents.of_not_mem (disk : Disk) {path : FilePath} (h : ".." ∉ path.steps) :
    disk.HasAscents path :=
  fun _ _ heq => absurd (heq ▸ List.mem_append_right _ List.mem_cons_self) h

theorem HasAscents.names {disk : Disk} {path : FilePath} (h : disk.HasAscents path)
    {before after : List String} (hnames : names path = before ++ ".." :: after) :
    ∃ place, disk.follow (disk.start path) before = .ok place := by
  have hsteps : path.steps = before.filter (· != ".") ++ ".." :: after.filter (· != ".") := by
    rw [steps_eq_names, hnames, List.filter_append, List.filter_cons_of_pos (by decide)]
  obtain ⟨place, hplace⟩ := h _ _ hsteps
  rw [follow_filter] at hplace
  exact ⟨place, hplace⟩

/-- A path within a directory goes up as the path of that directory does. -/
theorem HasAscents.within {disk : Disk} {path base : FilePath} {parts : List String}
    (h : disk.HasAscents base) (hcomponents : path.components = base.components ++ parts)
    (hparts : ∀ part ∈ parts, FilePath.IsOrdinary part ∧ part ≠ "..") : disk.HasAscents path := by
  intro before after heq
  obtain ⟨hsteps, habs⟩ :=
    FilePath.steps_of_components hcomponents fun part hpart => (hparts part hpart).1
  rw [hsteps] at heq
  have hstart : disk.start path = disk.start base := by rw [start, start, habs]
  rw [hstart]
  rcases List.append_eq_append_iff.mp heq with ⟨more, hbefore, hmore⟩ | ⟨more, hbase, hmore⟩
  · refine absurd rfl (hparts ".." ?_).2
    rw [hmore]
    exact List.mem_append_right _ List.mem_cons_self
  · cases more with
    | nil =>
      refine absurd rfl (hparts ".." ?_).2
      rw [List.nil_append] at hmore
      exact hmore ▸ List.mem_cons_self
    | cons first rest =>
      obtain ⟨rfl, -⟩ := List.cons.inj hmore
      exact h before rest hbase

theorem foldl_move_of_no_ascent {names : List String} (h : ".." ∉ names) (place : Place) :
    names.foldl move place = place ++ names.filter (· != ".") := by
  induction names generalizing place with
  | nil => exact (List.append_nil _).symm
  | cons name rest ih =>
    rw [List.mem_cons, not_or] at h
    rw [List.foldl_cons, ih h.2]
    by_cases hdot : name = "."
    · rw [move, if_pos hdot, List.filter_cons_of_neg (by simpa using hdot)]
    · rw [move, if_neg hdot, if_neg (Ne.symm h.1), List.filter_cons_of_pos (by simpa using hdot),
        List.append_assoc]
      rfl

/-- Names that can be followed later and lead to an entry can be followed already, as far as they go
up from directories that exist. -/
theorem Keeps.follow_of_entry {disk later : Disk} (htree : disk.IsTree) (h : disk.Keeps later)
    {names : List String} {place next : Place}
    (hascents : ∀ before after, names = before ++ ".." :: after →
      ∃ place', disk.follow place before = .ok place')
    (hentry : disk.entryAt? (names.foldl move place) ≠ none)
    (hfollow : later.follow place names = .ok next) : disk.follow place names = .ok next := by
  induction names generalizing place with
  | nil => exact hfollow
  | cons name rest ih =>
    obtain ⟨first, hfirst, hrest⟩ := follow_cons.mp hfollow
    obtain ⟨rfl, hname⟩ := enter_eq_ok.mp hfirst
    have henter : disk.enter place name = .ok (move place name) := by
      by_cases hup : ".." ∈ rest
      · obtain ⟨before, after, hsplit⟩ := List.append_of_mem hup
        obtain ⟨place', hplace'⟩ := hascents (name :: before) after (by rw [hsplit]; rfl)
        obtain ⟨first, hfirst, -⟩ := follow_cons.mp hplace'
        rw [hfirst, (enter_eq_ok.mp hfirst).1]
      · by_cases hidle : name = "." ∨ name = ".."
        · exact enter_eq_ok.mpr ⟨rfl, or_assoc.mp (.inl hidle)⟩
        · obtain ⟨hdot, hupName⟩ := not_or.mp hidle
          obtain ⟨hlimit, hdirectory⟩ := (hname.resolve_left hdot).resolve_left hupName
          refine enter_eq_ok.mpr ⟨rfl, .inr (.inr ⟨hlimit, ?_⟩)⟩
          refine h.isDirectoryAt_of_later ?_ hdirectory
          rw [List.foldl_cons, foldl_move_of_no_ascent hup, move, if_neg hdot, if_neg hupName]
            at hentry
          by_cases hmore : rest.filter (· != ".") = []
          · rwa [hmore, List.append_nil] at hentry
          · rw [isDirectoryAt_iff.mp (htree.isDirectoryAt_above hmore hentry)]
            simp
    refine follow_cons.mpr ⟨_, henter, ih (fun before after hsplit => ?_) hentry hrest⟩
    obtain ⟨place', hplace'⟩ := hascents (name :: before) after (by rw [hsplit]; rfl)
    obtain ⟨first, hfirst, hplace'⟩ := follow_cons.mp hplace'
    cases henter.symm.trans hfirst
    exact ⟨place', hplace'⟩

/-- A path that goes up only from directories that exist, leads to an entry and can be followed later
can be followed already. -/
theorem Keeps.located_of_entry {disk later : Disk} (htree : disk.IsTree) (h : disk.Keeps later)
    {path : FilePath} {place : Place} {last? : Option String} (hascents : disk.HasAscents path)
    (hentry : disk.entryAt? (disk.placeOf path) ≠ none)
    (hlocated : Located later path place last?) : Located disk path place last? := by
  have hstart := h.start_eq path
  have hbefore : ∀ before last, names path = before ++ [last] → ∀ u v,
      before = u ++ ".." :: v → ∃ place', disk.follow (disk.start path) u = .ok place' := by
    intro before last hnames u v hsplit
    have hup : names path = u ++ ".." :: (v ++ [last]) := by
      rw [hnames, hsplit, List.append_assoc]
      rfl
    exact hascents.names hup
  cases hlocated with
  | start hnames => exact hstart ▸ .start hnames
  | @idle before last middle _ hnames hlast hfollow hnext =>
    rw [hstart] at hfollow
    refine .idle hnames hlast ?_ hnext
    rcases hlast with rfl | rfl
    · rw [placeOf, hnames, List.foldl_append] at hentry
      exact h.follow_of_entry htree (hbefore _ _ hnames) hentry hfollow
    · obtain ⟨place', hplace'⟩ := hascents.names hnames
      rw [hplace', follow_place hfollow, follow_place hplace']
  | @name before last _ hnames hdot hup hlimit hfollow =>
    rw [hstart] at hfollow
    refine .name hnames hdot hup hlimit (h.follow_of_entry htree (hbefore _ _ hnames) ?_ hfollow)
    rw [placeOf, hnames, List.foldl_append] at hentry
    have habove := htree.isDirectoryAt_above (List.cons_ne_nil last []) (by
      simpa [move, hdot, hup] using hentry)
    rw [isDirectoryAt_iff.mp habove]
    simp

/-- A path that goes up only from directories that exist and exists later exists already if there is
an entry at its place. -/
theorem Keeps.has_of_entry {disk later : Disk} (htree : disk.IsTree) (hlater : later.IsTree)
    (h : disk.Keeps later) {path : FilePath} (hascents : disk.HasAscents path)
    (hentry : disk.entryAt? (disk.placeOf path) ≠ none) (hhas : later.has path = true) :
    disk.has path = true := by
  obtain ⟨place, entry', hfind⟩ := has_iff.mp hhas
  obtain ⟨hplace, hentry', htaken, ⟨above, last?, hlocated⟩, hslash⟩ :=
    (find_eq_ok hlater).mp hfind
  rw [h.placeOf_eq] at hplace
  obtain ⟨entry, hfound⟩ := Option.ne_none_iff_exists'.mp hentry
  refine has_iff.mpr ⟨_, entry, (find_eq_ok htree).mpr ⟨rfl, hfound, htaken,
    ⟨above, last?, h.located_of_entry htree hascents hentry hlocated⟩, ?_⟩⟩
  rintro contents rfl
  obtain ⟨new, hnew⟩ := h.file _ contents hfound
  rw [← hplace, hentry'] at hnew
  exact hslash new (Option.some.inj hnew)

end RestModule.Disk
