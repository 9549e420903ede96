import RestModule.Disk.Store
import RestModule.Proofs.Disk.Tree

/-!
# Disks on which directories and files are made

What a disk is like after some directories have been created and some files written
(`Disk.Grown`): every entry that is new stands at or above the place of such a directory, or at the
place of such a file. So a path that leads to no such place exists exactly if it did before
(`Disk.Grown.has_eq`). -/

namespace RestModule.Disk

namespace Keeps

theorem refl (disk : Disk) : disk.Keeps disk :=
  ⟨rfl, fun _ h => h, fun _ contents h => ⟨contents, h⟩⟩

theorem trans {disk middle later : Disk} (h : disk.Keeps middle) (hlater : middle.Keeps later) :
    disk.Keeps later where
  working := hlater.working.trans h.working
  directory place hentry := hlater.directory place (h.directory place hentry)
  file place contents hentry := by
    obtain ⟨contents', hmiddle⟩ := h.file place contents hentry
    exact hlater.file place contents' hmiddle

/-- A new entry keeps those that are there if it takes the place of nothing, or that of a file as
another one. -/
theorem withEntry {disk : Disk} {place : Place} {entry : DiskEntry} (hne : place ≠ [])
    (hold : ∀ old, disk.entryAt? place = some old →
      (∃ contents, old = .file contents) ∧ ∃ contents, entry = .file contents) :
    disk.Keeps (disk.withEntry place entry) where
  working := rfl
  directory other hother := by
    rw [entryAt?_withEntry disk hne, if_neg, hother]
    rintro rfl
    obtain ⟨⟨contents, heq⟩, -⟩ := hold _ hother
    cases heq
  file other contents hother := by
    rw [entryAt?_withEntry disk hne]
    split
    · next heq =>
      obtain ⟨-, contents', rfl⟩ := hold _ (heq ▸ hother)
      exact ⟨contents', rfl⟩
    · exact ⟨contents, hother⟩

end Keeps

/-! ## Single entries -/

theorem ne_nil_of_entryAt? (disk : Disk) {place : Place}
    (h : disk.entryAt? place ≠ some .directory) :
    place ≠ [] := by
  rintro rfl
  exact h rfl

/-- A directory is made at a place where there is nothing, in a directory. -/
theorem makeDirectory_eq_ok {disk next : Disk} (htree : disk.IsTree) {path : FilePath}
    (h : disk.makeDirectory path = .ok next) :
    disk.entryAt? (disk.placeOf path) = none ∧
      disk.isDirectoryAt (disk.placeOf path).dropLast = true ∧
      next = disk.withEntry (disk.placeOf path) .directory := by
  obtain ⟨⟨above, last?⟩, hlocate, h⟩ := Except.bind_ok h
  obtain ⟨-, hlocated⟩ := locate_eq_ok.mp hlocate
  cases last? with
  | none => cases h
  | some name =>
    dsimp only at h
    split at h
    · cases h
    · next hentry =>
      cases h
      rw [← hlocated.place_eq, Option.toList_some, List.dropLast_concat]
      exact ⟨hentry, hlocated.isDirectoryAt htree, rfl⟩

/-- A file is written at a place where there is no directory, in a directory. -/
theorem withFile_eq_ok {disk next : Disk} (htree : disk.IsTree) {path : FilePath}
    {contents : Contents} (h : disk.withFile path contents = .ok next) :
    disk.entryAt? (disk.placeOf path) ≠ some .directory ∧
      disk.isDirectoryAt (disk.placeOf path).dropLast = true ∧
      next = disk.withEntry (disk.placeOf path) (.file contents) ∧
      IsTaken path ∧ (∃ above last?, Located disk path above last?) ∧
      endsInSlash path = false := by
  obtain ⟨⟨above, last?⟩, hlocate, h⟩ := Except.bind_ok h
  obtain ⟨htaken, hlocated⟩ := locate_eq_ok.mp hlocate
  cases last? with
  | none => cases h
  | some name =>
    dsimp only at h
    split at h
    · cases h
    · next hslash =>
      split at h
      · cases h
      · next hentry =>
        cases h
        rw [← hlocated.place_eq, Option.toList_some, List.dropLast_concat]
        exact ⟨hentry, hlocated.isDirectoryAt htree, rfl, htaken, ⟨_, _, hlocated⟩,
          Bool.eq_false_iff.mpr hslash⟩

/-! ## Growth -/

/-- A later disk on which directories have been created and files written since. -/
structure Grown (disk : Disk) (made written : List FilePath) (later : Disk) : Prop where
  tree : later.IsTree
  keeps : disk.Keeps later
  /-- A file is as it was unless it is one of those written. -/
  untouched : ∀ place contents, disk.entryAt? place = some (.file contents) →
    (∀ file ∈ written, disk.placeOf file ≠ place) →
      later.entryAt? place = some (.file contents)
  new : ∀ place, disk.entryAt? place = none → later.entryAt? place ≠ none →
    (∃ directory ∈ made, place <+: disk.placeOf directory) ∨
      ∃ file ∈ written, disk.placeOf file = place
  found : ∀ file ∈ written, later.has file = true

namespace Grown

variable {disk later next : Disk} {made written : List FilePath} {path : FilePath}

theorem refl (htree : disk.IsTree) : disk.Grown [] [] disk where
  tree := htree
  keeps := .refl disk
  untouched _ _ hentry _ := hentry
  new _ hnone hentry := absurd hnone hentry
  found _ hfile := nomatch hfile

theorem mono (h : disk.Grown made written later) (more : List FilePath) :
    disk.Grown (made ++ more) written later where
  tree := h.tree
  keeps := h.keeps
  untouched := h.untouched
  new place hnone hentry := (h.new place hnone hentry).imp_left fun ⟨directory, hmem, habove⟩ =>
    ⟨directory, List.mem_append_left _ hmem, habove⟩
  found := h.found

/-- A new directory at or above the place of one that is created. -/
theorem withDirectory (h : disk.Grown made written later) {place : Place} {directory : FilePath}
    (hdirectory : directory ∈ made) (habove : place <+: disk.placeOf directory)
    (hnone : later.entryAt? place = none) (hparent : later.isDirectoryAt place.dropLast = true) :
    disk.Grown made written (later.withEntry place .directory) := by
  have hne : place ≠ [] := later.ne_nil_of_entryAt? (by simp [hnone])
  have hkeeps : later.Keeps (later.withEntry place .directory) :=
    .withEntry hne fun old hold => nomatch hnone.symm.trans hold
  have htree : (later.withEntry place .directory).IsTree := h.tree.withEntry hne hparent fun _ => rfl
  exact
    { tree := htree
      keeps := h.keeps.trans hkeeps
      untouched := by
        intro other contents hentry hother
        have hlater := h.untouched other contents hentry hother
        rw [entryAt?_withEntry later hne, if_neg, hlater]
        rintro rfl
        cases hnone.symm.trans hlater
      new := by
        intro other hdisk hentry
        rw [entryAt?_withEntry later hne] at hentry
        split at hentry
        · next heq => exact .inl ⟨directory, hdirectory, heq ▸ habove⟩
        · exact h.new other hdisk hentry
      found := fun file hfile => hkeeps.has h.tree htree (h.found file hfile) }

/-- Where a directory above one that is created is missing, it is missing on the way there. -/
theorem above_of_missing (h : disk.Grown made written later) {directory : FilePath}
    (hascents : disk.HasAscents directory) (hsteps : path.steps <+: directory.steps)
    (habs : path.isAbsolute = directory.isAbsolute)
    (hnone : later.entryAt? (later.placeOf path) = none) :
    later.placeOf path <+: disk.placeOf directory := by
  obtain ⟨rest, hrest⟩ := hsteps
  have hstart : disk.start path = disk.start directory := by rw [start, start, habs]
  rw [h.keeps.placeOf_eq, placeOf_eq_steps, hstart] at hnone ⊢
  rw [placeOf_eq_steps, ← hrest, List.foldl_append]
  by_cases hup : ".." ∈ rest
  · -- the path of the directory goes up later on, so the disk has had the directories up to there
    obtain ⟨before, after, rfl⟩ := List.append_of_mem hup
    obtain ⟨place, hplace⟩ := hascents (path.steps ++ before) after (by rw [← hrest]; simp)
    obtain ⟨middle, hmiddle, -⟩ := follow_append.mp hplace
    have hexists := h.tree.isDirectoryAt_follow (h.keeps.start_eq directory ▸
      h.tree.isDirectoryAt_start directory) (h.keeps.follow hmiddle)
    rw [follow_place hmiddle, isDirectoryAt_iff, hnone] at hexists
    cases hexists
  · rw [foldl_move_of_no_ascent hup]
    exact List.prefix_append _ _

/-- A directory on the way to one that is created. -/
theorem makeDirectory (h : disk.Grown made written later) {directory : FilePath}
    (hdirectory : directory ∈ made) (hascents : disk.HasAscents directory)
    (hsteps : path.steps <+: directory.steps) (habs : path.isAbsolute = directory.isAbsolute)
    (hok : later.makeDirectory path = .ok next) : disk.Grown made written next := by
  obtain ⟨hnone, hparent, rfl⟩ := makeDirectory_eq_ok h.tree hok
  exact h.withDirectory hdirectory (h.above_of_missing hascents hsteps habs hnone) hnone hparent

/-- Creating a directory makes those that are missing on the way there. -/
theorem createAll (h : disk.Grown made written later) {directory : FilePath}
    (hdirectory : directory ∈ made) (hascents : disk.HasAscents directory) {fuel : Nat}
    (hsteps : path.steps <+: directory.steps) (habs : path.isAbsolute = directory.isAbsolute)
    (hok : later.createAll fuel path = (.ok (), next)) : disk.Grown made written next := by
  induction fuel generalizing path next with
  | zero => cases hok
  | succ fuel ih =>
    -- what is left to do once the directories above are there
    have hsettle : ∀ before, disk.Grown made written before →
        before.makeDirectory path = .ok next ∨ next = before → disk.Grown made written next := by
      rintro before hbefore (hmade | rfl)
      · exact hbefore.makeDirectory hdirectory hascents hsteps habs hmade
      · exact hbefore
    unfold Disk.createAll at hok
    split at hok
    · cases hok
      exact h
    · dsimp only at hok
      split at hok
      · split at hok
        · cases hok
        · next parent hparent =>
          obtain ⟨hfirst, habsolute⟩ := FilePath.steps_parent hparent
          split at hok
          · next middle hmiddle =>
            refine hsettle _ (ih (hfirst.trans hsteps) (habsolute.trans habs) hmiddle) ?_
            split at hok
            · next after hmade => exact .inl (hmade.trans (congrArg Except.ok (Prod.mk.inj hok).2))
            · exact .inr (Prod.mk.inj hok).2.symm
          · next hfailed =>
            exact absurd hok (hfailed next)
      · refine hsettle _ h ?_
        split at hok
        · next after hmade => exact .inl (hmade.trans (congrArg Except.ok (Prod.mk.inj hok).2))
        · exact .inr (Prod.mk.inj hok).2.symm

/-- A run's request for a directory. -/
theorem createDirectory (h : disk.Grown made written later) (hascents : disk.HasAscents path)
    (hok : later.createDirectory path = (.ok (), next)) :
    disk.Grown (made ++ [path]) written next :=
  (h.mono [path]).createAll (List.mem_append_right _ List.mem_cons_self) hascents
    (List.prefix_refl _) rfl hok

/-- A run's request to write a file. -/
theorem write (h : disk.Grown made written later) {contents : Contents}
    (hok : later.write path contents = (.ok (), next)) :
    disk.Grown made (written ++ [path]) next := by
  unfold Disk.write at hok
  split at hok
  case h_2 => cases hok
  next hfile =>
  cases hok
  obtain ⟨hplace, hparent, rfl, htaken, ⟨above, last?, hlocated⟩, hslash⟩ :=
    withFile_eq_ok h.tree hfile
  have hne := later.ne_nil_of_entryAt? hplace
  have hkeeps : later.Keeps (later.withEntry (later.placeOf path) (.file contents)) := by
    refine .withEntry hne fun old hold => ⟨?_, _, rfl⟩
    cases old with
    | directory => exact absurd hold hplace
    | file old => exact ⟨old, rfl⟩
  have htree : (later.withEntry (later.placeOf path) (.file contents)).IsTree :=
    h.tree.withEntry hne hparent fun hdirectory => absurd (isDirectoryAt_iff.mp hdirectory) hplace
  have hentry : (later.withEntry (later.placeOf path) (.file contents)).entryAt?
      (later.placeOf path) = some (.file contents) := by
    rw [entryAt?_withEntry later hne, if_pos rfl]
  refine
    { tree := htree
      keeps := h.keeps.trans hkeeps
      untouched := ?_
      new := ?_
      found := ?_ }
  · intro place old hold hothers
    obtain ⟨hearlier, hpath⟩ := List.forall_mem_append.mp hothers
    rw [entryAt?_withEntry later hne, h.keeps.placeOf_eq,
      if_neg (Ne.symm (hpath path List.mem_cons_self))]
    exact h.untouched place old hold hearlier
  · intro place hnone hsome
    rw [entryAt?_withEntry later hne] at hsome
    split at hsome
    · next heq =>
      rw [h.keeps.placeOf_eq] at heq
      exact .inr ⟨path, List.mem_append_right _ List.mem_cons_self, heq.symm⟩
    · exact (h.new place hnone hsome).imp_right fun ⟨file, hmem, heq⟩ =>
        ⟨file, List.mem_append_left _ hmem, heq⟩
  · refine List.forall_mem_append.mpr ⟨fun file hfile => hkeeps.has h.tree htree (h.found file hfile),
      List.forall_mem_singleton.mpr ?_⟩
    refine has_iff.mpr ⟨_, _, (find_eq_ok htree).mpr ⟨(hkeeps.placeOf_eq path).symm, hentry, htaken,
      ⟨above, last?, hkeeps.located hlocated⟩, fun _ _ => hslash⟩⟩

/-- A path exists later exactly if it did before or leads to a file that has been written, unless it
leads to where a directory has been created. -/
theorem has_eq (h : disk.Grown made written later) (htree : disk.IsTree)
    (hascents : disk.HasAscents path)
    (hmade : ∀ directory ∈ made, ¬ disk.placeOf path <+: disk.placeOf directory)
    (hwritten : ∀ file ∈ written, disk.placeOf file = disk.placeOf path → file = path) :
    later.has path = (disk.has path || written.contains path) := by
  rw [Bool.eq_iff_iff, Bool.or_eq_true, List.contains_iff_mem]
  constructor
  · intro hhas
    by_cases hentry : disk.entryAt? (disk.placeOf path) = none
    · obtain ⟨place, entry, hfind⟩ := has_iff.mp hhas
      obtain ⟨hplace, hlater, -⟩ := (find_eq_ok h.tree).mp hfind
      rw [hplace, h.keeps.placeOf_eq] at hlater
      rcases h.new _ hentry (by simp [hlater]) with ⟨directory, hdirectory, habove⟩ | ⟨file, hfile, heq⟩
      · exact absurd habove (hmade directory hdirectory)
      · exact .inr (hwritten file hfile heq ▸ hfile)
    · exact .inl (h.keeps.has_of_entry htree h.tree hascents hentry hhas)
  · rintro (hhas | hmem)
    · exact h.keeps.has htree h.tree hhas
    · exact h.found path hmem

/-- An override that cannot be read still cannot unless it is one of the files written. -/
theorem look_unreadable (h : disk.Grown made written later) (htree : disk.IsTree) {fault : Fault}
    (hpath : ∀ file ∈ written, disk.placeOf file ≠ disk.placeOf path)
    (hlook : disk.look path = .unreadable fault) : later.look path = .unreadable fault := by
  unfold look at hlook
  split at hlook
  · cases hlook
  · next place contents hfind =>
    obtain ⟨hplace, hentry, -⟩ := (find_eq_ok htree).mp hfind
    obtain ⟨entry, hlater, hlaterFind⟩ := h.keeps.find htree h.tree hfind
    have hsame := h.untouched place _ hentry (hplace ▸ hpath)
    cases hlater.symm.trans hsame
    rw [look, hlaterFind]
    exact hlook
  · cases hlook

end Grown

end RestModule.Disk
