import RestModule.Proofs.FilePath.Parts

/-!
# Steps of paths

The steps of a path are its components after the root or a leading `.`. Together with whether the path
is absolute they say where it leads, and both are determined by the components. -/

namespace RestModule.FilePath

open Text

/-- The components of a path after its anchor. -/
def steps (path : FilePath) : List String :=
  (splitAt '/' path.text).filter (!isIdle ·)

theorem components_eq_steps (path : FilePath) : path.components = path.root ++ path.steps :=
  components_eq path

theorem ordinary_of_mem_steps {path : FilePath} {part : String} (h : part ∈ path.steps) :
    IsOrdinary part := by
  obtain ⟨hmem, hidle⟩ := List.mem_filter.mp h
  exact ⟨not_mem_of_mem_splitAt hmem, by simpa using hidle⟩

private theorem not_ordinary_of_mem_root {path : FilePath} {part : String} (h : part ∈ path.root) :
    ¬ IsOrdinary part ∧ (part = "/" ↔ path.isAbsolute = true) := by
  unfold root at h
  split at h
  · cases h
  · next hne =>
    rw [List.mem_singleton.mp h]
    unfold anchor at hne ⊢
    split
    · next habs => exact ⟨by decide, fun _ => habs, fun _ => rfl⟩
    · next habs =>
      split
      · exact ⟨by decide, fun heq => absurd heq (by decide), fun h => absurd h habs⟩
      · next hdot =>
        rw [if_neg habs, if_neg hdot] at hne
        exact absurd rfl hne

theorem steps_eq_filter (path : FilePath) :
    path.steps = path.components.filter (IsOrdinary ·) := by
  have hroot : path.root.filter (IsOrdinary ·) = [] :=
    List.filter_eq_nil_iff.mpr fun part hpart => by
      simpa using (not_ordinary_of_mem_root hpart).1
  have hsteps : path.steps.filter (IsOrdinary ·) = path.steps :=
    List.filter_eq_self.mpr fun part hpart => by simpa using ordinary_of_mem_steps hpart
  rw [components_eq_steps, List.filter_append, hroot, hsteps, List.nil_append]

theorem isAbsolute_iff {path : FilePath} : path.isAbsolute = true ↔ "/" ∈ path.components := by
  rw [components_eq_steps, List.mem_append]
  constructor
  · intro habs
    have hanchor : path.anchor = "/" := if_pos habs
    exact .inl (by rw [root, hanchor]; decide)
  · rintro (hroot | hsteps)
    · exact (not_ordinary_of_mem_root hroot).2.mp rfl
    · exact absurd (ordinary_of_mem_steps hsteps) (by decide)

/-- A path with more components goes further from where the other one leads. -/
theorem steps_of_components {path base : FilePath} {parts : List String}
    (h : path.components = base.components ++ parts) (hparts : ∀ part ∈ parts, IsOrdinary part) :
    path.steps = base.steps ++ parts ∧ path.isAbsolute = base.isAbsolute := by
  constructor
  · rw [steps_eq_filter, h, List.filter_append, ← steps_eq_filter,
      List.filter_eq_self.mpr fun part hpart => by simpa using hparts part hpart]
  · have hslash : "/" ∉ parts := fun hmem => absurd (hparts "/" hmem) (by decide)
    rw [Bool.eq_iff_iff, isAbsolute_iff, isAbsolute_iff, h, List.mem_append]
    exact or_iff_left hslash

/-- The steps to a parent are the first steps to a path. -/
theorem steps_parent {path directory : FilePath} (h : path.parent? = some directory) :
    directory.steps <+: path.steps ∧ directory.isAbsolute = path.isAbsolute := by
  obtain ⟨last, hlast⟩ := components_parent h
  constructor
  · rw [steps_eq_filter, steps_eq_filter, hlast, List.filter_append]
    exact List.prefix_append _ _
  · cases habs : path.isAbsolute with
    | true =>
      have hanchor : path.anchor = "/" := if_pos habs
      simp only [parent?, hanchor] at h
      split at h
      · cases h
      · cases h
        simp [isAbsolute, String.toList_append]
    | false =>
      rw [← Bool.not_eq_true, isAbsolute_iff] at habs ⊢
      rw [hlast, List.mem_append, not_or] at habs
      exact habs.1

end RestModule.FilePath
