/-!
# Distinct names in order

Lists of names in which each name stands once, at the place of its first mention. Adding names loses
none, brings in no other, keeps the order of those already there, and keeps them distinct.
-/

namespace RestModule

/-- Adds a name at the end unless it is there. -/
def addName (names : List String) (name : String) : List String :=
  if name ∈ names then names else names ++ [name]

/-- Adds names in order, each once. -/
def addNames (names more : List String) : List String :=
  more.foldl addName names

@[simp]
theorem mem_addName {names : List String} {name x : String} :
    x ∈ addName names name ↔ x ∈ names ∨ x = name := by
  unfold addName
  split <;> grind

@[simp]
theorem mem_addNames {names more : List String} {x : String} :
    x ∈ addNames names more ↔ x ∈ names ∨ x ∈ more := by
  induction more generalizing names with
  | nil => simp [addNames]
  | cons name rest ih => simp only [addNames, List.foldl_cons] at ih ⊢; rw [ih]; simp; grind

theorem prefix_addName (names : List String) (name : String) : names <+: addName names name := by
  unfold addName
  split
  · exact List.prefix_rfl
  · exact List.prefix_append names [name]

theorem prefix_addNames (names more : List String) : names <+: addNames names more := by
  induction more generalizing names with
  | nil => exact List.prefix_rfl
  | cons name rest ih => exact (prefix_addName names name).trans (ih (addName names name))

theorem nodup_addName {names : List String} (h : names.Nodup) (name : String) :
    (addName names name).Nodup := by
  unfold addName
  split
  · exact h
  · grind [List.nodup_append]

theorem nodup_addNames {names : List String} (h : names.Nodup) (more : List String) :
    (addNames names more).Nodup := by
  induction more generalizing names with
  | nil => exact h
  | cons name rest ih => exact ih (nodup_addName h name)

end RestModule
