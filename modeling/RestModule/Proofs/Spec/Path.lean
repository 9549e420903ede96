import RestModule.Proofs.Naming.Stable
import RestModule.Spec.Operation

/-!
# Paths and their parts

A path is split into a resource, which its first segment in camel case names, and the path below it.
Nothing but slashes in front is lost of a path whose first segment is in camel case already, and the
parts of any path make a path with the same parts (`Operation.path_kept`). -/

namespace RestModule.Operation

open Naming (IsCamel IsLowerWord)

/-! ## Segments -/

/-- The first segment of a path, the slashes in front of it aside. -/
def firstSegment (path : String) : String :=
  .ofList ((path.toList.dropWhile (· == '/')).takeWhile (· != '/'))

/-- What follows the first segment of a path and the slash after it. -/
def belowSegment (path : String) : String :=
  .ofList (((path.toList.dropWhile (· == '/')).dropWhile (· != '/')).drop 1)

/-- A path has a resource if camel case leaves something of its first segment. -/
theorem splitPath?_eq_some_iff {path name rest : String} :
    splitPath? path = some (name, rest) ↔ name ≠ "" ∧
      name = Naming.camelCase (firstSegment path) ∧ rest = "/" ++ belowSegment path := by
  have hbrace : ∀ c : Char, (c == '\x7b' || c == '\x7d') = true →
      Naming.isAsciiAlphanum c = false := by
    intro c hc
    rcases (Bool.or_eq_true _ _).mp hc with hc | hc <;> rw [eq_of_beq hc] <;> decide
  have hbelow : String.ofList
      ('/' :: ((path.toList.dropWhile (· == '/')).dropWhile (· != '/')).drop 1) =
        "/" ++ belowSegment path := by
    apply String.toList_injective
    simp only [belowSegment, String.toList_append, String.toList_ofList]
    rfl
  simp only [splitPath?, Text.fst_cutAt?, Text.snd_cutAt?, Naming.camelCase_dropEnds hbrace,
    Option.ite_none_left_eq_some, Option.some.injEq, Prod.mk.injEq, String.isEmpty_iff, hbelow]
  constructor
  · rintro ⟨hne, rfl, rfl⟩
    exact ⟨hne, rfl, rfl⟩
  · rintro ⟨hne, rfl, rfl⟩
    exact ⟨hne, rfl, rfl⟩

/-! ## Written paths -/

/-- What follows the first segment of a path, with the slash between them. -/
def ending (below : Option String) : String :=
  below.elim "" ("/" ++ ·)

/-- A path with some slashes in front of its first segment. -/
def pathOf (slashes : Nat) (segment : String) (below : Option String) : String :=
  .ofList (List.replicate slashes '/') ++ segment ++ ending below

/-- A path with a single slash in front. -/
def withOneSlash (path : String) : String :=
  "/" ++ .ofList (path.toList.dropWhile (· == '/'))

/-- A text that can be the first segment of a path. -/
structure IsSegment (segment : String) : Prop where
  ne_empty : segment ≠ ""
  no_slash : '/' ∉ segment.toList

theorem isSegment_of_isCamel {segment : String} (h : IsCamel segment) : IsSegment segment where
  ne_empty := by
    rintro rfl
    obtain ⟨first, rest, hs, -⟩ := h.beginsLow
    cases hs
  no_slash := (h.camelCase_eq ▸ Naming.camelCase_isName segment).not_mem (by decide)

namespace IsSegment

variable {segment : String} (h : IsSegment segment) (slashes : Nat) (below : Option String)

include h

theorem dropWhile_pathOf :
    (pathOf slashes segment below).toList.dropWhile (· == '/') =
      segment.toList ++ (ending below).toList := by
  have hslashes : ∀ c ∈ List.replicate slashes '/', (c == '/') = true := by
    intro c hc
    rw [List.eq_of_mem_replicate hc]
    rfl
  rw [pathOf, String.append_assoc, String.toList_append, String.toList_ofList,
    List.dropWhile_append_of_pos hslashes, String.toList_append]
  cases hs : segment.toList with
  | nil => exact absurd (String.toList_injective hs) h.ne_empty
  | cons first rest =>
    have hfirst : first ≠ '/' := by
      rintro rfl
      exact h.no_slash (hs ▸ List.mem_cons_self)
    rw [List.cons_append, List.dropWhile_cons_of_neg (by simpa using hfirst)]

private theorem forall_ne_slash : ∀ c ∈ segment.toList, (c != '/') = true := by
  intro c hc
  rw [bne_iff_ne]
  rintro rfl
  exact h.no_slash hc

theorem firstSegment_pathOf : firstSegment (pathOf slashes segment below) = segment := by
  have hending : (ending below).toList.takeWhile (· != '/') = [] := by
    cases below with
    | none => rfl
    | some text =>
      rw [ending, Option.elim_some, String.toList_append]
      rfl
  apply String.toList_injective
  rw [firstSegment, String.toList_ofList, h.dropWhile_pathOf,
    List.takeWhile_append_of_pos h.forall_ne_slash, hending, List.append_nil]

theorem belowSegment_pathOf : belowSegment (pathOf slashes segment below) = below.getD "" := by
  apply String.toList_injective
  rw [belowSegment, String.toList_ofList, h.dropWhile_pathOf,
    List.dropWhile_append_of_pos h.forall_ne_slash]
  cases below with
  | none => rfl
  | some text =>
    rw [ending, Option.elim_some, String.toList_append]
    rfl

theorem withOneSlash_pathOf :
    withOneSlash (pathOf slashes segment below) = "/" ++ segment ++ ending below := by
  rw [withOneSlash, h.dropWhile_pathOf, String.append_assoc, ← String.toList_append,
    String.ofList_toList]

end IsSegment

/-! ## Parts -/

/-- A first segment in camel case names the resource, and nothing of what follows is lost. -/
theorem splitPath?_pathOf {segment : String} (h : IsCamel segment) (slashes : Nat)
    (below : Option String) :
    splitPath? (pathOf slashes segment below) = some (segment, "/" ++ below.getD "") := by
  have hsegment := isSegment_of_isCamel h
  rw [splitPath?_eq_some_iff, hsegment.firstSegment_pathOf, hsegment.belowSegment_pathOf,
    h.camelCase_eq]
  exact ⟨hsegment.ne_empty, rfl, rfl⟩

/-- The parts of a path make a path with the same parts. -/
theorem splitPath?_rebuilt {path name relative : String}
    (h : splitPath? path = some (name, relative)) :
    splitPath? ("/" ++ name ++ relative) = some (name, relative) := by
  obtain ⟨hne, rfl, rfl⟩ := splitPath?_eq_some_iff.mp h
  exact splitPath?_pathOf (Naming.camelCase_isCamel hne) 1 (some (belowSegment path))

/-- A path whose first segment begins with a lower-case letter and has nothing but letters and digits
is put together from its parts again, with one slash in front and one at the end if nothing followed
the segment. Of every path, the name is not empty and the path below begins with a slash. -/
theorem path_kept :
    (∀ (slashes : Nat) (segment : String) (below : Option String), IsLowerWord segment →
      splitPath? (pathOf slashes segment below) = some (segment, "/" ++ below.getD "") ∧
        "/" ++ segment ++ ("/" ++ below.getD "") =
          withOneSlash (pathOf slashes segment below) ++ if below.isNone then "/" else "") ∧
      ∀ path name relative : String, splitPath? path = some (name, relative) →
        name ≠ "" ∧ (∃ below, relative = "/" ++ below) ∧
          splitPath? ("/" ++ name ++ relative) = some (name, relative) := by
  constructor
  · intro slashes segment below h
    have hcamel : IsCamel segment := .lower h
    refine ⟨splitPath?_pathOf hcamel slashes below, ?_⟩
    rw [(isSegment_of_isCamel hcamel).withOneSlash_pathOf]
    cases below with
    | none => simp [ending]
    | some text => simp [ending]
  · intro path name relative h
    obtain ⟨hne, -, hrelative⟩ := splitPath?_eq_some_iff.mp h
    exact ⟨hne, ⟨_, hrelative⟩, splitPath?_rebuilt h⟩

/-- Braces and slashes below the first segment stay, and a first segment that camel case changes is
changed only once. -/
theorem path_kept_orders :
    (IsLowerWord "orderItems" ∧
      splitPath? "//orderItems/\x7bid\x7d//" = some ("orderItems", "/\x7bid\x7d//") ∧
        "/orderItems/\x7bid\x7d//" = withOneSlash "//orderItems/\x7bid\x7d//") ∧
      splitPath? "/\x7bOrder-items\x7d/2" = some ("orderItems", "/2") ∧
        splitPath? "/orderItems/2" = some ("orderItems", "/2") := by
  have hword : IsLowerWord "orderItems" := by decide
  have hpath : pathOf 2 "orderItems" (some "\x7bid\x7d//") = "//orderItems/\x7bid\x7d//" := by decide
  have hkept := path_kept.1 2 "orderItems" (some "\x7bid\x7d//") hword
  rw [hpath] at hkept
  have hsplit : splitPath? "/\x7bOrder-items\x7d/2" = some ("orderItems", "/2") := by decide
  have hagain := (path_kept.2 _ _ _ hsplit).2.2
  exact ⟨⟨hword, hkept.1, hkept.2⟩, hsplit, hagain⟩

end RestModule.Operation
