import RestModule.Proofs.Naming.Legal
import RestModule.Proofs.Template.Bare

/-!
# Names without dollar signs

Identifiers may have dollar signs in them, so a name that is an identifier hands its own on. Nothing
else brings one into what is made from a name. -/

namespace RestModule.Naming

open Text

/-- A character of an identifier other than the dollar sign. -/
def isBarePart (c : Char) : Bool :=
  isIdentifierPart c && c != '$'

theorem isKind_bare : IsKind isBarePart where
  part _ h := (Bool.and_eq_true_iff.mp h).1
  alphanum c h := by
    have hne : c ≠ '$' := by
      rintro rfl
      exact absurd h (by decide)
    simp [isBarePart, isKind_part.alphanum c h, hne]
  underscore := rfl
  upper := by decide
  lower := by decide

/-- A text made of such characters. -/
def IsBareName (s : String) : Prop :=
  ∀ c ∈ s.toList, isBarePart c = true

instance (s : String) : Decidable (IsBareName s) :=
  decidable_of_iff (s.toList.all isBarePart = true) List.all_eq_true

theorem isBareName_iff {s : String} : IsBareName s ↔ IsName s ∧ IsBare s := by
  simp only [IsBareName, isBarePart, Bool.and_eq_true, bne_iff_ne, forall₂_and]
  refine and_congr_right fun _ => ⟨fun h hmem => h _ hmem rfl, ?_⟩
  rintro h c hc rfl
  exact h hc

namespace IsBareName

variable {s t : String}

theorem isBare (h : IsBareName s) : IsBare s :=
  (isBareName_iff.mp h).2

theorem append (hs : IsBareName s) (ht : IsBareName t) : IsBareName (s ++ t) := by
  rw [IsBareName, String.toList_append]
  exact List.forall_mem_append.mpr ⟨hs, ht⟩

theorem capitalize (h : IsBareName s) : IsBareName (capitalize s) := by
  rw [IsBareName, Naming.capitalize, String.toList_ofList]
  exact isKind_bare.upperFirst h

theorem decapitalize (h : IsBareName s) : IsBareName (decapitalize s) := by
  rw [IsBareName, Naming.decapitalize, String.toList_ofList]
  exact isKind_bare.lowerFirst h

theorem variant (h : IsBareName s) (k : Nat) : IsBareName (variant s k) := by
  cases k with
  | zero => exact h
  | succ k =>
    refine (h.append (by decide)).append fun c hc => ?_
    rw [Nat.toList_repr] at hc
    have hdigit : c.isDigit = true := Nat.isDigit_of_mem_toDigits (by decide) (by decide) hc
    exact isKind_bare.alphanum c (by simp [Char.isAlphanum, hdigit])

theorem distinctBy {key : String → String} {taken names : List String}
    (h : ∀ name ∈ names, IsBareName name) :
    ∀ chosen ∈ distinctBy key taken names, IsBareName chosen :=
  forall_mem_distinctBy (fun _ k hname => hname.variant k) h

end IsBareName

/-- Camel case never has a dollar sign. -/
theorem camelCase_isBareName (s : String) : IsBareName (camelCase s) :=
  isKind_bare.camelCase s

section Names

variable {name : String} (h : IsBare name)

include h

theorem identifierBase_isBareName : IsBareName (identifierBase name) := by
  unfold identifierBase
  split
  · next hid => exact isBareName_iff.mpr ⟨(IsName.of_isIdentifier hid).1, h⟩
  · change IsBareName (if (camelCase name).isEmpty then "value" else camelCase name)
    split
    · decide
    · exact camelCase_isBareName name

theorem identifier_isBareName : IsBareName (identifier name) := by
  have hbase := identifierBase_isBareName h
  change IsBareName (if identifierBase name ∈ reserved then "_" ++ identifierBase name
    else identifierBase name)
  split
  · exact IsBareName.append (by decide) hbase
  · exact hbase

theorem modelClass_isBareName : IsBareName (modelClass name) :=
  (identifierBase_isBareName h).capitalize.append (by decide)

end Names

theorem interfaceClass_isBareName {resource : String} (h : IsBareName resource) :
    IsBareName (interfaceClass resource) :=
  h.capitalize.append (by decide)

theorem implementationClass_isBareName {resource : String} (h : IsBareName resource) :
    IsBareName (implementationClass resource) :=
  h.capitalize.append (by decide)

end RestModule.Naming
