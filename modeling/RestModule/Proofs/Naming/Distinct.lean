import RestModule.Distinct
import RestModule.Naming
import Mathlib.Data.List.Forall2
import Mathlib.Data.List.Induction
import Mathlib.Data.List.Nodup
import Mathlib.Data.List.Perm.Subperm

/-!
# Names apart from each other

The variants of a name never meet, so among one more of them than there are taken names one is free
(`Naming.firstFreeBy_isFirstFree`). Names that are made distinct one after the other are then apart
from each other and from those taken before (`Naming.nodup_distinctBy`), and each is the first variant
of its name that is free when its turn comes (`Naming.numbers_distinctBy`). -/

namespace RestModule

/-- The first places of distinct names are in the order of the names. -/
theorem pairwise_idxOf_addNames (names : List String) :
    (addNames [] names).Pairwise fun a b => names.idxOf a < names.idxOf b := by
  induction names using List.reverseRecOn with
  | nil => exact .nil
  | append_singleton names name ih =>
    have hkept : (addNames [] names).Pairwise fun a b =>
        (names ++ [name]).idxOf a < (names ++ [name]).idxOf b := by
      refine ih.imp_of_mem fun ha hb h => ?_
      have hmem : ∀ x ∈ addNames [] names, x ∈ names := by simp
      rwa [List.idxOf_append_of_mem (hmem _ ha), List.idxOf_append_of_mem (hmem _ hb)]
    have hstep : addNames [] (names ++ [name]) = addName (addNames [] names) name := by
      simp [addNames, List.foldl_append]
    rw [hstep, addName]
    split
    · exact hkept
    · next hname =>
      have hfresh : name ∉ names := by simpa using hname
      refine List.pairwise_append.mpr ⟨hkept, List.pairwise_singleton _ _, ?_⟩
      intro a ha b hb
      have ha : a ∈ names := by simpa using ha
      rw [List.mem_singleton.mp hb, List.idxOf_append_of_mem ha, List.idxOf_append_of_notMem hfresh]
      exact Nat.lt_add_right _ (List.idxOf_lt_length_iff.mpr ha)

namespace Naming

/-! ## Variants -/

/-- What a variant adds to its name. -/
def variantMark : Nat → String
  | 0 => ""
  | k + 1 => "_" ++ Nat.repr (k + 1)

theorem variant_eq (name : String) (k : Nat) : variant name k = name ++ variantMark k := by
  cases k with
  | zero => exact String.append_empty.symm
  | succ k => exact String.append_assoc

theorem variantMark_injective : Function.Injective variantMark := by
  intro i j h
  cases i with
  | zero =>
    cases j with
    | zero => rfl
    | succ j => exact absurd (congrArg String.toList h) (by simp [variantMark, String.toList_append])
  | succ i =>
    cases j with
    | zero => exact absurd (congrArg String.toList h) (by simp [variantMark, String.toList_append])
    | succ j =>
      have hdigits := congrArg String.toList ((String.append_right_inj "_").mp h)
      rw [Nat.toList_repr, Nat.toList_repr] at hdigits
      have hvalue := congrArg (Nat.ofDigitChars 10 · 0) hdigits
      simpa only [Nat.ofDigitChars_toDigits (by decide : 1 < 10) (by decide : 10 ≤ 10)] using hvalue

/-- Keys tell the variants of a name apart. -/
def TellsVariants (key : String → String) : Prop :=
  ∀ name, Function.Injective fun k => key (variant name k)

theorem tellsVariants_id : TellsVariants id := by
  intro name i j h
  apply variantMark_injective
  simpa only [id_eq, variant_eq, String.append_right_inj] using h

/-- The first letter is the only one that a capital changes, and no mark begins with a letter. -/
theorem capitalize_variant (name : String) (k : Nat) :
    capitalize (variant name k) = capitalize name ++ variantMark k := by
  rw [variant_eq]
  apply String.toList_injective
  simp only [capitalize, String.toList_ofList, String.toList_append]
  cases name.toList with
  | nil =>
    cases k with
    | zero => rfl
    | succ k =>
      rw [variantMark, String.toList_append]
      rfl
  | cons c rest => simp only [List.cons_append, Text.upperFirst, List.append_assoc]

theorem tellsVariants_capitalize : TellsVariants capitalize := by
  intro name i j h
  apply variantMark_injective
  simpa only [capitalize_variant, String.append_right_inj] using h

/-! ## The first free variant -/

variable {key : String → String} {taken : List String} {name : String}

/-- The first variant of a name whose key is not taken. -/
structure IsFirstFree (key : String → String) (taken : List String) (name chosen : String) : Prop where
  free : key chosen ∉ taken
  first : ∃ k, chosen = variant name k ∧ ∀ i < k, key (variant name i) ∈ taken

/-- A name that is free itself is kept. -/
theorem IsFirstFree.eq_of_not_mem {chosen : String} (h : IsFirstFree key taken name chosen)
    (hname : key name ∉ taken) : chosen = name := by
  obtain ⟨k, rfl, htaken⟩ := h.first
  cases k with
  | zero => rfl
  | succ k => exact absurd (htaken 0 (Nat.succ_pos k)) hname

theorem IsFirstFree.congr {other : List String} {chosen : String}
    (h : IsFirstFree key taken name chosen) (hmem : ∀ x, x ∈ taken ↔ x ∈ other) :
    IsFirstFree key other name chosen := by
  obtain ⟨k, hchosen, htaken⟩ := h.first
  exact ⟨fun hother => h.free ((hmem _).mpr hother),
    k, hchosen, fun i hi => (hmem _).mp (htaken i hi)⟩

/-- The search ends at a free variant, or after as many taken ones as it may look at. -/
theorem searchFree_spec (key : String → String) (taken : List String) (name : String)
    (fuel k : Nat) : ∃ i ≤ fuel, searchFree key taken name fuel k = variant name (k + i) ∧
      (∀ j < i, key (variant name (k + j)) ∈ taken) ∧
      (key (variant name (k + i)) ∉ taken ∨ i = fuel) := by
  induction fuel generalizing k with
  | zero => exact ⟨0, Nat.le_refl 0, rfl, fun j hj => absurd hj (Nat.not_lt_zero j), .inr rfl⟩
  | succ fuel ih =>
    rw [searchFree]
    split
    · next hmem =>
      obtain ⟨i, hi, hchosen, htaken, hend⟩ := ih (k + 1)
      have hstep : ∀ j, k + 1 + j = k + (j + 1) := by omega
      simp only [hstep] at hchosen htaken hend
      refine ⟨i + 1, Nat.succ_le_succ hi, hchosen, fun j hj => ?_, hend.imp_right (congrArg (· + 1))⟩
      cases j with
      | zero => exact hmem
      | succ j => exact htaken j (Nat.lt_of_succ_lt_succ hj)
    · next hfree =>
      exact ⟨0, Nat.zero_le _, rfl, fun j hj => absurd hj (Nat.not_lt_zero j), .inl hfree⟩

/-- More variants than there are taken names are not all taken. -/
theorem TellsVariants.exists_free (hkey : TellsVariants key) (taken : List String) (name : String) :
    ∃ k ≤ taken.length, key (variant name k) ∉ taken := by
  by_contra hall
  have hmem : ∀ k ≤ taken.length, key (variant name k) ∈ taken := by simpa using hall
  have hnodup : ((List.range (taken.length + 1)).map fun k => key (variant name k)).Nodup :=
    List.nodup_range.map (hkey name)
  have hsubset : ((List.range (taken.length + 1)).map fun k => key (variant name k)) ⊆ taken := by
    intro x hx
    obtain ⟨k, hk, rfl⟩ := List.mem_map.mp hx
    exact hmem k (Nat.le_of_lt_succ (List.mem_range.mp hk))
  have hlength := (List.subperm_of_subset hnodup hsubset).length_le
  rw [List.length_map, List.length_range] at hlength
  exact Nat.not_succ_le_self _ hlength

theorem firstFreeBy_isFirstFree (hkey : TellsVariants key) (taken : List String) (name : String) :
    IsFirstFree key taken name (firstFreeBy key taken name) := by
  obtain ⟨i, -, hchosen, htaken, hend⟩ := searchFree_spec key taken name taken.length 0
  simp only [Nat.zero_add] at hchosen htaken hend
  rw [firstFreeBy, hchosen]
  refine ⟨?_, i, rfl, htaken⟩
  rcases hend with hfree | rfl
  · exact hfree
  -- all variants before are taken, so the one that is free can only be this one
  · obtain ⟨k, hk, hfree⟩ := hkey.exists_free taken name
    rcases Nat.lt_or_eq_of_le hk with hlt | rfl
    · exact absurd (htaken k hlt) hfree
    · exact hfree

/-! ## Distinct names -/

/-- Names that are made distinct are variants of the names they are made from. -/
theorem variants_distinctBy (key : String → String) (taken names : List String) :
    List.Forall₂ (fun name chosen => ∃ k, chosen = variant name k) names
      (distinctBy key taken names) := by
  induction names generalizing taken with
  | nil => exact .nil
  | cons name rest ih =>
    obtain ⟨i, -, hchosen, -⟩ := searchFree_spec key taken name taken.length 0
    exact .cons ⟨0 + i, hchosen⟩ (ih _)

/-- What the variants of a name share with it, names made distinct share with those they are made of. -/
theorem forall_mem_distinctBy {p : String → Prop} (hvariant : ∀ name k, p name → p (variant name k))
    {key : String → String} {taken names : List String} (h : ∀ name ∈ names, p name) :
    ∀ chosen ∈ distinctBy key taken names, p chosen := by
  have hvariants := variants_distinctBy key taken names
  generalize distinctBy key taken names = chosen at hvariants ⊢
  induction hvariants with
  | nil => simp
  | cons hfirst _ ih =>
    obtain ⟨k, rfl⟩ := hfirst
    obtain ⟨hname, hrest⟩ := List.forall_mem_cons.mp h
    exact List.forall_mem_cons.mpr ⟨hvariant _ k hname, ih hrest⟩

theorem length_distinctBy (key : String → String) (taken names : List String) :
    (distinctBy key taken names).length = names.length :=
  (variants_distinctBy key taken names).length_eq.symm

/-- What is given names one by one has these names. -/
theorem map_zipWith_names {α β : Type} {give : α → String → β} {nameOf : β → String}
    (hname : ∀ a name, nameOf (give a name) = name) {unnamed : List α} {names : List String}
    (hlength : names.length = unnamed.length) : (unnamed.zipWith give names).map nameOf = names := by
  refine List.ext_getElem ?_ fun i _ _ => ?_
  · simp [hlength]
  · simp [hname]

/-- Each chosen name is the first variant of its name whose key is neither taken nor the key of a name
chosen before. -/
structure Numbers (key : String → String) (taken names chosen : List String) : Prop where
  length : chosen.length = names.length
  firstFree : ∀ i name found, names[i]? = some name → chosen[i]? = some found →
    IsFirstFree key (taken ++ (chosen.take i).map key) name found

theorem numbers_distinctBy (hkey : TellsVariants key) (taken names : List String) :
    Numbers key taken names (distinctBy key taken names) := by
  refine ⟨length_distinctBy key taken names, ?_⟩
  induction names generalizing taken with
  | nil => exact fun i name found hname => nomatch hname
  | cons first rest ih =>
    have hfirst := firstFreeBy_isFirstFree hkey taken first
    rw [distinctBy]
    generalize firstFreeBy key taken first = chosen at hfirst ⊢
    rintro (_ | i) name found hname hfound
    · cases hname
      cases hfound
      simpa using hfirst
    · refine (ih (key chosen :: taken) i name found hname hfound).congr fun x => ?_
      simp only [List.take_succ_cons, List.map_cons, List.cons_append, List.mem_cons,
        List.mem_append]
      tauto

/-- Names that are made distinct have keys apart from each other and from those taken before. -/
theorem nodup_distinctBy (hkey : TellsVariants key) (htaken : taken.Nodup) (names : List String) :
    (taken ++ (distinctBy key taken names).map key).Nodup := by
  induction names generalizing taken with
  | nil => simpa [distinctBy] using htaken
  | cons name rest ih =>
    have hfree := (firstFreeBy_isFirstFree hkey taken name).free
    rw [distinctBy, List.map_cons, List.perm_middle.nodup_iff]
    exact ih (List.nodup_cons.mpr ⟨hfree, htaken⟩)

end Naming

end RestModule
