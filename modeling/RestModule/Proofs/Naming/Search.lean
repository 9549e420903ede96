import RestModule.Proofs.Source.Identifiers
import Mathlib.Data.Finset.Card

/-!
# Searches for free names

A search goes through the variants of a name until it finds one whose key is not among the taken
ones, and takes that key. Nothing bounds it: it ends because there are finitely many taken keys and
the variants have distinct ones (`Naming.ends_firstFreeBy`). What it ends with is what the functions
that make names distinct return, for a single name and for the names of the fields of a model
(`Naming.searches_settle`). -/

namespace RestModule

namespace Naming

/-! ## Rounds -/

/-- A search through the variants of a name from the `k`-th on, with the variant that it chooses and
the keys that are taken afterwards. Each round puts the key of a variant among the taken ones, and
the search goes on as long as it was there before. -/
inductive Ends (key : String → String) (name : String) (taken : Finset String) :
    Nat → String → Finset String → Prop where
  | free {k : Nat} (h : key (variant name k) ∉ taken) :
      Ends key name taken k (variant name k) (insert (key (variant name k)) taken)
  | next {k : Nat} {chosen : String} {after : Finset String} (h : key (variant name k) ∈ taken)
      (hrest : Ends key name taken (k + 1) chosen after) : Ends key name taken k chosen after

/-- Searches for the names of a list, each with the keys that are taken after those before. -/
inductive EndsAll (key : String → String) :
    Finset String → List String → List String → Finset String → Prop where
  | nil (taken : Finset String) : EndsAll key taken [] [] taken
  | cons {name chosen : String} {names more : List String} {taken middle after : Finset String}
      (hfirst : Ends key name taken 0 chosen middle) (hrest : EndsAll key middle names more after) :
      EndsAll key taken (name :: names) (chosen :: more) after

variable {key : String → String} {name : String}

/-- A search has one end at most. -/
theorem Ends.unique {taken after after' : Finset String} {k : Nat} {chosen chosen' : String}
    (h : Ends key name taken k chosen after) (h' : Ends key name taken k chosen' after') :
    chosen = chosen' ∧ after = after' := by
  induction h with
  | free hfree =>
    cases h' with
    | free _ => exact ⟨rfl, rfl⟩
    | next htaken _ => exact absurd htaken hfree
  | next htaken _ ih =>
    cases h' with
    | free hfree => exact absurd htaken hfree
    | next _ hrest => exact ih hrest

theorem EndsAll.unique {taken after after' : Finset String} {names chosen chosen' : List String}
    (h : EndsAll key taken names chosen after) (h' : EndsAll key taken names chosen' after') :
    chosen = chosen' ∧ after = after' := by
  induction h generalizing chosen' with
  | nil taken =>
    cases h' with
    | nil => exact ⟨rfl, rfl⟩
  | cons hfirst _ ih =>
    cases h' with
    | cons hfirst' hrest' =>
      obtain ⟨rfl, rfl⟩ := hfirst.unique hfirst'
      obtain ⟨rfl, rfl⟩ := ih hrest'
      exact ⟨rfl, rfl⟩

/-- A search goes past as many variants as are taken, and ends at the next one. -/
theorem Ends.of_taken {taken : Finset String} {k i : Nat}
    (htaken : ∀ j < i, key (variant name (k + j)) ∈ taken)
    (hfree : key (variant name (k + i)) ∉ taken) :
    Ends key name taken k (variant name (k + i)) (insert (key (variant name (k + i))) taken) := by
  induction i generalizing k with
  | zero => exact .free hfree
  | succ i ih =>
    have hstep : ∀ j, k + (j + 1) = k + 1 + j := by omega
    apply Ends.next (htaken 0 (Nat.succ_pos i))
    rw [hstep] at hfree ⊢
    apply ih _ hfree
    intro j hj
    rw [← hstep]
    exact htaken (j + 1) (Nat.succ_lt_succ hj)

/-! ## Ends -/

theorem IsFirstFree.ends {taken : List String} {chosen : String}
    (h : IsFirstFree key taken name chosen) :
    Ends key name taken.toFinset 0 chosen (insert (key chosen) taken.toFinset) := by
  obtain ⟨k, rfl, htaken⟩ := h.first
  have hfree := h.free
  rw [← Nat.zero_add k] at hfree ⊢
  refine .of_taken (fun j hj => ?_) (by rwa [List.mem_toFinset])
  rw [List.mem_toFinset, Nat.zero_add]
  exact htaken j hj

/-- The search for a free variant ends, whatever keys are taken. -/
theorem ends_firstFreeBy (hkey : TellsVariants key) (taken : List String) (name : String) :
    Ends key name taken.toFinset 0 (firstFreeBy key taken name)
      (insert (key (firstFreeBy key taken name)) taken.toFinset) :=
  (firstFreeBy_isFirstFree hkey taken name).ends

theorem endsAll_distinctBy (hkey : TellsVariants key) (taken names : List String) :
    EndsAll key taken.toFinset names (distinctBy key taken names)
      (((distinctBy key taken names).map key).toFinset ∪ taken.toFinset) := by
  induction names generalizing taken with
  | nil =>
    rw [distinctBy, List.map_nil, List.toFinset_nil, Finset.empty_union]
    exact .nil _
  | cons name names ih =>
    have hrest := ih (key (firstFreeBy key taken name) :: taken)
    rw [List.toFinset_cons, Finset.union_insert, ← Finset.insert_union] at hrest
    rw [distinctBy, List.map_cons, List.toFinset_cons]
    exact .cons (ends_firstFreeBy hkey taken name) hrest

/-- A search goes on for no more rounds than there are taken keys. -/
theorem TellsVariants.le_card (hkey : TellsVariants key) {taken : Finset String} {k : Nat}
    (htaken : ∀ i < k, key (variant name i) ∈ taken) : k ≤ taken.card := by
  have hsubset : (Finset.range k).image (fun i => key (variant name i)) ⊆ taken := by
    intro x hx
    obtain ⟨i, hi, rfl⟩ := Finset.mem_image.mp hx
    exact htaken i (Finset.mem_range.mp hi)
  calc k = ((Finset.range k).image fun i => key (variant name i)).card := by
        rw [Finset.card_image_of_injective _ (hkey name), Finset.card_range]
    _ ≤ taken.card := Finset.card_le_card hsubset

/-! ## Single names -/

/-- A name with a number after it. -/
def numbered (name : String) (k : Nat) : String :=
  name ++ "_" ++ Nat.repr k

theorem variant_of_pos (name : String) {k : Nat} (h : 1 ≤ k) :
    variant name k = numbered name k := by
  obtain ⟨k, rfl⟩ := Nat.exists_eq_add_of_le' h
  rfl

/-- The search for a free name ends once, with the name itself or the first numbered one that is
free, which is then taken besides the others. -/
structure Settles (taken : List String) (name : String) : Prop where
  ends : Ends id name taken.toFinset 0 (firstFree taken name)
    (insert (firstFree taken name) taken.toFinset)
  unique : ∀ chosen after, Ends id name taken.toFinset 0 chosen after →
    chosen = firstFree taken name ∧ after = insert (firstFree taken name) taken.toFinset
  kept : name ∉ taken → firstFree taken name = name
  numbered : name ∈ taken → ∃ k ≥ 1, firstFree taken name = numbered name k ∧
    numbered name k ∉ taken ∧ (∀ j ≥ 1, j < k → numbered name j ∈ taken) ∧ k ≤ taken.toFinset.card

theorem settles_firstFree (taken : List String) (name : String) : Settles taken name := by
  have hfirst : IsFirstFree id taken name (firstFree taken name) :=
    firstFreeBy_isFirstFree tellsVariants_id taken name
  refine ⟨hfirst.ends, fun chosen after h => h.unique hfirst.ends, hfirst.eq_of_not_mem, ?_⟩
  intro hname
  obtain ⟨k, hchosen, htaken⟩ := hfirst.first
  have hfree := hfirst.free
  rw [id_eq, hchosen] at hfree
  have hpos : 1 ≤ k := by
    apply Nat.pos_of_ne_zero
    rintro rfl
    exact hfree hname
  have hcard : k ≤ taken.toFinset.card :=
    tellsVariants_id.le_card fun i hi => List.mem_toFinset.mpr (htaken i hi)
  rw [variant_of_pos name hpos] at hchosen hfree
  refine ⟨k, hpos, hchosen, hfree, fun j hj hlt => ?_, hcard⟩
  rw [← variant_of_pos name hj]
  exact htaken j hlt

end Naming

/-! ## Fields -/

open Naming (capitalize identifier variant EndsAll)

/-- The searches for the names of a component's fields end once, at each property with the first
variant of its identifier that begins no accessor of an earlier field. -/
structure Component.SettlesFields (component : Component) : Prop where
  ends : EndsAll capitalize ∅ (component.properties.map fun property => identifier property.name)
    (component.fields.map (·.name))
    (component.fields.map fun field => capitalize field.name).toFinset
  unique : ∀ chosen after,
    EndsAll capitalize ∅ (component.properties.map fun property => identifier property.name)
      chosen after → chosen = component.fields.map (·.name)
  length : component.fields.length = component.properties.length
  first : ∀ i property field, component.properties[i]? = some property →
    component.fields[i]? = some field → ∃ k, field.name = variant (identifier property.name) k ∧
      (∀ earlier ∈ component.fields.take i, capitalize earlier.name ≠ capitalize field.name) ∧
      ∀ j < k, ∃ earlier ∈ component.fields.take i,
        capitalize earlier.name = capitalize (variant (identifier property.name) j)

theorem Component.settles_fields (component : Component) : component.SettlesFields := by
  have hnames := component.map_name_fields
  have hends := Naming.endsAll_distinctBy Naming.tellsVariants_capitalize []
    (component.properties.map fun property => identifier property.name)
  have hnumbers := Naming.numbers_distinctBy Naming.tellsVariants_capitalize []
    (component.properties.map fun property => identifier property.name)
  rw [← hnames] at hends hnumbers
  rw [List.map_map, List.toFinset_nil, Finset.union_empty] at hends
  refine ⟨hends, fun chosen after h => (h.unique hends).1, ?length, ?first⟩
  case length => simpa using hnumbers.length
  case first =>
    intro i property field hproperty hfield
    have hfirst := hnumbers.firstFree i (identifier property.name) field.name
      (by rw [List.getElem?_map, hproperty, Option.map_some])
      (by rw [List.getElem?_map, hfield, Option.map_some])
    rw [List.nil_append, ← List.map_take, List.map_map] at hfirst
    obtain ⟨k, hchosen, htaken⟩ := hfirst.first
    refine ⟨k, hchosen, fun earlier hearlier heq => ?_, fun j hj => List.mem_map.mp (htaken j hj)⟩
    exact hfirst.free (List.mem_map.mpr ⟨earlier, hearlier, heq⟩)

namespace Naming

/-- Every search for a free name ends, for one name and for the names of fields. -/
theorem searches_settle :
    (∀ (taken : List String) (name : String), Settles taken name) ∧
      ∀ component : Component, component.SettlesFields :=
  ⟨settles_firstFree, Component.settles_fields⟩

end Naming

end RestModule
