import RestModule.Proofs.Naming.Distinct
import RestModule.Proofs.Template.Cut

/-!
# The names that rendering looks up

The names listed for a template are those whose values its rendering depends on: values that agree on
them render alike, and values that differ on one of them alone never do
(`Template.placeholders_looked_up`). -/

namespace RestModule.Template

/-- The text that stands for a name: its value, or the placeholder itself where there is none. -/
def valueOf (values : List (String × String)) (name : String) : String :=
  (values.lookup name).getD (slot name)

/-- The placeholder of a name stands in a template behind a text. -/
def StandsBehind (template name : String) (before : List Char) : Prop :=
  ∃ after, template.toList = before ++ token name.toList ++ after

/-- Names are those that the rendering of a template looks up, in the order in which they appear. -/
structure LooksUp (template : String) (names : List String) : Prop where
  distinct : names.Nodup
  listed (name : String) :
    name ∈ names ↔ IsKey name.toList ∧ ∃ before, StandsBehind template name before
  /-- Wherever the later of two names stands, the earlier one has stood before. -/
  ordered : names.Pairwise fun a b => ∀ before, StandsBehind template b before →
    ∃ earlier, StandsBehind template a earlier ∧ earlier.length < before.length
  sufficient (values others : List (String × String)) :
    (∀ name ∈ names, valueOf values name = valueOf others name) →
      render template values = render template others
  necessary (values others : List (String × String)) :
    ∀ name ∈ names, (∀ other ∈ names, other ≠ name → valueOf values other = valueOf others other) →
      valueOf values name ≠ valueOf others name → render template values ≠ render template others

/-! ## Texts for the slots of a cut -/

namespace Cut

/-- The names of the placeholders, one for each time that they stand in the text. -/
def names (slots : List (List Char × List Char)) : List String :=
  slots.map fun slot => .ofList slot.1

/-- The slots with a text for each name. -/
def fill (texts : String → List Char) (slots : List (List Char × List Char)) : List Char :=
  slots.flatMap fun slot => texts (.ofList slot.1) ++ slot.2

variable {texts others : String → List Char} {name : String}
  {slots : List (List Char × List Char)}

theorem fill_cons (texts : String → List Char) (slot : List Char × List Char)
    (rest : List (List Char × List Char)) :
    fill texts (slot :: rest) = texts (.ofList slot.1) ++ (slot.2 ++ fill texts rest) := by
  rw [fill, List.flatMap_cons, List.append_assoc]
  rfl

theorem fill_congr (h : ∀ name ∈ names slots, texts name = others name) :
    fill texts slots = fill others slots := by
  refine List.flatMap_congr fun slot hslot => ?_
  rw [h _ (List.mem_map_of_mem hslot)]

/-- A text for one name counts as often as the name stands there. -/
theorem length_fill (hrest : ∀ other ∈ names slots, other ≠ name → texts other = others other) :
    (fill texts slots).length + (names slots).count name * (others name).length =
      (fill others slots).length + (names slots).count name * (texts name).length := by
  induction slots with
  | nil => simp [fill, names]
  | cons slot rest ih =>
    have ih := ih fun other hother => hrest other (List.mem_cons_of_mem _ hother)
    have hnames : names (slot :: rest) = .ofList slot.1 :: names rest := rfl
    rw [hnames, fill_cons, fill_cons]
    simp only [List.length_append]
    by_cases hslot : String.ofList slot.1 = name
    · rw [hslot, List.count_cons_self, Nat.add_mul, Nat.add_mul]
      omega
    · have hsame : texts (.ofList slot.1) = others (.ofList slot.1) :=
        hrest _ List.mem_cons_self hslot
      rw [List.count_cons_of_ne hslot, hsame]
      omega

/-- Texts that differ on one name alone give different results where that name stands. -/
theorem eq_of_fill_eq (hname : name ∈ names slots)
    (hrest : ∀ other ∈ names slots, other ≠ name → texts other = others other)
    (h : fill texts slots = fill others slots) : texts name = others name := by
  have hlength : (texts name).length = (others name).length := by
    have hcount := length_fill hrest
    rw [h] at hcount
    have hpos : 0 < (names slots).count name := List.count_pos_iff.mpr hname
    exact (Nat.eq_of_mul_eq_mul_left hpos (Nat.add_left_cancel hcount)).symm
  -- texts of one length are told apart where the name stands first
  induction slots with
  | nil => cases hname
  | cons slot rest ih =>
    rw [fill_cons, fill_cons] at h
    by_cases hslot : String.ofList slot.1 = name
    · rw [hslot] at h
      exact (List.append_inj h hlength).1
    · rw [hrest _ List.mem_cons_self hslot] at h
      have hbehind := List.append_cancel_left (List.append_cancel_left h)
      refine ih ?_ (fun other hother => hrest other (List.mem_cons_of_mem _ hother)) hbehind
      exact (List.mem_cons.mp hname).resolve_left (Ne.symm hslot)

theorem toList_valueOf (values : List (String × String)) (name : List Char) :
    (valueOf values (.ofList name)).toList =
      ((values.lookup (.ofList name)).map String.toList).getD (token name) := by
  rw [valueOf]
  cases values.lookup (.ofList name) with
  | none => simp [slot, token, String.toList_append]
  | some value => rfl

theorem filled_eq (values : List (String × String)) (cut : Cut) :
    cut.filled values = cut.first ++ fill (fun name => (valueOf values name).toList) cut.slots := by
  simp only [filled, fill, toList_valueOf]

namespace Cuts

variable {cut : Cut} {template : String}

/-- A placeholder stands in a text where the cut has a slot for it. -/
theorem standsBehind_iff (h : cut.Cuts template.toList) {before : List Char} :
    IsKey name.toList ∧ StandsBehind template name before ↔
      ∃ earlier between later, cut.slots = earlier ++ (name.toList, between) :: later ∧
        before = Cut.text ⟨cut.first, earlier⟩ := by
  constructor
  · rintro ⟨hkey, after, hafter⟩
    obtain ⟨earlier, between, later, hslots, hbefore, -⟩ := h.all before _ after hkey hafter
    exact ⟨earlier, between, later, hslots, hbefore⟩
  · rintro ⟨earlier, between, later, hslots, rfl⟩
    refine ⟨h.keys (name.toList, between) (by simp [hslots]), Cut.text ⟨between, later⟩, ?_⟩
    rw [← h.whole]
    simp [Cut.text, hslots]

theorem mem_names_iff (h : cut.Cuts template.toList) :
    name ∈ names cut.slots ↔ IsKey name.toList ∧ ∃ before, StandsBehind template name before := by
  rw [← exists_and_left]
  simp only [h.standsBehind_iff]
  constructor
  · intro hname
    obtain ⟨slot, hslot, rfl⟩ := List.mem_map.mp hname
    obtain ⟨earlier, later, hslots⟩ := List.mem_iff_append.mp hslot
    exact ⟨_, earlier, slot.2, later, by rwa [String.toList_ofList], rfl⟩
  · rintro ⟨_, earlier, between, later, hslots, -⟩
    exact List.mem_map.mpr ⟨(name.toList, between), by simp [hslots], String.ofList_toList⟩

/-- A name that comes first among the slots stands before the places of the other one. -/
theorem exists_earlier (h : cut.Cuts template.toList) {a b : String}
    (hfirst : (names cut.slots).idxOf a < (names cut.slots).idxOf b) (hkey : IsKey b.toList)
    {before : List Char} (hstands : StandsBehind template b before) :
    ∃ earlier, StandsBehind template a earlier ∧ earlier.length < before.length := by
  obtain ⟨slots, between, later, hslots, rfl⟩ := h.standsBehind_iff.mp ⟨hkey, hstands⟩
  have hnames : names cut.slots = names slots ++ b :: names later := by
    simp [hslots, names]
  have hb : (names cut.slots).idxOf b ≤ (names slots).length := by
    rw [hnames]
    by_cases hb : b ∈ names slots
    · rw [List.idxOf_append_of_mem hb]
      exact List.idxOf_le_length
    · refine Nat.le_of_eq ?_
      rw [List.idxOf_append_of_notMem hb, List.idxOf_cons_self, Nat.add_zero]
  have ha : a ∈ names slots := by
    by_contra hnot
    rw [hnames, List.idxOf_append_of_notMem hnot, ← hnames] at hfirst
    omega
  obtain ⟨slot, hslot, rfl⟩ := List.mem_map.mp ha
  obtain ⟨front, back, rfl⟩ := List.mem_iff_append.mp hslot
  refine ⟨Cut.text ⟨cut.first, front⟩, ?_, ?_⟩
  · refine (h.standsBehind_iff.mpr ⟨front, slot.2, back ++ (b.toList, between) :: later, ?_, rfl⟩).2
    rw [hslots, String.toList_ofList, List.append_assoc]
    rfl
  · simp [Cut.text, token]

end Cuts

end Cut

/-! ## The names of a template -/

theorem placeholders_eq (template : String) :
    placeholders template = addNames [] (Cut.names (Cut.ofPieces (pieces template)).slots) := by
  have hslots : ∀ pieces : List Piece,
      pieces.filterMap (·.name?) = Cut.names (Cut.ofPieces pieces).slots := by
    intro pieces
    induction pieces with
    | nil => rfl
    | cons piece rest ih =>
      cases piece with
      | char c => exact ih
      | placeholder name => exact congrArg (String.ofList name :: ·) ih
  rw [placeholders, hslots]

/-- A template lists exactly the names that its rendering looks up. -/
theorem placeholders_looked_up (template : String) : LooksUp template (placeholders template) := by
  have hcuts := cuts_ofPieces template
  have hmem : ∀ name, name ∈ placeholders template ↔
      name ∈ Cut.names (Cut.ofPieces (pieces template)).slots := by
    simp [placeholders_eq]
  have hrender : ∀ values, (render template values).toList = (Cut.ofPieces (pieces template)).first ++
      Cut.fill (fun name => (valueOf values name).toList) (Cut.ofPieces (pieces template)).slots := by
    intro values
    rw [render, String.toList_ofList, ← Cut.filled_ofPieces, Cut.filled_eq]
  refine ⟨?_, fun name => (hmem name).trans hcuts.mem_names_iff, ?_, ?_, ?_⟩
  · rw [placeholders_eq]
    exact nodup_addNames List.nodup_nil _
  · have hfirst := pairwise_idxOf_addNames (Cut.names (Cut.ofPieces (pieces template)).slots)
    rw [← placeholders_eq] at hfirst
    refine hfirst.imp_of_mem fun {a b} _ hb hlt before hstands => ?_
    exact hcuts.exists_earlier hlt (hcuts.mem_names_iff.mp ((hmem b).mp hb)).1 hstands
  · intro values others hagree
    apply String.toList_injective
    rw [hrender, hrender, Cut.fill_congr fun name hname => ?_]
    rw [hagree name ((hmem name).mpr hname)]
  · intro values others name hname hagree hne heq
    have htexts := congrArg String.toList heq
    rw [hrender, hrender] at htexts
    refine hne (String.toList_injective (Cut.eq_of_fill_eq ((hmem name).mp hname) ?_
      (List.append_cancel_left htexts)))
    intro other hother hdiffer
    rw [hagree other ((hmem other).mpr hother) hdiffer]

end RestModule.Template
