import RestModule.Proofs.Naming.Camel
import RestModule.Proofs.Naming.Distinct

/-!
# Legal identifiers

A source can declare something under a name if the name is an identifier and no reserved word
(`Naming.IsLegal`). The names that are made from what a description calls things are legal, whatever
that is: no digit comes first, and what stands before or after a word keeps it apart from the
reserved ones. -/

namespace RestModule.Naming

open Text

/-- A text whose first character may begin an identifier. -/
def HasStart (s : String) : Prop :=
  ∃ first rest, s.toList = first :: rest ∧ isIdentifierStart first = true

/-- A name that a source can declare something under. -/
structure IsLegal (name : String) : Prop where
  start : HasStart name
  parts : IsName name
  free : name ∉ reserved

/-! ## First characters -/

theorem HasStart.append {s : String} (h : HasStart s) (t : String) : HasStart (s ++ t) := by
  obtain ⟨first, rest, hs, hfirst⟩ := h
  exact ⟨first, rest ++ t.toList, by rw [String.toList_append, hs, List.cons_append], hfirst⟩

theorem isIdentifier_iff {s : String} :
    isIdentifier s = true ↔ HasStart s ∧ IsName s := by
  constructor
  · intro h
    refine ⟨?_, (IsName.of_isIdentifier h).1⟩
    unfold isIdentifier at h
    split at h
    · cases h
    · next first rest hs => exact ⟨first, rest, hs, (Bool.and_eq_true_iff.mp h).1⟩
  · rintro ⟨⟨first, rest, hs, hfirst⟩, hparts⟩
    rw [IsName, hs, List.forall_mem_cons] at hparts
    rw [isIdentifier, hs]
    exact Bool.and_eq_true_iff.mpr ⟨hfirst, List.all_eq_true.mpr hparts.2⟩

private theorem start_of_code : ∀ n : Fin 128, isIdentifierStart (.ofNat n) = true →
    (upperChar (.ofNat n)).head?.any isIdentifierStart = true ∧
      (lowerChar (.ofNat n)).head?.any isIdentifierStart = true := by
  decide

/-- In another case, a character that may begin an identifier still may. -/
private theorem start_of_case {c : Char} (h : isIdentifierStart c = true) :
    (∃ d more, upperChar c = d :: more ∧ isIdentifierStart d = true) ∧
      ∃ d more, lowerChar c = d :: more ∧ isIdentifierStart d = true := by
  obtain ⟨code, rfl⟩ := exists_code (isIdentifierPart_of_start h)
  obtain ⟨hupper, hlower⟩ := start_of_code code h
  have hcons : ∀ cs : List Char, cs.head?.any isIdentifierStart = true →
      ∃ d more, cs = d :: more ∧ isIdentifierStart d = true := by
    intro cs hcs
    cases cs with
    | nil => cases hcs
    | cons d more => exact ⟨d, more, rfl, hcs⟩
  exact ⟨hcons _ hupper, hcons _ hlower⟩

theorem HasStart.capitalize {s : String} (h : HasStart s) : HasStart (capitalize s) := by
  obtain ⟨first, rest, hs, hfirst⟩ := h
  obtain ⟨d, more, hupper, hd⟩ := (start_of_case hfirst).1
  refine ⟨d, more ++ rest, ?_, hd⟩
  rw [Naming.capitalize, String.toList_ofList, hs, upperFirst, hupper, List.cons_append]

theorem HasStart.decapitalize {s : String} (h : HasStart s) : HasStart (decapitalize s) := by
  obtain ⟨first, rest, hs, hfirst⟩ := h
  obtain ⟨d, more, hlower, hd⟩ := (start_of_case hfirst).2
  refine ⟨d, more ++ rest, ?_, hd⟩
  rw [Naming.decapitalize, String.toList_ofList, hs, lowerFirst, hlower, List.cons_append]

theorem IsName.decapitalize {s : String} (h : IsName s) : IsName (decapitalize s) := by
  intro c hc
  rw [Naming.decapitalize, String.toList_ofList] at hc
  exact isKind_part.lowerFirst h c hc

/-- Camel case that leaves something of a text does not begin it with a digit. -/
theorem camelCase_hasStart {s : String} (h : camelCase s ≠ "") : HasStart (camelCase s) := by
  obtain ⟨first, rest, hs, hfirst⟩ := camelCase_beginsLow h
  exact ⟨first, rest, hs, isIdentifierStart_of_low hfirst⟩

theorem identifierBase_hasStart (name : String) : HasStart (identifierBase name) := by
  unfold identifierBase
  split
  · next h => exact (isIdentifier_iff.mp h).1
  · change HasStart (if (camelCase name).isEmpty then "value" else camelCase name)
    split
    · exact ⟨'v', "alue".toList, rfl, rfl⟩
    · next h => exact camelCase_hasStart (by simpa using h)

/-! ## Reserved words -/

/-- A beginning that no reserved word has keeps every name apart from them. -/
theorem free_of_lead {lead : String} (h : ∀ word ∈ reserved, ¬ lead.toList <+: word.toList)
    (rest : String) : lead ++ rest ∉ reserved := by
  intro hmem
  exact h _ hmem (by simp [String.toList_append])

theorem free_of_upper {s : String} {c : Char} (hmem : c ∈ s.toList) (hc : c.isUpper = true) :
    s ∉ reserved := by
  have hlower : ∀ word ∈ reserved, word.toList.any Char.isUpper = false := by decide
  have hany : s.toList.any Char.isUpper = true := List.any_eq_true.mpr ⟨c, hmem, hc⟩
  intro hreserved
  exact Bool.false_ne_true ((hlower s hreserved).symm.trans hany)

theorem free_of_underscore {s : String} (hmem : '_' ∈ s.toList) (hlong : 1 < s.toList.length) :
    s ∉ reserved := by
  have hplain : ∀ word ∈ reserved, '_' ∈ word.toList → word.toList.length ≤ 1 := by decide
  intro hreserved
  exact absurd (hplain s hreserved hmem) (Nat.not_le_of_lt hlong)

/-! ## Legal names -/

theorem HasStart.length_pos {s : String} (h : HasStart s) : 0 < s.toList.length := by
  obtain ⟨first, rest, hs, -⟩ := h
  rw [hs]
  exact Nat.zero_lt_succ _

/-- An underscore in front of an identifier makes a legal name. -/
theorem IsLegal.underscored {s : String} (hstart : HasStart s) (hname : IsName s) :
    IsLegal ("_" ++ s) where
  start := ⟨'_', s.toList, String.toList_append, rfl⟩
  parts := IsName.append (by decide) hname
  free := by
    have hpos := hstart.length_pos
    have hlist : ("_" ++ s).toList = '_' :: s.toList := String.toList_append
    apply free_of_underscore <;> rw [hlist]
    · exact List.mem_cons_self
    · exact Nat.succ_lt_succ hpos

/-- What a beginning that no reserved word has makes of identifier characters is legal. -/
theorem IsLegal.of_lead {lead rest : String} (hstart : HasStart lead) (hlead : IsName lead)
    (hfree : ∀ word ∈ reserved, ¬ lead.toList <+: word.toList) (hrest : IsName rest) :
    IsLegal (lead ++ rest) :=
  ⟨hstart.append rest, hlead.append hrest, free_of_lead hfree rest⟩

/-- An ending with a capital letter makes a legal name of an identifier. -/
theorem IsLegal.of_ending {s ending : String} (hstart : HasStart s) (hname : IsName s)
    (hending : IsName ending) (hupper : ∃ c ∈ ending.toList, c.isUpper = true) :
    IsLegal (s ++ ending) where
  start := hstart.append ending
  parts := hname.append hending
  free := by
    obtain ⟨c, hmem, hc⟩ := hupper
    refine free_of_upper ?_ hc
    rw [String.toList_append]
    exact List.mem_append_right _ hmem

theorem identifier_isLegal (name : String) : IsLegal (identifier name) := by
  have hstart := identifierBase_hasStart name
  have hname := identifierBase_isName name
  change IsLegal (if identifierBase name ∈ reserved then "_" ++ identifierBase name
    else identifierBase name)
  split
  · exact .underscored hstart hname
  · next hfree => exact ⟨hstart, hname, hfree⟩

/-- A legal name is its own identifier. -/
theorem IsLegal.identifier_eq {name : String} (h : IsLegal name) : identifier name = name := by
  have hbase : identifierBase name = name := if_pos (isIdentifier_iff.mpr ⟨h.start, h.parts⟩)
  change (if identifierBase name ∈ reserved then "_" ++ identifierBase name
    else identifierBase name) = name
  rw [hbase, if_neg h.free]

theorem modelClass_isLegal (component : String) : IsLegal (modelClass component) :=
  .of_ending (identifierBase_hasStart component).capitalize
    (identifierBase_isName component).capitalize (by decide) ⟨'D', by decide, by decide⟩

theorem interfaceClass_isLegal {resource : String} (hstart : HasStart resource)
    (hname : IsName resource) : IsLegal (interfaceClass resource) :=
  .of_ending hstart.capitalize hname.capitalize (by decide) ⟨'R', by decide, by decide⟩

theorem implementationClass_isLegal {resource : String} (hstart : HasStart resource)
    (hname : IsName resource) : IsLegal (implementationClass resource) :=
  .of_ending hstart.capitalize hname.capitalize (by decide) ⟨'R', by decide, by decide⟩

/-! ## Variants -/

theorem repr_isName (n : Nat) : IsName (Nat.repr n) := by
  intro c hc
  rw [Nat.toList_repr] at hc
  have hdigit : c.isDigit = true := Nat.isDigit_of_mem_toDigits (by decide) (by decide) hc
  simp [isIdentifierPart, Char.isAlphanum, hdigit]

theorem IsLegal.variant {name : String} (h : IsLegal name) (k : Nat) : IsLegal (variant name k) := by
  cases k with
  | zero => exact h
  | succ k =>
    refine ⟨(h.start.append "_").append _, (h.parts.append (by decide)).append (repr_isName _), ?_⟩
    have hpos := h.start.length_pos
    apply free_of_underscore <;>
      simp only [Naming.variant, String.toList_append, List.mem_append, List.length_append]
    · exact .inl (.inr (by decide))
    · have hmark : "_".toList.length = 1 := rfl
      omega

theorem distinctBy_isLegal {key : String → String} {taken names : List String}
    (h : ∀ name ∈ names, IsLegal name) : ∀ chosen ∈ distinctBy key taken names, IsLegal chosen :=
  forall_mem_distinctBy (fun _ k hname => hname.variant k) h

end RestModule.Naming
