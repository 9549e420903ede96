import RestModule.Proofs.Template.Lines
import RestModule.Template.Builtin

/-!
# Texts without placeholders

No placeholder begins in a text without a dollar sign. A template becomes such a text where each of its
placeholders has such a value (`Template.isBare_render`). -/

namespace RestModule

namespace Text

/-- A text is bare if no dollar sign stands in it. -/
def IsBare (s : String) : Prop :=
  '$' ∉ s.toList

instance (s : String) : Decidable (IsBare s) :=
  inferInstanceAs (Decidable ('$' ∉ s.toList))

@[simp]
theorem isBare_append {s t : String} : IsBare (s ++ t) ↔ IsBare s ∧ IsBare t := by
  simp [IsBare, String.toList_append]

theorem isBare_intercalate {separator : String} (hseparator : IsBare separator)
    {parts : List String} (h : ∀ part ∈ parts, IsBare part) :
    IsBare (String.intercalate separator parts) := by
  induction parts with
  | nil => exact List.not_mem_nil
  | cons part rest ih =>
    obtain ⟨hpart, hrest⟩ := List.forall_mem_cons.mp h
    cases rest with
    | nil => simpa using hpart
    | cons next more =>
      rw [String.intercalate_cons_cons, isBare_append, isBare_append]
      exact ⟨⟨hpart, hseparator⟩, ih hrest⟩

theorem isBare_joinLines {lines : List String} (h : ∀ line ∈ lines, IsBare line) :
    IsBare (joinLines lines) :=
  isBare_intercalate (by decide) h

theorem isBare_ofLines {lines : List String} (h : ∀ line ∈ lines, IsBare line) :
    IsBare (ofLines lines) := by
  induction lines with
  | nil => exact List.not_mem_nil
  | cons line rest ih =>
    obtain ⟨hline, hrest⟩ := List.forall_mem_cons.mp h
    rw [ofLines_cons, isBare_append, isBare_append]
    exact ⟨⟨hline, by decide⟩, ih hrest⟩

end Text

namespace Template

open Text

/-- Placeholders of some names are all that a dollar sign stands for in a piece. -/
def Piece.isFilledBy (names : List String) : Piece → Bool
  | char c => c != '$'
  | placeholder name => decide (.ofList name ∈ names)

/-- Placeholders of some names are all that dollar signs stand for in a template. -/
def isFilledBy (names : List String) (template : String) : Bool :=
  (pieces template).all (·.isFilledBy names)

theorem isFilledBy_ofLines (names lines : List String) :
    isFilledBy names (ofLines lines) = lines.all (isFilledBy names) := by
  induction lines with
  | nil => rfl
  | cons line rest ih =>
    rw [ofLines_cons, isFilledBy, pieces_line, List.all_append, List.all_cons, List.all_cons, ← ih]
    rfl

theorem isFilledBy_ofList {names : List String} {template : List Char}
    (h : (piecesAfter .none template).all (·.isFilledBy names) = true) :
    isFilledBy names (.ofList template) = true := by
  rw [isFilledBy, pieces, String.toList_ofList, h]

theorem isFilledBy_of_subset {names more : List String} (hsub : names ⊆ more) {template : String}
    (h : isFilledBy names template = true) : isFilledBy more template = true := by
  refine List.all_eq_true.mpr fun piece hpiece => ?_
  have hfilled := List.all_eq_true.mp h piece hpiece
  cases piece with
  | char c => exact hfilled
  | placeholder name => exact decide_eq_true (hsub (of_decide_eq_true hfilled))

theorem isBare_lookup {values : List (String × String)} (h : ∀ entry ∈ values, IsBare entry.2)
    {name : String} (hname : name ∈ values.map (·.1)) :
    ∃ value, values.lookup name = some value ∧ IsBare value := by
  induction values with
  | nil => cases hname
  | cons entry rest ih =>
    obtain ⟨key, value⟩ := entry
    obtain ⟨hvalue, hrest⟩ := List.forall_mem_cons.mp h
    rw [List.lookup_cons]
    cases hkey : name == key with
    | true => exact ⟨value, rfl, hvalue⟩
    | false => exact ih hrest ((List.mem_cons.mp hname).resolve_left (ne_of_beq_false hkey))

/-- A template is rendered into a bare text by bare values for all its placeholders. -/
theorem isBare_render {template : String} {values : List (String × String)}
    (htemplate : isFilledBy (values.map (·.1)) template = true)
    (hvalues : ∀ entry ∈ values, IsBare entry.2) : IsBare (render template values) := by
  rw [IsBare, render, String.toList_ofList, List.mem_flatMap]
  rintro ⟨piece, hpiece, hdollar⟩
  have hfilled := List.all_eq_true.mp htemplate piece hpiece
  cases piece with
  | char c =>
    rw [Piece.isFilledBy, bne_iff_ne] at hfilled
    exact hfilled (List.mem_singleton.mp hdollar).symm
  | placeholder name =>
    obtain ⟨value, hvalue, hbare⟩ := isBare_lookup hvalues (of_decide_eq_true hfilled)
    rw [Piece.rendered, hvalue] at hdollar
    exact hbare hdollar

/-! ### The placeholders of the built-in templates -/

theorem isFilledBy_buildText : isFilledBy [] buildText = true := by
  simp only [buildText, isFilledBy_ofLines, List.all_cons, List.all_nil, Bool.and_eq_true,
    Bool.and_true]
  and_intros <;> exact isFilledBy_ofList (by decide +kernel)

theorem isFilledBy_bundleText :
    isFilledBy ["BUNDLE_NAME", "BUNDLE_SYMBOLIC_NAME", "BUNDLE_VERSION"] bundleText = true := by
  simp only [bundleText, isFilledBy_ofLines, List.all_cons, List.all_nil, Bool.and_eq_true,
    Bool.and_true]
  and_intros <;> exact isFilledBy_ofList (by decide +kernel)

theorem isFilledBy_modelText :
    isFilledBy ["PACKAGE", "AUTHOR", "MODEL_CLASS", "IMPORTS", "METHODS", "VARIABLES"]
      modelText = true := by
  simp only [modelText, isFilledBy_ofLines, List.all_cons, List.all_nil, Bool.and_eq_true,
    Bool.and_true]
  and_intros <;> exact isFilledBy_ofList (by decide +kernel)

theorem isFilledBy_interfaceText : isFilledBy
    ["PACKAGE", "MODEL_IMPORT_STATEMENTS", "CORE_IMPORT_STATEMENTS",
      "MODEL_IMPORT_STATEMENTS_JAVAX", "API_VERSION", "AUTHOR", "PATH",
      "MODEL_RESOURCE_INTERFACE_CLASS", "METHODS"]
    interfaceText = true := by
  simp only [interfaceText, isFilledBy_ofLines, List.all_cons, List.all_nil, Bool.and_eq_true,
    Bool.and_true]
  and_intros <;> exact isFilledBy_ofList (by decide +kernel)

theorem isFilledBy_implementationText : isFilledBy
    ["PACKAGE", "IMPORT_STATEMENTS", "MODEL_IMPORT_STATEMENTS_JAVAX", "API_VERSION", "AUTHOR",
      "APPLICATION_NAME", "PATH", "MODEL_RESOURCE_INTERFACE_CLASS",
      "MODEL_RESOURCE_IMPLEMENTATION_CLASS", "METHODS"]
    implementationText = true := by
  simp only [implementationText, isFilledBy_ofLines, List.all_cons, List.all_nil, Bool.and_eq_true,
    Bool.and_true]
  and_intros <;> exact isFilledBy_ofList (by decide +kernel)

theorem isFilledBy_applicationText : isFilledBy
    ["PACKAGE", "AUTHOR", "APPLICATION_BASE", "APPLICATION_NAME", "BASIC_AUTHENTICATION",
      "APPLICATION_CLASS", "RESOURCES"]
    applicationText = true := by
  simp only [applicationText, isFilledBy_ofLines, List.all_cons, List.all_nil, Bool.and_eq_true,
    Bool.and_true]
  and_intros <;> exact isFilledBy_ofList (by decide +kernel)

end Template

end RestModule
