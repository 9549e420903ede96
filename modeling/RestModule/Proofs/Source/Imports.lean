import RestModule.Proofs.FilePath.Parts
import RestModule.Proofs.Naming
import RestModule.Proofs.Template.Lines
import RestModule.Source.Import

/-!
# The import lines of a source

A source imports classes in lines before its first documentation comment (`Source.importLines`). Each
of these lines ends with the simple name of its class (`Source.simpleName`). -/

namespace RestModule

open Text (splitAt after?)

theorem Text.splitAt_ofLines_append {header : List String}
    (h : ∀ line ∈ header, '\n' ∉ line.toList) (rest : List String) :
    splitAt '\n' (ofLines (header ++ rest)) = header ++ splitAt '\n' (ofLines rest) := by
  induction header with
  | nil => rfl
  | cons line more ih =>
    obtain ⟨hline, hmore⟩ := List.forall_mem_cons.mp h
    have hbreak : (ofLines (line :: (more ++ rest))).toList =
        line.toList ++ '\n' :: (ofLines (more ++ rest)).toList := by
      rw [ofLines_cons, String.toList_append, String.toList_append, List.append_assoc]
      rfl
    rw [List.cons_append, splitAt_append hbreak, String.ofList_toList, String.ofList_toList,
      splitAt_of_not_mem hline, ih hmore]
    rfl

namespace Source

/-- The line with which a documentation comment begins. -/
def commentLine : String := "/**"

/-- Whether a line imports a class. -/
def isImport (line : String) : Bool :=
  (after? "import " line).isSome

/-- The lines of a source that import classes, in order. -/
def importLines (text : String) : List String :=
  ((splitAt '\n' text).takeWhile (· != commentLine)).filter isImport

/-- The simple name of the class that a line imports: what follows the last dot, without the
semicolon. -/
def simpleName (line : String) : String :=
  .ofList (((splitAt '.' line).getLast?.getD "").toList.takeWhile (· != ';'))

/-- The import lines are those among the lines before the first documentation comment. -/
theorem importLines_ofLines {header : List String}
    (h : ∀ line ∈ header, '\n' ∉ line.toList ∧ line ≠ commentLine) (rest : List String) :
    importLines (Text.ofLines (header ++ commentLine :: rest)) = header.filter isImport := by
  have hline : ∀ line ∈ [commentLine], '\n' ∉ line.toList := by decide
  have hcomment : splitAt '\n' (Text.ofLines (commentLine :: rest)) =
      commentLine :: splitAt '\n' (Text.ofLines rest) := Text.splitAt_ofLines_append hline rest
  -- so that reading stops where the header ends
  have hother : ∀ line ∈ header, (line != commentLine) = true :=
    fun line hline => bne_iff_ne.mpr (h line hline).2
  rw [importLines, Text.splitAt_ofLines_append (fun line hline => (h line hline).1), hcomment,
    List.takeWhile_append_of_pos hother, List.takeWhile_cons_of_neg (by simp), List.append_nil]

end Source

/-! ## Lines of imports -/

namespace Import

/-- An import that fits on a line, of a class with a plain name. -/
structure IsPlain (i : Import) : Prop where
  package : '\n' ∉ i.package.toList
  name : Naming.IsName i.name

instance (i : Import) : Decidable i.IsPlain :=
  decidable_of_iff ('\n' ∉ i.package.toList ∧ Naming.IsName i.name)
    ⟨fun h => ⟨h.1, h.2⟩, fun h => ⟨h.package, h.name⟩⟩

theorem toList_line (i : Import) :
    i.line.toList = ("import ".toList ++ i.package.toList) ++ '.' :: (i.name.toList ++ [';']) := by
  simp [line, qualified, String.toList_append]

theorem isImport_line (i : Import) : Source.isImport i.line = true := by
  rw [line, String.append_assoc, Source.isImport, Text.after?_append]
  rfl

theorem line_ne_commentLine (i : Import) : i.line ≠ Source.commentLine := by
  intro h
  have himport := i.isImport_line
  rw [h] at himport
  exact absurd himport (by decide)

theorem IsPlain.newline_not_mem {i : Import} (h : i.IsPlain) : '\n' ∉ i.line.toList := by
  have hname : '\n' ∉ i.name.toList := h.name.not_mem (by decide)
  simp [toList_line, h.package, hname]

/-- The line of an import ends with the simple name of its class. -/
theorem IsPlain.simpleName_line {i : Import} (h : i.IsPlain) :
    Source.simpleName i.line = i.name := by
  have hdot : '.' ∉ (i.name ++ ";").toList := by
    rw [String.toList_append, List.mem_append, not_or]
    exact ⟨h.name.not_mem (by decide), by decide⟩
  have hname : ∀ c ∈ i.name.toList, (c != ';') = true := by
    intro c hc
    refine bne_iff_ne.mpr ?_
    rintro rfl
    exact h.name.not_mem (by decide) hc
  have hlast : String.ofList (i.name.toList ++ [';']) = i.name ++ ";" := by
    rw [String.ofList_append, String.ofList_toList]
  rw [Source.simpleName, Text.splitAt_append i.toList_line, hlast, Text.splitAt_of_not_mem hdot,
    List.getLast?_concat, Option.getD_some, String.toList_append,
    List.takeWhile_append_of_pos hname]
  simp

theorem map_simpleName_lines {imports : List Import} (h : ∀ i ∈ imports, i.IsPlain) :
    (imports.map line).map Source.simpleName = imports.map (·.name) := by
  rw [List.map_map]
  exact List.map_congr_left fun i hi => (h i hi).simpleName_line

end Import

namespace Source

/-- The header of a source: import lines, and lines that import nothing. -/
structure Holds (header : List String) (imports : List Import) : Prop where
  lines : ∀ line ∈ header, '\n' ∉ line.toList ∧ line ≠ commentLine
  kept : header.filter isImport = imports.map Import.line
  plain : ∀ i ∈ imports, i.IsPlain

theorem Holds.of_imports {imports : List Import} (h : ∀ i ∈ imports, i.IsPlain) :
    Holds (imports.map Import.line) imports where
  lines := by
    intro line hline
    obtain ⟨i, hi, rfl⟩ := List.mem_map.mp hline
    exact ⟨(h i hi).newline_not_mem, i.line_ne_commentLine⟩
  kept := by
    refine List.filter_eq_self.mpr fun line hline => ?_
    obtain ⟨i, -, rfl⟩ := List.mem_map.mp hline
    exact i.isImport_line
  plain := h

theorem Holds.of_import {i : Import} (h : i.IsPlain) : Holds ([i].map Import.line) [i] :=
  .of_imports fun _ hj => List.mem_singleton.mp hj ▸ h

theorem Holds.append {first second : List String} {imports more : List Import}
    (hfirst : Holds first imports) (hsecond : Holds second more) :
    Holds (first ++ second) (imports ++ more) where
  lines := List.forall_mem_append.mpr ⟨hfirst.lines, hsecond.lines⟩
  kept := by rw [List.filter_append, hfirst.kept, hsecond.kept, List.map_append]
  plain := List.forall_mem_append.mpr ⟨hfirst.plain, hsecond.plain⟩

theorem Holds.nil : Holds [] [] := ⟨by simp, rfl, by simp⟩

theorem Holds.of_condition {lines : List String} {imports : List Import} (h : Holds lines imports)
    (p : Prop) [Decidable p] : Holds (if p then lines else []) (if p then imports else []) := by
  split
  · exact h
  · exact .nil

theorem Holds.empty : Holds [""] [] := ⟨by decide, by decide, by simp⟩

theorem Holds.package {name : String} (h : '\n' ∉ name.toList) :
    Holds ["package " ++ name ++ ";"] [] where
  lines := by
    intro line hline
    rw [List.mem_singleton.mp hline]
    refine ⟨by simp [String.toList_append, h], fun heq => ?_⟩
    have hhead := congrArg (·.toList.head?) heq
    simp [String.toList_append, commentLine] at hhead
  kept := by
    have hother : isImport ("package " ++ name ++ ";") = false := by
      simp [isImport, after?, String.toList_append, List.isPrefixOf?]
    rw [List.filter_cons_of_neg (by rw [hother]; exact Bool.false_ne_true), List.filter_nil]
    rfl
  plain := by simp

theorem Holds.importLines_eq {header : List String} {imports : List Import}
    (h : Holds header imports) (rest : List String) :
    importLines (Text.ofLines (header ++ commentLine :: rest)) = imports.map Import.line := by
  rw [importLines_ofLines h.lines, h.kept]

end Source

end RestModule
