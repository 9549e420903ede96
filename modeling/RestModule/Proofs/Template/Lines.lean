import RestModule.Template.Text
import RestModule.Text.Lines

/-!
# Rendering line by line

No placeholder goes over the end of a line. So a template is rendered line by line
(`render_ofLines`), and a line with one placeholder becomes that line with its value in it
(`render_placeholder`). -/

namespace RestModule

namespace Text

theorem ofLines_nil : ofLines [] = "" := rfl

theorem ofLines_cons (line : String) (rest : List String) :
    ofLines (line :: rest) = line ++ "\n" ++ ofLines rest :=
  String.join_cons

theorem ofLines_append (first second : List String) :
    ofLines (first ++ second) = ofLines first ++ ofLines second := by
  rw [ofLines, List.map_append, String.join_append]
  rfl

theorem joinLines_append_newline {lines : List String} (h : lines ≠ []) :
    joinLines lines ++ "\n" = ofLines lines := by
  induction lines with
  | nil => exact absurd rfl h
  | cons line rest ih =>
    cases rest with
    | nil => simp [joinLines, ofLines, String.join]
    | cons next more =>
      rw [ofLines_cons, ← ih (List.cons_ne_nil _ _)]
      simp [joinLines, String.append_assoc]

end Text

namespace Template

/-- A line break ends whatever has been begun. -/
theorem piecesAfter_newline (opening : Opening) (before after : List Char) :
    piecesAfter opening (before ++ '\n' :: after) =
      piecesAfter opening before ++ .char '\n' :: piecesAfter .none after := by
  -- a line break neither begins a placeholder nor goes on with one, whatever has been seen so far
  induction before generalizing opening with
  | nil => cases opening <;> simp [piecesAfter, Opening.text, isNameChar]
  | cons c rest ih =>
    cases opening with
    | none =>
      simp only [List.cons_append, piecesAfter, ih]
      split <;> rfl
    | dollar =>
      simp only [List.cons_append, piecesAfter, ih]
      split
      · rfl
      · split <;> rfl
    | brace name =>
      simp only [List.cons_append, piecesAfter, ih]
      split
      · rfl
      · split
        · rfl
        · split <;> simp

theorem pieces_line (line rest : String) :
    pieces (line ++ "\n" ++ rest) = pieces line ++ .char '\n' :: pieces rest := by
  have hbreak : (line ++ "\n" ++ rest).toList = line.toList ++ '\n' :: rest.toList := by
    simp [String.toList_append]
  rw [pieces, hbreak, piecesAfter_newline]
  rfl

theorem render_line (line rest : String) (values : List (String × String)) :
    render (line ++ "\n" ++ rest) values = render line values ++ "\n" ++ render rest values := by
  have hnewline : Piece.rendered values (.char '\n') = ['\n'] := rfl
  rw [render, pieces_line, List.flatMap_append, List.flatMap_cons, hnewline, String.ofList_append,
    String.ofList_append, ← String.append_assoc]
  rfl

/-- A template is rendered line by line. -/
theorem render_ofLines (lines : List String) (values : List (String × String)) :
    render (Text.ofLines lines) values = Text.ofLines (lines.map (render · values)) := by
  induction lines with
  | nil => rfl
  | cons line rest ih => rw [Text.ofLines_cons, render_line, ih, List.map_cons, Text.ofLines_cons]

/-! ## Lines with a placeholder -/

theorem piecesAfter_plain {plain : List Char} (h : '$' ∉ plain) (rest : List Char) :
    piecesAfter .none (plain ++ rest) = plain.map .char ++ piecesAfter .none rest := by
  induction plain with
  | nil => rfl
  | cons c more ih =>
    rw [List.mem_cons, not_or] at h
    rw [List.cons_append, piecesAfter, if_neg (by simpa using Ne.symm h.1), ih h.2]
    rfl

theorem piecesAfter_name {name key : List Char} (h : ∀ c ∈ key, isNameChar c = true)
    (hne : name ++ key ≠ []) (rest : List Char) :
    piecesAfter (.brace name) (key ++ '\x7d' :: rest) =
      .placeholder (name ++ key) :: piecesAfter .none rest := by
  induction key generalizing name with
  | nil =>
    rw [List.append_nil] at hne ⊢
    rw [List.nil_append, piecesAfter, if_pos]
    simpa using hne
  | cons c more ih =>
    obtain ⟨hc, hmore⟩ := List.forall_mem_cons.mp h
    have hbrace : (c == '\x7d') = false := by
      refine beq_false_of_ne ?_
      rintro rfl
      exact absurd hc (by decide)
    rw [List.cons_append, piecesAfter, hbrace, if_neg (by simp), if_pos hc,
      ih hmore (by simp), List.append_assoc]
    rfl

private theorem flatMap_rendered_char (values : List (String × String)) (plain : List Char) :
    (plain.map Piece.char).flatMap (·.rendered values) = plain := by
  induction plain with
  | nil => rfl
  | cons c rest ih => exact congrArg (c :: ·) ih

theorem render_plain {text : String} (h : '$' ∉ text.toList) (values : List (String × String)) :
    render text values = text := by
  have hpieces := piecesAfter_plain h []
  rw [List.append_nil, piecesAfter, Opening.text, List.map_nil, List.append_nil] at hpieces
  rw [render, pieces, hpieces, flatMap_rendered_char, String.ofList_toList]

/-- The first placeholder of a text is replaced with its value, whatever follows. -/
theorem render_placeholder_append {before key value : String} {values : List (String × String)}
    (hbefore : '$' ∉ before.toList) (hne : key ≠ "") (hkey : key.toList.all isNameChar = true)
    (hvalue : values.lookup key = some value) (rest : String) :
    render (before ++ "$\x7b" ++ key ++ "\x7d" ++ rest) values =
      before ++ value ++ render rest values := by
  have htext : (before ++ "$\x7b" ++ key ++ "\x7d" ++ rest).toList =
      before.toList ++ '$' :: '\x7b' :: (key.toList ++ '\x7d' :: rest.toList) := by
    simp [String.toList_append]
  have hpieces : pieces (before ++ "$\x7b" ++ key ++ "\x7d" ++ rest) =
      before.toList.map .char ++ .placeholder key.toList :: pieces rest := by
    have hopening : ∀ rest : List Char,
        piecesAfter .none ('$' :: '\x7b' :: rest) = piecesAfter (.brace []) rest := fun _ => rfl
    have hname : [] ++ key.toList ≠ [] := by simpa using hne
    rw [pieces, htext, piecesAfter_plain hbefore, hopening,
      piecesAfter_name (List.all_eq_true.mp hkey) hname]
    rfl
  have hrendered : Piece.rendered values (.placeholder key.toList) = value.toList := by
    simp only [Piece.rendered, String.ofList_toList, hvalue]
  rw [render, hpieces, List.flatMap_append, List.flatMap_cons, flatMap_rendered_char, hrendered,
    String.ofList_append, String.ofList_append, String.ofList_toList, String.ofList_toList,
    ← String.append_assoc]
  rfl

/-- A text with one placeholder is rendered to that text with the value in it. -/
theorem render_placeholder {before key after value : String} {values : List (String × String)}
    (hbefore : '$' ∉ before.toList) (hafter : '$' ∉ after.toList) (hne : key ≠ "")
    (hkey : key.toList.all isNameChar = true) (hvalue : values.lookup key = some value) :
    render (before ++ "$\x7b" ++ key ++ "\x7d" ++ after) values = before ++ value ++ after := by
  rw [render_placeholder_append hbefore hne hkey hvalue, render_plain hafter]

/-- The placeholder of a name. -/
def slot (key : String) : String :=
  "$\x7b" ++ key ++ "\x7d"

theorem render_slot_append {key value : String} {values : List (String × String)}
    (hvalue : values.lookup key = some value) (rest : String) (hne : key ≠ "" := by decide)
    (hkey : key.toList.all isNameChar = true := by decide) :
    render (slot key ++ rest) values = value ++ render rest values := by
  have hslot : slot key ++ rest = "" ++ "$\x7b" ++ key ++ "\x7d" ++ rest := by
    rw [slot, String.empty_append]
  rw [hslot, render_placeholder_append (by decide) hne hkey hvalue, String.empty_append]

theorem render_slot {key value : String} {values : List (String × String)}
    (hvalue : values.lookup key = some value) (hne : key ≠ "" := by decide)
    (hkey : key.toList.all isNameChar = true := by decide) : render (slot key) values = value := by
  rw [← String.append_empty (s := slot key), render_slot_append hvalue "" hne hkey,
    render_plain (by decide), String.append_empty]

theorem render_around (before key after : String) {value : String}
    {values : List (String × String)} (hvalue : values.lookup key = some value)
    (hbefore : '$' ∉ before.toList := by decide) (hne : key ≠ "" := by decide)
    (hkey : key.toList.all isNameChar = true := by decide) :
    render (before ++ (slot key ++ after)) values = before ++ (value ++ render after values) := by
  have htext : before ++ (slot key ++ after) = before ++ "$\x7b" ++ key ++ "\x7d" ++ after := by
    simp only [slot, String.append_assoc]
  rw [htext, render_placeholder_append hbefore hne hkey hvalue, String.append_assoc]

end Template

end RestModule
