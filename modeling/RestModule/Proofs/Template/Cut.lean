import RestModule.Proofs.Template.Lines

/-!
# Templates cut at their placeholders

A template is cut at its placeholders in one way: into the placeholders, wherever they stand, and the
texts between them. Rendering replaces each placeholder that has a value and nothing else
(`Template.render_cut`). -/

namespace RestModule.Template

/-! ## Cuts -/

/-- A capital letter, a digit or an underscore. -/
def IsKeyChar (c : Char) : Prop :=
  ('A' ≤ c ∧ c ≤ 'Z') ∨ ('0' ≤ c ∧ c ≤ '9') ∨ c = '_'

theorem isNameChar_iff {c : Char} : isNameChar c = true ↔ IsKeyChar c := by
  have hupper : c.isUpper = true ↔ 'A' ≤ c ∧ c ≤ 'Z' := decide_eq_true_iff
  have hdigit : c.isDigit = true ↔ '0' ≤ c ∧ c ≤ '9' :=
    (Bool.and_eq_true _ _).to_iff.trans (and_congr decide_eq_true_iff decide_eq_true_iff)
  rw [isNameChar, Bool.or_eq_true, Bool.or_eq_true, hupper, hdigit, beq_iff_eq, or_assoc]
  rfl

/-- The name of a placeholder. -/
structure IsKey (name : List Char) : Prop where
  nonempty : name ≠ []
  chars : ∀ c ∈ name, IsKeyChar c

/-- The text of a placeholder. -/
def token (name : List Char) : List Char :=
  '$' :: '\x7b' :: (name ++ ['\x7d'])

/-- A text cut at placeholders: what stands before the first of them, and then the name of each with
what stands behind it. -/
structure Cut where
  first : List Char
  slots : List (List Char × List Char)

namespace Cut

/-- The text that has been cut. -/
def text (cut : Cut) : List Char :=
  cut.first ++ cut.slots.flatMap fun slot => token slot.1 ++ slot.2

/-- The text with the values of those placeholders that have one. -/
def filled (values : List (String × String)) (cut : Cut) : List Char :=
  cut.first ++ cut.slots.flatMap fun slot =>
    ((values.lookup (.ofList slot.1)).map String.toList).getD (token slot.1) ++ slot.2

/-- A text is cut at its placeholders, at all of them. -/
structure Cuts (cut : Cut) (source : List Char) : Prop where
  whole : cut.text = source
  keys : ∀ slot ∈ cut.slots, IsKey slot.1
  all : ∀ before name after, IsKey name → source = before ++ token name ++ after →
    ∃ earlier between later, cut.slots = earlier ++ (name, between) :: later ∧
      before = Cut.text ⟨cut.first, earlier⟩ ∧ after = Cut.text ⟨between, later⟩

theorem text_cons (first between name : List Char) (later : List (List Char × List Char)) :
    text ⟨first, (name, between) :: later⟩ = first ++ token name ++ text ⟨between, later⟩ := by
  simp [text, List.append_assoc]

namespace Cuts

variable {cut other : Cut} {source first between name before after : List Char}
  {later : List (List Char × List Char)}

/-- Every placeholder stands behind the first part. -/
theorem length_first_le (h : cut.Cuts source) (hname : IsKey name)
    (hsource : source = before ++ token name ++ after) : cut.first.length ≤ before.length := by
  obtain ⟨earlier, between, later, -, rfl, -⟩ := h.all before name after hname hsource
  simp [Cut.text]

/-- What stands behind the first placeholder is cut too. -/
theorem tail (h : Cuts ⟨first, (name, between) :: later⟩ source) :
    Cuts ⟨between, later⟩ (Cut.text ⟨between, later⟩) := by
  refine ⟨rfl, fun slot hslot => h.keys slot (List.mem_cons_of_mem _ hslot), ?_⟩
  intro before key after hkey hbehind
  have hsource : source = (first ++ token name ++ before) ++ token key ++ after := by
    rw [← h.whole, text_cons, hbehind]
    simp only [List.append_assoc]
  obtain ⟨earlier, behind, rest, hslots, hbefore, hafter⟩ := h.all _ key after hkey hsource
  cases earlier with
  | nil =>
    have hlength := congrArg List.length hbefore
    simp [Cut.text, token] at hlength
  | cons slot more =>
    obtain ⟨rfl, hlater⟩ := List.cons.inj hslots
    refine ⟨more, behind, rest, hlater, ?_, hafter⟩
    rw [text_cons] at hbefore
    exact List.append_cancel_left hbefore

/-- A text is cut at its placeholders in one way. -/
theorem unique (h : cut.Cuts source) (hother : other.Cuts source) : cut = other := by
  obtain ⟨first, slots⟩ := cut
  induction slots generalizing source first other with
  | nil =>
    obtain ⟨otherFirst, otherSlots⟩ := other
    cases otherSlots with
    | nil =>
      have heq := h.whole.trans hother.whole.symm
      simp only [Cut.text, List.flatMap_nil, List.append_nil] at heq
      rw [heq]
    | cons slot later =>
      obtain ⟨name, between⟩ := slot
      obtain ⟨earlier, _, _, hslots, -⟩ := h.all otherFirst name _
        (hother.keys _ List.mem_cons_self) (by rw [← hother.whole, text_cons])
      cases earlier <;> cases hslots
  | cons slot later ih =>
    obtain ⟨name, between⟩ := slot
    obtain ⟨otherFirst, otherSlots⟩ := other
    obtain ⟨earlier, otherBetween, otherLater, hslots, hfirst, hrest⟩ := hother.all first name _
      (h.keys _ List.mem_cons_self) (by rw [← h.whole, text_cons])
    dsimp only at hslots hfirst
    subst hslots
    cases earlier with
    | nil =>
      obtain rfl : first = otherFirst := by simpa [Cut.text] using hfirst
      have htail : Cuts ⟨otherBetween, otherLater⟩ (Cut.text ⟨between, later⟩) := by
        rw [hrest]
        exact hother.tail
      obtain ⟨rfl, rfl⟩ := Cut.mk.inj (ih htail between h.tail)
      rfl
    | cons slot more =>
      -- the slot before would be a placeholder before the first one
      obtain ⟨key, behind⟩ := slot
      have hkey : IsKey key := hother.keys (key, behind) (by simp)
      have hle := h.length_first_le hkey (by rw [← hother.whole, List.cons_append, text_cons])
      have hlength := congrArg List.length hfirst
      rw [text_cons] at hlength
      simp only [List.length_append, token, List.length_cons] at hlength hle
      omega

end Cuts

/-! ## The cut of a template -/

/-- The parts between the placeholders, put together from their characters. -/
def ofPieces : List Piece → Cut
  | [] => ⟨[], []⟩
  | .char c :: rest => ⟨c :: (ofPieces rest).first, (ofPieces rest).slots⟩
  | .placeholder name :: rest => ⟨[], (name, (ofPieces rest).first) :: (ofPieces rest).slots⟩

theorem text_ofPieces (pieces : List Piece) :
    (ofPieces pieces).text = pieces.flatMap (·.source) := by
  induction pieces with
  | nil => rfl
  | cons piece rest ih =>
    rw [List.flatMap_cons, ← ih]
    cases piece <;> simp [ofPieces, text, token, Piece.source]

theorem filled_ofPieces (values : List (String × String)) (pieces : List Piece) :
    (ofPieces pieces).filled values = pieces.flatMap (·.rendered values) := by
  induction pieces with
  | nil => rfl
  | cons piece rest ih =>
    rw [List.flatMap_cons, ← ih]
    cases piece with
    | char c => rfl
    | placeholder name =>
      cases hvalue : values.lookup (.ofList name) <;>
        simp [ofPieces, filled, token, Piece.rendered, Piece.source, hvalue]

theorem placeholder_mem_of_mem_slots {pieces : List Piece} {slot : List Char × List Char}
    (h : slot ∈ (ofPieces pieces).slots) : .placeholder slot.1 ∈ pieces := by
  induction pieces with
  | nil => cases h
  | cons piece rest ih =>
    cases piece with
    | char c => exact List.mem_cons_of_mem _ (ih h)
    | placeholder name =>
      rcases List.mem_cons.mp h with rfl | hrest
      · exact List.mem_cons_self
      · exact List.mem_cons_of_mem _ (ih hrest)

theorem ofPieces_append (earlier later : List Piece) (name : List Char) :
    ofPieces (earlier ++ .placeholder name :: later) =
      ⟨(ofPieces earlier).first,
        (ofPieces earlier).slots ++ (name, (ofPieces later).first) :: (ofPieces later).slots⟩ := by
  induction earlier with
  | nil => rfl
  | cons piece rest ih =>
    rw [List.cons_append]
    cases piece <;> simp [ofPieces, ih]

end Cut

/-- What has been seen of a name is made of the characters of names. -/
def Opening.Keyed : Opening → Prop
  | brace name => ∀ c ∈ name, IsKeyChar c
  | _ => True

def Piece.Keyed : Piece → Prop
  | char _ => True
  | placeholder name => IsKey name

theorem Piece.flatMap_source_char (plain : List Char) :
    (plain.map Piece.char).flatMap (·.source) = plain := by
  induction plain with
  | nil => rfl
  | cons c rest ih => exact congrArg (c :: ·) ih

/-- What one character does, whatever follows: some pieces are done, and what has been begun goes on.
No character is lost. -/
structure Step (opening : Opening) (c : Char) (done : List Piece) (next : Opening) : Prop where
  pieces : ∀ rest, piecesAfter opening (c :: rest) = done ++ piecesAfter next rest
  kept : done.flatMap (·.source) ++ next.text = opening.text ++ [c]
  keyed : opening.Keyed → (∀ piece ∈ done, piece.Keyed) ∧ next.Keyed

/-- What has been begun is given up. -/
theorem Step.of_plain {opening next : Opening} {c : Char} (plain : List Char)
    (hpieces : ∀ rest, piecesAfter opening (c :: rest) =
      (opening.text ++ plain).map .char ++ piecesAfter next rest)
    (hkept : plain ++ next.text = [c]) (hnext : next.Keyed) :
    Step opening c ((opening.text ++ plain).map .char) next where
  pieces := hpieces
  kept := by rw [Piece.flatMap_source_char, List.append_assoc, hkept]
  keyed _ := by
    refine ⟨fun piece hpiece => ?_, hnext⟩
    obtain ⟨d, -, rfl⟩ := List.mem_map.mp hpiece
    trivial

/-- A dollar sign begins a placeholder, whatever has been begun before. -/
theorem piecesAfter_dollar (opening : Opening) (rest : List Char) :
    piecesAfter opening ('$' :: rest) = opening.text.map .char ++ piecesAfter .dollar rest := by
  cases opening with
  | none => rfl
  | dollar => rfl
  | brace name =>
    have hchar : ¬ isNameChar '$' = true := by decide
    simp [piecesAfter, hchar]

theorem exists_step_brace {name : List Char} {c : Char} (hdollar : c ≠ '$') :
    ∃ done next, Step (.brace name) c done next := by
  by_cases hend : (c == '\x7d' && !name.isEmpty) = true
  · obtain ⟨rfl, hne⟩ : c = '\x7d' ∧ name ≠ [] := by simpa using hend
    refine ⟨[.placeholder name], .none, fun rest => ?_, ?_, fun hname => ⟨?_, trivial⟩⟩
    · rw [piecesAfter, if_pos hend]
      rfl
    · simp [Piece.source, Opening.text]
    · simpa [Piece.Keyed] using IsKey.mk hne hname
  by_cases hchar : isNameChar c = true
  · refine ⟨[], .brace (name ++ [c]), fun rest => ?_, by simp [Opening.text],
      fun hname => ⟨by simp, ?_⟩⟩
    · rw [piecesAfter, if_neg hend, if_pos hchar]
      rfl
    · intro d hd
      rcases List.mem_append.mp hd with hd | hd
      · exact hname d hd
      · rw [List.mem_singleton.mp hd]
        exact isNameChar_iff.mp hchar
  · refine ⟨_, .none, Step.of_plain [c] (fun rest => ?_) rfl trivial⟩
    rw [piecesAfter, if_neg hend, if_neg hchar, if_neg (by simpa using hdollar)]
    simp

theorem exists_step (opening : Opening) (c : Char) : ∃ done next, Step opening c done next := by
  by_cases hdollar : c = '$'
  · subst hdollar
    refine ⟨_, .dollar, Step.of_plain [] (fun rest => ?_) rfl trivial⟩
    rw [piecesAfter_dollar, List.append_nil]
  cases opening with
  | none =>
    refine ⟨_, .none, Step.of_plain [c] (fun rest => ?_) rfl trivial⟩
    simp [piecesAfter, hdollar, Opening.text]
  | dollar =>
    by_cases hbrace : c = '\x7b'
    · subst hbrace
      exact ⟨[], .brace [], fun rest => rfl, rfl, fun _ => ⟨by simp, by simp [Opening.Keyed]⟩⟩
    · refine ⟨_, .none, Step.of_plain [c] (fun rest => ?_) rfl trivial⟩
      simp [piecesAfter, hbrace, hdollar, Opening.text]
  | brace name => exact exists_step_brace hdollar

/-- No character of a template is lost. -/
theorem flatMap_source_piecesAfter (opening : Opening) (source : List Char) :
    (piecesAfter opening source).flatMap (·.source) = opening.text ++ source := by
  induction source generalizing opening with
  | nil => rw [piecesAfter, Piece.flatMap_source_char, List.append_nil]
  | cons c rest ih =>
    obtain ⟨done, next, hstep⟩ := exists_step opening c
    rw [hstep.pieces, List.flatMap_append, ih, ← List.append_assoc, hstep.kept]
    simp

theorem keyed_of_mem_piecesAfter {opening : Opening} (hkeyed : opening.Keyed) {source : List Char}
    {piece : Piece} (h : piece ∈ piecesAfter opening source) : piece.Keyed := by
  induction source generalizing opening with
  | nil =>
    rw [piecesAfter] at h
    obtain ⟨c, -, rfl⟩ := List.mem_map.mp h
    trivial
  | cons c rest ih =>
    obtain ⟨done, next, hstep⟩ := exists_step opening c
    obtain ⟨hdone, hnext⟩ := hstep.keyed hkeyed
    rw [hstep.pieces] at h
    rcases List.mem_append.mp h with h | h
    · exact hdone piece h
    · exact ih hnext h

theorem piecesAfter_token {name : List Char} (hname : IsKey name) (opening : Opening)
    (before after : List Char) :
    ∃ earlier, piecesAfter opening (before ++ token name ++ after) =
      earlier ++ .placeholder name :: piecesAfter .none after := by
  induction before generalizing opening with
  | nil =>
    have hchars : ∀ c ∈ name, isNameChar c = true :=
      fun c hc => isNameChar_iff.mpr (hname.chars c hc)
    have hnamed : piecesAfter (.brace []) (name ++ '\x7d' :: after) =
        .placeholder name :: piecesAfter .none after := by
      have hne : [] ++ name ≠ [] := hname.nonempty
      exact piecesAfter_name hchars hne after
    refine ⟨opening.text.map .char, ?_⟩
    have htext : [] ++ token name ++ after = '$' :: '\x7b' :: (name ++ '\x7d' :: after) := by
      simp [token]
    rw [htext, piecesAfter_dollar, piecesAfter, if_pos (by decide), hnamed]
  | cons c rest ih =>
    obtain ⟨done, next, hstep⟩ := exists_step opening c
    obtain ⟨earlier, hearlier⟩ := ih next
    refine ⟨done ++ earlier, ?_⟩
    rw [List.cons_append, List.cons_append, hstep.pieces, hearlier, List.append_assoc]

theorem cuts_ofPieces (template : String) :
    (Cut.ofPieces (pieces template)).Cuts template.toList where
  whole := by rw [Cut.text_ofPieces, pieces, flatMap_source_piecesAfter]; rfl
  keys slot hslot := by
    have hkeyed : Opening.none.Keyed := trivial
    exact keyed_of_mem_piecesAfter hkeyed (Cut.placeholder_mem_of_mem_slots hslot)
  all before name after hname hsource := by
    obtain ⟨earlier, hpieces⟩ := piecesAfter_token hname .none before after
    have hafter : after = Cut.text (Cut.ofPieces (piecesAfter .none after)) := by
      rw [Cut.text_ofPieces, flatMap_source_piecesAfter]
      rfl
    -- what stands before the placeholder is what the earlier pieces are made from
    have hwhole := flatMap_source_piecesAfter .none (before ++ token name ++ after)
    rw [hpieces, List.flatMap_append, List.flatMap_cons, flatMap_source_piecesAfter] at hwhole
    have hbefore : earlier.flatMap (·.source) = before := by
      simpa [Opening.text, Piece.source, token] using hwhole
    rw [pieces, hsource, hpieces, Cut.ofPieces_append]
    exact ⟨_, _, _, rfl, by rw [← hbefore, ← Cut.text_ofPieces], hafter⟩

/-- A template is cut in exactly one way at all its placeholders. It is rendered by replacing each of
those that have a value with it, as it is, and keeping everything else. -/
theorem render_cut (template : String) :
    ∃ cut : Cut, cut.Cuts template.toList ∧ (∀ other : Cut, other.Cuts template.toList → other = cut) ∧
      ∀ values, render template values = .ofList (cut.filled values) := by
  have hcuts := cuts_ofPieces template
  refine ⟨_, hcuts, fun other hother => hother.unique hcuts, fun values => ?_⟩
  rw [Cut.filled_ofPieces, render]

/-- A value is not looked through, also where it and the text around it make a placeholder. -/
example : render "$\x7b$\x7bA\x7d\x7bB\x7d" [("A", "$"), ("B", "x")] = "$\x7b$\x7bB\x7d" := by decide

end RestModule.Template
