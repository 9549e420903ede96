import RestModule.Proofs.Template.Lines

/-!
# The tokens of a source

A source is read as words and marks, with blanks between words. What is written in parts is read part
by part, as long as no word goes on from one part to the next (`Source.tokens_around`). -/

namespace RestModule.Source

/-- The characters that are tokens by themselves. -/
def marks : List Char := ['(', ')', '\x7b', '\x7d', ';', '=', ',']

/-- The characters that end a word: marks, and the blanks between tokens. -/
def breaks : List Char := marks ++ [' ', '\t', '\n']

def isBreak (c : Char) : Bool :=
  breaks.contains c

/-- The token that a break makes. -/
def markToken (c : Char) : List String :=
  if marks.contains c then [.singleton c] else []

/-- The token of a word that has ended. -/
def wordToken (word : List Char) : List String :=
  if word.isEmpty then [] else [.ofList word]

/-- The tokens of a text after the beginning of a word. -/
def tokensAfter (word : List Char) : List Char → List String
  | [] => wordToken word
  | c :: rest =>
    if isBreak c then wordToken word ++ markToken c ++ tokensAfter [] rest
    else tokensAfter (word ++ [c]) rest

/-- The words and marks of a text, in order. -/
def tokens (text : String) : List String :=
  tokensAfter [] text.toList

/-- A text that is read as one word. -/
structure IsWord (text : String) : Prop where
  nonempty : text ≠ ""
  unbroken : text.toList.any isBreak = false

/-- A text begins with a break, so that no word goes on into it. -/
def BeginsApart (text : String) : Prop :=
  text.toList.head?.any isBreak = true

/-- A text ends with a break, so that no word goes on after it. -/
def EndsApart (text : String) : Prop :=
  text.toList.getLast?.any isBreak = true

instance (text : String) : Decidable (BeginsApart text) :=
  inferInstanceAs (Decidable (text.toList.head?.any isBreak = true))

instance (text : String) : Decidable (EndsApart text) :=
  inferInstanceAs (Decidable (text.toList.getLast?.any isBreak = true))

theorem BeginsApart.exists_break {text : String} (h : BeginsApart text) :
    ∃ c rest, text.toList = c :: rest ∧ isBreak c = true := by
  unfold BeginsApart at h
  cases htext : text.toList with
  | nil => simp [htext] at h
  | cons c rest => exact ⟨c, rest, rfl, by simpa [htext] using h⟩

theorem EndsApart.exists_break {text : String} (h : EndsApart text) :
    ∃ before c, text.toList = before ++ [c] ∧ isBreak c = true := by
  unfold EndsApart at h
  rcases List.eq_nil_or_concat text.toList with htext | ⟨before, c, htext⟩
  · simp [htext] at h
  · rw [List.concat_eq_append] at htext
    exact ⟨before, c, htext, by simpa [htext] using h⟩

theorem BeginsApart.append {text : String} (h : BeginsApart text) (rest : String) :
    BeginsApart (text ++ rest) := by
  obtain ⟨c, more, htext, hbreak⟩ := h.exists_break
  simpa [BeginsApart, String.toList_append, htext] using hbreak

/-! ## Parts -/

theorem tokensAfter_break {c : Char} (h : isBreak c = true) (word rest : List Char) :
    tokensAfter word (c :: rest) = wordToken word ++ markToken c ++ tokensAfter [] rest := by
  rw [tokensAfter, if_pos h]

/-- Reading starts anew at a break. -/
theorem tokensAfter_append_break {c : Char} (h : isBreak c = true) (word before rest : List Char) :
    tokensAfter word (before ++ c :: rest) =
      tokensAfter word before ++ tokensAfter [] (c :: rest) := by
  induction before generalizing word with
  | nil =>
    have hempty : wordToken [] = [] := rfl
    rw [List.nil_append, tokensAfter_break h, tokensAfter_break h, hempty, tokensAfter,
      List.nil_append, List.append_assoc]
  | cons first more ih =>
    rw [List.cons_append, tokensAfter, tokensAfter]
    split
    · rw [ih, List.append_assoc _ _ (tokensAfter [] (c :: rest))]
    · exact ih _

theorem tokens_append_of_beginsApart (first : String) {second : String} (h : BeginsApart second) :
    tokens (first ++ second) = tokens first ++ tokens second := by
  obtain ⟨c, rest, hrest, hbreak⟩ := h.exists_break
  rw [tokens, tokens, tokens, String.toList_append, hrest, tokensAfter_append_break hbreak]

theorem tokens_append_of_endsApart {first : String} (h : EndsApart first) (second : String) :
    tokens (first ++ second) = tokens first ++ tokens second := by
  obtain ⟨before, c, hbefore, hbreak⟩ := h.exists_break
  rw [tokens, tokens, tokens, String.toList_append, hbefore, List.append_assoc,
    List.singleton_append, tokensAfter_append_break hbreak, tokensAfter_append_break hbreak,
    tokensAfter_break hbreak, tokensAfter_break hbreak [] []]
  simp [tokensAfter, wordToken]

theorem tokensAfter_word {chars : List Char} (h : chars.any isBreak = false)
    (word : List Char) : tokensAfter word chars = wordToken (word ++ chars) := by
  induction chars generalizing word with
  | nil => rw [List.append_nil, tokensAfter]
  | cons c rest ih =>
    rw [List.any_cons, Bool.or_eq_false_iff] at h
    obtain ⟨hc, hrest⟩ := h
    rw [tokensAfter, hc, if_neg Bool.false_ne_true, ih hrest, List.append_assoc,
      List.singleton_append]

theorem IsWord.tokens_eq {word : String} (h : IsWord word) : tokens word = [word] := by
  have hchars : word.toList.isEmpty = false := by simpa using h.nonempty
  rw [tokens, tokensAfter_word h.unbroken, List.nil_append, wordToken, hchars, String.ofList_toList]
  rfl

/-- A word between two breaks is read as such. -/
theorem tokens_around (before : String) {word after : String} (hword : IsWord word)
    (hafter : BeginsApart after) (hbefore : EndsApart before := by decide) :
    tokens (before ++ (word ++ after)) = tokens before ++ word :: tokens after := by
  rw [tokens_append_of_endsApart hbefore, tokens_append_of_beginsApart word hafter, hword.tokens_eq,
    List.singleton_append]

/-! ## Lines -/

theorem tokens_ofLines (lines : List String) : tokens (Text.ofLines lines) = lines.flatMap tokens := by
  induction lines with
  | nil => rfl
  | cons line rest ih =>
    have hbreak : BeginsApart ("\n" ++ Text.ofLines rest) := .append (by decide) _
    rw [Text.ofLines_cons, String.append_assoc, tokens_append_of_beginsApart _ hbreak,
      tokens_append_of_endsApart (by decide), ih, List.flatMap_cons]
    rfl

/-- Texts with line breaks between them are read one after the other. -/
theorem tokens_intercalate {separator : String} (hbegins : BeginsApart separator)
    (hends : EndsApart separator) (hblank : tokens separator = []) (texts : List String) :
    tokens (String.intercalate separator texts) = texts.flatMap tokens := by
  induction texts with
  | nil => rfl
  | cons text rest ih =>
    cases rest with
    | nil => simp
    | cons next more =>
      rw [String.intercalate_cons_cons, String.append_assoc,
        tokens_append_of_beginsApart _ (hbegins.append _), tokens_append_of_endsApart hends, hblank,
        List.nil_append, ih]
      exact List.flatMap_cons.symm

end RestModule.Source
