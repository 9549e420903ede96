import RestModule.Proofs.Naming.Legal

/-!
# Names that stay as they are

Camel case keeps a text that has its form, and an identifier is made of a legal name by keeping it. Both
make nothing else, so making a name again changes nothing (`Naming.names_stable`). -/

namespace RestModule.Naming

open Text

/-! ## Camel case -/

private theorem alphanum_of_first {c : Char} (h : (c.isLower || c.isDigit) = true) :
    c.isAlphanum = true := by
  have hkinds : c.isAlphanum = (c.isUpper || c.isLower || c.isDigit) := rfl
  rw [hkinds, Bool.or_assoc]
  exact Bool.or_eq_true_iff.mpr (.inr h)

private theorem kept_of_code : ∀ n : Fin 128,
    ((Char.ofNat n).isLower || (Char.ofNat n).isDigit) = true →
      lowerChar (.ofNat n) = [.ofNat n] := by
  decide

private theorem not_digit_of_code : ∀ n : Fin 128, (Char.ofNat n).isLower = true →
    (Char.ofNat n).isDigit = false := by
  decide

theorem words_of_alphanum {word : List Char} (hne : word ≠ [])
    (h : ∀ c ∈ word, c.isAlphanum = true) : words word = [word] := by
  have hpieces : pieces (!isAsciiAlphanum ·) word = [word] := by
    rw [pieces_eq_splitOnP]
    exact List.splitOnP_eq_singleton fun c hc => by simp [isAsciiAlphanum, h c hc]
  rw [words, hpieces, List.filter_cons_of_pos (by simpa using hne), List.filter_nil]

theorem camelCase_of_words {s : String} {word : List Char} (h : words s.toList = [word]) :
    camelCase s = .ofList (guardDigit (lowerFirst word)) := by
  simp only [camelCase, h, List.flatMap_nil, List.append_nil]

/-- A word that begins with a lower-case letter or a digit stays as it is, up to an underscore. -/
private theorem camelCase_of_word {s : String} {first : Char} {rest : List Char}
    (h : words s.toList = words (first :: rest))
    (hfirst : (first.isLower || first.isDigit) = true)
    (hrest : ∀ c ∈ rest, c.isAlphanum = true) :
    camelCase s = .ofList (guardDigit (first :: rest)) := by
  have halphanum := alphanum_of_first hfirst
  obtain ⟨code, rfl⟩ := exists_code (isKind_part.alphanum first halphanum)
  rw [words_of_alphanum (List.cons_ne_nil _ _) (List.forall_mem_cons.mpr ⟨halphanum, hrest⟩)] at h
  rw [camelCase_of_words h, lowerFirst, kept_of_code code hfirst, List.singleton_append]

private theorem guardDigit_of_lower {first : Char} (h : first.isLower = true) (rest : List Char) :
    guardDigit (first :: rest) = first :: rest := by
  have halphanum := alphanum_of_first (c := first) (by rw [h, Bool.true_or])
  obtain ⟨code, rfl⟩ := exists_code (isKind_part.alphanum first halphanum)
  rw [guardDigit, not_digit_of_code code h, if_neg Bool.false_ne_true]

/-- Camel case keeps what has its form. -/
theorem IsCamel.camelCase_eq {s : String} (h : IsCamel s) : camelCase s = s := by
  apply String.toList_injective
  cases h with
  | lower h =>
    obtain ⟨first, rest, hs, hfirst, hrest⟩ := h
    rw [camelCase_of_word (by rw [hs]) (by rw [hfirst, Bool.true_or]) hrest, String.toList_ofList,
      guardDigit_of_lower hfirst, hs]
  | @digit first rest hs hfirst hrest =>
    have hwords : words s.toList = words (first :: rest) := by
      rw [hs]
      exact words_append_cons (s := []) rfl
    rw [camelCase_of_word hwords (by rw [hfirst, Bool.or_true]) hrest, String.toList_ofList,
      guardDigit, if_pos hfirst, hs]

/-- Camel case keeps the texts of its form, and no others but the empty one. -/
theorem camelCase_eq_self_iff {s : String} : camelCase s = s ↔ s = "" ∨ IsCamel s := by
  constructor
  · intro h
    refine or_iff_not_imp_left.mpr fun hne => ?_
    rw [← h] at hne ⊢
    exact camelCase_isCamel hne
  · rintro (rfl | h)
    · rfl
    · exact h.camelCase_eq

theorem camelCase_camelCase (s : String) : camelCase (camelCase s) = camelCase s :=
  camelCase_eq_self_iff.mpr (or_iff_not_imp_left.mpr camelCase_isCamel)

/-! ## Identifiers -/

/-- The legal names are the ones that are their own identifiers. -/
theorem identifier_eq_self_iff {name : String} : identifier name = name ↔ IsLegal name :=
  ⟨fun h => h ▸ identifier_isLegal name, IsLegal.identifier_eq⟩

theorem identifier_identifier (name : String) : identifier (identifier name) = identifier name :=
  identifier_eq_self_iff.mpr (identifier_isLegal name)

/-! ## Names -/

/-- Camel case leaves nothing of a text only where it has no ASCII letter or digit, and what it leaves
of others has its form. Camel case and identifiers stay as they are when they are made again. -/
theorem names_stable (s : String) :
    (camelCase s = "" ↔ ∀ c ∈ s.toList, c.isAlphanum = false) ∧
      (camelCase s ≠ "" → IsCamel (camelCase s)) ∧
      camelCase (camelCase s) = camelCase s ∧
      (IsLowerWord s → camelCase s = s) ∧
      identifier (identifier s) = identifier s :=
  ⟨camelCase_eq_empty_iff, camelCase_isCamel, camelCase_camelCase s,
    fun h => (IsCamel.lower h).camelCase_eq, identifier_identifier s⟩

/-- A digit in front, capital letters in between, and a word that is reserved in camel case. -/
theorem names_stable_awkward :
    (camelCase "2FA-codes" ≠ "" ∧ IsCamel (camelCase "2FA-codes")) ∧
      (IsLowerWord "pageSIZE2" ∧ camelCase "pageSIZE2" = "pageSIZE2") ∧
      identifier (identifier "Class!") = identifier "Class!" ∧ identifier "Class!" = "_class" := by
  have hne : camelCase "2FA-codes" ≠ "" := by decide
  have hword : IsLowerWord "pageSIZE2" := by decide
  refine ⟨⟨hne, (names_stable "2FA-codes").2.1 hne⟩,
    ⟨hword, (names_stable "pageSIZE2").2.2.2.1 hword⟩, (names_stable "Class!").2.2.2.2, ?_⟩
  decide

end RestModule.Naming
