import RestModule.Naming
import RestModule.Proofs.FilePath
import Mathlib.Data.List.DropRight

/-!
# The characters of names

Whatever the description calls things, the classes generated for them have names made of identifier
characters (`Naming.IsName`). So each of these names is one component of a path, and one word of a
source. -/

namespace RestModule.Naming

open Text

/-- A text made of identifier characters. -/
def IsName (s : String) : Prop :=
  ∀ c ∈ s.toList, isIdentifierPart c = true

instance (s : String) : Decidable (IsName s) :=
  decidable_of_iff (s.toList.all isIdentifierPart = true) List.all_eq_true

theorem IsName.append {s t : String} (hs : IsName s) (ht : IsName t) : IsName (s ++ t) := by
  intro c hc
  rw [String.toList_append] at hc
  rcases List.mem_append.mp hc with hc | hc
  · exact hs c hc
  · exact ht c hc

theorem IsName.not_mem {s : String} {c : Char} (h : IsName s) (hc : isIdentifierPart c = false) :
    c ∉ s.toList := by
  intro hmem
  exact Bool.false_ne_true (hc.symm.trans (h c hmem))

theorem IsName.isOrdinary {s : String} (h : IsName s) (hne : s ≠ "") : FilePath.IsOrdinary s := by
  refine ⟨h.not_mem (by decide), ?_⟩
  have hdot : s ≠ "." := by
    rintro rfl
    exact absurd (h '.' (by decide)) (by decide)
  simp [FilePath.isIdle, hne, hdot]

theorem isIdentifierPart_of_start {c : Char} (h : isIdentifierStart c = true) :
    isIdentifierPart c = true := by
  simp only [isIdentifierStart, isIdentifierPart, Char.isAlphanum, Bool.or_eq_true] at h ⊢
  rcases h with (halpha | hunderscore) | hdollar
  · exact .inl (.inl (.inl halpha))
  · exact .inl (.inr hunderscore)
  · exact .inr hdollar

/-! ## Words -/

/-- A word is not empty and has nothing but ASCII letters and digits. -/
theorem alphanum_of_mem_words {s word : List Char} (h : word ∈ words s) :
    word ≠ [] ∧ ∀ c ∈ word, c.isAlphanum = true := by
  obtain ⟨hpiece, hne⟩ := List.mem_filter.mp h
  refine ⟨by simpa using hne, fun c hc => ?_⟩
  simpa [isAsciiAlphanum] using of_mem_pieces hpiece hc

/-! ## Characters in another case -/

theorem toNat_lt_of_isIdentifierPart {c : Char} (h : isIdentifierPart c = true) :
    c.toNat < 128 := by
  have hranges : ((((decide ('A'.val ≤ c.val ∧ c.val ≤ 'Z'.val) ||
      ('a'.val ≤ c.val && c.val ≤ 'z'.val)) || ('0'.val ≤ c.val && c.val ≤ '9'.val)) ||
        c == '_') || c == '$') = true := h
  simp only [Bool.or_eq_true, Bool.and_eq_true, decide_eq_true_eq, beq_iff_eq,
    UInt32.le_iff_toNat_le] at hranges
  rcases hranges with (((h | h) | h) | rfl) | rfl
  · exact Nat.lt_of_le_of_lt h.2 (by decide)
  · exact Nat.lt_of_le_of_lt h.2 (by decide)
  · exact Nat.lt_of_le_of_lt h.2 (by decide)
  · decide
  · decide

/-- Identifier characters are few enough to look at each. -/
theorem exists_code {c : Char} (h : isIdentifierPart c = true) : ∃ n : Fin 128, Char.ofNat n = c :=
  ⟨⟨c.toNat, toNat_lt_of_isIdentifierPart h⟩, Char.ofNat_toNat c⟩

/-- A kind of identifier characters that letters, digits and the underscore are of, and that characters
keep in another case. -/
structure IsKind (p : Char → Bool) : Prop where
  part : ∀ c, p c = true → isIdentifierPart c = true
  alphanum : ∀ c, c.isAlphanum = true → p c = true
  underscore : p '_' = true
  upper : ∀ n : Fin 128, p (.ofNat n) = true → (upperChar (.ofNat n)).all p = true
  lower : ∀ n : Fin 128, p (.ofNat n) = true → (lowerChar (.ofNat n)).all p = true

theorem isKind_part : IsKind isIdentifierPart where
  part _ h := h
  alphanum c h := by rw [isIdentifierPart, h]; rfl
  underscore := rfl
  upper := by decide
  lower := by decide

namespace IsKind

variable {p : Char → Bool}

theorem upperFirst (hp : IsKind p) {s : List Char} (h : ∀ c ∈ s, p c = true) :
    ∀ c ∈ upperFirst s, p c = true := by
  cases s with
  | nil => exact h
  | cons first rest =>
    obtain ⟨hfirst, hrest⟩ := List.forall_mem_cons.mp h
    obtain ⟨code, rfl⟩ := exists_code (hp.part first hfirst)
    exact List.forall_mem_append.mpr ⟨List.all_eq_true.mp (hp.upper code hfirst), hrest⟩

theorem lowerFirst (hp : IsKind p) {s : List Char} (h : ∀ c ∈ s, p c = true) :
    ∀ c ∈ lowerFirst s, p c = true := by
  cases s with
  | nil => exact h
  | cons first rest =>
    obtain ⟨hfirst, hrest⟩ := List.forall_mem_cons.mp h
    obtain ⟨code, rfl⟩ := exists_code (hp.part first hfirst)
    exact List.forall_mem_append.mpr ⟨List.all_eq_true.mp (hp.lower code hfirst), hrest⟩

theorem guardDigit (hp : IsKind p) {s : List Char} (h : ∀ c ∈ s, p c = true) :
    ∀ c ∈ guardDigit s, p c = true := by
  cases s with
  | nil => exact h
  | cons first rest =>
    rw [Naming.guardDigit]
    cases first.isDigit with
    | true => exact List.forall_mem_cons.mpr ⟨hp.underscore, h⟩
    | false => exact h

theorem of_mem_words (hp : IsKind p) {s word : List Char} (h : word ∈ words s) :
    ∀ c ∈ word, p c = true :=
  fun c hc => hp.alphanum c ((alphanum_of_mem_words h).2 c hc)

theorem camelCase (hp : IsKind p) (s : String) : ∀ c ∈ (camelCase s).toList, p c = true := by
  unfold Naming.camelCase
  split
  · exact fun c hc => nomatch hc
  · next first rest heq =>
    have hwords : ∀ word ∈ first :: rest, ∀ c ∈ word, p c = true :=
      fun word hword => hp.of_mem_words (heq ▸ hword)
    obtain ⟨hfirst, hrest⟩ := List.forall_mem_cons.mp hwords
    rw [String.toList_ofList]
    refine hp.guardDigit (List.forall_mem_append.mpr ⟨hp.lowerFirst hfirst, fun c hc => ?_⟩)
    obtain ⟨word, hword, hc⟩ := List.mem_flatMap.mp hc
    exact hp.upperFirst (hrest word hword) c hc

end IsKind

/-! ## Names -/

theorem IsName.capitalize {s : String} (h : IsName s) : IsName (capitalize s) := by
  intro c hc
  rw [Naming.capitalize, String.toList_ofList] at hc
  exact isKind_part.upperFirst h c hc

theorem camelCase_isName (s : String) : IsName (camelCase s) :=
  isKind_part.camelCase s

/-- The words of a name have its ASCII letters and digits, in order. -/
theorem flatten_words (s : List Char) : (words s).flatten = s.filter isAsciiAlphanum := by
  rw [words, List.flatten_filter_not_isEmpty, flatten_pieces]
  simp

theorem words_append_cons {s t : List Char} {c : Char} (hc : isAsciiAlphanum c = false) :
    words (s ++ c :: t) = words s ++ words t := by
  have hcut : List.splitOnP (!isAsciiAlphanum ·) (s ++ c :: t) = _ :=
    List.splitOnP_append_cons s t (by simp [hc])
  simp only [words, pieces_eq_splitOnP, hcut, List.filter_append]

theorem words_dropEnds {p : Char → Bool} (hp : ∀ c, p c = true → isAsciiAlphanum c = false)
    (s : List Char) : words (dropEnds p s) = words s := by
  have htail : ∀ t : List Char, words (dropTail p t) = words t := by
    intro t
    induction t using List.reverseRecOn with
    | nil => rfl
    | append_singleton t c ih =>
      change words (List.rdropWhile p (t ++ [c])) = _
      rw [List.rdropWhile_concat]
      split
      · next hc =>
        rw [words_append_cons (hp c hc)]
        exact ih.trans (List.append_nil _).symm
      · rfl
  have hhead : ∀ t : List Char, words (t.dropWhile p) = words t := by
    intro t
    induction t with
    | nil => rfl
    | cons c rest ih =>
      rw [List.dropWhile_cons]
      split
      · next hc => exact ih.trans (words_append_cons (s := []) (hp c hc)).symm
      · rfl
  rw [dropEnds, htail, hhead]

/-- Characters around a name that are neither letters nor digits leave no trace in camel case. -/
theorem camelCase_dropEnds {p : Char → Bool} (hp : ∀ c, p c = true → isAsciiAlphanum c = false)
    (s : List Char) : camelCase (.ofList (dropEnds p s)) = camelCase (.ofList s) := by
  simp only [camelCase, String.toList_ofList, words_dropEnds hp]

private theorem lowerFirst_ne_nil {s : List Char} (hne : s ≠ [])
    (h : ∀ c ∈ s, isIdentifierPart c = true) : lowerFirst s ≠ [] := by
  cases s with
  | nil => exact absurd rfl hne
  | cons first rest =>
    have hfirst := toNat_lt_of_isIdentifierPart (h first List.mem_cons_self)
    simp [lowerFirst, lowerChar, hfirst]

private theorem guardDigit_ne_nil {s : List Char} (h : s ≠ []) : guardDigit s ≠ [] := by
  cases s with
  | nil => exact absurd rfl h
  | cons first rest =>
    rw [guardDigit]
    split <;> exact List.cons_ne_nil _ _

/-- Camel case leaves nothing of a text only if it has no ASCII letter or digit. -/
theorem camelCase_eq_empty_iff {s : String} :
    camelCase s = "" ↔ ∀ c ∈ s.toList, c.isAlphanum = false := by
  have hwords : words s.toList = [] ↔ ∀ c ∈ s.toList, c.isAlphanum = false := by
    have hkept : (words s.toList).flatten = [] ↔ words s.toList = [] := by
      constructor
      · intro h
        refine List.eq_nil_iff_forall_not_mem.mpr fun word hword => ?_
        exact (alphanum_of_mem_words hword).1 (List.flatten_eq_nil_iff.mp h word hword)
      · intro h
        rw [h, List.flatten_nil]
    rw [← hkept, flatten_words, List.filter_eq_nil_iff]
    simp only [isAsciiAlphanum, Bool.not_eq_true]
  rw [← hwords]
  unfold camelCase
  split
  · next heq => simp [heq]
  · next first rest heq =>
    have hmem : first ∈ words s.toList := heq ▸ List.mem_cons_self
    have hlower := lowerFirst_ne_nil (alphanum_of_mem_words hmem).1 (isKind_part.of_mem_words hmem)
    have hguarded := guardDigit_ne_nil
      (List.append_ne_nil_of_left_ne_nil hlower (rest.flatMap upperFirst))
    simp [heq, hguarded]

theorem IsName.of_isIdentifier {s : String} (h : isIdentifier s = true) : IsName s ∧ s ≠ "" := by
  unfold isIdentifier at h
  split at h
  · cases h
  · next first rest heq =>
    obtain ⟨hfirst, hrest⟩ := Bool.and_eq_true_iff.mp h
    refine ⟨fun c hc => ?_, fun hempty => ?_⟩
    · rw [heq] at hc
      rcases List.mem_cons.mp hc with rfl | hc
      · exact isIdentifierPart_of_start hfirst
      · exact List.all_eq_true.mp hrest c hc
    · rw [hempty] at heq
      cases heq

theorem identifierBase_isName (name : String) : IsName (identifierBase name) := by
  unfold identifierBase
  split
  · next h => exact (IsName.of_isIdentifier h).1
  · change IsName (if (camelCase name).isEmpty then "value" else camelCase name)
    split
    · decide
    · exact camelCase_isName name

theorem modelClass_isName (component : String) : IsName (modelClass component) :=
  (identifierBase_isName component).capitalize.append (by decide)

theorem interfaceClass_isName {resource : String} (h : IsName resource) :
    IsName (interfaceClass resource) :=
  h.capitalize.append (by decide)

theorem implementationClass_isName {resource : String} (h : IsName resource) :
    IsName (implementationClass resource) :=
  h.capitalize.append (by decide)

/-! ## The endings of class names -/

theorem suffix_modelClass (component : String) :
    "DTO".toList <:+ (modelClass component).toList := by
  rw [modelClass, String.toList_append]
  exact List.suffix_append _ _

theorem suffix_interfaceClass (resource : String) :
    "Resource".toList <:+ (interfaceClass resource).toList := by
  rw [interfaceClass, String.toList_append]
  exact List.suffix_append _ _

theorem suffix_implementationClass (resource : String) :
    "ResourceImpl".toList <:+ (implementationClass resource).toList := by
  rw [implementationClass, String.toList_append]
  exact List.suffix_append _ _

end RestModule.Naming
