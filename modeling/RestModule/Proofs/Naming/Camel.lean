import RestModule.Proofs.Naming

/-!
# Camel case

What camel case leaves of a text is one word of ASCII letters and digits, which begins with a
lower-case letter, or with an underscore before a digit (`Naming.camelCase_isCamel`). Such a beginning
can be read back from the same text with a capital letter. So different texts in camel case make
different classes. -/

namespace RestModule.Naming

open Text

/-! ## The form of camel case -/

/-- ASCII letters and digits, the first of them a lower-case letter. -/
def IsLowerWord (s : String) : Prop :=
  ∃ first rest, s.toList = first :: rest ∧ first.isLower = true ∧ ∀ c ∈ rest, c.isAlphanum = true

instance (s : String) : Decidable (IsLowerWord s) :=
  decidable_of_iff (s.toList.head?.any Char.isLower = true ∧
      s.toList.tail.all Char.isAlphanum = true) <| by
    rw [IsLowerWord]
    cases s.toList with
    | nil => simp
    | cons first rest => simp

/-- A word in camel case. An underscore stands in front of a digit and nowhere else. -/
inductive IsCamel (s : String) : Prop where
  | lower (h : IsLowerWord s) : IsCamel s
  | digit {first : Char} {rest : List Char} (hs : s.toList = '_' :: first :: rest)
      (hfirst : first.isDigit = true) (hrest : ∀ c ∈ rest, c.isAlphanum = true) : IsCamel s

private theorem lower_of_code : ∀ n : Fin 128, (Char.ofNat n).isAlphanum = true →
    lowerChar (.ofNat n) = [(Char.ofNat n).toLower] ∧
      ((Char.ofNat n).toLower.isLower = true ∨ (Char.ofNat n).toLower.isDigit = true) := by
  decide

private theorem alphanum_of_code : ∀ n : Fin 128, (Char.ofNat n).isAlphanum = true →
    (upperChar (.ofNat n)).all Char.isAlphanum = true := by
  decide

/-- A word in lower case begins with a lower-case letter or a digit. -/
private theorem lowerFirst_cons {c : Char} (h : c.isAlphanum = true) (rest : List Char) :
    ∃ first, lowerFirst (c :: rest) = first :: rest ∧
      (first.isLower = true ∨ first.isDigit = true) := by
  obtain ⟨code, rfl⟩ := exists_code (isKind_part.alphanum c h)
  obtain ⟨hlower, hfirst⟩ := lower_of_code code h
  exact ⟨_, by rw [lowerFirst, hlower, List.singleton_append], hfirst⟩

private theorem alphanum_upperFirst {word : List Char} (h : ∀ c ∈ word, c.isAlphanum = true) :
    ∀ c ∈ upperFirst word, c.isAlphanum = true := by
  cases word with
  | nil => exact h
  | cons first rest =>
    obtain ⟨hfirst, hrest⟩ := List.forall_mem_cons.mp h
    obtain ⟨code, rfl⟩ := exists_code (isKind_part.alphanum first hfirst)
    exact List.forall_mem_append.mpr ⟨List.all_eq_true.mp (alphanum_of_code code hfirst), hrest⟩

/-- What camel case leaves of a text has its form. -/
theorem camelCase_isCamel {s : String} (h : camelCase s ≠ "") : IsCamel (camelCase s) := by
  unfold camelCase at h ⊢
  split
  · next heq => simp [heq] at h
  · next word more heq =>
    have hwords : ∀ w ∈ words s.toList, w ≠ [] ∧ ∀ c ∈ w, c.isAlphanum = true :=
      fun w hw => alphanum_of_mem_words hw
    rw [heq] at hwords
    obtain ⟨⟨hne, hword⟩, hmore⟩ := List.forall_mem_cons.mp hwords
    obtain ⟨c, rest, rfl⟩ := List.exists_cons_of_ne_nil hne
    obtain ⟨hc, hrest⟩ := List.forall_mem_cons.mp hword
    obtain ⟨first, hlower, hfirst⟩ := lowerFirst_cons hc rest
    have htail : ∀ c ∈ rest ++ more.flatMap upperFirst, c.isAlphanum = true := by
      refine List.forall_mem_append.mpr ⟨hrest, fun c hc => ?_⟩
      obtain ⟨other, hother, hc⟩ := List.mem_flatMap.mp hc
      exact alphanum_upperFirst (hmore other hother).2 c hc
    rw [hlower, List.cons_append, guardDigit]
    split
    · next hdigit => exact .digit String.toList_ofList hdigit htail
    · next hdigit =>
      exact .lower ⟨first, _, String.toList_ofList, hfirst.resolve_right hdigit, htail⟩

/-! ## First characters -/

/-- A character that camel case begins with. -/
def isLow (c : Char) : Bool :=
  c.isLower || c == '_'

/-- A text that begins with a lower-case letter or an underscore. -/
def BeginsLow (s : String) : Prop :=
  ∃ first rest, s.toList = first :: rest ∧ isLow first = true

theorem isIdentifierStart_of_low {c : Char} (h : isLow c = true) : isIdentifierStart c = true := by
  have hkinds : isIdentifierStart c = (((c.isUpper || c.isLower) || c == '_') || c == '$') := rfl
  rw [hkinds]
  rcases Bool.or_eq_true_iff.mp h with hlower | hunderscore
  · simp [hlower]
  · simp [hunderscore]

private theorem lower_upper_of_code : ∀ n : Fin 128, isLow (.ofNat n) = true →
    ((upperChar (.ofNat n)).head?.map lowerChar = some [.ofNat n]) ∧
      (upperChar (.ofNat n)).length = 1 := by
  decide

theorem IsCamel.beginsLow {s : String} (h : IsCamel s) : BeginsLow s := by
  cases h with
  | lower h =>
    obtain ⟨first, rest, hs, hfirst, -⟩ := h
    exact ⟨first, rest, hs, by rw [isLow, hfirst, Bool.true_or]⟩
  | digit hs _ _ => exact ⟨'_', _, hs, rfl⟩

/-- Camel case that leaves something of a text begins it with a lower-case letter, or with an
underscore before a digit. -/
theorem camelCase_beginsLow {s : String} (h : camelCase s ≠ "") : BeginsLow (camelCase s) :=
  (camelCase_isCamel h).beginsLow

theorem decapitalize_capitalize {s : String} (h : BeginsLow s) :
    decapitalize (capitalize s) = s := by
  obtain ⟨first, rest, hs, hfirst⟩ := h
  obtain ⟨code, rfl⟩ := exists_code (isIdentifierPart_of_start (isIdentifierStart_of_low hfirst))
  obtain ⟨hlower, hlength⟩ := lower_upper_of_code code hfirst
  obtain ⟨c, hupper⟩ := List.length_eq_one_iff.mp hlength
  rw [hupper] at hlower
  have hback : lowerChar c = [.ofNat code] := Option.some.inj hlower
  apply String.toList_injective
  rw [decapitalize, capitalize, String.toList_ofList, String.toList_ofList, hs, upperFirst, hupper,
    List.singleton_append, lowerFirst, hback, List.singleton_append]

theorem capitalize_inj {s t : String} (hs : BeginsLow s) (ht : BeginsLow t) :
    capitalize s = capitalize t ↔ s = t := by
  constructor
  · intro h
    rw [← decapitalize_capitalize hs, h, decapitalize_capitalize ht]
  · rintro rfl
    rfl

/-! ## Classes of resources -/

theorem interfaceClass_inj {s t : String} (hs : BeginsLow s) (ht : BeginsLow t) :
    interfaceClass s = interfaceClass t ↔ s = t := by
  rw [interfaceClass, interfaceClass, String.append_left_inj, capitalize_inj hs ht]

theorem implementationClass_inj {s t : String} (hs : BeginsLow s) (ht : BeginsLow t) :
    implementationClass s = implementationClass t ↔ s = t := by
  rw [implementationClass, implementationClass, String.append_left_inj, capitalize_inj hs ht]

/-- The one ends with `e`, the other with `l`. -/
theorem interfaceClass_ne_implementationClass (s t : String) :
    interfaceClass s ≠ implementationClass t := by
  intro h
  have hinterface : (interfaceClass s).toList.getLast? = some 'e' := by
    rw [interfaceClass, String.toList_append]
    exact List.getLast?_append_of_ne_nil _ (by decide)
  have himplementation : (implementationClass t).toList.getLast? = some 'l' := by
    rw [implementationClass, String.toList_append]
    exact List.getLast?_append_of_ne_nil _ (by decide)
  rw [h, himplementation] at hinterface
  exact absurd hinterface (by decide)

end RestModule.Naming
