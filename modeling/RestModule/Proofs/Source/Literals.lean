import RestModule.Json.Text
import Mathlib.Data.List.Basic

/-!
# String literals

A string literal of a source is read in two passes, as Java does it: Unicode escapes are translated
wherever they stand, and then the escapes of the literal itself. Either pass makes a text shorter
when there is something for it to do. So a text between quotation marks denotes itself exactly if no
character of it begins an escape or ends the literal (`Source.literalValue?_literal_iff`). -/

namespace RestModule.Source

/-! ## Code units -/

/-- The UTF-16 code units of a character. -/
def unitsOf (c : Char) : List Nat :=
  if c.toNat < 0x10000 then [c.toNat]
  else [0xD800 + (c.toNat - 0x10000) / 0x400, 0xDC00 + (c.toNat - 0x10000) % 0x400]

/-- The UTF-16 code units of a text. -/
def units (text : String) : List Nat :=
  text.toList.flatMap unitsOf

example : units "é😀" = [0xE9, 0xD83D, 0xDE00] := by decide

theorem length_unitsOf_pos (c : Char) : 0 < (unitsOf c).length := by
  rw [unitsOf]
  split
  · exact Nat.zero_lt_one
  · exact Nat.zero_lt_two

/-- A code unit below the surrogates is a character by itself. -/
theorem mem_unitsOf_iff {c : Char} {u : Nat} (hu : u < 0xD800) : u ∈ unitsOf c ↔ c.toNat = u := by
  rw [unitsOf]
  split
  · rw [List.mem_singleton, eq_comm]
  · rw [List.mem_pair]
    omega

/-! ## Special characters -/

/-- The characters that do not stand for themselves in a literal: its end, the beginning of an
escape, and the ends of a line. -/
def special : List Char := ['"', '\\', '\n', '\r']

def isSpecial (u : Nat) : Bool :=
  (special.map Char.toNat).contains u

/-- A text that stands for itself in a literal. -/
def IsPlain (text : String) : Prop :=
  ∀ c ∈ text.toList, c ∉ special

instance (text : String) : Decidable (IsPlain text) :=
  decidable_of_iff (text.toList.all (!special.contains ·) = true) (by simp [IsPlain])

theorem isPlain_append_iff {s t : String} : IsPlain (s ++ t) ↔ IsPlain s ∧ IsPlain t := by
  rw [IsPlain, String.toList_append, List.forall_mem_append]
  rfl

theorem isSpecial_iff {c : Char} : (∃ u ∈ unitsOf c, isSpecial u = true) ↔ c ∈ special := by
  have hascii : special.all (·.toNat < 0xD800) = true := by decide
  have hbelow : ∀ d ∈ special, d.toNat < 0xD800 :=
    fun d hd => of_decide_eq_true (List.all_eq_true.mp hascii d hd)
  simp only [isSpecial, List.contains_iff_mem, List.mem_map]
  constructor
  · rintro ⟨_, hmem, d, hd, rfl⟩
    rwa [← Char.toNat_inj.mp ((mem_unitsOf_iff (hbelow d hd)).mp hmem)] at hd
  · intro hc
    exact ⟨c.toNat, (mem_unitsOf_iff (hbelow c hc)).mpr rfl, c, hc, rfl⟩

theorem isPlain_iff {text : String} : IsPlain text ↔ ∀ u ∈ units text, isSpecial u = false := by
  constructor
  · intro h u hu
    obtain ⟨c, hc, hmem⟩ := List.mem_flatMap.mp hu
    apply Bool.eq_false_iff.mpr
    intro hspecial
    exact h c hc (isSpecial_iff.mp ⟨u, hmem, hspecial⟩)
  · intro h c hc hspecial
    obtain ⟨u, hmem, hu⟩ := isSpecial_iff.mpr hspecial
    exact Bool.false_ne_true ((h u (List.mem_flatMap.mpr ⟨c, hc, hmem⟩)).symm.trans hu)

/-! ## Unicode escapes -/

/-- The code units of a source once its Unicode escapes are translated; nothing if one of them lacks
its digits. With `true`, the beginning of an escape has been read and its digits have not. -/
def translated? : Bool → List Char → Option (List Nat)
  | false, [] => some []
  | false, '\\' :: 'u' :: rest => translated? true rest
  -- of two backslashes, the second one begins no escape
  | false, '\\' :: c :: rest => (translated? false rest).map (unitsOf '\\' ++ unitsOf c ++ ·)
  | false, c :: rest => (translated? false rest).map (unitsOf c ++ ·)
  | true, 'u' :: rest => translated? true rest
  | true, a :: b :: c :: d :: rest =>
    (Json.readHex4 [a, b, c, d]).bind fun unit => (translated? false rest).map (unit.1 :: ·)
  | true, _ => none

/-- The same code units, or fewer. -/
def Shortens (before after : List Nat) : Prop :=
  after = before ∨ after.length < before.length

namespace Shortens

variable {before after : List Nat}

theorem length_le (h : Shortens before after) : after.length ≤ before.length := by
  rcases h with rfl | hlt
  · exact Nat.le_refl _
  · exact Nat.le_of_lt hlt

theorem append_left (h : Shortens before after) (start : List Nat) :
    Shortens (start ++ before) (start ++ after) := by
  rcases h with rfl | hlt
  · exact .inl rfl
  · refine .inr ?_
    rw [List.length_append, List.length_append]
    exact Nat.add_lt_add_left hlt _

end Shortens

/-- An escape takes more characters than it stands for. -/
theorem translated?_shortens {escaping : Bool} {text : List Char} {out : List Nat}
    (h : translated? escaping text = some out) :
    Shortens (text.flatMap unitsOf) out ∧
      (escaping = true → out.length < (text.flatMap unitsOf).length) := by
  fun_induction translated? escaping text generalizing out with
  | case1 =>
    cases h
    exact ⟨.inl rfl, Bool.noConfusion⟩
  | case2 rest ih =>
    have hlt := (ih h).2 rfl
    refine ⟨.inr ?_, Bool.noConfusion⟩
    rw [List.flatMap_cons, List.flatMap_cons, List.length_append, List.length_append]
    omega
  | case3 c rest _ ih =>
    obtain ⟨more, hmore, rfl⟩ := Option.map_eq_some_iff.mp h
    rw [List.flatMap_cons, List.flatMap_cons, ← List.append_assoc]
    exact ⟨(ih hmore).1.append_left _, Bool.noConfusion⟩
  | case4 c rest _ _ ih =>
    obtain ⟨more, hmore, rfl⟩ := Option.map_eq_some_iff.mp h
    exact ⟨(ih hmore).1.append_left _, Bool.noConfusion⟩
  | case5 rest ih =>
    have hlt : out.length < (('u' :: rest).flatMap unitsOf).length := by
      have hrest := (ih h).2 rfl
      rw [List.flatMap_cons, List.length_append]
      omega
    exact ⟨.inr hlt, fun _ => hlt⟩
  | case6 a b c d rest _ ih =>
    obtain ⟨unit, -, h⟩ := Option.bind_eq_some_iff.mp h
    obtain ⟨more, hmore, rfl⟩ := Option.map_eq_some_iff.mp h
    have hlt : (unit.1 :: more).length < ((a :: b :: c :: d :: rest).flatMap unitsOf).length := by
      have hrest := (ih hmore).1.length_le
      have ha := length_unitsOf_pos a
      have hb := length_unitsOf_pos b
      simp only [List.flatMap_cons, List.length_append, List.length_cons]
      omega
    exact ⟨.inr hlt, fun _ => hlt⟩
  | case7 => cases h

theorem translated?_of_not_mem {text : List Char} (h : '\\' ∉ text) :
    translated? false text = some (text.flatMap unitsOf) := by
  induction text with
  | nil => rfl
  | cons c rest ih =>
    obtain ⟨hc, hrest⟩ := not_or.mp (List.mem_cons.not.mp h)
    rw [translated?, ih hrest]
    · rfl
    · rintro more rfl -
      exact hc rfl
    · rintro d more rfl -
      exact hc rfl

/-! ## Escapes -/

/-- The escapes of one character, with the code units that they stand for. -/
def escapes : List (Nat × Nat) :=
  (units "btnfrs\"'\\").zip [0x08, 0x09, 0x0A, 0x0C, 0x0D, 0x20, 0x22, 0x27, 0x5C]

def isOctal (u : Nat) : Bool :=
  '0'.toNat ≤ u && u ≤ '7'.toNat

/-- Whether the digits of an octal escape go on with a code unit: it has three of them at most, and
no more than two if the first is above `3`. -/
def goesOn (digits : List Nat) (u : Nat) : Bool :=
  isOctal u && match digits with
    | [_] => true
    | [first, _] => first ≤ '3'.toNat
    | _ => false

/-- The code unit of an octal escape, and none if there is no escape. -/
def octalUnit (digits : List Nat) : List Nat :=
  if digits.isEmpty then [] else [digits.foldl (fun value u => value * 8 + (u - '0'.toNat)) 0]

/-- The code units that the inside of a literal denotes, after some digits of an octal escape;
nothing if it has a quotation mark or the end of a line, or a backslash that begins no escape. -/
def content? (digits : List Nat) : List Nat → Option (List Nat)
  | [] => some (octalUnit digits)
  | u :: rest =>
    if goesOn digits u then content? (digits ++ [u]) rest
    else if !isSpecial u then (content? [] rest).map (octalUnit digits ++ u :: ·)
    else if u = '\\'.toNat then
      match rest with
      | [] => none
      | letter :: rest =>
        if isOctal letter then (content? [letter] rest).map (octalUnit digits ++ ·)
        else (escapes.lookup letter).bind fun unit =>
          (content? [] rest).map (octalUnit digits ++ unit :: ·)
    else none

theorem length_octalUnit {digits : List Nat} (h : digits ≠ []) : (octalUnit digits).length = 1 := by
  rw [octalUnit, if_neg (by simpa using h)]
  rfl

theorem goesOn_nil (u : Nat) : goesOn [] u = false :=
  Bool.and_false _

/-- What is denoted is as long as what is written only if it is that; digits read before count for
the backslash as well. -/
theorem content?_shortens {digits inside out : List Nat} (h : content? digits inside = some out) :
    (digits = [] ∧ out = inside ∧ ∀ u ∈ inside, isSpecial u = false) ∨
      out.length < inside.length + 2 * (octalUnit digits).length := by
  fun_induction content? digits inside generalizing out with
  | case1 digits =>
    cases h
    by_cases hdigits : digits = []
    · subst hdigits
      exact .inl ⟨rfl, rfl, fun _ h => nomatch h⟩
    · refine .inr ?_
      rw [length_octalUnit hdigits]
      decide
  | case2 digits u rest hmore ih =>
    have hne : digits ≠ [] := by
      rintro rfl
      exact Bool.false_ne_true ((goesOn_nil u).symm.trans hmore)
    have hdigits : digits ++ [u] ≠ [] := List.append_ne_nil_of_right_ne_nil _ (List.cons_ne_nil _ _)
    have hlt := (ih h).resolve_left fun h => hdigits h.1
    refine .inr ?_
    rw [length_octalUnit hdigits] at hlt
    rw [length_octalUnit hne, List.length_cons]
    omega
  | case3 digits u rest _ hplain ih =>
    obtain ⟨more, hread, rfl⟩ := Option.map_eq_some_iff.mp h
    rw [Bool.not_eq_true'] at hplain
    rcases ih hread with ⟨-, rfl, hrest⟩ | hlt
    · by_cases hdigits : digits = []
      · subst hdigits
        exact .inl ⟨rfl, rfl, List.forall_mem_cons.mpr ⟨hplain, hrest⟩⟩
      · refine .inr ?_
        rw [List.length_append, length_octalUnit hdigits]
        omega
    · refine .inr ?_
      rw [List.length_append, List.length_cons, List.length_cons]
      have hnone : (octalUnit []).length = 0 := rfl
      omega
  | case4 => cases h
  | case5 digits letter rest _ _ _ ih =>
    obtain ⟨more, hread, rfl⟩ := Option.map_eq_some_iff.mp h
    have hlt := (ih hread).resolve_left fun h => List.cons_ne_nil _ _ h.1
    refine .inr ?_
    rw [length_octalUnit (List.cons_ne_nil _ _)] at hlt
    rw [List.length_append, List.length_cons, List.length_cons]
    omega
  | case6 digits letter rest _ _ _ ih =>
    obtain ⟨unit, -, h⟩ := Option.bind_eq_some_iff.mp h
    obtain ⟨more, hread, rfl⟩ := Option.map_eq_some_iff.mp h
    have hlength : more.length ≤ rest.length := by
      rcases ih hread with ⟨-, rfl, -⟩ | hlt
      · exact Nat.le_refl _
      · exact Nat.le_of_lt hlt
    refine .inr ?_
    rw [List.length_append, List.length_cons, List.length_cons, List.length_cons]
    omega
  | case7 => cases h

theorem content?_of_plain {inside : List Nat} (h : ∀ u ∈ inside, isSpecial u = false) :
    content? [] inside = some inside := by
  induction inside with
  | nil => rfl
  | cons u rest ih =>
    obtain ⟨hu, hrest⟩ := List.forall_mem_cons.mp h
    unfold content?
    rw [goesOn_nil, hu, ih hrest]
    rfl

/-! ## Literals -/

/-- The code units that are denoted between two quotation marks. -/
def enclosed? : List Nat → Option (List Nat)
  | [] => none
  | first :: rest =>
    if first = '"'.toNat ∧ rest.getLast? = some '"'.toNat then content? [] rest.dropLast else none

/-- The code units of the string that a text denotes as a literal; nothing if it is none. -/
def literalValue? (text : String) : Option (List Nat) :=
  (translated? false text.toList).bind enclosed?

example : literalValue? "\"\\u0061\\t\\61\"" = some (units "a\t1") := by decide +kernel

/-- A text between quotation marks. -/
def literal (value : String) : String :=
  "\"" ++ value ++ "\""

theorem units_literal (value : String) :
    units (literal value) = '"'.toNat :: (units value ++ ['"'.toNat]) := by
  simp only [units, literal, String.toList_append, List.flatMap_append]
  rfl

theorem enclosed?_concat (inside : List Nat) :
    enclosed? ('"'.toNat :: (inside ++ ['"'.toNat])) = content? [] inside := by
  rw [enclosed?, List.getLast?_concat, if_pos ⟨rfl, rfl⟩, List.dropLast_concat]

theorem length_of_enclosed? {all out : List Nat} (h : enclosed? all = some out) :
    ∃ inside, content? [] inside = some out ∧ all.length = inside.length + 2 := by
  cases all with
  | nil => cases h
  | cons first rest =>
    rw [enclosed?, Option.ite_none_right_eq_some] at h
    obtain ⟨⟨-, hlast⟩, hinside⟩ := h
    obtain ⟨inside, rfl⟩ := List.getLast?_eq_some_iff.mp hlast
    rw [List.dropLast_concat] at hinside
    exact ⟨inside, hinside, by rw [List.length_cons, List.length_append, List.length_singleton]⟩

/-- Between quotation marks, a text denotes itself exactly if it has no quotation mark, no backslash
and no end of a line. -/
theorem literalValue?_literal_iff (value : String) :
    literalValue? (literal value) = some (units value) ↔ IsPlain value := by
  constructor
  · intro h
    obtain ⟨all, htranslated, henclosed⟩ := Option.bind_eq_some_iff.mp h
    obtain ⟨inside, hinside, hall⟩ := length_of_enclosed? henclosed
    have hlength : all.length ≤ (units (literal value)).length :=
      (translated?_shortens htranslated).1.length_le
    rw [units_literal, List.length_cons, List.length_append, List.length_singleton] at hlength
    rcases content?_shortens hinside with ⟨-, heq, hplain⟩ | hlt
    · rwa [isPlain_iff, heq]
    -- with an escape, too little is left
    · have hnone : (octalUnit []).length = 0 := rfl
      omega
  · intro h
    have hmark : '\\' ∉ "\"".toList := by decide
    have hbackslash : '\\' ∉ (literal value).toList := by
      rw [literal, String.toList_append, String.toList_append, List.mem_append, List.mem_append]
      rintro ((hmem | hmem) | hmem)
      · exact hmark hmem
      · exact h _ hmem (by decide)
      · exact hmark hmem
    calc literalValue? (literal value) = enclosed? (units (literal value)) := by
          rw [literalValue?, translated?_of_not_mem hbackslash]
          rfl
      _ = content? [] (units value) := by rw [units_literal, enclosed?_concat]
      _ = some (units value) := content?_of_plain (isPlain_iff.mp h)

end RestModule.Source
