import Mathlib.Data.List.Basic
import RestModule.Json.Number

/-!
# Whole numbers are read as they were written

The decimal digits of a number below `2 ^ 64` are taken as that number, up to a character that
cannot go on with a number (`Json.readUnsigned_toDigits`). So the integers that fit 64 bits, with or
without a sign, are read from their usual text (`Json.readNumber_toString`). -/

namespace RestModule.Json

/-- A text that does not go on with the number before it. -/
def EndsNumber (text : List Char) : Prop :=
  ∀ c ∈ text.head?, c.isDigit = false ∧ c ≠ '.' ∧ c ≠ 'e' ∧ c ≠ 'E'

/-- An integer that fits 64 bits, with or without a sign. -/
def Fits (value : Int) : Prop :=
  -(Nat.pow 2 63 : Nat) ≤ value ∧ value < (Nat.pow 2 64 : Nat)

theorem EndsNumber.takeWhile_isDigit {text : List Char} (h : EndsNumber text) :
    text.takeWhile Char.isDigit = [] := by
  cases text with
  | nil => rfl
  | cons c rest => simp [(h c rfl).1]

theorem EndsNumber.dropWhile_isDigit {text : List Char} (h : EndsNumber text) :
    text.dropWhile Char.isDigit = text := by
  cases text with
  | nil => rfl
  | cons c rest => simp [(h c rfl).1]

theorem le_ofDigitChars (digits : List Char) (significand : Nat) :
    significand ≤ Nat.ofDigitChars 10 digits significand := by
  induction digits generalizing significand with
  | nil => exact Nat.le_refl _
  | cons c digits ih =>
    rw [Nat.ofDigitChars_cons]
    have hrest := ih (10 * significand + (c.toNat - '0'.toNat))
    omega

theorem takeDigits_append (digits : List Char) (significand : Nat) {rest : List Char}
    (hdigits : ∀ c ∈ digits, c.isDigit = true)
    (hfits : Nat.ofDigitChars 10 digits significand < Nat.pow 2 64) (hrest : EndsNumber rest) :
    takeDigits significand (digits ++ rest) =
      (Nat.ofDigitChars 10 digits significand, digits.length, rest) := by
  induction digits generalizing significand with
  | nil =>
    cases rest with
    | nil => rfl
    | cons c rest => simp [takeDigits, (hrest c rfl).1]
  | cons c digits ih =>
    obtain ⟨hc, hdigits⟩ := List.forall_mem_cons.mp hdigits
    rw [Nat.ofDigitChars_cons, Nat.mul_comm] at hfits ⊢
    have hnext : significand * 10 + digitValue c < Nat.pow 2 64 :=
      Nat.lt_of_le_of_lt (le_ofDigitChars digits _) hfits
    have htaken : (c.isDigit && decide (significand * 10 + digitValue c < Nat.pow 2 64)) = true := by
      rw [hc, Bool.true_and]
      exact decide_eq_true hnext
    have hread := ih (significand * 10 + digitValue c) hdigits hfits
    rw [List.cons_append, takeDigits, if_pos htaken, hread]
    rfl

theorem takeDigits_toDigits {n : Nat} (h : n < Nat.pow 2 64) {rest : List Char}
    (hrest : EndsNumber rest) :
    takeDigits 0 (Nat.toDigits 10 n ++ rest) = (n, (Nat.toDigits 10 n).length, rest) := by
  have hvalue : Nat.ofDigitChars 10 (Nat.toDigits 10 n) 0 = n :=
    Nat.ofDigitChars_toDigits (by omega) (by omega)
  have hdigits : ∀ c ∈ Nat.toDigits 10 n, c.isDigit = true :=
    fun _ => Nat.isDigit_of_mem_toDigits (by omega) (by omega)
  rw [takeDigits_append _ 0 hdigits (by rwa [hvalue]) hrest, hvalue]

theorem number_toDigits (negative : Bool) {n : Nat} (h : n < Nat.pow 2 64) {rest : List Char}
    (hrest : EndsNumber rest) :
    readUnsigned.number negative (Nat.toDigits 10 n ++ rest) =
      some (wholeNode negative n, rest) := by
  simp only [readUnsigned.number, takeDigits_toDigits h hrest, hrest.takeWhile_isDigit,
    hrest.dropWhile_isDigit]
  split
  · exact absurd rfl (hrest '.' rfl).2.1
  · exact absurd rfl (hrest 'e' rfl).2.2.1
  · exact absurd rfl (hrest 'E' rfl).2.2.2
  · rfl

/-- Only zero begins with a zero. -/
theorem exists_toDigits (n : Nat) :
    ∃ c rest, Nat.toDigits 10 n = c :: rest ∧ c.isDigit = true ∧ (0 < n → c ≠ '0') := by
  induction n using Nat.strongRecOn with
  | ind n ih =>
    by_cases hn : n < 10
    · have hdigit : ∀ d < 10,
          (Nat.digitChar d).isDigit = true ∧ (0 < d → Nat.digitChar d ≠ '0') := by decide
      exact ⟨Nat.digitChar n, [], Nat.toDigits_of_lt_base hn, hdigit n hn⟩
    · obtain ⟨c, rest, hcons, hc, hzero⟩ := ih (n / 10) (by omega)
      refine ⟨c, rest ++ [Nat.digitChar (n % 10)], ?_, hc, fun _ => hzero (by omega)⟩
      rw [Nat.toDigits_of_base_le (by omega) (by omega), hcons, List.cons_append]

theorem readUnsigned_toDigits (negative : Bool) {n : Nat} (h : n < Nat.pow 2 64) {rest : List Char}
    (hrest : EndsNumber rest) :
    readUnsigned negative (Nat.toDigits 10 n ++ rest) = some (wholeNode negative n, rest) := by
  have hnumber := number_toDigits negative h hrest
  obtain rfl | hn := Nat.eq_zero_or_pos n
  · rw [Nat.toDigits_zero] at hnumber ⊢
    cases rest with
    | nil => exact hnumber
    | cons c rest =>
      have hc : c.isDigit = false := (hrest c rfl).1
      simp only [List.cons_append, List.nil_append, readUnsigned, hc] at hnumber ⊢
      exact hnumber
  · obtain ⟨c, digits, hcons, hc, hzero⟩ := exists_toDigits n
    rw [hcons, List.cons_append] at hnumber ⊢
    unfold readUnsigned
    split
    · rename_i htext
      exact absurd (List.cons.inj htext).1 (hzero hn)
    · rw [if_pos (by exact hc), hnumber]

theorem readNumber_natCast {n : Nat} (h : n < Nat.pow 2 64) {rest : List Char}
    (hrest : EndsNumber rest) :
    readNumber (Nat.toDigits 10 n ++ rest) = some (.int n, rest) := by
  have hread := readUnsigned_toDigits false h hrest
  obtain ⟨c, digits, hcons, hc, -⟩ := exists_toDigits n
  rw [hcons, List.cons_append] at hread ⊢
  unfold readNumber
  split
  · rename_i htext
    rw [(List.cons.inj htext).1] at hc
    cases hc
  · exact hread

theorem readNumber_neg {n : Nat} (hpos : 0 < n) (h : n ≤ Nat.pow 2 63) {rest : List Char}
    (hrest : EndsNumber rest) :
    readNumber ('-' :: Nat.toDigits 10 n ++ rest) = some (.int (-n), rest) := by
  have hfits : n < Nat.pow 2 64 := Nat.lt_of_le_of_lt h (by decide)
  have hread := readUnsigned_toDigits true hfits hrest
  have hsmall : (n == 0 || n > Nat.pow 2 63) = false := by
    simp only [Bool.or_eq_false_iff, beq_eq_false_iff_ne, decide_eq_false_iff_not]
    exact ⟨Nat.ne_of_gt hpos, Nat.not_lt.mpr h⟩
  rw [List.cons_append, readNumber, hread, wholeNode, if_neg (by simp), if_neg (by simp [hsmall])]

/-- The text of an integer begins with its sign or its first digit. -/
theorem exists_toString (value : Int) :
    ∃ c rest, (toString value).toList = c :: rest ∧ (c = '-' ∨ c.isDigit = true) := by
  rw [Int.toString_eq_repr]
  cases value with
  | ofNat n =>
    obtain ⟨c, rest, hcons, hc, -⟩ := exists_toDigits n
    rw [Int.repr, Nat.toList_repr]
    exact ⟨c, rest, hcons, .inr hc⟩
  | negSucc n =>
    rw [Int.repr, String.toList_append]
    exact ⟨'-', _, rfl, .inl rfl⟩

/-- An integer that fits 64 bits is read from its text. -/
theorem readNumber_toString {value : Int} (h : Fits value) {rest : List Char}
    (hrest : EndsNumber rest) :
    readNumber ((toString value).toList ++ rest) = some (.int value, rest) := by
  obtain ⟨hlow, hhigh⟩ := h
  rw [Int.toString_eq_repr]
  cases value with
  | ofNat n =>
    rw [Int.ofNat_eq_natCast] at hhigh
    rw [Int.repr, Nat.toList_repr]
    exact readNumber_natCast (by omega) hrest
  | negSucc n =>
    rw [Int.repr, String.toList_append, Nat.toList_repr]
    exact readNumber_neg (Nat.succ_pos n) (by omega) hrest

end RestModule.Json
