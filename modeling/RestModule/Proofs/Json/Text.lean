import Mathlib.Data.List.Basic
import RestModule.Json.Text

/-!
# Quoted texts are read as they were written

Every character of a text is read back from its writing inside quotes, whether it is escaped there or
not, so a written text is read up to its closing quote (`Json.readText_writeText`). -/

namespace RestModule.Json

theorem hexValue?_hexDigit (n : Nat) : hexValue? (hexDigit n) = some (n % 16) := by
  have hdigit : ∀ d < 16, hexValue? (Nat.digitChar d) = some d := by decide
  exact hdigit (n % 16) (Nat.mod_lt n (by omega))

/-- The numeric escape of a control character. -/
theorem readUnicodeEscape_control {n : Nat} (h : n < 0x20) (rest : List Char) :
    readUnicodeEscape ('0' :: '0' :: hexDigit (n / 16) :: hexDigit n :: rest) =
      some (Char.ofNat n, rest) := by
  have hzero : hexValue? '0' = some 0 := by decide
  have hvalue : ((0 * 16 + 0) * 16 + n / 16 % 16) * 16 + n % 16 = n := by omega
  have hread : readHex4 ('0' :: '0' :: hexDigit (n / 16) :: hexDigit n :: rest) =
      some (n, rest) := by
    simp only [readHex4, hzero, hexValue?_hexDigit, Option.bind_eq_bind, Option.bind_some, hvalue]
  have hlow : isLowSurrogate n = false := by
    simp only [isLowSurrogate, Bool.and_eq_false_iff, decide_eq_false_iff_not]
    omega
  have hhigh : isHighSurrogate n = false := by
    simp only [isHighSurrogate, Bool.and_eq_false_iff, decide_eq_false_iff_not]
    omega
  simp [readUnicodeEscape, hread, hlow, hhigh]

/-- A character inside quotes takes one step to read, however it is written. -/
theorem readChars_writeChar (fuel : Nat) (c : Char) (rest : List Char) :
    readChars (fuel + 1) (writeChar c ++ rest) = readChars.push c (readChars fuel rest) := by
  unfold writeChar
  split
  case h_8 _ hquote hbackslash _ _ _ _ _ =>
    split
    · rename_i hcontrol
      have hread := readUnicodeEscape_control hcontrol rest
      rw [Char.ofNat_toNat] at hread
      simp [readChars, hread]
    · rename_i hplain
      have hquote : (c == '"') = false := beq_false_of_ne hquote
      have hbackslash : (c == '\\') = false := beq_false_of_ne hbackslash
      simp only [List.cons_append, List.nil_append, readChars, hquote, hbackslash, hplain,
        Bool.false_eq_true, if_false]
  all_goals rfl

theorem readChars_flatMap_writeChar (chars : List Char) (rest : List Char) {fuel : Nat}
    (h : chars.length < fuel) :
    readChars fuel (chars.flatMap writeChar ++ '"' :: rest) = some (chars, rest) := by
  induction chars generalizing fuel with
  | nil =>
    obtain ⟨fuel, rfl⟩ := Nat.exists_eq_add_one_of_ne_zero (Nat.ne_zero_of_lt h)
    rfl
  | cons c chars ih =>
    obtain ⟨fuel, rfl⟩ := Nat.exists_eq_add_one_of_ne_zero (Nat.ne_zero_of_lt h)
    rw [List.flatMap_cons, List.append_assoc, readChars_writeChar,
      ih (by simpa using h)]
    rfl

theorem length_le_flatMap_writeChar (chars : List Char) :
    chars.length ≤ (chars.flatMap writeChar).length := by
  induction chars with
  | nil => simp
  | cons c chars ih =>
    have hchar : 0 < (writeChar c).length := by
      unfold writeChar
      repeat' split
      all_goals simp
    simp only [List.flatMap_cons, List.length_append, List.length_cons]
    omega

theorem readText_writeText (s : String) (rest : List Char) :
    readText (s.toList.flatMap writeChar ++ '"' :: rest) = some (s, rest) := by
  have hfuel : s.toList.length < (s.toList.flatMap writeChar ++ '"' :: rest).length + 1 := by
    have hlength := length_le_flatMap_writeChar s.toList
    simp only [List.length_append]
    omega
  rw [readText, readChars_flatMap_writeChar s.toList rest hfuel]
  simp

end RestModule.Json
