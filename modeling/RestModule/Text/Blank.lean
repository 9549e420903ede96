/-!
# White space

The characters with the Unicode property `White_Space`, and texts without it at their ends.
-/

namespace RestModule.Text

/-- Whether a character has the Unicode property `White_Space`. -/
def isBlank (c : Char) : Bool :=
  let n := c.toNat
  (0x9 ≤ n && n ≤ 0xD) || n == 0x20 || n == 0x85 || n == 0xA0 || n == 0x1680
    || (0x2000 ≤ n && n ≤ 0x200A) || n == 0x2028 || n == 0x2029 || n == 0x202F || n == 0x205F
    || n == 0x3000

/-- Whether a text holds nothing but white space. -/
def isAllBlank (s : String) : Bool :=
  s.toList.all isBlank

/-- The first character of a text that is not white space. -/
def firstVisible? (s : String) : Option Char :=
  s.toList.find? (!isBlank ·)

/-- Every character that core calls white space is blank. -/
theorem isBlank_of_isWhitespace {c : Char} (h : c.isWhitespace = true) : isBlank c = true := by
  simp only [Char.isWhitespace, Bool.or_eq_true, decide_eq_true_eq] at h
  rcases h with ((rfl | rfl) | rfl) | rfl <;> decide

end RestModule.Text
