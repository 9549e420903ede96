import RestModule.Text.CaseTable

/-!
# Upper and lower case

Full case mappings of characters, texts with their first character in another case, and the plain
ASCII case folding that keywords use. A character without a mapping is its own mapping.
-/

namespace RestModule.Text

/-- The shift that the first covering run of a table gives. -/
def shiftIn (runs : List CaseTable.Run) (code : Nat) : Option Int :=
  (runs.find? (·.covers code)).map (·.shift)

/-- A character's image under a table of words and a table of runs. -/
def mapCase (words : List (Nat × List Nat)) (runs : List CaseTable.Run) (c : Char) : List Char :=
  match words.lookup c.toNat with
  | some word => word.map Char.ofNat
  | none =>
    match shiftIn runs c.toNat with
    | some shift => [Char.ofNat (c.toNat + shift).toNat]
    | none => [c]

/-- The upper-case form of a character; ASCII follows core's rule, the rest the tables. -/
def upperChar (c : Char) : List Char :=
  if c.toNat < 128 then [c.toUpper] else mapCase CaseTable.upperWords CaseTable.upperRuns c

/-- The lower-case form of a character; ASCII follows core's rule, the rest the tables. -/
def lowerChar (c : Char) : List Char :=
  if c.toNat < 128 then [c.toLower] else mapCase CaseTable.lowerWords CaseTable.lowerRuns c

/-- A text with its first character in upper case and the rest untouched. -/
def upperFirst : List Char → List Char
  | [] => []
  | c :: rest => upperChar c ++ rest

/-- A text with its first character in lower case and the rest untouched. -/
def lowerFirst : List Char → List Char
  | [] => []
  | c :: rest => lowerChar c ++ rest

/-- A text with every character in lower case. -/
def lowerText (s : String) : String :=
  .ofList (s.toList.flatMap lowerChar)

/-- A text with its ASCII letters in lower case; no other character changes. -/
def asciiLower (s : String) : String :=
  .ofList (s.toList.map Char.toLower)

end RestModule.Text
