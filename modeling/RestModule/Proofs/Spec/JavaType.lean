import RestModule.Proofs.Spec.Schema
import RestModule.Proofs.Spec.Names

/-!
# The types that have a Java type

A declared type is judged by its innermost type, which is no array with items: that alone decides
whether there is a Java type, which one up to the brackets, and what the error is
(`TypeMap.javaType_eq_innermost`). The types that have one are given by a grammar
(`TypeMap.javaType_grammar`), and a Java type is known for a date by its text alone. -/

namespace RestModule

namespace SchemaType

/-- The type that the items of nested arrays lead to; an array without items leads nowhere else. -/
def innermost : SchemaType → SchemaType
  | .mk token format (some items) =>
    if token = "array" then items.innermost else .mk token format (some items)
  | .mk token format none => .mk token format none

/-- How many arrays are around the innermost type. -/
def levels : SchemaType → Nat
  | .mk token _ (some items) => if token = "array" then items.levels + 1 else 0
  | .mk _ _ none => 0

/-- A type that is no array with items. -/
def IsFlat (type : SchemaType) : Prop :=
  type.token = "array" → type.items = none

theorem innermost_array (format : Option String) (items : SchemaType) :
    (mk "array" format (some items)).innermost = items.innermost ∧
      (mk "array" format (some items)).levels = items.levels + 1 := by
  rw [innermost, levels]
  exact ⟨if_pos rfl, if_pos rfl⟩

theorem innermost_of_isFlat {type : SchemaType} (h : type.IsFlat) :
    type.innermost = type ∧ type.levels = 0 := by
  obtain ⟨token, format, items⟩ := type
  cases items with
  | none => exact ⟨rfl, rfl⟩
  | some items =>
    have htoken : token ≠ "array" := fun heq => nomatch h heq
    rw [innermost, levels]
    exact ⟨if_neg htoken, if_neg htoken⟩

/-- What holds of flat types and goes over from items to arrays of them holds of every type. -/
theorem array_induction {motive : SchemaType → Prop} (flat : ∀ type, type.IsFlat → motive type)
    (array : ∀ format items, motive items → motive (mk "array" format (some items))) :
    ∀ type, motive type
  | .mk token format none => flat _ fun _ => rfl
  | .mk token format (some items) => by
    have hitems := array_induction flat array items
    by_cases htoken : token = "array"
    · exact htoken ▸ array format items hitems
    · exact flat _ fun heq => absurd heq htoken

theorem innermost_isFlat (type : SchemaType) : type.innermost.IsFlat := by
  induction type using array_induction with
  | flat type h => rwa [(innermost_of_isFlat h).1]
  | array format items ih => rwa [(innermost_array format items).1]

/-- A string in the format of dates. -/
def IsDate (type : SchemaType) : Prop :=
  type.token = "string" ∧ (type.format = some "date" ∨ type.format = some "date-time")

theorem isDate_string_iff {format : Option String} {items : Option SchemaType} :
    (mk "string" format items).IsDate ↔
      (format == some "date" || format == some "date-time") = true := by
  simp [IsDate, token, SchemaType.format]

/-- What an error shows of a type that is none: its token, or that the items of an array are
missing. -/
def shownToken (type : SchemaType) : String :=
  if type.token = "array" then TypeMap.untypedArray else type.token

end SchemaType

/-- The brackets of an array with a number of levels. -/
def brackets : Nat → String
  | 0 => ""
  | levels + 1 => brackets levels ++ "[]"

theorem elementType_append_brackets (element : String) (levels : Nat) :
    elementType (element ++ brackets levels) = elementType element := by
  induction levels with
  | zero => simp only [brackets, String.append_empty]
  | succ levels ih => simp only [brackets, ← String.append_assoc, elementType_brackets, ih]

theorem needsDate_iff {type : String} : needsDate type = true ↔ elementType type = "Date" := by
  have helement : (elementType type).toList = (dropBrackets type.toList.reverse).reverse :=
    String.toList_ofList
  rw [needsDate, beq_iff_eq, ← String.toList_inj, helement, List.reverse_eq_iff]

namespace TypeMap

/-- The types that have a Java type. -/
inductive Accepts (map : TypeMap) : SchemaType → Prop where
  | keyword {token : String} (format : Option String) (items : Option SchemaType)
      (h : token ∈ ["string", "integer", "number", "boolean", "object"]) :
      Accepts map (.mk token format items)
  | reference {name : String} (format : Option String) (items : Option SchemaType)
      (h : name ∈ map.schemas) : Accepts map (.mk (schemaReference ++ name) format items)
  | array (format : Option String) {items : SchemaType} (h : Accepts map items) :
      Accepts map (.mk "array" format (some items))

/-- The Java types of the types that are no arrays. -/
inductive Spells (map : TypeMap) : SchemaType → String → Prop where
  | date {type : SchemaType} (h : type.IsDate) : Spells map type "Date"
  | string {type : SchemaType} (htoken : type.token = "string") (h : ¬ type.IsDate) :
      Spells map type "String"
  | int32 (items : Option SchemaType) : Spells map (.mk "integer" (some "int32") items) "Integer"
  | integer {format : Option String} (items : Option SchemaType) (h : format ≠ some "int32") :
      Spells map (.mk "integer" format items) "Long"
  | float (items : Option SchemaType) : Spells map (.mk "number" (some "float") items) "Float"
  | number {format : Option String} (items : Option SchemaType) (h : format ≠ some "float") :
      Spells map (.mk "number" format items) "Double"
  | boolean (format : Option String) (items : Option SchemaType) :
      Spells map (.mk "boolean" format items) "Boolean"
  | object (format : Option String) (items : Option SchemaType) :
      Spells map (.mk "object" format items) "Object"
  | model {name : String} (format : Option String) (items : Option SchemaType)
      (h : name ∈ map.schemas) :
      Spells map (.mk (schemaReference ++ name) format items) (Naming.modelClass name)

/-- A token refers to something that is no declared schema. -/
def Dangles (map : TypeMap) (token : String) : Prop :=
  (∃ rest, token = "#/" ++ rest) ∧ ¬ map.Resolves token

variable {map : TypeMap} {location : String}

/-! ## Through arrays -/

theorem javaType_array (map : TypeMap) (location : String) (format : Option String)
    (items : SchemaType) : map.javaType location (.mk "array" format (some items)) =
      (map.javaType location items).map (· ++ "[]") := by
  have harray : SchemaType.isReferenceToken "array" = false := by decide
  rw [javaType, if_neg (by simp [harray]), if_pos (by simp)]

/-- A type has the Java type of its innermost type with brackets after it, or its error. -/
theorem javaType_eq_innermost (map : TypeMap) (location : String) (type : SchemaType) :
    map.javaType location type =
      (map.javaType location type.innermost).map (· ++ brackets type.levels) := by
  induction type using SchemaType.array_induction with
  | flat type h =>
    obtain ⟨hinnermost, hlevels⟩ := SchemaType.innermost_of_isFlat h
    rw [hinnermost, hlevels]
    cases map.javaType location type with
    | ok javaType => simp [Except.map, brackets]
    | error e => rfl
  | array format items ih =>
    obtain ⟨hinnermost, hlevels⟩ := SchemaType.innermost_array format items
    rw [javaType_array, ih, hinnermost, hlevels]
    cases map.javaType location items.innermost with
    | ok javaType => simp [Except.map, brackets, String.append_assoc]
    | error e => rfl

theorem accepts_iff_innermost {type : SchemaType} :
    map.Accepts type ↔ map.Accepts type.innermost := by
  induction type using SchemaType.array_induction with
  | flat type h => rw [(SchemaType.innermost_of_isFlat h).1]
  | array format items ih =>
    rw [(SchemaType.innermost_array format items).1, ← ih]
    refine ⟨fun h => ?_, .array format⟩
    generalize htoken : "array" = token at h
    cases h with
    | keyword _ _ hkeyword => exact absurd hkeyword (htoken ▸ by decide)
    | reference _ _ hname =>
      have hnone : Text.after? schemaReference "array" = none := by decide
      rw [htoken, Text.after?_append] at hnone
      cases hnone
    | array _ hitems => exact hitems

/-! ## Types that are no arrays -/

theorem isReferenceToken_iff {token : String} :
    SchemaType.isReferenceToken token = true ↔ ∃ rest, token = "#/" ++ rest := by
  simp only [SchemaType.isReferenceToken, Option.isSome_iff_exists, Text.after?_eq_some_iff]

theorem isReferenceToken_schemaReference (name : String) :
    SchemaType.isReferenceToken (schemaReference ++ name) = true :=
  isReferenceToken_iff.mpr ⟨"components/schemas/" ++ name, by rw [← String.append_assoc]; rfl⟩

theorem resolve_error {reference : String} {error : Error}
    (h : map.resolve reference location = .error error) :
    error = .unresolved reference location ∧ ¬ map.Resolves reference := by
  have hnone : ¬ ∃ name, map.resolve reference location = .ok name := by
    rintro ⟨name, hname⟩
    cases h.symm.trans hname
  refine ⟨?_, fun hresolves => hnone (exists_resolve_iff.mpr hresolves)⟩
  unfold resolve at h
  split at h
  · split at h
    · cases h
    · exact (Except.error.inj h).symm
  · exact (Except.error.inj h).symm

theorem resolve_schemaReference {name : String} (h : name ∈ map.schemas) (location : String) :
    map.resolve (schemaReference ++ name) location = .ok name := by
  rw [resolve, Text.after?_append]
  exact if_pos h

theorem spells_of_keyword? {token type : String} {format : Option String}
    (items : Option SchemaType) (h : keyword? token format = some type) :
    map.Spells (.mk token format items) type := by
  unfold keyword? at h
  split at h
  · split at h
    · next hdate =>
      cases h
      exact .date (SchemaType.isDate_string_iff.mpr hdate)
    · next hdate =>
      cases h
      exact .string rfl (mt SchemaType.isDate_string_iff.mp hdate)
  · split at h
    · next hformat =>
      cases h
      cases eq_of_beq hformat
      exact .int32 items
    · next hformat =>
      cases h
      exact .integer items (by simpa using hformat)
  · split at h
    · next hformat =>
      cases h
      cases eq_of_beq hformat
      exact .float items
    · next hformat =>
      cases h
      exact .number items (by simpa using hformat)
  · cases h
    exact .boolean format items
  · cases h
    exact .object format items
  · cases h

theorem spells_of_javaType {type : SchemaType} {javaType : String} (hflat : type.IsFlat)
    (h : map.javaType location type = .ok javaType) : map.Spells type javaType := by
  obtain ⟨token, format, items⟩ := type
  unfold TypeMap.javaType at h
  split at h
  · obtain ⟨name, hname, rfl⟩ := Except.map_ok h
    obtain ⟨found, hmem, rfl⟩ := exists_resolve_iff.mp ⟨name, hname⟩
    cases (resolve_schemaReference hmem location).symm.trans hname
    exact .model format items hmem
  · split at h
    · next harray =>
      obtain rfl : items = none := hflat (eq_of_beq harray)
      cases h
    · split at h
      · next type hkeyword =>
        cases h
        exact spells_of_keyword? items hkeyword
      · cases h

theorem javaType_of_keyword {token type : String} {format : Option String}
    (items : Option SchemaType) (h : keyword? token format = some type)
    (href : SchemaType.isReferenceToken token = false := by decide)
    (harray : (token == "array") = false := by decide) :
    map.javaType location (.mk token format items) = .ok type := by
  unfold TypeMap.javaType
  rw [href, harray, if_neg Bool.false_ne_true, if_neg Bool.false_ne_true, h]

theorem javaType_of_spells {type : SchemaType} {javaType : String}
    (h : map.Spells type javaType) : map.javaType location type = .ok javaType := by
  obtain ⟨token, format, items⟩ := type
  cases h with
  | date h =>
    obtain rfl : token = "string" := h.1
    have hformat := SchemaType.isDate_string_iff.mp h
    exact javaType_of_keyword items (congrArg some (if_pos hformat))
  | string htoken h =>
    obtain rfl : token = "string" := htoken
    have hformat := mt SchemaType.isDate_string_iff.mpr h
    exact javaType_of_keyword items (congrArg some (if_neg hformat))
  | int32 => exact javaType_of_keyword items rfl
  | integer _ h => exact javaType_of_keyword items (congrArg some (if_neg (by simpa using h)))
  | float => exact javaType_of_keyword items rfl
  | number _ h => exact javaType_of_keyword items (congrArg some (if_neg (by simpa using h)))
  | boolean => exact javaType_of_keyword items rfl
  | object => exact javaType_of_keyword items rfl
  | @model name _ _ h =>
    unfold TypeMap.javaType
    rw [if_pos (isReferenceToken_schemaReference name), resolve_schemaReference h]
    rfl

theorem exists_spells_iff {type : SchemaType} (hflat : type.IsFlat) :
    (∃ javaType, map.Spells type javaType) ↔ map.Accepts type := by
  constructor
  · rintro ⟨javaType, h⟩
    obtain ⟨token, format, items⟩ := type
    cases h with
    | date h =>
      obtain rfl : token = "string" := h.1
      exact .keyword _ _ (by decide)
    | string htoken _ =>
      obtain rfl : token = "string" := htoken
      exact .keyword _ _ (by decide)
    | int32 | integer | float | number | boolean | object => exact .keyword _ _ (by decide)
    | model _ _ h => exact .reference _ _ h
  · intro h
    cases h with
    | @keyword token format items h =>
      have hkeyword : ∃ javaType, keyword? token format = some javaType := by
        simp only [List.mem_cons, List.not_mem_nil, or_false] at h
        rcases h with rfl | rfl | rfl | rfl | rfl <;> exact ⟨_, rfl⟩
      obtain ⟨javaType, hkeyword⟩ := hkeyword
      exact ⟨javaType, spells_of_keyword? items hkeyword⟩
    | reference format items h => exact ⟨_, .model format items h⟩
    | array format h => cases hflat rfl

theorem not_dangles_of_javaType {type : SchemaType} {javaType : String}
    (h : map.javaType location type = .ok javaType) : ¬ map.Dangles type.token := by
  obtain ⟨token, format, items⟩ := type
  rintro ⟨href, hresolves⟩
  have href : SchemaType.isReferenceToken token = true := isReferenceToken_iff.mpr href
  unfold TypeMap.javaType at h
  rw [if_pos href] at h
  obtain ⟨name, hname, -⟩ := Except.map_ok h
  exact hresolves (exists_resolve_iff.mp ⟨name, hname⟩)

/-- The error of a type that is no array: the reference does not resolve, or there is none. -/
theorem error_of_javaType {type : SchemaType} {error : Error} (hflat : type.IsFlat)
    (h : map.javaType location type = .error error) :
    error = .unresolved type.token location ∧ map.Dangles type.token ∨
      error = .unknownType type.shownToken location ∧ ¬ map.Dangles type.token := by
  obtain ⟨token, format, items⟩ := type
  unfold TypeMap.javaType at h
  split at h
  · next href =>
    obtain ⟨rfl, hresolves⟩ := resolve_error (Except.map_error h)
    exact .inl ⟨rfl, isReferenceToken_iff.mp href, hresolves⟩
  · next href =>
    refine .inr ⟨?_, fun hdangles => href (isReferenceToken_iff.mpr hdangles.1)⟩
    split at h
    · next harray =>
      obtain rfl : items = none := hflat (eq_of_beq harray)
      rw [SchemaType.shownToken, SchemaType.token, if_pos (eq_of_beq harray)]
      exact (Except.error.inj h).symm
    · next harray =>
      rw [SchemaType.shownToken, SchemaType.token, if_neg (by simpa using harray)]
      split at h
      · cases h
      · exact (Except.error.inj h).symm

/-- A Java type spells a date exactly if its type is one: no other type is named so. -/
theorem Spells.elementType_eq_date_iff {type : SchemaType} {javaType : String}
    (h : map.Spells type javaType) : elementType javaType = "Date" ↔ type.IsDate := by
  have hother : ∀ {token name : String} {format : Option String} {items : Option SchemaType},
      token ≠ "string" → elementType name ≠ "Date" →
        (elementType name = "Date" ↔ (SchemaType.mk token format items).IsDate) :=
    fun htoken hname => ⟨fun heq => absurd heq hname, fun hdate => absurd hdate.1 htoken⟩
  cases h with
  | date h => exact ⟨fun _ => h, fun _ => by decide⟩
  | string _ h => exact ⟨fun heq => absurd heq (by decide), fun hdate => absurd hdate h⟩
  | int32 | integer | float | number | boolean | object => exact hother (by decide) (by decide)
  | @model name _ _ _ =>
    apply hother
    · intro htoken
      have hnone : Text.after? schemaReference "string" = none := by decide
      rw [← htoken, Text.after?_append] at hnone
      cases hnone
    · rw [elementType_modelClass]
      intro heq
      have hsuffix := Naming.suffix_modelClass name
      rw [heq] at hsuffix
      exact absurd hsuffix (by decide)

/-! ## All types -/

/-- A Java type is that of the innermost type with its brackets. -/
theorem javaType_eq_ok_iff {type : SchemaType} {javaType : String} :
    map.javaType location type = .ok javaType ↔
      ∃ element, map.Spells type.innermost element ∧ javaType = element ++ brackets type.levels := by
  rw [javaType_eq_innermost, Except.map_eq_ok_iff]
  refine exists_congr fun element => and_congr ?_ eq_comm
  exact ⟨spells_of_javaType type.innermost_isFlat, javaType_of_spells⟩

theorem exists_javaType_iff_accepts {type : SchemaType} :
    (∃ javaType, map.javaType location type = .ok javaType) ↔ map.Accepts type := by
  rw [accepts_iff_innermost, ← exists_spells_iff type.innermost_isFlat]
  simp only [javaType_eq_ok_iff]
  constructor
  · rintro ⟨javaType, element, hspells, -⟩
    exact ⟨element, hspells⟩
  · rintro ⟨element, hspells⟩
    exact ⟨_, element, hspells, rfl⟩

theorem not_dangles_innermost {type : SchemaType} {javaType : String}
    (h : map.javaType location type = .ok javaType) : ¬ map.Dangles type.innermost.token := by
  obtain ⟨element, hspells, -⟩ := javaType_eq_ok_iff.mp h
  have helement : map.javaType location type.innermost = .ok element := javaType_of_spells hspells
  exact not_dangles_of_javaType helement

/-- Why a type has no Java type is said of its innermost type. -/
theorem error_cases {type : SchemaType} {error : Error}
    (h : map.javaType location type = .error error) :
    error = .unresolved type.innermost.token location ∧ map.Dangles type.innermost.token ∨
      error = .unknownType type.innermost.shownToken location ∧
        ¬ map.Dangles type.innermost.token := by
  rw [javaType_eq_innermost] at h
  exact error_of_javaType type.innermost_isFlat (Except.map_error h)

/-- What the type map makes of a declared type: its Java type, or why there is none. -/
structure Judges (map : TypeMap) (location : String) (type : SchemaType) : Prop where
  accepted : (∃ javaType, map.javaType location type = .ok javaType) ↔ map.Accepts type
  /-- The Java type is that of the innermost type, with a pair of brackets for each array. -/
  result : ∀ javaType, map.javaType location type = .ok javaType ↔
    ∃ element, map.Spells type.innermost element ∧ javaType = element ++ brackets type.levels
  unresolved : map.javaType location type = .error (.unresolved type.innermost.token location) ↔
    map.Dangles type.innermost.token
  unknown : map.javaType location type = .error (.unknownType type.innermost.shownToken location) ↔
    ¬ map.Accepts type ∧ ¬ map.Dangles type.innermost.token
  dates : ∀ javaType, map.javaType location type = .ok javaType →
    (needsDate javaType = true ↔ type.innermost.IsDate)

/-- The type map accepts exactly the types of the grammar. -/
theorem javaType_grammar (map : TypeMap) (location : String) (type : SchemaType) :
    map.Judges location type := by
  refine ⟨exists_javaType_iff_accepts, fun _ => javaType_eq_ok_iff, ?unresolved, ?unknown, ?dates⟩
  case dates =>
    intro javaType h
    obtain ⟨element, hspells, rfl⟩ := javaType_eq_ok_iff.mp h
    rw [needsDate_iff, elementType_append_brackets, hspells.elementType_eq_date_iff]
  case unresolved =>
    cases htype : map.javaType location type with
    | ok javaType => exact ⟨nofun, fun h => absurd h (not_dangles_innermost htype)⟩
    | error error =>
      rcases error_cases htype with ⟨rfl, hdangling⟩ | ⟨rfl, hnot⟩
      · exact ⟨fun _ => hdangling, fun _ => rfl⟩
      · exact ⟨nofun, fun h => absurd h hnot⟩
  case unknown =>
    have haccepted : (∃ javaType, map.javaType location type = .ok javaType) ↔ map.Accepts type :=
      exists_javaType_iff_accepts
    rw [← haccepted]
    cases htype : map.javaType location type with
    | ok javaType => exact ⟨nofun, fun h => absurd ⟨javaType, rfl⟩ h.1⟩
    | error error =>
      have hnone : ¬ ∃ javaType, (.error error : Except Error String) = .ok javaType := by simp
      rcases error_cases htype with ⟨rfl, hdangling⟩ | ⟨rfl, hnot⟩
      · exact ⟨nofun, fun h => absurd hdangling h.2⟩
      · exact ⟨fun _ => ⟨hnone, hnot⟩, fun _ => rfl⟩

/-- A matrix of dates, and a model whose name begins like that of a date. -/
example :
    let dates : SchemaType := .mk "array" none (some (.mk "string" (some "date") none))
    let map : TypeMap := ⟨["Date"]⟩
    map.javaType "here" (.mk "array" none (some dates)) = .ok "Date[][]" ∧
      map.javaType "here" (.mk "#/components/schemas/Date" none none) = .ok "DateDTO" ∧
      needsDate "Date[][]" = true ∧ needsDate "DateDTO" = false := by
  intro dates map
  exact ⟨rfl, rfl, by decide, by decide⟩

end TypeMap

end RestModule
