import RestModule.Proofs.Naming
import RestModule.Proofs.Spec.Grammar

/-!
# Readable types and parameters

What the readers of schemas and parameters make of a document is what the grammar says of it
(`SchemaType.ofDocument_eq_ok_iff`, `RawParameter.ofEntries_eq_ok_iff`), and a type map resolves a
body exactly if the grammar has it bind (`TypeMap.exists_schemaBody_iff`). -/

namespace RestModule

open Document (MappingUnder under)
open List (Forall₂)

/-! ## Lists of entries -/

private theorem exists_forall₂_iff {α β : Type} {R : α → β → Prop} {p : β → Prop} {xs : List α} :
    (∃ ys, Forall₂ R xs ys ∧ ∀ y ∈ ys, p y) ↔ ∀ x ∈ xs, ∃ y, R x y ∧ p y := by
  induction xs with
  | nil => exact ⟨fun _ => by simp, fun _ => ⟨[], .nil, by simp⟩⟩
  | cons x rest ih =>
    rw [List.forall_mem_cons, ← ih]
    constructor
    · rintro ⟨ys, hall, h⟩
      cases hall with
      | cons hfirst hrest =>
        obtain ⟨hy, hys⟩ := List.forall_mem_cons.mp h
        exact ⟨⟨_, hfirst, hy⟩, _, hrest, hys⟩
    · rintro ⟨⟨y, hfirst, hy⟩, ys, hrest, hys⟩
      exact ⟨y :: ys, .cons hfirst hrest, List.forall_mem_cons.mpr ⟨hy, hys⟩⟩

/-- Entries and what is made of them under the same keys. -/
def Keyed {α β : Type} (R : α → β → Prop) : List (String × α) → List (String × β) → Prop :=
  Forall₂ fun x y => x.1 = y.1 ∧ R x.2 y.2

namespace Keyed

variable {α β : Type} {R : α → β → Prop} {xs : List (String × α)} {ys : List (String × β)}

theorem keys_eq (h : Keyed R xs ys) : ys.map (·.1) = xs.map (·.1) := by
  induction h with
  | nil => rfl
  | cons hfirst _ ih => rw [List.map_cons, List.map_cons, hfirst.1, ih]

theorem lookup (h : Keyed R xs ys) (key : String) :
    Option.Rel R (xs.lookup key) (ys.lookup key) := by
  induction h with
  | nil => exact .none
  | @cons x y xs ys hfirst _ ih =>
    obtain ⟨xkey, x⟩ := x
    obtain ⟨ykey, y⟩ := y
    obtain ⟨rfl, hvalue⟩ := hfirst
    rw [List.lookup_cons, List.lookup_cons]
    cases key == xkey with
    | true => exact .some hvalue
    | false => exact ih

/-- Making something of each entry, where it is possible, keeps the keys. -/
theorem mapM_eq_ok_iff {p : String × α → Prop} {f : String × α → Except Error (String × β)}
    (hf : ∀ x y, f x = .ok y ↔ p x ∧ x.1 = y.1 ∧ R x.2 y.2) :
    xs.mapM f = .ok ys ↔ (∀ x ∈ xs, p x) ∧ Keyed R xs ys := by
  simp only [Except.mapM_eq_ok_iff, hf, List.forall₂_and_left]
  rfl

/-- Something with a property can be made of each entry if it can be made of all of them. -/
theorem exists_iff {p : β → Prop} :
    (∃ ys, Keyed R xs ys ∧ ∀ y ∈ ys, p y.2) ↔ ∀ x ∈ xs, ∃ y, R x.2 y ∧ p y := by
  refine exists_forall₂_iff.trans (forall₂_congr fun x _ => ?_)
  constructor
  · rintro ⟨y, ⟨-, hvalue⟩, hy⟩
    exact ⟨y.2, hvalue, hy⟩
  · rintro ⟨y, hvalue, hy⟩
    exact ⟨(x.1, y), ⟨rfl, hvalue⟩, hy⟩

end Keyed

/-! ## Mappings -/

namespace Document

theorem entriesAt_eq_ok_iff {location : String} {document : Document}
    {entries : List (String × Document)} :
    document.entriesAt location = .ok entries ↔ document = .map entries := by
  cases document <;> simp [entriesAt]

theorem text?_eq_some_iff {document : Document} {value : String} :
    document.text? = some value ↔ document = .text value := by
  cases document <;> simp [text?]

theorem entries?_eq_some_iff {document : Document} {entries : List (String × Document)} :
    document.entries? = some entries ↔ document = .map entries := by
  cases document <;> simp [entries?]

/-- A reader of the mapping under a key that may be absent. -/
theorem readUnder_eq_ok_iff {β : Type} {key location : String} {entries : List (String × Document)}
    {read : List (String × Document) → Except Error β} {computation : Except Error β} {result : β}
    (hsome : ∀ document, entries.lookup key = some document →
      computation = document.entriesAt location >>= read)
    (hnone : entries.lookup key = none → computation = read []) :
    computation = .ok result ↔
      MappingUnder key entries ∧ read (under key entries) = .ok result := by
  cases hlookup : entries.lookup key with
  | none => simp [hnone hlookup, MappingUnder, under, hlookup]
  | some document =>
    simp only [hsome document hlookup, Except.bind_eq_ok_iff, entriesAt_eq_ok_iff, MappingUnder,
      under, hlookup, Option.some.injEq, forall_eq', Option.bind_some]
    constructor
    · rintro ⟨inner, rfl, h⟩
      exact ⟨⟨inner, rfl⟩, h⟩
    · rintro ⟨⟨inner, rfl⟩, h⟩
      exact ⟨inner, rfl, h⟩

end Document

/-! ## Types -/

namespace SchemaType

open Document (Keyword Describes)

theorem firstKeyword?_eq_some_iff {tokens : List Document} {token : String} :
    firstKeyword? tokens = some token ↔ ∃ before after, tokens = before ++ .text token :: after ∧
      token ≠ "null" ∧ ∀ other, .text other ∈ before → other = "null" := by
  rw [firstKeyword?, List.find?_eq_some_iff_append]
  constructor
  · rintro ⟨hne, nulls, more, htexts, hnulls⟩
    obtain ⟨first, second, rfl, rfl, hsecond⟩ := List.filterMap_eq_append_iff.mp htexts
    obtain ⟨skipped, found, after, rfl, hskipped, hfound, -⟩ :=
      List.filterMap_eq_cons_iff.mp hsecond
    obtain rfl := Document.text?_eq_some_iff.mp hfound
    refine ⟨first ++ skipped, after, by simp, by simpa using hne, fun other hother => ?_⟩
    rcases List.mem_append.mp hother with hother | hother
    · simpa using hnulls other (List.mem_filterMap.mpr ⟨_, hother, rfl⟩)
    · cases hskipped _ hother
  · rintro ⟨before, after, rfl, hne, hbefore⟩
    refine ⟨by simpa using hne, before.filterMap Document.text?, after.filterMap Document.text?,
      by simp [Document.text?], fun other hother => ?_⟩
    obtain ⟨item, hitem, htext⟩ := List.mem_filterMap.mp hother
    obtain rfl := Document.text?_eq_some_iff.mp htext
    simpa using hbefore other hitem

theorem keywordAt_eq_ok_iff {location token : String} {entries : List (String × Document)} :
    keywordAt location entries = .ok token ↔ Keyword entries token := by
  unfold keywordAt
  constructor
  · intro h
    split at h
    · next htype =>
      cases h
      exact .text htype
    · next htype =>
      split at h
      · next hfirst =>
        cases h
        obtain ⟨before, after, rfl, htoken, hbefore⟩ := firstKeyword?_eq_some_iff.mp hfirst
        exact .first htype htoken hbefore
      · cases h
    · cases h
    · cases h
  · intro h
    cases h with
    | text htype => rw [htype]
    | first htype htoken hbefore =>
      rw [htype]
      simp only [firstKeyword?_eq_some_iff.mpr ⟨_, _, rfl, htoken, hbefore⟩]

theorem itemsOf_eq (location : String) (entries : List (String × Document)) :
    itemsOf location entries =
      (entries.lookup "items").map (ofDocument (location ++ ".items")) := by
  induction entries with
  | nil => simp [itemsOf]
  | cons entry rest ih =>
    obtain ⟨key, value⟩ := entry
    rw [itemsOf, List.lookup_cons]
    cases hkey : "items" == key with
    | true => rfl
    | false => exact ih

theorem ofDocument_of_describes {document : Document} {type : SchemaType}
    (h : document.Describes type) (location : String) :
    ofDocument location document = .ok type := by
  induction h generalizing location with
  | reference href => simp [ofDocument, href]
  | plain href htoken hitems =>
    simp only [ofDocument, href, keywordAt_eq_ok_iff.mpr htoken, itemsOf_eq]
    split
    · next harray => simp [hitems (by simpa using harray)]
    · rfl
  | array href htoken hitems _ ih =>
    simp [ofDocument, href, keywordAt_eq_ok_iff.mpr htoken, itemsOf_eq, hitems, ih]

mutual

theorem describes_of_ofDocument (location : String) : ∀ (document : Document) {type : SchemaType},
    ofDocument location document = .ok type → document.Describes type
  | .map entries, type, h => by
    unfold ofDocument at h
    split at h
    · next href =>
      cases h
      exact .reference href
    · next href =>
      split at h
      · cases h
      · next token htoken =>
        have hkeyword := keywordAt_eq_ok_iff.mp htoken
        dsimp only at h
        split at h
        · next harray =>
          obtain rfl : token = "array" := by simpa using harray
          split at h
          · next hitems =>
            cases h
            rw [itemsOf_eq, Option.map_eq_none_iff] at hitems
            exact .plain href hkeyword fun _ => hitems
          · cases h
          · next items hitems =>
            cases h
            obtain ⟨inner, hlookup, htype⟩ := describes_of_itemsOf location entries hitems
            exact .array href hkeyword hlookup htype
        · next harray =>
          cases h
          exact .plain href hkeyword fun heq => absurd (beq_iff_eq.mpr heq) harray
  | .null, _, h | .bool _, _, h | .int _, _, h | .float _, _, h | .text _, _, h
  | .list _, _, h => by
    unfold ofDocument at h
    cases h

theorem describes_of_itemsOf (location : String) :
    ∀ (entries : List (String × Document)) {type : SchemaType},
      itemsOf location entries = some (.ok type) →
        ∃ items, entries.lookup "items" = some items ∧ items.Describes type
  | [], _, h => by
    unfold itemsOf at h
    cases h
  | (key, value) :: rest, type, h => by
    unfold itemsOf at h
    rw [List.lookup_cons]
    split at h
    · next hkey =>
      rw [hkey]
      exact ⟨value, rfl, describes_of_ofDocument _ value (Option.some.inj h)⟩
    · next hkey =>
      rw [Bool.eq_false_iff.mpr hkey]
      exact describes_of_itemsOf location rest h

end

/-- A schema is read as the type that it describes. -/
theorem ofDocument_eq_ok_iff {location : String} {document : Document} {type : SchemaType} :
    ofDocument location document = .ok type ↔ document.Describes type :=
  ⟨describes_of_ofDocument location document, fun h => ofDocument_of_describes h location⟩

end SchemaType

namespace RawParameter

theorem typeOf_eq_ok_iff {location : String} {entries : List (String × Document)}
    {type : SchemaType} :
    typeOf location entries = .ok type ↔
      ((entries.lookup "schema").getD Document.textSchema).Describes type := by
  unfold typeOf
  split
  · next schema hschema =>
    rw [hschema]
    exact SchemaType.ofDocument_eq_ok_iff
  · next hschema =>
    have hread : SchemaType.ofDocument location Document.textSchema = .ok type ↔ _ :=
      SchemaType.ofDocument_eq_ok_iff
    rw [hschema, Option.getD_none, ← hread]
    rfl

theorem ofEntries_eq_ok_iff {location : String} {entries : List (String × Document)}
    {raw : RawParameter} : ofEntries location entries = .ok raw ↔ raw.DeclaredBy entries := by
  unfold ofEntries
  constructor
  · intro h
    split at h
    · cases h
    · cases h
    · next name hempty hname =>
      obtain ⟨type, htype, rfl⟩ := Except.map_ok h
      exact ⟨hname, hempty, rfl, rfl, typeOf_eq_ok_iff.mp htype⟩
  · intro h
    obtain ⟨name, place, required, type⟩ := raw
    obtain ⟨hname, hnamed, rfl, rfl, htype⟩ := h
    dsimp only at hname hnamed htype ⊢
    split
    · next heq => cases hname.symm.trans heq
    · next heq =>
      cases hname.symm.trans heq
      exact absurd rfl hnamed
    · next heq =>
      cases hname.symm.trans heq
      rw [typeOf_eq_ok_iff.mpr htype]
      rfl

theorem ofDocument_eq_ok_iff {location : String} {document : Document} {raw : RawParameter} :
    ofDocument location document = .ok raw ↔
      ∃ entries, document = .map entries ∧ raw.DeclaredBy entries :=
  Except.bind_eq_ok_iff.trans <| exists_congr fun _ =>
    and_congr Document.entriesAt_eq_ok_iff ofEntries_eq_ok_iff

/-- The entries of a mapping declare one parameter at most. -/
theorem DeclaredBy.unique {entries : List (String × Document)} {raw other : RawParameter}
    (h : raw.DeclaredBy entries) (hother : other.DeclaredBy entries) : raw = other := by
  have hread : ofEntries "" entries = .ok raw := ofEntries_eq_ok_iff.mpr h
  exact Except.ok.inj (hread.symm.trans (ofEntries_eq_ok_iff.mpr hother))

end RawParameter

namespace TypeMap

variable {map : TypeMap}

theorem exists_javaType_iff {location : String} {type : SchemaType} :
    (∃ javaType, map.javaType location type = .ok javaType) ↔ map.Knows type := by
  constructor
  · rintro ⟨javaType, h⟩
    exact ⟨javaType, map.types_of_javaType h⟩
  · rintro ⟨javaType, h⟩
    exact ⟨javaType, h location⟩

theorem exists_resolve_iff {reference location : String} :
    (∃ name, map.resolve reference location = .ok name) ↔ map.Resolves reference := by
  constructor
  · rintro ⟨name, h⟩
    unfold resolve at h
    split at h
    · next found hfound =>
      split at h
      · next hmem => exact ⟨found, hmem, Text.after?_eq_some_iff.mp hfound⟩
      · cases h
    · cases h
  · rintro ⟨name, hname, rfl⟩
    refine ⟨name, ?_⟩
    rw [resolve, Text.after?_append]
    exact if_pos hname

/-- A type that is described and known leads to a declared schema or to none, so looking for it
does not fail. -/
theorem exists_referenced? {document : Document} {type : SchemaType} (h : document.Describes type)
    (hknows : map.Knows type) (location : String) :
    ∃ model, map.referenced? location type = .ok model := by
  -- The look-up goes through items in whatever type has them, the type map in arrays alone.
  -- A described type has items only if it is an array, and so the two look at the same references.
  have hflat : ∀ token format, map.Knows (.mk token format none) →
      ∃ model, map.referenced? location (.mk token format none) = .ok model := by
    rintro token format ⟨result, hresult⟩
    have hresult := hresult location
    unfold javaType at hresult
    unfold referenced?
    split
    · next href =>
      rw [if_pos href] at hresult
      obtain ⟨name, hname, -⟩ := Except.map_ok hresult
      rw [hname]
      exact ⟨some name, rfl⟩
    · exact ⟨none, rfl⟩
  induction h with
  | reference _ => exact hflat _ _ hknows
  | plain _ _ _ => exact hflat _ _ hknows
  | @array entries items type _ _ _ _ ih =>
    obtain ⟨result, hresult⟩ := hknows
    have hresult := hresult location
    have harray : SchemaType.isReferenceToken "array" = false := by decide
    rw [javaType, if_neg (by simp [harray]), if_pos (by simp)] at hresult
    obtain ⟨inner, hinner, -⟩ := Except.map_ok hresult
    rw [referenced?, if_neg (by simp [harray])]
    exact ih (exists_javaType_iff.mp ⟨inner, hinner⟩)

theorem exists_schemaBody_iff {location : String} {schema : Document} :
    (∃ body, map.schemaBody location schema = .ok body) ↔ map.Binds schema := by
  have hbody : ∀ {reference collection},
      (∃ body, map.bodyOf location reference collection = .ok body) ↔ map.Resolves reference := by
    intro reference collection
    exact Except.exists_map_ok_iff.trans exists_resolve_iff
  unfold schemaBody
  split
  · next reference href =>
    rw [hbody]
    refine ⟨fun h => ⟨fun other hother => ?_, fun hnone => ?_⟩, fun h => h.reference reference href⟩
    · cases href.symm.trans hother
      exact h
    · cases href.symm.trans hnone
  · next href =>
    split
    · next reference htype hitems =>
      rw [hbody]
      refine ⟨fun h => ⟨fun other hother => ?_, fun _ _ other hother => ?_⟩,
        fun h => h.items href htype reference hitems⟩
      · cases href.symm.trans hother
      · cases hitems.symm.trans hother
        exact h
    · next hother =>
      refine ⟨fun _ => ⟨fun other hsome => ?_, fun _ htype other hitems => ?_⟩,
        fun _ => ⟨none, rfl⟩⟩
      · cases href.symm.trans hsome
      · exact absurd hitems (hother other htype)

end TypeMap

end RestModule
