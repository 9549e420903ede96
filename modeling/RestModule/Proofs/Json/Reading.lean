import RestModule.Document.Reading
import RestModule.Proofs.Json.Writing

/-!
# A document is read from its JSON text

The reader finds the tree of a document in its JSON text, whatever the layout
(`Json.readValue_write`): a written value begins with a character that is neither white space nor a
closing bracket, and what comes after it does not go on with a number. So the text is read back as the
document, and says the same as any other text of it (`Document.json_agrees`). -/

namespace RestModule

namespace Json

variable {layout : Layout}

/-! ## White space and separators -/

theorem skipSpace_append {space : List Char} (h : ∀ c ∈ space, isSpace c = true)
    (text : List Char) : skipSpace (space ++ text) = skipSpace text :=
  List.dropWhile_append_of_pos h

theorem skipSpace_cons {c : Char} (h : isSpace c = false) (rest : List Char) :
    skipSpace (c :: rest) = c :: rest := by
  simp [skipSpace, h]

theorem skipSpace_append_cons {space : List Char} (h : ∀ c ∈ space, isSpace c = true) {c : Char}
    (hc : isSpace c = false) (rest : List Char) : skipSpace (space ++ c :: rest) = c :: rest :=
  (skipSpace_append h _).trans (skipSpace_cons hc rest)

/-- A text that begins with a value. -/
def BeginsValue (text : List Char) : Prop :=
  ∃ c rest, text = c :: rest ∧ isSpace c = false ∧ c ≠ ']'

theorem BeginsValue.append {text : List Char} (h : BeginsValue text) (more : List Char) :
    BeginsValue (text ++ more) := by
  obtain ⟨c, rest, rfl, hc⟩ := h
  exact ⟨c, rest ++ more, rfl, hc⟩

theorem BeginsValue.skipSpace {text : List Char} (h : BeginsValue text) :
    Json.skipSpace text = text := by
  obtain ⟨c, rest, rfl, hc, -⟩ := h
  exact skipSpace_cons hc rest

theorem BeginsValue.length_pos {text : List Char} (h : BeginsValue text) : 0 < text.length := by
  obtain ⟨c, rest, rfl, -⟩ := h
  exact Nat.succ_pos _

theorem beginsValue_toString (value : Int) : BeginsValue (toString value).toList := by
  obtain ⟨c, rest, hcons, hc⟩ := exists_toString value
  refine ⟨c, rest, hcons, ?_, ?_⟩
  · cases hspace : isSpace c with
    | false => rfl
    | true =>
      simp only [isSpace, Bool.or_eq_true, beq_iff_eq] at hspace
      rcases hspace with ((rfl | rfl) | rfl) | rfl <;> simp at hc
  · rintro rfl
    simp at hc

theorem beginsValue_write {depth : Nat} {document : Document} (h : document.Portable depth)
    (level : Nat) : BeginsValue (write layout level document) := by
  cases h with
  | null => exact ⟨'n', _, rfl, by decide⟩
  | bool value =>
    cases value with
    | true => exact ⟨'t', _, rfl, by decide⟩
    | false => exact ⟨'f', _, rfl, by decide⟩
  | @int _ value => exact beginsValue_toString value
  | text value => exact ⟨'"', _, rfl, by decide⟩
  | list => exact ⟨'[', _, rfl, by decide⟩
  | map => exact ⟨'\x7b', _, rfl, by decide⟩

theorem endsNumber_append {space : List Char} (h : ∀ c ∈ space, isSpace c = true)
    {text : List Char} (htext : EndsNumber text) : EndsNumber (space ++ text) := by
  cases space with
  | nil => exact htext
  | cons c space =>
    intro d hd
    obtain rfl : c = d := by simpa using hd
    have hc := h c List.mem_cons_self
    simp only [isSpace, Bool.or_eq_true, beq_iff_eq] at hc
    rcases hc with ((rfl | rfl) | rfl) | rfl <;> decide

theorem endsNumber_writeItems (level : Nat) (items : List Document) (rest : List Char) :
    EndsNumber (writeItems layout level false items ++ rest) := by
  cases items with
  | nil =>
    rw [writeItems, List.append_assoc]
    exact endsNumber_append (layout.isSpace_of_mem_closing level false) (by simp [EndsNumber])
  | cons item items => simp [writeItems, comma, EndsNumber]

theorem endsNumber_writeEntries (level : Nat) (entries : List (String × Document))
    (rest : List Char) : EndsNumber (writeEntries layout level false entries ++ rest) := by
  cases entries with
  | nil =>
    rw [writeEntries, List.append_assoc]
    exact endsNumber_append (layout.isSpace_of_mem_closing level false) (by simp [EndsNumber])
  | cons entry entries => simp [writeEntries, comma, EndsNumber]

/-! ## Steps of the reader -/

theorem readValue_append {space : List Char} (h : ∀ c ∈ space, isSpace c = true)
    (fuel depth : Nat) (text : List Char) :
    readValue fuel depth (space ++ text) = readValue fuel depth text := by
  cases fuel with
  | zero => rw [readValue, readValue]
  | succ fuel => rw [readValue, readValue, skipSpace_append h]

theorem readItems_comma {space text : List Char} (h : ∀ c ∈ space, isSpace c = true)
    (htext : BeginsValue text) (fuel depth : Nat) (first : Bool) :
    readItems (fuel + 1) depth first (comma first ++ (space ++ text)) =
      readItem fuel depth text := by
  obtain ⟨c, rest, rfl, hc, hclose⟩ := htext
  have hskip := skipSpace_append_cons h hc rest
  cases first with
  | true => simp [readItems, comma, hskip, hclose]
  | false =>
    have hseparator : skipSpace (',' :: (space ++ c :: rest)) = ',' :: (space ++ c :: rest) :=
      skipSpace_cons (by decide) _
    simp [readItems, comma, hseparator, hskip, hclose]

theorem readItems_close {space : List Char} (h : ∀ c ∈ space, isSpace c = true)
    (fuel depth : Nat) (first : Bool) (rest : List Char) :
    readItems (fuel + 1) depth first (space ++ ']' :: rest) = ([], some rest) := by
  have hskip : skipSpace (space ++ ']' :: rest) = ']' :: rest :=
    skipSpace_append_cons h (by decide) rest
  simp [readItems, hskip]

theorem readEntries_comma {space : List Char} (h : ∀ c ∈ space, isSpace c = true)
    (fuel depth : Nat) (first : Bool) (text : List Char) :
    readEntries (fuel + 1) depth first (comma first ++ (space ++ '"' :: text)) =
      readEntry fuel depth ('"' :: text) := by
  have hskip : skipSpace (space ++ '"' :: text) = '"' :: text :=
    skipSpace_append_cons h (by decide) text
  cases first with
  | true => simp [readEntries, comma, hskip]
  | false =>
    have hseparator : skipSpace (',' :: (space ++ '"' :: text)) = ',' :: (space ++ '"' :: text) :=
      skipSpace_cons (by decide) _
    simp [readEntries, comma, hseparator, hskip]

theorem readEntries_close {space : List Char} (h : ∀ c ∈ space, isSpace c = true)
    (fuel depth : Nat) (first : Bool) (rest : List Char) :
    readEntries (fuel + 1) depth first (space ++ '\x7d' :: rest) = ([], some rest) := by
  have hskip : skipSpace (space ++ '\x7d' :: rest) = '\x7d' :: rest :=
    skipSpace_append_cons h (by decide) rest
  simp [readEntries, hskip]

/-! ## Values -/

theorem readValue_text (fuel depth : Nat) (s : String) (rest : List Char) :
    readValue (fuel + 1) depth (writeText s ++ rest) = (.text s, some rest) := by
  have hskip : skipSpace ('"' :: (s.toList.flatMap writeChar ++ '"' :: rest)) =
      '"' :: (s.toList.flatMap writeChar ++ '"' :: rest) := skipSpace_cons (by decide) _
  simp [readValue, writeText, hskip, readText_writeText]

theorem readValue_int {value : Int} (h : Fits value) (fuel depth : Nat) {rest : List Char}
    (hrest : EndsNumber rest) :
    readValue (fuel + 1) depth ((toString value).toList ++ rest) = (.int value, some rest) := by
  have hread := readNumber_toString h hrest
  have hskip := ((beginsValue_toString value).append rest).skipSpace
  obtain ⟨c, more, hcons, hc⟩ := exists_toString value
  rw [hcons, List.cons_append] at hread hskip ⊢
  rw [readValue, hskip]
  split
  case h_7 => rw [hread]
  all_goals
    rename_i htext
    rw [(List.cons.inj htext).1] at hc
    simp at hc

theorem readItem_of_value {fuel depth : Nat} {text more : List Char} {node : Node}
    {items : List Node} {rest : List Char} (hvalue : readValue fuel depth text = (node, some more))
    (hitems : readItems fuel depth false more = (items, some rest)) :
    readItem (fuel + 1) depth text = (node :: items, some rest) := by
  rw [readItem, hvalue]
  simp only [hitems]

theorem readEntry_of_value {fuel depth : Nat} {key : String} {text more : List Char} {node : Node}
    {entries : List (Key × Node)} {rest : List Char}
    (hvalue : readValue fuel depth text = (node, some more))
    (hentries : readEntries fuel depth false more = (entries, some rest)) :
    readEntry (fuel + 1) depth (writeText key ++ ':' :: text) =
      ((.text key, node) :: entries, some rest) := by
  have hskip : skipSpace (':' :: text) = ':' :: text := skipSpace_cons (by decide) text
  simp [writeText, readEntry, readText_writeText, hskip, hvalue, hentries]

theorem length_writeItems_pos (layout : Layout) (level : Nat) (first : Bool) (items : List Document) :
    0 < (writeItems layout level first items).length := by
  induction items generalizing first with
  | nil => simp [writeItems]
  | cons item items ih =>
    have hitems := ih false
    simp only [writeItems, List.length_append]
    omega

theorem length_writeEntries_pos (layout : Layout) (level : Nat) (first : Bool)
    (entries : List (String × Document)) :
    0 < (writeEntries layout level first entries).length := by
  induction entries generalizing first with
  | nil => simp [writeEntries]
  | cons entry entries ih =>
    have hentries := ih false
    simp only [writeEntries, List.length_append]
    omega

mutual

/-- A written value is read as its tree. Each step of the reader takes one unit of fuel, and a value
takes no more than three steps for each of its characters. -/
theorem readValue_write :
    ∀ (document : Document) {depth : Nat}, document.Portable depth → ∀ (level : Nat) {fuel : Nat},
      3 * (write layout level document).length ≤ fuel → ∀ {rest : List Char}, EndsNumber rest →
        readValue fuel depth (write layout level document ++ rest) = (document.node, some rest)
  | document, depth, h, level, fuel, hfuel, rest, hrest => by
    have hbegins : BeginsValue (write layout level document) := beginsValue_write h level
    have hlength := hbegins.length_pos
    obtain ⟨fuel, rfl⟩ : ∃ n, fuel = n + 1 := ⟨fuel - 1, by omega⟩
    match document, h with
    | .null, _ =>
      simp [write, readValue, skipSpace, isSpace, readWord, List.isPrefixOf?, Document.node]
    | .bool value, _ =>
      cases value <;>
        simp [write, readValue, skipSpace, isSpace, readWord, List.isPrefixOf?, Document.node]
    | .int value, .int hvalue => exact readValue_int hvalue fuel _ hrest
    | .text value, _ => exact readValue_text fuel _ value rest
    | .list items, .list hitems =>
      rw [write, List.length_cons] at hfuel
      have hread : readItems fuel _ true (writeItems layout level true items ++ rest) =
          (Document.itemNodes items, some rest) :=
        readItems_write items hitems level true (by omega) rest
      rw [write, List.cons_append, readValue, skipSpace_cons (by decide)]
      simp only [hread, Document.node]
    | .map entries, .map _ hvalues =>
      rw [write, List.length_cons] at hfuel
      have hread : readEntries fuel _ true (writeEntries layout level true entries ++ rest) =
          (Document.entryNodes entries, some rest) :=
        readEntries_write entries hvalues level true (by omega) rest
      rw [write, List.cons_append, readValue, skipSpace_cons (by decide)]
      simp only [hread, Document.node]

theorem readItems_write :
    ∀ (items : List Document) {depth : Nat}, (∀ item ∈ items, item.Portable depth) →
      ∀ (level : Nat) (first : Bool) {fuel : Nat},
        3 * (writeItems layout level first items).length ≤ fuel → ∀ rest : List Char,
          readItems fuel depth first (writeItems layout level first items ++ rest) =
            (Document.itemNodes items, some rest)
  | [], depth, _, level, first, fuel, hfuel, rest => by
    have hlength := length_writeItems_pos layout level first []
    obtain ⟨fuel, rfl⟩ : ∃ n, fuel = n + 1 := ⟨fuel - 1, by omega⟩
    rw [writeItems, List.append_assoc]
    exact readItems_close (layout.isSpace_of_mem_closing level first) fuel depth first rest
  | item :: items, depth, h, level, first, fuel, hfuel, rest => by
    obtain ⟨hitem, hitems⟩ := List.forall_mem_cons.mp h
    have hbegins : BeginsValue (write layout (level + 1) item) := beginsValue_write hitem _
    have hlength := hbegins.length_pos
    have hmore : 0 < (writeItems layout level false items).length := length_writeItems_pos ..
    rw [writeItems] at hfuel ⊢
    simp only [List.length_append] at hfuel
    obtain ⟨fuel, rfl⟩ : ∃ n, fuel = n + 2 := ⟨fuel - 2, by omega⟩
    have hvalue : readValue fuel depth (write layout (level + 1) item ++
        (writeItems layout level false items ++ rest)) =
          (item.node, some (writeItems layout level false items ++ rest)) :=
      readValue_write item hitem (level + 1) (by omega) (endsNumber_writeItems level items rest)
    have hitems : readItems fuel depth false (writeItems layout level false items ++ rest) =
        (Document.itemNodes items, some rest) :=
      readItems_write items hitems level false (by omega) rest
    simp only [List.append_assoc]
    rw [readItems_comma (layout.isSpace_of_mem_line _) (hbegins.append _)]
    exact readItem_of_value hvalue hitems

theorem readEntries_write :
    ∀ (entries : List (String × Document)) {depth : Nat},
      (∀ entry ∈ entries, entry.2.Portable depth) →
        ∀ (level : Nat) (first : Bool) {fuel : Nat},
          3 * (writeEntries layout level first entries).length ≤ fuel → ∀ rest : List Char,
            readEntries fuel depth first (writeEntries layout level first entries ++ rest) =
              (Document.entryNodes entries, some rest)
  | [], depth, _, level, first, fuel, hfuel, rest => by
    have hlength := length_writeEntries_pos layout level first []
    obtain ⟨fuel, rfl⟩ : ∃ n, fuel = n + 1 := ⟨fuel - 1, by omega⟩
    rw [writeEntries, List.append_assoc]
    exact readEntries_close (layout.isSpace_of_mem_closing level first) fuel depth first rest
  | (key, value) :: entries, depth, h, level, first, fuel, hfuel, rest => by
    obtain ⟨hvalue, hvalues⟩ := List.forall_mem_cons.mp h
    have hmore : 0 < (writeEntries layout level false entries).length :=
      length_writeEntries_pos ..
    rw [writeEntries] at hfuel ⊢
    simp only [List.length_append, List.length_cons] at hfuel
    obtain ⟨fuel, rfl⟩ : ∃ n, fuel = n + 2 := ⟨fuel - 2, by omega⟩
    have hread : readValue fuel depth (layout.gap ++ (write layout (level + 1) value ++
        (writeEntries layout level false entries ++ rest))) =
          (value.node, some (writeEntries layout level false entries ++ rest)) :=
      (readValue_append layout.isSpace_of_mem_gap fuel depth _).trans <|
        readValue_write value hvalue (level + 1) (by omega)
          (endsNumber_writeEntries level entries rest)
    have hentries : readEntries fuel depth false (writeEntries layout level false entries ++ rest) =
        (Document.entryNodes entries, some rest) :=
      readEntries_write entries hvalues level false (by omega) rest
    simp only [List.append_assoc, List.cons_append]
    exact (readEntries_comma (layout.isSpace_of_mem_line _) _ _ _ _).trans
      (readEntry_of_value hread hentries)

end

end Json

/-! ## Whole texts -/

namespace Document

/-- The JSON text of a document. -/
def jsonText (layout : Json.Layout) (document : Document) : String :=
  .ofList (Json.write layout 0 document)

variable {layout : Json.Layout} {document : Document}

theorem Portable.read_jsonText (h : document.Portable Json.depthLimit) :
    Json.read (document.jsonText layout) = ⟨document.node, true⟩ := by
  have hend : Json.EndsNumber [] := by simp [Json.EndsNumber]
  have hread : Json.readValue (3 * (Json.write layout 0 document).length + 3) Json.depthLimit
      (Json.write layout 0 document ++ []) = (document.node, some []) :=
    Json.readValue_write document h 0 (Nat.le_add_right _ 3) hend
  rw [List.append_nil] at hread
  simp [Json.read, jsonText, hread, Json.skipSpace]

theorem isJson_jsonText (h : document.isMap = true) : isJson (document.jsonText layout) = true := by
  cases document with
  | map entries =>
    have hbrace : Text.isBlank '\x7b' = false := by decide
    simp [isJson, Text.firstVisible?, jsonText, Json.write, hbrace]
  | _ => cases h

theorem Portable.parse_jsonText (h : document.Portable Json.depthLimit)
    (hroot : document.isMap = true) : parse (document.jsonText layout) = .ok document := by
  rw [parse, if_pos (isJson_jsonText hroot), h.read_jsonText,
    Reading.document_of_unambiguous h.unambiguous_node rfl, plain_node, if_pos hroot]

/-- A document that JSON carries without loss is read from its JSON text, on one line or indented, and
a description that is written in any other way states the same as the JSON text of its document. -/
theorem json_agrees (layout : Json.Layout) {document : Document} (h : document.Portable 127)
    (hroot : document.isMap = true) :
    parse (document.jsonText layout) = .ok document ∧
      ∀ text, parse text = .ok document →
        Definition.ofText (document.jsonText layout) = Definition.ofText text := by
  have hparse : parse (document.jsonText layout) = .ok document := h.parse_jsonText hroot
  refine ⟨hparse, ?_⟩
  intro text htext
  rw [Definition.ofText, Definition.ofText, hparse, htext]

/-- A text in YAML with a number as a key and a quoted tab, and its JSON texts. -/
theorem json_agrees_tab :
    Definition.ofText "\x7b\"zeta\":[1,-2],\"200\":\"a\\tb\"\x7d" =
        Definition.ofText "zeta: [1, -2]\n200: \"a\\tb\"\n" ∧
      Definition.ofText
          "\x7b\n  \"zeta\": [\n    1,\n    -2\n  ],\n  \"200\": \"a\\tb\"\n\x7d" =
        Definition.ofText "zeta: [1, -2]\n200: \"a\\tb\"\n" := by
  have hone : Portable 125 (.int 1) := .int (by simp [Json.Fits])
  have htwo : Portable 125 (.int (-2)) := .int (by simp [Json.Fits])
  have hzeta : Portable 126 (.list [.int 1, .int (-2)]) := .list (by simp [hone, htwo])
  have hroot : Portable 127 (.map [("zeta", .list [.int 1, .int (-2)]), ("200", .text "a\tb")]) :=
    .map (by simp) (by simp [hzeta, Portable.text])
  have hyaml : parse "zeta: [1, -2]\n200: \"a\\tb\"\n" =
      .ok (.map [("zeta", .list [.int 1, .int (-2)]), ("200", .text "a\tb")]) := rfl
  exact ⟨(json_agrees .compact hroot rfl).2 _ hyaml, (json_agrees .pretty hroot rfl).2 _ hyaml⟩

end Document

end RestModule
