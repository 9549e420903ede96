import Mathlib.Data.List.Induction
import Mathlib.Data.List.Nodup
import RestModule.Document.Reading

/-!
# What a tree of nodes stands for

A tree is unambiguous if the keys of each mapping in it have distinct texts and its numbers are
finite. It then stands for its plain document, which has the same values in the same order
(`Node.document_of_unambiguous`). Any other tree that has been delivered in full is refused for its
first offence (`Node.document_of_firstOffence`), and nothing else decides what becomes of a text whose
tree this is (`Document.parse_judged`). -/

namespace RestModule

/-- The texts of the keys of entries. -/
def Node.keyTexts (entries : List (Key × Node)) : List String :=
  entries.filterMap (·.1.text?)

namespace Node

/-- A tree that a reader has delivered to its end. -/
inductive Whole : Node → Prop where
  | null : Whole .null
  | bool (value : Bool) : Whole (.bool value)
  | int (value : Int) : Whole (.int value)
  | float (value : Float) : Whole (.float value)
  | text (value : String) : Whole (.text value)
  | list {items : List Node} (hitems : ∀ item ∈ items, Whole item) : Whole (.list items)
  | map {entries : List (Key × Node)} (hkeys : ∀ entry ∈ entries, entry.1 ≠ .broken)
      (hvalues : ∀ entry ∈ entries, Whole entry.2) : Whole (.map entries)
  | tagged (tag : String) {node : Node} (hnode : Whole node) : Whole (.tagged tag node)

/-- A tree that stands for a document. -/
inductive Unambiguous : Node → Prop where
  | null : Unambiguous .null
  | bool (value : Bool) : Unambiguous (.bool value)
  | int (value : Int) : Unambiguous (.int value)
  | float {value : Float} (hfinite : Decimal.isFinite value = true) : Unambiguous (.float value)
  | text (value : String) : Unambiguous (.text value)
  | list {items : List Node} (hitems : ∀ item ∈ items, Unambiguous item) :
      Unambiguous (.list items)
  | map {entries : List (Key × Node)} (hkeys : ∀ entry ∈ entries, entry.1 ≠ .broken)
      (hdistinct : (keyTexts entries).Nodup) (hvalues : ∀ entry ∈ entries, Unambiguous entry.2) :
      Unambiguous (.map entries)
  | tagged (tag : String) {node : Node} (hnode : Unambiguous node) :
      Unambiguous (.tagged tag node)

/-- The first offence of a tree at a location: what comes before it in reading order is
unambiguous. -/
inductive FirstOffence : String → Node → Error → Prop where
  | nonFinite {location : String} {value : Float} (hvalue : Decimal.isFinite value = false) :
      FirstOffence location (.float value)
        (.malformed location (.nonFinite (Decimal.plainText value)))
  | item {location : String} {before after : List Node} {item : Node} {error : Error}
      (hbefore : ∀ earlier ∈ before, Unambiguous earlier)
      (hitem : FirstOffence (itemLocation location before.length) item error) :
      FirstOffence location (.list (before ++ item :: after)) error
  /-- The value of a repeated key does not come before the key. -/
  | repeated {location : String} {before after : List (Key × Node)} {key : Key} {value : Node}
      {name : String} (hbefore : Unambiguous (.map before)) (hkey : key.text? = some name)
      (hname : name ∈ keyTexts before) :
      FirstOffence location (.map (before ++ (key, value) :: after))
        (.malformed (keyLocation location name) .declaredTwice)
  | value {location : String} {before after : List (Key × Node)} {key : Key} {value : Node}
      {name : String} {error : Error} (hbefore : Unambiguous (.map before))
      (hkey : key.text? = some name) (hname : name ∉ keyTexts before)
      (hvalue : FirstOffence (keyLocation location name) value error) :
      FirstOffence location (.map (before ++ (key, value) :: after)) error
  | tagged {location : String} (tag : String) {node : Node} {error : Error}
      (hnode : FirstOffence location node error) : FirstOffence location (.tagged tag node) error

mutual

/-- A tree without its tags and with texts as keys. -/
def plain : Node → Document
  | null | broken => .null
  | bool value => .bool value
  | int value => .int value
  | float value => .float value
  | text value => .text value
  | list items => .list (plainItems items)
  | map entries => .map (plainEntries entries)
  | tagged _ node => plain node

/-- The plain documents of items. -/
def plainItems : List Node → List Document
  | [] => []
  | item :: rest => plain item :: plainItems rest

/-- The plain documents of values, under the texts of their keys. -/
def plainEntries : List (Key × Node) → List (String × Document)
  | [] => []
  | (key, value) :: rest => (key.text?.getD "", plain value) :: plainEntries rest

end

/-! ## Unambiguous trees -/

theorem exists_text {key : Key} (h : key ≠ .broken) : ∃ name, key.text? = some name := by
  cases key with
  | broken => exact absurd rfl h
  | _ => exact ⟨_, rfl⟩

theorem keyTexts_cons {key : Key} {value : Node} {name : String} {rest : List (Key × Node)}
    (h : key.text? = some name) : keyTexts ((key, value) :: rest) = name :: keyTexts rest :=
  List.filterMap_cons_some h

theorem keyTexts_concat {key : Key} {name : String} (h : key.text? = some name)
    (before : List (Key × Node)) (value : Node) :
    keyTexts (before ++ [(key, value)]) = (keyTexts before).concat name := by
  simp [keyTexts, h]

mutual

theorem document_of_unambiguous (location : String) :
    ∀ (node : Node), node.Unambiguous → node.document location = .ok node.plain
  | null, _ | bool _, _ | int _, _ | text _, _ => rfl
  | float value, h => by
    cases h with
    | float hfinite => rw [document, if_pos hfinite, plain]
  | list items, h => by
    cases h with
    | list hitems =>
      have hread := documents_append location 0 items hitems []
      rw [List.append_nil] at hread
      rw [document, hread, plain]
      simp [documents, Except.map]
  | map entries, h => by
    cases h with
    | map hkeys hdistinct hvalues =>
      have hread := documentEntries_append location [] entries hkeys hvalues (by simpa) []
      rw [List.append_nil] at hread
      rw [document, hread, plain]
      simp [documentEntries, Except.map]
  | tagged _ node, h => by
    cases h with
    | tagged _ hnode => exact document_of_unambiguous location node hnode

/-- Unambiguous items are read, whatever follows them. -/
theorem documents_append (location : String) (index : Nat) :
    ∀ (before : List Node), (∀ item ∈ before, item.Unambiguous) → ∀ rest : List Node,
      documents location index (before ++ rest) =
        (documents location (index + before.length) rest).map (plainItems before ++ ·)
  | [], _, rest => by cases h : documents location index rest <;> simp [plainItems, h, Except.map]
  | item :: before, h, rest => by
    obtain ⟨hitem, hbefore⟩ := List.forall_mem_cons.mp h
    have hread := documents_append location (index + 1) before hbefore rest
    have hindex : index + (item :: before).length = index + 1 + before.length := by
      simp only [List.length_cons]
      omega
    rw [List.cons_append, documents, document_of_unambiguous _ item hitem, hread, hindex]
    cases documents location (index + 1 + before.length) rest <;> rfl

/-- Entries with unambiguous values are read if their keys are distinct and not among the seen
ones. -/
theorem documentEntries_append (location : String) (seen : List String) :
    ∀ (before : List (Key × Node)), (∀ entry ∈ before, entry.1 ≠ .broken) →
      (∀ entry ∈ before, entry.2.Unambiguous) → (keyTexts before ++ seen).Nodup →
        ∀ rest : List (Key × Node), documentEntries location seen (before ++ rest) =
          (documentEntries location ((keyTexts before).reverse ++ seen) rest).map
            (plainEntries before ++ ·)
  | [], _, _, _, rest => by
    cases h : documentEntries location seen rest <;> simp [keyTexts, plainEntries, h, Except.map]
  | (key, value) :: before, hkeys, hvalues, hnames, rest => by
    obtain ⟨hkey, hkeys⟩ := List.forall_mem_cons.mp hkeys
    obtain ⟨hvalue, hvalues⟩ := List.forall_mem_cons.mp hvalues
    obtain ⟨name, hname⟩ := exists_text hkey
    rw [keyTexts_cons hname, List.cons_append] at hnames
    obtain ⟨hfresh, -⟩ := List.nodup_cons.mp hnames
    have hread := documentEntries_append location (name :: seen) before hkeys hvalues
      (List.nodup_middle.mpr hnames) rest
    have hunseen : name ∉ seen := fun hmem => hfresh (List.mem_append_right _ hmem)
    simp only [List.cons_append, documentEntries, hname, if_neg hunseen,
      document_of_unambiguous _ value hvalue, hread, keyTexts_cons hname, List.reverse_cons,
      List.append_assoc, List.nil_append, plainEntries, Option.getD_some]
    cases documentEntries location ((keyTexts before).reverse ++ name :: seen) rest <;> rfl

end

/-! ## First offences -/

theorem FirstOffence.list_append {location : String} {items : List Node} {error : Error}
    (h : FirstOffence location (.list items) error) (more : List Node) :
    FirstOffence location (.list (items ++ more)) error := by
  cases h with
  | item hbefore hitem =>
    rw [List.append_assoc, List.cons_append]
    exact .item hbefore hitem

theorem FirstOffence.map_append {location : String} {entries : List (Key × Node)} {error : Error}
    (h : FirstOffence location (.map entries) error) (more : List (Key × Node)) :
    FirstOffence location (.map (entries ++ more)) error := by
  cases h with
  | repeated hbefore hkey hname =>
    rw [List.append_assoc, List.cons_append]
    exact .repeated hbefore hkey hname
  | value hbefore hkey hname hvalue =>
    rw [List.append_assoc, List.cons_append]
    exact .value hbefore hkey hname hvalue

/-- Unambiguous entries before an entry leave its key to be compared with theirs. -/
theorem documentEntries_after {before : List (Key × Node)} (h : Unambiguous (.map before))
    (location : String) (rest : List (Key × Node)) :
    documentEntries location [] (before ++ rest) =
      (documentEntries location (keyTexts before).reverse rest).map (plainEntries before ++ ·) := by
  cases h with
  | map hkeys hdistinct hvalues =>
    have hread := documentEntries_append location [] before hkeys hvalues (by simpa) rest
    rwa [List.append_nil] at hread

theorem document_of_firstOffence {location : String} {node : Node} {error : Error}
    (h : FirstOffence location node error) : node.document location = .error error := by
  induction h with
  | nonFinite hvalue => simp [document, hvalue]
  | item hbefore _ ih =>
    rw [document, documents_append _ 0 _ hbefore, documents, Nat.zero_add, ih]
    rfl
  | repeated hbefore hkey hname =>
    rw [document, documentEntries_after hbefore]
    simp [documentEntries, hkey, hname, Except.map]
  | value hbefore hkey hname _ ih =>
    rw [document, documentEntries_after hbefore]
    simp [documentEntries, hkey, hname, ih, Except.map]
  | tagged tag _ ih => rw [document, ih]

/-- A tree with a first offence is not unambiguous. -/
theorem FirstOffence.not_unambiguous {location : String} {node : Node} {error : Error}
    (h : FirstOffence location node error) : ¬ node.Unambiguous := by
  intro hnode
  have hread := document_of_firstOffence h
  rw [document_of_unambiguous location node hnode] at hread
  cases hread

theorem FirstOffence.eq {location : String} {node : Node} {first second : Error}
    (h : FirstOffence location node first) (h' : FirstOffence location node second) :
    first = second := by
  have hread := document_of_firstOffence h
  rw [document_of_firstOffence h', Except.error.injEq] at hread
  exact hread.symm

/-- The items of a list are settled one after the other. -/
theorem unambiguous_or_firstOffence_items (items : List Node)
    (h : ∀ item ∈ items,
      item.Unambiguous ∨ ∀ location, ∃ error, FirstOffence location item error) :
    (∀ item ∈ items, item.Unambiguous) ∨
      ∀ location, ∃ error, FirstOffence location (.list items) error := by
  induction items using List.reverseRecOn with
  | nil => exact .inl fun _ hitem => nomatch hitem
  | append_singleton before last ih =>
    obtain hbefore | hbefore := ih fun item hitem => h item (List.mem_append_left _ hitem)
    · obtain hlast | hlast := h last List.mem_concat_self
      · left
        intro item hitem
        obtain hitem | hitem := List.mem_append.mp hitem
        · exact hbefore item hitem
        · rwa [List.mem_singleton.mp hitem]
      · right
        intro location
        obtain ⟨error, hoffence⟩ := hlast (itemLocation location before.length)
        exact ⟨error, .item hbefore hoffence⟩
    · right
      intro location
      obtain ⟨error, hoffence⟩ := hbefore location
      exact ⟨error, hoffence.list_append [last]⟩

/-- The entries of a mapping are settled one after the other, each key before its value. -/
theorem unambiguous_or_firstOffence_entries (entries : List (Key × Node))
    (hkeys : ∀ entry ∈ entries, entry.1 ≠ .broken)
    (h : ∀ entry ∈ entries,
      entry.2.Unambiguous ∨ ∀ location, ∃ error, FirstOffence location entry.2 error) :
    Unambiguous (.map entries) ∨
      ∀ location, ∃ error, FirstOffence location (.map entries) error := by
  induction entries using List.reverseRecOn with
  | nil => exact .inl (.map hkeys List.nodup_nil fun _ hentry => nomatch hentry)
  | append_singleton before last ih =>
    obtain ⟨key, value⟩ := last
    obtain ⟨name, hname⟩ := exists_text (hkeys (key, value) List.mem_concat_self)
    obtain hbefore | hbefore := ih (fun entry hentry => hkeys entry (List.mem_append_left _ hentry))
      fun entry hentry => h entry (List.mem_append_left _ hentry)
    · by_cases hseen : name ∈ keyTexts before
      · exact .inr fun location => ⟨_, .repeated hbefore hname hseen⟩
      · obtain hvalue | hvalue := h (key, value) List.mem_concat_self
        · left
          cases hbefore with
          | map hbroken hdistinct hvalues =>
            apply Unambiguous.map hkeys
            · rw [keyTexts_concat hname, List.nodup_concat]
              exact ⟨hseen, hdistinct⟩
            · intro entry hentry
              obtain hentry | hentry := List.mem_append.mp hentry
              · exact hvalues entry hentry
              · rwa [List.mem_singleton.mp hentry]
        · right
          intro location
          obtain ⟨error, hoffence⟩ := hvalue (keyLocation location name)
          exact ⟨error, .value hbefore hname hseen hoffence⟩
    · right
      intro location
      obtain ⟨error, hoffence⟩ := hbefore location
      exact ⟨error, hoffence.map_append [(key, value)]⟩

/-- A whole tree is unambiguous or has a first offence, wherever it is. -/
theorem Whole.unambiguous_or_firstOffence {node : Node} (h : node.Whole) :
    node.Unambiguous ∨ ∀ location, ∃ error, FirstOffence location node error := by
  induction h with
  | null => exact .inl .null
  | bool value => exact .inl (.bool value)
  | int value => exact .inl (.int value)
  | float value =>
    cases hvalue : Decimal.isFinite value with
    | true => exact .inl (.float hvalue)
    | false => exact .inr fun location => ⟨_, .nonFinite hvalue⟩
  | text value => exact .inl (.text value)
  | list _ ih => exact (unambiguous_or_firstOffence_items _ ih).imp_left .list
  | map hkeys _ ih => exact unambiguous_or_firstOffence_entries _ hkeys ih
  | tagged tag _ ih =>
    obtain ih | ih := ih
    · exact .inl (.tagged tag ih)
    · right
      intro location
      obtain ⟨error, hoffence⟩ := ih location
      exact ⟨error, .tagged tag hoffence⟩

theorem Whole.document_eq_ok_iff {node : Node} (h : node.Whole) (location : String)
    (document : Document) :
    node.document location = .ok document ↔ node.Unambiguous ∧ node.plain = document := by
  constructor
  · intro hread
    obtain hnode | hnode := h.unambiguous_or_firstOffence
    · rw [document_of_unambiguous location node hnode, Except.ok.injEq] at hread
      exact ⟨hnode, hread⟩
    · obtain ⟨error, hoffence⟩ := hnode location
      rw [document_of_firstOffence hoffence] at hread
      cases hread
  · intro ⟨hnode, hplain⟩
    rw [document_of_unambiguous location node hnode, hplain]

theorem Whole.document_eq_error_iff {node : Node} (h : node.Whole) (location : String)
    (error : Error) :
    node.document location = .error error ↔ FirstOffence location node error := by
  constructor
  · intro hread
    obtain hnode | hnode := h.unambiguous_or_firstOffence
    · rw [document_of_unambiguous location node hnode] at hread
      cases hread
    · obtain ⟨first, hoffence⟩ := hnode location
      rw [document_of_firstOffence hoffence, Except.error.injEq] at hread
      exact hread ▸ hoffence
  · exact document_of_firstOffence

end Node

/-! ## Readings -/

/-- What is made of a text whose tree is the given one. -/
structure Node.Judged (node : Node) (result : Except Error Document) : Prop where
  accepted : ∀ document, result = .ok document ↔
    node.Unambiguous ∧ node.plain = document ∧ document.isMap = true
  refused : ∀ error, result = .error error ↔
    node.FirstOffence "" error ∨
      node.Unambiguous ∧ node.plain.isMap = false ∧
        error = .malformed "document" .rootNotMapping

/-- The reading of a text in the notation that its first visible character tells. -/
def Document.reading (text : String) : Reading :=
  if isJson text then Json.read text else Yaml.read text

namespace Reading

theorem document_of_firstOffence {reading : Reading} {error : Error}
    (h : Node.FirstOffence "" reading.node error) : reading.document = .error error := by
  rw [document, Node.document_of_firstOffence h]

theorem document_of_unambiguous {reading : Reading} (h : reading.node.Unambiguous)
    (hcomplete : reading.complete = true) :
    reading.document =
      if reading.node.plain.isMap then .ok reading.node.plain
      else .error (.malformed "document" .rootNotMapping) := by
  rw [document, Node.document_of_unambiguous "" _ h]
  cases hroot : reading.node.plain.isMap <;> simp [hcomplete, hroot]

theorem judged_document {reading : Reading} (h : reading.node.Whole)
    (hcomplete : reading.complete = true) : reading.node.Judged reading.document := by
  obtain hnode | hnode := h.unambiguous_or_firstOffence
  · have hspared (error : Error) : ¬ reading.node.FirstOffence "" error :=
      fun hoffence => hoffence.not_unambiguous hnode
    rw [document_of_unambiguous hnode hcomplete]
    cases hroot : reading.node.plain.isMap with
    | true =>
      constructor
      · intro document
        rw [if_pos rfl, Except.ok.injEq]
        exact ⟨fun hplain => ⟨hnode, hplain, hplain ▸ hroot⟩, fun h => h.2.1⟩
      · simp [hspared, hroot]
    | false =>
      constructor
      · intro document
        simp only [Bool.false_eq_true, if_false, reduceCtorEq, false_iff]
        rintro ⟨-, rfl, hmap⟩
        rw [hroot] at hmap
        cases hmap
      · simp [hspared, hnode, hroot, eq_comm]
  · obtain ⟨first, hoffence⟩ := hnode ""
    have hspared := hoffence.not_unambiguous
    constructor
    · simp [document_of_firstOffence hoffence, hspared]
    · intro error
      rw [document_of_firstOffence hoffence, Except.error.injEq]
      constructor
      · rintro rfl
        exact .inl hoffence
      · simp only [hspared, false_and, or_false]
        exact hoffence.eq

end Reading

/-- A tree that has been delivered in full becomes its plain document exactly if it is unambiguous,
and else its first offence. What is made of a text is decided by that and by the root. A first offence
counts even if the reader stops somewhere behind it. -/
theorem Document.parse_judged :
    (∀ node : Node, node.Whole → ∀ location,
      (∀ document, node.document location = .ok document ↔
        node.Unambiguous ∧ node.plain = document) ∧
      ∀ error, node.document location = .error error ↔ node.FirstOffence location error) ∧
    (∀ reading : Reading,
      (∀ error, reading.node.FirstOffence "" error → reading.document = .error error) ∧
      (reading.node.Whole → reading.complete = true → reading.node.Judged reading.document)) ∧
    ∀ text,
      (∀ error, (reading text).node.FirstOffence "" error → parse text = .error error) ∧
      ((reading text).node.Whole → (reading text).complete = true →
        (reading text).node.Judged (parse text)) := by
  refine ⟨?_, ?_, ?_⟩
  · intro node hnode location
    exact ⟨hnode.document_eq_ok_iff location, hnode.document_eq_error_iff location⟩
  · intro reading
    exact ⟨fun _ => Reading.document_of_firstOffence, Reading.judged_document⟩
  · intro text
    exact ⟨fun _ => Reading.document_of_firstOffence, Reading.judged_document⟩

/-- A number and a quoted text are one key, two levels down and under a tag. -/
theorem Document.parse_judged_tagged :
    parse "a:\n  - x\n  - !Thing\n    1: x\n    \"1\": y\n" =
      .error (.malformed "a[1].1" .declaredTwice) := by
  have hread : reading "a:\n  - x\n  - !Thing\n    1: x\n    \"1\": y\n" =
      ⟨.map [(.text "a", .list [.text "x",
        .tagged "Thing" (.map [(.int 1, .text "x"), (.text "1", .text "y")])])], true⟩ := rfl
  have hwhole : Node.Whole (.map [(.text "a", .list [.text "x",
      .tagged "Thing" (.map [(.int 1, .text "x"), (.text "1", .text "y")])])]) := by
    have hthing : Node.Whole (.map [(.int 1, .text "x"), (.text "1", .text "y")]) :=
      .map (by simp) (by simp [Node.Whole.text])
    have hlist : Node.Whole (.list [.text "x",
        .tagged "Thing" (.map [(.int 1, .text "x"), (.text "1", .text "y")])]) :=
      .list (by simp [Node.Whole.text, hthing.tagged])
    exact .map (by simp) (by simp [hlist])
  have hnone : Node.Unambiguous (.map []) := .map (by simp) List.nodup_nil (by simp)
  have hone : Node.Unambiguous (.map [(.int 1, .text "x")]) :=
    .map (by simp) (List.nodup_singleton "1") (by simp [Node.Unambiguous.text])
  have hitem : ∀ earlier ∈ [Node.text "x"], earlier.Unambiguous := by
    simp [Node.Unambiguous.text]
  have hrepeated : Node.FirstOffence "a[1]" (.map [(.int 1, .text "x"), (.text "1", .text "y")])
      (.malformed "a[1].1" .declaredTwice) :=
    .repeated hone rfl (List.mem_singleton_self "1")
  have hoffence : (reading "a:\n  - x\n  - !Thing\n    1: x\n    \"1\": y\n").node.FirstOffence ""
      (.malformed "a[1].1" .declaredTwice) := by
    rw [hread]
    exact .value hnone rfl List.not_mem_nil (.item hitem (.tagged "Thing" hrepeated))
  obtain ⟨-, hjudged⟩ := parse_judged.2.2 "a:\n  - x\n  - !Thing\n    1: x\n    \"1\": y\n"
  exact ((hjudged (hread ▸ hwhole) (hread ▸ rfl)).refused _).mpr (.inl hoffence)

end RestModule
