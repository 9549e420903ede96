import RestModule.Document.Reading
import RestModule.Spec.Schema
import RestModule.Proofs.Except

/-!
# Distinct keys

The mappings of a document have distinct keys if a text is read into it (`Document.parse_distinct`).
A value that is looked up in such a mapping has distinct keys, too. -/

namespace RestModule

namespace Document

theorem mem_of_lookup {key : String} {value : Document} {entries : List (String × Document)}
    (h : entries.lookup key = some value) : (key, value) ∈ entries := by
  obtain ⟨before, after, rfl, -⟩ := List.lookup_eq_some_iff.mp h
  exact List.mem_append_right _ List.mem_cons_self

theorem entriesHaveDistinctKeys_iff {entries : List (String × Document)} :
    entriesHaveDistinctKeys entries = true ↔
      (entries.map (·.1)).Nodup ∧ ∀ entry ∈ entries, entry.2.hasDistinctKeys = true := by
  induction entries with
  | nil => simp [entriesHaveDistinctKeys]
  | cons entry rest ih =>
    obtain ⟨key, value⟩ := entry
    simp only [entriesHaveDistinctKeys, Bool.and_eq_true, ih, List.map_cons, List.nodup_cons,
      List.forall_mem_cons]
    have hkey : (!rest.any (·.1 == key)) = true ↔ key ∉ rest.map (·.1) := by
      rw [Bool.not_eq_true', ← Bool.not_eq_true, not_iff_not, List.any_eq_true, List.mem_map]
      simp only [beq_iff_eq]
    rw [hkey]
    exact ⟨fun ⟨⟨h₁, h₂⟩, h₃, h₄⟩ => ⟨⟨h₁, h₃⟩, h₂, h₄⟩,
      fun ⟨⟨h₁, h₃⟩, h₂, h₄⟩ => ⟨⟨h₁, h₂⟩, h₃, h₄⟩⟩

theorem distinct_of_lookup {key : String} {value : Document} {entries : List (String × Document)}
    (h : entriesHaveDistinctKeys entries = true) (hlookup : entries.lookup key = some value) :
    value.hasDistinctKeys = true :=
  (entriesHaveDistinctKeys_iff.mp h).2 _ (mem_of_lookup hlookup)

/-- The entries of a mapping with distinct keys. -/
theorem distinct_of_entriesAt {location : String} {document : Document}
    {entries : List (String × Document)} (h : document.hasDistinctKeys = true)
    (hentries : document.entriesAt location = .ok entries) :
    entriesHaveDistinctKeys entries = true := by
  cases document with
  | map entries =>
    cases hentries
    simpa [hasDistinctKeys] using h
  | _ => cases hentries

end Document

namespace Node

mutual

theorem document_distinct (location : String) : ∀ (node : Node) {result : Document},
    node.document location = .ok result → result.hasDistinctKeys = true
  | null, _, h | bool _, _, h | int _, _, h | text _, _, h => by
    cases h
    rfl
  | float value, _, h => by
    unfold document at h
    split at h
    · cases h
      rfl
    · cases h
  | list items, _, h => by
    obtain ⟨results, hresults, rfl⟩ := Except.map_ok h
    exact documents_distinct location 0 items hresults
  | map entries, _, h => by
    obtain ⟨results, hresults, rfl⟩ := Except.map_ok h
    exact (documentEntries_distinct location [] entries hresults).1
  | tagged _ node, _, h => document_distinct location node h
  | broken, _, h => by cases h

theorem documents_distinct (location : String) (index : Nat) :
    ∀ (items : List Node) {results : List Document}, documents location index items = .ok results →
      Document.itemsHaveDistinctKeys results = true
  | [], _, h => by
    cases h
    rfl
  | item :: rest, _, h => by
    unfold documents at h
    split at h
    · cases h
    · next first hfirst =>
      obtain ⟨more, hmore, rfl⟩ := Except.map_ok h
      simp only [Document.itemsHaveDistinctKeys, Bool.and_eq_true]
      exact ⟨document_distinct _ item hfirst, documents_distinct location (index + 1) rest hmore⟩

/-- The keys of the entries that are read differ from each other and from those seen before. -/
theorem documentEntries_distinct (location : String) (seen : List String) :
    ∀ (entries : List (Key × Node)) {results : List (String × Document)},
      documentEntries location seen entries = .ok results →
        Document.entriesHaveDistinctKeys results = true ∧ ∀ entry ∈ results, entry.1 ∉ seen
  | [], _, h => by
    cases h
    exact ⟨rfl, by simp⟩
  | (key, value) :: rest, _, h => by
    unfold documentEntries at h
    split at h
    · cases h
    · next name _ =>
      dsimp only at h
      split at h
      · cases h
      · next hname =>
        split at h
        · cases h
        · next first hfirst =>
          obtain ⟨more, hmore, rfl⟩ := Except.map_ok h
          obtain ⟨hdistinct, hseen⟩ := documentEntries_distinct location (name :: seen) rest hmore
          have hfresh : ∀ entry ∈ more, entry.1 ≠ name ∧ entry.1 ∉ seen := by
            intro entry hentry
            simpa using hseen entry hentry
          refine ⟨?_, ?_⟩
          · rw [Document.entriesHaveDistinctKeys_iff] at hdistinct ⊢
            refine ⟨List.nodup_cons.mpr ⟨fun hmem => ?_, hdistinct.1⟩, ?_⟩
            · obtain ⟨entry, hentry, heq⟩ := List.mem_map.mp hmem
              exact (hfresh entry hentry).1 heq
            · exact List.forall_mem_cons.mpr ⟨document_distinct _ value hfirst, hdistinct.2⟩
          · exact List.forall_mem_cons.mpr ⟨hname, fun entry hentry => (hfresh entry hentry).2⟩

end

end Node

/-- The mappings of a document that is read from a text have distinct keys. -/
theorem Document.parse_distinct {text : String} {document : Document}
    (h : Document.parse text = .ok document) : document.hasDistinctKeys = true := by
  unfold Document.parse Reading.document at h
  generalize (if isJson text then Json.read text else Yaml.read text) = reading at h
  split at h
  · cases h
  · next result hresult =>
    split at h
    · cases h
    · split at h
      · cases h
      · cases h
        exact Node.document_distinct _ _ hresult

end RestModule
