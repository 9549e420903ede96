import RestModule.FilePath
import Mathlib.Data.List.Basic

/-!
# Names and normal forms of paths

Cutting a text at a separator undoes writing the separator between pieces. So a path and its normal
form have the same components (`components_normal`), and paths are the same exactly if their normal
forms are (`same_iff_normal`). The name of a path is its last component. -/

namespace RestModule

/-! ## Pieces -/

namespace Text

theorem pieces_eq_splitOnP (p : Char → Bool) (s : List Char) : pieces p s = s.splitOnP p := by
  induction s with
  | nil => rfl
  | cons c rest ih =>
    rw [List.splitOnP_cons_eq_if_modifyHead, pieces, ih]
    cases h : rest.splitOnP p with
    | nil => exact absurd h (List.splitOnP_ne_nil p rest)
    | cons piece more => rfl

theorem splitAt_eq_splitOn (separator : Char) (s : String) :
    splitAt separator s = (s.toList.splitOn separator).map String.ofList := by
  rw [splitAt, pieces_eq_splitOnP, List.splitOn_eq_splitOnP]

/-- The pieces have the characters that are not separators, in order. -/
theorem flatten_pieces (p : Char → Bool) (s : List Char) :
    (pieces p s).flatten = s.filter (!p ·) := by
  induction s with
  | nil => rfl
  | cons c rest ih =>
    rw [pieces]
    split
    · next hc =>
      rw [List.filter_cons_of_neg (by simpa using hc), ← ih]
      rfl
    · next hc =>
      rw [List.filter_cons_of_pos (by simpa using hc), ← ih]
      split
      · next hnil => exact absurd hnil (pieces_ne_nil _ _)
      · next heq =>
        rw [heq]
        rfl

theorem of_mem_pieces {p : Char → Bool} {s piece : List Char} {c : Char} (h : piece ∈ pieces p s)
    (hc : c ∈ piece) : p c = false := by
  have hmem : c ∈ (pieces p s).flatten := List.mem_flatten.mpr ⟨piece, h, hc⟩
  rw [flatten_pieces] at hmem
  simpa using (List.mem_filter.mp hmem).2

/-- What stands before the first separator, or the whole text. -/
theorem fst_cutAt? (separator : Char) (s : List Char) :
    ((cutAt? separator s).getD (s, [])).1 = s.takeWhile (· != separator) := by
  induction s with
  | nil => rfl
  | cons c rest ih =>
    by_cases hc : c = separator
    · simp [cutAt?, hc]
    · rw [cutAt?, if_neg (by simpa using hc), List.takeWhile_cons_of_pos (by simpa using hc), ← ih]
      cases cutAt? separator rest <;> rfl

/-- What stands after the first separator. -/
theorem snd_cutAt? (separator : Char) (s : List Char) :
    ((cutAt? separator s).getD (s, [])).2 = (s.dropWhile (· != separator)).drop 1 := by
  induction s with
  | nil => rfl
  | cons c rest ih =>
    by_cases hc : c = separator
    · simp [cutAt?, hc]
    · rw [cutAt?, if_neg (by simpa using hc), List.dropWhile_cons_of_pos (by simpa using hc), ← ih]
      cases cutAt? separator rest <;> rfl

theorem after?_eq_some_iff {start s rest : String} :
    after? start s = some rest ↔ s = start ++ rest := by
  rw [after?, Option.map_eq_some_iff]
  constructor
  · rintro ⟨more, hmore, rfl⟩
    refine String.toList_injective ?_
    rw [String.toList_append, String.toList_ofList]
    exact (List.isPrefixOf?_eq_some_iff_append_eq.mp hmore).symm
  · rintro rfl
    refine ⟨rest.toList, ?_, String.ofList_toList⟩
    rw [String.toList_append]
    exact List.isPrefixOf?_eq_some_iff_append_eq.mpr rfl

theorem after?_append (start rest : String) : after? start (start ++ rest) = some rest :=
  after?_eq_some_iff.mpr rfl

theorem not_mem_of_mem_pieces {separator : Char} {s piece : List Char}
    (h : piece ∈ pieces (· == separator) s) : separator ∉ piece := by
  intro hmem
  have hother := of_mem_pieces h hmem
  simp at hother

theorem not_mem_of_mem_splitAt {separator : Char} {s piece : String}
    (h : piece ∈ splitAt separator s) : separator ∉ piece.toList := by
  obtain ⟨piece, hpiece, rfl⟩ := List.mem_map.mp h
  rw [String.toList_ofList]
  exact not_mem_of_mem_pieces hpiece

/-- Cutting undoes writing the separator between pieces that do not contain it. -/
theorem splitAt_intercalate {parts : List String} (hne : parts ≠ [])
    (hparts : ∀ part ∈ parts, '/' ∉ part.toList) :
    splitAt '/' (String.intercalate "/" parts) = parts := by
  have hlist : ∀ part ∈ parts.map String.toList, '/' ∉ part := by
    intro part hpart
    obtain ⟨part, hmem, rfl⟩ := List.mem_map.mp hpart
    exact hparts part hmem
  have hslash : "/".toList = ['/'] := by decide
  rw [splitAt_eq_splitOn, String.toList_intercalate, hslash,
    List.splitOn_intercalate '/' hlist (by simpa using hne)]
  simp

/-- The last piece of a text that does not end in the separator ends the text. -/
theorem exists_last_piece {separator c : Char} {s : String} {t : List Char}
    (hs : s.toList = t ++ [c]) (hc : c ≠ separator) :
    ∃ before last u, splitAt separator s = before ++ [last] ∧ last.toList = u ++ [c] ∧
      last.toList <:+ s.toList := by
  rw [splitAt_eq_splitOn, hs]
  by_cases hmem : separator ∈ t
  · obtain ⟨after, before, heq, hafter⟩ :=
      List.eq_append_cons_of_mem (List.mem_reverse.mpr hmem)
    have ht : t = before.reverse ++ separator :: after.reverse := by
      rw [← List.reverse_reverse t, heq]
      simp
    have hlast : separator ∉ after.reverse ++ [c] := by simp [hafter, hc.symm]
    refine ⟨(before.reverse.splitOn separator).map String.ofList, .ofList (after.reverse ++ [c]),
      after.reverse, ?_, by simp, ?_⟩
    · rw [ht, List.append_assoc, List.cons_append, List.splitOn_append_cons_self,
        List.splitOn_eq_singleton hlast]
      simp
    · exact ⟨before.reverse ++ [separator], by simp [ht]⟩
  · have hlast : separator ∉ t ++ [c] := by simp [hmem, hc.symm]
    exact ⟨[], .ofList (t ++ [c]), t, by rw [List.splitOn_eq_singleton hlast]; rfl, by simp,
      by simp⟩

end Text

namespace FilePath

open Text

/-! ## Normal forms -/

/-- A piece that is a component wherever it stands in a path. -/
def IsOrdinary (piece : String) : Prop :=
  '/' ∉ piece.toList ∧ isIdle piece = false

instance (piece : String) : Decidable (IsOrdinary piece) :=
  inferInstanceAs (Decidable (_ ∧ _))

private theorem filter_ordinary {parts : List String} (h : ∀ part ∈ parts, IsOrdinary part) :
    parts.filter (!isIdle ·) = parts := by
  refine List.filter_eq_self.mpr fun part hpart => ?_
  rw [(h part hpart).2]
  rfl

private theorem ordinary_of_mem_filter {parts : List String} {part : String}
    (hparts : ∀ part ∈ parts, '/' ∉ part.toList) (h : part ∈ parts.filter (!isIdle ·)) :
    IsOrdinary part := by
  obtain ⟨hmem, hidle⟩ := List.mem_filter.mp h
  exact ⟨hparts part hmem, by simpa using hidle⟩

/-- The components of a path that starts at the root. -/
theorem components_root {parts : List String} (h : ∀ part ∈ parts, IsOrdinary part) :
    (mk ("/" ++ String.intercalate "/" parts)).components = "/" :: parts := by
  have habs : (mk ("/" ++ String.intercalate "/" parts)).isAbsolute = true := by
    simp [isAbsolute, String.toList_append]
  have hpieces : splitAt '/' ("/" ++ String.intercalate "/" parts) =
      "" :: splitAt '/' (String.intercalate "/" parts) := by
    simp [splitAt, String.toList_append, pieces]
  simp only [components, habs, if_true, hpieces]
  cases parts with
  | nil => decide
  | cons part rest =>
    rw [splitAt_intercalate (by simp) fun part hpart => (h part hpart).1]
    rw [List.filter_cons_of_neg (by decide), filter_ordinary h]

/-- What the components of a relative path look like: a leading `.` aside, each is ordinary. -/
def IsRelative : List String → Prop
  | [] => True
  | first :: rest => '/' ∉ first.toList ∧ first ≠ "" ∧ ∀ part ∈ rest, IsOrdinary part

theorem isAbsolute_intercalate {first : String} {rest : List String}
    (hslash : '/' ∉ first.toList) (hne : first ≠ "") :
    (mk (String.intercalate "/" (first :: rest))).isAbsolute = false := by
  cases hfirst : first.toList with
  | nil => exact absurd (String.toList_eq_nil_iff.mp hfirst) hne
  | cons c cs =>
    have hc : c ≠ '/' := fun heq => hslash (hfirst ▸ heq ▸ List.mem_cons_self)
    cases rest <;> simp [isAbsolute, String.toList_append, hfirst, hc]

/-- The components of a relative path. -/
theorem components_relative {parts : List String} (h : IsRelative parts) :
    (mk (String.intercalate "/" parts)).components = parts := by
  cases parts with
  | nil => decide
  | cons first rest =>
    obtain ⟨hslash, hne, hrest⟩ := h
    have hpieces : splitAt '/' (String.intercalate "/" (first :: rest)) = first :: rest := by
      refine splitAt_intercalate (by simp) fun part hpart => ?_
      rcases List.mem_cons.mp hpart with rfl | hpart
      · exact hslash
      · exact (hrest part hpart).1
    simp only [components, isAbsolute_intercalate hslash hne, hpieces]
    by_cases hdot : first = "."
    · subst hdot
      simp [filter_ordinary hrest]
    · have hidle : isIdle first = false := by simp [isIdle, hne, hdot]
      simp [hdot, filter_ordinary hrest, hidle]

theorem IsRelative.of_ordinary {parts : List String} (h : ∀ part ∈ parts, IsOrdinary part) :
    IsRelative parts := by
  cases parts with
  | nil => trivial
  | cons first rest =>
    obtain ⟨hslash, hidle⟩ := h first List.mem_cons_self
    refine ⟨hslash, ?_, fun part hpart => h part (List.mem_cons_of_mem _ hpart)⟩
    rintro rfl
    exact absurd hidle (by decide)

/-- Every path is at the root or relative, with components as those have them. -/
theorem components_cases (path : FilePath) :
    (∃ parts, path.components = "/" :: parts ∧ ∀ part ∈ parts, IsOrdinary part) ∨
      IsRelative path.components := by
  have hpieces : ∀ part ∈ splitAt '/' path.text, '/' ∉ part.toList :=
    fun part => not_mem_of_mem_splitAt
  unfold components
  by_cases habs : path.isAbsolute
  · exact .inl ⟨_, by simp only [habs, if_true], fun part => ordinary_of_mem_filter hpieces⟩
  · right
    simp only [habs, Bool.false_eq_true, if_false]
    split
    · next rest heq =>
      rw [heq] at hpieces
      have hrest : ∀ part ∈ rest, '/' ∉ part.toList :=
        fun part hpart => hpieces part (List.mem_cons_of_mem _ hpart)
      exact ⟨by decide, by decide, fun part => ordinary_of_mem_filter hrest⟩
    · exact .of_ordinary fun part => ordinary_of_mem_filter hpieces

/-- A path and its normal form have the same components. -/
theorem components_normal (path : FilePath) : path.normal.components = path.components := by
  rcases components_cases path with ⟨parts, heq, hparts⟩ | hrel
  · rw [normal, heq]
    exact components_root hparts
  · have hroot : ∀ rest, path.components ≠ "/" :: rest := by
      intro rest heq
      rw [heq] at hrel
      exact hrel.1 (by decide)
    unfold normal
    split
    · next rest heq => exact absurd heq (hroot rest)
    · exact components_relative hrel

theorem same_iff_components {left right : FilePath} :
    left.same right = true ↔ left.components = right.components :=
  beq_iff_eq

theorem same_self (path : FilePath) : path.same path = true :=
  same_iff_components.mpr rfl

/-- Paths are the same exactly if their normal forms are written alike. -/
theorem same_iff_normal {left right : FilePath} :
    left.same right = true ↔ left.normal.text = right.normal.text := by
  rw [same_iff_components]
  constructor
  · intro h
    rw [normal, normal, h]
  · intro h
    have hnormal : left.normal = right.normal := congrArg mk h
    rw [← components_normal left, hnormal, components_normal]

/-! ## Names -/

/-- The last component of a path. -/
def name (path : FilePath) : String :=
  path.components.getLast?.getD ""

theorem name_eq_of_same {left right : FilePath} (h : left.same right = true) :
    left.name = right.name := by
  rw [name, name, same_iff_components.mp h]

theorem isIdle_of_concat {piece : String} {u : List Char} {c : Char}
    (h : piece.toList = u ++ [c]) (hc : c ≠ '.') : isIdle piece = false := by
  have hempty : piece ≠ "" := by
    rintro rfl
    simp at h
  have hdot : piece ≠ "." := by
    rintro rfl
    have hdots : ".".toList.getLast? = some '.' := by decide
    rw [h, List.getLast?_concat, Option.some.injEq] at hdots
    exact hc hdots
  simp [isIdle, hempty, hdot]

private theorem getLast?_filter {before : List String} {last : String} (h : isIdle last = false) :
    ((before ++ [last]).filter (!isIdle ·)).getLast? = some last := by
  simp [List.filter_append, h]

/-- The name of a path that ends in neither a slash nor a dot is the piece that ends the path. -/
theorem name_suffix {path : FilePath} {t : List Char} {c : Char} (h : path.text.toList = t ++ [c])
    (hslash : c ≠ '/') (hdot : c ≠ '.') :
    path.name ∈ splitAt '/' path.text ∧ path.name.toList <:+ path.text.toList := by
  obtain ⟨before, last, u, hpieces, hlast, hsuffix⟩ := exists_last_piece h hslash
  have hidle := isIdle_of_concat hlast hdot
  suffices path.components.getLast? = some last by
    rw [name, this, hpieces]
    exact ⟨List.mem_append_right _ List.mem_cons_self, hsuffix⟩
  simp only [components, hpieces]
  split
  · rw [List.getLast?_cons, getLast?_filter hidle]
    rfl
  · cases before with
    | nil =>
      have hdots : last ≠ "." := by
        rintro rfl
        exact absurd hidle (by decide)
      simp [hdots, hidle]
    | cons first more =>
      by_cases hfirst : first = "."
      · subst hfirst
        simp only [List.cons_append]
        rw [List.getLast?_cons, getLast?_filter hidle]
        rfl
      · simp only [List.cons_append]
        split
        · next heq => exact absurd (List.cons.inj heq).1 hfirst
        · exact @getLast?_filter (first :: more) last hidle

/-- A joined path is written as its part alone or ends in the part with a slash in front. -/
theorem join_cases (base : FilePath) (part : String) :
    (base.join part).text = part ∨ '/' :: part.toList <:+ (base.join part).text.toList := by
  unfold join
  split
  · exact .inl rfl
  · split
    · next heq =>
      left
      rw [String.toList_eq_nil_iff.mp (List.getLast?_eq_none_iff.mp heq), String.empty_append]
    · next heq =>
      right
      obtain ⟨before, hbefore⟩ := List.getLast?_eq_some_iff.mp heq
      exact ⟨before, by simp [String.toList_append, hbefore]⟩
    · right
      exact ⟨base.text.toList, by simp [String.toList_append]⟩

theorem suffix_join (base : FilePath) (part : String) :
    part.toList <:+ (base.join part).text.toList := by
  rcases join_cases base part with h | h
  · exact ⟨[], by rw [h, List.nil_append]⟩
  · exact (List.suffix_cons '/' part.toList).trans h

/-- What ends a joined path without a slash in it ends the part. -/
theorem suffix_of_suffix_join {base : FilePath} {part : String} {ending : List Char}
    (hslash : '/' ∉ ending) (h : ending <:+ (base.join part).text.toList) :
    ending <:+ part.toList := by
  rcases join_cases base part with hjoin | hjoin
  · rwa [hjoin] at h
  · rcases Nat.lt_or_ge part.toList.length ending.length with hlt | hge
    · have hmem := List.suffix_of_suffix_length_le hjoin h hlt
      exact absurd (hmem.subset List.mem_cons_self) hslash
    · exact List.suffix_of_suffix_length_le h (suffix_join base part) hge

/-- A joined path is named like the end of its part. -/
theorem name_join_suffix {base : FilePath} {part : String} {t : List Char} {c : Char}
    (h : part.toList = t ++ [c]) (hslash : c ≠ '/') (hdot : c ≠ '.') :
    (base.join part).name.toList <:+ part.toList := by
  obtain ⟨u, hu⟩ := suffix_join base part
  have hconcat : (base.join part).text.toList = (u ++ t) ++ [c] := by
    rw [← hu, h, List.append_assoc]
  obtain ⟨hmem, hsuffix⟩ := name_suffix hconcat hslash hdot
  exact suffix_of_suffix_join (not_mem_of_mem_splitAt hmem) hsuffix

/-! ## Parents -/

private theorem anchor_drop {path : FilePath} {t : List Char} {c : Char}
    (h : path.text.toList = t ++ [c]) (hslash : c ≠ '/') (hdot : c ≠ '.') :
    ∃ rest, path.text.toList.drop path.anchor.length = rest ++ [c] := by
  cases t with
  | nil =>
    have habs : path.isAbsolute = false := by simp [isAbsolute, h, hslash]
    have hpieces : splitAt '/' path.text = [path.text] := by
      rw [splitAt_eq_splitOn, List.splitOn_eq_singleton (by simp [h, hslash.symm])]
      simp
    have hne : path.text ≠ "." := by
      intro heq
      have hdots : ".".toList = ['.'] := by decide
      rw [heq, hdots] at h
      exact hdot (List.cons.inj h).1.symm
    have hanchor : path.anchor = "" := by simp [anchor, habs, hpieces, hne]
    exact ⟨[], by rw [hanchor, h]; rfl⟩
  | cons d rest =>
    have hlength : path.anchor.length = 0 ∨ path.anchor.length = 1 := by
      unfold anchor
      split
      · exact .inr (by decide)
      · split
        · exact .inr (by decide)
        · exact .inl (by decide)
    rcases hlength with hlength | hlength
    · exact ⟨d :: rest, by rw [hlength, h]; rfl⟩
    · exact ⟨rest, by rw [hlength, h]; rfl⟩

/-- A path that ends in neither a slash nor a dot has a parent. -/
theorem exists_parent {path : FilePath} {t : List Char} {c : Char} (h : path.text.toList = t ++ [c])
    (hslash : c ≠ '/') (hdot : c ≠ '.') : ∃ directory, path.parent? = some directory := by
  obtain ⟨rest, hrest⟩ := anchor_drop h hslash hdot
  obtain ⟨before, last, u, hpieces, hlast, -⟩ :=
    @exists_last_piece _ _ (.ofList (path.text.toList.drop path.anchor.length)) _
      (by rw [String.toList_ofList, hrest]) hslash
  have hidle := isIdle_of_concat hlast hdot
  simp [parent?, hpieces, dropIdleTail, hidle]

theorem exists_parent_join (base : FilePath) {part : String} {t : List Char} {c : Char}
    (h : part.toList = t ++ [c]) (hslash : c ≠ '/') (hdot : c ≠ '.') :
    ∃ directory, (base.join part).parent? = some directory := by
  obtain ⟨u, hu⟩ := suffix_join base part
  have hconcat : (base.join part).text.toList = (u ++ t) ++ [c] := by
    rw [← hu, h, List.append_assoc]
  exact exists_parent hconcat hslash hdot

end FilePath

end RestModule
