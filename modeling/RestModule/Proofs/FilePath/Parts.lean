import RestModule.Proofs.FilePath
import Mathlib.Data.List.DropRight

/-!
# Components of joined paths and of parents

The components of a path are its anchor and the pieces of its text that count (`components_eq`).
Joining adds a component (`components_join`), and the parent of a path has all of its components but
the last one (`components_parent`). -/

namespace RestModule

namespace Text

theorem splitAt_ne_nil (separator : Char) (s : String) : splitAt separator s ≠ [] := by
  simpa [splitAt] using pieces_ne_nil _ s.toList

theorem splitAt_append {separator : Char} {s : String} {before after : List Char}
    (h : s.toList = before ++ separator :: after) :
    splitAt separator s =
      splitAt separator (.ofList before) ++ splitAt separator (.ofList after) := by
  simp only [splitAt_eq_splitOn, h, String.toList_ofList, List.splitOn_append_cons_self,
    List.map_append]

theorem splitAt_of_not_mem {separator : Char} {s : String} (h : separator ∉ s.toList) :
    splitAt separator s = [s] := by
  rw [splitAt_eq_splitOn, List.splitOn_eq_singleton h, List.map_cons, String.ofList_toList,
    List.map_nil]

end Text

namespace FilePath

open Text

/-- The anchor of a path as a component. -/
def root (path : FilePath) : List String :=
  if path.anchor = "" then [] else [path.anchor]

private theorem anchor_of_absolute {path : FilePath} (h : path.isAbsolute = true) :
    path.anchor = "/" := by
  rw [anchor, if_pos h]

private theorem anchor_of_relative {path : FilePath} (h : path.isAbsolute = false) :
    path.anchor = if (splitAt '/' path.text).head? = some "." then "." else "" := by
  simp [anchor, h]

theorem components_eq (path : FilePath) :
    path.components = path.root ++ (splitAt '/' path.text).filter (!isIdle ·) := by
  unfold components root
  cases habs : path.isAbsolute with
  | true =>
    rw [anchor_of_absolute habs]
    rfl
  | false =>
    rw [anchor_of_relative habs]
    simp only [Bool.false_eq_true, if_false]
    split
    · next rest heq =>
      rw [heq, List.head?_cons, if_pos rfl, if_neg (by decide),
        List.filter_cons_of_neg (by decide)]
      rfl
    · next hdot =>
      have hhead : (splitAt '/' path.text).head? ≠ some "." := by
        intro hhead
        obtain ⟨rest, heq⟩ := List.head?_eq_some_iff.mp hhead
        exact hdot rest heq
      rw [if_neg hhead, if_pos rfl, List.nil_append]

/-! ## Joined paths -/

/-- What follows the first slash has no part in the anchor. -/
theorem anchor_append {path : FilePath} {before after : List Char}
    (h : path.text.toList = before ++ '/' :: after) :
    path.anchor = if before = [] then "/" else (mk (.ofList before)).anchor := by
  cases before with
  | nil => exact anchor_of_absolute (by simp [isAbsolute, h])
  | cons c rest =>
    have habs : path.isAbsolute = (mk (.ofList (c :: rest))).isAbsolute := by simp [isAbsolute, h]
    obtain ⟨first, more, hpieces⟩ :=
      List.exists_cons_of_ne_nil (splitAt_ne_nil '/' (.ofList (c :: rest)))
    rw [anchor, anchor, habs, splitAt_append h, hpieces]
    rfl

private theorem root_append {path : FilePath} {before after : List Char}
    (h : path.text.toList = before ++ '/' :: after) :
    path.root = if before = [] then ["/"] else (mk (.ofList before)).root := by
  rw [root, anchor_append h]
  split
  · rfl
  · rfl

/-- The components up to a slash, then those of the text after it. -/
theorem components_append {path : FilePath} {before after : List Char}
    (h : path.text.toList = before ++ '/' :: after) :
    path.components = (if before = [] then ["/"] else (mk (.ofList before)).components) ++
      (splitAt '/' (.ofList after)).filter (!isIdle ·) := by
  rw [components_eq, root_append h, splitAt_append h, List.filter_append, ← List.append_assoc]
  split
  · next hempty =>
    subst hempty
    rfl
  · rw [components_eq]

theorem filter_of_ordinary {part : String} (h : IsOrdinary part) :
    (splitAt '/' part).filter (!isIdle ·) = [part] := by
  rw [splitAt_of_not_mem h.1, List.filter_cons_of_pos (by rw [h.2]; rfl), List.filter_nil]

theorem components_of_ordinary {part : String} (h : IsOrdinary part) :
    (mk part).components = [part] := by
  have hrelative : IsRelative [part] := by
    refine .of_ordinary fun piece hpiece => ?_
    rw [List.mem_singleton.mp hpiece]
    exact h
  have hcomponents := components_relative hrelative
  rwa [String.intercalate_singleton] at hcomponents

/-- Joining an ordinary part to a path adds it to the components. -/
theorem components_join (base : FilePath) {part : String} (h : IsOrdinary part) :
    (base.join part).components = base.components ++ [part] := by
  have hrelative : (mk part).isAbsolute = false :=
    Bool.eq_false_iff.mpr fun habs => h.1 (List.mem_of_head? (beq_iff_eq.mp habs))
  unfold join
  rw [if_neg (Bool.eq_false_iff.mp hrelative)]
  split
  · next heq =>
    obtain ⟨text⟩ := base
    obtain rfl : text = "" := String.toList_eq_nil_iff.mp (List.getLast?_eq_none_iff.mp heq)
    rw [String.empty_append, components_of_ordinary h]
    rfl
  · next heq =>
    -- the slash that ends the base is the one before the part
    obtain ⟨before, hbase⟩ := List.getLast?_eq_some_iff.mp heq
    have hjoin : (base.text ++ part).toList = before ++ '/' :: part.toList := by
      rw [String.toList_append, hbase, List.append_assoc]
      rfl
    rw [components_append hjoin, components_append hbase, String.ofList_toList,
      filter_of_ordinary h, List.append_assoc]
    rfl
  · next c hslash heq =>
    have hne : base.text.toList ≠ [] := by
      intro hnil
      rw [hnil] at heq
      cases heq
    have hjoin : (base.text ++ "/" ++ part).toList = base.text.toList ++ '/' :: part.toList := by
      rw [String.toList_append, String.toList_append, List.append_assoc]
      rfl
    rw [components_append hjoin, if_neg hne, String.ofList_toList, String.ofList_toList,
      filter_of_ordinary h]

/-! ## Parents -/

/-- The pieces of a path after its anchor. -/
def body (path : FilePath) : List String :=
  splitAt '/' (.ofList (path.text.toList.drop path.anchor.length))

/-- The anchor is the root, a leading `.`, or nothing; the pieces after it start accordingly. -/
inductive Anchored (path : FilePath) : Prop where
  | root (hanchor : path.anchor = "/") (hpieces : splitAt '/' path.text = "" :: path.body)
  | dot {rest : List String} (hanchor : path.anchor = ".")
    (hpieces : splitAt '/' path.text = "." :: rest) (hbody : path.body = "" :: rest)
  | empty (hanchor : path.anchor = "") (htext : path.text = "")
  | relative {first : String} {rest : List String} (hanchor : path.anchor = "")
    (hpieces : splitAt '/' path.text = first :: rest) (hbody : path.body = first :: rest)
    (hne : first ≠ "") (hdot : first ≠ ".")

/-- The first piece of a text that does not start with a slash starts with its first character. -/
private theorem exists_first_piece {s : String} {c : Char} {cs : List Char} (h : s.toList = c :: cs)
    (hslash : c ≠ '/') :
    ∃ first rest, splitAt '/' s = .ofList (c :: first) :: rest ∧
      splitAt '/' (.ofList cs) = .ofList first :: rest := by
  simp only [splitAt, h, String.toList_ofList, pieces, beq_iff_eq, hslash, if_false]
  split
  · next hnil => exact absurd hnil (pieces_ne_nil _ _)
  · next first more heq => exact ⟨first, more.map .ofList, rfl, by rw [heq]; rfl⟩

theorem anchored (path : FilePath) : path.Anchored := by
  cases hlist : path.text.toList with
  | nil =>
    obtain rfl : path = ⟨""⟩ := congrArg mk (String.toList_eq_nil_iff.mp hlist)
    exact .empty (by decide) rfl
  | cons c cs =>
    by_cases hslash : c = '/'
    · subst hslash
      have hanchor : path.anchor = "/" := anchor_of_absolute (by simp [isAbsolute, hlist])
      refine .root hanchor ?_
      have hpieces : splitAt '/' path.text = splitAt '/' (.ofList []) ++ splitAt '/' (.ofList cs) :=
        splitAt_append hlist
      rw [hpieces, body, hanchor, hlist]
      rfl
    · have hrelative : path.isAbsolute = false := by simp [isAbsolute, hlist, hslash]
      obtain ⟨first, rest, hpieces, hmore⟩ := exists_first_piece hlist hslash
      have hanchor := anchor_of_relative hrelative
      rw [hpieces, List.head?_cons] at hanchor
      simp only [Option.some.injEq] at hanchor
      split at hanchor
      · next hdot =>
        have hchars : c :: first = ['.'] := by
          rw [← String.toList_ofList (l := c :: first), hdot]
          decide
        obtain ⟨rfl, rfl⟩ := List.cons.inj hchars
        refine .dot hanchor (by rw [hpieces, hdot]) ?_
        rw [body, hanchor, hlist]
        exact hmore
      · next hdot =>
        refine .relative hanchor hpieces ?_ ?_ hdot
        · rw [body, hanchor, ← hpieces]
          simp
        · intro hempty
          have hnil := String.toList_ofList (l := c :: first)
          rw [hempty] at hnil
          cases hnil

theorem components_body (path : FilePath) :
    path.components = path.root ++ path.body.filter (!isIdle ·) := by
  rw [components_eq]
  cases path.anchored with
  | root hanchor hpieces => rw [hpieces, List.filter_cons_of_neg (by decide)]
  | dot hanchor hpieces hbody =>
    rw [hpieces, hbody, List.filter_cons_of_neg (by decide), List.filter_cons_of_neg (by decide)]
  | empty hanchor htext =>
    obtain ⟨text⟩ := path
    obtain rfl : text = "" := htext
    decide
  | relative hanchor hpieces hbody => rw [hpieces, hbody]

private theorem filter_splitAt_intercalate {parts : List String}
    (h : ∀ part ∈ parts, '/' ∉ part.toList) :
    (splitAt '/' (String.intercalate "/" parts)).filter (!isIdle ·) = parts.filter (!isIdle ·) := by
  cases parts with
  | nil => decide
  | cons first rest => rw [splitAt_intercalate (List.cons_ne_nil first rest) h]

/-- The components of a text made of pieces of which the first is not empty. -/
private theorem components_intercalate {first : String} {rest : List String}
    (h : ∀ part ∈ first :: rest, '/' ∉ part.toList) (hne : first ≠ "") :
    (mk (String.intercalate "/" (first :: rest))).components =
      (if first = "." then ["."] else []) ++ (first :: rest).filter (!isIdle ·) := by
  have habs : (mk (String.intercalate "/" (first :: rest))).isAbsolute = false :=
    isAbsolute_intercalate (h first List.mem_cons_self) hne
  have hpieces := splitAt_intercalate (List.cons_ne_nil first rest) h
  rw [components_eq, root, anchor_of_relative habs, hpieces, List.head?_cons]
  by_cases hdot : first = "."
  · rw [if_pos (congrArg some hdot), if_pos hdot, if_neg (by decide)]
  · rw [if_neg fun heq => hdot (Option.some.inj heq), if_neg hdot, if_pos rfl]

/-- The components of a path cut off after some of its pieces. -/
theorem components_cut {path : FilePath} {parts : List String} (h : parts <+: path.body) :
    (mk (path.anchor ++ String.intercalate "/" parts)).components =
      path.root ++ parts.filter (!isIdle ·) := by
  have hparts : ∀ part ∈ parts, '/' ∉ part.toList :=
    fun part hpart => not_mem_of_mem_splitAt (h.subset hpart)
  cases path.anchored with
  | root hanchor hpieces =>
    have htext : (mk (path.anchor ++ String.intercalate "/" parts)).text.toList =
        [] ++ '/' :: (String.intercalate "/" parts).toList := by
      rw [hanchor, String.toList_append]
      rfl
    rw [components_append htext, if_pos rfl, String.ofList_toList,
      filter_splitAt_intercalate hparts, root, hanchor, if_neg (by decide)]
  | @dot rest hanchor hpieces hbody =>
    rw [root, hanchor, if_neg (by decide)]
    rw [hbody] at h
    rcases List.prefix_cons_iff.mp h with rfl | ⟨more, rfl, -⟩
    · decide
    · have hmore : ∀ part ∈ "." :: more, '/' ∉ part.toList := by
        intro part hpart
        rcases List.mem_cons.mp hpart with rfl | hpart
        · decide
        · exact hparts part (List.mem_cons_of_mem _ hpart)
      have htext : "." ++ String.intercalate "/" ("" :: more) =
          String.intercalate "/" ("." :: more) := by
        cases more with
        | nil => decide
        | cons next others => simp [← String.append_assoc]
      rw [htext, components_intercalate hmore (by decide), if_pos rfl,
        List.filter_cons_of_neg (by decide), List.filter_cons_of_neg (by decide)]
  | empty hanchor htext =>
    have hroot : path.root = [] := if_pos hanchor
    have hbody : path.body = [""] := by
      rw [body, htext, hanchor]
      decide
    rw [hroot, hanchor]
    rw [hbody] at h
    rcases List.prefix_cons_iff.mp h with rfl | ⟨more, rfl, hmore⟩
    · decide
    · cases List.prefix_nil.mp hmore
      decide
  | @relative first rest hanchor hpieces hbody hne hdot =>
    have hroot : path.root = [] := if_pos hanchor
    rw [hroot, hanchor, String.empty_append]
    rw [hbody] at h
    rcases List.prefix_cons_iff.mp h with rfl | ⟨more, rfl, -⟩
    · decide
    · rw [components_intercalate hparts hne, if_neg hdot]

private theorem dropIdleTail_eq (pieces : List String) :
    dropIdleTail pieces = pieces.rdropWhile isIdle := rfl

private theorem filter_dropIdleTail (pieces : List String) :
    (dropIdleTail pieces).filter (!isIdle ·) = pieces.filter (!isIdle ·) := by
  have hnone : (pieces.rtakeWhile isIdle).filter (!isIdle ·) = [] :=
    List.filter_eq_nil_iff.mpr fun piece hpiece => by simp [List.mem_rtakeWhile_imp hpiece]
  conv_rhs => rw [← List.rdropWhile_append_rtakeWhile (p := isIdle) (l := pieces)]
  rw [List.filter_append, hnone, List.append_nil, dropIdleTail_eq]

private theorem isIdle_of_dropIdleTail {pieces before : List String} {last : String}
    (h : dropIdleTail pieces = before ++ [last]) : isIdle last = false := by
  rw [dropIdleTail_eq] at h
  have hne : pieces.rdropWhile isIdle ≠ [] := by simp [h]
  have hlast := List.rdropWhile_last_not isIdle pieces hne
  simpa [h] using hlast

/-- The parent of a path has all of its components but the last one. -/
theorem components_parent {path directory : FilePath} (h : path.parent? = some directory) :
    ∃ last, path.components = directory.components ++ [last] := by
  simp only [parent?] at h
  rw [← body] at h
  rw [components_body, ← filter_dropIdleTail path.body]
  split at h
  · next hnil =>
    rw [List.reverse_eq_nil_iff.mp hnil]
    split at h
    · next hdot =>
      cases h
      refine ⟨".", ?_⟩
      rw [root, beq_iff_eq.mp hdot]
      decide
    · cases h
  · next last before heq =>
    cases h
    have hbody : dropIdleTail path.body = before.reverse ++ [last] := by
      rw [← List.reverse_reverse (dropIdleTail path.body), heq, List.reverse_cons]
    have hcut : dropIdleTail before.reverse <+: path.body := by
      refine (List.rdropWhile_prefix isIdle before.reverse).trans ?_
      refine List.IsPrefix.trans ?_ (List.rdropWhile_prefix isIdle path.body)
      rw [← dropIdleTail_eq, hbody]
      exact List.prefix_append _ _
    refine ⟨last, ?_⟩
    rw [components_cut hcut, filter_dropIdleTail before.reverse, hbody, List.filter_append,
      List.filter_cons_of_pos (by rw [isIdle_of_dropIdleTail hbody]; rfl), List.filter_nil,
      List.append_assoc]

end FilePath

end RestModule
