import RestModule.Proofs.Spec.Mention
import RestModule.Spec.Reachable

/-!
# The names that roots lead to

Exploring visits the names found so far one after the other, and what they lead to is found behind
them. The bound on its visits is never met (`Definition.traverses_explore`), so it ends where no name
is left, cycles or not. What it has found then are the names that the roots lead to, breadth first
(`Definition.reachable_breadth_first`). -/

namespace RestModule

/-- The names that are added are those that are not there, each at its first mention. -/
theorem addNames_eq_append_filter (names more : List String) :
    addNames names more = names ++ (addNames [] more).filter (· ∉ names) := by
  induction more using List.reverseRecOn with
  | nil => simp [addNames]
  | append_singleton more name ih =>
    have hstep : ∀ start, addNames start (more ++ [name]) = addName (addNames start more) name := by
      intro start
      simp [addNames, List.foldl_append]
    rw [hstep, hstep, addName, addName]
    by_cases hmore : name ∈ more
    · rw [if_pos (by simp [hmore]), if_pos (by simp [hmore])]
      exact ih
    · by_cases hname : name ∈ names <;> simp [hmore, hname, ih]

/-! ## Properties that lead from name to name -/

/-- A type leads to a schema: it is a reference to it, or else its items lead there. -/
inductive SchemaType.LeadsTo (name : String) : SchemaType → Prop where
  | reference (format : Option String) (items : Option SchemaType) :
      LeadsTo name (.mk (schemaReference ++ name) format items)
  | items {token : String} (format : Option String) {items : SchemaType}
      (htoken : ∀ other, token ≠ schemaReference ++ other) (h : LeadsTo name items) :
      LeadsTo name (.mk token format (some items))

theorem SchemaType.schemaName?_eq_some_iff {name : String} : ∀ {type : SchemaType},
    type.schemaName? = some name ↔ type.LeadsTo name
  | .mk token format items => by
    unfold schemaName?
    cases htoken : Text.after? schemaReference token with
    | some other =>
      obtain rfl := Text.after?_eq_some_iff.mp htoken
      constructor
      · rintro ⟨⟩
        exact .reference format items
      · intro h
        generalize hother : schemaReference ++ other = token at h htoken
        cases h with
        | reference =>
          rw [Text.after?_append] at htoken
          exact htoken.symm
        | items _ hne _ => exact absurd hother.symm (hne other)
    | none =>
      have hne : ∀ other, token ≠ schemaReference ++ other := by
        rintro other rfl
        rw [Text.after?_append] at htoken
        cases htoken
      cases items with
      | none => exact ⟨nofun, fun h => by cases h; exact absurd rfl (hne name)⟩
      | some items =>
        have hitems : items.schemaName? = some name ↔ items.LeadsTo name := schemaName?_eq_some_iff
        refine hitems.trans ⟨.items format hne, fun h => ?_⟩
        cases h with
        | reference => exact absurd rfl (hne name)
        | items _ _ h => exact h

namespace Definition

variable (definition : Definition)

/-- A component has a property whose type leads to a schema. -/
def Leads (source target : String) : Prop :=
  ∃ component, definition.component? source = some component ∧
    ∃ property ∈ component.properties, property.type.LeadsTo target

theorem mem_successors_iff {source target : String} :
    target ∈ definition.successors source ↔ definition.Leads source target := by
  unfold successors Leads
  cases definition.component? source with
  | none => simp
  | some component => simp [SchemaType.schemaName?_eq_some_iff]

/-- A name is reached from roots in a number of steps. -/
inductive Reached (roots : List String) : Nat → String → Prop where
  | root {name : String} (h : name ∈ roots) : Reached roots 0 name
  | step {n : Nat} {source target : String} (h : Reached roots n source)
      (hleads : definition.Leads source target) : Reached roots (n + 1) target

variable {definition} {roots : List String} {name : String}

theorem exists_reached_iff :
    (∃ n, definition.Reached roots n name) ↔
      ∃ root ∈ roots, Relation.ReflTransGen definition.Leads root name := by
  constructor
  · rintro ⟨n, h⟩
    induction h with
    | root h => exact ⟨_, h, .refl⟩
    | step _ hleads ih =>
      obtain ⟨root, hroot, hpath⟩ := ih
      exact ⟨root, hroot, hpath.tail hleads⟩
  · rintro ⟨root, hroot, hpath⟩
    induction hpath with
    | refl => exact ⟨0, .root hroot⟩
    | tail _ hleads ih =>
      obtain ⟨n, h⟩ := ih
      exact ⟨n + 1, h.step hleads⟩

/-! ## The end of the traversal -/

/-- The traversal that visits the found names from the `next`-th on until none is left, however many
they come to be. -/
inductive Traverses (definition : Definition) : List String → Nat → List String → Prop where
  | finished {found : List String} {next : Nat} (h : found[next]? = none) :
      Traverses definition found next found
  | visit {found result : List String} {next : Nat} {name : String} (h : found[next]? = some name)
      (hrest : Traverses definition (addNames found (definition.successors name)) (next + 1)
        result) : Traverses definition found next result

theorem Traverses.unique {found result other : List String} {next : Nat}
    (h : definition.Traverses found next result) (hother : definition.Traverses found next other) :
    result = other := by
  induction h with
  | finished hnone =>
    cases hother with
    | finished => rfl
    | visit hsome _ => cases hnone.symm.trans hsome
  | visit hname _ ih =>
    cases hother with
    | finished hnone => cases hnone.symm.trans hname
    | visit hsome hrest =>
      obtain rfl := Option.some.inj (hname.symm.trans hsome)
      exact ih hrest

/-- The schemas that the properties of all components lead to. -/
def mentioned (definition : Definition) : List String :=
  definition.components.flatMap fun component => component.properties.filterMap (·.type.schemaName?)

theorem length_mentioned_le (definition : Definition) :
    definition.mentioned.length ≤ definition.edgeCount := by
  unfold mentioned edgeCount
  induction definition.components with
  | nil => exact Nat.le_refl 0
  | cons component rest ih =>
    rw [List.foldr_cons, List.flatMap_cons, List.length_append]
    exact Nat.add_le_add (List.length_filterMap_le _ _) ih

/-- The names found once the first `next` of them have been visited. -/
def Visited (definition : Definition) (start found : List String) (next : Nat) : Prop :=
  found = addNames start ((found.take next).flatMap definition.successors)

namespace Visited

variable {start found : List String} {next : Nat}

theorem initial (start : List String) : definition.Visited start start 0 := by
  rw [Visited, List.take_zero]
  rfl

theorem visit (h : definition.Visited start found next) (hname : found[next]? = some name) :
    definition.Visited start (addNames found (definition.successors name)) (next + 1) := by
  obtain ⟨hlt, -⟩ := List.getElem?_eq_some_iff.mp hname
  have htake : (addNames found (definition.successors name)).take (next + 1) =
      found.take next ++ [name] := by
    obtain ⟨more, hmore⟩ := prefix_addNames found (definition.successors name)
    rw [← hmore, List.take_append_of_le_length hlt, List.take_add_one, hname]
    rfl
  rw [Visited, htake, List.flatMap_append, List.flatMap_singleton]
  unfold addNames
  rw [List.foldl_append]
  exact congrArg (List.foldl addName · _) h

/-- Where no name is left, all of them have been visited. -/
theorem eq_of_finished (h : definition.Visited start found next) (hnone : found[next]? = none) :
    found = addNames start (found.flatMap definition.successors) := by
  rwa [Visited, List.take_of_length_le (List.getElem?_eq_none_iff.mp hnone)] at h

/-- Besides the start there are at most as many names as properties. -/
theorem length_le (h : definition.Visited start found next) (hstart : start.Nodup) :
    found.length ≤ start.length + definition.edgeCount := by
  have hsubset : found ⊆ start ++ definition.mentioned := by
    intro name hname
    rw [h, mem_addNames, List.mem_flatMap] at hname
    rw [List.mem_append]
    refine hname.imp id fun ⟨source, _, hsource⟩ => ?_
    unfold successors at hsource
    split at hsource
    · next component hcomponent =>
      exact List.mem_flatMap.mpr ⟨component, List.mem_of_find?_eq_some hcomponent, hsource⟩
    · cases hsource
  have hnodup : found.Nodup := by
    rw [h]
    exact nodup_addNames hstart _
  calc found.length ≤ (start ++ definition.mentioned).length :=
        (hnodup.subperm hsubset).length_le
    _ ≤ start.length + definition.edgeCount := by
        rw [List.length_append]
        exact Nat.add_le_add_left definition.length_mentioned_le _

end Visited

/-- Exploring stops for want of names, not for want of fuel. -/
theorem traverses_explore {start found : List String} {next fuel : Nat} (hstart : start.Nodup)
    (hvisited : definition.Visited start found next)
    (hfuel : start.length + definition.edgeCount ≤ next + fuel) :
    definition.Traverses found next (definition.explore found next fuel) := by
  induction fuel generalizing found next with
  | zero =>
    refine .finished (List.getElem?_eq_none_iff.mpr ?_)
    exact (hvisited.length_le hstart).trans hfuel
  | succ fuel ih =>
    rw [explore]
    split
    · next hnone => exact .finished hnone
    · next name hname => exact .visit hname (ih (hvisited.visit hname) (by omega))

theorem traverses_reachable (definition : Definition) (roots : List String) :
    definition.Traverses (addNames [] roots) 0 (definition.reachable roots) := by
  refine traverses_explore (nodup_addNames .nil roots) (.initial _) ?_
  rw [Nat.zero_add]

namespace Traverses

variable {start found result : List String} {next : Nat}

/-- In the end all that the found names lead to has been found. -/
theorem eq_addNames (h : definition.Traverses found next result)
    (hvisited : definition.Visited start found next) :
    result = addNames start (result.flatMap definition.successors) := by
  induction h with
  | finished hnone => exact hvisited.eq_of_finished hnone
  | visit hname _ ih => exact ih (hvisited.visit hname)

/-- What holds of the names at the start and goes over to what they lead to holds of all names that
are found. -/
theorem forall_mem {p : String → Prop} (h : definition.Traverses found next result)
    (hfound : ∀ name ∈ found, p name)
    (hleads : ∀ source target, p source → definition.Leads source target → p target) :
    ∀ name ∈ result, p name := by
  induction h with
  | finished _ => exact hfound
  | visit hname _ ih =>
    refine ih fun target htarget => ?_
    rcases mem_addNames.mp htarget with htarget | htarget
    · exact hfound target htarget
    · exact hleads _ target (hfound _ (List.mem_of_getElem? hname))
        (definition.mem_successors_iff.mp htarget)

end Traverses

/-! ## What is found, and in which order -/

theorem reachable_eq (definition : Definition) (roots : List String) :
    definition.reachable roots = addNames (addNames [] roots)
      ((definition.reachable roots).flatMap definition.successors) :=
  (definition.traverses_reachable roots).eq_addNames (.initial _)

theorem mem_reachable_of_reached {n : Nat} (h : definition.Reached roots n name) :
    name ∈ definition.reachable roots := by
  induction h with
  | root h =>
    rw [reachable_eq]
    simp [h]
  | step _ hleads ih =>
    rw [reachable_eq, mem_addNames]
    exact .inr (List.mem_flatMap.mpr ⟨_, ih, definition.mem_successors_iff.mpr hleads⟩)

/-- Exactly the names that the roots lead to are found. -/
theorem mem_reachable_iff :
    name ∈ definition.reachable roots ↔
      ∃ root ∈ roots, Relation.ReflTransGen definition.Leads root name := by
  rw [← exists_reached_iff]
  constructor
  · refine (definition.traverses_reachable roots).forall_mem (p := fun name =>
      ∃ n, definition.Reached roots n name) ?_ ?_ name
    · intro root hroot
      exact ⟨0, .root (by simpa using hroot)⟩
    · rintro source target ⟨n, hsource⟩ hleads
      exact ⟨n + 1, hsource.step hleads⟩
  · rintro ⟨n, h⟩
    exact mem_reachable_of_reached h

/-- Names listed breadth first: the roots, and then the others as the listed names, one after the
other, mention them first. -/
structure BreadthFirst (definition : Definition) (roots first others : List String) : Prop where
  distinct : (first ++ others).Nodup
  exact : ∀ name, name ∈ first ++ others ↔
    ∃ root ∈ roots, Relation.ReflTransGen definition.Leads root name
  ofRoots : ∀ name, name ∈ first ↔ name ∈ roots
  given : first.Pairwise fun a b => roots.idxOf a < roots.idxOf b
  discovered : others.Pairwise fun a b =>
    ((first ++ others).flatMap definition.successors).idxOf a <
      ((first ++ others).flatMap definition.successors).idxOf b
  /-- No name stands before one that takes fewer steps. -/
  levels : (first ++ others).Pairwise fun a b =>
    ∀ n, definition.Reached roots n b → ∃ m ≤ n, definition.Reached roots m a

/-- Of two names, the one that is mentioned first is mentioned by no later name than the other. -/
theorem exists_mention {names : List String} {source a b : String}
    (hsource : source ∈ names) (hb : b ∈ definition.successors source)
    (hidx : (names.flatMap definition.successors).idxOf a <
      (names.flatMap definition.successors).idxOf b) :
    ∃ mentioning, (mentioning = source ∨ [mentioning, source].Sublist names) ∧
      a ∈ definition.successors mentioning := by
  obtain ⟨before, after, rfl⟩ := List.append_of_mem hsource
  have hsplit : (before ++ source :: after).flatMap definition.successors =
      (before ++ [source]).flatMap definition.successors ++
        after.flatMap definition.successors := by simp
  have hb : b ∈ (before ++ [source]).flatMap definition.successors :=
    List.mem_flatMap.mpr ⟨source, by simp, hb⟩
  rw [hsplit, List.idxOf_append_of_mem hb] at hidx
  have ha : a ∈ (before ++ [source]).flatMap definition.successors := by
    by_contra hnot
    rw [List.idxOf_append_of_notMem hnot] at hidx
    have hlt := List.idxOf_lt_length_iff.mpr hb
    omega
  obtain ⟨mentioning, hmentioning, ha⟩ := List.mem_flatMap.mp ha
  refine ⟨mentioning, ?_, ha⟩
  rcases List.mem_append.mp hmentioning with hbefore | heq
  · refine .inr ?_
    have hpair : ([mentioning] ++ [source]).Sublist (before ++ source :: after) :=
      (List.singleton_sublist.mpr hbefore).append (List.singleton_sublist.mpr List.mem_cons_self)
    exact hpair
  · exact .inl (List.mem_singleton.mp heq)

/-- Names that are listed as they are mentioned first take no fewer steps than those before them. -/
theorem exists_reached_of_sublist {first others : List String}
    (hdistinct : (first ++ others).Nodup) (hfirst : ∀ name, name ∈ first ↔ name ∈ roots)
    (hmem : ∀ n name, definition.Reached roots n name → name ∈ first ++ others)
    (hdiscovered : others.Pairwise fun a b =>
      ((first ++ others).flatMap definition.successors).idxOf a <
        ((first ++ others).flatMap definition.successors).idxOf b)
    {n : Nat} {b : String} (h : definition.Reached roots n b) :
    ∀ a, [a, b].Sublist (first ++ others) → ∃ m ≤ n, definition.Reached roots m a := by
  have hroot : ∀ {a n}, a ∈ first → ∃ m ≤ n, definition.Reached roots m a :=
    fun ha => ⟨0, Nat.zero_le _, .root ((hfirst _).mp ha)⟩
  have hcases : ∀ {a b}, [a, b].Sublist (first ++ others) → a ∈ first ∨ [a, b].Sublist others := by
    intro a b hpair
    obtain ⟨left, right, heq, hleft, hright⟩ := List.sublist_append_iff.mp hpair
    cases left with
    | nil => exact .inr (heq ▸ hright)
    | cons x more =>
      obtain rfl := (List.cons.inj heq).1
      exact .inl (hleft.subset List.mem_cons_self)
  induction h with
  | @root b hb =>
    intro a hpair
    refine (hcases hpair).elim hroot fun hothers => ?_
    have hbothers : b ∈ others := hothers.subset (by simp)
    exact absurd hbothers ((List.nodup_append'.mp hdistinct).2.2 ((hfirst b).mpr hb))
  | @step n source b hsource hleads ih =>
    intro a hpair
    refine (hcases hpair).elim hroot fun hothers => ?_
    have hidx := List.pairwise_iff_forall_sublist.mp hdiscovered hothers
    obtain ⟨mentioning, hbefore, ha⟩ := exists_mention (hmem n source hsource)
      (definition.mem_successors_iff.mpr hleads) hidx
    have hmentions : definition.Leads mentioning a := definition.mem_successors_iff.mp ha
    rcases hbefore with rfl | hbefore
    · exact ⟨n + 1, Nat.le_refl _, hsource.step hmentions⟩
    · obtain ⟨m, hle, hreached⟩ := ih mentioning hbefore
      exact ⟨m + 1, Nat.succ_le_succ hle, hreached.step hmentions⟩

/-- The traversal ends, and what it ends with are the names that the roots lead to, breadth first. -/
theorem reachable_breadth_first (definition : Definition) (roots : List String) :
    (∀ result, definition.Traverses (addNames [] roots) 0 result ↔
        result = definition.reachable roots) ∧
      ∃ first others, definition.reachable roots = first ++ others ∧
        definition.BreadthFirst roots first others := by
  have htraverses := definition.traverses_reachable roots
  refine ⟨fun result => ⟨fun h => h.unique htraverses, fun h => h ▸ htraverses⟩, ?_⟩
  have heq := reachable_eq definition roots
  rw [addNames_eq_append_filter (addNames [] roots)] at heq
  generalize hothers : (addNames [] ((definition.reachable roots).flatMap
    definition.successors)).filter (· ∉ addNames [] roots) = others at heq
  have hdistinct : (addNames [] roots ++ others).Nodup := by
    rw [← heq, reachable_eq]
    exact nodup_addNames (nodup_addNames .nil roots) _
  have hfirst : ∀ name, name ∈ addNames [] roots ↔ name ∈ roots := by simp
  have hdiscovered : others.Pairwise fun a b =>
      ((addNames [] roots ++ others).flatMap definition.successors).idxOf a <
        ((addNames [] roots ++ others).flatMap definition.successors).idxOf b := by
    rw [← heq, ← hothers]
    exact (pairwise_idxOf_addNames _).filter _
  refine ⟨addNames [] roots, others, heq, hdistinct, fun name => ?_, hfirst,
    pairwise_idxOf_addNames roots, hdiscovered, ?_⟩
  · rw [← heq]
    exact mem_reachable_iff
  · refine List.pairwise_iff_forall_sublist.mpr fun hpair n hreached => ?_
    refine exists_reached_of_sublist hdistinct hfirst (fun n name hname => ?_) hdiscovered hreached _
      hpair
    rw [← heq]
    exact mem_reachable_of_reached hname

/-- A cycle of two components, one of which leads to a name without a component. -/
example :
    let reference (name : String) : Property :=
      ⟨name, .ofToken (schemaReference ++ name), Naming.modelClass name⟩
    let definition : Definition := ⟨"1.0", [], [⟨"Tree", false, [reference "Leaf", reference "Node"]⟩,
      ⟨"Node", false, [reference "Tree", reference "Soil"]⟩]⟩
    definition.reachable ["Node", "Leaf", "Node"] = ["Node", "Leaf", "Tree", "Soil"] := by
  decide +kernel

end Definition

end RestModule
