import RestModule.Proofs.FilePath.Parts
import RestModule.Proofs.Naming
import RestModule.Proofs.Run.Sheets
import RestModule.Proofs.Template.Lines

/-!
# The sheets of classes

The sheets of a definition but the first two make sources of classes (`Sheet.Declares`). Where the
file of a class is says what the class is (`Import.eq_of_same`), and a built-in template makes a
text that names the package and declares the class (`Import.isSource_render`). -/

namespace RestModule

/-! ## Sources -/

namespace Text

/-- What stands before the name of a type where it is declared. -/
def typeKeywords : List String := ["public class ", "public interface "]

/-- The type that a line declares. -/
def declared? (line : String) : Option String :=
  (typeKeywords.findSome? fun keyword => after? keyword line).map fun rest =>
    .ofList (rest.toList.takeWhile (· != ' '))

/-- A line declares the type whose name follows the keyword. -/
theorem declared?_line {keyword name ending : String} (hkeyword : keyword ∈ typeKeywords)
    (hname : ' ' ∉ name.toList) (hending : ending.toList.head?.all (· == ' ') = true) :
    declared? (keyword ++ name ++ ending) = some name := by
  have hrest : (typeKeywords.findSome? fun other => after? other (keyword ++ name ++ ending)) =
      some (name ++ ending) := by
    simp only [typeKeywords, List.mem_cons, List.not_mem_nil, or_false] at hkeyword ⊢
    rcases hkeyword with rfl | rfl
    · rw [List.findSome?_cons, String.append_assoc, after?_append]
    · have hother : after? "public class " ("public interface " ++ (name ++ ending)) = none := by
        simp [after?, String.toList_append, List.isPrefixOf?]
      rw [List.findSome?_cons, String.append_assoc, hother, List.findSome?_cons, after?_append]
  have hword : (name ++ ending).toList.takeWhile (· != ' ') = name.toList := by
    have hplain : ∀ c ∈ name.toList, (c != ' ') = true := by
      intro c hc
      refine bne_iff_ne.mpr ?_
      rintro rfl
      exact hname hc
    rw [String.toList_append, List.takeWhile_append_of_pos hplain]
    cases hlist : ending.toList with
    | nil => exact List.append_nil _
    | cons c rest =>
      rw [hlist] at hending
      obtain rfl : c = ' ' := by simpa using hending
      exact List.append_nil _
  rw [declared?, hrest, Option.map_some, hword, String.ofList_toList]

theorem mem_splitAt_ofLines {line : String} {lines : List String} (h : line ∈ lines)
    (hline : '\n' ∉ line.toList) : line ∈ splitAt '\n' (ofLines lines) := by
  induction lines with
  | nil => cases h
  | cons first rest ih =>
    have hbreak : (ofLines (first :: rest)).toList =
        first.toList ++ '\n' :: (ofLines rest).toList := by
      rw [ofLines_cons, String.toList_append, String.toList_append, List.append_assoc]
      rfl
    rw [splitAt_append hbreak, String.ofList_toList, String.ofList_toList]
    rcases List.mem_cons.mp h with rfl | h
    · rw [splitAt_of_not_mem hline]
      exact List.mem_append_left _ List.mem_cons_self
    · exact List.mem_append_right _ (ih h)

end Text

/-- A text is the source of a class: it begins with the package of the class, and a line of it
declares a type of its name. -/
structure Import.IsSource (i : Import) (text : String) : Prop where
  package : ∃ rest, text = "package " ++ i.package ++ ";" ++ rest
  declares : ∃ line ∈ Text.splitAt '\n' text, Text.declared? line = some i.name

/-! ## Templates of sources -/

namespace Template

/-- The line of a template that names the package. -/
def packageLine : String := "package $\x7bPACKAGE\x7d;"

theorem render_packageLine {values : List (String × String)} {package : String}
    (h : values.lookup "PACKAGE" = some package) :
    render packageLine values = "package " ++ package ++ ";" := by
  have hline : packageLine = "package " ++ "$\x7b" ++ "PACKAGE" ++ "\x7d" ++ ";" := by decide
  rw [hline]
  exact render_placeholder (by decide) (by decide) (by decide) (by decide) h

/-- The line of a template that names the author. -/
def authorLine : String := " * @author $\x7bAUTHOR\x7d"

theorem render_authorLine {values : List (String × String)} {author : String}
    (h : values.lookup "AUTHOR" = some author) :
    render authorLine values = " * @author " ++ author := by
  have hline : authorLine = " * @author " ++ "$\x7b" ++ "AUTHOR" ++ "\x7d" ++ "" := by decide
  rw [hline, render_placeholder (by decide) (by decide) (by decide) (by decide) h,
    String.append_empty]

/-- A line of a template that declares a type, with a placeholder for the name. The name ends before
a blank or with the line. -/
structure Declaration where
  keyword : String
  key : String
  ending : String
  keyword_mem : keyword ∈ Text.typeKeywords := by decide
  key_ne_empty : key ≠ "" := by decide
  key_all : key.toList.all isNameChar = true := by decide
  ending_blank : ending.toList.head?.all (· == ' ') = true := by decide
  ending_plain : '$' ∉ ending.toList ∧ '\n' ∉ ending.toList := by decide

namespace Declaration

/-- The line. -/
def text (declaration : Declaration) : String :=
  declaration.keyword ++ "$\x7b" ++ declaration.key ++ "\x7d" ++ declaration.ending

private theorem keyword_plain : ∀ keyword ∈ Text.typeKeywords,
    '$' ∉ keyword.toList ∧ '\n' ∉ keyword.toList := by
  decide

/-- The line declares the type whose name is put into it. -/
theorem declared?_render (declaration : Declaration) {values : List (String × String)}
    {name : String} (hvalue : values.lookup declaration.key = some name)
    (hname : Naming.IsName name) :
    '\n' ∉ (render declaration.text values).toList ∧
      Text.declared? (render declaration.text values) = some name := by
  obtain ⟨hdollar, hbreak⟩ := keyword_plain declaration.keyword declaration.keyword_mem
  obtain ⟨hendingDollar, hendingBreak⟩ := declaration.ending_plain
  have hrendered : render declaration.text values =
      declaration.keyword ++ name ++ declaration.ending :=
    render_placeholder hdollar hendingDollar declaration.key_ne_empty declaration.key_all hvalue
  rw [hrendered]
  constructor
  · have hnameBreak : '\n' ∉ name.toList := hname.not_mem (by decide)
    simp only [String.toList_append, List.mem_append, hbreak, hnameBreak, hendingBreak, or_self,
      not_false_eq_true]
  · exact Text.declared?_line declaration.keyword_mem (hname.not_mem (by decide))
      declaration.ending_blank

/-- The declaration of an interface. -/
def ofInterface : Declaration where
  keyword := "public interface "
  key := "MODEL_RESOURCE_INTERFACE_CLASS"
  ending := " \x7b"

/-- The declaration of an implementation. -/
def ofImplementation : Declaration where
  keyword := "public class "
  key := "MODEL_RESOURCE_IMPLEMENTATION_CLASS"
  ending := ""

/-- The declaration of a model. -/
def ofModel : Declaration where
  keyword := "public class "
  key := "MODEL_CLASS"
  ending := " \x7b"

/-- The declaration of an application class. -/
def ofApplication : Declaration where
  keyword := "public class "
  key := "APPLICATION_CLASS"
  ending := " extends Application \x7b"

end Declaration

end Template

/-- A template that begins with the package and has a line that declares a type makes the source of
a class. -/
theorem Import.isSource_render {i : Import} {first : String} {rest : List String}
    {values : List (String × String)} (declaration : Template.Declaration)
    (hfirst : first = Template.packageLine)
    (hpackage : values.lookup "PACKAGE" = some i.package)
    (hline : declaration.text ∈ rest) (hvalue : values.lookup declaration.key = some i.name)
    (hname : Naming.IsName i.name) :
    i.IsSource (Template.render (Text.ofLines (first :: rest)) values) := by
  obtain ⟨hbreak, hdeclared⟩ := declaration.declared?_render hvalue hname
  rw [Template.render_ofLines, List.map_cons]
  constructor
  case package =>
    rw [Text.ofLines_cons, hfirst, Template.render_packageLine hpackage]
    exact ⟨"\n" ++ Text.ofLines (rest.map (Template.render · values)), String.append_assoc ..⟩
  case declares =>
    have hmem : Template.render declaration.text values ∈ rest.map (Template.render · values) :=
      List.mem_map_of_mem hline
    exact ⟨_, Text.mem_splitAt_ofLines (List.mem_cons_of_mem _ hmem) hbreak, hdeclared⟩

/-! ## Classes -/

namespace Sheet

/-- A sheet of a definition makes the source of a class. -/
inductive Declares (config : Config) (definition : Definition) : Sheet → Import → Prop where
  | interface {resource : Resource} (h : resource ∈ definition.resources) :
    Declares config definition (.interface config definition.version resource)
      ⟨config.interfacePackage, Naming.interfaceClass resource.name⟩
  | implementation {resource : Resource} (h : resource ∈ definition.resources) :
    Declares config definition (.implementation config definition.version resource)
      ⟨config.implementationPackage, Naming.implementationClass resource.name⟩
  | model {component : Component} (h : component ∈ definition.models) :
    Declares config definition (.model config component)
      ⟨config.modelPackage, Naming.modelClass component.name⟩
  | application :
    Declares config definition (.application config definition.resources)
      ⟨config.apiPackage, config.applicationClass⟩

variable {config : Config} {definition : Definition} {sheet : Sheet} {i : Import}

/-- The texts that are inserted have no part in the other placeholders. -/
theorem lookup_inserted {inserted values : List (String × String)} {names : List String}
    {key : String} (hinserted : inserted.map (·.1) = names) (hkey : key ∉ names) :
    (inserted ++ values).lookup key = values.lookup key := by
  subst hinserted
  induction inserted with
  | nil => rfl
  | cons entry rest ih =>
    rw [List.map_cons, List.mem_cons, not_or] at hkey
    rw [List.cons_append, List.lookup_cons, beq_false_of_ne hkey.1]
    exact ih hkey.2

/-- The built-in template of a class sheet makes the source of its class. -/
theorem Declares.isSource (h : Declares config definition sheet i) (hname : Naming.IsName i.name)
    {inserted : List (String × String)} {text : String}
    (hinserted : inserted.map (·.1) = sheet.insertions.map (·.1))
    (htext : Template.builtin? sheet.template = some text) :
    i.IsSource (sheet.filled inserted text).contents := by
  have hlookup : ∀ key ∉ sheet.insertions.map (·.1),
      (inserted ++ sheet.values).lookup key = sheet.values.lookup key :=
    fun key hkey => lookup_inserted hinserted hkey
  have hnone : ∀ key : String, key ∉ ([] : List String) := fun _ => List.not_mem_nil
  cases h with
  | interface hresource =>
    obtain rfl : Template.interfaceText = text := Option.some.inj htext
    exact Import.isSource_render .ofInterface rfl ((hlookup _ (hnone _)).trans rfl) (by decide)
      ((hlookup _ (hnone _)).trans rfl) hname
  | implementation hresource =>
    obtain rfl : Template.implementationText = text := Option.some.inj htext
    exact Import.isSource_render .ofImplementation rfl ((hlookup _ (hnone _)).trans rfl)
      (by decide) ((hlookup _ (hnone _)).trans rfl) hname
  | model hcomponent =>
    obtain rfl : Template.modelText = text := Option.some.inj htext
    exact Import.isSource_render .ofModel rfl ((hlookup _ (hnone _)).trans rfl) (by decide)
      ((hlookup _ (hnone _)).trans rfl) hname
  | application =>
    obtain rfl : Template.applicationText = text := Option.some.inj htext
    have hkey : ∀ key ∈ ["PACKAGE", "APPLICATION_CLASS"],
        key ∉ (Sheet.application config definition.resources).insertions.map (·.1) := by
      intro key hmem hinsertion
      have hauthentication : key = "BASIC_AUTHENTICATION" := by
        simp only [Sheet.application] at hinsertion
        split at hinsertion
        · exact List.mem_singleton.mp hinsertion
        · cases hinsertion
      subst hauthentication
      exact absurd hmem (by decide)
    exact Import.isSource_render .ofApplication rfl ((hlookup _ (hkey _ (by decide))).trans rfl)
      (by decide) ((hlookup _ (hkey _ (by decide))).trans rfl) hname

/-! ## Files of classes -/

theorem Declares.path_eq (h : Declares config definition sheet i) :
    sheet.path = classFile config i.package i.name := by
  cases h <;> simp only [Sheet.interface, Sheet.implementation, Sheet.model, Sheet.application]

theorem Declares.mem_sheets (h : Declares config definition sheet i) :
    sheet ∈ definition.sheets config := by
  refine Definition.mem_sheets.mpr ?_
  cases h with
  | interface hresource => exact .inr (.inr (.inl ⟨_, hresource, .inl rfl⟩))
  | implementation hresource => exact .inr (.inr (.inl ⟨_, hresource, .inr rfl⟩))
  | model hcomponent => exact .inr (.inr (.inr (.inl ⟨_, hcomponent, rfl⟩)))
  | application => exact .inr (.inr (.inr (.inr rfl)))

theorem declares_of_mem_sheets (h : sheet ∈ definition.sheets config) :
    sheet = .bundle config ∨ sheet = .build config ∨ ∃ i, Declares config definition sheet i := by
  rcases Definition.mem_sheets.mp h with
    rfl | rfl | ⟨resource, hresource, rfl | rfl⟩ | ⟨component, hcomponent, rfl⟩ | rfl
  · exact .inl rfl
  · exact .inr (.inl rfl)
  · exact .inr (.inr ⟨_, .interface hresource⟩)
  · exact .inr (.inr ⟨_, .implementation hresource⟩)
  · exact .inr (.inr ⟨_, .model hcomponent⟩)
  · exact .inr (.inr ⟨_, .application⟩)

end Sheet

namespace FilePath

theorem components_foldl_join {parts : List String} (h : ∀ part ∈ parts, IsOrdinary part)
    (base : FilePath) : (parts.foldl join base).components = base.components ++ parts := by
  induction parts generalizing base with
  | nil => exact (List.append_nil _).symm
  | cons part rest ih =>
    obtain ⟨hpart, hrest⟩ := List.forall_mem_cons.mp h
    rw [List.foldl_cons, ih hrest, components_join base hpart, List.append_assoc]
    rfl

end FilePath

namespace Text

theorem splitAt_injective {separator : Char} {s t : String}
    (h : splitAt separator s = splitAt separator t) : s = t := by
  rw [splitAt_eq_splitOn, splitAt_eq_splitOn] at h
  have hpieces : s.toList.splitOn separator = t.toList.splitOn separator :=
    List.map_injective_iff.mpr (fun _ _ heq => String.ofList_injective heq) h
  have hlists := congrArg (List.intercalate [separator]) hpieces
  rw [List.intercalate_splitOn, List.intercalate_splitOn] at hlists
  exact String.toList_inj.mp hlists

end Text

/-- The packages and the application class of a configuration that breaks no rule. -/
theorem Config.valid_of_validate {config : Config} (h : config.validate = .ok ()) :
    (∀ entry ∈ config.packages, Naming.isPackage entry.2 = true) ∧
      Naming.isIdentifier config.applicationClass = true := by
  have hflaw : config.flaw? = none := by
    unfold validate at h
    split at h
    · cases h
    · assumption
  unfold flaw? at hflaw
  split at hflaw
  · cases hflaw
  · split at hflaw
    · cases hflaw
    · next hpackages =>
      refine ⟨fun entry hentry => ?_, ?_⟩
      · simpa using List.find?_eq_none.mp hpackages entry hentry
      · split at hflaw
        · cases hflaw
        · next hidentifier => simpa using hidentifier

/-- A class that a source can be made of: its package is one and its name is made of identifier
characters. -/
structure Import.IsClass (i : Import) : Prop where
  package : Naming.isPackage i.package = true
  name : Naming.IsName i.name

namespace Import.IsClass

variable {config : Config} {i j : Import}

/-- The components of the file of a class. -/
theorem components_classFile (h : i.IsClass) (config : Config) :
    (Sheet.classFile config i.package i.name).components =
      config.outputPath.components ++
        ["src", "main", "java"] ++ Text.splitAt '.' i.package ++ [i.name ++ ".java"] := by
  have hpackage : ∀ part ∈ Text.splitAt '.' i.package, FilePath.IsOrdinary part := by
    intro part hpart
    obtain ⟨hname, hne⟩ := Naming.IsName.of_isIdentifier (List.all_eq_true.mp h.package part hpart)
    exact hname.isOrdinary hne
  have hfile : FilePath.IsOrdinary (i.name ++ ".java") := by
    refine ⟨?_, ?_⟩
    · rw [String.toList_append, List.mem_append, not_or]
      exact ⟨h.name.not_mem (by decide), by decide⟩
    · have hconcat : (i.name ++ ".java").toList = (i.name.toList ++ ".jav".toList) ++ ['a'] := by
        simp [String.toList_append]
      exact FilePath.isIdle_of_concat hconcat (by decide)
  have hsource : ∀ part ∈ ["src", "main", "java"], FilePath.IsOrdinary part := by decide
  have hroot : config.sourceRoot =
      ["src", "main", "java"].foldl FilePath.join config.outputPath := by
    simp only [Config.sourceRoot, List.foldl_cons, List.foldl_nil]
  rw [Sheet.classFile, FilePath.components_join _ hfile, Config.packageDir,
    FilePath.components_foldl_join hpackage, hroot, FilePath.components_foldl_join hsource]

/-- Classes whose files are one are one. -/
theorem eq_of_same (hi : i.IsClass) (hj : j.IsClass)
    (h : (Sheet.classFile config i.package i.name).same
      (Sheet.classFile config j.package j.name) = true) : i = j := by
  have hcomponents := FilePath.same_iff_components.mp h
  rw [hi.components_classFile, hj.components_classFile] at hcomponents
  -- the last component is the name with its ending, the ones before it are those of the package
  obtain ⟨hdirectory, hfile⟩ := List.append_inj' hcomponents rfl
  have hpackage := Text.splitAt_injective (List.append_cancel_left hdirectory)
  have hname := (String.append_left_inj ".java").mp (List.singleton_inj.mp hfile)
  obtain ⟨package, name⟩ := i
  obtain rfl : package = j.package := hpackage
  obtain rfl : name = j.name := hname
  rfl

/-- A class has its file deeper in the module than the descriptors are. -/
theorem not_same_descriptor (h : i.IsClass) {name : String} (hname : FilePath.IsOrdinary name) :
    (Sheet.classFile config i.package i.name).same (config.outputPath.join name) = false := by
  refine Bool.eq_false_iff.mpr fun hsame => ?_
  have hlength := congrArg List.length (FilePath.same_iff_components.mp hsame)
  rw [h.components_classFile, FilePath.components_join _ hname] at hlength
  simp only [List.length_append, List.length_cons, List.length_nil] at hlength
  omega

end Import.IsClass

end RestModule
