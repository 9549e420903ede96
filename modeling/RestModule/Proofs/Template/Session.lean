import RestModule.Proofs.Template.Library

/-!
# Sessions with a library

A session loads templates, renders them and lists their placeholders in any order, while the files of
the directory change. The text found by the first successful exchange about a name serves all later
ones, and an exchange that fails leaves nothing behind (`Template.Session.steady`). -/

namespace RestModule.Template

/-- What is asked about a template. -/
inductive Request where
  | load (name : String)
  | render (name : String) (values : List (String × String))
  | placeholders (name : String)

inductive Reply where
  | text (text : String)
  | names (names : List String)

namespace Request

/-- The name of the template. -/
def name : Request → String
  | load name | render name _ | placeholders name => name

/-- The reply where the template is a text. -/
def reply (request : Request) (text : String) : Reply :=
  match request with
  | load _ => .text text
  | render _ values => .text (Template.render text values)
  | placeholders _ => .names (Template.placeholders text)

end Request

/-- A request, the files that were there when it was made, the library before it and the look-up that
it led to. -/
structure Exchange where
  files : FilePath → Override
  request : Request
  before : Library
  loading : Loading

namespace Exchange

def answer (exchange : Exchange) : Except Error Reply :=
  exchange.loading.result.map exchange.request.reply

/-- The exchange is about a name. -/
def isAbout (name : String) (exchange : Exchange) : Bool :=
  exchange.request.name == name

/-- The first exchange about a name that succeeded. -/
def firstSuccess (name : String) (exchanges : List Exchange) : Option Exchange :=
  exchanges.find? fun exchange => exchange.isAbout name && exchange.answer.isOk

/-- What comes of an exchange after others with the library of a directory. -/
structure Fits (directory : Option FilePath) (earlier : List Exchange) (exchange : Exchange) :
    Prop where
  /-- Before any success the files of the moment decide. -/
  fresh : firstSuccess exchange.request.name earlier = none →
    exchange.answer = (Library.freshAnswer exchange.files directory exchange.request.name).map
      exchange.request.reply
  /-- After a success the text that the first of them found serves, and no file is read. -/
  kept : ∀ first, firstSuccess exchange.request.name earlier = some first →
    ∃ text, Library.freshAnswer first.files directory exchange.request.name = .ok text ∧
      exchange.answer = .ok (exchange.request.reply text) ∧ exchange.loading.file = none
  failed : ∀ error, exchange.answer = .error error → exchange.loading.library = exchange.before
  others : ∀ name, name ≠ exchange.request.name →
    exchange.loading.library.known.lookup name = exchange.before.known.lookup name

end Exchange

/-- What happens in a session: the files become others, or something is asked. -/
inductive Event where
  | change (files : FilePath → Override)
  | ask (request : Request)

/-- An event matters for a name. -/
def Event.concerns (name : String) : Event → Bool
  | change _ => true
  | ask request => request.name == name

/-- The files and the library at some moment. -/
structure Session where
  files : FilePath → Override
  library : Library

namespace Session

/-- The exchange that a request leads to. -/
def ask (session : Session) (request : Request) : Exchange where
  files := session.files
  request := request
  before := session.library
  loading := Id.run (session.library.load (fun file => pure (session.files file)) request.name)

/-- The exchanges of a session, in order. -/
def exchanges (session : Session) : List Event → List Exchange
  | [] => []
  | .change files :: rest => exchanges ⟨files, session.library⟩ rest
  | .ask request :: rest =>
    session.ask request :: exchanges ⟨session.files, (session.ask request).loading.library⟩ rest

/-- One text for each name, from its first success on. -/
structure Steady (directory : Option FilePath) (files : FilePath → Override) (events : List Event) :
    Prop where
  fits : ∀ earlier exchange later,
    exchanges ⟨files, .ofDirectory directory⟩ events = earlier ++ exchange :: later →
      exchange.Fits directory earlier
  /-- What is answered about a name is what would be answered if no other name were asked about. -/
  apart : ∀ name,
    ((exchanges ⟨files, .ofDirectory directory⟩ events).filter (·.isAbout name)).map
        (fun exchange => (exchange.request, exchange.answer)) =
      (exchanges ⟨files, .ofDirectory directory⟩ (events.filter (·.concerns name))).map
        fun exchange => (exchange.request, exchange.answer)

end Session

/-! ## What a library knows after some exchanges -/

/-- The library of a directory knows the texts that the first successful exchanges found. -/
structure Library.Knows (library : Library) (directory : Option FilePath)
    (earlier : List Exchange) : Prop where
  directory_eq : library.directory = directory
  unknown : ∀ name, Exchange.firstSuccess name earlier = none → library.known.lookup name = none
  known : ∀ name first, Exchange.firstSuccess name earlier = some first →
    ∃ text, freshAnswer first.files directory name = .ok text ∧
      library.known.lookup name = some text

namespace Session

variable {session : Session} {directory : Option FilePath} {earlier : List Exchange}

theorem loading_ask (session : Session) (request : Request) :
    (session.ask request).loading = session.library.loading session.files request.name :=
  Library.load_pure (m := Id) session.files session.library request.name

theorem answer_ask (session : Session) (request : Request) :
    (session.ask request).answer =
      (session.library.answer session.files request.name).map request.reply := by
  rw [Exchange.answer, loading_ask, Library.result_loading]
  rfl

theorem fits_ask (h : session.library.Knows directory earlier) (request : Request) :
    (session.ask request).Fits directory earlier where
  fresh hnone := by
    rw [answer_ask, Library.answer, h.unknown request.name hnone, h.directory_eq]
    rfl
  kept first hfirst := by
    obtain ⟨text, hfound, hknown⟩ := h.known request.name first hfirst
    refine ⟨text, hfound, ?_, ?_⟩
    · rw [answer_ask, Library.answer, hknown]
      rfl
    · rw [loading_ask, Library.loading_of_known _ hknown]
  failed error herror := by
    rw [loading_ask]
    cases hresult : (session.library.loading session.files request.name).result with
    | error error => exact Library.library_loading_of_error hresult
    | ok text =>
      rw [Exchange.answer, loading_ask, hresult] at herror
      cases herror
  others name hname := by
    rw [loading_ask, Library.lookup_loading]
    exact if_neg hname

/-- A further exchange is the first success about a name only where there was none before it. -/
theorem firstSuccess_append (name : String) (earlier : List Exchange) (exchange : Exchange) :
    Exchange.firstSuccess name (earlier ++ [exchange]) =
      (Exchange.firstSuccess name earlier).or
        (if exchange.isAbout name && exchange.answer.isOk then some exchange else none) := by
  rw [Exchange.firstSuccess, List.find?_append, List.find?_singleton]
  rfl

theorem knows_ask (h : session.library.Knows directory earlier) (request : Request) :
    (session.ask request).loading.library.Knows directory (earlier ++ [session.ask request]) where
  directory_eq := by rw [loading_ask, Library.directory_loading, h.directory_eq]
  unknown name hnone := by
    rw [firstSuccess_append, Option.or_eq_none_iff] at hnone
    obtain ⟨hearlier, hthis⟩ := hnone
    rw [loading_ask, Library.lookup_loading]
    split
    · next hname =>
      subst hname
      cases hanswer : session.library.answer session.files request.name with
      | error error => rfl
      | ok text =>
        rw [answer_ask, hanswer] at hthis
        simp [Exchange.isAbout, ask, Except.map, Except.isOk, Except.toBool] at hthis
    · exact h.unknown name hearlier
  known name first hfirst := by
    rw [firstSuccess_append, Option.or_eq_some_iff] at hfirst
    rw [loading_ask, Library.lookup_loading]
    rcases hfirst with hearlier | ⟨hearlier, hthis⟩
    · obtain ⟨text, hfound, hknown⟩ := h.known name first hearlier
      refine ⟨text, hfound, ?_⟩
      split
      · next hname => rw [Library.answer, ← hname, hknown]; rfl
      · exact hknown
    · rw [Option.ite_none_right_eq_some, Bool.and_eq_true] at hthis
      obtain ⟨⟨habout, hok⟩, hthis⟩ := hthis
      cases hthis
      obtain rfl : request.name = name := eq_of_beq habout
      rw [if_pos rfl]
      have hfresh : session.library.answer session.files request.name =
          Library.freshAnswer session.files directory request.name := by
        rw [Library.answer, h.unknown _ hearlier, h.directory_eq]
      rw [answer_ask, hfresh] at hok
      rw [hfresh]
      cases hfound : Library.freshAnswer session.files directory request.name with
      | error error =>
        rw [hfound] at hok
        cases hok
      | ok text => exact ⟨text, hfound, rfl⟩

theorem fits_of_mem_exchanges (events : List Event) (h : session.library.Knows directory earlier)
    {before after : List Exchange} {exchange : Exchange}
    (hsplit : session.exchanges events = before ++ exchange :: after) :
    exchange.Fits directory (earlier ++ before) := by
  -- the library knows what the exchanges so far have found
  induction events generalizing session earlier before with
  | nil => cases before <;> cases hsplit
  | cons event rest ih =>
    cases event with
    | change files =>
      have hnext : (Session.mk files session.library).library.Knows directory earlier := h
      exact ih hnext hsplit
    | ask request =>
      cases before with
      | nil =>
        obtain ⟨rfl, -⟩ := List.cons.inj hsplit
        rw [List.append_nil]
        exact fits_ask h request
      | cons first before =>
        obtain ⟨rfl, hbehind⟩ := List.cons.inj hsplit
        have hnext : (Session.mk session.files (session.ask request).loading.library).library.Knows
            directory (earlier ++ [session.ask request]) := knows_ask h request
        have hfits := ih hnext hbehind
        rwa [List.append_assoc] at hfits

/-! ## One name apart from the others -/

/-- Sessions that know the same about a name. -/
structure Agrees (name : String) (session other : Session) : Prop where
  files : session.files = other.files
  directory : session.library.directory = other.library.directory
  known : session.library.known.lookup name = other.library.known.lookup name

theorem Agrees.answer {name : String} {session other : Session} (h : Agrees name session other) :
    session.library.answer session.files name = other.library.answer other.files name := by
  rw [Library.answer, Library.answer, h.known, h.files, h.directory]

/-- An exchange about one name leaves what is known about another. -/
theorem Agrees.ask_left {name : String} {session other : Session} (h : Agrees name session other)
    {request : Request} (hname : name ≠ request.name) :
    Agrees name ⟨session.files, (session.ask request).loading.library⟩ other where
  files := h.files
  directory := by rw [loading_ask, Library.directory_loading, h.directory]
  known := by rw [loading_ask, Library.lookup_loading, if_neg hname, h.known]

theorem Agrees.ask {session other : Session} {request : Request}
    (h : Agrees request.name session other) :
    Agrees request.name ⟨session.files, (session.ask request).loading.library⟩
      ⟨other.files, (other.ask request).loading.library⟩ where
  files := h.files
  directory := by
    rw [loading_ask, loading_ask, Library.directory_loading, Library.directory_loading, h.directory]
  known := by
    rw [loading_ask, loading_ask, Library.lookup_loading, Library.lookup_loading, if_pos rfl,
      if_pos rfl, h.answer]

theorem Agrees.exchanges {name : String} {session other : Session} (h : Agrees name session other)
    (events : List Event) :
    ((session.exchanges events).filter (·.isAbout name)).map
        (fun exchange => (exchange.request, exchange.answer)) =
      (other.exchanges (events.filter (·.concerns name))).map
        fun exchange => (exchange.request, exchange.answer) := by
  induction events generalizing session other with
  | nil => rfl
  | cons event rest ih =>
    cases event with
    | change files => exact ih ⟨rfl, h.directory, h.known⟩
    | ask request =>
      by_cases hname : name = request.name
      · subst hname
        have hanswer : (session.ask request).answer = (other.ask request).answer := by
          rw [answer_ask, answer_ask, h.answer]
        have habout : (session.ask request).isAbout request.name = true := beq_self_eq_true _
        have hconcerns : (Event.ask request).concerns request.name = true := beq_self_eq_true _
        rw [List.filter_cons_of_pos hconcerns, Session.exchanges, List.filter_cons_of_pos habout,
          Session.exchanges, List.map_cons, List.map_cons, ih h.ask, hanswer]
        rfl
      · have habout : ¬ (session.ask request).isAbout name = true :=
          fun h => hname (eq_of_beq h).symm
        have hconcerns : ¬ (Event.ask request).concerns name = true :=
          fun h => hname (eq_of_beq h).symm
        rw [List.filter_cons_of_neg hconcerns, Session.exchanges, List.filter_cons_of_neg habout]
        exact ih (h.ask_left hname)

/-- In every session with the library of a directory there is one text for each name: the one that the
files of the first success gave. -/
theorem steady (directory : Option FilePath) (files : FilePath → Override) (events : List Event) :
    Steady directory files events := by
  refine ⟨fun earlier exchange later hsplit => ?_, fun name => ?_⟩
  · have hknows : (Library.ofDirectory directory).Knows directory [] := by
      refine ⟨rfl, fun _ _ => rfl, ?_⟩
      rintro name first ⟨⟩
    exact fits_of_mem_exchanges events hknows hsplit
  · exact Agrees.exchanges ⟨rfl, rfl, rfl⟩ events

end Session

end RestModule.Template
