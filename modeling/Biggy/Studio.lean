import Biggy.ConfigCheck
import Biggy.Run

/-!
# The studio of a form

Designers edit one draft of a form: they save, preview, publish, reset or restore it, or apply
a template to it. Every action locks the form and its draft, and what fails is rolled back.
-/
namespace Biggy
namespace Studio

open FormDesign

/-! ### State -/

structure FormDraft where
  config : Json
  baseHash : String
  version : ℤ
  testedHash : Option String := none
  updatedBy : Option ℕ := none

structure FormRevision where
  id : ℕ
  formId : ℕ
  config : Json
  publishedBy : ℕ
  description : String

/-- What a template is applied with: the text of its mappings becomes a configuration. -/
structure TemplateSite where
  template : String → Option Json
  mapConfig : Json → Members → Except PyError Json
  permissions : String

/-- The live form with its draft and the revisions, and what they are checked against. -/
structure State where
  form : MetaForm
  draft : Option FormDraft
  revisions : List FormRevision
  site : Site
  templates : TemplateSite

/-- Why an action fails. -/
inductive Failure
  | python (e : PyError)
  | database
  | notFound
  | badRequest

/-- `response_data`; a fresh draft and an applied template are answered by their version. -/
structure Answer where
  version : ℤ
  issues : List Issue := []
  stale : Bool := false

/-- The columns of the form and its items: what a column holds of a value, `none` when it refuses it. A value
that fits the type of the column is held as it is. -/
structure Columns where
  hold : String → Json → Option Json
  newId : List MetaFormField → ℕ → ℕ
  hold_fits : ∀ key value held, hold key value = some held → fitsColumn (columnType key) value → held = value

/-- What the studio calls: `preview` says whether the sample is valid, `same` is `==` of two JSON values. -/
structure StudioLib (ω : Type*) extends DesignLib ω where
  columns : Columns
  preview : Site → MetaForm → Json → Members → Except PyError Bool
  same : Json → Json → Bool

section Actions

variable {ω : Type*} (lib : StudioLib ω)

/-! ### Publishing -/

/-- The form with the attributes that `publish` sets. -/
def written (form : MetaForm) (config : Json) : MetaForm where
  id := form.id
  columns := entry config
  items := (itemsOf config).mapIdx fun pos item => ⟨lib.columns.newId form.items pos,pos,entry item⟩

/-- The database takes every value. -/
def holdable (keys : List String) (values : String → Json) : Bool :=
  keys.all fun key => (lib.columns.hold key (values key)).isSome

def heldColumns (values : String → Json) (key : String) : Json := (lib.columns.hold key (values key)).getD .null

/-- The form as the database holds it. -/
def held (form : MetaForm) : Option MetaForm :=
  if holdable lib formKeys form.columns && form.items.all fun item => holdable lib itemKeys item.columns then
    some { form with
      columns := heldColumns lib form.columns
      items := form.items.map fun item => { item with columns := heldColumns lib item.columns } }
  else none

def nextId (revisions : List FormRevision) : ℕ := (revisions.map FormRevision.id).foldr max 0+1

/-- `publish`. -/
def publish (s : State) (draft : FormDraft) (user : ℕ) : Except Failure State :=
  if draft.baseHash ≠ liveHash lib.toDesignLib s.site s.form then
    .error (.python (.valueError "The live form or its table changed. Start a fresh draft and review your changes."))
  else
    match validateConfig lib.toDesignLib s.site draft.config with
    | .error e => .error (.python e)
    | .ok (config,issues) =>
      if issues.any fun i => i.level = "error" then
        .error (.python (.valueError "Resolve configuration errors before publishing."))
      else if draft.testedHash ≠ some (lib.digest config) then
        .error (.python (.valueError "Run a successful preview of this saved draft before publishing."))
      else
        let form := written lib s.form config
        match held lib form with
        | none => .error .database
        | some live =>
          let id := nextId s.revisions
          .ok { s with
            form := live
            revisions := s.revisions++[⟨id,s.form.id,snapshot s.form,user,"Before publication"⟩,
              ⟨id+1,s.form.id,snapshot form,user,"Published"⟩]
            draft := some { draft with
              config := snapshot form
              baseHash := liveHash lib.toDesignLib s.site form
              version := draft.version+1
              testedHash := none } }

/-! ### The other actions -/

def stale : Failure := .python (.valueError "This draft changed in another session. Reload before saving.")

/-- `lock_draft`. -/
def lockDraft (s : State) (version : Json) : Except Failure FormDraft :=
  match s.draft, version with
  | some draft, .int n => if draft.version = n then .ok draft else .error stale
  | _, _ => .error stale

/-- The draft with another configuration, based on the live form. -/
def rebase (s : State) (draft : FormDraft) (config : Json) : State :=
  { s with
    draft := some { draft with
      config := config
      baseHash := liveHash lib.toDesignLib s.site s.form
      version := draft.version+1
      testedHash := none } }

def save (s : State) (draft : FormDraft) (user : ℕ) (body : Members) : Except Failure State :=
  match validateConfig lib.toDesignLib s.site (Json.get body "config") with
  | .error e => .error (.python e)
  | .ok (config,_) =>
    .ok { s with
      draft := some { draft with
        config := config
        version := draft.version+1
        testedHash := none
        updatedBy := some user } }

def previewDraft (s : State) (draft : FormDraft) (body : Members) : Except Failure State :=
  match validateConfig lib.toDesignLib s.site draft.config with
  | .error e => .error (.python e)
  | .ok (config,issues) =>
    match lib.preview s.site s.form config body with
    | .error e => .error (.python e)
    | .ok valid =>
      .ok { s with
        draft := some { draft with
          version := draft.version+1
          testedHash := if valid && !(issues.any fun i => i.level = "error") then some (lib.digest config) else none } }

/-- The revision that a request names, when it belongs to the form. -/
def revisionOf (s : State) (body : Members) : Except PyError FormRevision :=
  match Json.get body "revision_id" with
  | .int n =>
    match s.revisions.find? fun r => decide ((r.id : ℤ) = n) with
    | some r => if r.formId = s.form.id then .ok r else .error (.valueError "Choose a revision belonging to this form.")
    | none => .error (.valueError "Choose a revision belonging to this form.")
  | _ => .error (.valueError "Choose a valid revision.")

def restore (s : State) (draft : FormDraft) (body : Members) : Except Failure State :=
  match revisionOf s body with
  | .error e => .error (.python e)
  | .ok revision =>
    match validateConfig lib.toDesignLib s.site revision.config with
    | .error e => .error (.python e)
    | .ok (config,_) => .ok (rebase lib s draft config)

inductive ActionName
  | save | preview | publish | reset | restore | other (name : String)
  deriving DecidableEq

/-- What an action commits. -/
def commit (s : State) (draft : FormDraft) (user : ℕ) (body : Members) : ActionName → Except Failure State
  | .save => save lib s draft user body
  | .preview => previewDraft lib s draft body
  | .publish => publish lib s draft user
  | .reset => .ok (rebase lib s draft (snapshot s.form))
  | .restore => restore lib s draft body
  | .other _ => .error .notFound

/-- `response_data`; of its validation the three caught exceptions are findings. -/
def responseData (s : State) : Except Failure Answer :=
  match s.draft with
  | none => .error .notFound
  | some draft =>
    let isStale := decide (draft.baseHash ≠ liveHash lib.toDesignLib s.site s.form)
    match validateConfig lib.toDesignLib s.site draft.config with
    | .ok (_,issues) => .ok ⟨draft.version,issues,isStale⟩
    | .error e =>
      if caught e then
        .ok ⟨draft.version,[⟨"error",match e with | .valueError message => message | _ => ""⟩],isStale⟩
      else .error (.python e)

/-- `action`: what is committed stays when the answer fails. -/
def action (s : State) (user : ℕ) (name : ActionName) : Json → Except Failure Answer × State
  | .obj body =>
    match lockDraft s (Json.get body "version") with
    | .error e => (.error e,s)
    | .ok draft =>
      match commit lib s draft user body name with
      | .error e => (.error e,s)
      | .ok s' => (responseData lib s',s')
  | _ => (.error .badRequest,s)

/-! ### Templates -/

/-- What the review of a template signs. -/
structure Stamp where
  user : ℕ
  form : ℕ
  template : String
  templateHash : String
  config : String
  live : String
  draft : ℤ
  permissions : String
  deriving DecidableEq

/-- The version of the draft, 0 without one. -/
def version (s : State) : ℤ := s.draft.elim 0 FormDraft.version

/-- `value is True`. -/
def isTrue : Json → Bool
  | .bool b => b
  | _ => false

def refuse (message : String) : Except Failure State := .error (.python (.valueError message))

/-- What `apply` commits; `reviewed` is the stamp of a token whose signature holds. -/
def applyTemplate (s : State) (user : ℕ) (key : String) (body : Json) (reviewed : Option Stamp) : Except Failure State :=
  match s.templates.template key, body with
  | none, _ => .error .notFound
  | some template, .obj body =>
    match s.templates.mapConfig template body with
    | .error e => .error (.python e)
    | .ok mapped =>
      match validateConfig lib.toDesignLib s.site mapped with
      | .error e => .error (.python e)
      | .ok (config,_) =>
        let stamp : Stamp := ⟨user,s.form.id,key,lib.digest template,lib.digest config,
          liveHash lib.toDesignLib s.site s.form,version s,s.templates.permissions⟩
        match reviewed with
        | none => refuse "Review these mappings and permissions before creating the draft."
        | some reviewed =>
          if reviewed ≠ stamp then
            refuse "The form, draft, mappings or permissions changed. Review again before applying."
          else
            let fresh : FormDraft := ⟨config,liveHash lib.toDesignLib s.site s.form,1,none,some user⟩
            match s.draft with
            | none => .ok { s with draft := some fresh }
            | some draft =>
              if !lib.same draft.config (snapshot s.form) ∧ !isTrue (Json.get body "replace_draft") then
                refuse "Choose whether to replace the existing saved draft."
              else .ok { s with draft := some { fresh with version := draft.version+1 } }
  | some _, _ => refuse "Expected field and relationship mappings."

/-- `apply`. -/
def apply (s : State) (user : ℕ) (key : String) (body : Json) (reviewed : Option Stamp) : Except Failure Answer × State :=
  match applyTemplate lib s user key body reviewed with
  | .error e => (.error e,s)
  | .ok s' => (.ok ⟨version s',[],false⟩,s')

/-! ### Runs -/

/-- `get_draft`. -/
def getDraft (s : State) (user : ℕ) : State :=
  match s.draft with
  | some _ => s
  | none =>
    { s with draft := some ⟨snapshot s.form,liveHash lib.toDesignLib s.site s.form,1,none,some user⟩ }

/-- What happens to a form: a designer opens its builder, acts on the draft or applies a template, or
somebody changes the live form or what is around it. -/
inductive Event
  | builder (user : ℕ)
  | action (user : ℕ) (name : ActionName) (body : Json)
  | apply (user : ℕ) (key : String) (body : Json) (reviewed : Option Stamp)
  | change (form : MetaForm) (site : Site) (templates : TemplateSite)

def perform (s : State) : Event → Except Failure Answer × State
  | .builder user => (responseData lib (getDraft lib s user),getDraft lib s user)
  | .action user name body => action lib s user name body
  | .apply user key body reviewed => apply lib s user key body reviewed
  | .change form site templates =>
    (.ok ⟨version s,[],false⟩,{ s with form := form, site := site, templates := templates })

def step (s : State) (e : Event) : State := (perform lib s e).2

end Actions

end Studio
end Biggy
