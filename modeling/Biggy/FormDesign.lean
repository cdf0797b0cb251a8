import Biggy.FormRules
import Biggy.Outcome

/-!
# The configuration of a form

The settings of a form and its items travel as one JSON value. `validateConfig` checks it
against the table of the form and normalises its items; `snapshot` reads it off the live form.
-/
namespace Biggy
namespace FormDesign

open FormRules

/-- `FORM_KEYS`. -/
def formKeys : List String := ["title","description","purpose","in_catalog","catalog_group"]

/-- `ITEM_KEYS`. -/
def itemKeys : List String :=
  ["kind","field_id","relation_id","parent_field_id","filter_field_id","label_override","help_text","required",
    "readonly","rules_json","widget"]

/-- A JSON object. -/
abbrev Members := List (String × Json)

/-- `item[key] = value`. -/
def set (members : Members) (key : String) (value : Json) : Members := Keyed.put Prod.fst (key,value) members

/-! ### The live form -/

/-- An item of the live form with its columns. -/
structure MetaFormField where
  id : ℕ
  position : ℤ
  columns : String → Json

/-- The live form with its columns. -/
structure MetaForm where
  id : ℕ
  columns : String → Json
  items : List MetaFormField

def itemLe (a b : MetaFormField) : Bool := a.position < b.position || (a.position == b.position && a.id ≤ b.id)

def MetaFormField.members (item : MetaFormField) : Members := itemKeys.map fun key => (key,item.columns key)

/-- `snapshot`. -/
def snapshot (form : MetaForm) : Json :=
  .obj ((formKeys.map fun key => (key,form.columns key))++
    [("items",.arr ((form.items.mergeSort itemLe).map fun item => .obj item.members))])

inductive ColumnType
  | text | integer | boolean
  deriving DecidableEq

/-- The types of the columns that are set from a configuration. -/
def columnType (key : String) : ColumnType :=
  if key ∈ ["required","readonly","in_catalog"] then .boolean
  else if key ∈ ["field_id","relation_id","parent_field_id","filter_field_id"] then .integer
  else .text

def fitsColumn : ColumnType → Json → Bool
  | _, .null => true
  | .text, .str _ => true
  | .integer, .int _ => true
  | .boolean, .bool _ => true
  | _, _ => false

structure MetaRelation where
  kind : String
  fromTableId : ℕ
  toTableId : ℕ

structure Issue where
  level : String
  message : String

/-- What a configuration is checked against: the table of the form, the columns of the rows of
the table and of its fields, the relations, and the findings of `check_form`. -/
structure Site where
  table : MetaTable
  tableColumns : Json
  schema : Json
  relation : ℤ → Option MetaRelation
  check : Json → List Issue

/-- The texts of `dump` and their hashes. What is written for rules reads back as rules that are
written the same way. -/
structure DesignLib (ω : Type*) extends FormLib ω where
  dump : Json → String
  digest : Json → String
  arrangement : Arrangement
  dump_rules : ∀ rules : Members, rules ≠ [] → (∀ p ∈ rules, p.1 ∈ ["show","require","readonly"]) →
    dump (.obj rules) ≠ "" ∧ ∃ rules' : Members, loads (dump (.obj rules)) = .ok (.obj rules') ∧ rules' ≠ [] ∧
      (∀ p ∈ rules', p.1 ∈ ["show","require","readonly"]) ∧ dump (.obj rules') = dump (.obj rules)

section Config

variable {ω : Type*} (lib : DesignLib ω) (site : Site)

/-- `live_hash`. -/
def liveHash (form : MetaForm) : String :=
  lib.digest (.obj [("config",snapshot form),("schema",site.schema),("table",site.tableColumns)])

/-! ### Normalisation -/

/-- The rules of an item in the form in which they are stored. -/
def normalRules (item : Members) : Members :=
  match parseRules lib.toFormLib (Json.get item "rules_json") with
  | .ok rules => set item "rules_json" (if rules.isEmpty then .null else .str (lib.dump (.obj rules)))
  | .error _ => item

def normalFlags (item : Members) : Members :=
  set (set item "required" (.bool (Json.get item "required").truthy)) "readonly"
    (.bool (Json.get item "readonly").truthy)

def isField (item : Members) : Bool :=
  match Json.get item "kind" with
  | .str kind => kind = "field"
  | _ => false

/-- What `validate_config` makes of an item. -/
def normalItem : Json → Json
  | .obj item => .obj (if isField item then normalRules lib (normalFlags item) else normalFlags item)
  | other => other

/-- What `validate_config` makes of a configuration. -/
def normalise : Json → Json
  | .obj config => .obj (match Json.get config "items" with
    | .arr items => set config "items" (.arr (items.map (normalItem lib)))
    | _ => config)
  | other => other

/-- The members of an object. -/
def membersOf : Json → Members
  | .obj members => members
  | _ => []

/-- The items of a configuration. -/
def itemsOf (config : Json) : List Json :=
  match Json.get (membersOf config) "items" with
  | .arr items => items
  | _ => []

/-- `item.get(key)`. -/
def entry (item : Json) (key : String) : Json := Json.get (membersOf item) key

/-- The configuration with every setting and every key of an item, where a missing one is null. -/
def complete (config : Json) : Json :=
  .obj ((formKeys.map fun key => (key,entry config key))++
    [("items",.arr ((itemsOf config).map fun item => .obj (itemKeys.map fun key => (key,entry item key))))])

/-- The content of a configuration: what it is normalised to, with every key. -/
def content (config : Json) : Json := complete (normalise lib config)

/-! ### Validation -/

/-- `isinstance(value, str)` within a length, where `None` passes. -/
def shortText (limit : ℕ) : Json → Bool
  | .null => true
  | .str s => s.length ≤ limit
  | _ => false

def isBool : Json → Bool
  | .bool _ => true
  | _ => false

/-- The settings of the form. -/
def checkSettings (config : Members) : Except PyError Unit :=
  match [("title",160),("description",10000),("catalog_group",80)].find? fun p => !shortText p.2 (Json.get config p.1) with
  | some p => .error (.valueError (p.1++" is too long or has the wrong type."))
  | none =>
    let choose : PyError := .valueError "Choose a title, purpose and catalog setting."
    if !(Json.get config "title").truthy then .error choose
    else
      match readName (Json.get config "purpose") with
      | .error e => .error e
      | .ok purpose =>
        if purpose ∈ [some "data",some "view"] ∧ isBool (Json.get config "in_catalog") then .ok () else .error choose

/-- A reference is an ID, or there is none. -/
def validId : Json → Bool
  | .null => true
  | .int n => 1 ≤ n
  | _ => false

/-- `fields.get(id)`. -/
def Site.field (site : Site) : Json → Option MetaField
  | .int n => site.table.fields.find? fun f => decide ((f.id : ℤ) = n)
  | _ => none

/-- `session.get(MetaRelation, id)`. -/
def Site.relationAt (site : Site) : Json → Option MetaRelation
  | .int n => site.relation n
  | _ => none

/-- The keys and the values of an item, for whatever it shows: its kind. -/
def checkShape : Json → Except PyError (Members × String)
  | .obj item =>
    if !(item.all fun p => p.1 ∈ itemKeys) then .error (.valueError "Unknown form item properties.")
    else
      match readName (Json.get item "kind") with
      | .error e => .error e
      | .ok kind =>
        match kind.filter (· ∈ ["field","relation","section"]) with
        | none => .error (.valueError "Unknown form item type.")
        | some kind =>
          if !(["field_id","relation_id","parent_field_id","filter_field_id"].all fun key => validId (Json.get item key)) then
            .error (.valueError "Field and relationship references must be valid IDs.")
          else if !(["required","readonly"].all fun key =>
              match Json.get item key with | .null => true | value => isBool value) then
            .error (.valueError "Required and read-only settings must be boolean.")
          else
            match [("label_override",160),("help_text",255),("widget",30)].find? fun p =>
                !shortText p.2 (Json.get item p.1) with
            | some p => .error (.valueError (p.1++" is too long or invalid."))
            | none => .ok (item,kind)
  | _ => .error (.valueError "Unknown form item properties.")

/-- What an item shows: the fields that have been used, with its own. -/
def checkTarget (used : List MetaField) (item : Members) (kind : String) : Except PyError (List MetaField) :=
  if kind = "field" then
    match site.field (Json.get item "field_id") with
    | none => .error (.valueError "Use each field at most once and only from this table.")
    | some field =>
      if field ∈ used then .error (.valueError "Use each field at most once and only from this table.")
      else .ok (used++[field])
  else if kind = "relation" then
    match site.relationAt (Json.get item "relation_id") with
    | none => .error (.valueError "Choose a many-to-many relationship involving this table.")
    | some rel =>
      if rel.kind ≠ "mn" ∨ ¬(site.table.id = rel.fromTableId ∨ site.table.id = rel.toTableId) then
        .error (.valueError "Choose a many-to-many relationship involving this table.")
      else .ok used
  else if !(Json.get item "label_override").truthy then .error (.valueError "Give each section a heading.")
  else .ok used

/-- The first loop of `validate_config`. -/
def checkItem (used : List MetaField) (item : Json) : Except PyError (List MetaField) :=
  match checkShape item with
  | .error e => .error e
  | .ok (members,kind) => checkTarget site used members kind

/-- The types whose fields have no conditional rules. -/
def unruled (t : DataType) : Bool := t ∈ [DataType.file,.image,.formula,.autonumber]

/-- The rules of a field on the form. -/
def checkFieldRules (used : List MetaField) (rules : Members) (field : MetaField) : Except PyError (String × FormRules.Item) :=
  match FormRules.validate lib.toFormLib (.obj rules) used field.physName with
  | .error e => .error e
  | .ok trees =>
    if !rules.isEmpty ∧ unruled field.dataType then
      .error (.valueError "Uploads and generated fields cannot have conditional rules.")
    else if ((rules.lookup "show").isSome ∨ (rules.lookup "readonly").isSome) ∧ !field.nullable ∧
        field.defaultValue.getD "" = "" then
      .error (.valueError (field.label++
        ": a database-required field without a default cannot be hidden or conditionally read-only."))
    else .ok (field.physName,{ rules := trees })

/-- The second loop of `validate_config`: the rules of a field item. -/
def checkRules (used : List MetaField) : Json → Except PyError (List (String × FormRules.Item))
  | .obj item =>
    match parseRules lib.toFormLib (Json.get item "rules_json") with
    | .error e => .error e
    | .ok rules =>
      if !isField item then
        if rules.isEmpty then .ok []
        else .error (.valueError "Conditional rules currently apply to individual scalar fields and pickers.")
      else
        match site.field (Json.get item "field_id") with
        | none => .error .keyError
        | some field => (checkFieldRules lib used rules field).map fun entry => [entry]
  | _ => .error .typeError

/-- `rules_config`. -/
def rulesConfig (entries : List (String × FormRules.Item)) : FormConfig :=
  ⟨Keyed.puts Prod.fst entries,Keyed.nodup_puts entries⟩

/-- The items of a configuration. -/
def checkItems (items : List Json) : Except PyError Unit :=
  match items.foldlM (checkItem site) [] with
  | .error e => .error e
  | .ok used =>
    match items.mapM (checkRules lib site used) with
    | .error e => .error e
    | .ok entries => (order lib.arrangement (rulesConfig entries.flatten)).map fun _ => ()

/-- `set(config) == set(FORM_KEYS) | {'items'}`. -/
def hasKeys (config : Members) : Bool :=
  (config.all fun p => p.1 ∈ "items"::formKeys) && ("items"::formKeys).all fun key => (config.lookup key).isSome

/-- `validate_config`: the configuration as it leaves it, with what `check_form` finds. -/
def validateConfig : Json → Except PyError (Json × List Issue)
  | .obj config =>
    if !hasKeys config then .error (.valueError "A draft must contain the form settings and its items.")
    else
      match checkSettings config with
      | .error e => .error e
      | .ok () =>
        match Json.get config "items" with
        | .arr items =>
          if 200 < items.length then .error (.valueError "A form can have at most 200 items.")
          else
            (checkItems lib site items).map fun _ =>
              (normalise lib (.obj config),site.check (normalise lib (.obj config)))
        | _ => .error (.valueError "A form can have at most 200 items.")
  | _ => .error (.valueError "A draft must contain the form settings and its items.")

end Config

end FormDesign
end Biggy
